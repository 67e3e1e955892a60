import Mathlib.Data.List.Basic

/-!
# Scanners that start over

A scanner takes a token off the front of what is buffered. Where the buffer ends inside
a token it gives up, and starts over at the front of that token when more has come. It
may look behind the token it takes, so a token is not decided by its own text alone; it
must not depend on what is not there yet. A machine that takes one step per token then
does not see how its input was cut.
-/
namespace Spamass.Scanning

/-- A scanner, with what is seen of its tokens. `settle` is what it keeps of a buffer
that holds no whole token; a token that stops it may be empty. -/
structure Scanner (α τ ν : Type) where
  next : List α → Option (τ × List α)
  settle : List α → List α
  stops : τ → Bool
  see : τ → ν
  shorter : ∀ {s t r}, next s = some (t, r) → stops t = false → r.length < s.length
  stops_see : ∀ {t t'}, see t = see t' → stops t = stops t'
  extends_ : ∀ {s t r} (u), next s = some (t, r) →
    ∃ t', next (s ++ u) = some (t', r ++ u) ∧ see t' = see t
  settles : ∀ s u, next (settle s ++ u) = next (s ++ u)
  settled : ∀ s u, settle (settle s ++ u) = settle (s ++ u)

section Machine

variable {α τ ν σ ω : Type} (S : Scanner α τ ν) (step : σ → τ → σ) (halted : σ → Bool)

def drainWithin : Nat → σ → List α → σ × List α
  | 0, s, buffer => (s, buffer)
  | fuel + 1, s, buffer =>
    if halted s then (s, buffer)
    else
      match S.next buffer with
      | none => (s, S.settle buffer)
      | some (t, rest) =>
        if S.stops t then (step s t, rest) else drainWithin fuel (step s t) rest

/-- Tokens are taken until one stops, the machine halts or no whole token is left. -/
def drain (s : σ) (buffer : List α) : σ × List α :=
  drainWithin S step halted (buffer.length + 1) s buffer

theorem drainWithin_enough (fuel : Nat) (s : σ) (buffer : List α)
    (enough : buffer.length < fuel) :
    drainWithin S step halted fuel s buffer = drain S step halted s buffer := by
  induction size : buffer.length using Nat.strongRecOn generalizing fuel s buffer with
  | _ n ih =>
    obtain ⟨fuel, rfl⟩ : ∃ more, fuel = more + 1 := ⟨fuel - 1, by omega⟩
    rw [drain, drainWithin, drainWithin]
    split
    · rfl
    · cases next : S.next buffer with
      | none => rfl
      | some found =>
        cases stops : S.stops found.1 with
        | true => simp [stops]
        | false =>
          have shorter := S.shorter (t := found.1) (r := found.2) next stops
          -- both amounts of fuel are enough for the rest
          simp only [stops, Bool.false_eq_true, if_false]
          rw [ih _ (by omega) fuel _ found.2 (by omega) rfl,
            ih _ (by omega) buffer.length _ found.2 (by omega) rfl]

theorem drain_halted {s : σ} (stop : halted s = true) (buffer : List α) :
    drain S step halted s buffer = (s, buffer) := by
  rw [drain, drainWithin, if_pos stop]

theorem drain_none {s : σ} {buffer : List α} (running : halted s = false)
    (missing : S.next buffer = none) : drain S step halted s buffer = (s, S.settle buffer) := by
  rw [drain, drainWithin, if_neg (by simp [running]), missing]

theorem drain_stop {s : σ} {buffer rest : List α} {t : τ} (running : halted s = false)
    (found : S.next buffer = some (t, rest)) (stops : S.stops t = true) :
    drain S step halted s buffer = (step s t, rest) := by
  rw [drain, drainWithin, if_neg (by simp [running]), found]
  exact if_pos stops

theorem drain_some {s : σ} {buffer rest : List α} {t : τ} (running : halted s = false)
    (found : S.next buffer = some (t, rest)) (goes_on : S.stops t = false) :
    drain S step halted s buffer = drain S step halted (step s t) rest := by
  have shorter := S.shorter found goes_on
  rw [drain, drainWithin, if_neg (by simp [running]), found]
  simp only [goes_on, Bool.false_eq_true, if_false]
  exact drainWithin_enough S step halted _ _ _ shorter

/-- Induction along the tokens a machine takes. -/
theorem drain_induction {motive : σ → List α → Prop}
    (stop : ∀ s buffer, halted s = true → motive s buffer)
    (wait : ∀ s buffer, halted s = false → S.next buffer = none → motive s buffer)
    (last : ∀ s buffer t rest, halted s = false → S.next buffer = some (t, rest) →
      S.stops t = true → motive s buffer)
    (take : ∀ s buffer t rest, halted s = false → S.next buffer = some (t, rest) →
      S.stops t = false → motive (step s t) rest → motive s buffer)
    (s : σ) (buffer : List α) : motive s buffer := by
  induction size : buffer.length using Nat.strongRecOn generalizing s buffer with
  | _ n ih =>
    cases halts : halted s with
    | true => exact stop s buffer halts
    | false =>
      cases next : S.next buffer with
      | none => exact wait s buffer halts next
      | some found =>
        cases stops : S.stops found.1 with
        | true => exact last s buffer found.1 found.2 halts next stops
        | false =>
          have shorter := S.shorter (t := found.1) (r := found.2) next stops
          exact take s buffer found.1 found.2 halts next stops (ih _ (by omega) _ found.2 rfl)

/-- A chunk is appended to the buffer, which is then drained. -/
def feed (m : σ × List α) (chunk : List α) : σ × List α :=
  drain S step halted m.1 (m.2 ++ chunk)

/-- Steps and halting show no more of a state and a token than is seen of them, and a token
that stops the scanner halts the machine. -/
structure Respects (seen : σ → ω) : Prop where
  stops : ∀ s {t}, S.stops t = true → halted (step s t) = true
  step : ∀ {s s' t t'}, seen s = seen s' → S.see t = S.see t' → seen (step s t) = seen (step s' t')
  halted : ∀ {s s'}, seen s = seen s' → halted s = halted s'

/-- The same buffer, and states of which the same is seen. -/
def Alike (seen : σ → ω) (m m' : σ × List α) : Prop := seen m.1 = seen m'.1 ∧ m.2 = m'.2

variable {seen : σ → ω} (respects : Respects S step halted seen)

include respects

theorem drain_congr {s s' : σ} (same : seen s = seen s') (buffer : List α) :
    Alike seen (drain S step halted s buffer) (drain S step halted s' buffer) := by
  induction s, buffer using drain_induction S step halted generalizing s' with
  | stop s buffer halts =>
    have halts' := (respects.halted same).symm.trans halts
    rw [drain_halted S step halted halts, drain_halted S step halted halts']
    exact ⟨same, rfl⟩
  | wait s buffer running missing =>
    have running' := (respects.halted same).symm.trans running
    rw [drain_none S step halted running missing, drain_none S step halted running' missing]
    exact ⟨same, rfl⟩
  | last s buffer t rest running found stops =>
    have running' := (respects.halted same).symm.trans running
    rw [drain_stop S step halted running found stops, drain_stop S step halted running' found stops]
    exact ⟨respects.step same rfl, rfl⟩
  | take s buffer t rest running found goes_on ih =>
    have running' := (respects.halted same).symm.trans running
    rw [drain_some S step halted running found goes_on,
      drain_some S step halted running' found goes_on]
    exact ih (respects.step same rfl)

theorem feed_congr {m m' : σ × List α} (alike : Alike seen m m') (chunk : List α) :
    Alike seen (feed S step halted m chunk) (feed S step halted m' chunk) := by
  rw [feed, feed, alike.2]
  exact drain_congr S step halted respects alike.1 _

theorem feeds_congr {m m' : σ × List α} (alike : Alike seen m m') (chunks : List (List α)) :
    Alike seen (chunks.foldl (feed S step halted) m) (chunks.foldl (feed S step halted) m') := by
  induction chunks generalizing m m' with
  | nil => exact alike
  | cons chunk chunks ih => exact ih (feed_congr S step halted respects alike chunk)

/-- Draining what is there first, and the rest with what comes behind it, is draining it all. -/
theorem drain_append {s s' : σ} (same : seen s = seen s') (buffer more : List α) :
    Alike seen (feed S step halted (drain S step halted s buffer) more)
      (drain S step halted s' (buffer ++ more)) := by
  induction s, buffer using drain_induction S step halted generalizing s' with
  | stop s buffer halts =>
    rw [drain_halted S step halted halts]
    exact drain_congr S step halted respects same _
  | wait s buffer running missing =>
    rw [drain_none S step halted running missing, feed]
    have running' := (respects.halted same).symm.trans running
    -- both start over at the same place
    cases next : S.next (buffer ++ more) with
    | none =>
      have next' := (S.settles buffer more).trans next
      rw [drain_none S step halted running' next, drain_none S step halted running next',
        S.settled]
      exact ⟨same, rfl⟩
    | some found =>
      have next' := (S.settles buffer more).trans next
      cases stops : S.stops found.1 with
      | true =>
        rw [drain_stop S step halted running' next stops,
          drain_stop S step halted running next' stops]
        exact ⟨respects.step same rfl, rfl⟩
      | false =>
        rw [drain_some S step halted running' next stops,
          drain_some S step halted running next' stops]
        exact drain_congr S step halted respects (respects.step same rfl) _
  | last s buffer t rest running found stops =>
    have running' := (respects.halted same).symm.trans running
    obtain ⟨t', found', alike⟩ := S.extends_ more found
    have stops' := (S.stops_see alike).trans stops
    -- a machine that was stopped leaves what comes then buffered
    rw [drain_stop S step halted running found stops, feed,
      drain_halted S step halted (respects.stops s stops),
      drain_stop S step halted running' found' stops']
    exact ⟨respects.step same alike.symm, rfl⟩
  | take s buffer t rest running found goes_on ih =>
    have running' := (respects.halted same).symm.trans running
    obtain ⟨t', found', alike⟩ := S.extends_ more found
    have goes_on' := (S.stops_see alike).trans goes_on
    rw [drain_some S step halted running found goes_on,
      drain_some S step halted running' found' goes_on']
    exact ih (respects.step same alike.symm)

/-- However a stream is cut into chunks, the machine is left in the same state as far as it is
seen, and with the same buffer. -/
theorem feed_chunks (m : σ × List α) (chunk : List α) (chunks : List (List α)) :
    Alike seen (chunks.foldl (feed S step halted) (feed S step halted m chunk))
      (feed S step halted m (chunk ++ chunks.flatten)) := by
  induction chunks generalizing chunk with
  | nil =>
    rw [List.flatten_nil, List.append_nil]
    exact ⟨rfl, rfl⟩
  | cons next chunks ih =>
    have both : Alike seen (feed S step halted (feed S step halted m chunk) next)
        (feed S step halted m (chunk ++ next)) := by
      have whole := drain_append S step halted respects (rfl : seen m.1 = seen m.1)
        (m.2 ++ chunk) next
      rwa [List.append_assoc] at whole
    have later := feeds_congr S step halted respects both chunks
    have rest := ih (chunk ++ next)
    rw [List.append_assoc] at rest
    exact ⟨later.1.trans rest.1, later.2.trans rest.2⟩

end Machine

end Spamass.Scanning
