import Mathlib.Data.List.Basic

/-!
# Framed machines

A stream arrives in chunks of arbitrary size. A framer cuts pieces off the front
of what is buffered, and a machine takes one step per piece. A step may break
the turn off, which leaves the remaining pieces buffered for the next chunk.
The library compares runs over different chunkings of one stream, and runs of
two machines over one chunking.
-/
namespace Spamass.Framing

/-- A cutting rule that never looks past the piece it returns. -/
structure Framer (α : Type) where
  cut : List α → Option (List α × List α)
  joins : ∀ {s l r}, cut s = some (l, r) → l ++ r = s
  nonempty : ∀ {s l r}, cut s = some (l, r) → l ≠ []
  decides : ∀ {s l r} (t), cut s = some (l, r) → cut (l ++ t) = some (l, t)

/-- What one step of a machine leaves behind. -/
structure Step (σ ε : Type) where
  state : σ
  events : List ε
  breaks : Bool
  deriving Repr, DecidableEq

section Pieces

variable {α : Type} (F : Framer α)

theorem Framer.extends_ {s l r : List α} (t : List α) (cut : F.cut s = some (l, r)) :
    F.cut (s ++ t) = some (l, r ++ t) := by
  have joined := F.joins cut
  rw [← joined, List.append_assoc]
  exact F.decides (r ++ t) cut

theorem Framer.rest_shorter {s l r : List α} (cut : F.cut s = some (l, r)) :
    r.length < s.length := by
  have joined := F.joins cut
  have pos : 0 < l.length := List.length_pos_iff.mpr (F.nonempty cut)
  rw [← joined, List.length_append]
  omega

theorem Framer.cut_nil : F.cut [] = none := by
  cases cut : F.cut [] with
  | none => rfl
  | some pair => exact absurd (F.rest_shorter (l := pair.1) (r := pair.2) cut) (Nat.not_lt_zero _)

def piecesWithin : Nat → List α → List (List α) × List α
  | 0, s => ([], s)
  | fuel + 1, s =>
    match F.cut s with
    | none => ([], s)
    | some (l, r) => (l :: (piecesWithin fuel r).1, (piecesWithin fuel r).2)

theorem piecesWithin_enough (fuel : Nat) (s : List α) (enough : s.length ≤ fuel) :
    piecesWithin F fuel s = piecesWithin F s.length s := by
  -- two amounts of fuel are compared, both large enough for what is left
  induction fuel using Nat.strongRecOn generalizing s with
  | _ fuel ih =>
    cases fuel with
    | zero =>
      have empty : s.length = 0 := by omega
      rw [empty]
    | succ fuel =>
      cases size : s.length with
      | zero =>
        have empty : s = [] := List.eq_nil_of_length_eq_zero size
        cases cut : F.cut s with
        | none => simp [piecesWithin, cut]
        | some pair =>
          have shorter := F.rest_shorter (l := pair.1) (r := pair.2) cut
          omega
      | succ n =>
        cases cut : F.cut s with
        | none => simp [piecesWithin, cut]
        | some pair =>
          have shorter := F.rest_shorter (l := pair.1) (r := pair.2) cut
          have left := ih fuel (by omega) pair.2 (by omega)
          have right := ih n (by omega) pair.2 (by omega)
          simp only [piecesWithin, cut]
          rw [left, right]

/-- The complete pieces of a stream, and what is left of it behind them. -/
def Framer.pieces (s : List α) : List (List α) × List α := piecesWithin F s.length s

theorem Framer.pieces_none {s : List α} (cut : F.cut s = none) : F.pieces s = ([], s) := by
  unfold Framer.pieces
  cases s.length <;> simp [piecesWithin, cut]

theorem Framer.pieces_some {s l r : List α} (cut : F.cut s = some (l, r)) :
    F.pieces s = (l :: (F.pieces r).1, (F.pieces r).2) := by
  have shorter := F.rest_shorter cut
  unfold Framer.pieces
  obtain ⟨n, size⟩ : ∃ n, s.length = n + 1 := ⟨s.length - 1, by omega⟩
  rw [size]
  simp only [piecesWithin, cut]
  rw [piecesWithin_enough F n r (by omega)]

/-- Induction along the pieces of a stream. -/
theorem Framer.pieces_induction {motive : List α → Prop}
    (rest : ∀ s, F.cut s = none → motive s)
    (piece : ∀ s l r, F.cut s = some (l, r) → motive r → motive s) (s : List α) : motive s := by
  induction size : s.length using Nat.strongRecOn generalizing s with
  | _ n ih =>
    cases cut : F.cut s with
    | none => exact rest s cut
    | some pair =>
      have shorter := F.rest_shorter (l := pair.1) (r := pair.2) cut
      exact piece s pair.1 pair.2 cut (ih _ (by omega) pair.2 rfl)

theorem Framer.pieces_flatten (s : List α) :
    (F.pieces s).1.flatten ++ (F.pieces s).2 = s := by
  induction s using F.pieces_induction with
  | rest s cut => simp [F.pieces_none cut]
  | piece s l r cut ih =>
    rw [F.pieces_some cut, List.flatten_cons, List.append_assoc, ih, F.joins cut]

theorem Framer.pieces_nonempty (s : List α) : ∀ l ∈ (F.pieces s).1, l ≠ [] := by
  induction s using F.pieces_induction with
  | rest s cut => simp [F.pieces_none cut]
  | piece s l r cut ih =>
    rw [F.pieces_some cut]
    intro l' member
    rcases List.mem_cons.mp member with rfl | later
    · exact F.nonempty cut
    · exact ih l' later

theorem Framer.pieces_cut (s l : List α) (ls : List (List α)) (cuts : (F.pieces s).1 = l :: ls) :
    F.cut s = some (l, ls.flatten ++ (F.pieces s).2) := by
  cases cut : F.cut s with
  | none => simp [F.pieces_none cut] at cuts
  | some pair =>
    rw [F.pieces_some cut] at cuts ⊢
    obtain ⟨rfl, rfl⟩ := List.cons.inj cuts
    rw [F.pieces_flatten]

/-- Nothing is left to cut behind the last piece. -/
theorem Framer.pieces_rest (s : List α) : F.cut (F.pieces s).2 = none := by
  induction s using F.pieces_induction with
  | rest s cut => rwa [F.pieces_none cut]
  | piece s l r cut ih => rwa [F.pieces_some cut]

/-- Every piece is one by itself. -/
theorem Framer.pieces_each (s : List α) : ∀ l ∈ (F.pieces s).1, F.cut l = some (l, []) := by
  induction s using F.pieces_induction with
  | rest s cut =>
    rw [F.pieces_none cut]
    exact List.forall_mem_nil _
  | piece s l r cut ih =>
    have alone := F.decides [] cut
    rw [List.append_nil] at alone
    rw [F.pieces_some cut]
    exact List.forall_mem_cons.mpr ⟨alone, ih⟩

/-- The pieces of a stream do not depend on what follows it. -/
theorem Framer.pieces_append (s t : List α) :
    F.pieces (s ++ t) = ((F.pieces s).1 ++ (F.pieces ((F.pieces s).2 ++ t)).1,
      (F.pieces ((F.pieces s).2 ++ t)).2) := by
  induction s using F.pieces_induction with
  | rest s cut => simp [F.pieces_none cut]
  | piece s l r cut ih =>
    rw [F.pieces_some (F.extends_ t cut), ih, F.pieces_some cut]
    simp

/-- A tail of the pieces is cut again in the same way. -/
theorem Framer.pieces_tail (s : List α) (taken left : List (List α))
    (cuts : (F.pieces s).1 = taken ++ left) :
    F.pieces (left.flatten ++ (F.pieces s).2) = (left, (F.pieces s).2) := by
  induction s using F.pieces_induction generalizing taken with
  | rest s cut =>
    rw [F.pieces_none cut] at cuts ⊢
    obtain ⟨-, rfl⟩ := List.append_eq_nil_iff.mp cuts.symm
    simpa using F.pieces_none cut
  | piece s l r cut ih =>
    rw [F.pieces_some cut] at cuts ⊢
    cases taken with
    | nil =>
      simp only [List.nil_append] at cuts
      subst cuts
      rw [List.flatten_cons, List.append_assoc, F.pieces_flatten, F.joins cut, F.pieces_some cut]
    | cons first taken =>
      simp only [List.cons_append, List.cons.injEq] at cuts
      exact ih taken cuts.2

/-- The pieces taken so far are the pieces of what they are made of, with whatever
follows cut behind them. -/
theorem Framer.pieces_taken (s t : List α) (taken left : List (List α))
    (cuts : (F.pieces s).1 = taken ++ left) :
    F.pieces (taken.flatten ++ t) = (taken ++ (F.pieces t).1, (F.pieces t).2) := by
  induction s using F.pieces_induction generalizing taken with
  | rest s cut =>
    rw [F.pieces_none cut] at cuts
    obtain ⟨rfl, -⟩ := List.append_eq_nil_iff.mp cuts.symm
    rfl
  | piece s l r cut ih =>
    rw [F.pieces_some cut] at cuts
    cases taken with
    | nil => rfl
    | cons first taken =>
      simp only [List.cons_append, List.cons.injEq] at cuts
      obtain ⟨rfl, later⟩ := cuts
      rw [List.flatten_cons, List.append_assoc, F.pieces_some (F.decides _ cut), ih taken later]
      rfl

/-- Pieces that are cut from nothing but themselves are cut again, whatever follows them. -/
theorem Framer.pieces_whole (ls : List (List α)) (t : List α)
    (whole : ∀ l ∈ ls, F.cut l = some (l, [])) :
    F.pieces (ls.flatten ++ t) = (ls ++ (F.pieces t).1, (F.pieces t).2) := by
  induction ls with
  | nil => rfl
  | cons l ls ih =>
    have cut := F.decides (ls.flatten ++ t) (whole l (List.mem_cons_self ..))
    rw [List.flatten_cons, List.append_assoc, F.pieces_some cut,
      ih fun later member => whole later (List.mem_cons_of_mem _ member)]
    rfl

end Pieces

section Machine

variable {α σ ε : Type} (step : σ → List α → Step σ ε)

/-- One step per piece, breaks ignored. -/
def runAll : σ → List (List α) → σ × List ε
  | s, [] => (s, [])
  | s, l :: ls =>
    ((runAll (step s l).state ls).1, (step s l).events ++ (runAll (step s l).state ls).2)

/-- One turn: pieces are taken until they run out or a step breaks off. -/
def turn : σ → List (List α) → σ × List (List α) × List ε
  | s, [] => (s, [], [])
  | s, l :: ls =>
    if (step s l).breaks then ((step s l).state, ls, (step s l).events)
    else
      ((turn (step s l).state ls).1, (turn (step s l).state ls).2.1,
        (step s l).events ++ (turn (step s l).state ls).2.2)

theorem runAll_append (s : σ) (xs ys : List (List α)) :
    runAll step s (xs ++ ys) = ((runAll step (runAll step s xs).1 ys).1,
      (runAll step s xs).2 ++ (runAll step (runAll step s xs).1 ys).2) := by
  induction xs generalizing s with
  | nil => rfl
  | cons l ls ih => simp [runAll, ih]

/-- The pieces a turn takes, the ones it leaves, and what the taken ones do. -/
theorem turn_takes (s : σ) (ls : List (List α)) :
    ∃ taken, ls = taken ++ (turn step s ls).2.1 ∧
      runAll step s taken = ((turn step s ls).1, (turn step s ls).2.2) := by
  induction ls generalizing s with
  | nil => exact ⟨[], rfl, rfl⟩
  | cons l ls ih =>
    simp only [turn]
    split
    · exact ⟨[l], rfl, by simp [runAll]⟩
    · obtain ⟨taken, cuts, runs⟩ := ih (step s l).state
      refine ⟨l :: taken, ?_, ?_⟩
      · simp only [List.cons_append, ← cuts]
      · simp only [runAll, runs]

/-- No step of a run over the pieces breaks off. -/
def Unbroken : σ → List (List α) → Prop
  | _, [] => True
  | s, l :: ls => (step s l).breaks = false ∧ Unbroken (step s l).state ls

theorem turn_unbroken_append (s : σ) (xs ys : List (List α)) (unbroken : Unbroken step s xs) :
    turn step s (xs ++ ys) = ((turn step (runAll step s xs).1 ys).1,
      (turn step (runAll step s xs).1 ys).2.1,
      (runAll step s xs).2 ++ (turn step (runAll step s xs).1 ys).2.2) := by
  induction xs generalizing s with
  | nil => rfl
  | cons l ls ih => simp [turn, runAll, unbroken.1, ih _ unbroken.2]

theorem turn_unbroken (s : σ) (ls : List (List α)) (unbroken : Unbroken step s ls) :
    turn step s ls = ((runAll step s ls).1, [], (runAll step s ls).2) := by
  simpa [turn] using turn_unbroken_append step s ls [] unbroken

/-- A turn ends at the first step that breaks off. -/
theorem turn_breaks (s : σ) (before : List (List α)) (l : List α) (after : List (List α))
    (unbroken : Unbroken step s before) (breaks : (step (runAll step s before).1 l).breaks = true) :
    turn step s (before ++ l :: after) =
      ((runAll step s (before ++ [l])).1, after, (runAll step s (before ++ [l])).2) := by
  rw [turn_unbroken_append step s before _ unbroken, runAll_append]
  simp [turn, breaks, runAll]

theorem unbroken_append (s : σ) (xs ys : List (List α)) :
    Unbroken step s (xs ++ ys) ↔
      Unbroken step s xs ∧ Unbroken step (runAll step s xs).1 ys := by
  induction xs generalizing s with
  | nil => simp [Unbroken, runAll]
  | cons l ls ih => simp [Unbroken, runAll, ih, and_assoc]

/-- A run that is broken has a first step that breaks off. -/
theorem broken_splits (s : σ) (ls : List (List α)) (broken : ¬Unbroken step s ls) :
    ∃ before l after, ls = before ++ l :: after ∧ Unbroken step s before ∧
      (step (runAll step s before).1 l).breaks = true := by
  induction ls generalizing s with
  | nil => exact absurd trivial broken
  | cons l ls ih =>
    cases breaks : (step s l).breaks with
    | true => exact ⟨[], l, ls, rfl, trivial, breaks⟩
    | false =>
      obtain ⟨before, l', after, cuts, unbroken, breaks'⟩ :=
        ih (step s l).state fun later => broken ⟨breaks, later⟩
      exact ⟨l :: before, l', after, by rw [cuts]; rfl, ⟨breaks, unbroken⟩, breaks'⟩

end Machine

section Halting

variable {ε : Type} (halts : ε → Bool)

/-- A log up to and including its first halting event. -/
def upTo : List ε → List ε
  | [] => []
  | e :: es => if halts e then [e] else e :: upTo es

theorem upTo_append_halted (xs ys : List ε) (halted : xs.any halts = true) :
    upTo halts (xs ++ ys) = upTo halts xs := by
  induction xs with
  | nil => simp at halted
  | cons e es ih =>
    simp only [List.cons_append, upTo]
    split
    · rfl
    next running => rw [ih (by simpa [running] using halted)]

theorem upTo_append_running (xs ys : List ε) (running : xs.any halts = false) :
    upTo halts (xs ++ ys) = xs ++ upTo halts ys := by
  induction xs with
  | nil => rfl
  | cons e es ih =>
    simp only [List.any_cons, Bool.or_eq_false_iff] at running
    simp only [List.cons_append, upTo, running.1, Bool.false_eq_true, if_false, ih running.2]

theorem upTo_running (xs : List ε) (running : xs.any halts = false) : upTo halts xs = xs := by
  simpa [upTo] using upTo_append_running halts xs [] running

theorem upTo_eq_nil (xs : List ε) (missing : upTo halts xs = []) : xs = [] := by
  cases xs with
  | nil => rfl
  | cons e es =>
    simp only [upTo] at missing
    split at missing <;> simp at missing

theorem any_upTo (xs : List ε) : (upTo halts xs).any halts = xs.any halts := by
  induction xs with
  | nil => rfl
  | cons e es ih => cases halted : halts e <;> simp [upTo, halted, ih]

/-- Filtering out events that do not halt commutes with cutting the log. -/
theorem upTo_filter (keep : ε → Bool) (visible : ∀ e, halts e = true → keep e = true)
    (xs : List ε) : upTo halts (xs.filter keep) = (upTo halts xs).filter keep := by
  induction xs with
  | nil => rfl
  | cons e es ih =>
    cases halted : halts e with
    | true => simp [upTo, halted, visible e halted]
    | false =>
      by_cases kept : keep e = true
      · simp [upTo, halted, kept, ih]
      · simp [upTo, halted, kept, ih]

theorem any_filter_visible (keep : ε → Bool) (visible : ∀ e, halts e = true → keep e = true)
    (xs : List ε) : (xs.filter keep).any halts = xs.any halts := by
  induction xs with
  | nil => rfl
  | cons e es ih =>
    by_cases kept : keep e = true
    · simp [kept, ih]
    · have running : halts e = false := by
        cases halted : halts e with
        | false => rfl
        | true => exact absurd (visible e halted) kept
      simp [kept, running, ih]

end Halting

section Feed

variable {α σ ε : Type} (F : Framer α) (step : σ → List α → Step σ ε)

/-- Append a chunk to the buffer and play one turn on it. -/
def feedChunk (s : σ) (buffer chunk : List α) : (σ × List α) × List ε :=
  (((turn step s (F.pieces (buffer ++ chunk)).1).1,
    (turn step s (F.pieces (buffer ++ chunk)).1).2.1.flatten ++ (F.pieces (buffer ++ chunk)).2),
    (turn step s (F.pieces (buffer ++ chunk)).1).2.2)

/-- Feed the chunks one after another. -/
def feed : σ → List α → List (List α) → (σ × List α) × List ε
  | s, buffer, [] => ((s, buffer), [])
  | s, buffer, c :: cs =>
    ((feed (feedChunk F step s buffer c).1.1 (feedChunk F step s buffer c).1.2 cs).1,
      (feedChunk F step s buffer c).2 ++
        (feed (feedChunk F step s buffer c).1.1 (feedChunk F step s buffer c).1.2 cs).2)

/-- A chunk takes pieces off the stream and leaves the rest of the stream to be cut as before. -/
theorem feedChunk_takes (s : σ) (buffer chunk t : List α) :
    ∃ taken, runAll step s taken = ((feedChunk F step s buffer chunk).1.1,
        (feedChunk F step s buffer chunk).2) ∧
      F.pieces (buffer ++ chunk ++ t) =
        (taken ++ (F.pieces ((feedChunk F step s buffer chunk).1.2 ++ t)).1,
          (F.pieces ((feedChunk F step s buffer chunk).1.2 ++ t)).2) := by
  obtain ⟨taken, cuts, runs⟩ := turn_takes step s (F.pieces (buffer ++ chunk)).1
  refine ⟨taken, runs, ?_⟩
  have tail := F.pieces_tail (buffer ++ chunk) taken _ cuts
  rw [F.pieces_append (buffer ++ chunk) t]
  simp only [feedChunk]
  rw [F.pieces_append (_ ++ _) t, tail, ← List.append_assoc, ← cuts]

/-- The pieces taken by a run and what it leaves buffered make up the stream. -/
theorem feed_takes (s : σ) (buffer : List α) (chunks : List (List α)) :
    ∃ taken, runAll step s taken = ((feed F step s buffer chunks).1.1,
        (feed F step s buffer chunks).2) ∧
      taken <+: (F.pieces (buffer ++ chunks.flatten)).1 ∧
      taken.flatten ++ (feed F step s buffer chunks).1.2 = buffer ++ chunks.flatten := by
  induction chunks generalizing s buffer with
  | nil => exact ⟨[], rfl, List.nil_prefix, by simp [feed]⟩
  | cons c cs ih =>
    obtain ⟨first, runs, cuts⟩ := feedChunk_takes F step s buffer c cs.flatten
    obtain ⟨later, laterRuns, laterCuts, joined⟩ := ih (feedChunk F step s buffer c).1.1
      (feedChunk F step s buffer c).1.2
    have whole := F.pieces_flatten (buffer ++ c ++ cs.flatten)
    have here := F.pieces_flatten ((feedChunk F step s buffer c).1.2 ++ cs.flatten)
    refine ⟨first ++ later, ?_, ?_, ?_⟩
    · simp only [feed, runAll_append, runs, laterRuns]
    · rw [List.flatten_cons, ← List.append_assoc, cuts]
      exact List.prefix_append_right_inj first |>.mpr laterCuts
    · rw [cuts, List.flatten_append, List.append_assoc, here] at whole
      rw [List.flatten_append, List.append_assoc, feed, joined, whole, List.flatten_cons,
        List.append_assoc]

/-- A stream that arrives piece by piece is played whole, whichever steps break off. -/
theorem feed_pieces (s : σ) (ls : List (List α)) (whole : ∀ l ∈ ls, F.cut l = some (l, []))
    (rest : List α) (waiting : F.cut rest = none) :
    feed F step s [] (ls ++ [rest]) = (((runAll step s ls).1, rest), (runAll step s ls).2) := by
  induction ls generalizing s with
  | nil => simp [feed, feedChunk, F.pieces_none waiting, turn, runAll]
  | cons l ls ih =>
    obtain ⟨alone, later⟩ := List.forall_mem_cons.mp whole
    have pieces : F.pieces l = ([l], []) := by
      rw [F.pieces_some alone, F.pieces_none F.cut_nil]
    have first : feedChunk F step s [] l = (((step s l).state, []), (step s l).events) := by
      simp only [feedChunk, List.nil_append, pieces, turn]
      split <;> simp
    rw [List.cons_append, feed, first, ih (step s l).state later]
    rfl

/-- Until the run halts, a step breaks off at the last complete piece only. -/
def SteadyUntil (halts : ε → Bool) : σ → List (List α) → Prop
  | _, [] => True
  | s, l :: ls =>
    (step s l).events.any halts = true ∨
      (((step s l).breaks = true → ls = []) ∧ SteadyUntil halts (step s l).state ls)

variable (halts : ε → Bool)

theorem turn_steady (s : σ) (ls : List (List α)) (steady : SteadyUntil step halts s ls) :
    upTo halts (turn step s ls).2.2 = upTo halts (runAll step s ls).2 ∧
      ((runAll step s ls).2.any halts = false →
        turn step s ls = ((runAll step s ls).1, [], (runAll step s ls).2)) := by
  induction ls generalizing s with
  | nil => exact ⟨rfl, fun _ => rfl⟩
  | cons l ls ih =>
    simp only [turn, runAll]
    -- the events halt here, or a break has nothing behind it
    rcases steady with halted | ⟨last, later⟩
    · refine ⟨?_, ?_⟩
      · rw [upTo_append_halted halts _ _ halted]
        split
        · rfl
        · rw [upTo_append_halted halts _ _ halted]
      · simp [halted]
    · split
      next breaks =>
        obtain rfl := last breaks
        simp [runAll]
      · cases halted : (step s l).events.any halts with
        | true => simp [upTo_append_halted halts _ _ halted, halted]
        | false =>
          obtain ⟨logs, runs⟩ := ih _ later
          rw [upTo_append_running halts _ _ halted, upTo_append_running halts _ _ halted, logs]
          refine ⟨rfl, fun running => ?_⟩
          rw [List.any_append, halted, Bool.false_or] at running
          rw [runs running]

theorem steadyUntil_append (s : σ) (xs ys : List (List α))
    (steady : SteadyUntil step halts s (xs ++ ys)) :
    SteadyUntil step halts s xs ∧
      ((runAll step s xs).2.any halts = false → SteadyUntil step halts (runAll step s xs).1 ys) := by
  induction xs generalizing s with
  | nil => exact ⟨trivial, fun _ => steady⟩
  | cons l ls ih =>
    rcases steady with halted | ⟨last, later⟩
    · exact ⟨Or.inl halted, by simp [runAll, halted]⟩
    · obtain ⟨left, right⟩ := ih _ later
      refine ⟨Or.inr ⟨fun breaks => (List.append_eq_nil_iff.mp (last breaks)).1, left⟩, ?_⟩
      intro running
      simp only [runAll, List.any_append, Bool.or_eq_false_iff] at running
      exact right running.2

/-- The chunks do not matter to a run that is steady until it halts: it does what
one step per piece does, up to the halting event. -/
theorem feed_steady (s : σ) (buffer : List α) (chunks : List (List α))
    (waiting : F.cut buffer = none)
    (steady : SteadyUntil step halts s (F.pieces (buffer ++ chunks.flatten)).1) :
    upTo halts (feed F step s buffer chunks).2 =
        upTo halts (runAll step s (F.pieces (buffer ++ chunks.flatten)).1).2 ∧
      ((runAll step s (F.pieces (buffer ++ chunks.flatten)).1).2.any halts = false →
        feed F step s buffer chunks =
          (((runAll step s (F.pieces (buffer ++ chunks.flatten)).1).1,
            (F.pieces (buffer ++ chunks.flatten)).2),
            (runAll step s (F.pieces (buffer ++ chunks.flatten)).1).2)) := by
  induction chunks generalizing s buffer with
  | nil => simp [feed, F.pieces_none waiting, runAll]
  | cons c cs ih =>
    rw [List.flatten_cons, ← List.append_assoc, F.pieces_append] at steady ⊢
    obtain ⟨here, later⟩ := steadyUntil_append step halts _ _ _ steady
    obtain ⟨logs, runs⟩ := turn_steady step halts _ _ here
    simp only [feed, feedChunk, runAll_append]
    -- if a halting event is in this chunk, what later chunks do does not show
    cases halted : (runAll step s (F.pieces (buffer ++ c)).1).2.any halts with
    | true =>
      have played : (turn step s (F.pieces (buffer ++ c)).1).2.2.any halts = true := by
        rw [← any_upTo, logs, any_upTo, halted]
      rw [upTo_append_halted halts _ _ halted, upTo_append_halted halts _ _ played, logs]
      simp [halted]
    | false =>
      rw [runs halted]
      simp only [List.flatten_nil, List.nil_append]
      obtain ⟨laterLogs, laterRuns⟩ := ih _ _ (F.pieces_rest _) (later halted)
      rw [upTo_append_running halts _ _ halted, upTo_append_running halts _ _ halted, laterLogs]
      refine ⟨rfl, fun running => ?_⟩
      rw [List.any_append, halted, Bool.false_or] at running
      rw [laterRuns running]

theorem steady_of_unbroken (s : σ) (ls : List (List α)) (unbroken : Unbroken step s ls) :
    SteadyUntil step halts s ls := by
  induction ls generalizing s with
  | nil => trivial
  | cons l ls ih => exact Or.inr ⟨fun breaks => by simp [unbroken.1] at breaks, ih _ unbroken.2⟩

/-- A run without breaks plays one step per piece, whatever the chunks. -/
theorem feed_unbroken (s : σ) (buffer : List α) (chunks : List (List α))
    (waiting : F.cut buffer = none)
    (unbroken : Unbroken step s (F.pieces (buffer ++ chunks.flatten)).1) :
    feed F step s buffer chunks =
      (((runAll step s (F.pieces (buffer ++ chunks.flatten)).1).1,
        (F.pieces (buffer ++ chunks.flatten)).2),
        (runAll step s (F.pieces (buffer ++ chunks.flatten)).1).2) := by
  have steady := steady_of_unbroken step (fun _ => false) s _ unbroken
  exact (feed_steady F step _ s buffer chunks waiting steady).2 (by simp)

/-- A run that is not steady breaks off in front of a complete piece, before it halts. -/
theorem unsteady_splits (s : σ) (ls : List (List α)) (unsteady : ¬SteadyUntil step halts s ls) :
    ∃ before l next after, ls = before ++ l :: next :: after ∧ Unbroken step s before ∧
      (step (runAll step s before).1 l).breaks = true ∧
      (runAll step s (before ++ [l])).2.any halts = false := by
  induction ls generalizing s with
  | nil => exact absurd trivial unsteady
  | cons l ls ih =>
    simp only [SteadyUntil, not_or, Bool.not_eq_true] at unsteady
    obtain ⟨running, notSteady⟩ := unsteady
    cases breaks : (step s l).breaks with
    | true =>
      cases ls with
      | nil => exact absurd ⟨fun _ => rfl, trivial⟩ notSteady
      | cons next after =>
        exact ⟨[], l, next, after, rfl, trivial, breaks, by simpa [runAll] using running⟩
    | false =>
      obtain ⟨before, l', next, after, cuts, unbroken, breaks', running'⟩ :=
        ih (step s l).state (fun later => notSteady ⟨by simp [breaks], later⟩)
      refine ⟨l :: before, l', next, after, by rw [cuts]; rfl, ⟨breaks, unbroken⟩, breaks', ?_⟩
      simp only [List.cons_append, runAll, List.any_append, running, running', Bool.or_self]

/-- A chunk with a complete piece plays it, and leaves no more than what follows it. -/
theorem feedChunk_progress (s : σ) (buffer chunk l r : List α)
    (cut : F.cut (buffer ++ chunk) = some (l, r)) :
    (∃ more, (feedChunk F step s buffer chunk).2 = (step s l).events ++ more) ∧
      (feedChunk F step s buffer chunk).1.2.length ≤ r.length := by
  simp only [feedChunk, F.pieces_some cut, turn]
  split
  · rw [F.pieces_flatten]
    exact ⟨⟨[], by simp⟩, Nat.le_refl _⟩
  · obtain ⟨taken, cuts, -⟩ := turn_takes step (step s l).state (F.pieces r).1
    have joined := congrArg List.length (F.pieces_flatten r)
    have left := congrArg (fun ls : List (List α) => ls.flatten.length) cuts
    simp only [List.flatten_append, List.length_append] at joined left ⊢
    exact ⟨⟨_, rfl⟩, by omega⟩

/-- The first piece of a stream is taken, in whichever chunk it ends. -/
theorem feed_first (s : σ) (buffer l r : List α) (chunks : List (List α))
    (waiting : F.cut buffer = none) (cut : F.cut (buffer ++ chunks.flatten) = some (l, r)) :
    ∃ more, (feed F step s buffer chunks).2 = (step s l).events ++ more := by
  induction chunks generalizing buffer with
  | nil =>
    rw [List.flatten_nil, List.append_nil, waiting] at cut
    cases cut
  | cons c cs ih =>
    rw [List.flatten_cons, ← List.append_assoc] at cut
    cases here : F.cut (buffer ++ c) with
    | none =>
      obtain ⟨more, rest⟩ := ih (buffer ++ c) here cut
      refine ⟨more, ?_⟩
      simp only [feed, feedChunk, F.pieces_none here, turn, List.flatten_nil, List.nil_append]
      exact rest
    | some pair =>
      have same := F.extends_ cs.flatten here
      rw [cut] at same
      obtain ⟨rfl, -⟩ := Prod.mk.inj (Option.some.inj same)
      obtain ⟨⟨more, events⟩, -⟩ := feedChunk_progress F step s buffer c pair.1 pair.2 here
      exact ⟨_, by rw [feed, events, List.append_assoc]⟩

/-- The chunk that holds the whole stream stops at the step that breaks off. -/
theorem feed_whole (s : σ) (stream : List α) (before : List (List α)) (l : List α)
    (after : List (List α)) (cuts : (F.pieces stream).1 = before ++ l :: after)
    (unbroken : Unbroken step s before)
    (breaks : (step (runAll step s before).1 l).breaks = true) :
    feed F step s [] [stream] =
      (((runAll step s (before ++ [l])).1, after.flatten ++ (F.pieces stream).2),
        (runAll step s (before ++ [l])).2) := by
  simp [feed, feedChunk, cuts, turn_breaks step s before l after unbroken breaks]

/-- Cut behind the step that breaks off, the stream goes on with the second chunk. -/
theorem feed_cut (s : σ) (stream : List α) (before : List (List α)) (l : List α)
    (after : List (List α)) (cuts : (F.pieces stream).1 = before ++ l :: after)
    (unbroken : Unbroken step s before)
    (breaks : (step (runAll step s before).1 l).breaks = true) :
    feed F step s [] [(before ++ [l]).flatten, after.flatten ++ (F.pieces stream).2] =
      ((feedChunk F step (runAll step s (before ++ [l])).1 []
          (after.flatten ++ (F.pieces stream).2)).1,
        (runAll step s (before ++ [l])).2 ++
          (feedChunk F step (runAll step s (before ++ [l])).1 []
            (after.flatten ++ (F.pieces stream).2)).2) := by
  have taken := F.pieces_taken stream [] (before ++ [l]) after (by rw [cuts]; simp)
  rw [F.pieces_none F.cut_nil, List.append_nil, List.append_nil] at taken
  have played := turn_breaks step s before l [] unbroken breaks
  have first : feedChunk F step s [] (before ++ [l]).flatten =
      (((runAll step s (before ++ [l])).1, []), (runAll step s (before ++ [l])).2) := by
    simp only [feedChunk, List.nil_append, taken, played, List.flatten_nil]
  simp only [feed, first, List.append_nil]

/-- Pieces that are taken without a break can be split off the run; what follows
them is fed to the state they lead to. -/
theorem feed_splits (s : σ) (buffer : List α) (chunks left right : List (List α))
    (waiting : F.cut buffer = none)
    (cuts : (F.pieces (buffer ++ chunks.flatten)).1 = left ++ right)
    (unbroken : Unbroken step s left) :
    ∃ later : List (List α),
      later.flatten = right.flatten ++ (F.pieces (buffer ++ chunks.flatten)).2 ∧
      feed F step s buffer chunks = ((feed F step (runAll step s left).1 [] later).1,
        (runAll step s left).2 ++ (feed F step (runAll step s left).1 [] later).2) := by
  induction chunks generalizing s buffer left with
  | nil =>
    simp only [List.flatten_nil, List.append_nil, F.pieces_none waiting] at cuts ⊢
    obtain ⟨rfl, rfl⟩ := List.append_eq_nil_iff.mp cuts.symm
    exact ⟨[buffer], by simp, by simp [feed, feedChunk, F.pieces_none waiting, turn, runAll]⟩
  | cons c cs ih =>
    rw [List.flatten_cons, ← List.append_assoc, F.pieces_append] at cuts ⊢
    generalize here : F.pieces (buffer ++ c) = cut at cuts ⊢
    generalize more : F.pieces (cut.2 ++ cs.flatten) = rest at cuts ⊢
    have idle : F.cut cut.2 = none := here ▸ F.pieces_rest (buffer ++ c)
    rcases List.append_eq_append_iff.mp cuts with ⟨extra, rfl, cuts'⟩ | ⟨extra, cuts', rfl⟩
    · -- the whole chunk is taken, and `extra` pieces of the following ones
      obtain ⟨first, second⟩ := (unbroken_append step s _ _).mp unbroken
      obtain ⟨later, joined, runs⟩ := ih (runAll step s cut.1).1 cut.2 extra idle
        (by rw [more]; exact cuts') second
      refine ⟨later, by rw [joined, more], ?_⟩
      have played := turn_unbroken step s cut.1 first
      simp only [feed, feedChunk, here, played, List.flatten_nil, List.nil_append, runs,
        runAll_append, List.append_assoc]
    · -- the cut falls inside this chunk: `extra` is what the turn takes beyond `left`
      have tail := F.pieces_tail (buffer ++ c) left extra (by rw [here, cuts'])
      rw [here] at tail
      refine ⟨(extra.flatten ++ cut.2) :: cs, ?_, ?_⟩
      · have joined := F.pieces_flatten (cut.2 ++ cs.flatten)
        rw [more] at joined
        simp [joined]
      · have played := turn_unbroken_append step s left extra unbroken
        simp only [feed, feedChunk, here, cuts', played, List.nil_append, tail, List.append_assoc]

/-- The first piece that breaks off is taken, whatever the chunks are. -/
theorem feed_breaking (s : σ) (buffer : List α) (chunks before : List (List α)) (l : List α)
    (after : List (List α)) (waiting : F.cut buffer = none)
    (cuts : (F.pieces (buffer ++ chunks.flatten)).1 = before ++ l :: after)
    (unbroken : Unbroken step s before) :
    ∃ more, (feed F step s buffer chunks).2 = (runAll step s (before ++ [l])).2 ++ more := by
  obtain ⟨later, joined, fed⟩ := feed_splits F step s buffer chunks before (l :: after) waiting cuts
    unbroken
  have tail := F.pieces_tail _ before (l :: after) cuts
  have cut := F.pieces_cut _ l after (congrArg Prod.fst tail)
  rw [← joined, ← List.nil_append later.flatten] at cut
  obtain ⟨more, first⟩ := feed_first F step _ [] l _ later F.cut_nil cut
  refine ⟨more, ?_⟩
  rw [fed, first, runAll_append]
  simp [runAll]

end Feed

section Related

variable {α σ τ ε δ γ : Type} (F : Framer α) (step : σ → List α → Step σ ε)
  (step' : τ → List α → Step τ δ) (see : ε → γ) (see' : δ → γ)
  (related : σ → τ → Prop) (allowed : σ → List α → Prop)

/-- Every piece of a run is allowed in the state it is taken in. -/
def Along : σ → List (List α) → Prop
  | _, [] => True
  | s, l :: ls => allowed s l ∧ Along (step s l).state ls

theorem along_append (s : σ) (xs ys : List (List α)) :
    Along step allowed s (xs ++ ys) ↔
      Along step allowed s xs ∧ Along step allowed (runAll step s xs).1 ys := by
  induction xs generalizing s with
  | nil => simp [Along, runAll]
  | cons l ls ih => simp [Along, runAll, ih, and_assoc]

/-- What holds of the events of every allowed step holds of the events of the run. -/
theorem runAll_events (holds : ε → Prop)
    (one : ∀ s l, allowed s l → ∀ e ∈ (step s l).events, holds e) (s : σ) (ls : List (List α))
    (along : Along step allowed s ls) : ∀ e ∈ (runAll step s ls).2, holds e := by
  induction ls generalizing s with
  | nil => simp [runAll]
  | cons l ls ih =>
    intro e member
    rcases List.mem_append.mp member with here | later
    · exact one s l along.1 e here
    · exact ih _ along.2 e later

/-- On an allowed piece the two machines take the same step, as far as it is seen. -/
def Simulates : Prop :=
  ∀ s t l, related s t → allowed s l →
    related (step s l).state (step' t l).state ∧
      (step s l).events.map see = (step' t l).events.map see' ∧
      (step s l).breaks = (step' t l).breaks

variable (simulates : Simulates step step' see see' related allowed)

include simulates

theorem turn_related (s : σ) (t : τ) (ls : List (List α)) (start : related s t)
    (along : Along step allowed s ls) :
    related (turn step s ls).1 (turn step' t ls).1 ∧
      (turn step s ls).2.1 = (turn step' t ls).2.1 ∧
      (turn step s ls).2.2.map see = (turn step' t ls).2.2.map see' := by
  induction ls generalizing s t with
  | nil => exact ⟨start, rfl, rfl⟩
  | cons l ls ih =>
    obtain ⟨next, seen, breaks⟩ := simulates s t l start along.1
    simp only [turn, ← breaks]
    split
    · exact ⟨next, rfl, seen⟩
    · obtain ⟨last, left, logs⟩ := ih _ _ next along.2
      exact ⟨last, left, by rw [List.map_append, List.map_append, seen, logs]⟩

/-- Machines that take the same steps do the same on every chunking of a stream. -/
theorem feed_related (s : σ) (t : τ) (buffer : List α) (chunks : List (List α))
    (start : related s t)
    (along : Along step allowed s (F.pieces (buffer ++ chunks.flatten)).1) :
    related (feed F step s buffer chunks).1.1 (feed F step' t buffer chunks).1.1 ∧
      (feed F step s buffer chunks).1.2 = (feed F step' t buffer chunks).1.2 ∧
      (feed F step s buffer chunks).2.map see = (feed F step' t buffer chunks).2.map see' := by
  -- on the chunks: both machines are left with the same buffer
  induction chunks generalizing s t buffer with
  | nil => exact ⟨start, rfl, rfl⟩
  | cons c cs ih =>
    rw [List.flatten_cons, ← List.append_assoc] at along
    have whole := along
    rw [F.pieces_append, along_append] at whole
    obtain ⟨next, left, seen⟩ := turn_related step step' see see' related allowed simulates s t
      (F.pieces (buffer ++ c)).1 start whole.1
    obtain ⟨taken, runs, cuts⟩ := feedChunk_takes F step s buffer c cs.flatten
    rw [cuts, along_append, runs] at along
    have next' : related (feedChunk F step s buffer c).1.1 (feedChunk F step' t buffer c).1.1 :=
      next
    have seen' : (feedChunk F step s buffer c).2.map see =
        (feedChunk F step' t buffer c).2.map see' := seen
    have buffers : (feedChunk F step s buffer c).1.2 = (feedChunk F step' t buffer c).1.2 := by
      simp only [feedChunk, left]
    obtain ⟨last, rest, logs⟩ := ih _ _ _ next' along.2
    rw [buffers] at last rest logs
    simp only [feed, buffers, List.map_append, seen', logs]
    exact ⟨last, rest, trivial⟩

end Related

end Spamass.Framing
