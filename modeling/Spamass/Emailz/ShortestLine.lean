import Spamass.Emailz.Fragments

/-!
# The shortest line

What a line is meant to be: the bytes up to and including the first CR LF, cut at the
size of the line buffer. The scanner agrees with it except where the CR of that first
pair is the second of a run, the fourth, and so on: each CR clears the flag that the
one in front of it set.
-/
namespace Spamass.Emailz

def EndsInPair (bytes : Bytes) : Prop := [cr, lf] <:+ bytes

/-- The length of the shortest front that ends in CR LF. -/
def pairEnd : Bytes → Option Nat
  | first :: second :: rest =>
    if first == cr && second == lf then some 2 else (pairEnd (second :: rest)).map (· + 1)
  | _ => none

/-- The line that ends with the first CR LF among the first `maxLineSize` bytes, or holds
all of these. -/
def shortestLine (indata : Bytes) : Option (Bytes × Bytes) :=
  match pairEnd (indata.take maxLineSize) with
  | some size => some (indata.take size, indata.drop size)
  | none =>
    if maxLineSize ≤ indata.length then
      some (indata.take maxLineSize, indata.drop maxLineSize)
    else none

/-- The run of CRs in front of the first LF of a pair is odd, or the pair fills the line
buffer, or there is none. -/
def FirstPairSeen (indata : Bytes) : Prop :=
  ∀ size, pairEnd (indata.take maxLineSize) = some size →
    trailingCrs (indata.take (size - 1)) % 2 = 1 ∨ size = maxLineSize

theorem EndsInPair.length_le {bytes : Bytes} (ends : EndsInPair bytes) : 2 ≤ bytes.length :=
  List.IsSuffix.length_le ends

private theorem endsInPair_cons (byte : UInt8) (bytes : Bytes) :
    EndsInPair (byte :: bytes) ↔ (byte = cr ∧ bytes = [lf]) ∨ EndsInPair bytes := by
  rw [EndsInPair, List.suffix_cons_iff, List.cons.injEq, eq_comm (a := cr), eq_comm (a := [lf])]
  rfl

/-- A front that ends in a pair is found, or a shorter one is. -/
theorem pairEnd_first (bytes front : Bytes) (inside : front <+: bytes) (ends : EndsInPair front) :
    ∃ size, pairEnd bytes = some size ∧ size ≤ front.length := by
  induction bytes generalizing front with
  | nil =>
    rw [List.prefix_nil.mp inside] at ends
    simpa using ends.length_le
  | cons first bytes ih =>
    cases front with
    | nil => simpa using ends.length_le
    | cons head front =>
      obtain ⟨rfl, behind⟩ := List.cons_prefix_cons.mp inside
      have filled := ends.length_le
      cases bytes with
      | nil =>
        rw [List.prefix_nil.mp behind] at filled
        simp at filled
      | cons second rest =>
        simp only [pairEnd]
        split
        · exact ⟨2, rfl, filled⟩
        next other =>
          -- the front is the pair itself, or its tail ends in one
          rcases (endsInPair_cons head front).mp ends with ⟨isCr, isLf⟩ | later
          · subst isLf
            obtain ⟨same, -⟩ := List.cons_prefix_cons.mp behind
            simp [isCr, ← same] at other
          · obtain ⟨size, found, le⟩ := ih front behind later
            exact ⟨size + 1, by rw [found]; rfl, Nat.succ_le_succ le⟩

private theorem pairEnd_ends (bytes : Bytes) (size : Nat) (found : pairEnd bytes = some size) :
    size ≤ bytes.length ∧ EndsInPair (bytes.take size) := by
  induction bytes generalizing size with
  | nil => simp [pairEnd] at found
  | cons first bytes ih =>
    cases bytes with
    | nil => simp [pairEnd] at found
    | cons second rest =>
      simp only [pairEnd] at found
      split at found
      next pair =>
        rw [Bool.and_eq_true, beq_iff_eq, beq_iff_eq] at pair
        obtain ⟨rfl, rfl⟩ := pair
        obtain rfl := Option.some.inj found
        exact ⟨by simp only [List.length_cons]; omega, List.suffix_refl _⟩
      · obtain ⟨before, later, rfl⟩ := Option.map_eq_some_iff.mp found
        obtain ⟨le, ends⟩ := ih before later
        refine ⟨Nat.succ_le_succ le, ?_⟩
        rw [List.take_succ_cons, endsInPair_cons]
        exact Or.inr ends

/-! ### The scanner against it -/

private theorem LineEnd.endsInPair {bytes : Bytes} (ends : LineEnd bytes) : EndsInPair bytes := by
  obtain ⟨front, rfl, odd⟩ := ends
  -- an odd number of CRs is not none
  cases front using List.reverseRecOn with
  | nil => simp [trailingCrs] at odd
  | append_singleton front byte =>
    rw [trailingCrs_push] at odd
    split at odd
    next isCr =>
      rw [beq_iff_eq.mp isCr, List.append_assoc]
      exact List.suffix_append _ _
    · simp at odd

private theorem lineEnd_iff_odd (bytes : Bytes) (ends : EndsInPair bytes) :
    LineEnd bytes ↔ trailingCrs (bytes.take (bytes.length - 1)) % 2 = 1 := by
  obtain ⟨front, rfl⟩ := ends
  have split_ : front ++ [cr, lf] = (front ++ [cr]) ++ [lf] := by simp
  rw [split_, lineEnd_push, List.length_append, List.length_singleton, Nat.add_sub_cancel,
    List.take_left]
  simp

/-- A line that the scanner returns without a pair in it fills the line buffer. -/
theorem Fragment.full {indata line : Bytes} (fragment : Fragment indata line)
    (unpaired : ∀ size, pairEnd (indata.take maxLineSize) = some size → size = maxLineSize) :
    line.length = maxLineSize := by
  rcases fragment.ends with ended | full
  · have inside : line <+: indata.take maxLineSize :=
      List.prefix_take_iff.mpr ⟨fragment.inside, fragment.bounded⟩
    obtain ⟨size, found, le⟩ := pairEnd_first _ line inside ended.endsInPair
    have bounded := fragment.bounded
    rw [unpaired size found] at le
    omega
  · exact full

/-- Without a pair that ends inside the line buffer the line is cut at its size. -/
private theorem socketReadLine_cut (indata : Bytes)
    (unpaired : ∀ size, pairEnd (indata.take maxLineSize) = some size → size = maxLineSize) :
    socketReadLine indata =
      if maxLineSize ≤ indata.length then
        some (indata.take maxLineSize, indata.drop maxLineSize)
      else none := by
  cases read : socketReadLine indata with
  | none =>
    have short := socketReadLine_none read
    rw [if_neg (by omega)]
  | some pair =>
    obtain ⟨line, rest⟩ := pair
    obtain ⟨fragment, rfl⟩ := socketReadLine_fragment.mp read
    have full := fragment.full unpaired
    rw [← full, List.take_left, List.drop_left, if_pos (by simp)]

/-- A pair inside the line buffer ends the scanner's line exactly if its CRs are odd. -/
private theorem socketReadLine_pair (indata : Bytes) (size : Nat)
    (found : pairEnd (indata.take maxLineSize) = some size) (inside : size < maxLineSize) :
    socketReadLine indata = some (indata.take size, indata.drop size) ↔
      trailingCrs (indata.take (size - 1)) % 2 = 1 := by
  obtain ⟨le, ends⟩ := pairEnd_ends _ size found
  rw [List.take_take, Nat.min_eq_left (by omega)] at ends
  rw [List.length_take] at le
  have length : (indata.take size).length = size := by
    rw [List.length_take]
    omega
  have odd := lineEnd_iff_odd _ ends
  rw [length, List.take_take, Nat.min_eq_left (by omega)] at odd
  rw [socketReadLine_fragment, ← odd]
  constructor
  · rintro ⟨fragment, -⟩
    rcases fragment.ends with ended | full
    · exact ended
    · omega
  · intro ended
    refine ⟨⟨List.take_prefix _ _, by omega, Or.inl ended, ?_⟩, List.take_append_drop _ _⟩
    -- a shorter line end would be a shorter pair
    intro front shorter early
    have bounded : front <+: indata.take maxLineSize :=
      shorter.trans (List.take_prefix_take_left (by omega))
    obtain ⟨size', found', le'⟩ := pairEnd_first _ front bounded early.endsInPair
    obtain rfl : size = size' := Option.some.inj (found.symm.trans found')
    exact shorter.eq_of_length_le (by omega)

/-- In any division into regions `emailz_socket_read_line` returns the shortest line exactly
if it sees the first pair; the division does not matter. -/
theorem socketReadLineRegions_shortest (regions : List Bytes) :
    (∀ others : List Bytes, others.flatten = regions.flatten →
      socketReadLineRegions others = socketReadLineRegions regions) ∧
    (socketReadLineRegions regions = shortestLine regions.flatten ↔
      FirstPairSeen regions.flatten) := by
  refine ⟨fun others same => ?_, ?_⟩
  · rw [socketReadLineRegions_flatten, socketReadLineRegions_flatten regions, same]
  rw [socketReadLineRegions_flatten]
  generalize regions.flatten = indata
  cases found : pairEnd (indata.take maxLineSize) with
  | none =>
    have seen : FirstPairSeen indata := fun size present => absurd (found.symm.trans present) nofun
    have cut := socketReadLine_cut indata fun size present => absurd (found.symm.trans present) nofun
    simp only [shortestLine, found, cut, seen]
  | some size =>
    have le := (pairEnd_ends _ size found).1
    rw [List.length_take] at le
    have only : FirstPairSeen indata ↔
        trailingCrs (indata.take (size - 1)) % 2 = 1 ∨ size = maxLineSize := by
      constructor
      · intro seen
        exact seen size found
      · intro seen other found'
        obtain rfl : size = other := Option.some.inj (found.symm.trans found')
        exact seen
    simp only [shortestLine, found, only]
    -- a pair that fills the buffer is returned whether it was seen or not
    rcases Nat.lt_or_ge size maxLineSize with inside | full
    · rw [socketReadLine_pair indata size found inside]
      simp [Nat.ne_of_lt inside]
    · obtain rfl : size = maxLineSize := by omega
      rw [socketReadLine_cut indata fun other found' =>
        (Option.some.inj (found.symm.trans found')).symm, if_pos (by omega)]
      simp

/-- A second CR in front of the line end hides it. -/
theorem socketReadLineRegions_doubleCr :
    socketReadLineRegions [[cr, cr, lf]] = none ∧
      shortestLine [[cr, cr, lf]].flatten = some ([cr, cr, lf], []) := by
  decide +kernel

end Spamass.Emailz
