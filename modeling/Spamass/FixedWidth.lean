import Mathlib.Algebra.Group.Nat.Defs
import Spamass.SortedStore

/-!
# Numbers of a fixed width

The last digits of a number, most significant first. Numbers that fit into the width
are ordered as the words of their digits are, and so are the sequences of words of
given widths.
-/
namespace Spamass.FixedWidth

open Spamass.SortedStore

/-! ### Ranks -/

section Ranks

variable {β κ γ : Type} [LinearOrder κ] [Preorder γ] (rank : β → κ) {word : β → γ}
  {p : β → Prop} (congr_ : ∀ b b', rank b = rank b' → word b = word b')
  (ascending : ∀ b b', p b → p b' → rank b < rank b' → word b < word b')

include congr_ ascending in
/-- Words that ascend with a rank are ordered by it. -/
theorem lt_iff_of_rank {b b' : β} (fits : p b) (fits' : p b') :
    word b < word b' ↔ rank b < rank b' := by
  refine ⟨fun below => ?_, ascending b b' fits fits'⟩
  rcases lt_trichotomy (rank b) (rank b') with less | same | greater
  · exact less
  · rw [congr_ b b' same] at below
    exact absurd below (lt_irrefl _)
  · exact absurd below (ascending b' b fits' fits greater).asymm

include ascending in
theorem ne_of_rank {b b' : β} (fits : p b) (fits' : p b') (apart : rank b ≠ rank b') :
    word b ≠ word b' := by
  rcases lt_or_gt_of_ne apart with less | greater
  · exact (ascending b b' fits fits' less).ne
  · exact (ascending b' b fits' fits greater).ne'

end Ranks

/-! ### Words -/

section Words

variable {α : Type} (base : Nat) (digit : Nat → α)

def fixedWidth : Nat → Nat → List α
  | 0, _ => []
  | width + 1, n => fixedWidth width (n / base) ++ [digit (n % base)]

theorem fixedWidth_length (width n : Nat) : (fixedWidth base digit width n).length = width := by
  induction width generalizing n with
  | zero => rfl
  | succ width ih => rw [fixedWidth, List.length_append, ih, List.length_singleton]

theorem mem_fixedWidth (positive : 0 < base) {width n : Nat} {a : α}
    (member : a ∈ fixedWidth base digit width n) : ∃ d, d < base ∧ a = digit d := by
  induction width generalizing n with
  | zero => cases member
  | succ width ih =>
    rcases List.mem_append.mp member with front | last
    · exact ih front
    · exact ⟨n % base, Nat.mod_lt n positive, List.mem_singleton.mp last⟩

theorem fixedWidth_zero (width : Nat) :
    fixedWidth base digit width 0 = List.replicate width (digit 0) := by
  induction width with
  | zero => rfl
  | succ width ih => rw [fixedWidth, Nat.zero_div, Nat.zero_mod, ih, List.replicate_succ']

theorem fixedWidth_mod (width n : Nat) :
    fixedWidth base digit width (n % base ^ width) = fixedWidth base digit width n := by
  induction width generalizing n with
  | zero => rfl
  | succ width ih =>
    rw [fixedWidth, fixedWidth, Nat.pow_succ', Nat.mod_mul_right_div_self, ih, Nat.mod_mul_right_mod]

/-- The first digit, and those behind it. -/
theorem fixedWidth_succ (width n : Nat) :
    fixedWidth base digit (width + 1) n =
      digit (n / base ^ width % base) :: fixedWidth base digit width n := by
  induction width generalizing n with
  | zero => simp [fixedWidth]
  | succ width ih =>
    rw [fixedWidth, ih, fixedWidth, Nat.div_div_eq_div_mul, Nat.pow_succ', List.cons_append]

/-- The number that digits denote. -/
def readWord (read : α → Nat) (word : List α) : Nat := word.foldl (fun n a => base * n + read a) 0

theorem readWord_fixedWidth (read : α → Nat) (reads : ∀ d, d < base → read (digit d) = d)
    (positive : 0 < base) {width n : Nat} (fits : n < base ^ width) :
    readWord base read (fixedWidth base digit width n) = n := by
  induction width generalizing n with
  | zero =>
    rw [Nat.pow_zero] at fits
    exact (Nat.lt_one_iff.mp fits).symm
  | succ width ih =>
    rw [Nat.pow_succ'] at fits
    have before := ih (Nat.div_lt_of_lt_mul fits)
    rw [readWord] at before
    rw [fixedWidth, readWord, List.foldl_append, before, List.foldl_cons, List.foldl_nil,
      reads _ (Nat.mod_lt n positive), Nat.div_add_mod]

/-- More width puts zeros in front. -/
theorem fixedWidth_front (width more n : Nat) (fits : n < base ^ width) :
    fixedWidth base digit (width + more) n =
      List.replicate more (digit 0) ++ fixedWidth base digit width n := by
  induction width generalizing n with
  | zero =>
    obtain rfl : n = 0 := by simpa using fits
    rw [Nat.zero_add, fixedWidth_zero, fixedWidth, List.append_nil]
  | succ width ih =>
    have within : n / base < base ^ width := by
      rw [Nat.pow_succ] at fits
      exact Nat.div_lt_of_lt_mul (by rwa [Nat.mul_comm] at fits)
    rw [Nat.add_right_comm, fixedWidth, ih _ within, fixedWidth, List.append_assoc]

variable [LinearOrder α] (ascending : ∀ d d', d < d' → d' < base → digit d < digit d')

include ascending in
theorem fixedWidth_lt {width m n : Nat} (less : m < n) (fits : n < base ^ width) :
    fixedWidth base digit width m < fixedWidth base digit width n := by
  induction width generalizing m n with
  | zero =>
    rw [Nat.pow_zero] at fits
    omega
  | succ width ih =>
    have positive : 0 < base := by
      rcases Nat.eq_zero_or_pos base with rfl | positive
      · rw [Nat.zero_pow (Nat.succ_pos _)] at fits
        omega
      · exact positive
    rw [Nat.pow_succ] at fits
    have within : n / base < base ^ width :=
      Nat.div_lt_of_lt_mul (by rwa [Nat.mul_comm] at fits)
    rw [fixedWidth, fixedWidth]
    -- the fronts decide, or they are the same and the last digits do
    rcases Nat.lt_or_eq_of_le (Nat.div_le_div_right (c := base) less.le) with below | same
    · apply append_lt_of_lt _ (ih below within)
      rw [fixedWidth_length, fixedWidth_length]
    · rw [same, append_lt_append_iff]
      apply List.cons_lt_cons_iff.mpr
      refine Or.inl (ascending _ _ ?_ (Nat.mod_lt n positive))
      have split := Nat.div_add_mod m base
      have split' := Nat.div_add_mod n base
      rw [same] at split
      omega

include ascending in
theorem fixedWidth_lt_iff {width m n : Nat} (fits : m < base ^ width) (fits' : n < base ^ width) :
    fixedWidth base digit width m < fixedWidth base digit width n ↔ m < n :=
  lt_iff_of_rank id (fun _ _ => congrArg _)
    (fun _ _ _ fits' less => fixedWidth_lt base digit ascending less fits') fits fits'

/-- Numbers of given widths, each with what stands behind it. -/
def fixedWords : List (Nat × List α) → List Nat → List α
  | (width, mark) :: layout, n :: ns => fixedWidth base digit width n ++ mark ++ fixedWords layout ns
  | _, _ => []

/-- Each number fits into its width. -/
abbrev Fitting (layout : List (Nat × List α)) (ns : List Nat) : Prop :=
  List.Forall₂ (fun entry n => n < base ^ entry.1) layout ns

include ascending in
/-- Sequences of numbers are ordered as their words are. -/
theorem fixedWords_lt {layout : List (Nat × List α)} {ns ns' : List Nat}
    (fits : Fitting base layout ns) (fits' : Fitting base layout ns') (less : ns < ns') :
    fixedWords base digit layout ns < fixedWords base digit layout ns' := by
  induction fits generalizing ns' with
  | nil =>
    cases fits'
    exact absurd less (lt_irrefl _)
  | @cons entry n layout ns fit fits ih =>
    obtain ⟨n', ns', fit', rest', rfl⟩ := List.forall₂_cons_left_iff.mp fits'
    rw [fixedWords, fixedWords, List.append_assoc, List.append_assoc]
    rcases List.cons_lt_cons_iff.mp less with first | ⟨rfl, later⟩
    · apply append_lt_of_lt _ (fixedWidth_lt base digit ascending first fit')
      rw [fixedWidth_length, fixedWidth_length]
    · rw [append_lt_append_iff, append_lt_append_iff]
      exact ih rest' later

end Words

end Spamass.FixedWidth
