import Mathlib.Data.List.Basic
import Mathlib.Data.List.TakeWhile

/-!
# Stripped lists

A list without the blank elements at its two ends, and what is left of a list that is
cut into parts and stripped part by part.
-/
namespace Spamass.Stripped

variable {α : Type} (p : α → Bool)

def strip (l : List α) : List α := ((l.dropWhile p).reverse.dropWhile p).reverse

def Blank (l : List α) : Prop := ∀ a ∈ l, p a = true

/-- Not blank at either end. -/
structure Bare (l : List α) : Prop where
  head : ∀ a, l.head? = some a → p a = false
  last : ∀ a, l.getLast? = some a → p a = false

theorem blank_append (xs ys : List α) : Blank p (xs ++ ys) ↔ Blank p xs ∧ Blank p ys :=
  List.forall_mem_append

theorem dropWhile_blank (front rest : List α) (blank : Blank p front)
    (begins : ∀ a, rest.head? = some a → p a = false) : (front ++ rest).dropWhile p = rest := by
  induction front with
  | nil =>
    cases rest with
    | nil => rfl
    | cons a rest => simp [begins a rfl]
  | cons a front ih =>
    have first := blank a (List.mem_cons_self ..)
    rw [List.cons_append, List.dropWhile_cons_of_pos first]
    exact ih fun later member => blank later (List.mem_cons_of_mem _ member)

/-- A bare list between blanks is what stripping leaves. -/
theorem strip_of {front mid back : List α} (blank : Blank p front) (bare : Bare p mid)
    (blank' : Blank p back) : strip p (front ++ mid ++ back) = mid := by
  have reversed : Blank p back.reverse := fun a member => blank' a (List.mem_reverse.mp member)
  cases size : mid with
  | nil =>
    have all : Blank p (front ++ back) := (blank_append p front back).mpr ⟨blank, blank'⟩
    have missing := dropWhile_blank p (front ++ back) [] all nofun
    rw [List.append_nil] at missing
    rw [List.append_nil, strip, missing]
    rfl
  | cons a rest =>
    rw [← size, strip, List.append_assoc, dropWhile_blank p front _ blank, List.reverse_append,
      dropWhile_blank p back.reverse _ reversed, List.reverse_reverse]
    · intro b first
      rw [List.head?_reverse] at first
      exact bare.last b first
    · intro b first
      rw [size, List.cons_append, List.head?_cons] at first
      apply bare.head b
      rw [size, List.head?_cons, first]

theorem strip_parts (l : List α) :
    ∃ front back, l = front ++ strip p l ++ back ∧ Blank p front ∧ Blank p back ∧
      Bare p (strip p l) := by
  have cut := List.takeWhile_append_dropWhile (p := p) (l := l)
  have cut' := List.takeWhile_append_dropWhile (p := p) (l := (l.dropWhile p).reverse)
  have behind : l.dropWhile p = strip p l ++ ((l.dropWhile p).reverse.takeWhile p).reverse := by
    rw [strip, ← List.reverse_append, cut', List.reverse_reverse]
  refine ⟨l.takeWhile p, ((l.dropWhile p).reverse.takeWhile p).reverse, ?_, ?_, ?_, ?_, ?_⟩
  · rw [List.append_assoc, ← behind, cut]
  · exact fun a member => List.mem_takeWhile_imp member
  · exact fun a member => List.mem_takeWhile_imp (List.mem_reverse.mp member)
  · intro a first
    have begins := List.head?_dropWhile_not p l
    rw [behind, List.head?_append, first] at begins
    simpa using begins
  · intro a final
    have ends := List.head?_dropWhile_not p (l.dropWhile p).reverse
    rw [strip, List.getLast?_reverse] at final
    rw [final] at ends
    simpa using ends

theorem strip_nil_iff (l : List α) : strip p l = [] ↔ Blank p l := by
  obtain ⟨front, back, split_, blank, blank', -⟩ := strip_parts p l
  constructor
  · intro empty
    rw [split_, empty, List.append_nil]
    exact (blank_append p front back).mpr ⟨blank, blank'⟩
  · intro all
    have missing : strip p (l ++ [] ++ []) = [] := strip_of p all ⟨nofun, nofun⟩ nofun
    rwa [List.append_nil, List.append_nil] at missing

theorem strip_blank_append {xs ys : List α} (blank : Blank p xs) :
    strip p (xs ++ ys) = strip p ys := by
  obtain ⟨front, back, split_, blank', blank'', bare⟩ := strip_parts p ys
  have all : Blank p (xs ++ front) := (blank_append p xs front).mpr ⟨blank, blank'⟩
  conv_lhs => rw [split_, ← List.append_assoc, ← List.append_assoc]
  exact strip_of p all bare blank''

theorem strip_append_blank {xs ys : List α} (blank : Blank p ys) :
    strip p (xs ++ ys) = strip p xs := by
  obtain ⟨front, back, split_, blank', blank'', bare⟩ := strip_parts p xs
  have all : Blank p (back ++ ys) := (blank_append p back ys).mpr ⟨blank'', blank⟩
  conv_lhs => rw [split_, List.append_assoc]
  exact strip_of p blank' bare all

/-- Where neither part is blank, what is blank between them stays. -/
theorem strip_append {xs ys : List α} (left : ¬Blank p xs) (right : ¬Blank p ys) :
    ∃ gap, strip p (xs ++ ys) = strip p xs ++ gap ++ strip p ys ∧
      ((∃ a, ys.head? = some a ∧ p a = true) → gap ≠ []) := by
  obtain ⟨front, gap, split_, blank, blank', bare⟩ := strip_parts p xs
  obtain ⟨gap', back, split_', blank'', blank''', bare'⟩ := strip_parts p ys
  have present : strip p xs ≠ [] := fun empty => left ((strip_nil_iff p xs).mp empty)
  have some_' : strip p ys ≠ [] := fun empty => right ((strip_nil_iff p ys).mp empty)
  have whole : Bare p (strip p xs ++ (gap ++ gap') ++ strip p ys) := by
    constructor
    · intro a first
      rw [List.append_assoc, List.head?_append_of_ne_nil _ present] at first
      exact bare.head a first
    · intro a final
      rw [List.getLast?_append_of_ne_nil _ some_'] at final
      exact bare'.last a final
  refine ⟨gap ++ gap', ?_, ?_⟩
  · have joined : xs ++ ys =
        front ++ (strip p xs ++ (gap ++ gap') ++ strip p ys) ++ back := by
      conv_lhs => rw [split_, split_']
      simp only [List.append_assoc]
    rw [joined]
    exact strip_of p blank whole blank'''
  · rintro ⟨a, first, blankA⟩ empty
    obtain ⟨-, rfl⟩ := List.append_eq_nil_iff.mp empty
    rw [split_', List.nil_append, List.head?_append_of_ne_nil _ some_'] at first
    rw [bare'.head a first] at blankA
    cases blankA

/-- Stripping the parts loses no more than what is blank. -/
theorem strips_sublist (parts : List (List α)) :
    (parts.map (strip p)).flatten.Sublist (strip p parts.flatten) := by
  induction parts with
  | nil => exact List.Sublist.refl _
  | cons part parts ih =>
    rw [List.map_cons, List.flatten_cons, List.flatten_cons]
    by_cases left : Blank p part
    · rw [(strip_nil_iff p part).mpr left, List.nil_append, strip_blank_append p left]
      exact ih
    by_cases right : Blank p parts.flatten
    · rw [(strip_nil_iff p _).mpr right, List.sublist_nil] at ih
      rw [ih, List.append_nil, strip_append_blank p right]
    · obtain ⟨gap, joined, -⟩ := strip_append p left right
      rw [joined, List.append_assoc]
      exact (List.Sublist.refl _).append (ih.trans (List.sublist_append_right gap _))

/-- Parts that begin with a blank, all but the first, are stripped to what their list is stripped
to exactly if no cut is between two elements that are not blank. -/
theorem strips_iff (parts : List (List α))
    (led : ∀ part ∈ parts.tail, ∃ a, part.head? = some a ∧ p a = true) :
    (parts.map (strip p)).flatten = strip p parts.flatten ↔
      ∀ left right, parts = left ++ right → Blank p left.flatten ∨ Blank p right.flatten := by
  induction parts with
  | nil =>
    refine iff_of_true rfl ?_
    intro left right missing
    obtain ⟨rfl, -⟩ := List.append_eq_nil_iff.mp missing.symm
    exact Or.inl nofun
  | cons part parts ih =>
    rw [List.map_cons, List.flatten_cons, List.flatten_cons]
    by_cases left : Blank p part
    · rw [(strip_nil_iff p part).mpr left, List.nil_append, strip_blank_append p left,
        ih fun later member => led later (List.mem_of_mem_tail member)]
      constructor
      · intro cuts front back split_
        cases front with
        | nil => exact Or.inl nofun
        | cons first front =>
          obtain ⟨rfl, split_'⟩ := List.cons.inj split_
          rw [List.flatten_cons, blank_append, and_iff_right left]
          exact cuts front back split_'
      · intro cuts front back split_
        have outer := cuts (part :: front) back (by rw [split_]; rfl)
        rwa [List.flatten_cons, blank_append, and_iff_right left] at outer
    by_cases right : Blank p parts.flatten
    · have missing := strips_sublist p parts
      rw [(strip_nil_iff p _).mpr right, List.sublist_nil] at missing
      rw [missing, List.append_nil, strip_append_blank p right]
      refine iff_of_true rfl ?_
      intro front back split_
      cases front with
      | nil => exact Or.inl nofun
      | cons first front =>
        have later : parts = front ++ back := (List.cons.inj split_).2
        rw [later, List.flatten_append, blank_append] at right
        exact Or.inr right.2
    · -- what is blank in front of the second part is lost
      obtain ⟨gap, joined, lost⟩ := strip_append p left right
      have filled : gap ≠ [] := by
        apply lost
        cases parts with
        | nil => exact absurd nofun right
        | cons next parts =>
          obtain ⟨a, first, blank⟩ := led next (List.mem_cons_self ..)
          exact ⟨a, by rw [List.flatten_cons, List.head?_append, first]; rfl, blank⟩
      refine iff_of_false ?_ ?_
      · intro same
        have most := (strips_sublist p parts).length_le
        have sizes := congrArg List.length (same.trans joined)
        have present := List.length_pos_iff.mpr filled
        simp only [List.length_append] at sizes
        omega
      · intro cuts
        rcases cuts [part] parts rfl with blank | blank
        · exact left (by rwa [List.flatten_singleton] at blank)
        · exact right blank

end Spamass.Stripped
