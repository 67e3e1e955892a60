import Mathlib.Tactic.Basic

/-!
# Parts between doubled marks

A text split at every doubled mark, from the left. A part can be read back from what
was joined only if it holds no doubled mark and ends in none: with a mark at its end,
the split comes one mark early.
-/
namespace Spamass.Separated

section Parts

variable {α : Type} [DecidableEq α] (mark : α)

/-- The parts of a text between the doubled marks found from the left. -/
def parts : List α → List (List α)
  | [] => [[]]
  | [a] => [[a]]
  | a :: b :: rest =>
    if a = mark ∧ b = mark then [] :: parts rest
    else
      match parts (b :: rest) with
      | part :: later => (a :: part) :: later
      | [] => [[a]]

/-- No doubled mark is in the text followed by a mark. -/
def plain : List α → Bool
  | [] => true
  | [a] => a != mark
  | a :: b :: rest => !(a == mark && b == mark) && plain (b :: rest)

/-- No mark is in the text. -/
def unmarked (text : List α) : Bool := text.all (· != mark)

theorem parts_marks (rest : List α) :
    parts mark (mark :: mark :: rest) = [] :: parts mark rest := by
  rw [parts, if_pos ⟨rfl, rfl⟩]

theorem parts_ne_nil (text : List α) : parts mark text ≠ [] := by
  fun_cases parts mark text with
  | case1 => exact nofun
  | case2 => exact nofun
  | case3 a b rest marks => exact nofun
  | case4 a b rest marks part later split => exact nofun
  | case5 a b rest marks split => exact nofun

theorem parts_other {a : α} {text part : List α} {later : List (List α)}
    (apart : ¬ (a = mark ∧ text.head? = some mark)) (split : parts mark text = part :: later)
    (present : text ≠ []) : parts mark (a :: text) = (a :: part) :: later := by
  cases text with
  | nil => exact absurd rfl present
  | cons b rest =>
    rw [List.head?_cons, Option.some_inj] at apart
    rw [parts, if_neg apart, split]

/-- A split behind a text that ends in no mark. -/
theorem parts_append (text rest : List α) (ends : text.getLast? ≠ some mark) :
    parts mark (text ++ mark :: mark :: rest) = parts mark text ++ parts mark rest := by
  -- by the cases of the splitting; the text must not end in half a mark
  induction text using parts.induct mark with
  | case1 => exact parts_marks mark rest
  | case2 a =>
    have other : a ≠ mark := by simpa using ends
    exact parts_other mark (fun both => other both.1) (parts_marks mark rest) nofun
  | case3 a b text marks ih =>
    obtain ⟨rfl, rfl⟩ := marks
    have ends' : text.getLast? ≠ some b := by
      intro last
      apply ends
      rw [List.getLast?_cons_cons, List.getLast?_cons, last]
      rfl
    rw [List.cons_append, List.cons_append, parts_marks, parts_marks, ih ends', List.cons_append]
  | case4 a b text marks part later split ih =>
    rw [List.getLast?_cons_cons] at ends
    have apart : ¬ (a = mark ∧ (b :: text).head? = some mark) :=
      fun both => marks ⟨both.1, Option.some.inj both.2⟩
    have behind := ih ends
    rw [split] at behind
    rw [parts_other mark apart split nofun]
    exact parts_other mark apart behind nofun
  | case5 a b text marks split ih => exact absurd split (parts_ne_nil mark _)

/-- A plain text is its one part. -/
theorem parts_plain (text : List α) (plain_ : plain mark text = true) :
    parts mark text = [text] := by
  induction text with
  | nil => rfl
  | cons a text ih =>
    cases text with
    | nil => rfl
    | cons b rest =>
      simp only [plain, Bool.and_eq_true, Bool.not_eq_true'] at plain_
      apply parts_other mark _ (ih plain_.2) nofun
      rintro ⟨rfl, same⟩
      rw [Option.some.inj same] at plain_
      simp at plain_

theorem plain_ends (text : List α) (plain_ : plain mark text = true) :
    text.getLast? ≠ some mark := by
  induction text with
  | nil => exact nofun
  | cons a text ih =>
    cases text with
    | nil =>
      simp only [plain, bne_iff_ne] at plain_
      simpa using plain_
    | cons b rest =>
      simp only [plain, Bool.and_eq_true] at plain_
      rw [List.getLast?_cons_cons]
      exact ih plain_.2

theorem plain_of_unmarked (text : List α) (unmarked_ : unmarked mark text = true) :
    plain mark text = true := by
  induction text with
  | nil => rfl
  | cons a text ih =>
    simp only [unmarked, List.all_cons, Bool.and_eq_true, bne_iff_ne] at unmarked_
    have rest := ih unmarked_.2
    cases text with
    | nil => simpa [plain] using unmarked_.1
    | cons b rest => simp [plain, unmarked_.1, rest]

theorem parts_unmarked (text : List α) (unmarked_ : unmarked mark text = true) :
    parts mark text = [text] :=
  parts_plain mark text (plain_of_unmarked mark text unmarked_)

theorem unmarked_ends (front text : List α) (present : text ≠ [])
    (unmarked_ : unmarked mark text = true) : (front ++ text).getLast? ≠ some mark := by
  intro last
  rw [List.getLast?_append, List.getLast?_eq_some_getLast present, Option.some_or] at last
  have member : mark ∈ text := Option.some.inj last ▸ List.getLast_mem present
  have other := List.all_eq_true.mp unmarked_ mark member
  simp at other

/-- The part that is joined last is split off last. -/
theorem parts_last (front middle text : List α) (present : middle ≠ [])
    (middle_ : unmarked mark middle = true) (text_ : unmarked mark text = true) :
    parts mark (front ++ middle ++ mark :: mark :: text) =
      parts mark (front ++ middle) ++ [text] := by
  rw [parts_append mark _ _ (unmarked_ends mark front middle present middle_),
    parts_unmarked mark text text_]

/-- What is not split at all. -/
theorem eq_of_parts_one {text part : List α} (split : parts mark text = [part]) : text = part := by
  induction text generalizing part with
  | nil => exact (List.cons.inj split).1
  | cons a text ih =>
    cases text with
    | nil => exact (List.cons.inj split).1
    | cons b rest =>
      rw [parts] at split
      split at split
      · exact absurd (List.cons.inj split).2 (parts_ne_nil mark rest)
      next marks =>
        split at split
        next part' later split' =>
          obtain ⟨rfl, rfl⟩ := List.cons.inj split
          rw [ih split']
        next missing => exact absurd missing (parts_ne_nil mark _)

/-- The first of several parts is plain, and the others are the parts of the text behind it. -/
theorem parts_first {text first : List α} {later : List (List α)}
    (split : parts mark text = first :: later) (more : later ≠ []) :
    plain mark first = true ∧ ∃ rest, text = first ++ mark :: mark :: rest ∧
      parts mark rest = later := by
  induction text generalizing first with
  | nil => exact absurd (List.cons.inj split).2.symm more
  | cons a text ih =>
    cases text with
    | nil => exact absurd (List.cons.inj split).2.symm more
    | cons b rest =>
      rw [parts] at split
      split at split
      next marks =>
        obtain ⟨rfl, rfl⟩ := List.cons.inj split
        obtain ⟨rfl, rfl⟩ := marks
        exact ⟨rfl, rest, rfl, rfl⟩
      next marks =>
        split at split
        next part later' split' =>
          obtain ⟨rfl, rfl⟩ := List.cons.inj split
          obtain ⟨plain_, rest', same, others⟩ := ih split'
          refine ⟨?_, rest', ?_, others⟩
          · cases part with
            | nil =>
              -- the text goes on with the doubled mark
              have b_ : b = mark := (List.cons.inj same).1
              simp only [plain, bne_iff_ne]
              exact fun a_ => marks ⟨a_, b_⟩
            | cons c part =>
              have b_ : b = c := (List.cons.inj same).1
              subst b_
              simp only [plain, Bool.and_eq_true, Bool.not_eq_true']
              exact ⟨by simpa using marks, plain_⟩
          · rw [same]
            rfl
        next missing => exact absurd missing (parts_ne_nil mark _)

end Parts

end Spamass.Separated
