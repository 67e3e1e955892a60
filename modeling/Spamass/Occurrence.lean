import Mathlib.Data.List.Basic

/-!
# First occurrences

A text cut at the first occurrence of a mark of one or more elements, and separated at
all that are found from the left. A mark of two different elements begins in the first of
two joined texts, in the second, or with the last element of the first.
-/
namespace Spamass.Occurrence

section Cut

variable {α : Type} [DecidableEq α] (mark : List α)

/-- What is in front of the first occurrence of the mark, and what is behind it. -/
def cut : List α → Option (List α × List α)
  | [] => none
  | a :: rest =>
    if mark <+: a :: rest then some ([], (a :: rest).drop mark.length)
    else (cut rest).map fun parts => (a :: parts.1, parts.2)

/-- The parts between the occurrences; each but the last takes up fuel. -/
def separateWithin : Nat → List α → List (List α)
  | 0, text => [text]
  | fuel + 1, text =>
    match cut mark text with
    | none => [text]
    | some (front, behind) => front :: separateWithin fuel behind

def separate (text : List α) : List (List α) := separateWithin mark text.length text

variable {mark}

theorem cut_joined {text front behind : List α} (parts : cut mark text = some (front, behind)) :
    text = front ++ (mark ++ behind) := by
  induction text generalizing front behind with
  | nil => cases parts
  | cons a rest ih =>
    rw [cut] at parts
    split at parts
    next here =>
      obtain ⟨rfl, rfl⟩ := Prod.mk.inj (Option.some.inj parts)
      obtain ⟨behind, joined⟩ := here
      rw [← joined, List.drop_left]
      rfl
    next later =>
      obtain ⟨⟨front', behind'⟩, found, same⟩ := Option.map_eq_some_iff.mp parts
      obtain ⟨rfl, rfl⟩ := Prod.mk.inj same
      rw [ih found]
      rfl

/-- Nothing is found exactly where the mark is not. -/
theorem cut_none_iff (filled : mark ≠ []) (text : List α) :
    cut mark text = none ↔ ¬mark <:+: text := by
  induction text with
  | nil => exact iff_of_true rfl fun inside => filled (List.eq_nil_of_infix_nil inside)
  | cons a rest ih =>
    rw [cut, List.infix_cons_iff, not_or]
    split
    next here => exact iff_of_false nofun fun missing => missing.1 here
    next later =>
      rw [Option.map_eq_none_iff, ih]
      exact (and_iff_right later).symm

/-- The mark is found behind a text in which it does not begin. -/
theorem cut_append (filled : mark ≠ []) {front : List α} (behind : List α)
    (unmarked : ¬mark <:+: front ++ mark.dropLast) :
    cut mark (front ++ (mark ++ behind)) = some (front, behind) := by
  induction front with
  | nil =>
    cases joined : mark ++ behind with
    | nil => exact absurd (List.append_eq_nil_iff.mp joined).1 filled
    | cons a rest =>
      rw [List.nil_append, cut, ← joined, if_pos (List.prefix_append mark behind), List.drop_left]
  | cons a front ih =>
    rw [List.cons_append, List.infix_cons_iff, not_or] at unmarked
    have later : ¬mark <+: a :: (front ++ (mark ++ behind)) := by
      intro here
      apply unmarked.1
      -- the text up to the last element of the mark is long enough for an occurrence
      have whole : a :: (front ++ mark.dropLast) <+: a :: (front ++ (mark ++ behind)) := by
        rw [List.cons_prefix_cons]
        refine ⟨rfl, (List.prefix_append_right_inj _).mpr ?_⟩
        exact (List.dropLast_prefix mark).trans (List.prefix_append mark behind)
      refine List.prefix_of_prefix_length_le here whole ?_
      have size := List.length_pos_iff.mpr filled
      rw [List.length_cons, List.length_append, List.length_dropLast]
      omega
    rw [List.cons_append, cut, if_neg later, ih unmarked.2]
    rfl

/-- An occurrence that begins earlier has less in front of it. -/
theorem cut_earlier (filled : mark ≠ []) {front : List α} (behind : List α)
    (marked : mark <:+: front ++ mark.dropLast) :
    ∃ first rest, cut mark (front ++ (mark ++ behind)) = some (first, rest) ∧
      first.length < front.length := by
  induction front with
  | nil =>
    have size := List.length_pos_iff.mpr filled
    have short := marked.length_le
    rw [List.nil_append, List.length_dropLast] at short
    omega
  | cons a front ih =>
    rw [List.cons_append, cut]
    split
    next here => exact ⟨[], _, rfl, Nat.succ_pos _⟩
    next later =>
      rw [List.cons_append, List.infix_cons_iff] at marked
      have inside : mark <:+: front ++ mark.dropLast := by
        refine marked.resolve_left fun here => later (here.trans ?_)
        rw [List.cons_prefix_cons]
        refine ⟨rfl, (List.prefix_append_right_inj _).mpr ?_⟩
        exact (List.dropLast_prefix mark).trans (List.prefix_append mark behind)
      obtain ⟨first, rest, found, shorter⟩ := ih inside
      exact ⟨a :: first, rest, by rw [found]; rfl, Nat.succ_lt_succ shorter⟩

/-! ### Separating -/

theorem cut_shorter (filled : mark ≠ []) {text front behind : List α}
    (parts : cut mark text = some (front, behind)) : behind.length < text.length := by
  have size := List.length_pos_iff.mpr filled
  rw [cut_joined parts, List.length_append, List.length_append]
  omega

/-- The parts do not depend on the fuel. -/
theorem separateWithin_enough (filled : mark ≠ []) (fuel fuel' : Nat) (text : List α)
    (enough : text.length ≤ fuel) (enough' : text.length ≤ fuel') :
    separateWithin mark fuel text = separateWithin mark fuel' text := by
  induction fuel generalizing fuel' text with
  | zero =>
    obtain rfl := List.eq_nil_of_length_eq_zero (Nat.le_zero.mp enough)
    cases fuel' <;> rfl
  | succ fuel ih =>
    cases fuel' with
    | zero =>
      obtain rfl := List.eq_nil_of_length_eq_zero (Nat.le_zero.mp enough')
      rfl
    | succ fuel' =>
      rw [separateWithin, separateWithin]
      cases parts : cut mark text with
      | none => rfl
      | some pair =>
        have shorter := cut_shorter filled parts
        exact congrArg (pair.1 :: ·) (ih fuel' pair.2 (by omega) (by omega))

theorem separate_none {text : List α} (missing : cut mark text = none) :
    separate mark text = [text] := by
  unfold separate
  cases text with
  | nil => rfl
  | cons a rest => rw [List.length_cons, separateWithin, missing]

theorem separate_some (filled : mark ≠ []) {text front behind : List α}
    (parts : cut mark text = some (front, behind)) :
    separate mark text = front :: separate mark behind := by
  have shorter := cut_shorter filled parts
  unfold separate
  cases text with
  | nil => cases parts
  | cons a rest =>
    rw [List.length_cons] at shorter
    rw [List.length_cons, separateWithin, parts]
    exact congrArg (front :: ·)
      (separateWithin_enough filled _ _ behind (Nat.le_of_lt_succ shorter) (Nat.le_refl _))

theorem separate_ne_nil (filled : mark ≠ []) (text : List α) : separate mark text ≠ [] := by
  cases parts : cut mark text with
  | none =>
    rw [separate_none parts]
    exact List.cons_ne_nil _ _
  | some pair =>
    rw [separate_some filled parts]
    exact List.cons_ne_nil _ _

/-- A text of two parts has one occurrence. -/
theorem separate_two_iff (filled : mark ≠ []) (text front behind : List α) :
    separate mark text = [front, behind] ↔
      cut mark text = some (front, behind) ∧ cut mark behind = none := by
  cases parts : cut mark text with
  | none =>
    rw [separate_none parts]
    exact iff_of_false nofun nofun
  | some pair =>
    rw [separate_some filled parts, List.cons.injEq, Option.some.injEq]
    cases rest : cut mark pair.2 with
    | none =>
      rw [separate_none rest, List.cons.injEq]
      constructor
      · rintro ⟨rfl, rfl, -⟩
        exact ⟨rfl, rest⟩
      · rintro ⟨rfl, -⟩
        exact ⟨rfl, rfl, rfl⟩
    | some pair' =>
      rw [separate_some filled rest]
      refine iff_of_false ?_ ?_
      · rintro ⟨-, same⟩
        exact separate_ne_nil filled pair'.2 (List.cons.inj same).2
      · rintro ⟨rfl, missing⟩
        rw [rest] at missing
        cases missing

/-- A text separates into a front without the mark and one more part. -/
theorem separate_pair_iff (filled : mark ≠ []) {front : List α}
    (unmarked : ¬mark <:+: front ++ mark.dropLast) (text behind : List α) :
    separate mark text = [front, behind] ↔
      text = front ++ (mark ++ behind) ∧ ¬mark <:+: behind := by
  rw [separate_two_iff filled, cut_none_iff filled]
  refine and_congr_left fun _ => ⟨cut_joined, ?_⟩
  rintro rfl
  exact cut_append filled behind unmarked

end Cut

/-! ### Marks of two elements -/

/-- A pair is in joined texts if it is in one of them, or where they meet. -/
theorem pair_infix_append {α : Type} (a b : α) (l r : List α) :
    [a, b] <:+: l ++ r ↔
      [a, b] <:+: l ∨ [a, b] <:+: r ∨ l.getLast? = some a ∧ r.head? = some b := by
  induction l with
  | nil => simp
  | cons x l ih =>
    rw [List.cons_append, List.infix_cons_iff, ih, List.infix_cons_iff]
    cases l with
    | nil =>
      have begins : [a, b] <+: x :: r ↔ x = a ∧ r.head? = some b := by
        rw [List.cons_prefix_cons, eq_comm]
        cases r with
        | nil => simp
        | cons y r => simp [eq_comm]
      have short : ¬[a, b] <+: [x] := fun here => Nat.not_succ_le_self 1 here.length_le
      have shorter : ¬[a, b] <:+: [] := fun inside => Nat.not_succ_le_zero 1 inside.length_le
      simp only [List.nil_append, begins, short, shorter, List.getLast?_singleton,
        Option.some.injEq, List.getLast?_nil, reduceCtorEq, false_and, or_false, false_or]
      exact or_comm
    | cons y l =>
      have begins : [a, b] <+: x :: (y :: l ++ r) ↔ [a, b] <+: x :: y :: l := by simp
      rw [begins, List.getLast?_cons_cons]
      tauto

/-- A pair of two different elements is found behind a text exactly where it is not in it. -/
theorem cut_pair_iff {α : Type} [DecidableEq α] {a b : α} (apart : a ≠ b) (front behind : List α) :
    ∃ first rest, cut [a, b] (front ++ ([a, b] ++ behind)) = some (first, rest) ∧
      (first = front → rest = behind) ∧ (first = front ↔ ¬[a, b] <:+: front) := by
  have filled : [a, b] ≠ [] := List.cons_ne_nil _ _
  have apart' : [a, b] <:+: front ++ [a, b].dropLast ↔ [a, b] <:+: front := by
    rw [List.dropLast_cons_cons, List.dropLast_singleton, pair_infix_append]
    have short : ¬[a, b] <:+: [a] := fun inside => Nat.not_succ_le_self 1 inside.length_le
    simp [short, apart]
  by_cases marked : [a, b] <:+: front
  · obtain ⟨first, rest, found, shorter⟩ := cut_earlier filled behind (apart'.mpr marked)
    have other : first ≠ front := fun same => absurd shorter (same ▸ Nat.lt_irrefl _)
    exact ⟨first, rest, found, fun same => absurd same other,
      iff_of_false other (not_not_intro marked)⟩
  · exact ⟨front, behind, cut_append filled behind (apart'.not.mpr marked), fun _ => rfl,
      iff_of_true rfl marked⟩

end Spamass.Occurrence
