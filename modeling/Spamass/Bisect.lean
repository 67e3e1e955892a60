import Mathlib.Tactic.Basic

/-!
# Halving a window

A search over a window of positions probes the middle one and goes on to its left
or to its right, down to a window of one. A window of one is not split any more;
the search of an empty window does not end. Which of the three happens depends only
on how many positions send it to the right.
-/
namespace Spamass.Bisect

/-- Where a probe sends the search. -/
inductive Side where
  | left | here | right
  deriving DecidableEq, Repr

inductive Found where
  | position (i : Nat)
  | absent
  | endless
  deriving DecidableEq, Repr

/-- The search of the window of `size` positions from `lower` on. -/
def bisect (side : Nat → Side) (lower size : Nat) : Found :=
  if size = 0 then .endless
  else if size = 1 then (if side lower = .here then .position lower else .absent)
  else
    match side (lower + (size - 1) / 2) with
    | .here => .position (lower + (size - 1) / 2)
    | .left => bisect side lower ((size - 1) / 2)
    | .right => bisect side (lower + (size - 1) / 2 + 1) (size / 2)
termination_by size
decreasing_by all_goals omega

/-- With `below` positions to the left of the place and none at it: the search ends. -/
def settles (size below : Nat) : Bool :=
  if size = 0 then false
  else if size = 1 then true
  else if (size - 1) / 2 < below then settles (size / 2) (below - ((size - 1) / 2 + 1))
  else settles ((size - 1) / 2) below
termination_by size
decreasing_by all_goals omega

/-- With two adjacent positions at the place, the second of them at `second`: the search comes
to the second before it comes to the first. -/
def secondFirst (size second : Nat) : Bool :=
  if size ≤ 1 then true
  else if (size - 1) / 2 = second then true
  else if (size - 1) / 2 + 1 = second then false
  else if (size - 1) / 2 < second then
    secondFirst (size / 2) (second - ((size - 1) / 2 + 1))
  else secondFirst ((size - 1) / 2) second
termination_by size
decreasing_by all_goals omega

theorem secondFirst_many (size second : Nat) (many : 2 ≤ size) :
    secondFirst size second =
      if (size - 1) / 2 = second then true
      else if (size - 1) / 2 + 1 = second then false
      else if (size - 1) / 2 < second then
        secondFirst (size / 2) (second - ((size - 1) / 2 + 1))
      else secondFirst ((size - 1) / 2) second := by
  rw [secondFirst, if_neg (by omega)]

section Window

variable (side : Nat → Side)

theorem bisect_left (lower size : Nat) (many : 2 ≤ size)
    (left : side (lower + (size - 1) / 2) = .left) :
    bisect side lower size = bisect side lower ((size - 1) / 2) := by
  rw [bisect, if_neg (by omega), if_neg (by omega), left]

theorem bisect_right (lower size : Nat) (many : 2 ≤ size)
    (right : side (lower + (size - 1) / 2) = .right) :
    bisect side lower size = bisect side (lower + (size - 1) / 2 + 1) (size / 2) := by
  rw [bisect, if_neg (by omega), if_neg (by omega), right]

theorem bisect_here (lower size : Nat) (many : 2 ≤ size)
    (here : side (lower + (size - 1) / 2) = .here) :
    bisect side lower size = .position (lower + (size - 1) / 2) := by
  rw [bisect, if_neg (by omega), if_neg (by omega), here]

/-- The positions right of the middle, counted from there. -/
theorem shifted {side : Nat → Side} {lower middle i : Nat} {to_ : Side}
    (at_ : side (lower + (middle + 1 + i)) = to_) : side (lower + middle + 1 + i) = to_ := by
  rwa [← Nat.add_assoc, ← Nat.add_assoc] at at_

/-- The place lies between two positions. -/
theorem bisect_gap (lower size below : Nat)
    (rights : ∀ i, i < below → i < size → side (lower + i) = .right)
    (lefts : ∀ i, below ≤ i → i < size → side (lower + i) = .left) :
    bisect side lower size = if settles size below then .absent else .endless := by
  induction size using Nat.strongRecOn generalizing lower below with
  | _ size ih =>
    rw [settles]
    by_cases empty : size = 0
    · rw [bisect, if_pos empty, if_pos empty]
      rfl
    · by_cases one : size = 1
      · have other : side (lower + 0) ≠ .here := by
          by_cases missing : below = 0
          · rw [lefts 0 (by omega) (by omega)]
            exact nofun
          · rw [rights 0 (by omega) (by omega)]
            exact nofun
        rw [Nat.add_zero] at other
        rw [bisect, if_neg empty, if_pos one, if_neg other, if_neg empty, if_pos one]
        rfl
      · rw [if_neg empty, if_neg one]
        by_cases before : (size - 1) / 2 < below
        · -- the middle position is below the place: the search goes to its right
          rw [bisect_right side lower size (by omega) (rights _ before (by omega)), if_pos before]
          apply ih (size / 2) (by omega)
          · exact fun i within inside => shifted (rights _ (by omega) (by omega))
          · exact fun i above inside => shifted (lefts _ (by omega) (by omega))
        · rw [bisect_left side lower size (by omega) (lefts _ (by omega) (by omega)),
            if_neg before]
          apply ih ((size - 1) / 2) (by omega)
          · exact fun i within inside => rights i within (by omega)
          · exact fun i above inside => lefts i above (by omega)

/-- One position is the place. -/
theorem bisect_one (lower size place : Nat) (inside : place < size)
    (rights : ∀ i, i < place → side (lower + i) = .right) (here : side (lower + place) = .here)
    (lefts : ∀ i, place < i → i < size → side (lower + i) = .left) :
    bisect side lower size = .position (lower + place) := by
  -- on the window: the half that is kept has the place in it
  induction size using Nat.strongRecOn generalizing lower place with
  | _ size ih =>
    by_cases one : size = 1
    · obtain rfl : place = 0 := by omega
      rw [Nat.add_zero] at here ⊢
      rw [bisect, if_neg (by omega), if_pos one, if_pos here]
    · rcases Nat.lt_trichotomy ((size - 1) / 2) place with before | same | behind
      · have place_ : place = (size - 1) / 2 + 1 + (place - ((size - 1) / 2 + 1)) := by omega
        rw [place_] at here
        have found := ih (size / 2) (by omega) (lower + (size - 1) / 2 + 1)
          (place - ((size - 1) / 2 + 1)) (by omega)
          (fun i within => shifted (rights _ (by omega))) (shifted here)
          (fun i above within => shifted (lefts _ (by omega) (by omega)))
        rw [bisect_right side lower size (by omega) (rights _ before), found]
        congr 1
        omega
      · subst same
        exact bisect_here side lower size (by omega) here
      · rw [bisect_left side lower size (by omega) (lefts _ behind (by omega))]
        exact ih ((size - 1) / 2) (by omega) lower place behind rights here
          fun i above within => lefts i above (by omega)

/-- Two adjacent positions are the place. -/
theorem bisect_two (lower size second : Nat) (inside : second < size) (positive : 0 < second)
    (rights : ∀ i, i + 1 < second → side (lower + i) = .right)
    (first : side (lower + (second - 1)) = .here) (here : side (lower + second) = .here)
    (lefts : ∀ i, second < i → i < size → side (lower + i) = .left) :
    bisect side lower size =
      .position (lower + if secondFirst size second then second else second - 1) := by
  induction size using Nat.strongRecOn generalizing lower second with
  | _ size ih =>
    rw [secondFirst_many size second (by omega)]
    by_cases same : (size - 1) / 2 = second
    · rw [← same] at here
      rw [bisect_here side lower size (by omega) here, if_pos same, if_pos rfl, same]
    · rw [if_neg same]
      by_cases next : (size - 1) / 2 + 1 = second
      · have middle : second - 1 = (size - 1) / 2 := by omega
        rw [middle] at first
        rw [bisect_here side lower size (by omega) first, if_pos next, middle]
        rfl
      · rw [if_neg next]
        by_cases before : (size - 1) / 2 < second
        · -- both lie to the right of the middle
          have second_ : second = (size - 1) / 2 + 1 + (second - ((size - 1) / 2 + 1)) := by omega
          have first_ : second - 1 = (size - 1) / 2 + 1 + (second - ((size - 1) / 2 + 1) - 1) := by
            omega
          rw [second_] at here
          rw [first_] at first
          have found := ih (size / 2) (by omega) (lower + (size - 1) / 2 + 1)
            (second - ((size - 1) / 2 + 1)) (by omega) (by omega)
            (fun i within => shifted (rights _ (by omega))) (shifted first) (shifted here)
            (fun i above within => shifted (lefts _ (by omega) (by omega)))
          rw [bisect_right side lower size (by omega) (rights _ (by omega)), found, if_pos before]
          split
          · congr 1
            omega
          · congr 1
            omega
        · rw [bisect_left side lower size (by omega) (lefts _ (by omega) (by omega)), if_neg before]
          exact ih ((size - 1) / 2) (by omega) lower second (by omega) positive rights first here
            fun i above within => lefts i above (by omega)

end Window

end Spamass.Bisect
