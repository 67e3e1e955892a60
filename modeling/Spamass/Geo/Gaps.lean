import Spamass.Geo.Regions

/-!
# Searches that end

Both lookups over a table of disjoint closed ranges: no access leaves the table, and the
loop ends unless the halving runs into an empty window. That happens in a gap only, and
depends on how many ranges there are and how many of them lie below the address.
-/
namespace Spamass.Geo

open Spamass.App Spamass.Emailz Spamass.Bisect

/-- Disjoint ranges in ascending order, as the search takes them: both ends belong to the range. -/
structure ClosedTable where
  regions : List Region
  nonempty : regions ≠ []
  ordered : ∀ region ∈ regions, region.addrbeg ≤ region.addrend
  apart : ∀ i (inside : i + 1 < regions.length), regions[i].addrend < regions[i + 1].addrbeg

/-- How many ranges end below an address. -/
def ClosedTable.below (t : ClosedTable) (address : UInt32) : Nat :=
  t.regions.findIdx fun region => decide (address ≤ region.addrend)

/-- The addresses for which both lookups end: the private ones, those outside the table, those of
a range, and those of a gap at which the halving settles on a single range. -/
def ClosedTable.Settled (t : ClosedTable) (address : UInt32) : Prop :=
  isPrivate address = true ∨
    (∃ region ∈ t.regions, region.addrbeg ≤ address ∧ address ≤ region.addrend) ∨
    t.below address = 0 ∨ t.below address = t.regions.length ∨
    settles t.regions.length (t.below address) = true

/-- The lookup comes to an end. -/
def Exits {α : Type} (lookup : Nat → Outcome α) : Prop := ∃ value, Returns lookup value

/-- No fuel makes the lookup access anything outside the table. -/
def Within {α : Type} (lookup : Nat → Outcome α) : Prop := ∀ fuel, lookup fuel ≠ .fault

/-! ### Accesses -/

private theorem regionAt_some (regions : List Region) (i : Int) :
    (∃ region, regionAt regions i = some region) ↔ 0 ≤ i ∧ i < regions.length := by
  unfold regionAt
  split
  next natural =>
    rw [← Option.isSome_iff_exists, isSome_getElem?]
    omega
  next negative => simp [negative]

section Accesses

variable {α : Type} (hit : Region → α) (miss : α) (regions : List Region) (address : UInt32)

/-- The bounds of the loop: a window of the table, or an empty one whose lower bound is kept by an
address below it. -/
def Window (lower upper : Int) : Prop :=
  0 ≤ lower ∧ lower < regions.length ∧ upper < regions.length ∧
    (lower ≤ upper ∨ (upper = lower - 1 ∧
      ∀ region, regionAt regions lower = some region → address < region.addrbeg))

private theorem window_middle {lower upper : Int} (le : lower ≤ upper) :
    lower ≤ lower + (upper - lower).tdiv 2 ∧
      lower + (upper - lower).tdiv 2 ≤ upper ∧
      (lower < upper → lower + (upper - lower).tdiv 2 < upper) := by
  rw [Int.tdiv_eq_ediv_of_nonneg (by omega)]
  omega

private theorem rangeSearch_within (fuel : Nat) (lower upper : Int)
    (window : Window regions address lower upper) :
    rangeSearch hit miss regions address fuel lower upper ≠ .fault := by
  -- on the fuel: each pass keeps the bounds a window
  induction fuel generalizing lower upper with
  | zero =>
    intro running
    cases running
  | succ fuel ih =>
    obtain ⟨from_, below, last, bounds⟩ := window
    obtain ⟨first, first_⟩ := (regionAt_some regions lower).mpr ⟨from_, below⟩
    unfold rangeSearch
    split
    next same =>
      rw [first_]
      dsimp only
      intro fault
      split at fault <;> cases fault
    next apart =>
      dsimp only
      rcases bounds with le | ⟨empty, before⟩
      · obtain ⟨low, high, short⟩ := window_middle le
        have inside := short (by omega)
        obtain ⟨region, there⟩ := (regionAt_some regions _).mpr
          ⟨Int.le_trans from_ low, Int.lt_of_le_of_lt high last⟩
        rw [there]
        dsimp only
        split
        next left =>
          apply ih
          refine ⟨from_, below, by omega, ?_⟩
          by_cases least : lower + (upper - lower).tdiv 2 = lower
          · -- the middle was the lower bound: nothing is left of it
            refine Or.inr ⟨by omega, ?_⟩
            intro region' there'
            rw [least, there'] at there
            obtain rfl := Option.some.inj there
            exact left
          · exact Or.inl (by omega)
        · split
          · apply ih
            exact ⟨by omega, by omega, last, Or.inl (by omega)⟩
          · intro fault
            cases fault
      · -- the window is empty: the lower bound is probed again
        have middle : lower + (upper - lower).tdiv 2 = lower := by
          rw [empty, show lower - 1 - lower = -1 by omega]
          simp
        rw [middle, first_]
        dsimp only
        rw [if_pos (before first first_)]
        apply ih
        exact ⟨from_, below, by omega, Or.inr ⟨rfl, before⟩⟩

private theorem rangeLookup_within (nonempty : regions ≠ []) :
    Within (rangeLookup hit miss regions address) := by
  intro fuel
  have positive : 0 < regions.length := List.length_pos_iff.mpr nonempty
  obtain ⟨first, first_⟩ := (regionAt_some regions 0).mpr (by omega)
  obtain ⟨last, last_⟩ := (regionAt_some regions (regions.length - 1)).mpr (by omega)
  unfold rangeLookup
  rw [first_, last_]
  dsimp only
  split
  · exact nofun
  · split
    · exact nofun
    · apply rangeSearch_within
      exact ⟨by omega, by omega, by omega, Or.inl (by omega)⟩

end Accesses

/-! ### Where an address lies -/

section Place

variable (t : ClosedTable) (address : UInt32)

theorem ClosedTable.positive : 0 < t.regions.length := List.length_pos_iff.mpr t.nonempty

theorem ClosedTable.ascending {i j : Nat} (before : i < j) (inside : j < t.regions.length) :
    t.regions[i].addrend < t.regions[j].addrbeg := by
  induction j with
  | zero => omega
  | succ j ih =>
    have next := t.apart j inside
    rcases Nat.lt_or_eq_of_le (Nat.le_of_lt_succ before) with earlier | same
    · have order := t.ordered t.regions[j] (List.getElem_mem (by omega))
      exact UInt32.lt_trans (UInt32.lt_of_lt_of_le (ih earlier (by omega)) order) next
    · simpa only [same] using next

theorem ClosedTable.below_le : t.below address ≤ t.regions.length := List.findIdx_le_length

private theorem ClosedTable.below_end {i : Nat} (before : i < t.below address)
    (inside : i < t.regions.length) : t.regions[i].addrend < address := by
  have other := List.not_of_lt_findIdx before
  simpa using other

private theorem ClosedTable.le_end (inside : t.below address < t.regions.length) :
    address ≤ t.regions[t.below address].addrend := by
  have found : decide (address ≤ t.regions[t.below address].addrend) = true :=
    List.findIdx_getElem (w := inside)
  simpa using found

theorem ClosedTable.lt_first {i : Nat} (behind : t.below address < i)
    (inside : i < t.regions.length) : address < t.regions[i].addrbeg :=
  UInt32.lt_of_le_of_lt (t.le_end address (by omega)) (t.ascending behind inside)

theorem ClosedTable.side_right {i : Nat} (before : i < t.below address)
    (inside : i < t.regions.length) : sideOf t.regions address i = .right := by
  have behind := t.below_end address before inside
  have order := t.ordered t.regions[i] (List.getElem_mem inside)
  have first : ¬address < t.regions[i].addrbeg :=
    UInt32.not_lt.mpr (UInt32.le_of_lt (UInt32.lt_of_le_of_lt order behind))
  rw [sideOf_some t.regions address inside, if_neg first, if_pos behind]

theorem ClosedTable.side_left {i : Nat} (inside : i < t.regions.length)
    (before : address < t.regions[i].addrbeg) : sideOf t.regions address i = .left := by
  rw [sideOf_some t.regions address inside, if_pos before]

/-- The range of an address is the first one that does not end below it. -/
private theorem ClosedTable.range_below {region : Region} (member : region ∈ t.regions)
    (from_ : region.addrbeg ≤ address) (to_ : address ≤ region.addrend) :
    ∃ inside : t.below address < t.regions.length, t.regions[t.below address] = region := by
  obtain ⟨i, inside, rfl⟩ := List.getElem_of_mem member
  rcases Nat.lt_trichotomy i (t.below address) with before | same | behind
  · exact absurd to_ (UInt32.not_le.mpr (t.below_end address before inside))
  · exact ⟨by omega, by simp only [← same]⟩
  · exact absurd from_ (UInt32.not_le.mpr (t.lt_first address behind inside))

private theorem ClosedTable.below_outside (outside : address < (t.regions.head t.nonempty).addrbeg ∨
    (t.regions.getLast t.nonempty).addrend < address) :
    t.below address = 0 ∨ t.below address = t.regions.length := by
  have positive := t.positive
  rcases outside with before | behind
  · left
    by_contra present
    have ends := t.below_end address (i := 0) (by omega) positive
    have order := t.ordered t.regions[0] (List.getElem_mem positive)
    rw [List.head_eq_getElem] at before
    exact absurd (UInt32.lt_trans before (UInt32.lt_of_le_of_lt order ends)) (UInt32.lt_irrefl _)
  · right
    by_contra less
    have most := t.below_le address
    have to_ := t.le_end address (by omega)
    rw [List.getLast_eq_getElem] at behind
    -- the range that ends at or above the address is the last one, or lies below it
    by_cases last : t.below address = t.regions.length - 1
    · simp only [last] at to_
      exact absurd behind (UInt32.not_lt.mpr to_)
    · have order := t.ordered t.regions[t.regions.length - 1] (List.getElem_mem (by omega))
      have next := t.ascending (i := t.below address) (j := t.regions.length - 1) (by omega)
        (by omega)
      have above := UInt32.lt_of_le_of_lt to_ (UInt32.lt_of_lt_of_le next order)
      exact absurd (UInt32.lt_trans behind above) (UInt32.lt_irrefl _)

private theorem ClosedTable.below_inside (low : ¬address < (t.regions.head t.nonempty).addrbeg)
    (high : ¬(t.regions.getLast t.nonempty).addrend < address) :
    t.below address ≠ t.regions.length ∧ (t.below address = 0 →
      ∃ region ∈ t.regions, region.addrbeg ≤ address ∧ address ≤ region.addrend) := by
  have positive := t.positive
  constructor
  · intro all
    apply high
    rw [List.getLast_eq_getElem]
    exact t.below_end address (by omega) (by omega)
  · intro missing
    have to_ := t.le_end address (by omega)
    simp only [missing] at to_
    rw [List.head_eq_getElem] at low
    exact ⟨_, List.getElem_mem positive, UInt32.not_lt.mp low, to_⟩

end Place

/-! ### Lookups that end -/

section Ends

variable {α : Type} (hit : Region → α) (miss : α) (t : ClosedTable) (address : UInt32)

private theorem exits_tells {found : Found} {lower upper : Int}
    (follows : AgreesWith hit miss t.regions address found lower upper) :
    Exits (fun fuel => rangeSearch hit miss t.regions address fuel lower upper) ↔
      found ≠ .endless := by
  cases found with
  | position i =>
    obtain ⟨region, -, returns⟩ := follows
    exact iff_of_true ⟨_, returns⟩ nofun
  | absent => exact iff_of_true ⟨_, follows⟩ nofun
  | endless =>
    refine iff_of_false ?_ fun other => other rfl
    rintro ⟨value, fuel, returned⟩
    dsimp only at returned
    rw [follows fuel] at returned
    cases returned

/-- The search of the table, by the place of the address. -/
private theorem bisect_settled :
    bisect (sideOf t.regions address) 0 t.regions.length ≠ .endless ↔
      (∃ region ∈ t.regions, region.addrbeg ≤ address ∧ address ≤ region.addrend) ∨
        settles t.regions.length (t.below address) = true := by
  have most := t.below_le address
  have rights : ∀ i, i < t.below address → i < t.regions.length →
      sideOf t.regions address (0 + i) = .right := by
    intro i before inside
    rw [Nat.zero_add]
    exact t.side_right address before inside
  by_cases ranged : ∃ region ∈ t.regions, region.addrbeg ≤ address ∧ address ≤ region.addrend
  · obtain ⟨region, member, from_, to_⟩ := ranged
    obtain ⟨inside, same⟩ := t.range_below address member from_ to_
    have here : sideOf t.regions address (0 + t.below address) = .here := by
      rw [Nat.zero_add, sideOf_some t.regions address inside, same,
        if_neg (UInt32.not_lt.mpr from_), if_neg (UInt32.not_lt.mpr to_)]
    rw [bisect_one _ 0 t.regions.length (t.below address) inside
      (fun i before => rights i before (by omega)) here]
    · exact iff_of_true nofun (Or.inl ⟨region, member, from_, to_⟩)
    · intro i behind within
      rw [Nat.zero_add]
      exact t.side_left address within (t.lt_first address behind within)
  · rw [or_iff_right ranged, bisect_gap _ 0 t.regions.length (t.below address) rights]
    · split
      next ends => exact iff_of_true nofun ends
      next endless => exact iff_of_false (fun other => other rfl) endless
    · intro i from_ within
      rw [Nat.zero_add]
      apply t.side_left address within
      rcases Nat.lt_or_eq_of_le from_ with behind | same
      · exact t.lt_first address behind within
      · -- the range right above the address does not hold it
        subst same
        by_contra begins
        exact ranged ⟨_, List.getElem_mem within, UInt32.not_lt.mp begins,
          t.le_end address within⟩

private theorem rangeLookup_exits :
    Exits (rangeLookup hit miss t.regions address) ↔
      (∃ region ∈ t.regions, region.addrbeg ≤ address ∧ address ≤ region.addrend) ∨
        t.below address = 0 ∨ t.below address = t.regions.length ∨
        settles t.regions.length (t.below address) = true := by
  have positive := t.positive
  have first : regionAt t.regions 0 = some (t.regions.head t.nonempty) := by
    rw [show (0 : Int) = (0 : Nat) from rfl, regionAt_nat, List.getElem?_eq_getElem positive,
      List.head_eq_getElem]
  have last : regionAt t.regions (t.regions.length - 1) =
      some (t.regions.getLast t.nonempty) := by
    rw [show (t.regions.length : Int) - 1 = (t.regions.length - 1 : Nat) by omega, regionAt_nat,
      List.getElem?_eq_getElem (by omega), List.getLast_eq_getElem]
  have ends : ∀ fuel, rangeLookup hit miss t.regions address fuel =
      if address < (t.regions.head t.nonempty).addrbeg then .returned miss
      else if (t.regions.getLast t.nonempty).addrend < address then .returned miss
      else rangeSearch hit miss t.regions address fuel 0 (t.regions.length - 1) := by
    intro fuel
    unfold rangeLookup
    rw [first, last]
  by_cases outside : address < (t.regions.head t.nonempty).addrbeg ∨
      (t.regions.getLast t.nonempty).addrend < address
  · have place := t.below_outside address outside
    have returned : rangeLookup hit miss t.regions address 0 = .returned miss := by
      rw [ends]
      rcases outside with low | high
      · rw [if_pos low]
      · rw [if_pos high, ite_self]
    refine iff_of_true ⟨miss, 0, returned⟩ ?_
    rcases place with first | last
    · exact Or.inr (Or.inl first)
    · exact Or.inr (Or.inr (Or.inl last))
  · rw [not_or] at outside
    have search : rangeLookup hit miss t.regions address =
        fun fuel => rangeSearch hit miss t.regions address fuel (0 : Nat)
          ((0 : Nat) + t.regions.length - 1) := by
      funext fuel
      rw [ends, if_neg outside.1, if_neg outside.2, Int.natCast_zero, Int.zero_add]
    have follows := rangeSearch_bisect hit miss t.regions address t.regions.length 0 positive
      (by omega)
    rw [search, exits_tells hit miss t address follows, bisect_settled]
    -- an address between the ends lies in the first range or above it, and not above all
    obtain ⟨most, least⟩ := t.below_inside address outside.1 outside.2
    constructor
    · rintro (ranged | settled)
      · exact Or.inl ranged
      · exact Or.inr (Or.inr (Or.inr settled))
    · rintro (ranged | first | last | settled)
      · exact Or.inl ranged
      · exact Or.inl (least first)
      · exact absurd last most
      · exact Or.inr settled

end Ends

/-- In both classes no access leaves the table, and the loop ends exactly for the settled
addresses. -/
theorem searches_exit_iff (t : ClosedTable) :
    (∀ (inetAddr : Bytes → UInt32) (ipaddr : Bytes),
      Within (countryCodeForIPAddress inetAddr t.regions ipaddr) ∧
        (Exits (countryCodeForIPAddress inetAddr t.regions ipaddr) ↔
          t.Settled (ntohl (inetAddr ipaddr)))) ∧
      ∀ address : UInt32,
        Within (regionForIPv4Address t.regions address) ∧
          (Exits (regionForIPv4Address t.regions address) ↔ t.Settled address) := by
  have positive := t.positive
  constructor
  · intro inetAddr ipaddr
    unfold countryCodeForIPAddress
    dsimp only
    rw [ClosedTable.Settled]
    -- a private address never reaches the table
    cases isPrivate (ntohl (inetAddr ipaddr)) with
    | true => exact ⟨fun _ => nofun, iff_of_true ⟨_, 0, rfl⟩ (Or.inl rfl)⟩
    | false =>
      simp only [Bool.false_eq_true, if_false, false_or, Nat.ne_of_gt positive]
      exact ⟨rangeLookup_within _ _ _ _ t.nonempty, rangeLookup_exits _ _ t _⟩
  · intro address
    unfold regionForIPv4Address
    rw [ClosedTable.Settled]
    cases isPrivate address with
    | true => exact ⟨fun _ => nofun, iff_of_true ⟨_, 0, rfl⟩ (Or.inl rfl)⟩
    | false =>
      simp only [Bool.false_eq_true, if_false, false_or]
      exact ⟨rangeLookup_within _ _ _ _ t.nonempty, rangeLookup_exits _ _ t _⟩

private theorem au_ascii : ((65 : UInt8) < 0x80 ∧ (65 : UInt8) ≠ 0) ∧ (85 : UInt8) < 0x80 ∧
    (85 : UInt8) ≠ 0 := by decide

/-- A range of one address. -/
def single (address : UInt32) : Region := ⟨address, address, ⟨65, 85, au_ascii⟩⟩

/-- 1.0.0.0, 1.0.0.2, 1.0.0.4 and 1.0.0.6. -/
def fourRegions : List Region := [0x01000000, 0x01000002, 0x01000004, 0x01000006].map single

private theorem fourRegions_ordered : ∀ region ∈ fourRegions, region.addrbeg ≤ region.addrend := by
  intro region member
  obtain ⟨address, -, rfl⟩ := List.mem_map.mp member
  exact UInt32.le_refl _

private theorem fourRegions_apart (i : Nat) (inside : i + 1 < fourRegions.length) :
    fourRegions[i].addrend < fourRegions[i + 1].addrbeg := by
  have length : fourRegions.length = 4 := rfl
  have cases_ : i = 0 ∨ i = 1 ∨ i = 2 := by omega
  rcases cases_ with rfl | rfl | rfl <;> simp [fourRegions, single]

private theorem fourRegions_nonempty : fourRegions ≠ [] := List.cons_ne_nil _ _

def fourRanges : ClosedTable := ⟨fourRegions, fourRegions_nonempty, fourRegions_ordered,
  fourRegions_apart⟩

private theorem fourRanges_circle {α : Type} (hit : Region → α) (miss : α) :
    ¬Exits (rangeLookup hit miss fourRanges.regions 0x01000003) := by
  have place : fourRanges.below 0x01000003 = 2 := by decide
  rw [rangeLookup_exits, place]
  rintro (ranged | first | last | settled)
  · exact absurd ranged (by decide)
  · cases first
  · exact absurd last (by decide)
  · have length : fourRanges.regions.length = 4 := rfl
    rw [length] at settled
    simp [settles] at settled

/-- The searches for 1.0.0.3, in the second gap, go round in a circle. -/
theorem searches_circle :
    ¬Exits (regionForIPv4Address fourRanges.regions 0x01000003) ∧
      ¬Exits (countryCodeForIPAddress (fun _ => 0x03000001) fourRanges.regions
        (ascii "1.0.0.3")) := by
  have public_ : isPrivate 0x01000003 = false := by decide
  have names : ntohl 0x03000001 = 0x01000003 := by decide
  have present : fourRanges.regions.length ≠ 0 := by decide
  constructor
  · unfold regionForIPv4Address
    simp only [public_, Bool.false_eq_true, if_false]
    exact fourRanges_circle _ _
  · unfold countryCodeForIPAddress
    simp only [names, public_, if_neg present, Bool.false_eq_true, if_false]
    exact fourRanges_circle _ _

end Spamass.Geo
