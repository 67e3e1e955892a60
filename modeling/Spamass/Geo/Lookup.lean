import Spamass.Geo.Regions

/-!
# Exact lookups

The stored end of a range is the first address behind it, and the search compares it
inclusively. A lookup still answers exactly for most addresses: this module says for
which, over every table of disjoint ranges.
-/
namespace Spamass.Geo

open Spamass.App Spamass.Emailz Spamass.Bisect

/-- A delegated range: a first address and a count. -/
structure Range where
  first : Nat
  count : Nat
  code : CountryCode
  positive : 1 ≤ count
  fits : first + count ≤ 0x100000000

/-- The first address behind the range. -/
def Range.past (r : Range) : Nat := r.first + r.count

def Range.holds (r : Range) (x : Nat) : Bool := decide (r.first ≤ x) && decide (x < r.past)

/-- The range as the code stores it. -/
def Range.region (r : Range) : Region := .build (UInt32.ofNat r.first) r.count r.code

/-- Disjoint ranges, sorted by first address. -/
structure Table where
  ranges : List Range
  nonempty : ranges ≠ []
  apart : ranges.Pairwise fun r s => r.past ≤ s.first

def Table.regions (t : Table) : List Region := t.ranges.map Range.region

def Table.rangeOf (t : Table) (x : Nat) : Option Range := t.ranges.find? fun r => r.holds x

/-- How many ranges end at or below an address. -/
def Table.below (t : Table) (x : Nat) : Nat := t.ranges.findIdx fun r => decide (x < r.past)

/-- The last range ends at the top of the address space. -/
def Table.endsAtTop (t : Table) : Bool := (t.ranges.getLast t.nonempty).past == 0x100000000

/-- The addresses for which a lookup is exact. A table that ends at the top stores 0 for that end,
and finds nothing but 0. In any other, the address right behind a range is taken for the range,
unless a range of the same code begins there, or one the search comes to first; and in a gap the
search has to settle on a single range. -/
def Table.Exact (t : Table) (x : Nat) : Prop :=
  if t.endsAtTop then x = 0 ∨ t.rangeOf x = none
  else match t.rangeOf x with
    | some r => ∀ previous ∈ t.ranges, previous.past = x →
      previous.code = r.code ∨ secondFirst t.ranges.length (t.below x) = true
    | none => (∀ previous ∈ t.ranges, previous.past ≠ x) ∧
      (t.below x = 0 ∨ t.below x = t.ranges.length ∨
        settles t.ranges.length (t.below x) = true)

section Order

variable (t : Table)

theorem Table.positive : 0 < t.ranges.length := List.length_pos_iff.mpr t.nonempty

private theorem Range.first_past (r : Range) : r.first < r.past := by
  have positive := r.positive
  unfold Range.past
  omega

theorem Table.ordered {i j : Nat} (before : i < j) (inside : j < t.ranges.length) :
    t.ranges[i].past ≤ t.ranges[j].first :=
  List.pairwise_iff_getElem.mp t.apart i j (by omega) inside before

private theorem Table.below_iff (x : Nat) {i : Nat} (inside : i < t.ranges.length) :
    i < t.below x ↔ t.ranges[i].past ≤ x := by
  constructor
  · intro below
    have other := List.not_of_lt_findIdx below
    simpa using other
  · intro ends
    by_contra behind
    have place : t.below x < t.ranges.length := by omega
    have above : decide (x < t.ranges[t.below x].past) = true := List.findIdx_getElem (w := place)
    rw [decide_eq_true_eq] at above
    rcases Nat.lt_or_eq_of_le (Nat.le_of_not_lt behind) with before | same
    · -- a range behind one that ends above the address ends above it too
      have order := t.ordered before inside
      have past := t.ranges[i].first_past
      omega
    · simp only [same] at above
      omega

theorem Table.below_le (x : Nat) : t.below x ≤ t.ranges.length := List.findIdx_le_length

private theorem Table.past_le {i : Nat} (inside : i < t.ranges.length) :
    t.ranges[i].past ≤ (t.ranges.getLast t.nonempty).past := by
  rw [List.getLast_eq_getElem]
  by_cases last : i = t.ranges.length - 1
  · simp only [last]
    exact Nat.le_refl _
  · have positive := t.positive
    have order := t.ordered (i := i) (j := t.ranges.length - 1) (by omega) (by omega)
    have past := t.ranges[t.ranges.length - 1].first_past
    omega

/-- The range of an address is the one it lies in. -/
private theorem Table.rangeOf_some {x : Nat} {r : Range} (found : t.rangeOf x = some r) :
    ∃ (i : Nat) (inside : i < t.ranges.length), t.ranges[i] = r ∧ r.first ≤ x ∧ x < r.past := by
  have member := List.mem_of_find?_eq_some found
  have holds := List.find?_some found
  obtain ⟨i, inside, same⟩ := List.getElem_of_mem member
  simp only [Range.holds, Bool.and_eq_true, decide_eq_true_eq] at holds
  exact ⟨i, inside, same, holds⟩

private theorem Table.rangeOf_none {x : Nat} (missing : t.rangeOf x = none) {i : Nat}
    (inside : i < t.ranges.length) : ¬ (t.ranges[i].first ≤ x ∧ x < t.ranges[i].past) := by
  have all := List.find?_eq_none.mp missing t.ranges[i] (List.getElem_mem inside)
  simpa [Range.holds] using all

end Order

section Stored

variable (t : Table) (address : UInt32)

private theorem Range.region_addrbeg (r : Range) : r.region.addrbeg.toNat = r.first := by
  have fits := r.fits
  have positive := r.positive
  have below : r.first < UInt32.size := by
    rw [UInt32.size]
    omega
  rw [Range.region, Region.build, UInt32.toNat_ofNat_of_lt' below]

theorem Range.region_addrend (r : Range) : r.region.addrend.toNat = r.past % 0x100000000 := by
  simp [Range.region, Region.build, Range.past]

theorem Table.regions_getElem? {i : Nat} (inside : i < t.ranges.length) :
    t.regions[i]? = some t.ranges[i].region := by
  rw [Table.regions, List.getElem?_map, List.getElem?_eq_getElem inside]
  rfl

/-- The checks against the ends of the table, and the loop behind them. -/
private theorem lookup_split {α : Type} (hit : Region → α) (miss : α) (fuel : Nat) :
    rangeLookup hit miss t.regions address fuel =
      if address.toNat < (t.ranges.head t.nonempty).first then .returned miss
      else if (t.ranges.getLast t.nonempty).past % 0x100000000 < address.toNat then .returned miss
      else rangeSearch hit miss t.regions address fuel 0 (t.ranges.length - 1) := by
  have positive := t.positive
  have length : t.regions.length = t.ranges.length := List.length_map ..
  have last : (t.regions.length : Int) - 1 = (t.ranges.length - 1 : Nat) := by omega
  have first_ : regionAt t.regions 0 = some (t.ranges.head t.nonempty).region := by
    rw [show (0 : Int) = (0 : Nat) from rfl, regionAt_nat, t.regions_getElem? positive,
      List.head_eq_getElem]
  have last_ : regionAt t.regions (t.regions.length - 1) =
      some (t.ranges.getLast t.nonempty).region := by
    rw [last, regionAt_nat, t.regions_getElem? (by omega), List.getLast_eq_getElem]
  unfold rangeLookup
  rw [first_, last_]
  simp only [UInt32.lt_iff_toNat_lt, Range.region_addrbeg, Range.region_addrend, length]

theorem Table.past_low (low : t.endsAtTop = false) {i : Nat} (inside : i < t.ranges.length) :
    t.ranges[i].past < 0x100000000 := by
  have most := t.past_le inside
  have last := (t.ranges.getLast t.nonempty).fits
  have other : (t.ranges.getLast t.nonempty).past ≠ 0x100000000 := by
    simpa [Table.endsAtTop] using low
  unfold Range.past at most other ⊢
  omega

/-- Where the loop goes on from a range, in a table that ends below the top. -/
private theorem side_range (low : t.endsAtTop = false) {i : Nat} (inside : i < t.ranges.length) :
    sideOf t.regions address i =
      if address.toNat < t.ranges[i].first then .left
      else if t.ranges[i].past < address.toNat then .right else .here := by
  have past := t.past_low low inside
  rw [sideOf, t.regions_getElem? inside]
  dsimp only
  simp only [UInt32.lt_iff_toNat_lt, Range.region_addrbeg, Range.region_addrend,
    Nat.mod_eq_of_lt past]

end Stored

/-! ### Where an address lies -/

section Place

variable (t : Table) (x : Nat)

theorem Table.below_past {i : Nat} (before : i + 1 < t.below x) (inside : i < t.ranges.length) :
    t.ranges[i].past < x := by
  have most := t.below_le x
  have next : i + 1 < t.ranges.length := by omega
  have ends := (t.below_iff x next).mp before
  have order := t.ordered (by omega : i < i + 1) next
  have past := t.ranges[i + 1].first_past
  omega

private theorem Table.lt_past {i : Nat} (from_ : t.below x ≤ i) (inside : i < t.ranges.length) :
    x < t.ranges[i].past := by
  have ends := t.below_iff x inside
  omega

theorem Table.lt_first {i : Nat} (behind : t.below x < i) (inside : i < t.ranges.length) :
    x < t.ranges[i].first := by
  have past := t.lt_past x (Nat.le_refl _) (by omega : t.below x < t.ranges.length)
  have order := t.ordered behind inside
  omega

/-- A range that ends right before the address is the last one below it. -/
private theorem Table.previous {r : Range} (member : r ∈ t.ranges) (ends : r.past = x) :
    ∃ inside : t.below x - 1 < t.ranges.length, 0 < t.below x ∧ t.ranges[t.below x - 1] = r := by
  obtain ⟨i, inside, rfl⟩ := List.getElem_of_mem member
  have below := (t.below_iff x inside).mpr (by omega)
  by_cases last : i + 1 = t.below x
  · have same : t.below x - 1 = i := by omega
    refine ⟨by omega, by omega, ?_⟩
    simp only [same]
  · have past := t.below_past x (by omega) inside
    omega

private theorem Table.rangeOf_here {r : Range} (found : t.rangeOf x = some r) :
    ∃ inside : t.below x < t.ranges.length, t.ranges[t.below x] = r ∧ r.first ≤ x ∧ x < r.past := by
  obtain ⟨i, inside, rfl, first, past⟩ := t.rangeOf_some found
  have from_ := t.below_iff x inside
  -- a range behind the first one that ends above the address begins above it
  rcases Nat.lt_or_ge (t.below x) i with before | other
  · have first' := t.lt_first x before inside
    omega
  · obtain rfl : i = t.below x := by omega
    exact ⟨inside, rfl, first, past⟩

theorem Table.rangeOf_gap (gap : t.rangeOf x = none) (inside : t.below x < t.ranges.length) :
    x < t.ranges[t.below x].first := by
  have outside := t.rangeOf_none gap inside
  have past := t.lt_past x (Nat.le_refl _) inside
  omega

private theorem Table.head_first_le {i : Nat} (inside : i < t.ranges.length) :
    (t.ranges.head t.nonempty).first ≤ t.ranges[i].first := by
  rw [List.head_eq_getElem]
  rcases Nat.eq_zero_or_pos i with zero | positive
  · simp only [zero]
    exact Nat.le_refl _
  · have order := t.ordered positive inside
    have past := t.ranges[0].first_past
    omega

end Place

section Sides

variable (t : Table) (address : UInt32)

theorem side_left {i : Nat} (inside : i < t.ranges.length)
    (before : address.toNat < t.ranges[i].first) : sideOf t.regions address i = .left := by
  rw [sideOf, t.regions_getElem? inside]
  dsimp only
  rw [if_pos]
  rwa [UInt32.lt_iff_toNat_lt, Range.region_addrbeg]

theorem side_right (low : t.endsAtTop = false) {i : Nat} (inside : i < t.ranges.length)
    (behind : t.ranges[i].past < address.toNat) : sideOf t.regions address i = .right := by
  have past := t.ranges[i].first_past
  rw [side_range t address low inside, if_neg (by omega), if_pos behind]

private theorem side_here (low : t.endsAtTop = false) {i : Nat} (inside : i < t.ranges.length)
    (from_ : t.ranges[i].first ≤ address.toNat) (to_ : address.toNat ≤ t.ranges[i].past) :
    sideOf t.regions address i = .here := by
  rw [side_range t address low inside, if_neg (by omega), if_neg (by omega)]

end Sides

/-! ### What a lookup returns -/

section Answers

variable {α : Type} (f : CountryCode → α) (miss : α) (t : Table) (address : UInt32)

/-- What a lookup should return. -/
def Table.answer (x : Nat) : α :=
  match t.rangeOf x with
  | some r => f r.code
  | none => miss

/-- The lookups of both classes, on a table. -/
def Table.lookup (fuel : Nat) : Outcome α :=
  rangeLookup (fun region => f region.code) miss t.regions address fuel

private theorem lookup_outside (value : α)
    (outside : address.toNat < (t.ranges.head t.nonempty).first ∨
      (t.ranges.getLast t.nonempty).past % 0x100000000 < address.toNat) :
    Returns (t.lookup f miss address) value ↔ value = miss := by
  have all : ∀ fuel, t.lookup f miss address fuel = .returned miss := by
    intro fuel
    rw [Table.lookup, lookup_split]
    rcases outside with low | high
    · rw [if_pos low]
    · rw [if_pos high]
      split <;> rfl
  constructor
  · rintro ⟨fuel, returned⟩
    rw [all fuel] at returned
    cases returned
    rfl
  · intro same
    exact ⟨0, by rw [all, same]⟩

private theorem lookup_inside (value : α)
    (low : (t.ranges.head t.nonempty).first ≤ address.toNat)
    (high : address.toNat ≤ (t.ranges.getLast t.nonempty).past % 0x100000000) :
    Returns (t.lookup f miss address) value ↔
      Tells (fun region => f region.code) miss t.regions
        (bisect (sideOf t.regions address) 0 t.ranges.length) value := by
  have length : t.regions.length = t.ranges.length := List.length_map ..
  have follows := rangeSearch_bisect (fun region => f region.code) miss t.regions address
    t.ranges.length 0 t.positive (by omega)
  have same : ∀ fuel, t.lookup f miss address fuel = rangeSearch (fun region => f region.code) miss
      t.regions address fuel (0 : Nat) ((0 : Nat) + t.ranges.length - 1) := by
    intro fuel
    rw [Table.lookup, lookup_split, if_neg (by omega), if_neg (by omega), Int.natCast_zero,
      Int.zero_add]
  rw [← follows_returns _ _ _ _ _ _ _ value follows]
  exact exists_congr fun fuel => by rw [same fuel]

/-- Nothing but 0 is found in a table that ends at the top. -/
private theorem lookup_top (top : t.endsAtTop = true) (other : ∀ code, f code ≠ miss) :
    Returns (t.lookup f miss address) (t.answer f miss address.toNat) ↔
      t.Exact address.toNat := by
  have top_ : (t.ranges.getLast t.nonempty).past = 0x100000000 := by
    simpa [Table.endsAtTop] using top
  rw [Table.Exact, if_pos top, Table.answer]
  cases found : t.rangeOf address.toNat with
  | none =>
    -- the answer is a miss wherever the search ends
    refine iff_of_true ?_ (.inr rfl)
    by_cases zero : address.toNat = 0
    · have positive := t.positive
      have gap := t.rangeOf_none found positive
      have past := t.ranges[0].first_past
      apply (lookup_outside f miss t address miss ?_).mpr rfl
      left
      rw [List.head_eq_getElem]
      omega
    · apply (lookup_outside f miss t address miss ?_).mpr rfl
      right
      rw [top_]
      omega
  | some r =>
    have never : (some r = none) = False := eq_false nofun
    rw [never, or_false]
    dsimp only
    -- the end stored for the last range is 0, so only 0 gets past the check
    by_cases zero : address.toNat = 0
    · obtain ⟨inside, same, first, past⟩ := t.rangeOf_here _ found
      have missing : t.below address.toNat = 0 := by
        by_contra present
        have ends := (t.below_iff address.toNat (i := 0) t.positive).mp (by omega)
        have past := t.ranges[0].first_past
        omega
      have head := t.head_first_le (i := t.below address.toNat) inside
      rw [same] at head
      refine iff_of_true ?_ zero
      apply (lookup_inside f miss t address _ (by omega) (by omega)).mpr
      rw [bisect_one _ 0 t.ranges.length 0 t.positive]
      · refine ⟨r.region, ?_, rfl⟩
        rw [Nat.zero_add, t.regions_getElem? t.positive]
        simp only [← same, missing]
      · exact fun i below => absurd below (Nat.not_lt_zero i)
      · rw [Nat.zero_add, sideOf, t.regions_getElem? t.positive]
        dsimp only
        rw [if_neg, if_neg]
        · rw [UInt32.lt_iff_toNat_lt, zero]
          omega
        · rw [UInt32.lt_iff_toNat_lt, Range.region_addrbeg]
          simp only [missing] at same
          rw [same]
          omega
      · intro i above below
        rw [Nat.zero_add]
        exact side_left t address below (t.lt_first _ (by omega) below)
    · refine iff_of_false ?_ zero
      rw [lookup_outside f miss t address (f r.code) (.inr (by rw [top_]; omega))]
      exact other r.code

/-- The search of a table that ends below the top, from its ends inwards. -/
theorem lookup_low (low : t.endsAtTop = false) (value : α) {i j : Nat} (first : i < t.ranges.length)
    (last : j < t.ranges.length) (from_ : t.ranges[i].first ≤ address.toNat)
    (to_ : address.toNat ≤ t.ranges[j].past) :
    Returns (t.lookup f miss address) value ↔
      Tells (fun region => f region.code) miss t.regions
        (bisect (sideOf t.regions address) 0 t.ranges.length) value := by
  have head := t.head_first_le first
  have most := t.past_le last
  have top := t.past_low low (i := t.ranges.length - 1) (by omega)
  rw [← List.getLast_eq_getElem t.nonempty] at top
  apply lookup_inside f miss t address value
  · omega
  · rw [Nat.mod_eq_of_lt top]
    omega

private theorem tells_position {i : Nat} (inside : i < t.ranges.length) (value : α) :
    Tells (fun region => f region.code) miss t.regions (.position i) value ↔
      value = f t.ranges[i].code := by
  constructor
  · rintro ⟨region, there, rfl⟩
    rw [t.regions_getElem? inside] at there
    obtain rfl := Option.some.inj there
    rfl
  · intro same
    exact ⟨t.ranges[i].region, t.regions_getElem? inside, same⟩

/-- An address of a range. -/
private theorem lookup_range (low : t.endsAtTop = false) (inj : Function.Injective f) {r : Range}
    (found : t.rangeOf address.toNat = some r) :
    Returns (t.lookup f miss address) (f r.code) ↔
      ∀ previous ∈ t.ranges, previous.past = address.toNat →
        previous.code = r.code ∨
          secondFirst t.ranges.length (t.below address.toNat) = true := by
  obtain ⟨inside, rfl, first, past⟩ := t.rangeOf_here _ found
  have here := side_here t address low inside first (Nat.le_of_lt past)
  -- the ranges behind the address send the search to the left
  have lefts : ∀ i, t.below address.toNat < i → i < t.ranges.length →
      sideOf t.regions address (0 + i) = .left := by
    intro i above within
    rw [Nat.zero_add]
    exact side_left t address within (t.lt_first _ above within)
  rw [lookup_low f miss t address low _ inside inside first (Nat.le_of_lt past)]
  by_cases touching : ∃ positive : 0 < t.below address.toNat,
      t.ranges[t.below address.toNat - 1].past = address.toNat
  · -- both ranges claim the address; the search takes the one it comes to first
    obtain ⟨positive, ends⟩ := touching
    have before : t.below address.toNat - 1 < t.ranges.length := by omega
    have ahead := t.ranges[t.below address.toNat - 1].first_past
    rw [bisect_two _ 0 t.ranges.length (t.below address.toNat) inside positive]
    · rw [Nat.zero_add]
      by_cases second : secondFirst t.ranges.length (t.below address.toNat) = true
      · rw [if_pos second, tells_position f miss t inside]
        exact iff_of_true rfl fun _ _ _ => .inr second
      · rw [if_neg second, tells_position f miss t before]
        constructor
        · intro same previous member ends'
          obtain ⟨_, _, rfl⟩ := t.previous _ member ends'
          exact .inl (inj same).symm
        · intro all
          rcases all _ (List.getElem_mem before) ends with same | second'
          · rw [same]
          · exact absurd second' second
    · intro i within
      rw [Nat.zero_add]
      exact side_right t address low (by omega) (t.below_past _ within (by omega))
    · rw [Nat.zero_add]
      exact side_here t address low before (by omega) (by omega)
    · rwa [Nat.zero_add]
    · exact lefts
  · have alone : ∀ i, i < t.below address.toNat →
        sideOf t.regions address (0 + i) = .right := by
      intro i within
      have inside' : i < t.ranges.length := by omega
      rw [Nat.zero_add]
      apply side_right t address low inside'
      have ends := (t.below_iff address.toNat inside').mp within
      rcases Nat.lt_or_eq_of_le ends with behind | touches
      · exact behind
      · obtain ⟨_, positive, same⟩ := t.previous _ (List.getElem_mem inside') touches
        exact absurd ⟨positive, by rw [same]; exact touches⟩ touching
    rw [bisect_one _ 0 t.ranges.length (t.below address.toNat) inside alone (by rwa [Nat.zero_add])
      lefts, Nat.zero_add, tells_position f miss t inside]
    refine iff_of_true rfl ?_
    intro previous member ends
    obtain ⟨_, positive, rfl⟩ := t.previous _ member ends
    exact absurd ⟨positive, ends⟩ touching

/-- An address of no range. -/
private theorem lookup_gap (low : t.endsAtTop = false) (other : ∀ code, f code ≠ miss)
    (gap : t.rangeOf address.toNat = none) :
    Returns (t.lookup f miss address) miss ↔
      (∀ previous ∈ t.ranges, previous.past ≠ address.toNat) ∧
        (t.below address.toNat = 0 ∨ t.below address.toNat = t.ranges.length ∨
          settles t.ranges.length (t.below address.toNat) = true) := by
  have most := t.below_le address.toNat
  have lefts : ∀ i, t.below address.toNat ≤ i → i < t.ranges.length →
      sideOf t.regions address (0 + i) = .left := by
    intro i from_ within
    rw [Nat.zero_add]
    apply side_left t address within
    rcases Nat.lt_or_eq_of_le from_ with behind | same
    · exact t.lt_first _ behind within
    · subst same
      exact t.rangeOf_gap _ gap within
  by_cases touching : ∃ previous ∈ t.ranges, previous.past = address.toNat
  · -- the range that ends right before the address claims it
    obtain ⟨previous, member, ends⟩ := touching
    obtain ⟨inside, positive, rfl⟩ := t.previous _ member ends
    have ahead := t.ranges[t.below address.toNat - 1].first_past
    refine iff_of_false ?_ fun missing => missing.1 _ member ends
    rw [lookup_low f miss t address low miss inside inside (by omega) (by omega),
      bisect_one _ 0 t.ranges.length (t.below address.toNat - 1) inside, Nat.zero_add,
      tells_position f miss t inside]
    · exact (other _).symm
    · intro i within
      rw [Nat.zero_add]
      exact side_right t address low (by omega) (t.below_past _ (by omega) (by omega))
    · rw [Nat.zero_add]
      exact side_here t address low inside (by omega) (by omega)
    · exact fun i above within => lefts i (by omega) within
  · have apart : ∀ previous ∈ t.ranges, previous.past ≠ address.toNat :=
      fun previous member ends => touching ⟨previous, member, ends⟩
    rw [and_iff_right apart]
    -- with no range ending at the address, those below it send the search to the right
    have rights : ∀ i (inside : i < t.ranges.length), i < t.below address.toNat →
        t.ranges[i].past < address.toNat := by
      intro i inside within
      have ends := (t.below_iff address.toNat inside).mp within
      have never := apart _ (List.getElem_mem inside)
      omega
    have positive := t.positive
    by_cases first : t.below address.toNat = 0
    · have before := t.rangeOf_gap _ gap (by omega)
      refine iff_of_true ((lookup_outside f miss t address miss ?_).mpr rfl) (.inl first)
      left
      rw [List.head_eq_getElem]
      simpa only [first] using before
    · by_cases last : t.below address.toNat = t.ranges.length
      · have behind := rights (t.ranges.length - 1) (by omega) (by omega)
        refine iff_of_true ((lookup_outside f miss t address miss ?_).mpr rfl) (.inr (.inl last))
        right
        rw [List.getLast_eq_getElem]
        have less := Nat.mod_le t.ranges[t.ranges.length - 1].past (0x100000000)
        omega
      · -- between two ranges
        have inside : t.below address.toNat < t.ranges.length := by omega
        have behind := rights 0 positive (by omega)
        have start := t.ranges[0].first_past
        have past := t.lt_past _ (Nat.le_refl _) inside
        rw [lookup_low f miss t address low miss positive inside (by omega) (by omega),
          bisect_gap _ 0 t.ranges.length (t.below address.toNat)]
        · rw [or_iff_right first, or_iff_right last]
          split
          next ends => exact iff_of_true rfl ends
          next endless => exact iff_of_false id endless
        · intro i within below
          rw [Nat.zero_add]
          exact side_right t address low below (rights i below within)
        · exact lefts

/-- A lookup answers right for the exact addresses and for no others. -/
private theorem lookup_exact (inj : Function.Injective f) (other : ∀ code, f code ≠ miss) :
    Returns (t.lookup f miss address) (t.answer f miss address.toNat) ↔
      t.Exact address.toNat := by
  cases top : t.endsAtTop with
  | true => exact lookup_top f miss t address top other
  | false =>
    rw [Table.Exact, top, if_neg nofun, Table.answer]
    cases found : t.rangeOf address.toNat with
    | none => exact lookup_gap f miss t address top other found
    | some r => exact lookup_range f miss t address top inj found

end Answers

/-! ### The two classes -/

section Classes

variable (t : Table) (address : UInt32)

private theorem countryCode_lookup (inetAddr : Bytes → UInt32) (ipaddr : Bytes)
    (names : ntohl (inetAddr ipaddr) = address) (public_ : isPrivate address = false)
    (fuel : Nat) :
    countryCodeForIPAddress inetAddr t.regions ipaddr fuel =
      t.lookup (fun code => some code.text) none address fuel := by
  have present : t.regions.length ≠ 0 := by
    have positive := t.positive
    rw [Table.regions, List.length_map]
    omega
  unfold countryCodeForIPAddress
  dsimp only
  simp only [text_string, names, public_, if_neg present]
  rfl

private theorem region_lookup (public_ : isPrivate address = false) (fuel : Nat) :
    regionForIPv4Address t.regions address fuel = t.lookup CountryCode.packed 0 address fuel := by
  unfold regionForIPv4Address
  rw [public_, if_neg nofun]
  rfl

/-- Both classes give the country of an address, and give none where there is none, exactly for the
addresses that the stored ends and the halving of the table leave alone. -/
theorem countries_iff_exact (public_ : isPrivate address = false) :
    (∀ (inetAddr : Bytes → UInt32) (ipaddr : Bytes), ntohl (inetAddr ipaddr) = address →
      (Returns (countryCodeForIPAddress inetAddr t.regions ipaddr)
        (t.answer (fun code => some code.text) none address.toNat) ↔ t.Exact address.toNat)) ∧
      (Returns (regionForIPv4Address t.regions address)
        (t.answer CountryCode.packed 0 address.toNat) ↔ t.Exact address.toNat) := by
  constructor
  · intro inetAddr ipaddr names
    have present : Function.Injective fun code : CountryCode => some code.text := by
      intro code code' same
      exact text_injective (Option.some.inj same)
    rw [funext (countryCode_lookup t address inetAddr ipaddr names public_)]
    exact lookup_exact _ none t address present fun _ => nofun
  · rw [funext (region_lookup t address public_)]
    exact lookup_exact _ 0 t address packed_injective packed_ne_zero

end Classes

/-- One range: 1.0.0.0 with 256 addresses. -/
def oneRange : Table where
  ranges := [
    { first := 0x01000000
      count := 256
      code := ⟨65, 85, by decide⟩
      positive := by decide
      fits := by decide }]
  nonempty := nofun
  apart := List.pairwise_singleton _ _

/-- `inet_addr` on the two addresses looked up below. -/
def twoAddresses (ipaddr : Bytes) : UInt32 :=
  if ipaddr = ascii "1.0.0.4" then 0x04000001
  else if ipaddr = ascii "1.0.1.0" then 0x00010001
  else 0xFFFFFFFF

theorem countries_iff_exact_inside :
    (Returns (countryCodeForIPAddress twoAddresses oneRange.regions (ascii "1.0.0.4"))
        (some (ascii "AU")) ↔ oneRange.Exact 0x01000004) ∧
      (Returns (regionForIPv4Address oneRange.regions 0x01000004) 0x4155 ↔
        oneRange.Exact 0x01000004) := by
  obtain ⟨text, packed⟩ := countries_iff_exact oneRange 0x01000004 (by decide)
  exact ⟨text twoAddresses (ascii "1.0.0.4") (by decide), packed⟩

/-- The address right behind the range is in the range's country. -/
theorem behind_taken :
    oneRange.rangeOf (ntohl (twoAddresses (ascii "1.0.1.0"))).toNat = none ∧
      isPrivate (ntohl (twoAddresses (ascii "1.0.1.0"))) = false ∧
      countryCodeForIPAddress twoAddresses oneRange.regions (ascii "1.0.1.0") 1 =
        .returned (some (ascii "AU")) ∧
      ¬ Returns (countryCodeForIPAddress twoAddresses oneRange.regions (ascii "1.0.1.0")) none ∧
      ¬ Returns (regionForIPv4Address oneRange.regions 0x01000100) 0 := by
  have code : ∀ fuel, countryCodeForIPAddress twoAddresses oneRange.regions (ascii "1.0.1.0")
      (fuel + 1) = .returned (some (ascii "AU")) := fun _ => rfl
  have packed : ∀ fuel, regionForIPv4Address oneRange.regions 0x01000100 (fuel + 1) =
      .returned 0x4155 := fun _ => rfl
  refine ⟨by decide, by decide, code 0, ?_, ?_⟩
  · rintro ⟨fuel, returned⟩
    cases fuel with
    | zero => exact absurd returned (by decide)
    | succ fuel =>
      rw [code] at returned
      exact absurd returned (by decide)
  · rintro ⟨fuel, returned⟩
    cases fuel with
    | zero => exact absurd returned (by decide)
    | succ fuel =>
      rw [packed] at returned
      exact absurd returned (by decide)

end Spamass.Geo
