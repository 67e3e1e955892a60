import Spamass.App.Text
import Spamass.Bisect

/-!
# Regions of the address space

The range table of `SMGeocoder` and `Regionizer`, and the search both make in it. The
files give a first address and a count; the table stores two addresses, and the
search takes both for addresses of the range. Positions are signed, and a search
that is still under way when its fuel is used up is `running`.
-/
namespace Spamass.Geo

open Spamass.App Spamass.Emailz Spamass.Bisect

/-- The code of a country: two ASCII characters. -/
structure CountryCode where
  first : UInt8
  second : UInt8
  ascii : (first < 0x80 ∧ first ≠ 0) ∧ (second < 0x80 ∧ second ≠ 0)
  deriving DecidableEq, Repr

/-- `struct geocoder_region` and `struct riralloc`. -/
structure Region where
  addrbeg : UInt32
  addrend : UInt32
  code : CountryCode
  deriving DecidableEq, Repr

/-- A line of a delegated file, as `reloadRegions` and `loadIPAddressAllocations` store it. -/
def Region.build (addr : UInt32) (size : Nat) (code : CountryCode) : Region where
  addrbeg := addr
  addrend := addr + UInt32.ofNat size
  code := code

inductive Outcome (α : Type) where
  | returned (value : α)
  -- an access outside the table
  | fault
  | running
  deriving DecidableEq, Repr

def regionAt (regions : List Region) (i : Int) : Option Region :=
  if 0 ≤ i then regions[i.toNat]? else none

section Search

variable {α : Type} (hit : Region → α) (miss : α) (regions : List Region) (address : UInt32)

/-- The `while (1)` loop of both lookups. -/
def rangeSearch : Nat → Int → Int → Outcome α
  | 0, _, _ => .running
  | fuel + 1, lower, upper =>
    if lower = upper then
      match regionAt regions lower with
      | none => .fault
      | some region =>
        if region.addrbeg ≤ address ∧ address ≤ region.addrend then .returned (hit region)
        else .returned miss
    else
      let middle := lower + (upper - lower).tdiv 2
      match regionAt regions middle with
      | none => .fault
      | some region =>
        if address < region.addrbeg then rangeSearch fuel lower (middle - 1)
        else if region.addrend < address then rangeSearch fuel (middle + 1) upper
        else .returned (hit region)

/-- The two checks against the ends of the table, and the loop. -/
def rangeLookup (fuel : Nat) : Outcome α :=
  match regionAt regions 0, regionAt regions (regions.length - 1) with
  | some first, some last =>
    if address < first.addrbeg then .returned miss
    else if last.addrend < address then .returned miss
    else rangeSearch hit miss regions address fuel 0 (regions.length - 1)
  | _, _ => .fault

end Search

/-- Addresses that are not looked up: 127.0.0.0/8 and 10.0.0.0/8. -/
def isPrivate (address : UInt32) : Bool := address >>> 24 == 0x7F || address >>> 24 == 0x0A

def ntohl (x : UInt32) : UInt32 :=
  (x <<< 24) ||| ((x <<< 8) &&& (0xFF0000 : UInt32)) ||| ((x >>> 8) &&& (0xFF00 : UInt32)) |||
    (x >>> 24)

def CountryCode.text (code : CountryCode) : Bytes := [code.first, code.second]

def CountryCode.packed (code : CountryCode) : UInt16 :=
  (code.first.toUInt16 <<< 8) ||| code.second.toUInt16

/-- `countryCodeForIPAddress:`; `inetAddr` is `inet_addr` of the C library. -/
def countryCodeForIPAddress (inetAddr : Bytes → UInt32) (regions : List Region) (ipaddr : Bytes)
    (fuel : Nat) : Outcome (Option Bytes) :=
  let address := ntohl (inetAddr ipaddr)
  if isPrivate address then .returned (some (ascii "PN"))
  else if regions.length = 0 then .returned none
  else rangeLookup (fun region => stringWithUtf8 region.code.text) none regions address fuel

/-- `regionForIPv4Address:`. -/
def regionForIPv4Address (regions : List Region) (address : UInt32) (fuel : Nat) : Outcome UInt16 :=
  if isPrivate address then .returned (((80 : UInt16) <<< 8) ||| 78)
  else rangeLookup (fun region => region.code.packed) 0 regions address fuel

/-! ### Codes -/

/-- Two ASCII characters are a string. -/
theorem text_string (code : CountryCode) : stringWithUtf8 code.text = some code.text := by
  have first := code.ascii.1.1
  have second := code.ascii.2.1
  simp [stringWithUtf8, utf8Valid, CountryCode.text, utf8From, first, second]

theorem text_injective : Function.Injective CountryCode.text := by
  intro code code' same
  cases code
  cases code'
  simpa [CountryCode.text] using same

private theorem packed_second (code : CountryCode) : code.packed.toUInt8 = code.second := by
  apply UInt8.eq_of_toBitVec_eq
  ext i inside
  simp [CountryCode.packed]

private theorem packed_first (code : CountryCode) : (code.packed >>> 8).toUInt8 = code.first := by
  apply UInt8.eq_of_toBitVec_eq
  ext i inside
  have within : i < 16 := by omega
  have within' : 8 + i < 16 := by omega
  simp [CountryCode.packed, within, within', BitVec.getLsbD_eq_getElem inside]

theorem packed_injective : Function.Injective CountryCode.packed := by
  intro code code' same
  have first := packed_first code
  have second := packed_second code
  rw [same, packed_first] at first
  rw [same, packed_second] at second
  cases code
  cases code'
  simp_all

theorem packed_ne_zero (code : CountryCode) : code.packed ≠ 0 := by
  intro zero
  have second := packed_second code
  rw [zero] at second
  exact code.ascii.2.2 second.symm

/-! ### The loop is a bisection -/

/-- Where the loop goes on from a region. -/
def sideOf (regions : List Region) (address : UInt32) (i : Nat) : Side :=
  match regions[i]? with
  | none => .here
  | some region =>
    if address < region.addrbeg then .left
    else if region.addrend < address then .right
    else .here

/-- A lookup returns the value, given time. -/
def Returns {α : Type} (lookup : Nat → Outcome α) (value : α) : Prop :=
  ∃ fuel, lookup fuel = .returned value

section Loop

variable {α : Type} (hit : Region → α) (miss : α) (regions : List Region) (address : UInt32)

/-- What more fuel does not change. -/
private theorem rangeSearch_more (fuel more : Nat) (lower upper : Int) (value : α)
    (returned : rangeSearch hit miss regions address fuel lower upper = .returned value) :
    rangeSearch hit miss regions address (fuel + more) lower upper = .returned value := by
  -- on the fuel: both runs make the same pass and go on with the same bounds
  induction fuel generalizing lower upper with
  | zero => cases returned
  | succ fuel ih =>
    rw [Nat.add_right_comm]
    unfold rangeSearch at returned ⊢
    split
    next same =>
      rw [if_pos same] at returned
      exact returned
    next apart =>
      rw [if_neg apart] at returned
      dsimp only at returned ⊢
      split
      next outside =>
        rw [outside] at returned
        cases returned
      next region there =>
        rw [there] at returned
        dsimp only at returned
        split
        next before =>
          rw [if_pos before] at returned
          exact ih _ _ returned
        next from_ =>
          rw [if_neg from_] at returned
          split
          next behind =>
            rw [if_pos behind] at returned
            exact ih _ _ returned
          next within =>
            rw [if_neg within] at returned
            exact returned

private theorem returns_unique {fuel fuel' : Nat} {lower upper : Int} {value value' : α}
    (returned : rangeSearch hit miss regions address fuel lower upper = .returned value)
    (returned' : rangeSearch hit miss regions address fuel' lower upper = .returned value') :
    value = value' := by
  -- both runs agree on the sum of their fuels
  have one := rangeSearch_more hit miss regions address fuel fuel' lower upper value returned
  have two := rangeSearch_more hit miss regions address fuel' fuel lower upper value' returned'
  rw [Nat.add_comm, two] at one
  cases one
  rfl

theorem regionAt_nat (i : Nat) : regionAt regions i = regions[i]? := by
  simp [regionAt]

/-- Upper bound left of the lower one: the same region is probed again and again. -/
private theorem rangeSearch_stuck (fuel lower : Nat) (inside : lower < regions.length)
    (left : sideOf regions address lower = .left) :
    rangeSearch hit miss regions address fuel lower (lower - 1) = .running := by
  induction fuel with
  | zero => rfl
  | succ fuel ih =>
    have middle : (lower : Int) + ((lower - 1 : Int) - lower).tdiv 2 = lower := by
      have negative : (lower - 1 : Int) - lower = -1 := by omega
      rw [negative]
      simp
    have before : address < regions[lower].addrbeg := by
      by_contra from_
      rw [sideOf, List.getElem?_eq_getElem inside] at left
      dsimp only at left
      rw [if_neg from_] at left
      split at left <;> cases left
    unfold rangeSearch
    rw [if_neg (by omega)]
    dsimp only
    rw [middle, regionAt_nat, List.getElem?_eq_getElem inside]
    dsimp only
    rw [if_pos before]
    exact ih

/-- The loop from these bounds does what a bisection found. -/
def AgreesWith (found : Found) (lower upper : Int) : Prop :=
  match found with
  | .position i => ∃ region, regions[i]? = some region ∧
    Returns (fun fuel => rangeSearch hit miss regions address fuel lower upper) (hit region)
  | .absent => Returns (fun fuel => rangeSearch hit miss regions address fuel lower upper) miss
  | .endless => ∀ fuel, rangeSearch hit miss regions address fuel lower upper = .running

/-- A pass of the loop that narrows the bounds. -/
theorem follows_step (found : Found) (lower upper lower' upper' : Int)
    (narrows : ∀ fuel, rangeSearch hit miss regions address (fuel + 1) lower upper =
      rangeSearch hit miss regions address fuel lower' upper')
    (follows : AgreesWith hit miss regions address found lower' upper') :
    AgreesWith hit miss regions address found lower upper := by
  cases found with
  | position i =>
    obtain ⟨region, there, fuel, returned⟩ := follows
    exact ⟨region, there, fuel + 1, (narrows fuel).trans returned⟩
  | absent =>
    obtain ⟨fuel, returned⟩ := follows
    exact ⟨fuel + 1, (narrows fuel).trans returned⟩
  | endless =>
    intro fuel
    cases fuel with
    | zero => rfl
    | succ fuel => exact (narrows fuel).trans (follows fuel)

theorem sideOf_some {i : Nat} (inside : i < regions.length) :
    sideOf regions address i =
      if address < regions[i].addrbeg then .left
      else if regions[i].addrend < address then .right else .here := by
  rw [sideOf, List.getElem?_eq_getElem inside]

/-- The loop over a window of the table is the bisection of the window. -/
theorem rangeSearch_bisect (size lower : Nat) (positive : 0 < size)
    (inside : lower + size ≤ regions.length) :
    AgreesWith hit miss regions address (bisect (sideOf regions address) lower size) lower
      (lower + size - 1) := by
  induction size using Nat.strongRecOn generalizing lower with
  | _ size ih =>
    by_cases one : size = 1
    · -- the bounds meet
      have meet : (lower : Int) + size - 1 = lower := by omega
      have within : lower < regions.length := by omega
      have side := sideOf_some regions address within
      have pass : rangeSearch hit miss regions address 1 lower lower =
          if regions[lower].addrbeg ≤ address ∧ address ≤ regions[lower].addrend then
            .returned (hit regions[lower])
          else .returned miss := by
        rw [rangeSearch, if_pos rfl, regionAt_nat, List.getElem?_eq_getElem within]
      rw [bisect, if_neg (by omega), if_pos one, meet]
      by_cases within_ : regions[lower].addrbeg ≤ address ∧ address ≤ regions[lower].addrend
      · have here : sideOf regions address lower = .here := by
          rw [side, if_neg (UInt32.not_lt.mpr within_.1), if_neg (UInt32.not_lt.mpr within_.2)]
        rw [if_pos within_] at pass
        rw [if_pos here]
        exact ⟨regions[lower], List.getElem?_eq_getElem within, 1, pass⟩
      · have other : sideOf regions address lower ≠ .here := by
          intro here
          rw [side] at here
          split at here
          · cases here
          next from_ =>
            split at here
            · cases here
            next to_ => exact within_ ⟨UInt32.not_lt.mp from_, UInt32.not_lt.mp to_⟩
        rw [if_neg within_] at pass
        rw [if_neg other]
        exact ⟨1, pass⟩
    · have middle : (lower : Int) + ((lower + size - 1 : Int) - lower).tdiv 2 =
          (lower + (size - 1) / 2 : Nat) := by
        rw [Int.tdiv_eq_ediv_of_nonneg (by omega)]
        omega
      have within : lower + (size - 1) / 2 < regions.length := by omega
      have side := sideOf_some regions address within
      have pass : ∀ fuel, rangeSearch hit miss regions address (fuel + 1) lower (lower + size - 1) =
          if address < regions[lower + (size - 1) / 2].addrbeg then
            rangeSearch hit miss regions address fuel lower ((lower + (size - 1) / 2 : Nat) - 1)
          else if regions[lower + (size - 1) / 2].addrend < address then
            rangeSearch hit miss regions address fuel ((lower + (size - 1) / 2 : Nat) + 1)
              (lower + size - 1)
          else .returned (hit regions[lower + (size - 1) / 2]) := by
        intro fuel
        rw [rangeSearch, if_neg (by omega)]
        dsimp only
        rw [middle, regionAt_nat, List.getElem?_eq_getElem within]
      by_cases before : address < regions[lower + (size - 1) / 2].addrbeg
      · -- on to the left of the middle, or round in a circle when nothing is there
        rw [if_pos before] at side
        simp only [if_pos before] at pass
        rw [bisect_left _ lower size (by omega) side]
        apply follows_step hit miss regions address _ _ _ _ _ pass
        by_cases empty : (size - 1) / 2 = 0
        · rw [empty, Nat.add_zero] at side ⊢
          rw [bisect, if_pos rfl]
          exact fun fuel => rangeSearch_stuck hit miss regions address fuel lower (by omega) side
        · exact ih ((size - 1) / 2) (by omega) lower (by omega) (by omega)
      · by_cases behind : regions[lower + (size - 1) / 2].addrend < address
        · rw [if_neg before, if_pos behind] at side
          simp only [if_neg before, if_pos behind] at pass
          rw [bisect_right _ lower size (by omega) side]
          apply follows_step hit miss regions address _ _ _ _ _ pass
          have upper : (lower : Int) + size - 1 =
              (lower + (size - 1) / 2 + 1 : Nat) + (size / 2 : Nat) - 1 := by omega
          rw [upper]
          exact ih (size / 2) (by omega) (lower + (size - 1) / 2 + 1) (by omega) (by omega)
        · rw [if_neg before, if_neg behind] at side
          simp only [if_neg before, if_neg behind] at pass
          rw [bisect_here _ lower size (by omega) side]
          exact ⟨_, List.getElem?_eq_getElem within, 1, pass 0⟩

/-- The value that goes with what a bisection found. -/
def Tells (found : Found) (value : α) : Prop :=
  match found with
  | .position i => ∃ region, regions[i]? = some region ∧ value = hit region
  | .absent => value = miss
  | .endless => False

/-- What the loop returns, by what the bisection found. -/
theorem follows_returns (found : Found) (lower upper : Int) (value : α)
    (follows : AgreesWith hit miss regions address found lower upper) :
    Returns (fun fuel => rangeSearch hit miss regions address fuel lower upper) value ↔
      Tells hit miss regions found value := by
  -- the search returns one value at most
  cases found with
  | position i =>
    obtain ⟨region, there, fuel, returned⟩ := follows
    constructor
    · rintro ⟨fuel', returned'⟩
      exact ⟨region, there, returns_unique hit miss regions address returned' returned⟩
    · rintro ⟨region', there', rfl⟩
      rw [there] at there'
      obtain rfl := Option.some.inj there'
      exact ⟨fuel, returned⟩
  | absent =>
    obtain ⟨fuel, returned⟩ := follows
    constructor
    · rintro ⟨fuel', returned'⟩
      exact returns_unique hit miss regions address returned' returned
    · intro same
      rw [same]
      exact ⟨fuel, returned⟩
  | endless =>
    refine iff_of_false ?_ id
    rintro ⟨fuel, returned⟩
    dsimp only at returned
    rw [follows fuel] at returned
    cases returned

end Loop

end Spamass.Geo
