import Spamass.App.RecordName
import Spamass.Geo.Regions

/-!
# The region table

`SMGeocoder` parses five files of allocations into a database, keyed by the first address
of a range, and loads its table from there at every start. The iterator stands on the
first entry when it is made, and both loops step forward before they read.
-/
namespace Spamass.Geo

open Spamass.App Spamass.Emailz Spamass.FixedWidth Spamass.SortedStore

/-- `struct geocoder_region`; the type is the same for all. -/
structure GeocoderRegion where
  addrbeg : UInt32
  addrend : UInt32
  code : UInt8 × UInt8
  deriving DecidableEq, Repr

abbrev RegionDb := Store Bytes GeocoderRegion

/-! ### Files -/

/-- `newlineCharacterSet`. -/
def newlineSet : List Bytes :=
  [[0x0A], [0x0B], [0x0C], [0x0D], [0xC2, 0x85], [0xE2, 0x80, 0xA8], [0xE2, 0x80, 0xA9]]

/-- `componentsSeparatedByCharactersInSet:`. -/
def componentsInCharacters (set : List Bytes) (string : Bytes) : List Bytes :=
  ((characters string).splitOnP set.contains).map List.flatten

def bar : UInt8 := 124

/-- Code, type, address and size of a line of seven fields, separated by "|". -/
def lineFields (line : Bytes) : Option (Bytes × Bytes × Bytes × Bytes) :=
  match componentsInSet (· == bar) line with
  | [_, code, type, addr, size, _, _] => some (code, type, addr, size)
  | _ => none

/-- The lines of a file, which may be missing or no text. -/
def fileLines (file : Option Bytes) : List Bytes :=
  match file.bind stringWithUtf8 with
  | none => []
  | some fileData => componentsInCharacters newlineSet fileData

/-- A line `parseFile` adds to the list. -/
def isAlloc (line : Bytes) : Bool :=
  match lineFields line with
  | some (_, type, _, _) => type == ascii "ipv4"
  | none => false

def parseFile (file : Option Bytes) : List Bytes := (fileLines file).filter isAlloc

def delegatedFiles : List Bytes :=
  [ascii "other/delegated-afrinic-latest", ascii "other/delegated-apnic-latest",
    ascii "other/delegated-arin-latest", ascii "other/delegated-lacnic-latest",
    ascii "other/delegated-ripencc-latest"]

/-- The list of `reloadRegions`; `files` is what the bundle holds. -/
def allocs (files : Bytes → Option Bytes) : List Bytes :=
  delegatedFiles.flatMap fun file => parseFile (files file)

/-- The format `%03ld`. -/
def padded3 (n : Int) : Bytes :=
  let text := decimal n.natAbs
  if n < 0 then 45 :: (List.replicate (2 - text.length) 48 ++ text)
  else List.replicate (3 - text.length) 48 ++ text

section Reload

variable (inetAddr : Bytes → UInt32)

/-- The record of an allocation; `inetAddr` is `inet_addr` of the C library. -/
def regionOf (code addr size : Bytes) : GeocoderRegion where
  addrbeg := ntohl (inetAddr addr)
  addrend := ntohl (inetAddr addr) + UInt32.ofInt (integerValue size)
  code := (code.getD 0 0, code.getD 1 0)

/-- What the block of `reloadRegions` stores for a line, if it stores something; `none` is an
exception. -/
def allocation (line : Bytes) : Option (List (Bytes × GeocoderRegion)) :=
  match lineFields line with
  | none => some []
  | some (code, type, addr, size) =>
    if type ≠ ascii "ipv4" then some []
    else if utf16Length code ≠ 2 then some []
    else
      match componentsInSet (· == dot) addr with
      | a :: b :: c :: d :: _ =>
        let key := padded3 (integerValue a) ++ [dot] ++ padded3 (integerValue b) ++ [dot] ++
          padded3 (integerValue c) ++ [dot] ++ padded3 (integerValue d)
        some [(key, regionOf inetAddr code addr size)]
      | _ => none

/-- The writes of all lines, in their order. -/
def allocationWrites : List Bytes → Option (List (Bytes × GeocoderRegion))
  | [] => some []
  | line :: lines => do
    let first ← allocation inetAddr line
    let later ← allocationWrites lines
    some (first ++ later)

/-- `reloadRegions`: the database, and the count of lines. -/
def reloadRegions (files : Bytes → Option Bytes) (regionDb : RegionDb) : Option (RegionDb × Nat) :=
  (allocationWrites inetAddr (allocs files)).map fun writes => (regionDb.puts writes, writes.length)

end Reload

/-! ### The table -/

/-- The first loop: the keys `nextKey` returns, from an iterator that stands on the first of the
entries. An empty database has no iterator. -/
def countKeys : List (Bytes × GeocoderRegion) → Nat
  | [] => 0
  | _ :: left =>
    match left with
    | [] => 0
    | _ :: _ => countKeys left + 1

/-- The second loop, with its count, and what it copies; `none` is a key without data. -/
def loadKeys (regionDb : RegionDb) (capacity : Nat) :
    Nat → List (Bytes × GeocoderRegion) → Option (List GeocoderRegion × Nat)
  | regionCount, [] => some ([], regionCount)
  | regionCount, _ :: left =>
    match left with
    | [] => some ([], regionCount)
    | e :: _ =>
      if regionCount < capacity then do
        let region ← regionDb.get e.1
        let (later, final) ← loadKeys regionDb capacity (regionCount + 1) left
        some (region :: later, final)
      else some ([], regionCount + 1)

structure Geocoder where
  -- the array, as it was allocated
  regions : List GeocoderRegion
  regionCount : Nat
  deriving DecidableEq, Repr

def emptyRegion : GeocoderRegion := ⟨0, 0, (0, 0)⟩

/-- `initWithCacheDb:regionDb:`, as far as the table goes, and the database it leaves. -/
def initWithCacheDb (inetAddr : Bytes → UInt32) (files : Bytes → Option Bytes) (regionDb : RegionDb) :
    Option (RegionDb × Geocoder) := do
  let count := countKeys regionDb.entries
  let (regionDb, capacity) ←
    (if count = 0 then reloadRegions inetAddr files regionDb else some (regionDb, count))
  let (loaded, regionCount) ← loadKeys regionDb capacity 0 regionDb.entries
  some (regionDb, ⟨loaded ++ List.replicate (capacity - loaded.length) emptyRegion, regionCount⟩)

/-- The database after a number of starts, the first of them with an empty one. -/
def startedDb (inetAddr : Bytes → UInt32) (files : Bytes → Option Bytes) : Nat → Option RegionDb
  | 0 => some Store.empty
  | starts + 1 => do
    let regionDb ← startedDb inetAddr files starts
    let (regionDb, _) ← initWithCacheDb inetAddr files regionDb
    some regionDb

/-- The entries `_regions[0 .. _regionCount)`. -/
def Geocoder.table (g : Geocoder) : List GeocoderRegion := g.regions.take g.regionCount

/-! ### What the table should be -/

def delegatedLines (files : Bytes → Option Bytes) : List Bytes :=
  delegatedFiles.flatMap fun file => fileLines (files file)

/-- Code, address and size of a line that is accepted: seven fields, IPv4 and a code of two
letters. -/
def acceptedFields (line : Bytes) : Option (Bytes × Bytes × Bytes) :=
  match lineFields line with
  | some (code, type, addr, size) =>
    if type = ascii "ipv4" ∧ utf16Length code = 2 then some (code, addr, size) else none
  | none => none

/-- The records of the accepted lines, in the order of the lines. -/
def accepted (inetAddr : Bytes → UInt32) (files : Bytes → Option Bytes) : List GeocoderRegion :=
  ((delegatedLines files).filterMap acceptedFields).map fun (code, addr, size) =>
    regionOf inetAddr code addr size

def dotted (a b c d : Nat) : Bytes :=
  decimal a ++ dot :: (decimal b ++ dot :: (decimal c ++ dot :: decimal d))

/-- Four decimal numbers below 256, without zeros in front. -/
def CanonicalQuad (addr : Bytes) : Prop :=
  ∃ a b c d, (a < 256 ∧ b < 256 ∧ c < 256 ∧ d < 256) ∧ addr = dotted a b c d

/-- The addresses of the accepted lines are canonical. -/
def Canonical (files : Bytes → Option Bytes) : Prop :=
  ∀ line ∈ delegatedLines files, ∀ code addr size, acceptedFields line = some (code, addr, size) →
    CanonicalQuad addr

/-- What `inet_addr` does with a canonical address: the number, in network order. -/
def ReadsQuads (inetAddr : Bytes → UInt32) : Prop :=
  ∀ a b c d, a < 256 ∧ b < 256 ∧ c < 256 ∧ d < 256 →
    (ntohl (inetAddr (dotted a b c d))).toNat = ((a * 256 + b) * 256 + c) * 256 + d

/-- A record that is accepted, and whose first address is not accepted again. -/
def LastAccepted (records : List GeocoderRegion) (r : GeocoderRegion) : Prop :=
  ∃ before after, records = before ++ r :: after ∧ ∀ later ∈ after, later.addrbeg ≠ r.addrbeg

/-- The table holds the last record of each first address, ascending, and nothing else. -/
structure TableComplete (records : List GeocoderRegion) (g : Geocoder) : Prop where
  inside : g.regionCount ≤ g.regions.length
  ascending : g.table.Pairwise fun r r' => r.addrbeg < r'.addrbeg
  exact_ : ∀ r, r ∈ g.table ↔ LastAccepted records r

/-! ### Keys -/

def quadLayout : List (Nat × Bytes) := [(3, [dot]), (3, [dot]), (3, [dot]), (3, [])]

/-- The key of a first address. -/
def keyOf (addr : UInt32) : Bytes := fixedWords 10 digitByte quadLayout (octets addr)

/-- The entry of a record. -/
def keyed (r : GeocoderRegion) : Bytes × GeocoderRegion := (keyOf r.addrbeg, r)

private theorem octets_fitting (addr : UInt32) : Fitting 10 quadLayout (octets addr) := by
  have small : ∀ n ∈ octets addr, n < 10 ^ 3 := by
    intro n member
    obtain ⟨d, digit, rfl⟩ := mem_fixedWidth 256 id (by decide) member
    exact digit.trans (by decide)
  rw [octets_eq] at small ⊢
  simp only [List.forall_mem_cons] at small
  obtain ⟨first, second, third, fourth, -⟩ := small
  exact .cons first (.cons second (.cons third (.cons fourth .nil)))

private theorem keyOf_lt {addr addr' : UInt32} (less : addr.toNat < addr'.toNat) :
    keyOf addr < keyOf addr' :=
  fixedWords_lt 10 digitByte digitByte_ascending (octets_fitting addr) (octets_fitting addr')
    (octets_lt less)

theorem keyOf_inj {addr addr' : UInt32} (same : keyOf addr = keyOf addr') : addr = addr' := by
  by_contra apart
  exact ne_of_rank UInt32.toNat (p := fun _ => True) (fun _ _ _ _ => keyOf_lt) trivial trivial
    (fun equal => apart (UInt32.toNat_inj.mp equal)) same

/-- Keys are in the order of the addresses. -/
private theorem keyOf_lt_iff (addr addr' : UInt32) : keyOf addr < keyOf addr' ↔ addr < addr' :=
  lt_iff_of_rank UInt32.toNat (p := fun _ => True)
    (fun _ _ same => congrArg keyOf (UInt32.toNat_inj.mp same)) (fun _ _ _ _ => keyOf_lt)
    trivial trivial

private theorem padded3_digits {n : Nat} (small : n < 256) :
    padded3 (integerValue (decimal n)) = digits 3 n := by
  rw [integerValue_decimal n (by omega), padded3, if_neg (by omega), Int.natAbs_natCast]
  exact decimal_digits 3 n (by omega) (by omega)

theorem octets_quad {a b c d : Nat} (small : a < 256 ∧ b < 256 ∧ c < 256 ∧ d < 256) {addr : UInt32}
    (number : addr.toNat = ((a * 256 + b) * 256 + c) * 256 + d) : octets addr = [a, b, c, d] := by
  have first : addr.toNat / 256 / 256 / 256 % 256 = a := by omega
  have second : addr.toNat / 256 / 256 % 256 = b := by omega
  have third : addr.toNat / 256 % 256 = c := by omega
  have fourth : addr.toNat % 256 = d := by omega
  simp only [octets, fixedWidth, first, second, third, fourth, id, List.nil_append, List.cons_append]

private theorem dotted_parts (a b c d : Nat) :
    componentsInSet (· == dot) (dotted a b c d) = [decimal a, decimal b, decimal c, decimal d] := by
  have apart : ∀ n, ∀ x ∈ decimal n, (x == dot) = false := by
    intro n x member
    have digit := isDigit_decimal n x member
    by_contra marks
    have same : x = dot := by simpa using marks
    rw [same] at digit
    cases digit
  rw [dotted, components_cons dot _ (apart a) rfl, components_cons dot _ (apart b) rfl,
    components_cons dot _ (apart c) rfl, components_one (apart d)]

/-! ### What is written -/

section Writes

variable {inetAddr : Bytes → UInt32} (reads : ReadsQuads inetAddr)

include reads in
/-- The key of a line is the key of its first address. -/
private theorem key_canonical {addr : Bytes} (canonical : CanonicalQuad addr) (code size : Bytes) :
    ∃ a b c d, componentsInSet (· == dot) addr = [a, b, c, d] ∧
      padded3 (integerValue a) ++ [dot] ++ padded3 (integerValue b) ++ [dot] ++
        padded3 (integerValue c) ++ [dot] ++ padded3 (integerValue d) =
          keyOf (regionOf inetAddr code addr size).addrbeg := by
  obtain ⟨a, b, c, d, small, rfl⟩ := canonical
  refine ⟨_, _, _, _, dotted_parts a b c d, ?_⟩
  have address : octets (regionOf inetAddr code (dotted a b c d) size).addrbeg = [a, b, c, d] :=
    octets_quad small (reads a b c d small)
  rw [padded3_digits small.1, padded3_digits small.2.1, padded3_digits small.2.2.1,
    padded3_digits small.2.2.2, keyOf, address]
  simp [quadLayout, fixedWords, digits]

include reads in
private theorem allocation_some {line : Bytes} (canonical : ∀ code addr size,
    acceptedFields line = some (code, addr, size) → CanonicalQuad addr) (alloc : isAlloc line = true) :
    allocation inetAddr line = some ((acceptedFields line).toList.map fun (code, addr, size) =>
      keyed (regionOf inetAddr code addr size)) := by
  unfold isAlloc at alloc
  unfold allocation acceptedFields at *
  cases parts : lineFields line with
  | none =>
    rw [parts] at alloc
    cases alloc
  | some found =>
    obtain ⟨code, type, addr, size⟩ := found
    rw [parts] at alloc canonical
    have ipv4 : type = ascii "ipv4" := beq_iff_eq.mp alloc
    dsimp only at canonical ⊢
    rw [if_neg (not_not_intro ipv4)]
    -- the list has only lines of the type; the code decides
    by_cases letters : utf16Length code = 2
    · rw [if_pos ⟨ipv4, letters⟩] at canonical
      obtain ⟨a, b, c, d, quad, key⟩ := key_canonical reads (canonical code addr size rfl) code size
      rw [if_neg (not_not_intro letters), if_pos ⟨ipv4, letters⟩, quad]
      dsimp only
      rw [key]
      rfl
    · rw [if_pos letters, if_neg fun both => letters both.2]
      rfl

theorem not_alloc {line : Bytes} (other : isAlloc line = false) : acceptedFields line = none := by
  unfold isAlloc at other
  unfold acceptedFields
  cases parts : lineFields line with
  | none => rfl
  | some found =>
    rw [parts] at other
    have not_ := beq_eq_false_iff_ne.mp other
    exact if_neg fun both => not_ both.1

include reads in
private theorem writes_filter (lines : List Bytes) (canonical : ∀ line ∈ lines, ∀ code addr size,
    acceptedFields line = some (code, addr, size) → CanonicalQuad addr) :
    allocationWrites inetAddr (lines.filter isAlloc) =
      some ((lines.filterMap acceptedFields).map fun (code, addr, size) =>
        keyed (regionOf inetAddr code addr size)) := by
  induction lines with
  | nil => rfl
  | cons line lines ih =>
    have here := canonical line (List.mem_cons_self ..)
    have later := ih fun later member => canonical later (List.mem_cons_of_mem _ member)
    cases alloc : isAlloc line with
    | true =>
      rw [List.filter_cons_of_pos alloc, allocationWrites, allocation_some reads here alloc, later,
        List.filterMap_cons]
      cases acceptedFields line <;> rfl
    | false =>
      rw [List.filter_cons_of_neg (by simp [alloc]), later, List.filterMap_cons, not_alloc alloc]

include reads in
/-- The accepted lines are written, each under the key of its first address. -/
private theorem writes_accepted {files : Bytes → Option Bytes} (canonical : Canonical files) :
    allocationWrites inetAddr (allocs files) = some ((accepted inetAddr files).map keyed) := by
  have lines : allocs files = (delegatedLines files).filter isAlloc := by
    unfold allocs delegatedLines parseFile
    rw [List.filter_flatMap]
  rw [lines, writes_filter reads _ canonical, accepted, List.map_map]
  rfl

end Writes

/-! ### Loading -/

private theorem countKeys_eq (entries : List (Bytes × GeocoderRegion)) :
    countKeys entries = entries.length - 1 := by
  induction entries with
  | nil => rfl
  | cons first left ih =>
    cases left with
    | nil => rfl
    | cons e rest =>
      rw [countKeys, ih]
      simp

/-- All but the first entry are loaded, if there is room for them. -/
theorem loadKeys_eq (regionDb : RegionDb) (capacity : Nat) (entries : List (Bytes × GeocoderRegion))
    (known : ∀ e ∈ entries, e ∈ regionDb.entries) (regionCount : Nat)
    (room : regionCount + (entries.length - 1) ≤ capacity) :
    loadKeys regionDb capacity regionCount entries =
      some (entries.tail.map Prod.snd, regionCount + (entries.length - 1)) := by
  induction entries generalizing regionCount with
  | nil => rfl
  | cons first left ih =>
    cases left with
    | nil => rfl
    | cons e rest =>
      rw [List.length_cons, List.length_cons, Nat.add_sub_cancel] at room
      have later := ih (fun e' member => known e' (List.mem_cons_of_mem _ member)) (regionCount + 1) (by
        rw [List.length_cons, Nat.add_sub_cancel]
        omega)
      have data := regionDb.get_of_mem (known e (by simp))
      rw [loadKeys]
      dsimp only
      rw [if_pos (by omega), data, later]
      simp
      omega

/-- The database holds what was accepted. -/
def Filled (records : List GeocoderRegion) (regionDb : RegionDb) : Prop :=
  ∀ e, e ∈ regionDb.entries ↔ LastWrite (records.map keyed) e

/-- There are no more entries than writes. -/
private theorem filled_length {records : List GeocoderRegion} {regionDb : RegionDb}
    (filled : Filled records regionDb) : regionDb.entries.length ≤ records.length := by
  have distinct : regionDb.entries.Nodup := by
    apply regionDb.sorted.imp
    rintro e _ below rfl
    exact lt_irrefl _ below
  have among : regionDb.entries ⊆ records.map keyed := fun e member => ((filled e).mp member).mem
  have length := (distinct.subperm among).length_le
  rwa [List.length_map] at length

private theorem lastWrite_keyed (records : List GeocoderRegion) (e : Bytes × GeocoderRegion) :
    LastWrite (records.map keyed) e ↔ ∃ r, e = keyed r ∧ LastAccepted records r := by
  constructor
  · rintro ⟨before, after, split_, last⟩
    -- the split of the writes is the image of one of the records
    obtain ⟨front, back, rfl, rfl, here⟩ := List.map_eq_append_iff.mp split_
    obtain ⟨r, rest, rfl, rfl, rfl⟩ := List.map_eq_cons_iff.mp here
    refine ⟨r, rfl, front, rest, rfl, fun later member same => ?_⟩
    apply last (keyed later) (List.mem_map_of_mem member)
    exact congrArg keyOf same
  · rintro ⟨r, rfl, before, after, rfl, last⟩
    refine ⟨before.map keyed, after.map keyed, by simp, fun write member same => ?_⟩
    obtain ⟨later, among, rfl⟩ := List.mem_map.mp member
    exact last later among (keyOf_inj same)

/-- The array of a load, and the entries it is left with. -/
def loadedTable (regionDb : RegionDb) (capacity : Nat) : Geocoder where
  regions := regionDb.entries.tail.map Prod.snd ++
    List.replicate (capacity - (regionDb.entries.tail.map Prod.snd).length) emptyRegion
  regionCount := regionDb.entries.length - 1

private theorem loadedTable_table (regionDb : RegionDb) (capacity : Nat) :
    (loadedTable regionDb capacity).regionCount ≤ (loadedTable regionDb capacity).regions.length ∧
      (loadedTable regionDb capacity).table = regionDb.entries.tail.map Prod.snd := by
  have length : (regionDb.entries.tail.map Prod.snd).length = regionDb.entries.length - 1 := by
    rw [List.length_map, List.length_tail]
  refine ⟨?_, List.take_left' length⟩
  rw [loadedTable, List.length_append, length]
  exact Nat.le_add_right _ _

/-- A start with an empty database, or with one that was filled before, fills it and loads all but
its first entry. -/
private theorem init_loads {inetAddr : Bytes → UInt32} (reads : ReadsQuads inetAddr)
    {files : Bytes → Option Bytes} (canonical : Canonical files) {regionDb : RegionDb}
    (start : regionDb.entries = [] ∨ Filled (accepted inetAddr files) regionDb) :
    ∃ after capacity, initWithCacheDb inetAddr files regionDb =
        some (after, loadedTable after capacity) ∧ Filled (accepted inetAddr files) after := by
  have load : ∀ (after : RegionDb) (capacity : Nat), after.entries.length - 1 ≤ capacity →
      loadKeys after capacity 0 after.entries =
        some (after.entries.tail.map Prod.snd, after.entries.length - 1) := by
    intro after capacity room
    have loaded := loadKeys_eq after capacity after.entries (fun _ member => member) 0 (by omega)
    rwa [Nat.zero_add] at loaded
  by_cases missing : countKeys regionDb.entries = 0
  · -- the files are parsed
    have filled : Filled (accepted inetAddr files)
        (regionDb.puts ((accepted inetAddr files).map keyed)) := by
      intro e
      rw [regionDb.mem_puts_iff]
      refine ⟨?_, Or.inl⟩
      rintro (last | ⟨old, apart⟩)
      · exact last
      · rcases start with empty | before
        · rw [empty] at old
          cases old
        · exact absurd rfl (apart e ((before e).mp old).mem)
    have room : (regionDb.puts ((accepted inetAddr files).map keyed)).entries.length - 1 ≤
        ((accepted inetAddr files).map keyed).length := by
      rw [List.length_map]
      exact (Nat.sub_le _ _).trans (filled_length filled)
    refine ⟨_, ((accepted inetAddr files).map keyed).length, ?_, filled⟩
    rw [initWithCacheDb, if_pos missing, reloadRegions, writes_accepted reads canonical]
    simp only [Option.map_some, Option.bind_eq_bind, Option.bind_some, load _ _ room, loadedTable]
  · have filled : Filled (accepted inetAddr files) regionDb := by
      rcases start with empty | filled
      · rw [empty] at missing
        exact absurd rfl missing
      · exact filled
    have room : regionDb.entries.length - 1 ≤ countKeys regionDb.entries :=
      (countKeys_eq regionDb.entries).ge
    refine ⟨regionDb, countKeys regionDb.entries, ?_, filled⟩
    rw [initWithCacheDb, if_neg missing]
    simp only [Option.bind_eq_bind, Option.bind_some, load _ _ room, loadedTable]

/-- Every start finds the database empty or filled. -/
private theorem startedDb_filled {inetAddr : Bytes → UInt32} (reads : ReadsQuads inetAddr)
    {files : Bytes → Option Bytes} (canonical : Canonical files) (starts : Nat) :
    ∃ regionDb, startedDb inetAddr files starts = some regionDb ∧
      (regionDb.entries = [] ∨ Filled (accepted inetAddr files) regionDb) := by
  induction starts with
  | zero => exact ⟨Store.empty, rfl, Or.inl rfl⟩
  | succ starts ih =>
    obtain ⟨regionDb, before, start⟩ := ih
    obtain ⟨after, capacity, init, filled⟩ := init_loads reads canonical start
    refine ⟨after, ?_, Or.inr filled⟩
    rw [startedDb, before, Option.bind_eq_bind, Option.bind_some, init]
    rfl

/-- An entry is the last record of its first address, under the key of that address. -/
private theorem filled_keyed {records : List GeocoderRegion} {regionDb : RegionDb}
    (filled : Filled records regionDb) :
    ∀ e ∈ regionDb.entries, e = keyed e.2 ∧ LastAccepted records e.2 := by
  intro e member
  obtain ⟨r, rfl, last⟩ := (lastWrite_keyed records e).mp ((filled e).mp member)
  exact ⟨rfl, last⟩

/-- What is loaded is ascending and accepted, whatever is missing. -/
private theorem loaded_sound {records : List GeocoderRegion} {regionDb : RegionDb}
    (filled : Filled records regionDb) :
    (regionDb.entries.tail.map Prod.snd).Pairwise (fun r r' => r.addrbeg < r'.addrbeg) ∧
      ∀ r ∈ regionDb.entries.tail.map Prod.snd, LastAccepted records r := by
  have entry := filled_keyed filled
  constructor
  · rw [List.pairwise_map]
    have sorted := regionDb.sorted.sublist (List.tail_sublist _)
    refine sorted.imp_of_mem ?_
    intro e e' member member' below
    rw [(entry e (List.mem_of_mem_tail member)).1, (entry e' (List.mem_of_mem_tail member')).1] at below
    exact (keyOf_lt_iff _ _).mp below
  · intro r member
    obtain ⟨e, among, rfl⟩ := List.mem_map.mp member
    exact (entry e (List.mem_of_mem_tail among)).2

/-- The lowest entry is no record of the loaded ones. -/
private theorem first_missing {records : List GeocoderRegion} {regionDb : RegionDb}
    (filled : Filled records regionDb) {first : Bytes × GeocoderRegion}
    {rest : List (Bytes × GeocoderRegion)} (entries : regionDb.entries = first :: rest) :
    LastAccepted records first.2 ∧ first.2 ∉ rest.map Prod.snd := by
  have key := filled_keyed filled
  rw [entries] at key
  refine ⟨(key first (List.mem_cons_self ..)).2, fun loaded => ?_⟩
  obtain ⟨e, member, same⟩ := List.mem_map.mp loaded
  have equal : e = first := by
    rw [(key e (List.mem_cons_of_mem _ member)).1, (key first (List.mem_cons_self ..)).1, same]
  have sorted := regionDb.sorted
  rw [entries, List.pairwise_cons] at sorted
  have below := sorted.1 e member
  rw [equal] at below
  exact lt_irrefl _ below

/-- Nothing accepted is nothing stored, and the other way around. -/
private theorem filled_nil_iff {records : List GeocoderRegion} {regionDb : RegionDb}
    (filled : Filled records regionDb) : regionDb.entries = [] ↔ records = [] := by
  constructor
  · intro missing
    by_contra present
    obtain ⟨front, last, rfl⟩ := (List.eq_nil_or_concat records).resolve_left present
    have stored : keyed last ∈ regionDb.entries :=
      (filled _).mpr ((lastWrite_keyed _ _).mpr ⟨last, rfl, front, [], by simp, by simp⟩)
    rw [missing] at stored
    cases stored
  · rintro rfl
    exact List.eq_nil_of_length_eq_zero (Nat.le_zero.mp (filled_length filled))

/-- The table of a start, after any number of earlier ones, is complete exactly if no line of the
files is accepted: the lowest range is always missing. -/
theorem table_complete_iff (inetAddr : Bytes → UInt32) (reads : ReadsQuads inetAddr)
    (files : Bytes → Option Bytes) (canonical : Canonical files) (starts : Nat) :
    ∃ regionDb after g, startedDb inetAddr files starts = some regionDb ∧
      initWithCacheDb inetAddr files regionDb = some (after, g) ∧
      (TableComplete (accepted inetAddr files) g ↔ accepted inetAddr files = []) := by
  obtain ⟨regionDb, before, start⟩ := startedDb_filled reads canonical starts
  obtain ⟨after, capacity, init, filled⟩ := init_loads reads canonical start
  obtain ⟨inside, table⟩ := loadedTable_table after capacity
  refine ⟨regionDb, after, loadedTable after capacity, before, init, ?_⟩
  obtain ⟨ascending, sound⟩ := loaded_sound filled
  rw [← filled_nil_iff filled]
  constructor
  · intro complete
    -- whatever is stored, its lowest entry is accepted and not loaded
    cases entries : after.entries with
    | nil => rfl
    | cons first rest =>
      obtain ⟨last, missing⟩ := first_missing filled entries
      have loaded := (complete.exact_ first.2).mpr last
      rw [table, entries] at loaded
      exact absurd loaded missing
  · intro missing
    have nothing := (filled_nil_iff filled).mp missing
    rw [← table] at ascending sound
    refine ⟨inside, ascending, fun r => ⟨sound r, ?_⟩⟩
    rintro ⟨front, back, split_, -⟩
    rw [nothing] at split_
    cases front <;> cases split_

/-! ### Two ranges -/

private theorem ntohl_bit (x : UInt32) {i : Nat} (inside : i < 32) :
    (ntohl x).toBitVec.getLsbD i = x.toBitVec.getLsbD (24 - i / 8 * 8 + i % 8) := by
  simp only [ntohl, UInt32.toBitVec_or, UInt32.toBitVec_and, UInt32.toBitVec_shiftLeft,
    UInt32.toBitVec_shiftRight, UInt32.toBitVec_ofNat, BitVec.getLsbD_or, BitVec.getLsbD_and]
  generalize x.toBitVec = y
  interval_cases i <;> simp

private theorem ntohl_ntohl (x : UInt32) : ntohl (ntohl x) = x := by
  apply UInt32.eq_of_toBitVec_eq
  apply BitVec.eq_of_getLsbD_eq
  intro i inside
  rw [ntohl_bit _ inside, ntohl_bit _ (by omega)]
  congr 1
  omega

/-- An `inet_addr` that knows addresses of four numbers. -/
def quadAddr (addr : Bytes) : UInt32 :=
  match componentsInSet (· == dot) addr with
  | [a, b, c, d] => ntohl (UInt32.ofNat
      ((((integerValue a).toNat * 256 + (integerValue b).toNat) * 256 +
        (integerValue c).toNat) * 256 + (integerValue d).toNat))
  | _ => 0xFFFFFFFF

private theorem quadAddr_reads : ReadsQuads quadAddr := by
  intro a b c d small
  have values : ∀ n, n < 256 → (integerValue (decimal n)).toNat = n := by
    intro n below
    rw [integerValue_decimal n (by omega), Int.toNat_natCast]
  unfold quadAddr
  rw [dotted_parts]
  dsimp only
  rw [ntohl_ntohl, values a small.1, values b small.2.1, values c small.2.2.1,
    values d small.2.2.2]
  apply UInt32.toNat_ofNat_of_lt'
  have bound : UInt32.size = 2 ^ 32 := rfl
  omega

/-- A file with two ranges, the higher one first, between two lines that are none. -/
def twoRanges (file : Bytes) : Option Bytes :=
  if file = ascii "other/delegated-apnic-latest" then
    some (ascii "2|apnic|20130101|2|19830613|20130101|+1000\n" ++
      ascii "apnic|CN|ipv4|1.0.1.0|256|20110414|allocated\n" ++
      ascii "apnic|AU|ipv4|1.0.0.0|256|20110811|assigned\n" ++
      ascii "apnic|AU|asn|173|1|20020801|allocated")
  else none

private theorem twoRanges_accepted : (delegatedLines twoRanges).filterMap acceptedFields =
    [(ascii "CN", ascii "1.0.1.0", ascii "256"), (ascii "AU", ascii "1.0.0.0", ascii "256")] := by
  decide +kernel

private theorem twoRanges_canonical : Canonical twoRanges := by
  intro line member code addr size fields_
  have among : (code, addr, size) ∈ (delegatedLines twoRanges).filterMap acceptedFields :=
    List.mem_filterMap.mpr ⟨line, member, fields_⟩
  rw [twoRanges_accepted] at among
  simp only [List.mem_cons, List.not_mem_nil, or_false, Prod.mk.injEq] at among
  rcases among with ⟨-, rfl, -⟩ | ⟨-, rfl, -⟩
  · exact ⟨1, 0, 1, 0, by omega, by decide +kernel⟩
  · exact ⟨1, 0, 0, 0, by omega, by decide +kernel⟩

theorem table_complete_iff_twoRanges :
    ReadsQuads quadAddr ∧ Canonical twoRanges ∧
      ∃ regionDb after g, startedDb quadAddr twoRanges 1 = some regionDb ∧
        initWithCacheDb quadAddr twoRanges regionDb = some (after, g) ∧
        (TableComplete (accepted quadAddr twoRanges) g ↔ accepted quadAddr twoRanges = []) :=
  ⟨quadAddr_reads, twoRanges_canonical,
    table_complete_iff quadAddr quadAddr_reads twoRanges twoRanges_canonical 1⟩

/-- The range of 1.0.0.0 is stored and not loaded. -/
theorem lowest_missing : ReadsQuads quadAddr ∧ Canonical twoRanges ∧
    ∃ after g, initWithCacheDb quadAddr twoRanges Store.empty = some (after, g) ∧
      g.table = [⟨0x01000100, 0x01000200, (67, 78)⟩] ∧
      LastAccepted (accepted quadAddr twoRanges) ⟨0x01000000, 0x01000100, (65, 85)⟩ ∧
      ¬TableComplete (accepted quadAddr twoRanges) g := by
  have init : (initWithCacheDb quadAddr twoRanges Store.empty).map (·.2.table) =
      some [⟨0x01000100, 0x01000200, (67, 78)⟩] := by
    decide +kernel
  have records : accepted quadAddr twoRanges =
      [⟨0x01000100, 0x01000200, (67, 78)⟩, ⟨0x01000000, 0x01000100, (65, 85)⟩] := by
    decide +kernel
  obtain ⟨⟨after, g⟩, started, table⟩ := Option.map_eq_some_iff.mp init
  have last : LastAccepted (accepted quadAddr twoRanges) ⟨0x01000000, 0x01000100, (65, 85)⟩ :=
    ⟨[_], [], records, by simp⟩
  refine ⟨quadAddr_reads, twoRanges_canonical, after, g, started, table, last, fun complete => ?_⟩
  have loaded := (complete.exact_ _).mpr last
  rw [table, List.mem_singleton] at loaded
  exact absurd loaded (by decide)

end Spamass.Geo
