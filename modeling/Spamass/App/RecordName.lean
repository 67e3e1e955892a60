import Mathlib.Data.Nat.Log
import Mathlib.Tactic.IntervalCases
import Spamass.App.Decimals
import Spamass.App.Inbox
import Spamass.Calendar
import Spamass.Geo.Regions

/-!
# Names of sockets

`emailz_socket_start` writes the name of a socket field by field into its record: the date
and time of the connection, the address and the port, each by `emailz_print_number`. The
names are accepted where mails are looked up, and their order is the order of what they
are made of.
-/
namespace Spamass.App

open Spamass.Emailz Spamass.FixedWidth Spamass.Calendar Spamass.SortedStore
open Spamass.Geo (ntohl)

/-! ### Printing a number -/

/-- A buffer, and the pointer into it. -/
structure Cursor where
  buffer : Bytes
  ptr : Int
  deriving DecidableEq, Repr

/-- A cleared buffer. -/
def Cursor.fresh (size : Nat) : Cursor := ⟨List.replicate size 0, 0⟩

/-- `*at = b`; nothing may be written outside the buffer. -/
def store (buffer : Bytes) (address : Int) (b : UInt8) : Option Bytes :=
  if 0 ≤ address ∧ address < buffer.length then some (buffer.set address.toNat b) else none

/-- `sizeof(socket->record_name)`. -/
def recordNameSize : Nat := 100

def intMin : Int := -2147483648

/-- `(int)floor(1. + log10((double)num))`, with the conversion of the target where there is no
logarithm. -/
def digitCount (num : Nat) : Int := if num = 0 then intMin else Nat.log 10 num + 1

/-- The places the first `switch` writes zeros to. -/
def padding (pad : Nat) : List Nat :=
  match pad with
  | 6 => [5, 4, 3, 2, 1, 0]
  | 5 => [4, 3, 2, 1, 0]
  | 4 => [3, 2, 1, 0]
  | 3 => [2, 1, 0]
  | 2 => [1, 0]
  | 1 => [0]
  | _ => []

/-- The second `switch`: each case writes one digit, that many places before the end, and falls
into the next. -/
def digitCases (digits num : Nat) : List (Nat × Nat) :=
  let case1 := fun num => [(1, num)]
  let case2 := fun num => (2, num / 10) :: case1 (num - num / 10 * 10)
  let case3 := fun num => (3, num / 100) :: case2 (num - num / 100 * 100)
  let case4 := fun num => (4, num / 1000) :: case3 (num - num / 1000 * 1000)
  let case5 := fun num => (5, num / 10000) :: case4 (num - num / 10000 * 10000)
  let case6 := fun num => (6, num / 100000) :: case5 (num - num / 100000 * 100000)
  match digits with
  | 6 => case6 num
  | 5 => case5 num
  | 4 => case4 num
  | 3 => case3 num
  | 2 => case2 num
  | 1 => case1 num
  | _ => []

def printPadding (buffer : Bytes) (dst : Int) (pad : Nat) : Option Bytes :=
  (padding pad).foldlM (fun buffer (i : Nat) => store buffer (dst + i) 48) buffer

/-- The digits of a number, up to where they stop. -/
def printDigits (buffer : Bytes) (stop : Int) (digits num : Nat) : Option Bytes :=
  (digitCases digits num).foldlM
    (fun buffer digit => store buffer (stop - digit.1) (digitByte digit.2)) buffer

/-- `emailz_print_number`. The pointer `dst` of a number without digits is never written through. -/
def printNumber (c : Cursor) (num pad : Nat) : Option Cursor := do
  let digits := digitCount num
  let padded ← (if digits < pad then printPadding c.buffer c.ptr pad else some c.buffer)
  let dst := if digits < pad then c.ptr + (pad - digits) else c.ptr
  let buffer ← printDigits padded (dst + digits) digits.toNat num
  some ⟨buffer, c.ptr + max (pad : Int) digits⟩

/-- `*name_ptr = mark; name_ptr += 1`. -/
def printMark (c : Cursor) (mark : UInt8) : Option Cursor :=
  (store c.buffer c.ptr mark).map fun buffer => ⟨buffer, c.ptr + 1⟩

/-! ### The name -/

/-- The time of a connection in milliseconds, and its peer as `accept` returns it: the address
and the port are in network order. -/
structure Endpoint where
  connectTime : UInt64
  sAddr : UInt32
  sinPort : UInt16
  deriving DecidableEq, Repr

def ntohs (x : UInt16) : UInt16 := (x <<< 8) ||| (x >>> 8)

def Endpoint.clock (e : Endpoint) : UInt64 := e.connectTime / 1000

def Endpoint.date (e : Endpoint) : Tm := gmtime e.clock.toNat

/-- What is written to a name, in one step. -/
inductive Field where
  | number (num pad : Nat)
  | mark (b : UInt8)
  deriving DecidableEq, Repr

def Field.print (c : Cursor) : Field → Option Cursor
  | .number num pad => printNumber c num pad
  | .mark b => printMark c b

/-- The steps of `emailz_socket_start`. -/
def Endpoint.fields (e : Endpoint) : List Field :=
  let date := e.date
  let addr := ntohl e.sAddr
  [ -- yyyymmddhhmmssmmm
    .number (1900 + date.tmYear) 4,
    .number (1 + date.tmMon) 2,
    .number date.tmMday 2,
    .number (1 + date.tmHour) 2,
    .number date.tmMin 2,
    .number date.tmSec 2,
    .number (e.connectTime % 1000).toNat 3,
    -- ip address
    .mark 45,
    .number ((0xFF : UInt32) &&& (addr >>> 24)).toNat 3,
    .mark 46,
    .number ((0xFF : UInt32) &&& (addr >>> 16)).toNat 3,
    .mark 46,
    .number ((0xFF : UInt32) &&& (addr >>> 8)).toNat 3,
    .mark 46,
    .number ((0xFF : UInt32) &&& addr).toNat 3,
    -- port
    .mark 45,
    .number e.sinPort.toNat 5]

/-- The name as `emailz_socket_start` writes it; none if it wrote outside the record. -/
def Endpoint.printName (e : Endpoint) : Option Cursor :=
  e.fields.foldlM Field.print (Cursor.fresh recordNameSize)

/-- `emailz_socket_get_name`, as a C string. -/
def Endpoint.recordName (e : Endpoint) : Option Bytes :=
  e.printName.map fun c => c.buffer.takeWhile (· ≠ 0)

example : Endpoint.recordName ⟨1344340805007, 0x04030201, 0x1900⟩ =
    some (ascii "20120807130005007-001.002.003.004-06400") := by decide +kernel

/-! ### What is written -/

/-- The buffer begins with the text, and the rest of it is empty. -/
structure CursorHolds (size : Nat) (c : Cursor) (text : Bytes) : Prop where
  buffer : c.buffer = text ++ List.replicate (size - text.length) 0
  ptr : c.ptr = text.length

theorem written_fresh (size : Nat) : CursorHolds size (Cursor.fresh size) [] := ⟨rfl, rfl⟩

private theorem store_front (front back : Bytes) (x b : UInt8) {address : Int}
    (here : address = front.length) :
    store (front ++ x :: back) address b = some (front ++ b :: back) := by
  subst here
  have inside : 0 ≤ (front.length : Int) ∧ (front.length : Int) < (front ++ x :: back).length := by
    rw [List.length_append, List.length_cons]
    omega
  rw [store, if_pos inside, Int.toNat_natCast, List.set_append_right _ _ le_rfl, Nat.sub_self,
    List.set_cons_zero]

/-- The padding is written from its end to its front. -/
private theorem printPadding_eq (pad : Nat) (few : pad ≤ 6) (front gap back : Bytes) {dst : Int}
    (here : dst = front.length) (length : gap.length = pad) :
    printPadding (front ++ gap ++ back) dst pad =
      some (front ++ List.replicate pad 48 ++ back) := by
  subst here
  unfold printPadding
  -- the last place is written first, and joins what stands behind
  induction pad generalizing gap back with
  | zero =>
    obtain rfl := List.length_eq_zero_iff.mp length
    rfl
  | succ pad ih =>
    have cases_ : padding (pad + 1) = pad :: padding pad := by
      have within : pad < 6 := few
      interval_cases pad <;> rfl
    obtain ⟨before, last, rfl⟩ : ∃ before last, gap = before ++ [last] := by
      refine ⟨gap.dropLast, gap.getLast ?_, (List.dropLast_append_getLast _).symm⟩
      intro empty
      rw [empty] at length
      cases length
    rw [List.length_append, List.length_singleton, Nat.add_right_cancel_iff] at length
    have shape : front ++ (before ++ [last]) ++ back = (front ++ before) ++ last :: back := by simp
    have place : (front.length : Int) + pad = (front ++ before).length := by
      rw [List.length_append, length, Int.natCast_add]
    rw [cases_, List.foldlM_cons, shape, store_front _ _ _ _ place, Option.bind_eq_bind,
      Option.bind_some, ih (by omega) before (48 :: back) length, List.replicate_succ']
    simp

/-- The digits are written from the front. -/
private theorem printDigits_eq (count num : Nat) (few : count ≤ 6) (fits : num < 10 ^ count)
    (front gap back : Bytes) {stop : Int} (here : stop = front.length + count)
    (length : gap.length = count) :
    printDigits (front ++ gap ++ back) stop count num =
      some (front ++ digits count num ++ back) := by
  subst here
  unfold printDigits
  -- the first digit joins the front, and the remainder is written behind it
  induction count generalizing num front gap with
  | zero =>
    obtain rfl := List.length_eq_zero_iff.mp length
    rfl
  | succ count ih =>
    have cases_ : digitCases (count + 1) num =
        (count + 1, num / 10 ^ count) :: digitCases count (num - num / 10 ^ count * 10 ^ count) := by
      have within : count < 6 := few
      interval_cases count <;> simp [digitCases]
    obtain ⟨first, behind, rfl⟩ := List.exists_cons_of_length_eq_add_one length
    rw [List.length_cons, Nat.add_right_cancel_iff] at length
    have digit : num / 10 ^ count < 10 := by
      rw [Nat.pow_succ] at fits
      exact Nat.div_lt_of_lt_mul fits
    have rest : num - num / 10 ^ count * 10 ^ count = num % 10 ^ count := by
      rw [Nat.mul_comm, Nat.mod_eq_sub]
    have below : num % 10 ^ count < 10 ^ count := Nat.mod_lt _ (Nat.pow_pos (by omega))
    have shape : front ++ first :: behind ++ back = front ++ first :: (behind ++ back) := by simp
    have place : (front.length + (count + 1 : Nat) : Int) - (count + 1 : Nat) = front.length := by
      omega
    have stop : (front.length + (count + 1 : Nat) : Int) =
        (front ++ [digitByte (num / 10 ^ count)]).length + count := by
      rw [List.length_append, List.length_singleton]
      omega
    have later := ih (num % 10 ^ count) (by omega) below (front ++ [digitByte (num / 10 ^ count)])
      behind length
    rw [cases_, List.foldlM_cons, shape, store_front _ _ _ _ place, Option.bind_eq_bind,
      Option.bind_some, rest, stop]
    have shape' : front ++ digitByte (num / 10 ^ count) :: (behind ++ back) =
        front ++ [digitByte (num / 10 ^ count)] ++ behind ++ back := by simp
    have all : digits (count + 1) num =
        digitByte (num / 10 ^ count) :: digits count (num % 10 ^ count) := by
      rw [digits, fixedWidth_succ, Nat.mod_eq_of_lt digit, digits, fixedWidth_mod]
    rw [shape', later, all]
    simp

/-- The places of a number are padded all at once. -/
theorem padded_written {size : Nat} {c : Cursor} {text : Bytes} (written : CursorHolds size c text)
    (pad : Nat) (few : pad ≤ 6) (room : text.length + pad ≤ size) :
    c.buffer = text ++ List.replicate pad 0 ++ List.replicate (size - (text.length + pad)) 0 ∧
      printPadding c.buffer c.ptr pad =
        some (text ++ List.replicate pad 48 ++ List.replicate (size - (text.length + pad)) 0) := by
  have gap : List.replicate (size - text.length) (0 : UInt8) =
      List.replicate pad 0 ++ List.replicate (size - (text.length + pad)) 0 := by
    rw [List.replicate_append_replicate]
    congr 1
    omega
  have buffer := written.buffer
  rw [gap, ← List.append_assoc] at buffer
  refine ⟨buffer, ?_⟩
  rw [buffer]
  exact printPadding_eq pad few text _ _ written.ptr (List.length_replicate ..)

/-- What the digits are written to: behind the padding, or where the number begins. -/
private theorem digits_gap {size : Nat} {c : Cursor} {text : Bytes} (written : CursorHolds size c text)
    {pad count : Nat} (few : pad ≤ 6) (room : text.length + pad ≤ size) (short : count ≤ pad) :
    ∃ gap : Bytes, gap.length = count ∧
      (if (count : Int) < pad then printPadding c.buffer c.ptr pad else some c.buffer) =
        some (text ++ List.replicate (pad - count) 48 ++ gap ++
          List.replicate (size - (text.length + pad)) 0) := by
  obtain ⟨buffer, padded⟩ := padded_written written pad few room
  rcases Nat.lt_or_eq_of_le short with less | rfl
  · refine ⟨List.replicate count 48, List.length_replicate .., ?_⟩
    have zeros : List.replicate (pad - count) (48 : UInt8) ++ List.replicate count 48 =
        List.replicate pad 48 := by
      rw [List.replicate_append_replicate, Nat.sub_add_cancel short]
    rw [if_pos (by omega), padded, ← zeros, ← List.append_assoc text]
  · refine ⟨List.replicate count 0, List.length_replicate .., ?_⟩
    rw [if_neg (lt_irrefl _), buffer, Nat.sub_self, List.replicate_zero, List.append_nil]

/-- A number that is not zero has as many digits as its logarithm says. -/
private theorem digitCount_pos {num pad : Nat} (present : 0 < num) (fits : num < 10 ^ pad) :
    ∃ count : Nat, digitCount num = count ∧ num < 10 ^ count ∧ count ≤ pad := by
  refine ⟨Nat.log 10 num + 1, ?_, Nat.lt_pow_succ_log_self (by omega) num, ?_⟩
  · rw [digitCount, if_neg (by omega)]
    rfl
  · exact Nat.log_lt_of_lt_pow (by omega) fits

/-- A number that fits is written in exactly its width. -/
theorem printNumber_written {size : Nat} {c : Cursor} {text : Bytes} (written : CursorHolds size c text)
    (num pad : Nat) (few : pad ≤ 6) (fits : num < 10 ^ pad) (room : text.length + pad ≤ size) :
    ∃ next, printNumber c num pad = some next ∧ CursorHolds size next (text ++ digits pad num) := by
  have end_ : (text ++ digits pad num).length = text.length + pad := by
    rw [List.length_append, digits_length]
  refine ⟨⟨text ++ digits pad num ++ List.replicate (size - (text ++ digits pad num).length) 0,
    c.ptr + pad⟩, ?_, rfl, by rw [end_, written.ptr, Int.natCast_add]⟩
  rw [end_]
  rcases Nat.eq_zero_or_pos num with rfl | present
  · -- no digits at all: the zeros are the number
    have missing : digitCount 0 < pad := by
      simp only [digitCount, intMin, if_true]
      omega
    have zeros : digits pad 0 = List.replicate pad 48 := fixedWidth_zero 10 digitByte pad
    have silent : ∀ buffer stop, printDigits buffer stop (digitCount 0).toNat 0 = some buffer :=
      fun _ _ => rfl
    have padded := (padded_written written pad few room).2
    simp only [printNumber, missing, if_true, padded, max_eq_left missing.le, silent, zeros,
      Option.bind_eq_bind, Option.bind_some]
  · obtain ⟨count, count_, below, short⟩ := digitCount_pos present fits
    obtain ⟨gap, length, start⟩ := digits_gap written few room short
    have stop : (if (count : Int) < pad then c.ptr + (pad - count) else c.ptr) + count =
        (text ++ List.replicate (pad - count) (48 : UInt8)).length + count := by
      rw [List.length_append, List.length_replicate, written.ptr]
      split <;> omega
    have printed := printDigits_eq count num (by omega) below
      (text ++ List.replicate (pad - count) 48) gap
      (List.replicate (size - (text.length + pad)) 0) rfl length
    have whole : text ++ List.replicate (pad - count) 48 ++ digits count num =
        text ++ digits pad num := by
      have front := fixedWidth_front 10 digitByte count (pad - count) num below
      rw [Nat.add_sub_cancel' short] at front
      rw [List.append_assoc]
      exact congrArg (text ++ ·) front.symm
    have most : max (pad : Int) count = pad := by omega
    rw [whole] at printed
    simp only [printNumber, count_, start, stop, most, Int.toNat_natCast, printed,
      Option.bind_eq_bind, Option.bind_some]

theorem printMark_written {size : Nat} {c : Cursor} {text : Bytes} (written : CursorHolds size c text)
    (mark : UInt8) (room : text.length < size) :
    ∃ next, printMark c mark = some next ∧ CursorHolds size next (text ++ [mark]) := by
  obtain ⟨buffer, ptr⟩ := written
  have gap : List.replicate (size - text.length) (0 : UInt8) =
      0 :: List.replicate (size - (text ++ [mark]).length) 0 := by
    rw [← List.replicate_succ, List.length_append, List.length_singleton]
    congr 1
    omega
  refine ⟨⟨text ++ mark :: List.replicate (size - (text ++ [mark]).length) 0, c.ptr + 1⟩, ?_, ?_, ?_⟩
  · rw [printMark, buffer, gap, store_front _ _ _ _ ptr, Option.map_some]
  · simp
  · rw [ptr, List.length_append, List.length_singleton, Int.natCast_add, Int.natCast_one]

/-! ### Layout -/

/-- The widths of the numbers of a name, and the mark behind each. -/
def layout : List (Nat × Bytes) :=
  [(4, []), (2, []), (2, []), (2, []), (2, []), (2, []), (3, [45]),
    (3, [46]), (3, [46]), (3, [46]), (3, [45]), (5, [])]

/-- The digits of an address in base 256. -/
def octets (addr : UInt32) : List Nat := fixedWidth 256 id 4 addr.toNat

/-- The numbers of a name. -/
def Endpoint.numbers (e : Endpoint) : List Nat :=
  [1900 + e.date.tmYear, 1 + e.date.tmMon, e.date.tmMday, 1 + e.date.tmHour, e.date.tmMin,
    e.date.tmSec, e.connectTime.toNat % 1000] ++ octets (ntohl e.sAddr) ++ [e.sinPort.toNat]

def Endpoint.year (e : Endpoint) : Nat := 1900 + e.date.tmYear

theorem octets_eq (addr : UInt32) : octets addr =
    [((0xFF : UInt32) &&& (addr >>> 24)).toNat, ((0xFF : UInt32) &&& (addr >>> 16)).toNat,
      ((0xFF : UInt32) &&& (addr >>> 8)).toNat, ((0xFF : UInt32) &&& addr).toNat] := by
  have byte : ∀ x : UInt32, ((0xFF : UInt32) &&& x).toNat = x.toNat % 256 := by
    intro x
    rw [UInt32.toNat_and, Nat.and_comm]
    exact Nat.and_two_pow_sub_one_eq_mod x.toNat 8
  have shift : ∀ k : UInt32, k.toNat < 32 → (addr >>> k).toNat = addr.toNat / 2 ^ k.toNat := by
    intro k small
    rw [UInt32.toNat_shiftRight, Nat.mod_eq_of_lt small, Nat.shiftRight_eq_div_pow]
  rw [byte, byte, byte, byte, shift 24 (by decide), shift 16 (by decide), shift 8 (by decide)]
  simp [octets, fixedWidth, Nat.div_div_eq_div_mul]

def Field.text : Field → Bytes
  | .number num pad => digits pad num
  | .mark b => [b]

/-- A field that is printed as it should be. -/
def Field.Fits : Field → Prop
  | .number num pad => pad ≤ 6 ∧ num < 10 ^ pad
  | .mark _ => True

theorem print_written {size : Nat} {c : Cursor} {text : Bytes} (written : CursorHolds size c text)
    (field : Field) (fits : field.Fits) (room : text.length + field.text.length ≤ size) :
    ∃ next, field.print c = some next ∧ CursorHolds size next (text ++ field.text) := by
  cases field with
  | number num pad =>
    rw [Field.text, digits_length] at room
    exact printNumber_written written num pad fits.1 fits.2 room
  | mark b => exact printMark_written written b room

/-- The fields are written one behind the other. -/
private theorem fields_written (fields : List Field) {size : Nat} {c : Cursor} {text : Bytes}
    (written : CursorHolds size c text)
    (fits : ∀ field ∈ fields, field.Fits)
    (room : text.length + (fields.flatMap Field.text).length ≤ size) :
    ∃ next, fields.foldlM Field.print c = some next ∧
      CursorHolds size next (text ++ fields.flatMap Field.text) := by
  induction fields generalizing c text with
  | nil => exact ⟨c, rfl, (List.append_nil text).symm ▸ written⟩
  | cons field fields ih =>
    rw [List.flatMap_cons, List.length_append] at room
    obtain ⟨between, first, written'⟩ :=
      print_written written field (fits field (List.mem_cons_self ..)) (by omega)
    obtain ⟨next, later, written''⟩ := ih written'
      (fun later member => fits later (List.mem_cons_of_mem _ member)) (by
        rw [List.length_append]
        omega)
    rw [List.append_assoc] at written''
    refine ⟨next, ?_, written''⟩
    rw [List.foldlM_cons, first]
    exact later

/-! ### What the validator sees -/

/-- The checks a layout passes. -/
def shapeOf (words : List (Nat × Bytes)) : List (UInt8 → Bool) :=
  words.flatMap fun entry => List.replicate entry.1 isDigit ++ entry.2.map fun mark => (· == mark)

private theorem shapeOf_layout : shapeOf layout = socketIdShape := rfl

theorem passes_both {shape shape' : List (UInt8 → Bool)} {text : Bytes} (text' : Bytes)
    (length : text.length = shape.length) :
    passes (shape ++ shape') (text ++ text') = (passes shape text && passes shape' text') := by
  induction shape generalizing text with
  | nil =>
    obtain rfl := List.length_eq_zero_iff.mp length
    rfl
  | cons check shape ih =>
    obtain ⟨b, text, rfl⟩ := List.exists_cons_of_length_eq_add_one length
    rw [List.length_cons, List.length_cons, Nat.add_right_cancel_iff] at length
    rw [List.cons_append, List.cons_append, passes, passes, ih length, Bool.and_assoc]

theorem wellFormed_both {shape shape' : List (UInt8 → Bool)} {text text' : Bytes}
    (first : wellFormed shape text = true) (second : wellFormed shape' text' = true) :
    wellFormed (shape ++ shape') (text ++ text') = true := by
  rw [wellFormed_iff] at *
  rw [passes_both text' first.1, first.2, second.2, List.length_append, List.length_append, first.1,
    second.1]
  exact ⟨rfl, rfl⟩

private theorem wellFormed_digits (width n : Nat) :
    wellFormed (List.replicate width isDigit) (digits width n) = true := by
  rw [wellFormed_iff, List.length_replicate]
  exact ⟨digits_length width n, passes_digits width n⟩

private theorem wellFormed_marks (marks : Bytes) :
    wellFormed (marks.map fun mark => (· == mark)) marks = true := by
  rw [wellFormed_iff, List.length_map]
  refine ⟨rfl, ?_⟩
  induction marks with
  | nil => rfl
  | cons mark marks ih => rw [List.map_cons, passes, ih, beq_self_eq_true, Bool.and_self]

theorem wellFormed_words {words : List (Nat × Bytes)} {ns : List Nat} (fits : Fitting 10 words ns) :
    wellFormed (shapeOf words) (fixedWords 10 digitByte words ns) = true := by
  induction fits with
  | nil => rfl
  | @cons entry n words ns _ _ ih =>
    rw [shapeOf, List.flatMap_cons, ← shapeOf]
    exact wellFormed_both (wellFormed_both (wellFormed_digits _ n) (wellFormed_marks _)) ih

/-! ### Names -/

theorem numbers_fitting (e : Endpoint) (soon : e.year < 10000) : Fitting 10 layout e.numbers := by
  have range : InRange e.date := gmtime_inRange e.clock.toNat
  have month := range.month
  have mday := range.mday
  have hour := range.hour
  have minute := range.minute
  have second := range.second
  have millis := Nat.mod_lt e.connectTime.toNat (show 0 < 1000 by decide)
  have port := e.sinPort.toNat_lt
  have octet : ∀ n ∈ octets (ntohl e.sAddr), n < 1000 := by
    intro n member
    obtain ⟨d, small, rfl⟩ := mem_fixedWidth 256 id (by decide) member
    exact small.trans (by decide)
  obtain ⟨a, b, c, d, four⟩ : ∃ a b c d, octets (ntohl e.sAddr) = [a, b, c, d] :=
    ⟨_, _, _, _, octets_eq _⟩
  rw [four] at octet
  simp only [List.forall_mem_cons] at octet
  unfold Endpoint.year at soon
  simp only [Fitting, Endpoint.numbers, four, layout, List.cons_append, List.nil_append,
    List.forall₂_cons, List.forall₂_nil_left_iff, and_true]
  omega

/-- The text of a name. -/
def Endpoint.name (e : Endpoint) : Bytes := fixedWords 10 digitByte layout e.numbers

private theorem fields_text (e : Endpoint) : e.fields.flatMap Field.text = e.name := by
  have time : (e.connectTime % 1000).toNat = e.connectTime.toNat % 1000 := UInt64.toNat_mod ..
  simp only [Endpoint.fields, Endpoint.name, Endpoint.numbers, octets_eq, layout, time, fixedWords,
    Field.text, digits, List.flatMap_cons, List.flatMap_nil, List.cons_append, List.nil_append,
    List.append_nil, List.append_assoc]

private theorem name_wellFormed (e : Endpoint) (soon : e.year < 10000) :
    wellFormed socketIdShape e.name = true := by
  rw [← shapeOf_layout]
  exact wellFormed_words (numbers_fitting e soon)

private theorem name_nonzero (e : Endpoint) (soon : e.year < 10000) : ∀ b ∈ e.name, b ≠ 0 := by
  obtain ⟨length, shape⟩ := (wellFormed_iff _ _).mp (name_wellFormed e soon)
  have nonzero := passes_apart 0 socketIdShape _ rfl shape
  rwa [← length, List.take_length] at nonzero

theorem fields_fit (e : Endpoint) (soon : e.year < 10000) : ∀ field ∈ e.fields, field.Fits := by
  have fits := numbers_fitting e soon
  have time : (e.connectTime % 1000).toNat = e.connectTime.toNat % 1000 := UInt64.toNat_mod ..
  simp only [Fitting, Endpoint.numbers, octets_eq, layout, List.cons_append, List.nil_append,
    List.forall₂_cons, List.forall₂_nil_left_iff, and_true] at fits
  simp only [Endpoint.fields, List.forall_mem_cons, Field.Fits, time, List.not_mem_nil,
    false_implies, implies_true, and_true, true_and]
  omega

theorem recordName_eq (e : Endpoint) (soon : e.year < 10000) : e.recordName = some e.name := by
  obtain ⟨length, -⟩ := (wellFormed_iff _ _).mp (name_wellFormed e soon)
  have empty := written_fresh recordNameSize
  obtain ⟨c, printed, written⟩ := fields_written e.fields empty (fields_fit e soon) (by
    rw [fields_text, length]
    decide)
  rw [fields_text, List.nil_append] at written
  rw [Endpoint.recordName, Endpoint.printName, printed, Option.map_some, written.buffer,
    List.takeWhile_append_of_pos fun b member => decide_eq_true (name_nonzero e soon b member)]
  simp

/-! ### The order of names -/

/-- Time, address and port field, compared in this order. -/
def Endpoint.triple (e : Endpoint) : List Nat :=
  [e.connectTime.toNat, (ntohl e.sAddr).toNat, e.sinPort.toNat]

/-- The numbers of the time alone. -/
def Endpoint.time (e : Endpoint) : List Nat :=
  [1900 + e.date.tmYear, 1 + e.date.tmMon, e.date.tmMday, 1 + e.date.tmHour, e.date.tmMin,
    e.date.tmSec, e.connectTime.toNat % 1000]

private theorem numbers_eq (e : Endpoint) :
    e.numbers = e.time ++ (octets (ntohl e.sAddr) ++ [e.sinPort.toNat]) := List.append_assoc ..

private theorem date_eq (e : Endpoint) : e.date = gmtime (e.connectTime.toNat / 1000) := by
  have clock : e.clock.toNat = e.connectTime.toNat / 1000 := UInt64.toNat_div ..
  rw [Endpoint.date, clock]

private theorem time_lt {e e' : Endpoint} (less : e.connectTime.toNat < e'.connectTime.toNat) :
    e.time < e'.time := by
  rcases quotient_lt 1000 less with second | ⟨same, millis⟩
  · have later := gmtime_lt second
    rw [← date_eq, ← date_eq] at later
    simp only [Tm.fields, Endpoint.time, List.cons_lt_cons_iff, List.not_lt_nil, and_false,
      or_false] at later ⊢
    omega
  · have date : e.date = e'.date := by rw [date_eq, date_eq, same]
    simp only [Endpoint.time, date, List.cons_lt_cons_iff, lt_irrefl, true_and, false_or]
    exact Or.inl millis

theorem octets_lt {addr addr' : UInt32} (less : addr.toNat < addr'.toNat) :
    octets addr < octets addr' :=
  fixedWidth_lt 256 id (fun _ _ below _ => below) less addr'.toNat_lt

private theorem time_congr {e e' : Endpoint} (same : e.connectTime.toNat = e'.connectTime.toNat) :
    e.time = e'.time := by
  have date : e.date = e'.date := by rw [date_eq, date_eq, same]
  rw [Endpoint.time, Endpoint.time, date, same]

theorem numbers_lt {e e' : Endpoint} (less : e.triple < e'.triple) : e.numbers < e'.numbers := by
  simp only [Endpoint.triple, List.cons_lt_cons_iff, List.not_lt_nil, and_false, or_false] at less
  rw [numbers_eq, numbers_eq]
  rcases less with time | ⟨time, addr | ⟨addr, port⟩⟩
  · have length : e.time.length = e'.time.length := by
      simp only [Endpoint.time, List.length_cons]
    exact append_lt_of_lt length (time_lt time) _ _
  · have length : (octets (ntohl e.sAddr)).length = (octets (ntohl e'.sAddr)).length := by
      rw [octets, octets, fixedWidth_length, fixedWidth_length]
    rw [time_congr time, append_lt_append_iff]
    exact append_lt_of_lt length (octets_lt addr) _ _
  · rw [time_congr time, UInt32.toNat_inj.mp addr, append_lt_append_iff, append_lt_append_iff,
      List.cons_lt_cons_iff]
    exact Or.inl port

private theorem name_lt {e e' : Endpoint} (soon : e.year < 10000) (soon' : e'.year < 10000)
    (less : e.triple < e'.triple) : e.name < e'.name :=
  fixedWords_lt 10 digitByte digitByte_ascending (numbers_fitting e soon) (numbers_fitting e' soon')
    (numbers_lt less)

private theorem name_congr {e e' : Endpoint} (same : e.triple = e'.triple) : e.name = e'.name := by
  simp only [Endpoint.triple, List.cons.injEq, and_true] at same
  obtain ⟨time, addr, port⟩ := same
  rw [Endpoint.name, Endpoint.name, numbers_eq, numbers_eq, time_congr time, UInt32.toNat_inj.mp addr,
    port]

private theorem name_lt_iff {e e' : Endpoint} (soon : e.year < 10000) (soon' : e'.year < 10000) :
    e.name < e'.name ↔ e.triple < e'.triple :=
  lt_iff_of_rank Endpoint.triple (fun _ _ => name_congr) (fun _ _ => name_lt) soon soon'

/-- The names of two connections have 39 bytes, are accepted with any serial, and are ordered as
their times, addresses and ports. -/
theorem recordName_ordered (e e' : Endpoint) (soon : e.year < 10000) (soon' : e'.year < 10000) :
    ∃ name name', e.recordName = some name ∧ e'.recordName = some name' ∧
      name.length = 39 ∧ name'.length = 39 ∧
      (∀ serial, wellFormed serialShape serial = true →
        (∃ path, pathWithSocketId name serial = some path) ∧
          ∃ path, pathWithSocketId name' serial = some path) ∧
      (name < name' ↔ e.triple < e'.triple) ∧ (e.triple ≠ e'.triple → name ≠ name') := by
  have formed := name_wellFormed e soon
  have formed' := name_wellFormed e' soon'
  have apart : e.triple ≠ e'.triple → e.name ≠ e'.name :=
    ne_of_rank Endpoint.triple (fun _ _ => name_lt) soon soon'
  refine ⟨e.name, e'.name, recordName_eq e soon, recordName_eq e' soon',
    ((wellFormed_iff _ _).mp formed).1, ((wellFormed_iff _ _).mp formed').1, ?_,
    name_lt_iff soon soon', apart⟩
  intro serial digits_
  exact ⟨pathWithSocketId_some formed digits_, pathWithSocketId_some formed' digits_⟩

/-- Two connections of one peer, a millisecond apart. -/
theorem recordName_ordered_millisecond :
    ∃ name name', Endpoint.recordName ⟨1344340805007, 0x04030201, 0x1900⟩ = some name ∧
      Endpoint.recordName ⟨1344340805008, 0x04030201, 0x0019⟩ = some name' ∧ name < name' := by
  obtain ⟨name, name', first, second, -, -, -, order, -⟩ :=
    recordName_ordered ⟨1344340805007, 0x04030201, 0x1900⟩ ⟨1344340805008, 0x04030201, 0x0019⟩
      (by decide +kernel) (by decide +kernel)
  exact ⟨name, name', first, second, order.mpr (by decide +kernel)⟩

end Spamass.App
