import Spamass.App.Decimals
import Spamass.App.Inbox
import Spamass.Json.Tokeniser

/-!
# Numerals

The texts of numbers that the writer writes: those of the formats `%llu`, `%lld` and `%.17g`,
and the string values of `NSDecimalNumber`. Each is read as the number of its digits, and an
integer of up to eighteen digits comes back.
-/
namespace Spamass.Json

open Spamass.App Spamass.Emailz

/-- A number by its sign and its digits. -/
structure Numeral where
  isNegative : Bool
  whole : Bytes
  -- the digits behind the decimal point, if there is one
  fraction : Option Bytes
  -- the sign of the exponent and its digits, if there is one
  exponent : Option (Bool × Bytes)
  wholeNonempty : whole ≠ []
  wholeDigits : ∀ b ∈ whole, isDigit b = true
  leading : whole.head? = some 48 → whole = [48]
  fractionLength : ∀ digits ∈ fraction, 0 < digits.length ∧ digits.length < 65536
  fractionDigits : ∀ digits ∈ fraction, ∀ b ∈ digits, isDigit b = true
  exponentLength : ∀ e ∈ exponent, 0 < e.2.length ∧ e.2.length < 65536
  exponentDigits : ∀ e ∈ exponent, ∀ b ∈ e.2, isDigit b = true

namespace Numeral

def pointText : Option Bytes → Bytes
  | none => []
  | some digits => 46 :: digits

def exponentText : Option (Bool × Bytes) → Bytes
  | none => []
  | some (negative, digits) => 101 :: (if negative then 45 else 43) :: digits

def text (p : Numeral) : Bytes :=
  (if p.isNegative then [45] else []) ++
    (p.whole ++ (pointText p.fraction ++ exponentText p.exponent))

def exponentValue (e : Bool × Bytes) : Int16 :=
  let exponent := e.2.foldl (fun e ch => e * 10 + (Int16.ofNat ch.toNat - 48)) 0
  if e.1 then -exponent else exponent

/-- The number that is read. -/
def number (p : Numeral) : Number :=
  let mantissa := addDigits (addDigits 0 p.whole) (p.fraction.getD [])
  if 19 ≤ p.whole.length + (p.fraction.getD []).length then .decimal (.string p.text)
  else if p.fraction.isNone && p.exponent.isNone then
    if p.isNegative then .longLong (-mantissa).toInt64 else .unsignedLongLong mantissa
  else
    .decimal (.parts mantissa
      (Int16.ofInt (-(p.fraction.getD []).length) + (p.exponent.map exponentValue).getD 0)
      p.isNegative)

end Numeral

/-! ### Integers -/

private theorem decimal_one {n : Nat} (one : n < 10) : decimal n = [digitByte n] := by
  rw [decimal, Nat.toDigits_of_lt_base one, List.map_singleton, digitChar_byte one]

private theorem decimal_more {n : Nat} (more : 10 ≤ n) :
    decimal n = decimal (n / 10) ++ [digitByte (n % 10)] := by
  rw [decimal, Nat.toDigits_of_base_le (by omega) more, List.map_append, List.map_singleton,
    digitChar_byte (Nat.mod_lt n (by omega)), decimal]

private theorem decimal_nonempty (n : Nat) : decimal n ≠ [] := by
  rcases Nat.lt_or_ge n 10 with one | more
  · rw [decimal_one one]
    exact List.cons_ne_nil _ _
  · rw [decimal_more more]
    exact List.append_ne_nil_of_right_ne_nil _ (List.cons_ne_nil _ _)

/-- Zero is the only number whose digits begin with a zero. -/
private theorem decimal_leading (n : Nat) (zero : (decimal n).head? = some 48) : n = 0 := by
  induction n using Nat.strongRecOn with
  | ind n ih =>
    rcases Nat.lt_or_ge n 10 with one | more
    · rw [decimal_one one, List.head?_cons] at zero
      have value := congrArg UInt8.toNat (Option.some.inj zero)
      rw [digitByte_toNat one] at value
      have small : 48 + n = 48 := value
      omega
    · rw [decimal_more more, List.head?_append_of_ne_nil _ (decimal_nonempty _)] at zero
      have zero_ := ih (n / 10) (by omega) zero
      omega

/-- The format of an integer. -/
def Numeral.ofInt (i : Int) : Numeral where
  isNegative := i < 0
  whole := decimal i.natAbs
  fraction := none
  exponent := none
  wholeNonempty := decimal_nonempty _
  wholeDigits := isDigit_decimal _
  leading zero := by
    rw [decimal_leading _ zero]
    rfl
  fractionLength _ absent := absurd absent (Option.not_mem_none _)
  fractionDigits _ absent := absurd absent (Option.not_mem_none _)
  exponentLength _ absent := absurd absent (Option.not_mem_none _)
  exponentDigits _ absent := absurd absent (Option.not_mem_none _)

private theorem addDigits_number (m : Nat) (digits : Bytes) (all : ∀ b ∈ digits, isDigit b = true) :
    addDigits (UInt64.ofNat m) digits =
      UInt64.ofNat (digits.foldl (fun n b => 10 * n + digitValue b) m) := by
  induction digits generalizing m with
  | nil => rfl
  | cons b digits ih =>
    have digit := all b (List.mem_cons_self ..)
    simp only [isDigit, Bool.and_eq_true, decide_eq_true_eq] at digit
    have low : 48 ≤ b.toNat := UInt8.le_iff_toNat_le.mp digit.1
    have next : UInt64.ofNat m * 10 + (b.toUInt64 - 48) = UInt64.ofNat (10 * m + digitValue b) := by
      rw [digitValue, UInt64.ofNat_add, UInt64.ofNat_mul, UInt64.ofNat_sub low,
        UInt64.ofNat_uInt8ToNat, UInt64.mul_comm]
      rfl
    rw [addDigits, List.foldl_cons, next, List.foldl_cons, ← ih _ fun later member =>
      all later (List.mem_cons_of_mem _ member), addDigits]

private theorem addDigits_decimal (n : Nat) : addDigits 0 (decimal n) = UInt64.ofNat n := by
  have value := addDigits_number 0 (decimal n) (isDigit_decimal n)
  rwa [number_decimal] at value

/-- The number as an integer, if it is one of the classes of integers. -/
def Number.integer : Number → Option Int
  | .unsignedLongLong n => some n.toNat
  | .longLong n => some n.toInt
  | .decimal _ => none

theorem number_ofInt (i : Int) (small : i.natAbs < 10 ^ 18) :
    (Numeral.ofInt i).number.integer = some i := by
  -- from nineteen digits on the number is kept as its text
  have short : ¬ 19 ≤ (decimal i.natAbs).length + ([] : Bytes).length := by
    have length := (decimal_length_le i.natAbs (by decide : 0 < 18)).mpr small
    rw [List.length_nil]
    omega
  have mantissa : addDigits (addDigits 0 (decimal i.natAbs)) [] = UInt64.ofNat i.natAbs :=
    addDigits_decimal i.natAbs
  simp only [Numeral.number, Numeral.ofInt, Option.getD_none, mantissa, if_neg short,
    Option.isNone_none, Bool.and_self, if_true, decide_eq_true_eq]
  by_cases negative : i < 0
  · have value := Int64.toInt_neg_ofNat_of_le (n := i.natAbs) (by omega)
    rw [if_pos negative, Number.integer, UInt64.toInt64_neg, UInt64.toInt64_ofNat', value]
    exact congrArg some (by omega)
  · have fits : i.natAbs < UInt64.size := by
      rw [UInt64.size]
      omega
    rw [if_neg negative, Number.integer, UInt64.toNat_ofNat_of_lt' fits]
    exact congrArg some (by omega)

/-! ### Reading -/

/-- No part of a number begins with this byte. -/
def delimits (b : UInt8) : Bool := !(isDigit b || b == 46 || b == 101 || b == 69)

/-- The end of a number can be seen. -/
def delimited (text : Bytes) : Bool := text.head?.any delimits

private theorem digitRun_digits {digits : Bytes} (all : ∀ b ∈ digits, isDigit b = true) {b : UInt8}
    (stop : isDigit b = false) (rest : Bytes) :
    digitRun (digits ++ b :: rest) = .found digits (b :: rest) := by
  have behind : (digits ++ b :: rest).dropWhile isDigit = b :: rest := by
    rw [List.dropWhile_append_of_pos all, List.dropWhile_cons_of_neg (by simp [stop])]
  have front : (digits ++ b :: rest).takeWhile isDigit = digits := by
    rw [List.takeWhile_append_of_pos all, List.takeWhile_cons_of_neg (by simp [stop]),
      List.append_nil]
  rw [digitRun, behind]
  dsimp only
  rw [front]

namespace Numeral

variable (p : Numeral) {b : UInt8} (rest : Bytes)

private theorem integerPart_whole (stop : isDigit b = false) :
    integerPart (p.whole ++ b :: rest) = .found p.whole (b :: rest) := by
  have run := digitRun_digits p.wholeDigits stop rest
  have leading := p.leading
  cases whole : p.whole with
  | nil => exact absurd whole p.wholeNonempty
  | cons ch more =>
    rw [whole] at run leading
    by_cases zero : ch = 48
    · obtain rfl := zero
      obtain rfl := (List.cons.inj (leading rfl)).2
      simp only [integerPart, List.singleton_append, stop, beq_self_eq_true, if_true,
        Bool.false_eq_true, if_false]
    · rw [← run, List.cons_append, integerPart.eq_def]
      simp only [beq_iff_eq, zero, if_false]

/-- What stands behind the digits is neither a digit nor a decimal point. -/
private theorem exponent_begins (stop : delimits b = true) :
    ∃ ch more, exponentText p.exponent ++ b :: rest = ch :: more ∧
      isDigit ch = false ∧ ch ≠ 46 := by
  simp only [delimits, Bool.not_eq_true', Bool.or_eq_false_iff, beq_eq_false_iff_ne] at stop
  cases p.exponent with
  | none => exact ⟨b, rest, rfl, stop.1.1.1, stop.1.1.2⟩
  | some e => exact ⟨101, _, rfl, by decide, by decide⟩

private theorem fractionPart_point {ch : UInt8} (digit : isDigit ch = false) (point : ch ≠ 46) :
    fractionPart (pointText p.fraction ++ ch :: rest) = .found p.fraction (ch :: rest) := by
  have length := p.fractionLength
  have digits_ := p.fractionDigits
  cases fraction : p.fraction with
  | none => rw [pointText, List.nil_append, fractionPart, if_neg (by simp [point])]
  | some digits =>
    rw [fraction] at length digits_
    have run := digitRun_digits (digits_ digits rfl) digit rest
    -- the exponent is a short
    have counted : Int16.ofInt (-digits.length) ≠ 0 := by
      intro zero
      have value := congrArg Int16.toInt zero
      rw [Int16.toInt_ofInt] at value
      have whole := Int.dvd_of_bmod_eq_zero value
      have bounds := length digits rfl
      rw [Int16.size] at whole
      omega
    rw [pointText, List.cons_append, fractionPart, if_pos (beq_self_eq_true _), run, Scan.bind,
      if_neg counted]

private theorem exponentPart_text (stop : delimits b = true) :
    exponentPart (exponentText p.exponent ++ b :: rest) =
      .found (p.exponent.map exponentValue) (b :: rest) := by
  simp only [delimits, Bool.not_eq_true', Bool.or_eq_false_iff, beq_eq_false_iff_ne] at stop
  have length := p.exponentLength
  have digits_ := p.exponentDigits
  cases exponent : p.exponent with
  | none => rw [exponentText, List.nil_append, exponentPart, if_neg (by simp [stop])]; rfl
  | some e =>
    obtain ⟨negative, digits⟩ := e
    rw [exponent] at length digits_
    have run := digitRun_digits (digits_ _ rfl) stop.1.1.1 rest
    have counted : Int16.ofNat digits.length ≠ 0 := by
      intro zero
      have value := congrArg Int16.toInt zero
      rw [← Int16.ofInt_eq_ofNat, Int16.toInt_ofInt] at value
      have whole := Int.dvd_of_bmod_eq_zero value
      have bounds := length _ rfl
      rw [Int16.size] at whole
      dsimp only at bounds
      omega
    have sign : exponentSign ((if negative then 45 else 43) :: (digits ++ b :: rest)) =
        .found negative (digits ++ b :: rest) := by
      cases negative <;> rfl
    rw [exponentText, List.cons_append, List.cons_append, exponentPart, if_pos (by decide), sign,
      Scan.bind, run, Scan.bind, if_neg counted]
    rfl

private theorem numberOf_text :
    numberOf p.text p.isNegative p.whole p.fraction (p.exponent.map exponentValue) =
      .ok p.number := by
  have length : p.whole.length + (p.fraction.getD []).length ≠ 0 := by
    have length := List.length_pos_of_ne_nil p.wholeNonempty
    omega
  unfold numberOf number
  dsimp only
  rw [decide_eq_false length, Bool.false_and, if_neg Bool.false_ne_true, Option.isNone_map]
  split
  · rfl
  · split
    · cases p.isNegative <;> rfl
    · rfl

theorem text_begins : ∃ ch more, p.text = ch :: more ∧ (isDigit ch || ch == 45) = true := by
  rw [text]
  cases p.isNegative with
  | true => exact ⟨45, _, rfl, rfl⟩
  | false =>
    cases whole : p.whole with
    | nil => exact absurd whole p.wholeNonempty
    | cons ch more =>
      have digit := p.wholeDigits ch (whole ▸ List.mem_cons_self ..)
      exact ⟨ch, _, rfl, by rw [digit, Bool.true_or]⟩

/-- A plain number is read, and ends in front of its delimiter. -/
theorem getNumberToken_text (stop : delimits b = true) :
    getNumberToken (p.text ++ b :: rest) = .found p.number (b :: rest) := by
  have front : (p.text ++ b :: rest).take ((p.text ++ b :: rest).length - (b :: rest).length) =
      p.text := by
    rw [List.length_append, Nat.add_sub_cancel, List.take_left]
  obtain ⟨ch, more, begins, digit, point⟩ := p.exponent_begins rest stop
  have sign : ((p.text ++ b :: rest).headD 0 == 45) = p.isNegative ∧
      (if p.isNegative then (p.text ++ b :: rest).tail else p.text ++ b :: rest) =
        p.whole ++ (pointText p.fraction ++ ch :: more) := by
    rw [text, ← begins]
    cases p.isNegative with
    | true =>
      rw [if_pos rfl, if_pos rfl]
      simp only [List.cons_append, List.append_assoc, List.headD_cons, List.tail_cons]
      exact ⟨rfl, rfl⟩
    | false =>
      rw [if_neg Bool.false_ne_true, if_neg Bool.false_ne_true, List.nil_append]
      simp only [List.append_assoc, and_true]
      cases whole : p.whole with
      | nil => exact absurd whole p.wholeNonempty
      | cons first others =>
        rw [List.cons_append, List.headD_cons, beq_eq_false_iff_ne]
        rintro rfl
        have digit : isDigit 45 = true := p.wholeDigits 45 (whole ▸ List.mem_cons_self ..)
        exact absurd digit (by decide)
  -- neither the decimal point nor what follows it is a digit
  have whole : integerPart (p.whole ++ (pointText p.fraction ++ ch :: more)) =
      .found p.whole (pointText p.fraction ++ ch :: more) := by
    cases fraction : p.fraction with
    | none => exact p.integerPart_whole more digit
    | some digits => exact p.integerPart_whole _ rfl
  unfold getNumberToken
  dsimp only
  rw [sign.1, sign.2, whole, Scan.bind, p.fractionPart_point more digit point, Scan.bind, ← begins,
    p.exponentPart_text rest stop, Scan.bind, front, numberOf_text]

end Numeral

end Spamass.Json
