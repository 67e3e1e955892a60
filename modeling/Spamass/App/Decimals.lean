import Spamass.App.Search
import Spamass.FixedWidth

/-!
# Decimal numbers in names

Serials, the fields of socket names and the keys of regions are decimal numbers with
zeros in front. While a number fits into its width, the order of the bytes is the order
of the numbers.
-/
namespace Spamass.App

open Spamass.Emailz Spamass.FixedWidth

def digitByte (d : Nat) : UInt8 := UInt8.ofNat (48 + d)

/-- A number with zeros in front, in exactly this many digits. -/
def digits (width n : Nat) : Bytes := fixedWidth 10 digitByte width n

theorem digitByte_toNat {d : Nat} (digit : d < 10) : (digitByte d).toNat = 48 + d := by
  have fits : 48 + d < UInt8.size := by
    rw [UInt8.size]
    omega
  rw [digitByte, UInt8.toNat_ofNat_of_lt' fits]

theorem digitByte_ascending (d d' : Nat) (less : d < d') (digit : d' < 10) :
    digitByte d < digitByte d' := by
  rw [UInt8.lt_iff_toNat_lt, digitByte_toNat (by omega), digitByte_toNat digit]
  omega

theorem digits_length (width n : Nat) : (digits width n).length = width :=
  fixedWidth_length 10 digitByte width n

theorem isDigit_digits (width n : Nat) : ∀ b ∈ digits width n, isDigit b = true := by
  intro b member
  obtain ⟨d, digit, rfl⟩ := mem_fixedWidth 10 digitByte (by omega) member
  simp only [isDigit, Bool.and_eq_true, decide_eq_true_eq, UInt8.le_iff_toNat_le,
    digitByte_toNat digit, UInt8.reduceToNat]
  omega

private theorem passes_replicate (check : UInt8 → Bool) (text : Bytes)
    (accepts : ∀ b ∈ text, check b = true) :
    passes (List.replicate text.length check) text = true := by
  induction text with
  | nil => rfl
  | cons b text ih =>
    rw [List.length_cons, List.replicate_succ, passes, accepts b (List.mem_cons_self ..),
      Bool.true_and]
    exact ih fun later member => accepts later (List.mem_cons_of_mem _ member)

theorem passes_digits (width n : Nat) :
    passes (List.replicate width isDigit) (digits width n) = true := by
  have all := passes_replicate isDigit (digits width n) (isDigit_digits width n)
  rwa [digits_length] at all

theorem digits_lt_iff {width m n : Nat} (fits : m < 10 ^ width) (fits' : n < 10 ^ width) :
    digits width m < digits width n ↔ m < n :=
  fixedWidth_lt_iff 10 digitByte digitByte_ascending fits fits'

theorem digitChar_byte {d : Nat} (digit : d < 10) :
    UInt8.ofNat d.digitChar.toNat = digitByte d := by
  have all : ∀ d < 10, UInt8.ofNat (Nat.digitChar d).toNat = digitByte d := by decide
  exact all d digit

/-- A decimal number has all its digits, and no more. -/
theorem decimal_digits (width n : Nat) (positive : 0 < width) (fits : n < 10 ^ width) :
    List.replicate (width - (decimal n).length) 48 ++ decimal n = digits width n := by
  induction width generalizing n with
  | zero => omega
  | succ width ih =>
    rw [digits, fixedWidth, ← digits]
    rcases Nat.lt_or_ge n 10 with one | more
    · -- a single digit with zeros in front
      have single : decimal n = [digitByte n] := by
        rw [decimal, Nat.toDigits_of_lt_base one, List.map_singleton, digitChar_byte one]
      rw [single, Nat.div_eq_of_lt one, Nat.mod_eq_of_lt one, digits, fixedWidth_zero]
      rfl
    · have within : n / 10 < 10 ^ width := by
        rw [Nat.pow_succ] at fits
        omega
      have present : 0 < width := by
        rcases Nat.eq_zero_or_pos width with rfl | present
        · omega
        · exact present
      have split : decimal n = decimal (n / 10) ++ [digitByte (n % 10)] := by
        rw [decimal, Nat.toDigits_of_base_le (by omega) more, List.map_append, List.map_singleton,
          digitChar_byte (Nat.mod_lt n (by omega)), decimal]
      rw [split, List.length_append, List.length_singleton, Nat.add_sub_add_right,
        ← List.append_assoc, ih (n / 10) present within]

theorem decimal_length_le (n : Nat) {width : Nat} (positive : 0 < width) :
    (decimal n).length ≤ width ↔ n < 10 ^ width := by
  rw [decimal, List.length_map]
  exact Nat.length_toDigits_le_iff (by omega) positive

theorem decimal6_digits {n : Nat} (fits : n < 1000000) : decimal6 n = digits 6 n :=
  decimal_digits 6 n (by omega) fits

theorem decimal6_length (n : Nat) : (decimal6 n).length = 6 ↔ n < 1000000 := by
  have within : (decimal n).length ≤ 6 ↔ n < 10 ^ 6 := decimal_length_le n (by omega)
  rw [decimal6, List.length_append, List.length_replicate]
  omega

end Spamass.App
