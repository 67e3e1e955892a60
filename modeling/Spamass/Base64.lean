import Mathlib.Data.List.Basic

/-!
# Base 64

Bytes as sextets and back, and the text over an alphabet whose last group is filled
with a padding character.
-/
namespace Spamass.Base64

/-- The bytes in groups of three, each of them four sextets. -/
def sextets : List UInt8 → List UInt8
  | a :: b :: c :: rest =>
    ((a &&& 0xFC) >>> 2) :: (((a &&& 0x03) <<< 4) ||| ((b &&& 0xF0) >>> 4)) ::
      (((b &&& 0x0F) <<< 2) ||| ((c &&& 0xC0) >>> 6)) :: (c &&& 0x3F) :: sextets rest
  | [a, b] =>
    [(a &&& 0xFC) >>> 2, ((a &&& 0x03) <<< 4) ||| ((b &&& 0xF0) >>> 4), (b &&& 0x0F) <<< 2]
  | [a] => [(a &&& 0xFC) >>> 2, (a &&& 0x03) <<< 4]
  | [] => []

/-- The bytes a list of sextets has all bits of. -/
def bytes : List UInt8 → List UInt8
  | a :: b :: c :: d :: rest =>
    ((a <<< 2) ||| (b >>> 4)) :: ((b <<< 4) ||| (c >>> 2)) :: ((c <<< 6) ||| d) :: bytes rest
  | [a, b, c] => [(a <<< 2) ||| (b >>> 4), (b <<< 4) ||| (c >>> 2)]
  | [a, b] => [(a <<< 2) ||| (b >>> 4)]
  | _ => []

/-- Characters for the sextets, and one that stands for none. -/
structure Alphabet where
  digit : UInt8 → UInt8
  value : UInt8 → Option UInt8
  pad : UInt8
  value_digit : ∀ v < 64, value (digit v) = some v
  value_pad : value pad = none

/-- The text of some bytes: their sextets, filled up to a multiple of four characters. -/
def Alphabet.text (A : Alphabet) (m : List UInt8) : List UInt8 :=
  (sextets m).map A.digit ++ List.replicate ((3 - m.length % 3) % 3) A.pad

/-! ### Single bytes -/

theorem every_byte {p : UInt8 → Prop} (all : ∀ n : Fin 256, p (UInt8.ofFin n)) (a : UInt8) : p a :=
  all a.toFin

/-- A byte is in two sextets, and nothing of it gets in the way of the bytes beside it. -/
theorem high_bits (a : UInt8) :
    (((a &&& 0xFC) >>> 2) <<< 2) ||| (((a &&& 0x03) <<< 4) >>> 4) = a ∧
      ((a &&& 0x03) <<< 4) <<< 4 = 0 ∧ (a &&& 0xFC) >>> 2 < 64 ∧ (a &&& 0x03) <<< 4 < 64 := by
  revert a
  apply every_byte
  decide +kernel

theorem middle_bits (a : UInt8) :
    (((a &&& 0xF0) >>> 4) <<< 4) ||| (((a &&& 0x0F) <<< 2) >>> 2) = a ∧
      ((a &&& 0xF0) >>> 4) >>> 4 = 0 ∧ ((a &&& 0x0F) <<< 2) <<< 6 = 0 ∧
      (a &&& 0xF0) >>> 4 < 64 ∧ (a &&& 0x0F) <<< 2 < 64 := by
  revert a
  apply every_byte
  decide +kernel

theorem low_bits (a : UInt8) :
    (((a &&& 0xC0) >>> 6) <<< 6) ||| (a &&& 0x3F) = a ∧ ((a &&& 0xC0) >>> 6) >>> 2 = 0 ∧
      (a &&& 0xC0) >>> 6 < 64 ∧ a &&& 0x3F < 64 := by
  revert a
  apply every_byte
  decide +kernel

theorem or_small {x y : UInt8} (left : x < 64) (right : y < 64) : x ||| y < 64 := by
  rw [UInt8.lt_iff_toNat_lt] at *
  rw [UInt8.toNat_or]
  exact Nat.or_lt_two_pow (n := 6) left right

theorem first_byte (a b : UInt8) :
    (((a &&& 0xFC) >>> 2) <<< 2) |||
      ((((a &&& 0x03) <<< 4) ||| ((b &&& 0xF0) >>> 4)) >>> 4) = a := by
  rw [UInt8.shiftRight_or, (middle_bits b).2.1, UInt8.or_zero, (high_bits a).1]

theorem second_byte (a b c : UInt8) :
    ((((a &&& 0x03) <<< 4) ||| ((b &&& 0xF0) >>> 4)) <<< 4) |||
      ((((b &&& 0x0F) <<< 2) ||| ((c &&& 0xC0) >>> 6)) >>> 2) = b := by
  rw [UInt8.shiftLeft_or, UInt8.shiftRight_or, (high_bits a).2.1, (low_bits c).2.1,
    UInt8.zero_or, UInt8.or_zero, (middle_bits b).1]

theorem third_byte (b c : UInt8) :
    ((((b &&& 0x0F) <<< 2) ||| ((c &&& 0xC0) >>> 6)) <<< 6) ||| (c &&& 0x3F) = c := by
  rw [UInt8.shiftLeft_or, (middle_bits b).2.2.1, UInt8.zero_or, (low_bits c).1]

/-! ### Round trips -/

theorem bytes_sextets (m : List UInt8) : bytes (sextets m) = m := by
  fun_induction sextets m with
  | case1 a b c rest ih => rw [bytes, first_byte, second_byte, third_byte, ih]
  | case2 a b =>
    rw [bytes, first_byte, UInt8.shiftLeft_or, (high_bits a).2.1, UInt8.zero_or, (middle_bits b).1]
  | case3 a => rw [bytes, (high_bits a).1]
  | case4 => rfl

theorem sextets_small (m : List UInt8) : ∀ v ∈ sextets m, v < 64 := by
  fun_induction sextets m with
  | case1 a b c rest ih =>
    simp only [List.forall_mem_cons]
    exact ⟨(high_bits a).2.2.1, or_small (high_bits a).2.2.2 (middle_bits b).2.2.2.1,
      or_small (middle_bits b).2.2.2.2 (low_bits c).2.2.1, (low_bits c).2.2.2, ih⟩
  | case2 a b =>
    simp only [List.forall_mem_cons]
    exact ⟨(high_bits a).2.2.1, or_small (high_bits a).2.2.2 (middle_bits b).2.2.2.1,
      (middle_bits b).2.2.2.2, List.forall_mem_nil _⟩
  | case3 a =>
    simp only [List.forall_mem_cons]
    exact ⟨(high_bits a).2.2.1, (high_bits a).2.2.2, List.forall_mem_nil _⟩
  | case4 => exact List.forall_mem_nil _

theorem sextets_length (m : List UInt8) :
    (sextets m).length = m.length + (m.length + 2) / 3 := by
  fun_induction sextets m with
  | case1 a b c rest ih =>
    simp only [List.length_cons, ih]
    omega
  | case2 a b => simp
  | case3 a => simp
  | case4 => rfl

theorem bytes_length (vs : List UInt8) :
    (bytes vs).length = vs.length / 4 * 3 + (vs.length % 4 - 1) := by
  fun_induction bytes vs with
  | case1 a b c d rest ih =>
    simp only [List.length_cons, ih]
    omega
  | case2 a b c => simp
  | case3 a b => simp
  | case4 vs long three two =>
    rcases vs with _ | ⟨a, _ | ⟨b, _ | ⟨c, _ | ⟨d, rest⟩⟩⟩⟩
    · rfl
    · simp
    · exact absurd rfl (two a b)
    · exact absurd rfl (three a b c)
    · exact absurd rfl (long a b c d rest)

/-- The characters of a text that stand for a sextet. -/
theorem Alphabet.text_values (A : Alphabet) (m : List UInt8) :
    (A.text m).filterMap A.value = sextets m := by
  have digits : ∀ vs : List UInt8, (∀ v ∈ vs, v < 64) →
      (vs.map A.digit).filterMap A.value = vs := by
    intro vs small
    induction vs with
    | nil => rfl
    | cons v vs ih =>
      obtain ⟨here, later⟩ := List.forall_mem_cons.mp small
      rw [List.map_cons, List.filterMap_cons_some (A.value_digit v here), ih later]
  have padding : ∀ n, (List.replicate n A.pad).filterMap A.value = [] := by
    intro n
    rw [List.filterMap_eq_nil_iff]
    intro c member
    rw [List.eq_of_mem_replicate member, A.value_pad]
  rw [Alphabet.text, List.filterMap_append, digits _ (sextets_small m), padding, List.append_nil]

/-- The text of whole groups ends in a digit. -/
theorem Alphabet.text_last (A : Alphabet) (m : List UInt8) (whole : (sextets m).length % 4 = 0) :
    A.text m = (sextets m).map A.digit := by
  rw [sextets_length] at whole
  have missing : (3 - m.length % 3) % 3 = 0 := by omega
  rw [Alphabet.text, missing, List.replicate_zero, List.append_nil]

end Spamass.Base64
