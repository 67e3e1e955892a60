import Mathlib.Data.List.TakeWhile

/-!
# Chunked transfers

A body goes over the wire in chunks, each behind a line with its size in hexadecimal. The
empty chunk ends it. What was cut into chunks is read back whatever comes behind it, so
that one body may follow another on the same stream.
-/
namespace Spamass.Chunked

def newline : List UInt8 := [13, 10]

/-! ### Sizes -/

/-- A number in hexadecimal, without zeros in front. -/
def hexText (n : Nat) : List UInt8 := (Nat.toDigits 16 n).map fun c => UInt8.ofNat c.toNat

/-- The value of a hexadecimal digit, sixteen for any other byte. -/
def hexValue (b : UInt8) : Nat :=
  if 48 ≤ b && b ≤ 57 then b.toNat - 48
  else if 97 ≤ b && b ≤ 102 then b.toNat - 87
  else if 65 ≤ b && b ≤ 70 then b.toNat - 55
  else 16

def isHex (b : UInt8) : Bool := hexValue b < 16

def hexNumber (text : List UInt8) : Nat := text.foldl (fun n b => n * 16 + hexValue b) 0

theorem hexValue_digitChar {d : Nat} (digit : d < 16) :
    hexValue (UInt8.ofNat d.digitChar.toNat) = d := by
  have all : ∀ d < 16, hexValue (UInt8.ofNat (Nat.digitChar d).toNat) = d := by decide
  exact all d digit

theorem hexText_small {n : Nat} (one : n < 16) :
    hexText n = [UInt8.ofNat n.digitChar.toNat] := by
  rw [hexText, Nat.toDigits_of_lt_base one, List.map_singleton]

theorem hexText_large {n : Nat} (more : 16 ≤ n) :
    hexText n = hexText (n / 16) ++ [UInt8.ofNat (n % 16).digitChar.toNat] := by
  rw [hexText, Nat.toDigits_of_base_le (by omega) more, List.map_append, List.map_singleton, hexText]

/-- Every digit of a size is one, and the digits have the value of the size. -/
theorem hexText_reads (n : Nat) : (∀ b ∈ hexText n, isHex b = true) ∧ hexNumber (hexText n) = n := by
  induction n using Nat.strongRecOn with
  | _ n ih =>
    rcases Nat.lt_or_ge n 16 with one | more
    · have value := hexValue_digitChar one
      rw [hexText_small one]
      refine ⟨?_, by simp [hexNumber, value]⟩
      intro b member
      rw [List.mem_singleton.mp member, isHex, value]
      exact decide_eq_true one
    · obtain ⟨digits, number⟩ := ih (n / 16) (by omega)
      have last := Nat.mod_lt n (show 0 < 16 by omega)
      have value := hexValue_digitChar last
      rw [hexText_large more]
      refine ⟨?_, ?_⟩
      · intro b member
        rcases List.mem_append.mp member with front | end_
        · exact digits b front
        · rw [List.mem_singleton.mp end_, isHex, value]
          exact decide_eq_true last
      · have split : hexNumber (hexText (n / 16) ++ [UInt8.ofNat (n % 16).digitChar.toNat]) =
            hexNumber (hexText (n / 16)) * 16 + n % 16 := by
          rw [hexNumber, List.foldl_append, List.foldl_cons, List.foldl_nil, value, hexNumber]
        rw [split, number]
        omega

theorem hexText_ne_nil (n : Nat) : hexText n ≠ [] := by
  rw [hexText, ne_eq, List.map_eq_nil_iff]
  exact Nat.toDigits_ne_nil

/-! ### Chunks -/

/-- The line with the size of a chunk. -/
def sizeLine (n : Nat) : List UInt8 := hexText n ++ newline

def chunk (data : List UInt8) : List UInt8 := sizeLine data.length ++ data ++ newline

/-- The first chunk of a stream, and what comes behind it. -/
def takeChunk (s : List UInt8) : Option (List UInt8 × List UInt8) :=
  let size := s.takeWhile isHex
  match size, s.dropWhile isHex with
  | _ :: _, 13 :: 10 :: rest =>
    match rest.drop (hexNumber size) with
    | 13 :: 10 :: later => some (rest.take (hexNumber size), later)
    | _ => none
  | _, _ => none

theorem takeChunk_chunk (data rest : List UInt8) :
    takeChunk (chunk data ++ rest) = some (data, rest) := by
  obtain ⟨digits, number⟩ := hexText_reads data.length
  obtain ⟨first, others, text⟩ := List.exists_cons_of_ne_nil (hexText_ne_nil data.length)
  have whole : chunk data ++ rest =
      hexText data.length ++ 13 :: 10 :: (data ++ 13 :: 10 :: rest) := by
    simp [chunk, sizeLine, newline]
  have size : (chunk data ++ rest).takeWhile isHex = hexText data.length := by
    rw [whole, List.takeWhile_append_of_pos digits, List.takeWhile_cons_of_neg (by decide),
      List.append_nil]
  have behind : (chunk data ++ rest).dropWhile isHex =
      13 :: 10 :: (data ++ 13 :: 10 :: rest) := by
    rw [whole, List.dropWhile_append_of_pos digits, List.dropWhile_cons_of_neg (by decide)]
  rw [takeChunk, size, behind]
  simp only [text]
  rw [← text, number, List.drop_left, List.take_left]
  rfl

/-! ### Bodies -/

/-- The empty chunk behind the others. -/
def body (chunks : List (List UInt8)) : List UInt8 := chunks.flatMap chunk ++ chunk []

def decodeWithin : Nat → List UInt8 → Option (List UInt8 × List UInt8)
  | 0, _ => none
  | fuel + 1, s =>
    match takeChunk s with
    | none => none
    | some ([], rest) => some ([], rest)
    | some (data, rest) => (decodeWithin fuel rest).map fun (more, left) => (data ++ more, left)

/-- The body at the front of a stream, and what comes behind it. -/
def decode (s : List UInt8) : Option (List UInt8 × List UInt8) := decodeWithin (s.length + 1) s

theorem length_lt_chunk (data rest : List UInt8) : rest.length < (chunk data ++ rest).length := by
  rw [List.length_append, chunk, newline, List.length_append]
  simp only [List.length_cons, List.length_nil]
  omega

theorem decodeWithin_body (fuel : Nat) (chunks : List (List UInt8)) (rest : List UInt8)
    (filled : ∀ data ∈ chunks, data ≠ []) (enough : (body chunks ++ rest).length < fuel) :
    decodeWithin fuel (body chunks ++ rest) = some (chunks.flatten, rest) := by
  induction chunks generalizing fuel with
  | nil =>
    obtain ⟨fuel, rfl⟩ : ∃ n, fuel = n + 1 := ⟨fuel - 1, by omega⟩
    rw [decodeWithin, body, List.flatMap_nil, List.nil_append, takeChunk_chunk]
    rfl
  | cons data chunks ih =>
    obtain ⟨fuel, rfl⟩ : ∃ n, fuel = n + 1 := ⟨fuel - 1, by omega⟩
    obtain ⟨b, others, split⟩ := List.exists_cons_of_ne_nil (filled data (List.mem_cons_self ..))
    have whole : body (data :: chunks) ++ rest = chunk data ++ (body chunks ++ rest) := by
      rw [body, List.flatMap_cons, body, List.append_assoc, List.append_assoc, List.append_assoc]
    have shorter := length_lt_chunk data (body chunks ++ rest)
    rw [whole] at enough
    have later := ih fuel (fun data member => filled data (List.mem_cons_of_mem _ member))
      (by omega)
    rw [whole, decodeWithin, takeChunk_chunk]
    simp only [split]
    rw [later, ← split]
    rfl

/-- Chunks are put together again, and end in front of what comes behind them. -/
theorem decode_body (chunks : List (List UInt8)) (rest : List UInt8)
    (filled : ∀ data ∈ chunks, data ≠ []) :
    decode (body chunks ++ rest) = some (chunks.flatten, rest) :=
  decodeWithin_body _ chunks rest filled (Nat.lt_succ_self _)

end Spamass.Chunked
