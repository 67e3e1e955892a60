import Spamass.Emailz.Socket

/-!
# NSString

A string of the application is its UTF-8 bytes. The character sets it splits and
trims with are given by the UTF-8 sequences of their members; comparing and searching
are literal.
-/
namespace Spamass.App

open Spamass.Emailz

/-- `need` more bytes of a character, the first of them between `lo` and `hi`. -/
def utf8From : Nat → UInt8 → UInt8 → Bytes → Bool
  | 0, _, _, [] => true
  | _ + 1, _, _, [] => false
  | 0, _, _, b :: rest =>
    if b < 0x80 then utf8From 0 0x80 0xBF rest
    else if 0xC2 ≤ b && b ≤ 0xDF then utf8From 1 0x80 0xBF rest
    else if b == 0xE0 then utf8From 2 0xA0 0xBF rest
    else if b == 0xED then utf8From 2 0x80 0x9F rest
    else if 0xE1 ≤ b && b ≤ 0xEF then utf8From 2 0x80 0xBF rest
    else if b == 0xF0 then utf8From 3 0x90 0xBF rest
    else if 0xF1 ≤ b && b ≤ 0xF3 then utf8From 3 0x80 0xBF rest
    else if b == 0xF4 then utf8From 3 0x80 0x8F rest
    else false
  | need + 1, lo, hi, b :: rest => lo ≤ b && b ≤ hi && utf8From need 0x80 0xBF rest

def utf8Valid (bytes : Bytes) : Bool := utf8From 0 0x80 0xBF bytes

/-- `stringWithCString:encoding:` and `initWithData:encoding:`, nil for bytes that are not UTF-8. -/
def stringWithUtf8 (bytes : Bytes) : Option Bytes := if utf8Valid bytes then some bytes else none

theorem stringWithUtf8_some {bytes string : Bytes} (made : stringWithUtf8 bytes = some string) :
    utf8Valid bytes = true ∧ bytes = string := by
  unfold stringWithUtf8 at made
  split at made
  next valid => exact ⟨valid, Option.some.inj made⟩
  · cases made

def isContinuation (b : UInt8) : Bool := 0x80 ≤ b && b ≤ 0xBF

/-- `length`, in UTF-16 units. -/
def utf16Length (string : Bytes) : Nat :=
  string.foldr (fun b n => (if isContinuation b then 0 else if 0xF0 ≤ b then 2 else 1) + n) 0

theorem utf16Length_cons (b : UInt8) (text : Bytes) :
    utf16Length (b :: text) =
      (if isContinuation b then 0 else if 0xF0 ≤ b then 2 else 1) + utf16Length text := rfl

theorem utf16Length_append (text text' : Bytes) :
    utf16Length (text ++ text') = utf16Length text + utf16Length text' := by
  induction text with
  | nil => simp [utf16Length]
  | cons b text ih =>
    rw [List.cons_append, utf16Length_cons, utf16Length_cons, ih]
    omega

def characters : Bytes → List Bytes
  | [] => []
  | b :: rest =>
    match rest, characters rest with
    | next :: _, c :: cs => if isContinuation next then (b :: c) :: cs else [b] :: c :: cs
    | _, cs => [b] :: cs

/-- `whitespaceCharacterSet`: the tab and the space separators. -/
def whitespace : List Bytes :=
  [[0x09], [0x20], [0xC2, 0xA0], [0xE1, 0x9A, 0x80], [0xE2, 0x80, 0x80], [0xE2, 0x80, 0x81],
    [0xE2, 0x80, 0x82], [0xE2, 0x80, 0x83], [0xE2, 0x80, 0x84], [0xE2, 0x80, 0x85],
    [0xE2, 0x80, 0x86], [0xE2, 0x80, 0x87], [0xE2, 0x80, 0x88], [0xE2, 0x80, 0x89],
    [0xE2, 0x80, 0x8A], [0xE2, 0x80, 0xAF], [0xE2, 0x81, 0x9F], [0xE3, 0x80, 0x80]]

/-- `whitespaceAndNewlineCharacterSet`. -/
def whitespaceAndNewline : List Bytes :=
  whitespace ++ [[0x0A], [0x0B], [0x0C], [0x0D], [0xC2, 0x85], [0xE2, 0x80, 0xA8],
    [0xE2, 0x80, 0xA9]]

/-- `stringByTrimmingCharactersInSet:`. -/
def trimming (set : List Bytes) (string : Bytes) : Bytes :=
  ((((characters string).dropWhile set.contains).reverse.dropWhile set.contains).reverse).flatten

/-- The first character is in the set: `rangeOfCharacterFromSet:` finds location 0. -/
def startsIn (set : List Bytes) (string : Bytes) : Bool :=
  match characters string with
  | [] => false
  | c :: _ => set.contains c

/-- `hasPrefix:`; no string has the empty prefix. -/
def hasPrefix (string text : Bytes) : Bool := !text.isEmpty && text.isPrefixOf string

/-- `mEmailSplitSet`. -/
def emailSplitSet (b : UInt8) : Bool := (ascii " <>,\r\n").contains b

/-- `componentsSeparatedByCharactersInSet:` for a set of ASCII characters. -/
def componentsInSet (set : UInt8 → Bool) (string : Bytes) : List Bytes := string.splitOnP set

theorem components_cons {set : UInt8 → Bool} {part : Bytes} (mark : UInt8) (rest : Bytes)
    (apart : ∀ b ∈ part, set b = false) (is_mark : set mark = true) :
    componentsInSet set (part ++ mark :: rest) = part :: componentsInSet set rest := by
  rw [componentsInSet, List.splitOnP_append_cons_of_forall_mem apart mark is_mark]
  rfl

theorem components_one {set : UInt8 → Bool} {part : Bytes} (apart : ∀ b ∈ part, set b = false) :
    componentsInSet set part = [part] := List.splitOnP_eq_singleton apart

def decimal (n : Nat) : Bytes := (Nat.toDigits 10 n).map fun c => UInt8.ofNat c.toNat

/-- The format `%06lu`. -/
def decimal6 (n : Nat) : Bytes := List.replicate (6 - (decimal n).length) 48 ++ decimal n

example : trimming whitespaceAndNewline (ascii " Hi there\r\n") = ascii "Hi there" := by decide
example : componentsInSet emailSplitSet (ascii "<a@b>\r\n") =
    [[], ascii "a@b", [], [], []] := by decide
example : decimal6 42 = ascii "000042" := by decide

end Spamass.App
