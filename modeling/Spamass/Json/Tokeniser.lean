import Spamass.App.Mail

/-!
# Tokens of JSON

`SBJsonTokeniser` over `SBJsonUTF8Stream`. A stream is given by the bytes from its index
on, so that the character at the index is the first of them. Reading on behind the last
byte fails, and the tokeniser then goes back to the front of the token.
-/
namespace Spamass.Json

open Spamass.App Spamass.Emailz

/-! ### Tokens -/

/-- What `NSDecimalNumber` is made from. -/
inductive Decimal where
  | string (text : Bytes)
  | parts (mantissa : UInt64) (exponent : Int16) (isNegative : Bool)
  deriving DecidableEq, Repr

inductive Number where
  | unsignedLongLong (n : UInt64)
  | longLong (n : Int64)
  | decimal (d : Decimal)
  deriving DecidableEq, Repr

inductive Token where
  | arrayStart
  | arrayEnd
  | objectStart
  | objectEnd
  | separator
  | keyvalSeparator
  | number (n : Number)
  | string (text : Bytes)
  | true_
  | false_
  | null
  deriving DecidableEq, Repr

/-- The `error` of the tokeniser, by its format and the arguments of it. -/
inductive TokenError where
  /-- Expected '%s' after initial '%.1s' -/
  | expected (pattern : Bytes)
  /-- Illegal escape character -/
  | illegalEscape
  /-- Broken Unicode encoding -/
  | brokenUnicode
  /-- Unescaped control character [0x%0.2X] -/
  | controlCharacter (ch : UInt8)
  /-- Invalid hex quad -/
  | invalidHexQuad
  /-- Missing low character in surrogate pair -/
  | missingLow
  /-- Invalid low character in surrogate pair -/
  | invalidLow
  /-- Invalid high character in surrogate pair -/
  | invalidHigh
  /-- Leading zero is illegal in number -/
  | leadingZero
  /-- No digits after decimal point -/
  | noFraction
  /-- No digits in exponent -/
  | noExponent
  /-- No digits after initial minus -/
  | noDigits
  /-- Leading + is illegal in number -/
  | leadingPlus
  /-- Illegal start of token [%c] -/
  | illegalStart (ch : UInt8)
  deriving DecidableEq, Repr

/-- The end of an attempt: the data ended, or an error or a result with the stream behind it. -/
inductive Scan (τ : Type) where
  | eof
  | error (e : TokenError) (rest : Bytes)
  | found (x : τ) (rest : Bytes)
  deriving DecidableEq, Repr

def Scan.map {τ τ' : Type} (f : τ → τ') : Scan τ → Scan τ'
  | .eof => .eof
  | .error e rest => .error e rest
  | .found x rest => .found (f x) rest

/-- The result goes on to the next part of a token. -/
def Scan.bind {τ τ' : Type} (scan : Scan τ) (f : τ → Bytes → Scan τ') : Scan τ' :=
  match scan with
  | .eof => .eof
  | .error e rest => .error e rest
  | .found x rest => f x rest

/-! ### Strings -/

def quote : UInt8 := 34
def backslash : UInt8 := 92

/-- `getRetainedStringFragment:` runs over this character. A byte from 0x80 on is a negative
`char`, and so is none of the control characters. -/
def inFragment (b : UInt8) : Bool := !(b == quote || b == backslash || b < 0x20)

def hexDigit (b : UInt8) : Option Nat :=
  if 48 ≤ b && b ≤ 57 then some (b.toNat - 48)
  else if 97 ≤ b && b ≤ 102 then some (10 + b.toNat - 97)
  else if 65 ≤ b && b ≤ 70 then some (10 + b.toNat - 65)
  else none

/-- The loop of `decodeHexQuad:`. `getNextUnichar:` leaves `c` as it is at the end of the data,
which nobody checks. -/
def hexQuadLoop : Nat → UInt8 → Nat → Bytes → Option Nat × Bytes
  | 0, _, tmp, rest => (some tmp, rest)
  | n + 1, c, tmp, rest =>
    let rest := rest.tail
    let c := rest.headD c
    match hexDigit c with
    | none => (none, rest)
    | some d => hexQuadLoop n c (tmp * 16 + d) rest

/-- `decodeHexQuad:`, with the stream in front of the quad and then at its last digit. There
always is a first digit, so that the value `c` starts with does not matter. -/
def decodeHexQuad (rest : Bytes) : Option Nat × Bytes := hexQuadLoop 4 0 0 rest

def decodeEscape (ch : UInt8) : Option UInt8 :=
  if ch == backslash || ch == 47 || ch == quote then some ch
  else if ch == 98 then some 8
  else if ch == 110 then some 10
  else if ch == 114 then some 13
  else if ch == 116 then some 9
  else if ch == 102 then some 12
  else none

def isSurrogateLow (c : Nat) : Bool := 0xDC00 ≤ c && c ≤ 0xDFFF
def isSurrogateHigh (c : Nat) : Bool := 0xD800 ≤ c && c ≤ 0xDBFF
def isIllegalSurrogateHigh (c : Nat) : Bool := 0xD800 ≤ c && c ≤ 0xDFFF

/-- The UTF-8 form of a character. -/
def utf8Of (c : Nat) : Bytes :=
  if c < 0x80 then [UInt8.ofNat c]
  else if c < 0x800 then [UInt8.ofNat (0xC0 + c / 64), UInt8.ofNat (0x80 + c % 64)]
  else if c < 0x10000 then
    [UInt8.ofNat (0xE0 + c / 4096), UInt8.ofNat (0x80 + c / 64 % 64), UInt8.ofNat (0x80 + c % 64)]
  else
    [UInt8.ofNat (0xF0 + c / 262144), UInt8.ofNat (0x80 + c / 4096 % 64),
      UInt8.ofNat (0x80 + c / 64 % 64), UInt8.ofNat (0x80 + c % 64)]

/-- The character of a surrogate pair. -/
def surrogatePair (hi lo : Nat) : Nat := 0x10000 + (hi - 0xD800) * 0x400 + (lo - 0xDC00)

/-- What is made of the second quad of a pair. -/
def lowQuad (hi : Nat) : Option Nat × Bytes → Scan Bytes
  | (none, rest) => .error .missingLow rest
  | (some lo, rest) =>
    if isSurrogateLow lo then .found (utf8Of (surrogatePair hi lo)) rest
    else .error .invalidLow rest

/-- A high surrogate wants a low one. The six characters asked for begin with the last digit
of the high one, so that the last digit of the low one may be missing. -/
def lowSurrogate (hi : Nat) (rest : Bytes) : Scan Bytes :=
  if rest.length < 6 then .eof
  else
    let ch := rest.tail
    let lo := ch.tail
    if ch.headD 0 ≠ backslash ∨ lo.headD 0 ≠ 117 then .error .missingLow lo
    else lowQuad hi (decodeHexQuad lo)

/-- The escape `\\u`, with the stream at the `u` and then at the last character of the escape. -/
def hexEscape (rest : Bytes) : Scan Bytes :=
  if rest.length < 5 then .eof
  else
    match decodeHexQuad rest with
    | (none, rest) => .error .invalidHexQuad rest
    | (some hi, rest) =>
      if isSurrogateHigh hi then lowSurrogate hi rest
      else if isIllegalSurrogateHigh hi then .error .invalidHigh rest
      else .found (utf8Of hi) rest

/-- What is appended for an escape, with the stream behind the backslash. -/
def escape : Bytes → Scan Bytes
  | [] => .eof
  | ch :: rest =>
    if ch == 117 then hexEscape (ch :: rest)
    else
      match decodeEscape ch with
      | none => .error .illegalEscape (ch :: rest)
      | some decoded => .found [decoded] (ch :: rest)

/-- The loop of `getStringToken:`, with the stream at the character it skips first. `acc` is
empty as long as it is nil. -/
def stringLoop : Nat → Bytes → Bytes → Scan Bytes
  | 0, _, _ => .eof
  | fuel + 1, acc, rest =>
    match rest.tail.dropWhile inFragment with
    | [] => .eof
    | ch :: after =>
      match stringWithUtf8 (rest.tail.takeWhile inFragment) with
      | none => .error .brokenUnicode (ch :: after)
      | some string =>
        if ch < 0x20 then .error (.controlCharacter ch) (ch :: after)
        else if ch == quote then .found (acc ++ string) after
        else (escape after).bind fun decoded rest => stringLoop fuel (acc ++ string ++ decoded) rest

/-- `getStringToken:`, with the stream at the opening quote. -/
def getStringToken (rest : Bytes) : Scan Bytes := stringLoop rest.length [] rest

/-! ### Numbers -/

/-- One loop over the digits of a mantissa. Of the values a `char` can have, only the ten ASCII
digits are in `decimalDigitCharacterSet`. -/
def addDigits (mantissa : UInt64) (digits : Bytes) : UInt64 :=
  digits.foldl (fun m ch => m * 10 + (ch.toUInt64 - 48)) mantissa

/-- A run of digits, with a character behind it. -/
def digitRun (rest : Bytes) : Scan Bytes :=
  match rest.dropWhile isDigit with
  | [] => .eof
  | ch :: after => .found (rest.takeWhile isDigit) (ch :: after)

/-- The digits in front of the decimal point. -/
def integerPart : Bytes → Scan Bytes
  | [] => .eof
  | ch :: rest =>
    if ch == 48 then
      match rest with
      | [] => .eof
      | next :: _ => if isDigit next then .error .leadingZero rest else .found [ch] rest
    else digitRun (ch :: rest)

/-- The digits behind a decimal point, if there is one. The exponent that counts them down is a
`short`. -/
def fractionPart : Bytes → Scan (Option Bytes)
  | [] => .eof
  | ch :: rest =>
    if ch == 46 then
      (digitRun rest).bind fun digits rest =>
        if Int16.ofInt (-digits.length) = 0 then .error .noFraction rest
        else .found (some digits) rest
    else .found none (ch :: rest)

def exponentSign : Bytes → Scan Bool
  | [] => .eof
  | ch :: rest =>
    if ch == 45 then .found true rest
    else if ch == 43 then .found false rest
    else .found false (ch :: rest)

/-- The explicit exponent, if there is one. Its value and its length are `short`s as well. -/
def exponentPart : Bytes → Scan (Option Int16)
  | [] => .eof
  | ch :: rest =>
    if ch == 101 || ch == 69 then
      (exponentSign rest).bind fun negative rest =>
        (digitRun rest).bind fun digits rest =>
          if Int16.ofNat digits.length = 0 then .error .noExponent rest
          else
            let exponent := digits.foldl (fun e ch => e * 10 + (Int16.ofNat ch.toNat - 48)) 0
            .found (some (if negative then -exponent else exponent)) rest
    else .found none (ch :: rest)

/-- The number of what was read; `text` is all of it. -/
def numberOf (text : Bytes) (isNegative : Bool) (digits : Bytes) (fraction : Option Bytes)
    (exponent : Option Int16) : Except TokenError Number :=
  let fractionDigits := fraction.getD []
  let length := digits.length + fractionDigits.length
  let mantissa := addDigits (addDigits 0 digits) fractionDigits
  if length = 0 && isNegative then .error .noDigits
  else if 19 ≤ length then .ok (.decimal (.string text))
  else if fraction.isNone && exponent.isNone then
    .ok (if isNegative then .longLong (-mantissa).toInt64 else .unsignedLongLong mantissa)
  else
    .ok (.decimal (.parts mantissa (Int16.ofInt (-fractionDigits.length) + exponent.getD 0)
      isNegative))

/-- `getNumberToken:`. -/
def getNumberToken (start : Bytes) : Scan Number :=
  let isNegative := start.headD 0 == 45
  (integerPart (if isNegative then start.tail else start)).bind fun digits rest =>
    (fractionPart rest).bind fun fraction rest =>
      (exponentPart rest).bind fun exponent rest =>
        match numberOf (start.take (start.length - rest.length)) isNegative digits fraction
          exponent with
        | .error e => .error e rest
        | .ok number => .found number rest

/-! ### The tokeniser -/

def isWhitespace (b : UInt8) : Bool := b == 32 || b == 9 || b == 13 || b == 10

/-- `match:length:retval:`. -/
def matchPattern (pattern : Bytes) (token : Token) (rest : Bytes) : Scan Token :=
  if rest.length < pattern.length then .eof
  else if rest.take pattern.length = pattern then .found token (rest.drop pattern.length)
  else .error (.expected pattern) rest

/-- The tokens of a single character. -/
def punctuation (ch : UInt8) : Option Token :=
  if ch == 91 then some .arrayStart
  else if ch == 93 then some .arrayEnd
  else if ch == 123 then some .objectStart
  else if ch == 58 then some .keyvalSeparator
  else if ch == 125 then some .objectEnd
  else if ch == 44 then some .separator
  else none

/-- The tokens of more than one, with the stream at the first character `ch`. -/
def wordAt (ch : UInt8) (rest : Bytes) : Scan Token :=
  if ch == 110 then matchPattern (ascii "null") .null rest
  else if ch == 116 then matchPattern (ascii "true") .true_ rest
  else if ch == 102 then matchPattern (ascii "false") .false_ rest
  else if ch == quote then (getStringToken rest).map .string
  else if isDigit ch || ch == 45 then (getNumberToken rest).map .number
  else if ch == 43 then .error .leadingPlus rest
  else .error (.illegalStart ch) rest

/-- The switch of `getToken:`. -/
def tokenAt : Bytes → Scan Token
  | [] => .eof
  | ch :: rest =>
    match punctuation ch with
    | some token => .found token rest
    | none => wordAt ch (ch :: rest)

/-- `skipWhitespace`, which is also where the stream is left when the data ends in a token. -/
def skipWhitespace (rest : Bytes) : Bytes := rest.dropWhile isWhitespace

def getToken (rest : Bytes) : Scan Token := tokenAt (skipWhitespace rest)

example : getToken (ascii " \"a\\u00e9\\n\" ]") =
    .found (.string [97, 0xC3, 0xA9, 10]) (ascii " ]") := by decide

end Spamass.Json
