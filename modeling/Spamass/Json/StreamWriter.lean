import Spamass.Json.Numeral

/-!
# The writer of JSON

`SBJsonStreamWriter` with its states, and `SBJsonWriter`, which gives it one array or
dictionary and takes what its accumulator has got. A dictionary is written in the order of
its keys, those of `allKeys` or sorted. An object with a `proxyForJson` counts as its proxy.
-/
namespace Spamass.Json

open Spamass.App Spamass.Emailz

/-! ### Objects -/

/-- An `NSNumber` that is no boolean, with `δ` for the doubles. -/
inductive WriterNumber (δ : Type) where
  | unsignedLongLong (n : UInt64)
  | longLong (n : Int64)
  | double (x : δ)
  | decimal (d : Decimal)

/-- What is written. A key that is not a string is given as none. -/
inductive WriterObject (δ : Type) where
  | dictionary (members : List (Option Bytes × WriterObject δ))
  | array (items : List (WriterObject δ))
  | string (text : Bytes)
  | number (n : WriterNumber δ)
  | bool (x : Bool)
  | null
  /-- An object of another class. -/
  | other

/-- What Foundation says of a number: whether it is equal to `kPositiveInfinity`,
`kNegativeInfinity` or `kNotANumber`, and if it is not, the text of a decimal number by
`stringValue` and of a double by `%.17g`. -/
structure NumberTexts (δ : Type) where
  isPositiveInfinity : WriterNumber δ → Bool
  isNegativeInfinity : WriterNumber δ → Bool
  isNotANumber : WriterNumber δ → Bool
  stringValue : Decimal → Numeral
  format : δ → Numeral

/-! ### States -/

inductive WriterState where
  | start
  | complete
  | error
  | objectStart
  | objectKey
  | objectValue
  | arrayStart
  | arrayValue
  deriving DecidableEq, Repr

namespace WriterState

def isInvalidState : WriterState → Bool
  | .complete => true
  | _ => false

def expectingKey : WriterState → Bool
  | .objectStart | .objectKey => true
  | _ => false

/-- `appendSeparator:`. -/
def separator : WriterState → Bytes
  | .objectKey | .arrayValue => ascii ","
  | .objectValue => ascii ":"
  | _ => []

/-- `appendWhitespace:`. -/
def whitespace (depth : Nat) : WriterState → Bytes
  | .objectValue => ascii " "
  | _ => ascii "\n" ++ (List.replicate depth (ascii "  ")).flatten

/-- `transitionState:`, which the state behind a key has from the one before it. -/
def transition : WriterState → WriterState
  | .start => .complete
  | .objectStart | .objectKey => .objectValue
  | .objectValue => .objectKey
  | .arrayStart => .arrayValue
  | state => state

end WriterState

inductive WriterError where
  /-- JSON object key must be string -/
  | keyNotString
  /-- JSON object key must be string: %@ -/
  | keyIsNot
  /-- Nested too deep -/
  | nestedTooDeep
  /-- Stream is closed -/
  | streamClosed
  /-- +Infinity is not a valid number in JSON -/
  | positiveInfinity
  /-- -Infinity is not a valid number in JSON -/
  | negativeInfinity
  /-- NaN is not a valid number in JSON -/
  | notANumber
  /-- JSON serialisation not supported for %@ -/
  | notSupported
  /-- Not valid type for JSON -/
  | notValidType
  deriving DecidableEq, Repr

/-! ### Strings and numbers -/

/-- The digit of a `\\u` escape. -/
def hexByte (n : UInt8) : UInt8 := if n < 10 then 48 + n else 87 + n

def strForChar (c : UInt8) : Bytes :=
  if c == 8 then ascii "\\b"
  else if c == 9 then ascii "\\t"
  else if c == 10 then ascii "\\n"
  else if c == 12 then ascii "\\f"
  else if c == 13 then ascii "\\r"
  else if c == quote then ascii "\\\""
  else if c == backslash then ascii "\\\\"
  else if c < 0x20 then ascii "\\u00" ++ [hexByte (c / 16), hexByte (c % 16)]
  else ascii "FUTFUTFUT"

/-- The loop of `writeString:`, which copies the runs of what `strForChar` is not asked for. -/
def escaped (utf8 : Bytes) : Bytes :=
  utf8.flatMap fun c => if c < 0x20 || c == quote || c == backslash then strForChar c else [c]

def stringText (string : Bytes) : Bytes := quote :: (escaped string ++ [quote])

section Numbers

variable {δ : Type} (texts : NumberTexts δ)

/-- The numbers that `writeNumber:` refuses. -/
def refusal (n : WriterNumber δ) : Option WriterError :=
  if texts.isPositiveInfinity n then some .positiveInfinity
  else if texts.isNegativeInfinity n then some .negativeInfinity
  else if texts.isNotANumber n then some .notANumber
  else none

/-- The formats `%llu`, `%lld` and `%.17g`, and `stringValue`. -/
def numberText : WriterNumber δ → Bytes
  | .unsignedLongLong n => decimal n.toNat
  | .longLong n => if n < 0 then 45 :: decimal n.toInt.natAbs else decimal n.toInt.natAbs
  | .double x => (texts.format x).text
  | .decimal d => (texts.stringValue d).text

end Numbers

/-! ### The writer -/

structure StreamWriter where
  state : WriterState
  -- the last state first
  stateStack : List WriterState
  maxDepth : Nat
  humanReadable : Bool
  error : Option WriterError
  -- what the delegate was given
  data : Bytes

namespace StreamWriter

def init (maxDepth : Nat) (humanReadable : Bool) : StreamWriter :=
  ⟨.start, [], maxDepth, humanReadable, none, []⟩

variable (w : StreamWriter)

def append (bytes : Bytes) : StreamWriter := { w with data := w.data ++ bytes }

def appendSeparator : StreamWriter := w.append w.state.separator

def appendWhitespace (state : WriterState) : StreamWriter :=
  if w.humanReadable then w.append (state.whitespace w.stateStack.length) else w

def transitionState : StreamWriter := { w with state := w.state.transition }

def fail (e : WriterError) : StreamWriter × Bool := ({ w with error := some e }, false)

/-- `writeObjectOpen` and `writeArrayOpen`. -/
def open_ (inside : WriterState) (bracket : Bytes) : StreamWriter × Bool :=
  if w.state.isInvalidState then w.fail .streamClosed
  else if w.state.expectingKey then w.fail .keyNotString
  else
    let w := w.appendSeparator
    let w := if w.stateStack.isEmpty then w else w.appendWhitespace w.state
    let w := { w with stateStack := w.state :: w.stateStack, state := inside }
    if w.maxDepth ≠ 0 ∧ w.maxDepth < w.stateStack.length then w.fail .nestedTooDeep
    else (w.append bracket, true)

/-- The end of `writeObjectClose` and `writeArrayClose`. -/
def pop (bracket : Bytes) : StreamWriter × Bool :=
  let prev := w.state
  let w := { w with state := w.stateStack.headD .error, stateStack := w.stateStack.tail }
  (((w.appendWhitespace prev).append bracket).transitionState, true)

def writeObjectOpen : StreamWriter × Bool := w.open_ .objectStart (ascii "\x7b")

def writeArrayOpen : StreamWriter × Bool := w.open_ .arrayStart (ascii "[")

def writeObjectClose : StreamWriter × Bool :=
  if w.state.isInvalidState then w.fail .streamClosed else w.pop (ascii "\x7d")

def writeArrayClose : StreamWriter × Bool :=
  if w.state.isInvalidState then w.fail .streamClosed
  else if w.state.expectingKey then w.fail .keyNotString
  else w.pop (ascii "]")

/-- `writeNull`, `writeBool:` and `writeNumber:`, which refuses some numbers. -/
def writeText (refused : Option WriterError) (text : Bytes) : StreamWriter × Bool :=
  if w.state.isInvalidState then w.fail .streamClosed
  else if w.state.expectingKey then w.fail .keyNotString
  else
    let w := w.appendSeparator.appendWhitespace w.state
    match refused with
    | some e => w.fail e
    | none => ((w.append text).transitionState, true)

/-- `writeString:`, also of a key. -/
def writeString (string : Bytes) : StreamWriter × Bool :=
  if w.state.isInvalidState then w.fail .streamClosed
  else
    (((w.appendSeparator.appendWhitespace w.state).append (stringText string)).transitionState,
      true)

/-- The next step, unless this one has failed. -/
def andThen (result : StreamWriter × Bool) (next : StreamWriter → StreamWriter × Bool) :
    StreamWriter × Bool :=
  if result.2 then next result.1 else result

variable {δ : Type} (texts : NumberTexts δ)

mutual

/-- `writeValue:`, with `writeObject:` and `writeArray:`. -/
def writeValue (w : StreamWriter) : WriterObject δ → StreamWriter × Bool
  | .dictionary members =>
    andThen w.writeObjectOpen fun w => andThen (writeMembers w members) writeObjectClose
  | .array items =>
    andThen w.writeArrayOpen fun w => andThen (writeItems w items) writeArrayClose
  | .string text => ((w.writeString text).1, true)
  | .number n => w.writeText (refusal texts n) (numberText texts n)
  | .bool true => w.writeText none (ascii "true")
  | .bool false => w.writeText none (ascii "false")
  | .null => w.writeText none (ascii "null")
  | .other => w.fail .notSupported

def writeItems (w : StreamWriter) : List (WriterObject δ) → StreamWriter × Bool
  | [] => (w, true)
  | v :: items => andThen (writeValue w v) fun w => writeItems w items

def writeMembers (w : StreamWriter) : List (Option Bytes × WriterObject δ) → StreamWriter × Bool
  | [] => (w, true)
  | (none, _) :: _ => w.fail .keyIsNot
  | (some key, v) :: members =>
    andThen (w.writeString key) fun w => andThen (writeValue w v) fun w => writeMembers w members

end

end StreamWriter

/-- `dataWithObject:`, or nil with the error it leaves. -/
def dataWithObject {δ : Type} (texts : NumberTexts δ) (maxDepth : Nat) (humanReadable : Bool)
    (object : WriterObject δ) : Except (Option WriterError) Bytes :=
  match object with
  | .dictionary _ | .array _ =>
    let result := (StreamWriter.init maxDepth humanReadable).writeValue texts object
    if result.2 then .ok result.1.data else .error result.1.error
  | _ => .error (some .notValidType)

end Spamass.Json
