import Spamass.Json.Tokeniser

/-!
# The parser of JSON

`SBJsonStreamParser` with its states, and `SBJsonStreamParserAdapter` and
`SBJsonStreamParserAccumulator`, which make a value of what the parser finds. The
delegate of the parser is always the adapter, the adapter skips no levels, and one
document is parsed. An exception ends the call and has no result.
-/
namespace Spamass.Json

open Spamass.App Spamass.Emailz

inductive Value where
  | null
  | bool (b : Bool)
  | number (n : Number)
  | string (text : Bytes)
  | array (items : List Value)
  | object (members : List (Bytes × Value))

/-! ### The adapter -/

/-- An array or a dictionary that is not finished. -/
inductive Container where
  | array (items : List Value)
  | object (members : List (Bytes × Value))

def Container.value : Container → Value
  | .array items => .array items
  | .object members => .object members

/-- `setObject:forKey:`. -/
def setMember (members : List (Bytes × Value)) (key : Bytes) (value : Value) :
    List (Bytes × Value) :=
  if members.any (·.1 == key) then members.map fun m => if m.1 == key then (key, value) else m
  else members ++ [(key, value)]

/-- The stacks are given with their last objects first. `array`, `dict` and `currentType` stand
for the last object of `stack`, `value` is that of the accumulator. -/
structure Adapter where
  stack : List Container
  keyStack : List Bytes
  value : Option Value

def Adapter.init : Adapter := ⟨[], [], none⟩

/-- `parser:found:`, which raises where a dictionary has no key for the value. -/
def Adapter.found (a : Adapter) (obj : Value) : Option Adapter :=
  match a.stack with
  | [] => some { a with value := some obj }
  | .array items :: stack => some { a with stack := .array (items ++ [obj]) :: stack }
  | .object members :: stack =>
    match a.keyStack with
    | [] => none
    | key :: keyStack =>
      some { a with stack := .object (setMember members key obj) :: stack, keyStack := keyStack }

def Adapter.foundObjectStart (a : Adapter) : Adapter := { a with stack := .object [] :: a.stack }
def Adapter.foundArrayStart (a : Adapter) : Adapter := { a with stack := .array [] :: a.stack }

def Adapter.foundObjectKey (a : Adapter) (key : Bytes) : Adapter :=
  { a with keyStack := key :: a.keyStack }

/-- `parserFoundObjectEnd:`, for a dictionary that is the last object. -/
def Adapter.foundObjectEnd (a : Adapter) : Option Adapter :=
  match a.stack with
  | .object members :: stack => { a with stack := stack }.found (.object members)
  | _ => none

/-- `parserFoundArrayEnd:`, for an array that is the last object. -/
def Adapter.foundArrayEnd (a : Adapter) : Option Adapter :=
  match a.stack with
  | .array items :: stack => { a with stack := stack }.found (.array items)
  | _ => none

/-! ### The states -/

inductive State where
  | start
  | complete
  | error
  | objectStart
  | objectGotKey
  | objectSeparator
  | objectGotValue
  | objectNeedKey
  | arrayStart
  | arrayGotValue
  | arrayNeedValue
  deriving DecidableEq, Repr

inductive Status where
  | complete
  | waitingForData
  | error
  deriving DecidableEq, Repr

/-- `parser:shouldAcceptToken:`. -/
def State.shouldAcceptToken : State → Token → Bool
  | .start, token => token == .arrayStart || token == .objectStart
  | .complete, _ => false
  | .error, _ => false
  | .objectStart, token =>
    match token with
    | .objectEnd | .string _ => true
    | _ => false
  | .objectGotKey, token => token == .keyvalSeparator
  | .objectSeparator, token =>
    match token with
    | .objectStart | .arrayStart | .true_ | .false_ | .null | .number _ | .string _ => true
    | _ => false
  | .objectGotValue, token =>
    match token with
    | .objectEnd | .separator => true
    | _ => false
  | .objectNeedKey, token =>
    match token with
    | .string _ => true
    | _ => false
  | .arrayStart, token =>
    match token with
    | .objectEnd | .keyvalSeparator | .separator => false
    | _ => true
  | .arrayGotValue, token => token == .arrayEnd || token == .separator
  | .arrayNeedValue, token =>
    match token with
    | .arrayEnd | .keyvalSeparator | .objectEnd | .separator => false
    | _ => true

/-- `parser:shouldTransitionTo:`. -/
def State.shouldTransitionTo : State → Token → State
  | .start, token =>
    match token with
    | .arrayStart => .arrayStart
    | .objectStart => .objectStart
    | .arrayEnd | .objectEnd => .complete
    | _ => .error
  | .complete, _ => .complete
  | .error, _ => .error
  | .objectStart, _ => .objectGotKey
  | .objectGotKey, _ => .objectSeparator
  | .objectSeparator, _ => .objectGotValue
  | .objectGotValue, _ => .objectNeedKey
  | .objectNeedKey, _ => .objectGotKey
  | .arrayStart, _ => .arrayGotValue
  | .arrayGotValue, token => if token == .separator then .arrayNeedValue else .arrayGotValue
  | .arrayNeedValue, _ => .arrayGotValue

def State.needKey : State → Bool
  | .objectStart | .objectNeedKey => true
  | _ => false

def State.isError : State → Bool
  | .error => true
  | _ => false

def State.parserShouldReturn : State → Status
  | .complete => .complete
  | .error => .error
  | _ => .waitingForData

/-! ### The parser -/

/-- The `error` of the parser, by its format and the arguments of it. -/
inductive ParserError where
  | token (e : TokenError)
  /-- Input depth exceeds max depth of %lu -/
  | tooDeep (maxDepth : Nat)
  /-- Token '%@' not expected %@ -/
  | notExpected (token : Token) (state : State)
  deriving DecidableEq, Repr

structure StreamParser where
  state : State
  stateStack : List State
  maxDepth : Nat
  error : Option ParserError
  adapter : Adapter

def StreamParser.init (maxDepth : Nat) : StreamParser := ⟨.start, [], maxDepth, none, .init⟩

def StreamParser.maxDepthError (p : StreamParser) : StreamParser :=
  { p with error := some (.tooDeep p.maxDepth), state := .error }

def StreamParser.handleObjectStart (p : StreamParser) : StreamParser :=
  if p.maxDepth ≤ p.stateStack.length then p.maxDepthError
  else
    { p with
      adapter := p.adapter.foundObjectStart
      stateStack := p.state :: p.stateStack
      state := .objectStart }

def StreamParser.handleArrayStart (p : StreamParser) : StreamParser :=
  if p.maxDepth ≤ p.stateStack.length then p.maxDepthError
  else
    { p with
      adapter := p.adapter.foundArrayStart
      stateStack := p.state :: p.stateStack
      state := .arrayStart }

/-- `handleObjectEnd:` and `handleArrayEnd:`; an empty stack has no object to remove. -/
def StreamParser.handleEnd (p : StreamParser) (token : Token)
    (found : Adapter → Option Adapter) : Option StreamParser :=
  match p.stateStack with
  | [] => none
  | state :: stateStack =>
    (found p.adapter).map fun adapter =>
      { p with
        state := state.shouldTransitionTo token
        stateStack := stateStack
        adapter := adapter }

/-- The delegate is told of a value, and the state goes on. -/
def StreamParser.handleValue (p : StreamParser) (token : Token) (value : Value) :
    Option StreamParser :=
  (p.adapter.found value).map fun adapter =>
    { p with adapter := adapter, state := p.state.shouldTransitionTo token }

/-- The switch of `parse:` over an accepted token. -/
def StreamParser.handle (p : StreamParser) (token : Token) : Option StreamParser :=
  match token with
  | .objectStart => some p.handleObjectStart
  | .objectEnd => p.handleEnd token Adapter.foundObjectEnd
  | .arrayStart => some p.handleArrayStart
  | .arrayEnd => p.handleEnd token Adapter.foundArrayEnd
  | .separator => some { p with state := p.state.shouldTransitionTo token }
  | .keyvalSeparator => some { p with state := p.state.shouldTransitionTo token }
  | .true_ => p.handleValue token (.bool true)
  | .false_ => p.handleValue token (.bool false)
  | .null => p.handleValue token .null
  | .number n => p.handleValue token (.number n)
  | .string text =>
    if p.state.needKey then
      some { p with
        adapter := p.adapter.foundObjectKey text
        state := p.state.shouldTransitionTo token }
    else p.handleValue token (.string text)

def StreamParser.handleTokenNotExpectedHere (p : StreamParser) (token : Token) : StreamParser :=
  { p with error := some (.notExpected token p.state), state := .error }

def StreamParser.tokenError (p : StreamParser) (e : TokenError) : StreamParser :=
  { p with error := some (.token e), state := .error }

/-- The loop of `parse:`. -/
def parseLoop : Nat → StreamParser → Bytes → Option ((StreamParser × Bytes) × Status)
  | 0, p, stream => some ((p, stream), p.state.parserShouldReturn)
  | fuel + 1, p, stream =>
    if p.state.isError then some ((p, stream), .error)
    else
      match getToken stream with
      | .eof => some ((p, skipWhitespace stream), p.state.parserShouldReturn)
      | .error e rest => some ((p.tokenError e, rest), .error)
      | .found token rest =>
        if !p.state.shouldAcceptToken token then
          some ((p.handleTokenNotExpectedHere token, rest), .error)
        else
          match p.handle token with
          | none => none
          | some p => parseLoop fuel p rest

/-- `parse:`, of a parser with what its tokeniser has left. -/
def parse (m : StreamParser × Bytes) (data : Bytes) : Option ((StreamParser × Bytes) × Status) :=
  parseLoop ((m.2 ++ data).length + 1) m.1 (m.2 ++ data)

/-! ### objectWithData: -/

inductive JsonError where
  /-- Unexpected end of input -/
  | unexpectedEnd
  | parser (e : Option ParserError)
  deriving DecidableEq, Repr

/-- `objectWithData:` with the result, or nil with the error it leaves; the result of a complete
document may be nil as well. -/
def objectWithData (maxDepth : Nat) (data : Bytes) : Option (Except JsonError (Option Value)) :=
  (parse (.init maxDepth, []) data).map fun result =>
    match result.2 with
    | .complete => .ok result.1.1.adapter.value
    | .waitingForData => .error .unexpectedEnd
    | .error => .error (.parser result.1.1.error)

end Spamass.Json
