import Spamass.Json.StreamParser

/-!
# Documents

The tokens of a value, how deep it is nested, and what a reader is to make of it: of
members with the same key the last one counts. The parser accepts the tokens of the
arrays and dictionaries that are not nested too deeply, and nothing else. An unfinished
document is a path of open containers, whose states and parts are on the stacks of the
parser and its adapter.
-/
namespace Spamass.Json

open Spamass.App Spamass.Emailz

/-! ### The tokens of a value -/

def separated : List (List Token) → List Token
  | [] => []
  | first :: rest => first ++ rest.flatMap (Token.separator :: ·)

mutual

def Value.tokens : Value → List Token
  | .null => [.null]
  | .bool true => [.true_]
  | .bool false => [.false_]
  | .number n => [.number n]
  | .string text => [.string text]
  | .array items => .arrayStart :: (separated (itemTokens items) ++ [.arrayEnd])
  | .object members => .objectStart :: (separated (memberTokens members) ++ [.objectEnd])

def itemTokens : List Value → List (List Token)
  | [] => []
  | v :: items => v.tokens :: itemTokens items

def memberTokens : List (Bytes × Value) → List (List Token)
  | [] => []
  | (key, v) :: members => (.string key :: .keyvalSeparator :: v.tokens) :: memberTokens members

end

mutual

def Value.depth : Value → Nat
  | .array items => itemsDepth items + 1
  | .object members => membersDepth members + 1
  | _ => 0

def itemsDepth : List Value → Nat
  | [] => 0
  | v :: items => max v.depth (itemsDepth items)

def membersDepth : List (Bytes × Value) → Nat
  | [] => 0
  | (_, v) :: members => max v.depth (membersDepth members)

end

mutual

/-- The value with one member for each key. -/
def Value.collected : Value → Value
  | .array items => .array (collectedItems items)
  | .object members => .object (collectedMembers [] members)
  | v => v

def collectedItems : List Value → List Value
  | [] => []
  | v :: items => v.collected :: collectedItems items

def collectedMembers (before : List (Bytes × Value)) :
    List (Bytes × Value) → List (Bytes × Value)
  | [] => before
  | (key, v) :: members => collectedMembers (setMember before key v.collected) members

end

def Value.isContainer : Value → Bool
  | .array _ | .object _ => true
  | _ => false

private theorem separated_more (first next : List Token) (rest : List (List Token)) :
    separated (first :: next :: rest) = first ++ .separator :: separated (next :: rest) := by
  simp [separated]

/-! ### The parser over tokens -/

/-- A token is handled, or it is not expected. -/
def StreamParser.take (p : StreamParser) (token : Token) : Option StreamParser :=
  if p.state.shouldAcceptToken token then p.handle token
  else some (p.handleTokenNotExpectedHere token)

/-- Tokens are taken until one of them leads to an error. -/
def StreamParser.takeAll : StreamParser → List Token → Option StreamParser
  | p, [] => some p
  | p, token :: tokens =>
    if p.state.isError then some p else (p.take token).bind fun next => next.takeAll tokens

theorem takeAll_error {p : StreamParser} (error : p.state.isError = true) (tokens : List Token) :
    p.takeAll tokens = some p := by
  cases tokens with
  | nil => rfl
  | cons token tokens => rw [StreamParser.takeAll, if_pos error]

private theorem takeAll_append (p : StreamParser) (xs ys : List Token) :
    p.takeAll (xs ++ ys) = (p.takeAll xs).bind fun next => next.takeAll ys := by
  induction xs generalizing p with
  | nil => rfl
  | cons token xs ih =>
    rw [List.cons_append, StreamParser.takeAll, StreamParser.takeAll]
    split
    next error => rw [Option.bind_some, takeAll_error error]
    · rw [Option.bind_assoc]
      congr 1
      funext next
      exact ih next

theorem takeAll_cons {p next : StreamParser} {token : Token} (tokens : List Token)
    (running : p.state.isError = false) (accepted : p.state.shouldAcceptToken token = true)
    (handled : p.handle token = some next) :
    p.takeAll (token :: tokens) = next.takeAll tokens := by
  rw [StreamParser.takeAll, if_neg (by simp [running]), StreamParser.take, if_pos accepted,
    handled, Option.bind_some]

/-! ### Documents are accepted -/

/-- A value may come in this state, or a document in the first one. -/
def State.takes (state : State) (v : Value) : Bool :=
  match state with
  | .objectSeparator | .arrayStart | .arrayNeedValue => true
  | .start => v.isContainer
  | _ => false

/-- The state behind a value. -/
def State.behind (state : State) : State := state.shouldTransitionTo .arrayEnd

private theorem transition_objectEnd (state : State) :
    state.shouldTransitionTo .objectEnd = state.behind := by
  cases state <;> rfl

/-- A value that is one token. -/
private theorem takeAll_scalar {p : StreamParser} {a : Adapter} {token : Token} {v : Value}
    (takes : p.state.takes v = true) (scalar : v.isContainer = false)
    (accepted : ∀ state ∈ [State.objectSeparator, .arrayStart, .arrayNeedValue],
      state.shouldAcceptToken token = true)
    (handled : p.state.needKey = false → p.handle token = p.handleValue token v)
    (found : p.adapter.found v = some a) :
    p.takeAll [token] = some { p with adapter := a, state := p.state.behind } := by
  have states : p.state ∈ [State.objectSeparator, .arrayStart, .arrayNeedValue] := by
    cases state : p.state <;> rw [state] at takes <;>
      first
        | decide
        | exact absurd (scalar.symm.trans takes) Bool.false_ne_true
        | exact absurd takes Bool.false_ne_true
  have running : p.state.isError = false ∧ p.state.needKey = false ∧
      p.state.shouldTransitionTo token = p.state.behind := by
    simp only [List.mem_cons, List.not_mem_nil, or_false] at states
    rcases states with state | state | state <;> rw [state] <;> exact ⟨rfl, rfl, rfl⟩
  have next : p.handle token = some { p with adapter := a, state := p.state.behind } := by
    rw [handled running.2.1, StreamParser.handleValue, found, Option.map_some, running.2.2]
  rw [takeAll_cons [] running.1 (accepted p.state states) next]
  rfl

private theorem takeAll_arrayEnd {p : StreamParser} {a : Adapter} {items : List Value}
    {stack : List Container} {state : State} {stateStack : List State}
    (ends : p.state = .arrayStart ∨ p.state = .arrayGotValue)
    (top : p.adapter.stack = .array items :: stack) (states : p.stateStack = state :: stateStack)
    (found : { p.adapter with stack := stack }.found (.array items) = some a) :
    p.takeAll [.arrayEnd] =
      some { p with state := state.behind, stateStack := stateStack, adapter := a } := by
  have handled : p.handle .arrayEnd =
      some { p with state := state.behind, stateStack := stateStack, adapter := a } := by
    simp only [StreamParser.handle, StreamParser.handleEnd, states, Adapter.foundArrayEnd, top,
      found, Option.map_some, State.behind]
  have running : p.state.isError = false ∧ p.state.shouldAcceptToken .arrayEnd = true := by
    rcases ends with state | state <;> rw [state] <;> exact ⟨rfl, rfl⟩
  rw [takeAll_cons [] running.1 running.2 handled]
  rfl

private theorem takeAll_objectEnd {p : StreamParser} {a : Adapter} {members : List (Bytes × Value)}
    {stack : List Container} {state : State} {stateStack : List State}
    (ends : p.state = .objectStart ∨ p.state = .objectGotValue)
    (top : p.adapter.stack = .object members :: stack)
    (states : p.stateStack = state :: stateStack)
    (found : { p.adapter with stack := stack }.found (.object members) = some a) :
    p.takeAll [.objectEnd] =
      some { p with state := state.behind, stateStack := stateStack, adapter := a } := by
  have handled : p.handle .objectEnd =
      some { p with state := state.behind, stateStack := stateStack, adapter := a } := by
    simp only [StreamParser.handle, StreamParser.handleEnd, states, Adapter.foundObjectEnd, top,
      found, Option.map_some, transition_objectEnd]
  have running : p.state.isError = false ∧ p.state.shouldAcceptToken .objectEnd = true := by
    rcases ends with state | state <;> rw [state] <;> exact ⟨rfl, rfl⟩
  rw [takeAll_cons [] running.1 running.2 handled]
  rfl

/-- A separator leads from one part of a container to the next. -/
private theorem takeAll_separator {p : StreamParser} (tokens : List Token)
    (state : p.state = .arrayGotValue ∨ p.state = .objectGotValue) :
    p.takeAll (.separator :: tokens) =
      { p with state := p.state.shouldTransitionTo .separator }.takeAll tokens := by
  have running : p.state.isError = false ∧ p.state.shouldAcceptToken .separator = true := by
    rcases state with state | state <;> rw [state] <;> exact ⟨rfl, rfl⟩
  exact takeAll_cons tokens running.1 running.2 rfl

private theorem takeAll_key {p : StreamParser} (key : Bytes) (tokens : List Token)
    (state : p.state = .objectStart ∨ p.state = .objectNeedKey) :
    p.takeAll (.string key :: .keyvalSeparator :: tokens) =
      { p with
        state := .objectSeparator
        adapter := p.adapter.foundObjectKey key }.takeAll tokens := by
  have running : p.state.isError = false ∧ p.state.shouldAcceptToken (.string key) = true ∧
      p.handle (.string key) =
        some { p with state := .objectGotKey, adapter := p.adapter.foundObjectKey key } := by
    rcases state with state | state <;>
      simp [StreamParser.handle, state, State.isError, State.shouldAcceptToken, State.needKey,
        State.shouldTransitionTo]
  rw [takeAll_cons _ running.1 running.2.1 running.2.2]
  exact takeAll_cons tokens rfl rfl rfl

mutual

theorem takeAll_value (v : Value) (p : StreamParser) (a : Adapter) (takes : p.state.takes v = true)
    (room : v.depth + p.stateStack.length ≤ p.maxDepth)
    (found : p.adapter.found v.collected = some a) :
    p.takeAll v.tokens = some { p with adapter := a, state := p.state.behind } := by
  match v with
  | .null => exact takeAll_scalar takes rfl (by decide) (fun _ => rfl) found
  | .bool true => exact takeAll_scalar takes rfl (by decide) (fun _ => rfl) found
  | .bool false => exact takeAll_scalar takes rfl (by decide) (fun _ => rfl) found
  | .number n =>
    exact takeAll_scalar takes rfl (by simp [State.shouldAcceptToken]) (fun _ => rfl) found
  | .string text =>
    refine takeAll_scalar takes rfl (by simp [State.shouldAcceptToken]) ?_ found
    intro value
    rw [StreamParser.handle, value]
    rfl
  | .array items =>
    have running : p.state.isError = false ∧ p.state.shouldAcceptToken .arrayStart = true := by
      cases state : p.state <;> rw [state] at takes <;>
        first | exact ⟨rfl, rfl⟩ | exact absurd takes Bool.false_ne_true
    have inside : ¬ p.maxDepth ≤ p.stateStack.length := by
      rw [Value.depth] at room
      omega
    have handled : p.handle .arrayStart = some { p with
        adapter := p.adapter.foundArrayStart
        stateStack := p.state :: p.stateStack
        state := .arrayStart } := by
      rw [StreamParser.handle, StreamParser.handleArrayStart, if_neg inside]
    rw [Value.tokens, takeAll_cons _ running.1 running.2 handled, takeAll_append]
    rw [Value.collected] at found
    match items with
    | [] => exact takeAll_arrayEnd (Or.inl rfl) rfl rfl found
    | v :: items =>
      have parts := takeAll_items (v :: items) (List.cons_ne_nil _ _) { p with
        adapter := p.adapter.foundArrayStart
        stateStack := p.state :: p.stateStack
        state := .arrayStart } [] p.adapter.stack (Or.inl rfl) rfl (by
          rw [Value.depth] at room
          simp only [List.length_cons]
          omega)
      rw [parts]
      exact takeAll_arrayEnd (Or.inr rfl) rfl rfl found
  | .object members =>
    have running : p.state.isError = false ∧ p.state.shouldAcceptToken .objectStart = true := by
      cases state : p.state <;> rw [state] at takes <;>
        first | exact ⟨rfl, rfl⟩ | exact absurd takes Bool.false_ne_true
    have inside : ¬ p.maxDepth ≤ p.stateStack.length := by
      rw [Value.depth] at room
      omega
    have handled : p.handle .objectStart = some { p with
        adapter := p.adapter.foundObjectStart
        stateStack := p.state :: p.stateStack
        state := .objectStart } := by
      rw [StreamParser.handle, StreamParser.handleObjectStart, if_neg inside]
    rw [Value.tokens, takeAll_cons _ running.1 running.2 handled, takeAll_append]
    rw [Value.collected] at found
    match members with
    | [] => exact takeAll_objectEnd (Or.inl rfl) rfl rfl found
    | (key, v) :: members =>
      have parts := takeAll_members ((key, v) :: members) (List.cons_ne_nil _ _) { p with
        adapter := p.adapter.foundObjectStart
        stateStack := p.state :: p.stateStack
        state := .objectStart } [] p.adapter.stack (Or.inl rfl) rfl (by
          rw [Value.depth] at room
          simp only [List.length_cons]
          omega)
      rw [parts]
      exact takeAll_objectEnd (Or.inr rfl) rfl rfl found

private theorem takeAll_items (items : List Value) (present : items ≠ []) (p : StreamParser)
    (before : List Value) (stack : List Container)
    (state : p.state = .arrayStart ∨ p.state = .arrayNeedValue)
    (top : p.adapter.stack = .array before :: stack)
    (room : itemsDepth items + p.stateStack.length ≤ p.maxDepth) :
    p.takeAll (separated (itemTokens items)) =
      some { p with
        state := .arrayGotValue
        adapter := { p.adapter with
          stack := .array (before ++ collectedItems items) :: stack } } := by
  match items with
  | [] => exact absurd rfl present
  | v :: items =>
    rw [itemsDepth] at room
    have takes : p.state.takes v = true ∧ p.state.behind = .arrayGotValue := by
      rcases state with state | state <;> rw [state] <;> exact ⟨rfl, rfl⟩
    have found : p.adapter.found v.collected = some { p.adapter with
        stack := .array (before ++ [v.collected]) :: stack } := by
      simp only [Adapter.found, top]
    have first := takeAll_value v p _ takes.1 (by omega) found
    rw [takes.2] at first
    match items with
    | [] =>
      rw [itemTokens, itemTokens, separated, List.flatMap_nil, List.append_nil, first]
      rfl
    | w :: items =>
      have rest := takeAll_items (w :: items) (List.cons_ne_nil _ _) { p with
        state := .arrayNeedValue
        adapter := { p.adapter with stack := .array (before ++ [v.collected]) :: stack } }
        (before ++ [v.collected]) stack (Or.inr rfl) rfl (by simp only; omega)
      rw [itemTokens, List.append_assoc] at rest
      rw [itemTokens, itemTokens, separated_more, takeAll_append, first, Option.bind_some,
        takeAll_separator _ (Or.inl rfl)]
      exact rest

theorem takeAll_members (members : List (Bytes × Value)) (present : members ≠ []) (p : StreamParser)
    (before : List (Bytes × Value)) (stack : List Container)
    (state : p.state = .objectStart ∨ p.state = .objectNeedKey)
    (top : p.adapter.stack = .object before :: stack)
    (room : membersDepth members + p.stateStack.length ≤ p.maxDepth) :
    p.takeAll (separated (memberTokens members)) =
      some { p with
        state := .objectGotValue
        adapter := { p.adapter with
          stack := .object (collectedMembers before members) :: stack } } := by
  match members with
  | [] => exact absurd rfl present
  | (key, v) :: members =>
    rw [membersDepth] at room
    have found : (p.adapter.foundObjectKey key).found v.collected = some { p.adapter with
        stack := .object (setMember before key v.collected) :: stack } := by
      simp only [Adapter.found, Adapter.foundObjectKey, top]
    have first := takeAll_value v { p with
      state := .objectSeparator
      adapter := p.adapter.foundObjectKey key } _ rfl (by simp only; omega) found
    match members with
    | [] =>
      rw [memberTokens, memberTokens, separated, List.flatMap_nil, List.append_nil,
        takeAll_key key _ state, first]
      rfl
    | (key', w) :: members =>
      have rest := takeAll_members ((key', w) :: members) (List.cons_ne_nil _ _) { p with
        state := .objectNeedKey
        adapter := { p.adapter with
          stack := .object (setMember before key v.collected) :: stack } }
        (setMember before key v.collected) stack (Or.inr rfl) rfl (by simp only; omega)
      rw [memberTokens] at rest
      rw [memberTokens, memberTokens, separated_more, List.cons_append, List.cons_append,
        takeAll_key key _ state, takeAll_append, first, Option.bind_some,
        takeAll_separator _ (Or.inr rfl)]
      exact rest

end

/-! ### Open documents -/

/-- Parts with a separator behind each of them. -/
def led (parts : List (List Token)) : List Token := parts.flatMap (· ++ [Token.separator])

private theorem separated_snoc (parts : List (List Token)) (last : List Token) :
    separated (parts ++ [last]) = led parts ++ last := by
  induction parts with
  | nil => simp [separated, led]
  | cons first parts ih =>
    cases parts with
    | nil => simp [separated, led]
    | cons next parts =>
      rw [List.cons_append, List.cons_append, separated_more, ← List.cons_append, ih]
      simp [led]

private theorem itemTokens_append (xs ys : List Value) :
    itemTokens (xs ++ ys) = itemTokens xs ++ itemTokens ys := by
  induction xs with
  | nil => rfl
  | cons v xs ih => rw [List.cons_append, itemTokens, ih, itemTokens, List.cons_append]

private theorem memberTokens_append (xs ys : List (Bytes × Value)) :
    memberTokens (xs ++ ys) = memberTokens xs ++ memberTokens ys := by
  induction xs with
  | nil => rfl
  | cons m xs ih => rw [List.cons_append, memberTokens, ih, memberTokens, List.cons_append]

private theorem separated_items (items : List Value) (v : Value) :
    separated (itemTokens (items ++ [v])) = led (itemTokens items) ++ v.tokens := by
  rw [itemTokens_append, ← separated_snoc]
  rfl

private theorem separated_members (members : List (Bytes × Value)) (key : Bytes) (v : Value) :
    separated (memberTokens (members ++ [(key, v)])) =
      led (memberTokens members) ++ .string key :: .keyvalSeparator :: v.tokens := by
  rw [memberTokens_append, ← separated_snoc]
  rfl

private theorem led_snoc (parts : List (List Token)) (last : List Token) :
    led (parts ++ [last]) = separated (parts ++ [last]) ++ [.separator] := by
  rw [separated_snoc, led, List.flatMap_append, List.flatMap_singleton, List.append_assoc]
  rfl

private theorem led_items (items : List Value) (v : Value) :
    led (itemTokens (items ++ [v])) =
      separated (itemTokens (items ++ [v])) ++ [.separator] := by
  rw [itemTokens_append]
  exact led_snoc _ _

private theorem led_members (members : List (Bytes × Value)) (m : Bytes × Value) :
    led (memberTokens (members ++ [m])) =
      separated (memberTokens (members ++ [m])) ++ [.separator] := by
  rw [memberTokens_append]
  exact led_snoc _ _

private theorem itemsDepth_append (xs ys : List Value) :
    itemsDepth (xs ++ ys) = max (itemsDepth xs) (itemsDepth ys) := by
  induction xs with
  | nil => rw [List.nil_append, itemsDepth, Nat.zero_max]
  | cons v xs ih => rw [List.cons_append, itemsDepth, ih, itemsDepth, Nat.max_assoc]

private theorem membersDepth_append (xs ys : List (Bytes × Value)) :
    membersDepth (xs ++ ys) = max (membersDepth xs) (membersDepth ys) := by
  induction xs with
  | nil => rw [List.nil_append, membersDepth, Nat.zero_max]
  | cons m xs ih => rw [List.cons_append, membersDepth, ih, membersDepth, Nat.max_assoc]

private theorem collectedItems_append (xs ys : List Value) :
    collectedItems (xs ++ ys) = collectedItems xs ++ collectedItems ys := by
  induction xs with
  | nil => rfl
  | cons v xs ih => rw [List.cons_append, collectedItems, ih, collectedItems, List.cons_append]

private theorem collectedMembers_append (before xs ys : List (Bytes × Value)) :
    collectedMembers before (xs ++ ys) = collectedMembers (collectedMembers before xs) ys := by
  induction xs generalizing before with
  | nil => rfl
  | cons m xs ih => rw [List.cons_append, collectedMembers, ih, collectedMembers]

/-- A container that is not closed, with the key its next value is for. -/
inductive Frame where
  | array (items : List Value)
  | object (members : List (Bytes × Value)) (key : Option Bytes)

def Frame.container : Frame → Container
  | .array items => .array (collectedItems items)
  | .object members _ => .object (collectedMembers [] members)

def Frame.keys : Frame → List Bytes
  | .object _ (some key) => [key]
  | _ => []

def Frame.depth : Frame → Nat
  | .array items => itemsDepth items
  | .object members _ => membersDepth members

/-- What was read of a container that the parser is in, by its state. -/
inductive FrameTokens : State → Frame → List Token → Prop
  | arrayStart : FrameTokens .arrayStart (.array []) [.arrayStart]
  | arrayGotValue (items : List Value) (v : Value) :
      FrameTokens .arrayGotValue (.array (items ++ [v]))
        (.arrayStart :: separated (itemTokens (items ++ [v])))
  | arrayNeedValue (items : List Value) :
      FrameTokens .arrayNeedValue (.array items) (.arrayStart :: led (itemTokens items))
  | objectStart : FrameTokens .objectStart (.object [] none) [.objectStart]
  | objectGotKey (members : List (Bytes × Value)) (key : Bytes) :
      FrameTokens .objectGotKey (.object members (some key))
        (.objectStart :: (led (memberTokens members) ++ [.string key]))
  | objectSeparator (members : List (Bytes × Value)) (key : Bytes) :
      FrameTokens .objectSeparator (.object members (some key))
        (.objectStart :: (led (memberTokens members) ++ [.string key, .keyvalSeparator]))
  | objectGotValue (members : List (Bytes × Value)) (m : Bytes × Value) :
      FrameTokens .objectGotValue (.object (members ++ [m]) none)
        (.objectStart :: separated (memberTokens (members ++ [m])))
  | objectNeedKey (members : List (Bytes × Value)) :
      FrameTokens .objectNeedKey (.object members none) (.objectStart :: led (memberTokens members))

/-- What was read of a document: the path to where the parser is, innermost container first, and
the states it came from. -/
inductive Open (maxDepth : Nat) : State → List State → List Frame → List Token → Prop
  | start : Open maxDepth .start [] [] []
  | inside {state state' : State} {states : List State} {frames : List Frame} {frame : Frame}
      {tokens tokens' : List Token} (outside : Open maxDepth state states frames tokens)
      (takes : state.takes (.array []) = true) (written : FrameTokens state' frame tokens')
      (room : frame.depth + (frames.length + 1) ≤ maxDepth) :
      Open maxDepth state' (state :: states) (frame :: frames) (tokens ++ tokens')

theorem Open.length {maxDepth : Nat} {state : State} {states : List State} {frames : List Frame}
    {tokens : List Token} (open_ : Open maxDepth state states frames tokens) :
    frames.length ≤ maxDepth ∧ states.length = frames.length := by
  induction open_ with
  | start => exact ⟨Nat.zero_le _, rfl⟩
  | inside _ _ _ room ih =>
    rw [List.length_cons, List.length_cons]
    exact ⟨by omega, by omega⟩

theorem Open.unfinished {maxDepth : Nat} {state : State} {states : List State}
    {frames : List Frame} {tokens : List Token}
    (open_ : Open maxDepth state states frames tokens) : state ≠ .complete := by
  rintro rfl
  cases open_ with
  | inside _ _ written _ => cases written

/-- The adapter holds the containers of a path, and the keys its dictionaries wait with. -/
structure Adapter.Holds (a : Adapter) (frames : List Frame) : Prop where
  stack : a.stack = frames.map Frame.container
  keys : a.keyStack = frames.flatMap Frame.keys
  value : a.value = none

private theorem Adapter.found_array {a : Adapter} {items : List Value} {stack : List Container}
    (top : a.stack = .array items :: stack) (obj : Value) :
    a.found obj = some { a with stack := .array (items ++ [obj]) :: stack } := by
  simp only [Adapter.found, top]

private theorem Adapter.found_object {a : Adapter} {members : List (Bytes × Value)}
    {stack : List Container} {key : Bytes} {keyStack : List Bytes}
    (top : a.stack = .object members :: stack) (keys : a.keyStack = key :: keyStack) (obj : Value) :
    a.found obj = some { a with
      stack := .object (setMember members key obj) :: stack
      keyStack := keyStack } := by
  simp only [Adapter.found, top, keys]

/-- A value is read where one is wanted: the adapter adds it to the innermost container. -/
theorem Open.value {maxDepth : Nat} {state : State} {states : List State} {frames : List Frame}
    {tokens : List Token} (open_ : Open maxDepth state states frames tokens) {a : Adapter}
    (holds : a.Holds frames) (v : Value) (takes : state.takes .null = true)
    (room : v.depth + frames.length ≤ maxDepth) :
    ∃ frames' a', a.found v.collected = some a' ∧
      Open maxDepth state.behind states frames' (tokens ++ v.tokens) ∧ a'.Holds frames' := by
  cases open_ with
  | start => exact absurd takes Bool.false_ne_true
  | inside outside outer written inner =>
    have stack := holds.stack
    have keys := holds.keys
    rw [List.length_cons] at room
    rw [List.append_assoc]
    cases written with
    | arrayGotValue => exact absurd takes Bool.false_ne_true
    | objectStart => exact absurd takes Bool.false_ne_true
    | objectGotKey => exact absurd takes Bool.false_ne_true
    | objectGotValue => exact absurd takes Bool.false_ne_true
    | objectNeedKey => exact absurd takes Bool.false_ne_true
    | arrayStart =>
      refine ⟨.array ([] ++ [v]) :: _, _, Adapter.found_array stack _,
        .inside outside outer ?_ ?_, ⟨rfl, keys, holds.value⟩⟩
      · have whole := FrameTokens.arrayGotValue [] v
        rw [separated_items] at whole
        exact whole
      · rw [Frame.depth, List.nil_append, itemsDepth, itemsDepth]
        omega
    | arrayNeedValue items =>
      refine ⟨.array (items ++ [v]) :: _, _, Adapter.found_array stack _,
        .inside outside outer ?_ ?_, ⟨?_, keys, holds.value⟩⟩
      · have whole := FrameTokens.arrayGotValue items v
        rw [separated_items] at whole
        exact whole
      · rw [Frame.depth, itemsDepth_append, itemsDepth, itemsDepth]
        rw [Frame.depth] at inner
        omega
      · rw [List.map_cons, Frame.container, collectedItems_append]
        rfl
    | objectSeparator members key =>
      refine ⟨.object (members ++ [(key, v)]) none :: _, _,
        Adapter.found_object stack keys _, .inside outside outer ?_ ?_, ⟨?_, rfl, holds.value⟩⟩
      · have whole := FrameTokens.objectGotValue members (key, v)
        rw [separated_members] at whole
        rw [List.cons_append, List.append_assoc]
        exact whole
      · rw [Frame.depth, membersDepth_append, membersDepth, membersDepth]
        rw [Frame.depth] at inner
        omega
      · rw [List.map_cons, Frame.container, collectedMembers_append]
        rfl

/-! ### Only documents are accepted -/

/-- How far a parser is that has taken the tokens. -/
inductive Reading (p : StreamParser) (tokens : List Token) : Prop
  | underway (frames : List Frame) (open_ : Open p.maxDepth p.state p.stateStack frames tokens)
      (holds : p.adapter.Holds frames)
  | finished (v : Value) (state : p.state = .complete) (container : v.isContainer = true)
      (room : v.depth ≤ p.maxDepth) (written : v.tokens = tokens)
      (value : p.adapter.value = some v.collected)
  | failed (state : p.state = .error)

theorem reading_init (maxDepth : Nat) : Reading (.init maxDepth) [] :=
  .underway [] .start ⟨rfl, rfl, rfl⟩

/-- A token that was taken leads on from what was read. -/
def Advances (p : StreamParser) (tokens : List Token) (next : Option StreamParser) : Prop :=
  ∃ q, next = some q ∧ q.maxDepth = p.maxDepth ∧ Reading q tokens

theorem advances_failed {p q : StreamParser} (tokens : List Token) (same : q.maxDepth = p.maxDepth)
    (state : q.state = .error) : Advances p tokens (some q) :=
  ⟨q, rfl, same, .failed state⟩

/-- A value that is one token. -/
theorem Open.scalar {p : StreamParser} {frames : List Frame} {tokens : List Token}
    (open_ : Open p.maxDepth p.state p.stateStack frames tokens) (holds : p.adapter.Holds frames)
    (token : Token) (v : Value) (takes : p.state.takes .null = true)
    (next : p.state.shouldTransitionTo token = p.state.behind)
    (same : v.collected = v ∧ v.tokens = [token] ∧ v.depth = 0) :
    Advances p (tokens ++ [token]) (p.handleValue token v) := by
  obtain ⟨collected, written, depth⟩ := same
  obtain ⟨frames', a, found, open', holds'⟩ := open_.value holds v takes (by
    rw [depth, Nat.zero_add]
    exact open_.length.1)
  rw [collected] at found
  rw [written] at open'
  refine ⟨{ p with adapter := a, state := p.state.behind }, ?_, rfl, .underway frames' open' holds'⟩
  rw [StreamParser.handleValue, found, Option.map_some, next]

/-- A container is closed: it is a value of the one around it, or the document. -/
theorem Open.close {p : StreamParser} {state : State} {states : List State} {frames : List Frame}
    {tokens : List Token} (open_ : Open p.maxDepth state states frames tokens) {a : Adapter}
    (holds : a.Holds frames) {token : Token} (v : Value) (container : v.isContainer = true)
    (takes : state.takes (.array []) = true)
    (next : state.shouldTransitionTo token = state.behind)
    (room : v.depth + frames.length ≤ p.maxDepth) :
    Advances p (tokens ++ v.tokens) ((a.found v.collected).map fun adapter =>
      { p with
        state := state.shouldTransitionTo token
        stateStack := states
        adapter := adapter }) := by
  rw [next]
  cases inner : state.takes .null with
  | true =>
    obtain ⟨frames', a', found, open', holds'⟩ := open_.value holds v inner room
    rw [found]
    exact ⟨_, rfl, rfl, .underway frames' open' holds'⟩
  | false =>
    cases open_ with
    | start =>
      have top : a.stack = [] := holds.stack
      have found : a.found v.collected = some { a with value := some v.collected } := by
        simp only [Adapter.found, top]
      rw [found]
      exact ⟨_, rfl, rfl, .finished v rfl container room rfl rfl⟩
    | inside _ _ written _ =>
      -- inside a container, whatever takes one takes any value
      cases written <;> first | exact absurd takes Bool.false_ne_true | cases inner

/-- The tokens that open a container. -/
theorem Open.begin {p : StreamParser} {frames : List Frame} {tokens : List Token}
    (open_ : Open p.maxDepth p.state p.stateStack frames tokens) {state : State} {frame : Frame}
    {token : Token} {adapter : Adapter} (takes : p.state.takes (.array []) = true)
    (written : FrameTokens state frame [token])
    (empty : frame.depth = 0) (starts : adapter.Holds (frame :: frames)) :
    Advances p (tokens ++ [token]) (some
      (if p.maxDepth ≤ p.stateStack.length then p.maxDepthError
      else
        { p with
          adapter := adapter
          stateStack := p.state :: p.stateStack
          state := state })) := by
  have length := open_.length.2
  split
  · exact advances_failed _ rfl rfl
  next room =>
    have inside : frame.depth + (frames.length + 1) ≤ p.maxDepth := by
      rw [empty]
      omega
    exact ⟨_, rfl, rfl, .underway (frame :: frames) (.inside open_ takes written inside) starts⟩

/-- The tokens that are a value wherever they are accepted. -/
def Token.isScalar : Token → Bool
  | .number _ | .true_ | .false_ | .null => true
  | _ => false

private theorem accepts_scalar {state : State} {token : Token} (scalar : token.isScalar = true)
    (accepted : state.shouldAcceptToken token = true) :
    state.takes .null = true ∧ state.shouldTransitionTo token = state.behind := by
  cases state <;> cases token <;>
    first
      | exact ⟨rfl, rfl⟩
      | exact absurd accepted Bool.false_ne_true
      | exact absurd scalar Bool.false_ne_true

private theorem accepts_string {state : State} {text : Bytes}
    (accepted : state.shouldAcceptToken (.string text) = true) (keyless : ¬ state.needKey = true) :
    state.takes .null = true ∧ state.shouldTransitionTo (.string text) = state.behind := by
  cases state <;>
    first
      | exact ⟨rfl, rfl⟩
      | exact absurd accepted Bool.false_ne_true
      | exact absurd rfl keyless

private theorem accepts_container {state : State} {token : Token}
    (accepted : state.shouldAcceptToken token = true)
    (starts : token = .arrayStart ∨ token = .objectStart) : state.takes (.array []) = true := by
  rcases starts with rfl | rfl <;> cases state <;>
    first | rfl | exact absurd accepted Bool.false_ne_true

/-- Only the frame the parser is in changes. -/
private theorem Open.go_on {p : StreamParser} {state' : State} {states : List State}
    {frames : List Frame} {frame : Frame} {tokens tokens' more : List Token}
    (outside : Open p.maxDepth state' states frames tokens)
    (takes : state'.takes (.array []) = true) {state : State} {adapter : Adapter}
    (written : FrameTokens state frame (tokens' ++ more))
    (room : frame.depth + (frames.length + 1) ≤ p.maxDepth)
    (holds : adapter.Holds (frame :: frames)) :
    Advances p (tokens ++ tokens' ++ more)
      (some { p with state := state, stateStack := state' :: states, adapter := adapter }) := by
  rw [List.append_assoc]
  exact ⟨_, rfl, rfl, .underway (frame :: frames) (.inside outside takes written room) holds⟩

section Inside

variable {p : StreamParser} {frames : List Frame} {tokens : List Token}
  (open_ : Open p.maxDepth p.state p.stateStack frames tokens) (holds : p.adapter.Holds frames)

include open_ holds

theorem Open.key (needs : p.state.needKey = true) (key : Bytes) :
    Advances p (tokens ++ [.string key]) (some { p with
      adapter := p.adapter.foundObjectKey key
      state := p.state.shouldTransitionTo (.string key) }) := by
  obtain ⟨state, stateStack, maxDepth, error, adapter⟩ := p
  dsimp only at open_ holds needs
  cases open_ with
  | start => cases needs
  | inside outside takes written room =>
    have keys := holds.keys
    cases written with
    | objectStart =>
      exact outside.go_on takes (.objectGotKey [] key) room
        ⟨holds.stack, congrArg (key :: ·) keys, holds.value⟩
    | objectNeedKey members =>
      exact outside.go_on takes (.objectGotKey members key) room
        ⟨holds.stack, congrArg (key :: ·) keys, holds.value⟩
    | _ => cases needs

theorem Open.separator (accepted : p.state.shouldAcceptToken .separator = true) :
    Advances p (tokens ++ [.separator])
      (some { p with state := p.state.shouldTransitionTo .separator }) := by
  obtain ⟨state, stateStack, maxDepth, error, adapter⟩ := p
  dsimp only at open_ holds accepted
  cases open_ with
  | start => exact absurd accepted Bool.false_ne_true
  | inside outside takes written room =>
    cases written with
    | arrayGotValue items v =>
      refine outside.go_on takes ?_ room holds
      have more := FrameTokens.arrayNeedValue (items ++ [v])
      rw [led_items] at more
      exact more
    | objectGotValue members m =>
      refine outside.go_on takes ?_ room holds
      have more := FrameTokens.objectNeedKey (members ++ [m])
      rw [led_members] at more
      exact more
    | _ => exact absurd accepted Bool.false_ne_true

theorem Open.keyvalSeparator (accepted : p.state.shouldAcceptToken .keyvalSeparator = true) :
    Advances p (tokens ++ [.keyvalSeparator])
      (some { p with state := p.state.shouldTransitionTo .keyvalSeparator }) := by
  obtain ⟨state, stateStack, maxDepth, error, adapter⟩ := p
  dsimp only at open_ holds accepted
  cases open_ with
  | start => exact absurd accepted Bool.false_ne_true
  | inside outside takes written room =>
    cases written with
    | objectGotKey members key =>
      refine outside.go_on takes ?_ room ⟨holds.stack, holds.keys, holds.value⟩
      rw [List.cons_append, List.append_assoc]
      exact .objectSeparator members key
    | _ => exact absurd accepted Bool.false_ne_true

theorem Open.arrayEnd (accepted : p.state.shouldAcceptToken .arrayEnd = true) :
    Advances p (tokens ++ [.arrayEnd]) (p.handleEnd .arrayEnd Adapter.foundArrayEnd) := by
  obtain ⟨state, stateStack, maxDepth, error, adapter⟩ := p
  dsimp only at open_ holds accepted
  cases open_ with
  | start => exact absurd accepted Bool.false_ne_true
  | @inside outer _ states frames _ tokens _ outside takes written room =>
    have closed : ∀ items : List Value, itemsDepth items + (frames.length + 1) ≤ maxDepth →
        adapter.Holds (.array items :: frames) →
        Advances ⟨state, outer :: states, maxDepth, error, adapter⟩
          (tokens ++ (Value.array items).tokens)
          (StreamParser.handleEnd ⟨state, outer :: states, maxDepth, error, adapter⟩ .arrayEnd
            Adapter.foundArrayEnd) := by
      intro items room holds
      have inner : { adapter with stack := frames.map Frame.container }.Holds frames :=
        ⟨rfl, holds.keys, holds.value⟩
      have top : adapter.stack = .array (collectedItems items) :: frames.map Frame.container :=
        holds.stack
      have depth : (Value.array items).depth + frames.length ≤ maxDepth := by
        rw [Value.depth]
        omega
      rw [StreamParser.handleEnd, Adapter.foundArrayEnd, top]
      exact outside.close (p := ⟨state, outer :: states, maxDepth, error, adapter⟩) inner
        (.array items) rfl takes rfl depth
    rw [List.append_assoc]
    cases written with
    | arrayStart => exact closed [] room holds
    | arrayGotValue items v =>
      have whole := closed (items ++ [v]) room holds
      rw [Value.tokens] at whole
      exact whole
    | _ => exact absurd accepted Bool.false_ne_true

theorem Open.objectEnd (accepted : p.state.shouldAcceptToken .objectEnd = true) :
    Advances p (tokens ++ [.objectEnd]) (p.handleEnd .objectEnd Adapter.foundObjectEnd) := by
  obtain ⟨state, stateStack, maxDepth, error, adapter⟩ := p
  dsimp only at open_ holds accepted
  cases open_ with
  | start => exact absurd accepted Bool.false_ne_true
  | @inside outer _ states frames _ tokens _ outside takes written room =>
    have closed : ∀ members : List (Bytes × Value),
        membersDepth members + (frames.length + 1) ≤ maxDepth →
        adapter.Holds (.object members none :: frames) →
        Advances ⟨state, outer :: states, maxDepth, error, adapter⟩
          (tokens ++ (Value.object members).tokens)
          (StreamParser.handleEnd ⟨state, outer :: states, maxDepth, error, adapter⟩ .objectEnd
            Adapter.foundObjectEnd) := by
      intro members room holds
      have inner : { adapter with stack := frames.map Frame.container }.Holds frames :=
        ⟨rfl, holds.keys, holds.value⟩
      have top : adapter.stack =
          .object (collectedMembers [] members) :: frames.map Frame.container := holds.stack
      have depth : (Value.object members).depth + frames.length ≤ maxDepth := by
        rw [Value.depth]
        omega
      rw [StreamParser.handleEnd, Adapter.foundObjectEnd, top]
      exact outside.close (p := ⟨state, outer :: states, maxDepth, error, adapter⟩) inner
        (.object members) rfl takes (transition_objectEnd outer) depth
    rw [List.append_assoc]
    cases written with
    | objectStart => exact closed [] room holds
    | objectGotValue members m =>
      have whole := closed (members ++ [m]) room holds
      rw [Value.tokens] at whole
      exact whole
    | _ => exact absurd accepted Bool.false_ne_true

end Inside

theorem reading_take {p : StreamParser} {tokens : List Token} (reading : Reading p tokens)
    (running : p.state.isError = false) (token : Token) :
    Advances p (tokens ++ [token]) (p.take token) := by
  cases accepted : p.state.shouldAcceptToken token with
  | false =>
    rw [StreamParser.take, if_neg (by simp [accepted])]
    exact advances_failed _ rfl rfl
  | true =>
    rw [StreamParser.take, if_pos accepted]
    cases reading with
    | failed state => rw [state] at running; cases running
    | finished v state => rw [state] at accepted; cases accepted
    | underway frames open_ holds =>
      cases token with
      | objectStart =>
        exact open_.begin (accepts_container accepted (Or.inr rfl)) .objectStart rfl
          ⟨by rw [Adapter.foundObjectStart, holds.stack]; rfl, holds.keys, holds.value⟩
      | arrayStart =>
        exact open_.begin (accepts_container accepted (Or.inl rfl)) .arrayStart rfl
          ⟨by rw [Adapter.foundArrayStart, holds.stack]; rfl, holds.keys, holds.value⟩
      | true_ =>
        obtain ⟨takes, next⟩ := accepts_scalar rfl accepted
        exact open_.scalar holds .true_ (.bool true) takes next ⟨rfl, rfl, rfl⟩
      | false_ =>
        obtain ⟨takes, next⟩ := accepts_scalar rfl accepted
        exact open_.scalar holds .false_ (.bool false) takes next ⟨rfl, rfl, rfl⟩
      | null =>
        obtain ⟨takes, next⟩ := accepts_scalar rfl accepted
        exact open_.scalar holds .null .null takes next ⟨rfl, rfl, rfl⟩
      | number n =>
        obtain ⟨takes, next⟩ := accepts_scalar rfl accepted
        exact open_.scalar holds (.number n) (.number n) takes next ⟨rfl, rfl, rfl⟩
      | string text =>
        rw [StreamParser.handle]
        split
        next needs => exact open_.key holds needs text
        next keyless =>
          obtain ⟨takes, next⟩ := accepts_string accepted keyless
          exact open_.scalar holds (.string text) (.string text) takes next ⟨rfl, rfl, rfl⟩
      | separator => exact open_.separator holds accepted
      | keyvalSeparator => exact open_.keyvalSeparator holds accepted
      | arrayEnd => exact open_.arrayEnd holds accepted
      | objectEnd => exact open_.objectEnd holds accepted

theorem reading_takeAll {p : StreamParser} {tokens : List Token} (reading : Reading p tokens)
    (more : List Token) : Advances p (tokens ++ more) (p.takeAll more) := by
  induction more generalizing p tokens with
  | nil =>
    rw [List.append_nil]
    exact ⟨p, rfl, rfl, reading⟩
  | cons token more ih =>
    cases running : p.state.isError with
    | true =>
      rw [takeAll_error running]
      refine advances_failed _ rfl ?_
      cases state : p.state <;> rw [state] at running <;> first | rfl | cases running
    | false =>
      obtain ⟨q, taken, same, next⟩ := reading_take reading running token
      rw [StreamParser.takeAll, if_neg (by simp [running]), taken, Option.bind_some]
      obtain ⟨last, left, same', rest⟩ := ih next
      rw [List.append_assoc] at rest
      exact ⟨last, left, same'.trans same, rest⟩

/-- A parser has a document behind it exactly if the tokens are those of an array or a dictionary
that is not nested too deeply. -/
theorem takeAll_complete_iff (maxDepth : Nat) (tokens : List Token) (q : StreamParser)
    (taken : (StreamParser.init maxDepth).takeAll tokens = some q) :
    q.state = .complete ↔
      ∃ v : Value, v.isContainer = true ∧ v.depth ≤ maxDepth ∧ v.tokens = tokens ∧
        q.adapter.value = some v.collected := by
  obtain ⟨q', taken', same, reading⟩ := reading_takeAll (reading_init maxDepth) tokens
  obtain rfl := Option.some.inj (taken.symm.trans taken')
  constructor
  · intro state
    cases reading with
    | failed error => exact absurd (state.symm.trans error) (by decide)
    | underway frames open_ => exact absurd state open_.unfinished
    | finished v _ container room written value =>
      rw [same] at room
      exact ⟨v, container, room, written, value⟩
  · rintro ⟨v, container, room, rfl, -⟩
    have whole := takeAll_value v (.init maxDepth) { Adapter.init with value := some v.collected }
      container room rfl
    rw [whole] at taken
    obtain rfl := Option.some.inj taken
    rfl

end Spamass.Json
