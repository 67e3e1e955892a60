import Spamass.Json.StreamWriter

/-!
# What is written

The text of an object, with white space or without. The writer writes it in front of whatever
is written next if the object is not nested too deeply and has nothing in it that JSON has no
text for; otherwise it fails.
-/
namespace Spamass.Json

open Spamass.App Spamass.Emailz

/-! ### Texts -/

/-- What stands in front of a value or a key. -/
def WriterState.lead (humanReadable : Bool) (depth : Nat) (state : WriterState) : Bytes :=
  state.separator ++ if humanReadable && state != .start then state.whitespace depth else []

/-- What stands in front of a closing bracket. -/
def closingSpace (humanReadable : Bool) (depth : Nat) : Bytes :=
  if humanReadable then WriterState.whitespace depth .arrayStart else []

mutual

/-- How many containers are one inside the other. -/
def WriterObject.depth {δ : Type} : WriterObject δ → Nat
  | .dictionary members => membersNesting members + 1
  | .array items => itemsNesting items + 1
  | _ => 0

def itemsNesting {δ : Type} : List (WriterObject δ) → Nat
  | [] => 0
  | v :: items => max v.depth (itemsNesting items)

def membersNesting {δ : Type} : List (Option Bytes × WriterObject δ) → Nat
  | [] => 0
  | (_, v) :: members => max v.depth (membersNesting members)

end

def WriterObject.isContainer {δ : Type} : WriterObject δ → Bool
  | .dictionary _ | .array _ => true
  | _ => false

section Texts

variable {δ : Type} (texts : NumberTexts δ) (humanReadable : Bool)

mutual

def WriterObject.text (depth : Nat) : WriterObject δ → Bytes
  | .dictionary members =>
    ascii "\x7b" ++ (membersText (depth + 1) .objectStart members ++
      (closingSpace humanReadable depth ++ ascii "\x7d"))
  | .array items =>
    ascii "[" ++ (itemsText (depth + 1) .arrayStart items ++
      (closingSpace humanReadable depth ++ ascii "]"))
  | .string text => stringText text
  | .number n => numberText texts n
  | .bool true => ascii "true"
  | .bool false => ascii "false"
  | .null => ascii "null"
  | .other => []

def itemsText (depth : Nat) (state : WriterState) : List (WriterObject δ) → Bytes
  | [] => []
  | v :: items =>
    state.lead humanReadable depth ++ (v.text depth ++ itemsText depth .arrayValue items)

def membersText (depth : Nat) (state : WriterState) : List (Option Bytes × WriterObject δ) → Bytes
  | [] => []
  | (key, v) :: members =>
    state.lead humanReadable depth ++ (stringText (key.getD []) ++
      (WriterState.lead humanReadable depth .objectValue ++
        (v.text depth ++ membersText depth .objectKey members)))

end

mutual

/-- Every number is finite, every key is a string and everything has a class for JSON. -/
def WriterObject.writable : WriterObject δ → Bool
  | .dictionary members => membersWritable members
  | .array items => itemsWritable items
  | .number n => (refusal texts n).isNone
  | .other => false
  | _ => true

def itemsWritable : List (WriterObject δ) → Bool
  | [] => true
  | v :: items => v.writable && itemsWritable items

def membersWritable : List (Option Bytes × WriterObject δ) → Bool
  | [] => true
  | (key, v) :: members => key.isSome && (v.writable && membersWritable members)

end

end Texts

/-! ### The writer -/

namespace StreamWriter

variable {δ : Type} {texts : NumberTexts δ} {w : StreamWriter} {v : WriterObject δ}

/-- There is room for so many containers more. -/
def Room (w : StreamWriter) (depth : Nat) : Prop :=
  w.maxDepth = 0 ∨ depth + w.stateStack.length ≤ w.maxDepth

/-- The text of a value may come. -/
structure Ready (w : StreamWriter) (v : WriterObject δ) : Prop where
  state : w.state = .start ∧ v.isContainer = true ∨ w.state = .objectValue ∨
    w.state = .arrayStart ∨ w.state = .arrayValue
  stack : w.state = .start ↔ w.stateStack = []
  room : w.Room 0

/-- The writer behind a text. -/
def wrote (w : StreamWriter) (state : WriterState) (text : Bytes) : StreamWriter :=
  { w with state := state, data := w.data ++ text }

/-- The writer inside a container. -/
def entered (w : StreamWriter) (inside : WriterState) (bracket : Bytes) : StreamWriter :=
  { w with
    state := inside
    stateStack := w.state :: w.stateStack
    data := w.data ++ (w.state.lead w.humanReadable w.stateStack.length ++ bracket) }

/-- The state behind the parts of a container. -/
def after {α : Type} (state next : WriterState) : List α → WriterState
  | [] => state
  | _ :: _ => next

/-- The text of a value, behind what stands in front of it. -/
def led (w : StreamWriter) (texts : NumberTexts δ) (v : WriterObject δ) : Bytes :=
  w.state.lead w.humanReadable w.stateStack.length ++
    v.text texts w.humanReadable w.stateStack.length

private theorem wrote_wrote (w : StreamWriter) (state state' : WriterState) (text text' : Bytes) :
    (w.wrote state text).wrote state' text' = w.wrote state' (text ++ text') := by
  simp only [wrote, List.append_assoc]

private theorem Ready.may (ready : w.Ready v) :
    w.state.isInvalidState = false ∧ w.state.expectingKey = false := by
  rcases ready.state with ⟨state, -⟩ | state | state | state <;> rw [state] <;> exact ⟨rfl, rfl⟩

theorem Ready.inside (ready : w.Ready v) (scalar : v.isContainer = false) : w.state ≠ .start := by
  rcases ready.state with ⟨-, container⟩ | state | state | state
  · exact absurd (scalar.symm.trans container) Bool.false_ne_true
  all_goals
    rw [state]
    decide

private theorem append_append (w : StreamWriter) (text text' : Bytes) :
    (w.append text).append text' = w.append (text ++ text') := by
  simp only [append, List.append_assoc]

private theorem appendWhitespace_eq (w : StreamWriter) (state : WriterState) :
    w.appendWhitespace state =
      w.append (if w.humanReadable then state.whitespace w.stateStack.length else []) := by
  rw [appendWhitespace]
  split
  · rfl
  · rw [append, List.append_nil]

/-- The separator and the white space of a state behind the first one. -/
theorem spaced (w : StreamWriter) (inside : w.state ≠ .start) :
    w.appendSeparator.appendWhitespace w.state =
      w.append (w.state.lead w.humanReadable w.stateStack.length) := by
  have later : (w.state != .start) = true := bne_iff_ne.mpr inside
  rw [WriterState.lead, later, Bool.and_true, appendWhitespace_eq, appendSeparator, append_append]
  rfl

/-- A step that succeeds under a condition, and fails otherwise. -/
def Writes (ok : Prop) (result : StreamWriter × Bool) (w' : StreamWriter) : Prop :=
  (ok → result = (w', true)) ∧ (¬ ok → result.2 = false)

private theorem writes_always {result : StreamWriter × Bool} {w' : StreamWriter}
    (wrote : result = (w', true)) : Writes True result w' :=
  ⟨fun _ => wrote, fun never => absurd trivial never⟩

theorem Writes.congr {ok ok' : Prop} {result : StreamWriter × Bool} {w' : StreamWriter}
    (writes : Writes ok result w') (same : ok ↔ ok') : Writes ok' result w' :=
  ⟨fun holds => writes.1 (same.mpr holds), fun fails => writes.2 (mt same.mp fails)⟩

/-- Steps one after another. -/
theorem Writes.andThen {ok ok' : Prop} {result : StreamWriter × Bool} {w' w'' : StreamWriter}
    {next : StreamWriter → StreamWriter × Bool} (first : Writes ok result w')
    (later : ok → Writes ok' (next w') w'') : Writes (ok ∧ ok') (andThen result next) w'' := by
  constructor
  · rintro ⟨holds, holds'⟩
    rw [first.1 holds, StreamWriter.andThen, if_pos rfl]
    exact (later holds).1 holds'
  · intro fails
    by_cases holds : ok
    · rw [first.1 holds, StreamWriter.andThen, if_pos rfl]
      exact (later holds).2 fun holds' => fails ⟨holds, holds'⟩
    -- a step that has failed is not followed by another one
    · have failed := first.2 holds
      rw [StreamWriter.andThen, failed, if_neg Bool.false_ne_true]
      exact failed

/-- An object that is written in one step. -/
theorem Ready.writeText (ready : w.Ready v) (scalar : v.isContainer = false)
    (refused : Option WriterError) (text : Bytes) :
    Writes (refused.isNone = true) (w.writeText refused text) (w.wrote w.state.transition
      (w.state.lead w.humanReadable w.stateStack.length ++ text)) := by
  obtain ⟨valid, value⟩ := ready.may
  have inside := ready.inside scalar
  rw [StreamWriter.writeText, valid, value, if_neg Bool.false_ne_true, if_neg Bool.false_ne_true]
  dsimp only
  rw [spaced w inside]
  cases refused with
  | some e => exact ⟨fun allowed => absurd allowed Bool.false_ne_true, fun _ => rfl⟩
  | none =>
    refine (writes_always ?_).congr (iff_of_true trivial rfl)
    dsimp only
    rw [append_append]
    rfl

theorem writeString_eq (w : StreamWriter) (string : Bytes) (valid : w.state.isInvalidState = false)
    (inside : w.state ≠ .start) :
    w.writeString string =
      (w.wrote w.state.transition
        (w.state.lead w.humanReadable w.stateStack.length ++ stringText string), true) := by
  rw [writeString, valid, if_neg Bool.false_ne_true, spaced w inside, append_append]
  rfl

/-- A container is opened if there is room for it. -/
theorem Ready.open_ (ready : w.Ready v) (inside : WriterState) (bracket : Bytes) :
    Writes (w.Room 1) (w.open_ inside bracket) (w.entered inside bracket) := by
  obtain ⟨valid, value⟩ := ready.may
  have led : (if w.appendSeparator.stateStack.isEmpty then w.appendSeparator
      else w.appendSeparator.appendWhitespace w.appendSeparator.state) =
      w.append (w.state.lead w.humanReadable w.stateStack.length) := by
    -- the first bracket has no white space in front of it
    by_cases start : w.state = .start
    · have empty : w.appendSeparator.stateStack.isEmpty = true := by
        rw [List.isEmpty_iff]
        exact ready.stack.mp start
      have first : (w.state != .start) = false := by rw [start]; rfl
      rw [if_pos empty, WriterState.lead, first, Bool.and_false, if_neg Bool.false_ne_true,
        List.append_nil]
      rfl
    · have present : ¬ w.appendSeparator.stateStack.isEmpty = true := by
        rw [List.isEmpty_iff]
        exact fun empty => start (ready.stack.mpr empty)
      rw [if_neg present]
      exact spaced w start
  unfold StreamWriter.open_
  rw [valid, value, if_neg Bool.false_ne_true, if_neg Bool.false_ne_true]
  dsimp only
  rw [led]
  have deep : (w.maxDepth ≠ 0 ∧ w.maxDepth < (w.state :: w.stateStack).length) ↔ ¬ w.Room 1 := by
    rw [Room, List.length_cons]
    omega
  constructor
  · intro room
    split
    next full => exact absurd room (deep.mp full)
    · simp only [append, entered, List.append_assoc]
  · intro full
    split
    · rfl
    next fits => exact absurd (deep.mpr full) fits

theorem whitespace_inside {state : WriterState} (inside : state ≠ .objectValue) (depth : Nat) :
    state.whitespace depth = WriterState.whitespace depth .arrayStart := by
  cases state <;> first | rfl | exact absurd rfl inside

/-- A container is closed. -/
private theorem pop_entered (w : StreamWriter) (first : WriterState) {state : WriterState}
    (inside : state ≠ .objectValue) (opening text bracket : Bytes) :
    ((w.entered first opening).wrote state text).pop bracket =
      (w.wrote w.state.transition (w.state.lead w.humanReadable w.stateStack.length ++
        (opening ++ (text ++ (closingSpace w.humanReadable w.stateStack.length ++ bracket)))),
        true) := by
  have space := whitespace_inside inside w.stateStack.length
  rw [pop, appendWhitespace_eq, append_append]
  simp only [entered, wrote, List.headD_cons, List.tail_cons, space, closingSpace, append,
    transitionState, List.append_assoc]

theorem room_container (w : StreamWriter) (inside : WriterState) (bracket : Bytes) (depth : Nat) :
    w.Room (depth + 1) ↔ w.Room 1 ∧ (w.entered inside bracket).Room depth := by
  simp only [Room, entered, List.length_cons]
  omega

private theorem room_max (w : StreamWriter) (depth depth' : Nat) :
    w.Room (max depth depth') ↔ w.Room depth ∧ w.Room depth' := by
  simp only [Room]
  omega

private theorem after_same {α : Type} (state : WriterState) (parts : List α) :
    after state state parts = state := by
  cases parts <;> rfl

theorem writeArrayClose_entered (w : StreamWriter) (items : List (WriterObject δ)) (text : Bytes) :
    ((w.entered .arrayStart (ascii "[")).wrote (after .arrayStart .arrayValue items)
        text).writeArrayClose =
      (w.wrote w.state.transition (w.state.lead w.humanReadable w.stateStack.length ++
        (ascii "[" ++ (text ++ (closingSpace w.humanReadable w.stateStack.length ++ ascii "]")))),
        true) := by
  cases items with
  | nil =>
    have inside : WriterState.arrayStart ≠ .objectValue := by decide
    exact pop_entered w .arrayStart inside _ text _
  | cons v items =>
    have inside : WriterState.arrayValue ≠ .objectValue := by decide
    exact pop_entered w .arrayStart inside _ text _

theorem writeObjectClose_entered (w : StreamWriter) (members : List (Option Bytes × WriterObject δ))
    (text : Bytes) :
    ((w.entered .objectStart (ascii "\x7b")).wrote (after .objectStart .objectKey members)
        text).writeObjectClose =
      (w.wrote w.state.transition (w.state.lead w.humanReadable w.stateStack.length ++
        (ascii "\x7b" ++ (text ++ (closingSpace w.humanReadable w.stateStack.length ++ ascii "\x7d")))),
        true) := by
  cases members with
  | nil =>
    have inside : WriterState.objectStart ≠ .objectValue := by decide
    exact pop_entered w .objectStart inside _ text _
  | cons m members =>
    have inside : WriterState.objectKey ≠ .objectValue := by decide
    exact pop_entered w .objectStart inside _ text _

/-- A key leads to its value. -/
private theorem writeString_key (w : StreamWriter) (key : Bytes)
    (state : w.state = .objectStart ∨ w.state = .objectKey) :
    w.writeString key =
      (w.wrote .objectValue
        (w.state.lead w.humanReadable w.stateStack.length ++ stringText key), true) := by
  have next : w.state.transition = .objectValue ∧ w.state.isInvalidState = false ∧
      w.state ≠ .start := by
    rcases state with state | state <;> rw [state] <;> exact ⟨rfl, rfl, by decide⟩
  rw [writeString_eq w key next.2.1 next.2.2, next.1]

mutual

/-- A value is written if there is room for it and its numbers can be spelled. -/
private theorem writeValue_writes (v : WriterObject δ) (w : StreamWriter) (ready : w.Ready v) :
    Writes (w.Room v.depth ∧ v.writable texts = true) (w.writeValue texts v)
      (w.wrote w.state.transition (w.led texts v)) := by
  match v with
  | .null =>
    exact (ready.writeText rfl none (ascii "null")).congr (and_iff_right ready.room).symm
  | .bool true =>
    exact (ready.writeText rfl none (ascii "true")).congr (and_iff_right ready.room).symm
  | .bool false =>
    exact (ready.writeText rfl none (ascii "false")).congr (and_iff_right ready.room).symm
  | .number n =>
    exact (ready.writeText rfl (refusal texts n) (numberText texts n)).congr
      (and_iff_right ready.room).symm
  | .other => exact ⟨fun allowed => absurd allowed.2 Bool.false_ne_true, fun _ => rfl⟩
  | .string text =>
    have whole := writeString_eq w text ready.may.1 (ready.inside rfl)
    refine (writes_always ?_).congr (iff_of_true trivial ⟨ready.room, rfl⟩)
    rw [writeValue, whole]
    rfl
  | .array items =>
    rw [writeValue, WriterObject.depth, WriterObject.writable, room_container w .arrayStart (ascii "["),
      and_assoc]
    refine (ready.open_ .arrayStart (ascii "[")).andThen fun room => ?_
    have parts := writeItems_writes items (w.entered .arrayStart (ascii "[")) (Or.inl rfl)
      (List.cons_ne_nil _ _) ((room_container w .arrayStart (ascii "[") 0).mp room).2
    exact (parts.andThen fun _ => writes_always (writeArrayClose_entered w items _)).congr
      (and_iff_left trivial)
  | .dictionary members =>
    rw [writeValue, WriterObject.depth, WriterObject.writable, room_container w .objectStart (ascii "\x7b"),
      and_assoc]
    refine (ready.open_ .objectStart (ascii "\x7b")).andThen fun room => ?_
    have parts := writeMembers_writes members (w.entered .objectStart (ascii "\x7b")) (Or.inl rfl)
      (List.cons_ne_nil _ _) ((room_container w .objectStart (ascii "\x7b") 0).mp room).2
    exact (parts.andThen fun _ => writes_always (writeObjectClose_entered w members _)).congr
      (and_iff_left trivial)

private theorem writeItems_writes (items : List (WriterObject δ)) (w : StreamWriter)
    (state : w.state = .arrayStart ∨ w.state = .arrayValue) (inside : w.stateStack ≠ [])
    (room : w.Room 0) :
    Writes (w.Room (itemsNesting items) ∧ itemsWritable texts items = true)
      (w.writeItems texts items)
      (w.wrote (after w.state .arrayValue items)
        (itemsText texts w.humanReadable w.stateStack.length w.state items)) := by
  match items with
  | [] =>
    refine (writes_always ?_).congr (iff_of_true trivial ⟨room, rfl⟩)
    rw [writeItems, itemsText, wrote, List.append_nil]
    rfl
  | v :: items =>
    have next : w.state.transition = .arrayValue ∧ w.state ≠ .start := by
      rcases state with state | state <;> rw [state] <;> exact ⟨rfl, by decide⟩
    have first := writeValue_writes v w
      ⟨state.elim (Or.inr ∘ Or.inr ∘ Or.inl) (Or.inr ∘ Or.inr ∘ Or.inr),
        iff_of_false next.2 inside, room⟩
    rw [next.1] at first
    have later := writeItems_writes items (w.wrote .arrayValue (w.led texts v)) (Or.inr rfl)
      inside room
    have text : (w.wrote .arrayValue (w.led texts v)).wrote
        (after .arrayValue .arrayValue items)
        (itemsText texts w.humanReadable w.stateStack.length .arrayValue items) =
        w.wrote .arrayValue
          (itemsText texts w.humanReadable w.stateStack.length w.state (v :: items)) := by
      rw [wrote_wrote, after_same, led, itemsText, List.append_assoc]
    rw [writeItems, after, ← text]
    refine (first.andThen fun _ => later).congr ?_
    rw [itemsNesting, itemsWritable, room_max, Bool.and_eq_true]
    exact and_and_and_comm

theorem writeMembers_writes (members : List (Option Bytes × WriterObject δ)) (w : StreamWriter)
    (state : w.state = .objectStart ∨ w.state = .objectKey) (inside : w.stateStack ≠ [])
    (room : w.Room 0) :
    Writes (w.Room (membersNesting members) ∧ membersWritable texts members = true)
      (w.writeMembers texts members)
      (w.wrote (after w.state .objectKey members)
        (membersText texts w.humanReadable w.stateStack.length w.state members)) := by
  match members with
  | [] =>
    refine (writes_always ?_).congr (iff_of_true trivial ⟨room, rfl⟩)
    rw [writeMembers, membersText, wrote, List.append_nil]
    rfl
  | (none, v) :: members =>
    exact ⟨fun allowed => absurd allowed.2 Bool.false_ne_true, fun _ => rfl⟩
  | (some key, v) :: members =>
    have value : WriterState.objectValue ≠ .start := by decide
    let front := w.state.lead w.humanReadable w.stateStack.length ++ stringText key
    have first := writeValue_writes v (w.wrote .objectValue front)
      ⟨Or.inr (Or.inl rfl), iff_of_false value inside, room⟩
    have later := writeMembers_writes members
      ((w.wrote .objectValue front).wrote .objectKey
        ((w.wrote .objectValue front).led texts v)) (Or.inr rfl) inside room
    have text : ((w.wrote .objectValue front).wrote .objectKey
        ((w.wrote .objectValue front).led texts v)).wrote
        (after .objectKey .objectKey members)
        (membersText texts w.humanReadable w.stateStack.length .objectKey members) =
        w.wrote .objectKey (membersText texts w.humanReadable w.stateStack.length w.state
          ((some key, v) :: members)) := by
      rw [wrote_wrote, wrote_wrote, after_same, led, membersText, List.append_assoc,
        List.append_assoc]
      rfl
    rw [writeMembers, after, ← text, writeString_key w key state]
    refine ((writes_always rfl).andThen fun _ => first.andThen fun _ => later).congr ?_
    rw [true_and, membersNesting, membersWritable, room_max, Option.isSome_some, Bool.true_and,
      Bool.and_eq_true]
    exact and_and_and_comm

end

end StreamWriter

/-- `dataWithObject:` gives the text of the arrays and dictionaries that are not nested too deeply
and can be written, and no others. -/
theorem dataWithObject_text {δ : Type} (texts : NumberTexts δ) (maxDepth : Nat)
    (humanReadable : Bool) {v : WriterObject δ} (container : v.isContainer = true) :
    let ok := (maxDepth = 0 ∨ v.depth ≤ maxDepth) ∧ v.writable texts = true
    (ok → dataWithObject texts maxDepth humanReadable v = .ok (v.text texts humanReadable 0)) ∧
    (¬ ok → ∃ e, dataWithObject texts maxDepth humanReadable v = .error e) := by
  have writes : StreamWriter.Writes _
      ((StreamWriter.init maxDepth humanReadable).writeValue texts v) _ :=
    StreamWriter.writeValue_writes v _
      ⟨Or.inl ⟨rfl, container⟩, iff_of_true rfl rfl, Or.inr (Nat.zero_le _)⟩
  have whole : dataWithObject texts maxDepth humanReadable v =
      let result := (StreamWriter.init maxDepth humanReadable).writeValue texts v
      if result.2 then .ok result.1.data else .error result.1.error := by
    cases v <;> first | rfl | exact absurd container Bool.false_ne_true
  dsimp only
  constructor
  · intro ok
    rw [whole, writes.1 ok]
    -- nothing stands in front of the first bracket
    cases humanReadable <;> rfl
  · intro fails
    rw [whole]
    dsimp only
    rw [writes.2 fails, if_neg Bool.false_ne_true]
    exact ⟨_, rfl⟩

end Spamass.Json
