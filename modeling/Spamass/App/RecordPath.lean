import Spamass.App.RecordName
import Spamass.Runs

/-!
# The path of a record

`emailz_record_enable` takes the base directory of the records, and an accepted connection
composes the path of its record from the base and its name. The flag is set before the
base is checked, and the check leaves no room for what is put behind the base.
-/
namespace Spamass.App

open Spamass.Emailz Spamass.Runs

/-- The bytes of a C string before its terminator. -/
structure CString where
  bytes : Bytes
  terminated : ∀ b ∈ bytes, b ≠ 0

def CString.strlen (s : CString) : Nat := s.bytes.length

/-- `sizeof(emailz->record_base)`. -/
def recordBaseSize : Nat := 1000

/-- `sizeof(socket->record_path)`. -/
def recordPathSize : Nat := 1000

/-- A record name of 39 bytes. -/
structure SocketName extends CString where
  length : bytes.length = 39

/-! ### The path -/

/-- `strcpy(ptr, text)`, with the terminator. -/
def Cursor.strcpy (c : Cursor) (text : Bytes) : Option Cursor := do
  let copied ← (text ++ [0]).foldlM printMark c
  some { copied with ptr := c.ptr }

/-- What is written to a path, in one step. -/
inductive PathStep where
  /-- `strcpy`, and the pointer behind the text -/
  | copy (text : Bytes)
  /-- `*path_ptr = b; path_ptr++` for each byte -/
  | put (bytes : Bytes)
  deriving DecidableEq, Repr

def PathStep.write (c : Cursor) : PathStep → Option Cursor
  | .copy text => do
    let copied ← c.strcpy text
    some { copied with ptr := copied.ptr + text.length }
  | .put bytes => bytes.foldlM printMark c

/-- The steps of `emailz_socket_record_open`, without the calls of `mkdir` between them. -/
def pathSteps (base name : Bytes) : List PathStep :=
  let name_ := fun i => name.getD i 0
  [ -- base
    .copy base,
    -- yyyy
    .put [name_ 0, name_ 1, name_ 2, name_ 3, 47],
    -- mm
    .put [name_ 4, name_ 5, 47],
    -- dd
    .put [name_ 6, name_ 7, 47],
    -- hh
    .put [name_ 8, name_ 9, 47],
    -- mm
    .put [name_ 10, name_ 11, 47],
    -- ss
    .put [name_ 12, name_ 13, 47],
    -- file
    .copy name,
    -- .socket
    .copy (ascii ".socket")]

/-- The path `emailz_socket_record_open` composes; none if it wrote outside of `record_path`. -/
def recordOpen (base : CString) (name : SocketName) : Option Cursor :=
  (pathSteps base.bytes name.bytes).foldlM PathStep.write (Cursor.fresh recordPathSize)

def PathStep.text : PathStep → Bytes
  | .copy text => text
  | .put bytes => bytes

/-- The room a step takes: a copy has a terminator. -/
def PathStep.need : PathStep → Nat
  | .copy text => text.length + 1
  | .put bytes => bytes.length

theorem printMark_none {size : Nat} {c : Cursor} {text : Bytes} (written : CursorHolds size c text)
    (mark : UInt8) (full : size ≤ text.length) : printMark c mark = none := by
  obtain ⟨buffer, ptr⟩ := written
  have outside : ¬(0 ≤ c.ptr ∧ c.ptr < c.buffer.length) := by
    rw [buffer, ptr, List.length_append, List.length_replicate]
    omega
  rw [printMark, store, if_neg outside, Option.map_none]

private theorem marks_written (marks : Bytes) {size : Nat} {c : Cursor} {text : Bytes}
    (written : CursorHolds size c text) (room : text.length + marks.length ≤ size) :
    ∃ next, marks.foldlM printMark c = some next ∧ CursorHolds size next (text ++ marks) := by
  induction marks generalizing c text with
  | nil => exact ⟨c, rfl, (List.append_nil text).symm ▸ written⟩
  | cons mark marks ih =>
    rw [List.length_cons] at room
    obtain ⟨between, first, written'⟩ := printMark_written written mark (by omega)
    obtain ⟨next, later, written''⟩ := ih written' (by
      rw [List.length_append, List.length_singleton]
      omega)
    rw [List.append_assoc, List.singleton_append] at written''
    refine ⟨next, ?_, written''⟩
    rw [List.foldlM_cons, first]
    exact later

private theorem marks_none (marks : Bytes) {size : Nat} {c : Cursor} {text : Bytes}
    (written : CursorHolds size c text) (present : marks ≠ [])
    (full : size < text.length + marks.length) :
    marks.foldlM printMark c = none := by
  induction marks generalizing c text with
  | nil => exact absurd rfl present
  | cons mark marks ih =>
    rw [List.length_cons] at full
    rw [List.foldlM_cons]
    rcases Nat.lt_or_ge text.length size with room | missing
    · obtain ⟨between, first, written'⟩ := printMark_written written mark room
      have more : marks ≠ [] := by
        rintro rfl
        rw [List.length_nil] at full
        omega
      rw [first]
      apply ih written' more
      rw [List.length_append, List.length_singleton]
      omega
    · rw [printMark_none written mark missing]
      rfl

/-- The terminator is as empty as what it stands on. -/
private theorem written_terminated {size : Nat} {c : Cursor} {text : Bytes} {ptr : Int}
    (written : CursorHolds size c (text ++ [0])) (room : text.length < size) (here : ptr = text.length) :
    CursorHolds size ⟨c.buffer, ptr⟩ text where
  buffer := by
    have rest : List.replicate (size - text.length) (0 : UInt8) =
        0 :: List.replicate (size - (text ++ [0]).length) 0 := by
      rw [← List.replicate_succ, List.length_append, List.length_singleton]
      congr 1
      omega
    rw [rest, List.append_cons]
    exact written.buffer
  ptr := here

theorem step_written {size : Nat} {c : Cursor} {text : Bytes} (written : CursorHolds size c text)
    (step : PathStep) (room : text.length + step.need ≤ size) :
    ∃ next, step.write c = some next ∧ CursorHolds size next (text ++ step.text) := by
  cases step with
  | put bytes => exact marks_written bytes written room
  | copy copied =>
    rw [PathStep.need] at room
    obtain ⟨next, marks, written'⟩ := marks_written (copied ++ [0]) written (by
      rw [List.length_append, List.length_singleton]
      exact room)
    rw [← List.append_assoc] at written'
    have length : (text ++ copied).length = text.length + copied.length := List.length_append
    refine ⟨⟨next.buffer, c.ptr + copied.length⟩, ?_, ?_⟩
    · rw [PathStep.write, Cursor.strcpy, marks]
      rfl
    · apply written_terminated written'
      · omega
      · rw [written.ptr, length, Int.natCast_add]

private theorem step_none {size : Nat} {c : Cursor} {text : Bytes} (written : CursorHolds size c text)
    (copied : Bytes) (full : size < text.length + (PathStep.copy copied).need) :
    (PathStep.copy copied).write c = none := by
  have marks := marks_none (copied ++ [0]) written (by simp) (by
    rw [List.length_append, List.length_singleton]
    exact full)
  rw [PathStep.write, Cursor.strcpy, marks]
  rfl

/-- Steps that leave room for a terminator write their texts one behind the other. -/
theorem steps_written (steps : List PathStep) {size : Nat} {c : Cursor} {text : Bytes}
    (written : CursorHolds size c text)
    (room : text.length + (steps.flatMap PathStep.text).length + 1 ≤ size) :
    ∃ next, steps.foldlM PathStep.write c = some next ∧
      CursorHolds size next (text ++ steps.flatMap PathStep.text) := by
  induction steps generalizing c text with
  | nil => exact ⟨c, rfl, (List.append_nil text).symm ▸ written⟩
  | cons step steps ih =>
    rw [List.flatMap_cons, List.length_append] at room
    have need : step.need ≤ step.text.length + 1 := by
      cases step <;> simp [PathStep.need, PathStep.text]
    obtain ⟨between, first, written'⟩ := step_written written step (by omega)
    obtain ⟨next, later, written''⟩ := ih written' (by
      rw [List.length_append]
      omega)
    rw [List.append_assoc] at written''
    refine ⟨next, ?_, written''⟩
    rw [List.foldlM_cons, first]
    exact later

/-- Whatever a step has written is its text. -/
theorem step_some {size : Nat} {c next : Cursor} {text : Bytes} (written : CursorHolds size c text)
    (step : PathStep) (done : step.write c = some next) : CursorHolds size next (text ++ step.text) := by
  rcases Nat.lt_or_ge size (text.length + step.need) with full | room
  · cases step with
    | copy copied =>
      rw [step_none written copied full] at done
      cases done
    | put bytes =>
      rcases bytes with _ | ⟨b, bytes⟩
      · obtain rfl := Option.some.inj done
        rwa [PathStep.text, List.append_nil]
      · rw [PathStep.write, marks_none (b :: bytes) written (List.cons_ne_nil b bytes) full] at done
        cases done
  · obtain ⟨next', done', written'⟩ := step_written written step room
    obtain rfl := Option.some.inj (done.symm.trans done')
    exact written'

/-- Steps that end with a copy need the room of the whole text and its terminator. -/
theorem steps_none (steps : List PathStep) (last : Bytes) {size : Nat} {c : Cursor} {text : Bytes}
    (written : CursorHolds size c text)
    (full : size < text.length + (steps.flatMap PathStep.text).length + last.length + 1) :
    (steps ++ [PathStep.copy last]).foldlM PathStep.write c = none := by
  induction steps generalizing c text with
  | nil =>
    rw [List.nil_append, List.foldlM_cons, step_none written last]
    · rfl
    · exact full
  | cons step steps ih =>
    rw [List.cons_append, List.foldlM_cons]
    cases first : step.write c with
    | none => rfl
    | some between =>
      apply ih (step_some written step first)
      rw [List.flatMap_cons, List.length_append] at full
      rw [List.length_append]
      omega

/-- The path stays in its field exactly if there is room for 67 bytes behind the base. -/
private theorem recordOpen_iff (base : CString) (name : SocketName) :
    (recordOpen base name).isSome = true ↔ base.strlen + 67 ≤ recordPathSize := by
  have fresh := written_fresh recordPathSize
  -- all steps but the last copy: the base, 20 bytes of directories and the name
  obtain ⟨before, split_⟩ : ∃ before, pathSteps base.bytes name.bytes =
      before ++ [.copy (ascii ".socket")] ∧
        (before.flatMap PathStep.text).length = base.strlen + 59 := by
    refine ⟨(pathSteps base.bytes name.bytes).take 8, rfl, ?_⟩
    simp only [pathSteps, List.take, List.flatMap_cons, List.flatMap_nil, PathStep.text,
      List.length_append, List.length_cons, List.length_nil, name.length, CString.strlen]
  obtain ⟨steps, length⟩ := split_
  have suffix : (ascii ".socket").length = 7 := rfl
  rw [recordOpen, steps]
  constructor
  · intro done
    by_contra full
    rw [steps_none before (ascii ".socket") fresh] at done
    · cases done
    · rw [length, suffix, List.length_nil]
      omega
  · intro room
    obtain ⟨next, done, -⟩ := steps_written (before ++ [.copy (ascii ".socket")]) fresh (by
      rw [List.flatMap_append, List.length_append, length, List.length_nil]
      change 0 + (base.strlen + 59 + 7) + 1 ≤ recordPathSize
      omega)
    rw [done]
    rfl

/-! ### The base -/

/-- The recording fields of `emailz_s`, and the base of the latest call that asked for recording
and was not refused. -/
structure Recording where
  socketRecord : Bool
  recordBase : CString
  asked : Option CString

/-- `emailz_create`. -/
def Recording.start : Recording := ⟨false, ⟨[], nofun⟩, none⟩

/-- The base is refused. -/
def Refused (base : CString) : Prop := recordBaseSize ≤ base.strlen

instance (base : CString) : Decidable (Refused base) := Nat.decLe recordBaseSize base.strlen

/-- `emailz_record_enable`. -/
def Recording.enable (r : Recording) (enable : Bool) (base : CString) : Recording :=
  let flagged := { r with socketRecord := enable }
  if Refused base then flagged
  else { flagged with recordBase := base, asked := if enable then some base else r.asked }

inductive RecordStep where
  | enable (enable : Bool) (base : CString)
  /-- a connection is accepted and started -/
  | accept (name : SocketName)

def Recording.step (r : Recording) : RecordStep → Recording
  | .enable enable base => r.enable enable base
  | .accept _ => r

/-- While it records, the base is the one that was asked for. -/
def Asked (r : Recording) : Prop := r.socketRecord = true → r.asked = some r.recordBase

/-- A refused call leaves the flag and the base, and a path that is composed stays in its field. -/
def Safe (r : Recording) : RecordStep → Prop
  | .enable enable base => Refused base →
      (r.enable enable base).socketRecord = r.socketRecord ∧
        (r.enable enable base).recordBase = r.recordBase
  | .accept name => r.socketRecord = true → (recordOpen r.recordBase name).isSome = true

/-- A refused call asks for what is already the case, and while it records the base is short. -/
def Usable (r : Recording) : RecordStep → Prop
  | .enable enable base => Refused base → enable = r.socketRecord
  | .accept _ => r.socketRecord = true → r.recordBase.strlen + 67 ≤ recordPathSize

theorem safe_iff_usable (r : Recording) (label : RecordStep) : Safe r label ↔ Usable r label := by
  cases label with
  | enable enable base =>
    refine forall_congr' fun refused => ?_
    rw [Recording.enable, if_pos refused]
    exact and_iff_left rfl
  | accept name => exact forall_congr' fun _ => recordOpen_iff r.recordBase name

theorem step_asked {r : Recording} {label : RecordStep} (asked : Asked r) (usable : Usable r label) :
    Asked (r.step label) := by
  cases label with
  | enable enable base =>
    by_cases refused : Refused base
    · -- the flag stays what it is
      have same : r.step (.enable enable base) = r := by
        rw [Recording.step, Recording.enable, if_pos refused, usable refused]
      rwa [same]
    · intro recording
      rw [Recording.step, Recording.enable, if_neg refused] at recording ⊢
      exact if_pos recording
  | accept name => exact asked

/-- Whatever is called and accepted, the base that records is the one asked for, refused calls
change nothing and no path leaves its field, exactly if every call and connection is usable. -/
theorem recording_iff_usable (steps : List RecordStep) :
    (Always Recording.step Asked Recording.start steps ∧
        Each Recording.step Safe Recording.start steps) ↔
      Each Recording.step Usable Recording.start steps := by
  have same := each_congr Recording.step safe_iff_usable Recording.start steps
  constructor
  · rintro ⟨-, safe⟩
    exact same.mp safe
  · intro usable
    have start : Asked Recording.start := nofun
    exact ⟨always_under Recording.step (fun _ _ => step_asked) start usable, same.mpr usable⟩

theorem letters_nonzero (n : Nat) : ∀ b ∈ List.replicate n (97 : UInt8), b ≠ 0 := by
  intro b member
  rw [List.eq_of_mem_replicate member]
  decide

def letters (n : Nat) : CString := ⟨List.replicate n 97, letters_nonzero n⟩

private theorem letters_strlen (n : Nat) : (letters n).strlen = n := List.length_replicate ..

/-- A call with a base of 1000 bytes is refused and switches recording on; with a base of 934 bytes
recording is accepted, and the path of the first connection does not fit. -/
theorem base_slips :
    ¬ Each Recording.step Safe Recording.start [.enable true (letters 1000)] ∧
      ∀ name, ¬ Each Recording.step Safe Recording.start [.enable true (letters 934), .accept name] := by
  constructor
  · rintro ⟨safe, -⟩
    have refused : Refused (letters 1000) := (letters_strlen 1000).ge
    obtain ⟨flag, -⟩ := safe refused
    rw [Recording.enable, if_pos refused] at flag
    cases flag
  · rintro name ⟨-, safe, -⟩
    have accepted : ¬Refused (letters 934) := by
      rw [Refused, letters_strlen]
      decide
    have enabled : Recording.start.step (.enable true (letters 934)) =
        ⟨true, letters 934, some (letters 934)⟩ := by
      rw [Recording.step, Recording.enable, if_neg accepted]
      rfl
    rw [enabled] at safe
    have room := (recordOpen_iff (letters 934) name).mp (safe rfl)
    rw [letters_strlen] at room
    revert room
    decide

end Spamass.App
