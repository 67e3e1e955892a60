import Spamass.App.RecordPath
import Spamass.Emailz.ReadCommand
import Spamass.Web.Encoding

/-!
# The path of a mail

`pathWithSocketId:serial:mkdir:` gets both names from a web client. It counts their
UTF-16 units, checks the bytes of their UTF-8 strings and composes the path in a buffer
on the stack. The strings it accepts are exactly the names of mails, and the directory
is the one the record of the connection is put into.
-/
namespace Spamass.Web

open Spamass.Emailz Spamass.App

/-- A string object by the UTF-8 bytes of its characters, a NUL included. -/
structure NSString where
  utf8 : Bytes
  valid : utf8Valid utf8 = true

/-- `length`; a message to nil answers zero. -/
def stringLength : Option NSString → Nat
  | none => 0
  | some string => utf16Length string.utf8

/-- `UTF8String`, up to its terminator. -/
def NSString.utf8String (string : NSString) : Bytes := cString string.utf8

/-! ### The path -/

/-- `sizeof(path_str)`. -/
def pathStrSize : Nat := 1000

def mailBase : Bytes := ascii "/Volumes/StoreX/Spamass/Record/"

/-- The steps up to the directory of a mail; `mkdir` is called behind each but the first. -/
def directorySteps (socketid : Bytes) : List PathStep :=
  let socketid_ := fun i => socketid.getD i 0
  [ .copy mailBase,
    -- yyyy
    .put [socketid_ 0, socketid_ 1, socketid_ 2, socketid_ 3, 47],
    -- mm
    .put [socketid_ 4, socketid_ 5, 47],
    -- dd
    .put [socketid_ 6, socketid_ 7, 47],
    -- hh
    .put [socketid_ 8, socketid_ 9, 47],
    -- mm
    .put [socketid_ 10, socketid_ 11, 47],
    -- ss
    .put [socketid_ 12, socketid_ 13, 47]]

/-- The path in the buffer behind each of some steps. -/
def pathsAlong : Cursor → List PathStep → List Bytes
  | _, [] => []
  | c, step :: steps =>
    match step.write c with
    | none => []
    | some next => cString next.buffer :: pathsAlong next steps

/-- The buffer after all steps; none if one of them wrote outside of it. The pointer is moved
over the serial by its length as a string object. -/
def composePath (socketid serial : Bytes) (serialLength : Nat) : Option Cursor := do
  let directory ← (directorySteps socketid).foldlM PathStep.write (Cursor.fresh pathStrSize)
  let named ← [PathStep.copy socketid, .put separator].foldlM PathStep.write directory
  let numbered ← named.strcpy serial
  PathStep.write { numbered with ptr := numbered.ptr + serialLength } (.copy (ascii ".email"))

/-- The string that is returned, and the directories that are made. -/
structure MailPath where
  path : Option Bytes
  made : List Bytes
  deriving DecidableEq, Repr

/-- `pathWithSocketId:serial:mkdir:` on string objects; none if it read at NULL or wrote outside
of `path_str`. -/
def mailPath (socketId serial : Option NSString) (mkdir : Bool) : Option MailPath :=
  if stringLength socketId ≠ 39 ∨ stringLength serial ≠ 6 then some ⟨none, []⟩
  else
    match socketId, serial with
    | some socketId, some serial =>
      if passes socketIdShape socketId.utf8String && passes serialShape serial.utf8String then
        (composePath socketId.utf8String serial.utf8String (utf16Length serial.utf8)).map fun c =>
          ⟨stringWithUtf8 (cString c.buffer),
            if mkdir then
              (pathsAlong (Cursor.fresh pathStrSize) (directorySteps socketId.utf8String)).tail
            else []⟩
      else some ⟨none, []⟩
    | _, _ => none

/-- The directories `emailz_socket_record_open` makes. -/
def recordDirectories (base : CString) (name : SocketName) : List Bytes :=
  pathsAlong (Cursor.fresh recordPathSize) ((pathSteps base.bytes name.bytes).take 7)

/-! ### The names -/

/-- A number of digits. -/
def Digits (count : Nat) (text : Bytes) : Prop :=
  text.length = count ∧ ∀ b ∈ text, isDigit b = true

/-- Seventeen digits, four groups of three digits, and five digits. -/
def SocketIdForm (text : Bytes) : Prop :=
  ∃ time first second third fourth port,
    Digits 17 time ∧ Digits 3 first ∧ Digits 3 second ∧ Digits 3 third ∧ Digits 3 fourth ∧
      Digits 5 port ∧
      text = time ++ ascii "-" ++ first ++ ascii "." ++ second ++ ascii "." ++ third ++
        ascii "." ++ fourth ++ ascii "-" ++ port

/-- YYYY/MM/DD/HH/MM/SS/ -/
def directory (socketId : Bytes) : Bytes :=
  let part (start count : Nat) := (socketId.drop start).take count ++ ascii "/"
  part 0 4 ++ part 4 2 ++ part 6 2 ++ part 8 2 ++ part 10 2 ++ part 12 2

private theorem wellFormed_append_iff (shape shape' : List (UInt8 → Bool)) (text : Bytes) :
    wellFormed (shape ++ shape') text = true ↔
      ∃ front back, text = front ++ back ∧ wellFormed shape front = true ∧
        wellFormed shape' back = true := by
  constructor
  · intro formed
    rw [wellFormed_iff, List.length_append] at formed
    obtain ⟨length, passes_⟩ := formed
    have front : (text.take shape.length).length = shape.length := by
      rw [List.length_take]
      omega
    rw [← List.take_append_drop shape.length text, passes_both _ front, Bool.and_eq_true] at passes_
    refine ⟨text.take shape.length, text.drop shape.length,
      (List.take_append_drop shape.length text).symm, ?_, ?_⟩
    · rw [wellFormed_iff]
      exact ⟨front, passes_.1⟩
    · rw [wellFormed_iff, List.length_drop]
      exact ⟨by omega, passes_.2⟩
  · rintro ⟨front, back, rfl, front_, back_⟩
    exact wellFormed_both front_ back_

private theorem wellFormed_replicate_iff (count : Nat) (text : Bytes) :
    wellFormed (List.replicate count isDigit) text = true ↔ Digits count text := by
  rw [wellFormed_iff, List.length_replicate, Digits]
  refine and_congr_right fun length => ?_
  subst length
  induction text with
  | nil => exact iff_of_true rfl (List.forall_mem_nil _)
  | cons b text ih =>
    rw [List.length_cons, List.replicate_succ, passes, Bool.and_eq_true, ih, List.forall_mem_cons]

private theorem wellFormed_mark_iff (mark : UInt8) (text : Bytes) :
    wellFormed [(· == mark)] text = true ↔ text = [mark] := by
  rw [wellFormed_iff, List.length_singleton, List.length_eq_one_iff]
  constructor
  · rintro ⟨⟨b, rfl⟩, passes_⟩
    rw [passes, passes, Bool.and_true, beq_iff_eq] at passes_
    rw [passes_]
  · rintro rfl
    exact ⟨⟨mark, rfl⟩, by simp [passes]⟩

/-- The checks of a socket id accept its form. -/
private theorem wellFormed_socketId_iff (text : Bytes) :
    wellFormed socketIdShape text = true ↔ SocketIdForm text := by
  have dash : ascii "-" = [45] := rfl
  have dot_ : ascii "." = [dot] := rfl
  simp only [socketIdShape, wellFormed_append_iff, wellFormed_replicate_iff, wellFormed_mark_iff,
    SocketIdForm, dash, dot_]
  constructor
  · rintro ⟨_, port, rfl, ⟨_, _, rfl, ⟨_, fourth, rfl, ⟨_, _, rfl, ⟨_, third, rfl, ⟨_, _, rfl,
      ⟨_, second, rfl, ⟨_, _, rfl, ⟨_, first, rfl, ⟨time, _, rfl, time_, rfl⟩, first_⟩, rfl⟩,
      second_⟩, rfl⟩, third_⟩, rfl⟩, fourth_⟩, rfl⟩, port_⟩
    exact ⟨time, first, second, third, fourth, port, time_, first_, second_, third_, fourth_, port_,
      rfl⟩
  · rintro ⟨time, first, second, third, fourth, port, time_, first_, second_, third_, fourth_, port_,
      rfl⟩
    exact ⟨_, port, rfl, ⟨_, _, rfl, ⟨_, fourth, rfl, ⟨_, _, rfl, ⟨_, third, rfl, ⟨_, _, rfl,
      ⟨_, second, rfl, ⟨_, _, rfl, ⟨_, first, rfl, ⟨time, _, rfl, time_, rfl⟩, first_⟩, rfl⟩,
      second_⟩, rfl⟩, third_⟩, rfl⟩, fourth_⟩, rfl⟩, port_⟩

/-! ### The checks -/

private theorem passes_length (shape : List (UInt8 → Bool)) (text : Bytes)
    (passes_ : passes shape text = true) : shape.length ≤ text.length := by
  induction shape generalizing text with
  | nil => exact Nat.zero_le _
  | cons check shape ih =>
    cases text with
    | nil => cases passes_
    | cons b text =>
      rw [passes, Bool.and_eq_true] at passes_
      exact Nat.succ_le_succ (ih text passes_.2)

/-- What is behind ASCII characters is a string. -/
private theorem utf8Valid_behind (front back : Bytes) (low : ∀ b ∈ front, b < 0x80)
    (valid : utf8Valid (front ++ back) = true) : utf8Valid back = true := by
  induction front with
  | nil => exact valid
  | cons b front ih =>
    obtain ⟨first, later⟩ := List.forall_mem_cons.mp low
    rw [List.cons_append, utf8Valid_low _ first] at valid
    exact ih later valid

/-- Checks that reject NUL. -/
private theorem formed_nonzero {shape : List (UInt8 → Bool)} {text : Bytes}
    (nonzero : shape.all (fun check => !check 0) = true) (formed : wellFormed shape text = true) :
    ∀ b ∈ text, b ≠ 0 := by
  obtain ⟨length, passes_⟩ := (wellFormed_iff _ _).mp formed
  have apart := passes_apart 0 shape text nonzero passes_
  rwa [← length, List.take_length] at apart

private theorem formed_whole {shape : List (UInt8 → Bool)} {text : Bytes}
    (nonzero : shape.all (fun check => !check 0) = true) (formed : wellFormed shape text = true) :
    cString text = text :=
  List.takeWhile_eq_self_iff.mpr fun b member =>
    bne_iff_ne.mpr (formed_nonzero nonzero formed b member)

/-- The terminator passes no check, so that they see of a text what they see of its C string. -/
private theorem passes_cString (shape : List (UInt8 → Bool)) (text : Bytes)
    (nonzero : shape.all (fun check => !check 0) = true) :
    passes shape (cString text) = passes shape text := by
  induction shape generalizing text with
  | nil => simp [passes]
  | cons check shape ih =>
    rw [List.all_cons, Bool.and_eq_true, Bool.not_eq_true'] at nonzero
    cases text with
    | nil => rfl
    | cons b text =>
      rw [cString, List.takeWhile_cons]
      split
      · rw [passes, passes, ← cString, ih text nonzero.2]
      next zero =>
        rw [bne_iff_ne, not_not] at zero
        rw [passes, passes, zero, nonzero.1, Bool.false_and]

/-- A string has no more characters than checks that its first bytes have passed: these are all. -/
private theorem checks_iff (string : NSString) (shape : List (UInt8 → Bool))
    (low : ∀ check ∈ shape, ∀ b, check b = true → b < 0x80) :
    (utf16Length string.utf8 = shape.length ∧ passes shape string.utf8 = true) ↔
      wellFormed shape string.utf8 = true := by
  obtain ⟨text, valid⟩ := string
  dsimp only
  constructor
  · rintro ⟨units, passes_⟩
    have room := passes_length shape text passes_
    have ascii_ := passes_all (· < 0x80) shape text low passes_
    have length : (text.take shape.length).length = shape.length := by
      rw [List.length_take]
      omega
    -- no unit is left for what is behind the characters that passed
    have missing : utf16Length (text.drop shape.length) = 0 := by
      rw [← List.take_append_drop shape.length text, utf16Length_append, utf16Length_ascii _ ascii_,
        length] at units
      omega
    rw [← List.take_append_drop shape.length text] at valid
    have nothing := units_zero _ (utf8Valid_behind _ _ ascii_ valid) missing
    rw [List.drop_eq_nil_iff] at nothing
    rw [wellFormed_iff]
    exact ⟨Nat.le_antisymm nothing room, passes_⟩
  · intro formed
    obtain ⟨length, passes_⟩ := (wellFormed_iff _ _).mp formed
    rw [utf16Length_ascii text (passes_each (· < 0x80) shape text low length passes_)]
    exact ⟨length, passes_⟩

/-! ### What is composed -/

/-- A part of a name, byte by byte. -/
private theorem part_eq (text : Bytes) (start count : Nat) (room : start + count ≤ text.length) :
    (text.drop start).take count = (List.range' start count).map fun i => text.getD i 0 := by
  induction count generalizing start with
  | zero => simp
  | succ count ih =>
    have inside : start < text.length := by omega
    rw [List.drop_eq_getElem_cons inside, List.take_succ_cons, ih (start + 1) (by omega),
      List.range'_succ, List.map_cons, List.getD_eq_getElem?_getD, List.getElem?_eq_getElem inside,
      Option.getD_some]

private theorem directorySteps_text (socketId : Bytes) (length : socketId.length = 39) :
    (directorySteps socketId).flatMap PathStep.text = mailBase ++ directory socketId := by
  have part : ∀ start count, start + count ≤ 14 → (socketId.drop start).take count =
      (List.range' start count).map fun i => socketId.getD i 0 :=
    fun start count room => part_eq socketId start count (by omega)
  simp only [directory, part 0 4 (by decide), part 4 2 (by decide), part 6 2 (by decide),
    part 8 2 (by decide), part 10 2 (by decide), part 12 2 (by decide)]
  rfl

private theorem directory_length (socketId : Bytes) (length : socketId.length = 39) :
    (directory socketId).length = 20 := by
  have slash : (ascii "/").length = 1 := rfl
  simp only [directory, List.length_append, List.length_take, List.length_drop, length, slash]
  decide

/-- The path of a mail. -/
def mailText (socketId serial : Bytes) : Bytes :=
  mailBase ++ directory socketId ++ socketId ++ separator ++ serial ++ ascii ".email"

private theorem mailText_length (socketId serial : Bytes) (length : socketId.length = 39)
    (length' : serial.length = 6) : (mailText socketId serial).length = 104 := by
  simp only [mailText, List.length_append, directory_length socketId length, length, length']
  rfl

/-- The pointer that is moved by the length of the string goes where `strcpy` has ended. -/
private theorem composePath_steps (socketid serial : Bytes) :
    composePath socketid serial serial.length =
      (directorySteps socketid ++ [PathStep.copy socketid, PathStep.put separator,
        PathStep.copy serial, PathStep.copy (ascii ".email")]).foldlM PathStep.write
          (Cursor.fresh pathStrSize) := by
  have copies : ∀ c : Cursor, PathStep.write c (.copy serial) = (c.strcpy serial).bind fun copied =>
      some { copied with ptr := copied.ptr + serial.length } := fun _ => rfl
  rw [composePath, List.foldlM_append]
  refine bind_congr fun directory => ?_
  simp only [List.foldlM_cons, List.foldlM_nil, copies, Option.bind_eq_bind, Option.bind_assoc,
    Option.bind_some, Option.pure_def]
  simp only [Option.bind_fun_some]

private theorem composePath_written (socketid serial : Bytes) (length : socketid.length = 39)
    (length' : serial.length = 6) :
    ∃ c, composePath socketid serial serial.length = some c ∧
      App.CursorHolds pathStrSize c (mailText socketid serial) := by
  have text : (directorySteps socketid ++ [PathStep.copy socketid, PathStep.put separator,
      PathStep.copy serial, PathStep.copy (ascii ".email")]).flatMap PathStep.text =
        mailText socketid serial := by
    rw [List.flatMap_append, directorySteps_text socketid length]
    simp [PathStep.text, mailText]
  obtain ⟨c, done, written⟩ := steps_written _ (written_fresh pathStrSize) (by
    rw [text, mailText_length socketid serial length length']
    decide)
  rw [text] at written
  rw [composePath_steps]
  exact ⟨c, done, written⟩

/-- A cleared buffer terminates the text written to it. -/
theorem written_cString {size : Nat} {c : Cursor} {text : Bytes} (written : App.CursorHolds size c text)
    (nonzero : ∀ b ∈ text, b ≠ 0) : cString c.buffer = text := by
  rw [cString, written.buffer,
    List.takeWhile_append_of_pos fun b member => bne_iff_ne.mpr (nonzero b member)]
  simp

/-- The path behind the last step. -/
private theorem pathsAlong_last (steps : List PathStep) (present : steps ≠ []) {c next : Cursor}
    (done : steps.foldlM PathStep.write c = some next) :
    (pathsAlong c steps).getLast? = some (cString next.buffer) := by
  induction steps generalizing c with
  | nil => exact absurd rfl present
  | cons step steps ih =>
    rw [List.foldlM_cons] at done
    obtain ⟨between, first, later⟩ := Option.bind_eq_some_iff.mp done
    rw [pathsAlong, first]
    cases steps with
    | nil =>
      obtain rfl := Option.some.inj later
      rfl
    | cons step' steps =>
      rw [List.getLast?_cons, ih (List.cons_ne_nil step' steps) later]
      rfl

/-- What holds of the bytes of both names and of the fixed texts holds of the path. -/
private theorem mailText_all (holds : UInt8 → Prop) {socketId serial : Bytes}
    (socketId_ : ∀ b ∈ socketId, holds b) (serial_ : ∀ b ∈ serial, holds b)
    (fixed : ∀ b ∈ mailBase ++ ascii "/" ++ separator ++ ascii ".email", holds b) :
    ∀ b ∈ mailText socketId serial, holds b := by
  have part : ∀ start count, ∀ b ∈ (socketId.drop start).take count, holds b :=
    fun start count b member => socketId_ b (List.mem_of_mem_drop (List.mem_of_mem_take member))
  simp only [mailText, directory, List.forall_mem_append] at fixed ⊢
  obtain ⟨⟨⟨base, slash⟩, separator_⟩, email⟩ := fixed
  repeat' apply And.intro
  all_goals first
    | exact base | exact slash | exact separator_ | exact email | exact serial_ | exact socketId_
    | exact part _ _

/-- What is made on the way to a path. -/
def mailDirectories (socketId : Bytes) : List Bytes :=
  (pathsAlong (Cursor.fresh pathStrSize) (directorySteps socketId)).tail

private theorem socketId_checks (socketId : NSString) :
    (utf16Length socketId.utf8 = 39 ∧ passes socketIdShape socketId.utf8String = true) ↔
      wellFormed socketIdShape socketId.utf8 = true := by
  rw [NSString.utf8String, passes_cString socketIdShape _ rfl]
  exact checks_iff socketId socketIdShape socketIdShape_low

private theorem serial_checks (serial : NSString) :
    (utf16Length serial.utf8 = 6 ∧ passes serialShape serial.utf8String = true) ↔
      wellFormed serialShape serial.utf8 = true := by
  rw [NSString.utf8String, passes_cString serialShape _ rfl]
  exact checks_iff serial serialShape serialShape_low

/-- Well-formed names have their path. -/
private theorem mailPath_accepted (socketId serial : NSString) (mkdir : Bool)
    (socketId_ : wellFormed socketIdShape socketId.utf8 = true)
    (serial_ : wellFormed serialShape serial.utf8 = true) :
    mailPath (some socketId) (some serial) mkdir =
      some ⟨some (mailText socketId.utf8 serial.utf8),
        if mkdir then mailDirectories socketId.utf8 else []⟩ := by
  obtain ⟨units, -⟩ := (socketId_checks socketId).mpr socketId_
  obtain ⟨units', -⟩ := (serial_checks serial).mpr serial_
  obtain ⟨length, shape⟩ := (wellFormed_iff _ _).mp socketId_
  obtain ⟨length', shape'⟩ := (wellFormed_iff _ _).mp serial_
  have lengths : ¬(stringLength (some socketId) ≠ 39 ∨ stringLength (some serial) ≠ 6) :=
    not_or.mpr ⟨not_not.mpr units, not_not.mpr units'⟩
  have count : utf16Length serial.utf8 = serial.utf8.length := units'.trans length'.symm
  have whole : socketId.utf8String = socketId.utf8 := formed_whole rfl socketId_
  have whole' : serial.utf8String = serial.utf8 := formed_whole rfl serial_
  obtain ⟨c, composed, written⟩ := composePath_written socketId.utf8 serial.utf8 length length'
  have nonzero := mailText_all (· ≠ 0) (formed_nonzero rfl socketId_) (formed_nonzero rfl serial_)
    (by decide +kernel)
  have low := mailText_all (· < 0x80) (passes_each (· < 0x80) _ _ socketIdShape_low length shape)
    (passes_each (· < 0x80) _ _ serialShape_low length' shape') (by decide +kernel)
  rw [mailPath, if_neg lengths]
  simp only [shape, shape', Bool.and_self, if_true, whole, whole', count, composed,
    Option.map_some, written_cString written nonzero, stringWithUtf8, utf8Valid_ascii _ low,
    mailDirectories]

/-- Other strings have none. -/
private theorem mailPath_rejected (socketId serial : NSString) (mkdir : Bool)
    (rejected : ¬(wellFormed socketIdShape socketId.utf8 = true ∧
      wellFormed serialShape serial.utf8 = true)) :
    mailPath (some socketId) (some serial) mkdir = some ⟨none, []⟩ := by
  rw [mailPath]
  split
  · rfl
  next lengths =>
    rw [not_or, not_not, not_not] at lengths
    have failed : ¬(passes socketIdShape socketId.utf8String &&
        passes serialShape serial.utf8String) = true := by
      rw [Bool.and_eq_true]
      rintro ⟨passes_, passes'⟩
      exact rejected ⟨(socketId_checks socketId).mp ⟨lengths.1, passes_⟩,
        (serial_checks serial).mp ⟨lengths.2, passes'⟩⟩
    simp only [if_neg failed]

private theorem mailPath_nil (socketId serial : Option NSString) (mkdir : Bool)
    (nil_ : socketId = none ∨ serial = none) : mailPath socketId serial mkdir = some ⟨none, []⟩ := by
  have lengths : stringLength socketId ≠ 39 ∨ stringLength serial ≠ 6 := by
    rcases nil_ with rfl | rfl
    · exact Or.inl (by decide)
    · exact Or.inr (by decide)
  unfold mailPath
  rw [if_pos lengths]

/-- The bytes of the path are those the application's handlers were modelled with. -/
theorem mailPath_path (socketId serial : NSString) (mkdir : Bool) :
    (mailPath (some socketId) (some serial) mkdir).map MailPath.path =
      some (pathWithSocketId socketId.utf8 serial.utf8) := by
  by_cases formed : wellFormed socketIdShape socketId.utf8 = true ∧
      wellFormed serialShape serial.utf8 = true
  · obtain ⟨socketId_, serial_⟩ := formed
    obtain ⟨units, shape⟩ := (checks_iff socketId _ socketIdShape_low).mpr socketId_
    obtain ⟨units', shape'⟩ := (checks_iff serial _ serialShape_low).mpr serial_
    rw [mailPath_accepted socketId serial mkdir socketId_ serial_]
    rw [show socketIdShape.length = 39 from rfl] at units
    rw [show serialShape.length = 6 from rfl] at units'
    simp [pathWithSocketId, units, units', shape, shape', mailText, mailBase, directory]
  · rw [mailPath_rejected socketId serial mkdir formed]
    rw [pathWithSocketId]
    split
    · rfl
    next lengths =>
      rw [not_or, not_not, not_not] at lengths
      rw [if_neg]
      · rfl
      · rw [Bool.and_eq_true]
        rintro ⟨passes_, passes'⟩
        exact formed ⟨(checks_iff socketId _ socketIdShape_low).mp ⟨lengths.1, passes_⟩,
          (checks_iff serial _ serialShape_low).mp ⟨lengths.2, passes'⟩⟩

/-! ### The names and their path -/

/-- A name of the right form, as the record of a connection has it. -/
def socketNameOf (socketId : Bytes) (formed : wellFormed socketIdShape socketId = true) :
    SocketName where
  bytes := socketId
  terminated := formed_nonzero rfl formed
  length := ((wellFormed_iff _ _).mp formed).1

theorem mailText_inj {socketId serial socketId' serial' : Bytes} (length : socketId.length = 39)
    (length' : socketId'.length = 39)
    (same : mailText socketId serial = mailText socketId' serial') :
    socketId = socketId' ∧ serial = serial' := by
  simp only [mailText, List.append_assoc] at same
  have behind := List.append_cancel_left same
  obtain ⟨-, named⟩ := List.append_inj behind (by
    rw [directory_length socketId length, directory_length socketId' length'])
  obtain ⟨name, numbered⟩ := List.append_inj named (length.trans length'.symm)
  exact ⟨name, List.append_cancel_right (List.append_cancel_left numbered)⟩

/-- Both builders make the same directories, the base of the records apart. -/
theorem recordDirectories_eq (base : CString) (name : SocketName) (same : base.bytes = mailBase) :
    (recordDirectories base name).tail = mailDirectories name.bytes ∧
      (recordDirectories base name).getLast? = some (mailBase ++ directory name.bytes) := by
  have steps : (pathSteps base.bytes name.bytes).take 7 = directorySteps name.bytes := by
    rw [same]
    rfl
  have text := directorySteps_text name.bytes name.length
  obtain ⟨c, done, written⟩ := steps_written (directorySteps name.bytes)
    (written_fresh recordPathSize) (by
      rw [text, List.length_append, directory_length name.bytes name.length]
      decide)
  rw [text, List.nil_append] at written
  have nonzero : ∀ b ∈ mailBase ++ directory name.bytes, b ≠ 0 := by
    have nothing : ∀ b ∈ ([] : Bytes), b ≠ 0 := List.forall_mem_nil _
    have all := mailText_all (· ≠ 0) name.terminated nothing (by decide +kernel)
    intro b member
    apply all b
    rw [mailText, List.append_assoc, List.append_assoc, List.append_assoc]
    exact List.mem_append_left _ member
  rw [recordDirectories, steps]
  refine ⟨rfl, ?_⟩
  rw [pathsAlong_last (directorySteps name.bytes) (List.cons_ne_nil _ _) done,
    written_cString written nonzero]

/-- The names are accepted or there is no path. -/
private theorem mailPath_cases (socketId serial : Option NSString) (mkdir : Bool) :
    (∃ name number, socketId = some name ∧ serial = some number ∧
      wellFormed socketIdShape name.utf8 = true ∧ wellFormed serialShape number.utf8 = true ∧
      mailPath socketId serial mkdir = some ⟨some (mailText name.utf8 number.utf8),
        if mkdir then mailDirectories name.utf8 else []⟩) ∨
    (mailPath socketId serial mkdir = some ⟨none, []⟩ ∧
      ∀ name number, socketId = some name → serial = some number →
        ¬(wellFormed socketIdShape name.utf8 = true ∧ wellFormed serialShape number.utf8 = true)) := by
  rcases socketId with _ | name
  · exact Or.inr ⟨mailPath_nil none serial mkdir (Or.inl rfl), nofun⟩
  rcases serial with _ | number
  · exact Or.inr ⟨mailPath_nil (some name) none mkdir (Or.inr rfl), nofun⟩
  by_cases formed : wellFormed socketIdShape name.utf8 = true ∧ wellFormed serialShape number.utf8 = true
  · obtain ⟨name_, number_⟩ := formed
    exact Or.inl ⟨name, number, rfl, rfl, name_, number_,
      mailPath_accepted name number mkdir name_ number_⟩
  · refine Or.inr ⟨mailPath_rejected name number mkdir formed, ?_⟩
    rintro _ _ ⟨⟩ ⟨⟩
    exact formed

/-- A path is the path of one pair of strings. -/
theorem mailPath_unique {name number : NSString} (name_ : wellFormed socketIdShape name.utf8 = true)
    {socketId serial : Option NSString} {mkdir : Bool} {result : MailPath}
    (done : mailPath socketId serial mkdir = some result)
    (same : result.path = some (mailText name.utf8 number.utf8)) :
    socketId = some name ∧ serial = some number := by
  rcases mailPath_cases socketId serial mkdir with
    ⟨name', number', rfl, rfl, name'_, -, accepted⟩ | ⟨rejected, -⟩
  · obtain rfl := Option.some.inj (done.symm.trans accepted)
    obtain ⟨names, numbers⟩ := mailText_inj ((wellFormed_iff _ _).mp name'_).1
      ((wellFormed_iff _ _).mp name_).1 (Option.some.inj same)
    obtain ⟨text, valid⟩ := name
    obtain ⟨text', valid'⟩ := number
    obtain ⟨_, _⟩ := name'
    obtain ⟨_, _⟩ := number'
    subst names numbers
    exact ⟨rfl, rfl⟩
  · obtain rfl := Option.some.inj (done.symm.trans rejected)
    cases same

/-- Whatever strings are given, nothing is written outside of the buffer, and there is a path
exactly for a socket id and a serial of the right form: their own path, in the directory that is
made for the record of the connection. -/
theorem mailPath_exact (socketId serial : Option NSString) (mkdir : Bool) :
    ∃ result, mailPath socketId serial mkdir = some result ∧
      (result.path ≠ none ↔ ∃ name number, socketId = some name ∧ serial = some number ∧
        SocketIdForm name.utf8 ∧ Digits 6 number.utf8) ∧
      ∀ path, result.path = some path → ∃ name number, socketId = some name ∧ serial = some number ∧
        path = mailBase ++ directory name.utf8 ++ name.utf8 ++ ascii "__" ++ number.utf8 ++
          ascii ".email" ∧
        path.length < pathStrSize ∧
        (∀ socketId' serial' mkdir' result', mailPath socketId' serial' mkdir' = some result' →
          result'.path = some path → socketId' = socketId ∧ serial' = serial) ∧
        ∃ connection : SocketName, connection.bytes = name.utf8 ∧
          ∀ base : CString, base.bytes = mailBase →
            (recordDirectories base connection).getLast? = some (mailBase ++ directory name.utf8) ∧
            result.made = if mkdir then (recordDirectories base connection).tail else [] := by
  simp only [← wellFormed_socketId_iff, ← wellFormed_replicate_iff]
  rcases mailPath_cases socketId serial mkdir with
    ⟨name, number, rfl, rfl, name_, number_, accepted⟩ | ⟨rejected, malformed⟩
  · refine ⟨_, accepted, ?_, ?_⟩
    · exact iff_of_true nofun ⟨name, number, rfl, rfl, name_, number_⟩
    intro path same
    obtain rfl := Option.some.inj same
    have length := ((wellFormed_iff _ _).mp name_).1
    have length' := ((wellFormed_iff _ _).mp number_).1
    refine ⟨name, number, rfl, rfl, rfl, ?_, ?_, socketNameOf name.utf8 name_, rfl, ?_⟩
    · rw [mailText_length name.utf8 number.utf8 length length']
      decide
    · intro socketId' serial' mkdir' result' done there
      exact mailPath_unique name_ done there
    · intro base base_
      obtain ⟨tail, last⟩ := recordDirectories_eq base (socketNameOf name.utf8 name_) base_
      rw [tail]
      exact ⟨last, rfl⟩
  · refine ⟨_, rejected, iff_of_false (fun present => present rfl) ?_, nofun⟩
    rintro ⟨name, number, named, numbered, name_, number_⟩
    exact malformed name number named numbered ⟨name_, number_⟩

end Spamass.Web
