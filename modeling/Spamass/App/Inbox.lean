import Mathlib.Data.Finset.Max
import Mathlib.Data.List.TakeWhile
import Mathlib.Data.Prod.Lex
import Spamass.App.Search

/-!
# What a search finds

The keys of all inboxes share one order, and are split from the left where they were
joined from the right. This module says when a search still finds the mails of its
address, all of them and no others.
-/
namespace Spamass.App

open Spamass.Emailz Spamass.SortedStore Spamass.Separated

/-! ### Names -/

section Names

theorem passes_append (xs ys : List (UInt8 → Bool)) (text : Bytes) :
    passes (xs ++ ys) text = (passes xs text && passes ys (text.drop xs.length)) := by
  induction xs generalizing text with
  | nil => simp [passes]
  | cons check xs ih =>
    cases text with
    | nil => rfl
    | cons b text => simp [passes, ih, Bool.and_assoc]

/-- What the checks make sure of holds of the bytes they have passed. -/
theorem passes_all (holds : UInt8 → Prop) (shape : List (UInt8 → Bool)) (text : Bytes)
    (checks : ∀ check ∈ shape, ∀ b, check b = true → holds b) (passes_ : passes shape text = true) :
    ∀ b ∈ text.take shape.length, holds b := by
  induction shape generalizing text with
  | nil => simp
  | cons check shape ih =>
    cases text with
    | nil => cases passes_
    | cons b text =>
      simp only [passes, Bool.and_eq_true] at passes_
      intro b' member
      rcases List.mem_cons.mp member with rfl | later
      · exact checks check (List.mem_cons_self ..) _ passes_.1
      · exact ih text (fun check member => checks check (List.mem_cons_of_mem _ member)) passes_.2
          b' later

/-- Of a text of the length of the shape these are all bytes. -/
theorem passes_each (holds : UInt8 → Prop) (shape : List (UInt8 → Bool)) (text : Bytes)
    (checks : ∀ check ∈ shape, ∀ b, check b = true → holds b) (length : text.length = shape.length)
    (passes_ : passes shape text = true) : ∀ b ∈ text, holds b := by
  have all := passes_all holds shape text checks passes_
  rwa [List.take_of_length_le length.le] at all

/-- A byte that no check accepts is not in the text. -/
theorem passes_apart (mark : UInt8) (shape : List (UInt8 → Bool)) (text : Bytes)
    (rejects : shape.all (fun check => !check mark) = true) (passes_ : passes shape text = true) :
    ∀ b ∈ text.take shape.length, b ≠ mark := by
  refine passes_all (· ≠ mark) shape text ?_ passes_
  rintro check member b accepts rfl
  have rejected := List.all_eq_true.mp rejects check member
  simp [accepts] at rejected

theorem passes_unmarked (shape : List (UInt8 → Bool)) (text : Bytes)
    (rejects : shape.all (fun check => !check underscore) = true)
    (length : text.length = shape.length) (passes_ : passes shape text = true) :
    unmarked underscore text = true := by
  have apart := passes_apart underscore shape text rejects passes_
  rw [← length, List.take_length] at apart
  exact List.all_eq_true.mpr fun b member => bne_iff_ne.mpr (apart b member)

/-- A word that passes is at most the word of the greatest bytes. -/
private theorem passes_le (shape : List (UInt8 → Bool)) (tops text : Bytes)
    (bounds : List.Forall₂ (fun check top => ∀ b, check b = true → b ≤ top) shape tops)
    (length : text.length = shape.length) (passes_ : passes shape text = true) : text ≤ tops := by
  induction bounds generalizing text with
  | nil =>
    obtain rfl := List.length_eq_zero_iff.mp length
    exact le_rfl
  | cons bound _ ih =>
    cases text with
    | nil => cases length
    | cons b text =>
      simp only [passes, Bool.and_eq_true] at passes_
      have rest := ih text (Nat.succ.inj length) passes_.2
      apply not_lt.mp
      intro above
      rcases List.cons_lt_cons_iff.mp above with less | ⟨_, less⟩
      · exact absurd (bound b passes_.1) (not_le.mpr less)
      · exact absurd rest (not_le.mpr less)

theorem digit_le (b : UInt8) (digit : isDigit b = true) : b ≤ 57 := by
  simp only [isDigit, Bool.and_eq_true, decide_eq_true_eq] at digit
  exact digit.2

/-- What the checks of the names accept is ASCII. -/
theorem socketIdShape_low : ∀ check ∈ socketIdShape, ∀ b, check b = true → b < 0x80 := by
  have digits : ∀ b, isDigit b = true → b < 0x80 :=
    fun b digit => (digit_le b digit).trans_lt (by decide)
  have marks : ∀ mark : UInt8, mark < 0x80 → ∀ b, (b == mark) = true → b < 0x80 := by
    intro mark low b same
    rwa [beq_iff_eq.mp same]
  simp only [socketIdShape, List.forall_mem_append, List.forall_mem_replicate,
    List.forall_mem_singleton]
  repeat' apply And.intro
  all_goals first | exact .inr digits | exact marks _ (by decide)

theorem serialShape_low : ∀ check ∈ serialShape, ∀ b, check b = true → b < 0x80 := by
  intro check member b accepts
  rw [(List.mem_replicate.mp member).2] at accepts
  exact (digit_le b accepts).trans_lt (by decide)

/-- In ASCII a byte is a character. -/
theorem utf16Length_ascii (text : Bytes) (low : ∀ b ∈ text, b < 0x80) :
    utf16Length text = text.length := by
  induction text with
  | nil => rfl
  | cons b text ih =>
    have first := low b (List.mem_cons_self ..)
    have leads : isContinuation b = false := by simp [isContinuation, not_le.mpr first]
    have short : ¬ 0xF0 ≤ b := not_le.mpr (first.trans (by decide))
    have rest := ih fun later member => low later (List.mem_cons_of_mem _ member)
    rw [utf16Length] at rest ⊢
    simp only [List.foldr_cons, leads, short, Bool.false_eq_true, if_false, rest, List.length_cons]
    omega

theorem utf16Length_digits (text : Bytes) (digits : ∀ b ∈ text, isDigit b = true) :
    utf16Length text = text.length :=
  utf16Length_ascii text fun b member => (digit_le b (digits b member)).trans_lt (by decide)

theorem wellFormed_iff (shape : List (UInt8 → Bool)) (text : Bytes) :
    wellFormed shape text = true ↔ text.length = shape.length ∧ passes shape text = true := by
  simp [wellFormed]

/-- Names of the right form have a path. -/
theorem pathWithSocketId_some {socketId serial : Bytes}
    (socketId_ : wellFormed socketIdShape socketId = true)
    (serial_ : wellFormed serialShape serial = true) :
    ∃ path, pathWithSocketId socketId serial = some path := by
  obtain ⟨length, shape⟩ := (wellFormed_iff _ _).mp socketId_
  obtain ⟨length', shape'⟩ := (wellFormed_iff _ _).mp serial_
  have units : utf16Length socketId = 39 :=
    (utf16Length_ascii _ (passes_each (· < 0x80) _ _ socketIdShape_low length shape)).trans length
  have units' : utf16Length serial = 6 :=
    (utf16Length_ascii _ (passes_each (· < 0x80) _ _ serialShape_low length' shape')).trans length'
  simp [pathWithSocketId, units, units', shape, shape']

variable (m : Mail)

theorem Mail.socketId_shape :
    m.email.socketId.length = 39 ∧ passes socketIdShape m.email.socketId = true := by
  have shape := m.socketId
  simp only [wellFormed, Bool.and_eq_true, beq_iff_eq] at shape
  exact shape

theorem Mail.serial_shape :
    m.email.serial.length = 6 ∧ passes serialShape m.email.serial = true := by
  have shape := m.serial
  simp only [wellFormed, Bool.and_eq_true, beq_iff_eq] at shape
  exact shape

theorem Mail.socketId_low : ∀ b ∈ m.email.socketId, b < 0x80 :=
  passes_each (· < 0x80) socketIdShape _ socketIdShape_low m.socketId_shape.1
    m.socketId_shape.2

theorem Mail.serial_low : ∀ b ∈ m.email.serial, b < 0x80 :=
  passes_each (· < 0x80) serialShape _ serialShape_low m.serial_shape.1 m.serial_shape.2

theorem Mail.socketId_unmarked : unmarked underscore m.email.socketId = true :=
  passes_unmarked socketIdShape _ rfl m.socketId_shape.1 m.socketId_shape.2

theorem Mail.serial_unmarked : unmarked underscore m.email.serial = true :=
  passes_unmarked serialShape _ rfl m.serial_shape.1 m.serial_shape.2

private theorem Mail.socketId_le : m.email.socketId ≤ sentinelId.1 := by
  apply passes_le socketIdShape _ _ _ m.socketId_shape.1 m.socketId_shape.2
  have bound : ∀ (top : UInt8) b, (b == top) = true → b ≤ top := by
    intro top b same
    rw [beq_iff_eq.mp same]
  simp only [socketIdShape, sentinelId, ascii, List.replicate, List.cons_append, List.nil_append]
  repeat' constructor
  all_goals first | exact digit_le | exact bound _

private theorem Mail.serial_le : m.email.serial ≤ sentinelId.2 := by
  apply passes_le serialShape _ _ _ m.serial_shape.1 m.serial_shape.2
  repeat' constructor
  all_goals exact digit_le

end Names

/-! ### Keys -/

section Keys

theorem fieldKey_eq (recipient socketId serial field : Bytes) :
    fieldKey recipient socketId serial field =
      recipient ++ underscore :: underscore ::
        (socketId ++ underscore :: underscore ::
          (serial ++ underscore :: underscore :: field)) := by
  simp [fieldKey, separator, ascii, underscore]

private theorem sentinel_eq (recipient : Bytes) :
    sentinel recipient = recipient ++ underscore :: underscore ::
      (sentinelId.1 ++ underscore :: underscore :: sentinelId.2) :=
  rfl

/-- The entries of a mail. -/
private theorem Mail.entries_eq (m : Mail) :
    m.entries =
      [(fieldKey m.recipient m.email.socketId m.email.serial (ascii "subject"), m.stored.1),
        (fieldKey m.recipient m.email.socketId m.email.serial (ascii "sender"), m.stored.2.1),
        (fieldKey m.recipient m.email.socketId m.email.serial (ascii "size"),
          decimal m.stored.2.2),
        (sentinel m.recipient, ascii "1")] := by
  have first : m.email.recipients.head? = some m.recipient := by rw [m.addressed]; rfl
  have writes : (handleEmail m.socket).2 = storeEmail m.email m.recipient
      (m.recipient ++ separator ++ m.email.socketId ++ separator ++ m.email.serial ++
        separator) := by
    simp only [handleEmail, Mail.socket, SMEmail.dbprefix, first, Option.map_some]
  rw [Mail.entries, writes, storeEmail]
  -- the file of the mail is no entry
  cases pathWithSocketId m.email.socketId m.email.serial <;> rfl

theorem Mail.mem_keys (m : Mail) (key : Bytes) :
    key ∈ m.keys ↔ (∃ field ∈ mailFields,
      key = fieldKey m.recipient m.email.socketId m.email.serial field) ∨
        key = sentinel m.recipient := by
  simp only [Mail.keys, m.entries_eq, mailFields, List.map_cons, List.map_nil, List.mem_cons,
    List.not_mem_nil, or_false, exists_eq_or_imp, exists_eq_left]
  tauto

theorem field_unmarked {field : Bytes} (member : field ∈ mailFields) :
    unmarked underscore field = true := by
  revert field
  decide

theorem isRecord_iff (address key : Bytes) :
    isRecord address key = true ↔ ∃ socketId serial field,
      components key = [address, socketId, serial, field] := by
  unfold isRecord
  split
  next partAddress partSocket partSerial partField split =>
    rw [split, beq_iff_eq]
    constructor
    · rintro rfl
      exact ⟨_, _, _, rfl⟩
    · rintro ⟨_, _, _, same⟩
      exact (List.cons.inj same).1
  next other =>
    refine iff_of_false nofun ?_
    rintro ⟨socketId, serial, field, split⟩
    exact other _ _ _ _ split

variable (m : Mail)

private theorem Mail.socketId_ne_nil : m.email.socketId ≠ [] := by
  intro empty
  have length := m.socketId_shape.1
  rw [empty] at length
  cases length

private theorem Mail.serial_ne_nil : m.email.serial ≠ [] := by
  intro empty
  have length := m.serial_shape.1
  rw [empty] at length
  cases length

/-- Where the address itself cannot be split, its keys are split where they were joined. -/
theorem Mail.components_fieldKey (plain_ : plain underscore m.recipient = true) (field : Bytes)
    (unmarked_ : unmarked underscore field = true) :
    components (fieldKey m.recipient m.email.socketId m.email.serial field) =
      [m.recipient, m.email.socketId, m.email.serial, field] := by
  have socketId := plain_of_unmarked _ _ m.socketId_unmarked
  have serial := plain_of_unmarked _ _ m.serial_unmarked
  rw [components, fieldKey_eq, parts_append _ _ _ (plain_ends _ _ plain_),
    parts_append _ _ _ (plain_ends _ _ socketId), parts_append _ _ _ (plain_ends _ _ serial),
    parts_plain _ _ plain_, parts_plain _ _ socketId, parts_plain _ _ serial,
    parts_unmarked _ _ unmarked_]
  rfl

/-- The parts of a field's key that are joined last are split off. -/
theorem Mail.components_tail (field : Bytes) (unmarked_ : unmarked underscore field = true) :
    components (fieldKey m.recipient m.email.socketId m.email.serial field) =
      parts underscore (m.recipient ++ underscore :: underscore :: m.email.socketId) ++
        [m.email.serial] ++ [field] := by
  have joined : fieldKey m.recipient m.email.socketId m.email.serial field =
      (m.recipient ++ underscore :: underscore ::
        (m.email.socketId ++ [underscore, underscore])) ++ m.email.serial ++
          underscore :: underscore :: field := by
    simp [fieldKey_eq]
  have joined' : (m.recipient ++ underscore :: underscore ::
        (m.email.socketId ++ [underscore, underscore])) ++ m.email.serial =
      (m.recipient ++ [underscore, underscore]) ++ m.email.socketId ++
        underscore :: underscore :: m.email.serial := by
    simp
  have socketId : m.recipient ++ underscore :: underscore :: m.email.socketId =
      (m.recipient ++ [underscore, underscore]) ++ m.email.socketId := by
    simp
  rw [components, joined, parts_last _ _ _ _ m.serial_ne_nil m.serial_unmarked unmarked_, joined',
    parts_last _ _ _ _ m.socketId_ne_nil m.socketId_unmarked m.serial_unmarked, socketId]

/-- Only a key of the address is read as one of a mail. -/
theorem Mail.recipient_of_read (other : Mail) {address key field : Bytes}
    (member : key ∈ other.keys)
    (read : components key = [address, m.email.socketId, m.email.serial, field]) :
    other.recipient = address := by
  rcases (other.mem_keys key).mp member with ⟨field', member', rfl⟩ | rfl
  · -- split from the right, the key shows the recipient it was made for
    rw [other.components_tail field' (field_unmarked member')] at read
    have front : parts underscore
        (other.recipient ++ underscore :: underscore :: other.email.socketId) =
          [address, m.email.socketId] := by
      have one := (List.append_inj' (read.trans (by rfl :
        _ = [address, m.email.socketId, m.email.serial] ++ [field])) rfl).1
      exact (List.append_inj' (one.trans (by rfl :
        _ = [address, m.email.socketId] ++ [m.email.serial])) rfl).1
    obtain ⟨-, rest, same, rest_⟩ := parts_first _ front nofun
    obtain rfl := eq_of_parts_one _ rest_
    -- both socket ids have the same length
    have length : other.email.socketId.length = m.email.socketId.length := by
      rw [other.socketId_shape.1, m.socketId_shape.1]
    exact (List.append_inj' same (by simp [length])).1
  · -- a serial is shorter than the end of the sentinel's socket id
    have joined : sentinel other.recipient =
        (other.recipient ++ [underscore, underscore]) ++ sentinelId.1 ++
          underscore :: underscore :: sentinelId.2 := by
      simp [sentinel_eq]
    rw [components, joined, parts_last _ _ _ _ (by decide) (by decide) (by decide)] at read
    have front := (List.append_inj' (read.trans (by rfl :
      _ = [address, m.email.socketId, m.email.serial] ++ [field])) rfl).1
    obtain ⟨-, rest, same, rest_⟩ := parts_first _ front nofun
    obtain ⟨-, rest', same', rest'_⟩ := parts_first _ rest_ nofun
    obtain rfl := eq_of_parts_one _ rest'_
    have split : (other.recipient ++ [underscore, underscore] ++ sentinelId.1.take 32) ++
          sentinelId.1.drop 32 =
        (address ++ underscore :: underscore :: (m.email.socketId ++ [underscore])) ++
          underscore :: m.email.serial := by
      rw [List.append_assoc, List.take_append_drop, same, same']
      simp
    have tail := (List.append_inj' split (by rw [List.length_cons, m.serial_shape.1]; rfl)).2
    exact absurd (List.cons.inj tail).1 (by decide)

end Keys

/-! ### The order of the keys -/

section Order

variable (m : Mail)

/-- Behind one front and the separator, the order is the order of what follows. -/
private theorem separated_lt_iff (front back back' : Bytes) :
    front ++ underscore :: underscore :: back < front ++ underscore :: underscore :: back' ↔
      back < back' := by
  rw [append_lt_append_iff, List.cons_lt_cons_self, List.cons_lt_cons_self]

private theorem Mail.fieldKey_lt {m' : Mail} (recipient field field' : Bytes) (above : m.Above m') :
    fieldKey recipient m'.email.socketId m'.email.serial field <
      fieldKey recipient m.email.socketId m.email.serial field' := by
  have socketId : m'.email.socketId.length = m.email.socketId.length := by
    rw [m'.socketId_shape.1, m.socketId_shape.1]
  have serial : m'.email.serial.length = m.email.serial.length := by
    rw [m'.serial_shape.1, m.serial_shape.1]
  rw [fieldKey_eq, fieldKey_eq, separated_lt_iff]
  rcases above with before | ⟨same, before⟩
  · exact append_lt_of_lt socketId before _ _
  · rw [same, separated_lt_iff]
    exact append_lt_of_lt serial before _ _

private theorem Mail.field_lt (recipient field field' : Bytes) (before : field < field') :
    fieldKey recipient m.email.socketId m.email.serial field <
      fieldKey recipient m.email.socketId m.email.serial field' := by
  rw [fieldKey, fieldKey, append_lt_append_iff]
  exact before

/-- The sender is the first key of a mail. -/
private theorem Mail.sender_le (recipient : Bytes) {field : Bytes} (member : field ∈ mailFields) :
    fieldKey recipient m.email.socketId m.email.serial (ascii "sender") ≤
      fieldKey recipient m.email.socketId m.email.serial field := by
  have first : ∀ field ∈ mailFields, field = ascii "sender" ∨ ascii "sender" < field := by decide
  rcases first field member with rfl | before
  · exact le_rfl
  · exact (m.field_lt recipient _ _ before).le

/-- The mails of an inbox lie below its sentinel, except for the sentinel's own. -/
theorem Mail.lt_sentinel_iff (field : Bytes) :
    fieldKey m.recipient m.email.socketId m.email.serial field < sentinel m.recipient ↔
      m.id ≠ sentinelId := by
  constructor
  · -- the keys of the sentinel's own mail continue it, and a word is below what continues it
    intro below own
    have socketId : m.email.socketId = sentinelId.1 := congrArg Prod.fst own
    have serial : m.email.serial = sentinelId.2 := congrArg Prod.snd own
    have longer : fieldKey m.recipient m.email.socketId m.email.serial field =
        sentinel m.recipient ++ underscore :: underscore :: field := by
      rw [fieldKey_eq, sentinel_eq, socketId, serial]
      simp
    rw [longer] at below
    have before := (append_lt_append_iff (sentinel m.recipient) [] _).mpr
      (List.nil_lt_cons underscore (underscore :: field))
    rw [List.append_nil] at before
    exact absurd below (not_lt.mpr before.le)
  · intro other
    have socketId : m.email.socketId.length = sentinelId.1.length := m.socketId_shape.1
    have serial : m.email.serial.length = sentinelId.2.length := m.serial_shape.1
    rw [fieldKey_eq, sentinel_eq, separated_lt_iff]
    rcases lt_or_eq_of_le m.socketId_le with before | same
    · exact append_lt_of_lt socketId before _ _
    · rw [same, separated_lt_iff]
      have less : m.email.serial < sentinelId.2 := by
        refine lt_of_le_of_ne m.serial_le fun serial_ => other ?_
        rw [Mail.id, same, serial_]
      have before := append_lt_of_lt serial less (underscore :: underscore :: field) []
      rwa [List.append_nil] at before

end Order

/-! ### The scan -/

section Scan

variable (address : Bytes)

/-- The mails of a scan, with a handler that goes on. -/
def foundMails (email : Option SMEmail) (scan : List (Bytes × Bytes)) : List SMEmail :=
  (searchLoop (fun _ => true) address email scan).1 ++
    (searchLoop (fun _ => true) address email scan).2.toList

/-- What the loop has handed over stays in front of what it hands over later. -/
private theorem handLoop_handed (handed : List SMEmail) (email : Option SMEmail)
    (scan : List (Bytes × Bytes)) :
    handLoop (fun _ _ => true) address handed email scan =
      (handed ++ (searchLoop (fun _ => true) address email scan).1,
        (searchLoop (fun _ => true) address email scan).2) := by
  unfold searchLoop
  induction scan generalizing handed email with
  | nil => simp [handLoop]
  | cons entry scan ih =>
    obtain ⟨key, value⟩ := entry
    rw [handLoop.eq_def, handLoop.eq_def]
    dsimp only
    split
    · simp
    split
    next =>
      split
      · simp
      cases email with
      | none => exact ih _ _
      | some email =>
        dsimp only
        split
        · exact ih _ _
        · rw [if_pos rfl, if_pos rfl, ih, ih ([] ++ [email])]
          simp
    next => simp

private theorem read_prefix (named : address ≠ []) {key : Bytes} {later : List Bytes}
    (split : components key = address :: later) (more : later ≠ []) :
    hasPrefix key address = true := by
  obtain ⟨-, rest, rfl, -⟩ := parts_first underscore split more
  simp [hasPrefix, named]

/-- The scan ends at a key that is no record. -/
theorem foundMails_other (email : Option SMEmail) {key : Bytes} (value : Bytes)
    (scan : List (Bytes × Bytes)) (other : isRecord address key = false) :
    foundMails address email ((key, value) :: scan) = email.toList := by
  have ends : searchLoop (fun _ => true) address email ((key, value) :: scan) = ([], email) := by
    unfold isRecord at other
    rw [searchLoop, handLoop.eq_def]
    dsimp only
    split
    · rfl
    · split at other
      · exact if_pos (by simpa using other)
      · rfl
  rw [foundMails, ends, List.nil_append]

variable {address} (named : address ≠ []) {key partSocket partSerial partField : Bytes}
  (value : Bytes) (scan : List (Bytes × Bytes))
  (read : components key = [address, partSocket, partSerial, partField])

/-- The object for a field that begins a mail. -/
def opened (address partSocket partSerial partField value : Bytes) : SMEmail :=
  enterField (foundEmail address partSocket partSerial) partField value

/-- The object is of the mail. -/
def SameMail (email : SMEmail) (socketId serial : Bytes) : Prop :=
  email.socketId = socketId ∧ email.serial = serial

private theorem opened_same (address partSocket partSerial partField value : Bytes) :
    SameMail (opened address partSocket partSerial partField value) partSocket partSerial := by
  unfold opened enterField
  split_ifs <;> exact ⟨rfl, rfl⟩

include named read in
private theorem searchLoop_record (email : Option SMEmail) :
    searchLoop (fun _ => true) address email ((key, value) :: scan) =
      match email with
      | none => searchLoop (fun _ => true) address
          (some (opened address partSocket partSerial partField value)) scan
      | some email =>
        if email.socketId = partSocket ∧ email.serial = partSerial then
          searchLoop (fun _ => true) address (some (enterField email partField value)) scan
        else
          (email :: (searchLoop (fun _ => true) address
              (some (opened address partSocket partSerial partField value)) scan).1,
            (searchLoop (fun _ => true) address
              (some (opened address partSocket partSerial partField value)) scan).2) := by
  have begins := read_prefix address named read nofun
  rw [searchLoop, handLoop.eq_def]
  dsimp only
  rw [begins, read]
  simp only [Bool.not_true, Bool.false_eq_true, ne_eq, not_true_eq_false, if_false, if_true]
  cases email with
  | none => rfl
  | some email =>
    dsimp only
    split
    · rfl
    · exact handLoop_handed address [email] _ scan

include named read in
theorem foundMails_first :
    foundMails address none ((key, value) :: scan) =
      foundMails address (some (opened address partSocket partSerial partField value)) scan := by
  simp only [foundMails, searchLoop_record named value scan read]

include named read in
theorem foundMails_same {email : SMEmail} (same : SameMail email partSocket partSerial) :
    foundMails address (some email) ((key, value) :: scan) =
      foundMails address (some (enterField email partField value)) scan := by
  simp only [foundMails, searchLoop_record named value scan read, if_pos (show _ ∧ _ from same)]

include named read in
theorem foundMails_next {email : SMEmail} (other : ¬ SameMail email partSocket partSerial) :
    foundMails address (some email) ((key, value) :: scan) =
      email ::
        foundMails address (some (opened address partSocket partSerial partField value)) scan := by
  simp only [foundMails, searchLoop_record named value scan read, if_neg (show ¬ (_ ∧ _) from other),
    List.cons_append]

end Scan

theorem SameMail.enterField {email : SMEmail} {socketId serial : Bytes}
    (same : SameMail email socketId serial) (field value : Bytes) :
    SameMail (enterField email field value) socketId serial := by
  unfold App.enterField
  split_ifs <;> exact same

theorem enterField_sender (email : SMEmail) (field value : Bytes) (other : field ≠ ascii "sender") :
    (enterField email field value).sender = email.sender := by
  unfold enterField
  rw [if_neg other]
  split_ifs <;> rfl

/-- What one record does to the scan: the mail at hand goes on or is given to the handler. -/
private theorem foundMails_record {address key partSocket partSerial partField : Bytes}
    (named : address ≠ []) (value : Bytes) (scan : List (Bytes × Bytes)) (email : Option SMEmail)
    (read : components key = [address, partSocket, partSerial, partField]) :
    ∃ before next, foundMails address email ((key, value) :: scan) =
        before ++ foundMails address (some next) scan ∧
      SameMail next partSocket partSerial ∧
      (∀ e ∈ before, email = some e) ∧
      (∀ e, email = some e → e ∈ before ∨ SameMail e partSocket partSerial) ∧
      (next.sender ≠ none → partField = ascii "sender" ∨
        ∃ e, email = some e ∧ SameMail e partSocket partSerial ∧ e.sender ≠ none) := by
  have begins := opened_same address partSocket partSerial partField value
  have empty : (opened address partSocket partSerial partField value).sender ≠ none →
      partField = ascii "sender" := by
    intro entered
    by_contra other
    rw [opened, enterField_sender _ _ _ other] at entered
    exact entered rfl
  -- the first record of a scan, one more of the mail at hand, or the first of another
  cases email with
  | none =>
    exact ⟨[], _, foundMails_first named value scan read, begins, nofun, nofun,
      fun e => .inl (empty e)⟩
  | some email =>
    by_cases same : SameMail email partSocket partSerial
    · refine ⟨[], _, foundMails_same named value scan read same, ?_, nofun, ?_, ?_⟩
      · exact same.enterField _ _
      · intro e hand
        obtain rfl := Option.some.inj hand
        exact .inr same
      · intro entered
        by_cases field : partField = ascii "sender"
        · exact .inl field
        · rw [enterField_sender _ _ _ field] at entered
          exact .inr ⟨email, rfl, same, entered⟩
    · refine ⟨[email], _, foundMails_next named value scan read same, begins, ?_, ?_,
        fun e => .inl (empty e)⟩
      · intro e member
        rw [List.mem_singleton.mp member]
      · intro e hand
        obtain rfl := Option.some.inj hand
        exact .inl (.head _)

section Given

variable (address : Bytes) (named : address ≠ [])

include named

/-- The mail at hand is given to the handler in the end. -/
private theorem foundMails_given (email : SMEmail) (scan : List (Bytes × Bytes)) :
    ∃ e ∈ foundMails address (some email) scan, SameMail e email.socketId email.serial := by
  induction scan generalizing email with
  | nil => exact ⟨email, .head _, rfl, rfl⟩
  | cons entry scan ih =>
    obtain ⟨key, value⟩ := entry
    cases record : isRecord address key with
    | false =>
      rw [foundMails_other address _ value scan record]
      exact ⟨email, .head _, rfl, rfl⟩
    | true =>
      obtain ⟨socketId, serial, field, read⟩ := (isRecord_iff address key).mp record
      obtain ⟨before, next, split, begins, -, went, -⟩ :=
        foundMails_record named value scan (some email) read
      rw [split]
      rcases went email rfl with given | same
      · exact ⟨email, List.mem_append_left _ given, rfl, rfl⟩
      · obtain ⟨e, member, e_⟩ := ih next
        refine ⟨e, List.mem_append_right _ member, ?_⟩
        rwa [begins.1, begins.2, ← same.1, ← same.2] at e_

/-- Every record that is read is of a mail that is given to the handler. -/
private theorem foundMails_complete (email : Option SMEmail) (scan : List (Bytes × Bytes))
    {entry : Bytes × Bytes} {socketId serial field : Bytes}
    (member : entry ∈ scan.takeWhile fun e => isRecord address e.1)
    (read : components entry.1 = [address, socketId, serial, field]) :
    ∃ e ∈ foundMails address email scan, SameMail e socketId serial := by
  induction scan generalizing email with
  | nil => cases member
  | cons first scan ih =>
    obtain ⟨key, value⟩ := first
    rw [List.takeWhile_cons] at member
    split at member
    next record =>
      obtain ⟨socketId', serial', field', read'⟩ := (isRecord_iff address key).mp record
      obtain ⟨before, next, split, begins, -⟩ := foundMails_record named value scan email read'
      rw [split]
      -- the first record is in the mail it enters, which is collected in the end
      rcases List.mem_cons.mp member with rfl | later
      · obtain ⟨e, given, e_⟩ := foundMails_given address named next scan
        refine ⟨e, List.mem_append_right _ given, ?_⟩
        have same := read'.symm.trans read
        simp only [List.cons.injEq, and_true] at same
        rwa [begins.1, begins.2, same.2.1, same.2.2.1] at e_
      · obtain ⟨e, given, e_⟩ := ih (some next) later
        exact ⟨e, List.mem_append_right _ given, e_⟩
    next other => cases member

/-- A sender comes from a record that was read. -/
theorem foundMails_sender (email : Option SMEmail) (scan : List (Bytes × Bytes)) {e : SMEmail}
    (given : e ∈ foundMails address email scan) (sender : e.sender ≠ none) :
    (∃ e', email = some e' ∧ SameMail e' e.socketId e.serial ∧ e'.sender ≠ none) ∨
      ∃ entry ∈ scan.takeWhile fun e => isRecord address e.1,
        components entry.1 = [address, e.socketId, e.serial, ascii "sender"] := by
  induction scan generalizing email with
  | nil =>
    left
    cases email with
    | none => cases given
    | some email =>
      obtain rfl := List.mem_singleton.mp given
      exact ⟨e, rfl, ⟨rfl, rfl⟩, sender⟩
  | cons first scan ih =>
    obtain ⟨key, value⟩ := first
    cases record : isRecord address key with
    | false =>
      rw [foundMails_other address _ value scan record, Option.mem_toList] at given
      exact .inl ⟨e, given, ⟨rfl, rfl⟩, sender⟩
    | true =>
      obtain ⟨socketId, serial, field, read⟩ := (isRecord_iff address key).mp record
      obtain ⟨before, next, split, begins, before_, -, sent⟩ :=
        foundMails_record named value scan email read
      have taken : (key, value) ∈
          ((key, value) :: scan).takeWhile fun e => isRecord address e.1 := by
        rw [List.takeWhile_cons, if_pos record]
        exact .head _
      rw [split] at given
      -- given before this record, or put together from it on
      rcases List.mem_append.mp given with already | later
      · exact .inl ⟨e, before_ e already, ⟨rfl, rfl⟩, sender⟩
      · rcases ih (some next) later with ⟨_, hand, same, sender'⟩ | ⟨entry, member, read'⟩
        · obtain rfl := Option.some.inj hand
          have ids : socketId = e.socketId ∧ serial = e.serial :=
            ⟨begins.1.symm.trans same.1, begins.2.symm.trans same.2⟩
          rcases sent sender' with rfl | ⟨e', hand, same', sender''⟩
          · right
            refine ⟨_, taken, ?_⟩
            rw [read, ids.1, ids.2]
          · rw [ids.1, ids.2] at same'
            exact .inl ⟨e', hand, same', sender''⟩
        · right
          refine ⟨entry, ?_, read'⟩
          rw [List.takeWhile_cons, if_pos record]
          exact .tail _ member

end Given

/-! ### The records of a mail -/

section Records

/-- The entries of a mail that a scan comes to, the last first. -/
def Mail.records (m : Mail) : List (Bytes × Bytes) :=
  [(fieldKey m.recipient m.email.socketId m.email.serial (ascii "subject"), m.stored.1),
    (fieldKey m.recipient m.email.socketId m.email.serial (ascii "size"), decimal m.stored.2.2),
    (fieldKey m.recipient m.email.socketId m.email.serial (ascii "sender"), m.stored.2.1)]

/-- The object a mail is given as. -/
def Mail.shown (m : Mail) : SMEmail :=
  enterField
    (enterField
      (opened m.recipient m.email.socketId m.email.serial (ascii "subject") m.stored.1)
      (ascii "size") (decimal m.stored.2.2))
    (ascii "sender") m.stored.2.1

private theorem decimal_digit {n : Nat} {c : Char} (digit : c ∈ Nat.toDigits 10 n) :
    (UInt8.ofNat c.toNat).toNat = c.toNat ∧ 48 ≤ c.toNat ∧ c.toNat ≤ 57 := by
  have range := Nat.isDigit_of_mem_toDigits (by decide) (by decide) digit
  simp only [Char.isDigit, Bool.and_eq_true, decide_eq_true_eq, UInt32.le_iff_toNat_le] at range
  have low : 48 ≤ c.toNat := range.1
  have high : c.toNat ≤ 57 := range.2
  have fits : c.toNat < UInt8.size := Nat.lt_of_le_of_lt high (by decide)
  exact ⟨UInt8.toNat_ofNat_of_lt' fits, low, high⟩

theorem isDigit_decimal (n : Nat) : ∀ b ∈ decimal n, isDigit b = true := by
  intro b member
  obtain ⟨c, digit, rfl⟩ := List.mem_map.mp member
  obtain ⟨same, low, high⟩ := decimal_digit digit
  simp only [isDigit, Bool.and_eq_true, decide_eq_true_eq, UInt8.le_iff_toNat_le, same]
  exact ⟨low, high⟩

theorem number_decimal (n : Nat) :
    (decimal n).foldl (fun n b => 10 * n + digitValue b) 0 = n := by
  have whole := Nat.ofDigitChars_ten_toDigits (n := n)
  rw [Nat.ofDigitChars_eq_foldl] at whole
  rw [decimal, List.foldl_map]
  refine Eq.trans ?_ whole
  apply List.foldl_ext
  intro sofar c digit
  rw [digitValue, (decimal_digit digit).1]
  rfl

theorem integerValue_decimal (n : Nat) (fits : n < 0x8000000000000000) :
    integerValue (decimal n) = n := by
  have digits := isDigit_decimal n
  have taken : (decimal n).takeWhile isDigit = decimal n := by
    rw [← List.append_nil (decimal n), List.takeWhile_append_of_pos digits]
    rfl
  have unsigned : (decimal n).head? ≠ some 43 ∧ (decimal n).head? ≠ some 45 := by
    constructor <;>
    · intro sign
      exact absurd (digits _ (List.mem_of_head? sign)) (by decide)
  have text : (decimal n).dropWhile (fun b => b == 9 || b == 32) = decimal n := by
    cases split : decimal n with
    | nil => rfl
    | cons b rest =>
      rw [List.dropWhile_cons, if_neg]
      intro blank
      have digit := digits b (split ▸ .head _)
      simp only [Bool.or_eq_true, beq_iff_eq] at blank
      rcases blank with rfl | rfl <;> cases digit
  have number := number_decimal n
  unfold integerValue
  dsimp only
  -- a stored size has neither blanks nor a sign
  have signless : ¬ ((decimal n).head? = some 43 ∨ (decimal n).head? = some 45) := by
    simp [unsigned]
  rw [text, if_neg signless, taken, number, if_neg unsigned.2]
  omega

theorem Mail.shows (m : Mail) : Shows m.shown m := by
  have size : (integerValue (decimal m.stored.2.2) % 0x10000000000000000).toNat = m.stored.2.2 := by
    have stored : m.stored.2.2 < 0x8000000000000000 := m.counted
    rw [integerValue_decimal _ stored]
    omega
  exact ⟨rfl, rfl, rfl, rfl, size⟩

variable (m : Mail) (plain_ : plain underscore m.recipient = true) (scan : List (Bytes × Bytes))

include plain_ in
private theorem Mail.foundMails_rest :
    foundMails m.recipient
        (some (opened m.recipient m.email.socketId m.email.serial (ascii "subject") m.stored.1))
        (m.records.tail ++ scan) =
      foundMails m.recipient (some m.shown) scan := by
  have size := m.components_fieldKey plain_ (ascii "size") (by decide)
  have sender := m.components_fieldKey plain_ (ascii "sender") (by decide)
  have begins := opened_same m.recipient m.email.socketId m.email.serial (ascii "subject")
    m.stored.1
  rw [Mail.records, List.tail_cons, List.cons_append, List.cons_append, List.nil_append,
    foundMails_same m.address.1 _ _ size begins,
    foundMails_same m.address.1 _ _ sender (begins.enterField _ _)]
  rfl

include plain_ in
private theorem Mail.foundMails_begin :
    foundMails m.recipient none (m.records ++ scan) = foundMails m.recipient (some m.shown) scan := by
  have subject := m.components_fieldKey plain_ (ascii "subject") (by decide)
  exact (foundMails_first m.address.1 m.stored.1 (m.records.tail ++ scan) subject).trans
    (m.foundMails_rest plain_ scan)

include plain_ in
private theorem Mail.foundMails_go_on {email : SMEmail}
    (other : ¬ SameMail email m.email.socketId m.email.serial) :
    foundMails m.recipient (some email) (m.records ++ scan) =
      email :: foundMails m.recipient (some m.shown) scan := by
  have subject := m.components_fieldKey plain_ (ascii "subject") (by decide)
  rw [← m.foundMails_rest plain_ scan]
  exact foundMails_next m.address.1 m.stored.1 (m.records.tail ++ scan) subject other

end Records

section Inbox

variable (scan : List (Bytes × Bytes)) {address : Bytes} (plain_ : plain underscore address = true)
  (ends : ∀ email, foundMails address email scan = email.toList)

include plain_ ends

theorem foundMails_behind (m : Mail) (inbox : List Mail) (own : ∀ m ∈ inbox, m.recipient = address)
    (distinct : (m :: inbox).Pairwise fun m m' => m.id ≠ m'.id) :
    foundMails address (some m.shown) (inbox.flatMap Mail.records ++ scan) =
      m.shown :: inbox.map Mail.shown := by
  induction inbox generalizing m with
  | nil => exact ends (some m.shown)
  | cons m' inbox ih =>
    obtain ⟨first, rest⟩ := List.pairwise_cons.mp distinct
    have recipient : m'.recipient = address := own m' (.head _)
    have other : ¬ SameMail m.shown m'.email.socketId m'.email.serial := by
      intro same
      apply first m' (.head _)
      rw [← m.shows.1, same.1, same.2]
      rfl
    have later := ih m' (fun m member => own m (.tail _ member)) rest
    subst recipient
    rw [List.flatMap_cons, List.append_assoc, m'.foundMails_go_on plain_ _ other, later]
    rfl

/-- A scan over an inbox gives its mails. -/
private theorem foundMails_inbox (inbox : List Mail) (own : ∀ m ∈ inbox, m.recipient = address)
    (distinct : inbox.Pairwise fun m m' => m.id ≠ m'.id) :
    foundMails address none (inbox.flatMap Mail.records ++ scan) = inbox.map Mail.shown := by
  cases inbox with
  | nil => exact ends none
  | cons m inbox =>
    have recipient : m.recipient = address := own m (.head _)
    have later := foundMails_behind scan plain_ ends m inbox
      (fun m member => own m (.tail _ member)) distinct
    subst recipient
    rw [List.flatMap_cons, List.append_assoc, m.foundMails_begin plain_, later]
    rfl

end Inbox

/-! ### The database -/

section Stored

variable (mails : List Mail)

private theorem stored_of {e : Bytes × Bytes} (member : e ∈ (databaseOf mails).entries) :
    ∃ m ∈ mails, e ∈ m.entries := by
  rcases Store.mem_puts _ _ member with written | empty
  · exact List.mem_flatMap.mp written
  · cases empty

private theorem stored_key {m : Mail} (member : m ∈ mails) {key : Bytes} (key_ : key ∈ m.keys) :
    ∃ value, (key, value) ∈ (databaseOf mails).entries := by
  obtain ⟨e, written, rfl⟩ := List.mem_map.mp key_
  exact Store.puts_key _ _ (List.mem_flatMap.mpr ⟨m, member, written⟩)

theorem key_of {e : Bytes × Bytes} {m : Mail} (member : e ∈ m.entries) : e.1 ∈ m.keys :=
  List.mem_map_of_mem member

/-- The keys of a mail are different. -/
theorem Mail.entry_unique (m : Mail) {e e' : Bytes × Bytes} (member : e ∈ m.entries)
    (member' : e' ∈ m.entries) (same : e.1 = e'.1) : e = e' := by
  -- they have different lengths
  have nodup : (m.entries.map Prod.fst).Nodup := by
    apply List.Nodup.of_map List.length
    simp [m.entries_eq, fieldKey, sentinel, separator, ascii, m.socketId_shape.1,
      m.serial_shape.1]
  exact List.inj_on_of_nodup_map nodup member member' same

theorem Mail.record_entry (m : Mail) {e : Bytes × Bytes} (record : e ∈ m.records) :
    e ∈ m.entries := by
  simp only [Mail.records, List.mem_cons, List.not_mem_nil, or_false] at record
  rw [m.entries_eq]
  rcases record with rfl | rfl | rfl <;> simp

theorem Mail.record_field (m : Mail) {e : Bytes × Bytes} (record : e ∈ m.records) :
    ∃ field ∈ mailFields, e.1 = fieldKey m.recipient m.email.socketId m.email.serial field := by
  simp only [Mail.records, List.mem_cons, List.not_mem_nil, or_false] at record
  rcases record with rfl | rfl | rfl
  · exact ⟨ascii "subject", by decide, rfl⟩
  · exact ⟨ascii "size", by decide, rfl⟩
  · exact ⟨ascii "sender", by decide, rfl⟩

/-- The entries of an inbox below its sentinel are the records of its mails. -/
theorem Mail.mem_records_iff (m : Mail) (legible : m.id ≠ sentinelId) (e : Bytes × Bytes) :
    e ∈ m.records ↔ e ∈ m.entries ∧ e.1 < sentinel m.recipient := by
  constructor
  · intro record
    obtain ⟨field, -, same⟩ := m.record_field record
    exact ⟨m.record_entry record, same ▸ (m.lt_sentinel_iff field).mpr legible⟩
  · rw [m.entries_eq, Mail.records]
    simp only [List.mem_cons, List.not_mem_nil, or_false]
    rintro ⟨rfl | rfl | rfl | rfl, below⟩
    · exact .inl rfl
    · exact .inr (.inr rfl)
    · exact .inr (.inl rfl)
    · exact absurd below (lt_irrefl _)

private theorem Mail.records_sorted (m : Mail) : m.records.Pairwise fun e e' => e'.1 < e.1 := by
  have size := m.field_lt m.recipient (ascii "size") (ascii "subject") (by decide)
  have sender := m.field_lt m.recipient (ascii "sender") (ascii "size") (by decide)
  have sender' := m.field_lt m.recipient (ascii "sender") (ascii "subject") (by decide)
  simp [Mail.records, size, sender, sender']

private theorem Mail.records_lt (m : Mail) {m' : Mail} (same : m.recipient = m'.recipient)
    (above : m.Above m') : ∀ e ∈ m.records, ∀ e' ∈ m'.records, e'.1 < e.1 := by
  have before := fun field field' => m.fieldKey_lt m.recipient field field' above
  intro e member e' member'
  simp only [Mail.records, ← same, List.mem_cons, List.not_mem_nil, or_false] at member member'
  rcases member with rfl | rfl | rfl <;> rcases member' with rfl | rfl | rfl <;>
    exact before _ _

theorem Mail.Above.ne {m m' : Mail} (above : m.Above m') : m.id ≠ m'.id := by
  intro same
  obtain ⟨socketId, serial⟩ := Prod.mk.inj same
  rcases above with before | ⟨-, before⟩
  · rw [socketId] at before
    exact lt_irrefl _ before
  · rw [serial] at before
    exact lt_irrefl _ before

/-- The mails of an inbox in descending order. -/
theorem sorted_inbox (address : Bytes) (distinct : mails.Pairwise fun m m' => m.id ≠ m'.id) :
    ∃ inbox : List Mail, inbox.Perm (mails.filter fun m => m.recipient = address) ∧
      inbox.Pairwise Mail.Above := by
  let order (m m' : Mail) : Bool := decide (toLex m'.id ≤ toLex m.id)
  have trans : ∀ m m' m'' : Mail, order m m' = true → order m' m'' = true → order m m'' = true := by
    intro m m' m'' first second
    simp only [order, decide_eq_true_eq] at first second ⊢
    exact second.trans first
  have total : ∀ m m' : Mail, (order m m' || order m' m) = true := by
    intro m m'
    simp only [order, Bool.or_eq_true, decide_eq_true_eq]
    exact le_total _ _
  have sorted := List.pairwise_mergeSort trans total (mails.filter fun m => m.recipient = address)
  have perm := List.mergeSort_perm (mails.filter fun m => m.recipient = address) order
  have distinct' := (distinct.filter fun m => m.recipient = address).perm perm.symm (Ne.symm ·)
  refine ⟨_, perm, (sorted.and distinct').imp ?_⟩
  rintro m m' ⟨before, apart⟩
  -- no two mails have the same name, so the order is strict
  have below : toLex m'.id < toLex m.id :=
    lt_of_le_of_ne (of_decide_eq_true before) fun same => apart (toLex.injective same).symm
  exact Prod.Lex.toLex_lt_toLex.mp below

end Stored

/-! ### What is found -/

section Found

variable (mails : List Mail) (address : Bytes)

private theorem emailsForAddress_none (missing : (databaseOf mails).seek (sentinel address) = none) :
    emailsForAddress (fun _ => true) address (databaseOf mails) = [none] := by
  rw [emailsForAddress, emailsForAddressWith, missing]

private theorem emailsForAddress_some {scan : List (Bytes × Bytes)}
    (found : (databaseOf mails).seek (sentinel address) = some scan) :
    emailsForAddress (fun _ => true) address (databaseOf mails) =
      (foundMails address none scan).map some ++ [none] := by
  rw [emailsForAddress, emailsForAddressWith, found]
  rfl

theorem seek_none_iff : (databaseOf mails).seek (sentinel address) = none ↔
    ∀ m ∈ mails, ∀ key ∈ m.keys, key < sentinel address := by
  rw [Store.seek_none]
  constructor
  · intro all m member key key_
    obtain ⟨value, stored⟩ := stored_key mails member key_
    exact all _ stored
  · intro all e stored
    obtain ⟨m, member, written⟩ := stored_of mails stored
    exact all m member _ (key_of written)

/-- A mail of the address leaves the sentinel in the database. -/
theorem not_all_below {m : Mail} (member : m ∈ mails) (own : m.recipient = address)
    (all : ∀ m ∈ mails, ∀ key ∈ m.keys, key < sentinel address) : False := by
  have key : sentinel address ∈ m.keys := (m.mem_keys _).mpr (.inr (by rw [own]))
  exact lt_irrefl _ (all m member _ key)

theorem mail_unique (distinct : mails.Pairwise fun m m' => m.id ≠ m'.id) {m m' : Mail}
    (member : m ∈ mails) (member' : m' ∈ mails) (same : m.id = m'.id) : m = m' := by
  have nodup : (mails.map Mail.id).Nodup := List.pairwise_map.mpr distinct
  exact List.inj_on_of_nodup_map nodup member member' same

/-- Of the keys of other inboxes below the sentinel, one is the greatest. -/
private theorem greatest_other {other : Mail} {key : Bytes} (member : other ∈ mails)
    (apart : other.recipient ≠ address) (key_ : key ∈ other.keys)
    (below : key < sentinel address) :
    ∃ other' ∈ mails, other'.recipient ≠ address ∧ ∃ key' ∈ other'.keys,
      key' < sentinel address ∧ key ≤ key' ∧
        ∀ other'' ∈ mails, other''.recipient ≠ address → ∀ key'' ∈ other''.keys,
          key'' < sentinel address → key'' ≤ key' := by
  let keys := ((mails.filter fun m => m.recipient ≠ address).flatMap Mail.keys).filter
    fun key => key < sentinel address
  have mem_keys : ∀ key', key' ∈ keys ↔ (∃ m, (m ∈ mails ∧ m.recipient ≠ address) ∧ key' ∈ m.keys) ∧
      key' < sentinel address := by
    intro key'
    simp only [keys, List.mem_filter, List.mem_flatMap, decide_eq_true_eq]
  have here := (mem_keys key).mpr ⟨⟨other, ⟨member, apart⟩, key_⟩, below⟩
  obtain ⟨key', there, most⟩ := keys.toFinset.exists_max_image id
    ⟨key, List.mem_toFinset.mpr here⟩
  obtain ⟨⟨other', ⟨member', apart'⟩, key'_⟩, below'⟩ :=
    (mem_keys key').mp (List.mem_toFinset.mp there)
  refine ⟨other', member', apart', key', key'_, below', most key (List.mem_toFinset.mpr here), ?_⟩
  intro other'' member'' apart'' key'' key''_ below''
  apply most key''
  exact List.mem_toFinset.mpr
    ((mem_keys key'').mpr ⟨⟨other'', ⟨member'', apart''⟩, key''_⟩, below''⟩)

/-- A scan that reads the records of mails, and no others, gives these mails. -/
theorem foundMails_records {address : Bytes} {scan : List (Bytes × Bytes)} {inbox : List Mail}
    (sorted : scan.Pairwise fun e e' => e'.1 < e.1) (order : inbox.Pairwise Mail.Above)
    (own : ∀ m ∈ inbox, m.recipient = address)
    (plain_ : ∀ m ∈ inbox, plain underscore address = true)
    (reads : ∀ e, (e ∈ scan.takeWhile fun e => isRecord address e.1) ↔
      ∃ m ∈ inbox, e ∈ m.records) :
    foundMails address none scan = inbox.map Mail.shown := by
  have apart : inbox.Pairwise fun m m' => m.id ≠ m'.id := order.imp Mail.Above.ne
  have descending : (inbox.flatMap Mail.records).Pairwise fun e e' => e'.1 < e.1 := by
    rw [List.pairwise_flatMap]
    refine ⟨fun m _ => m.records_sorted, order.imp_of_mem ?_⟩
    intro m m' member member' above
    exact m.records_lt ((own m member).trans (own m' member').symm) above
  -- the scan takes the records of the inbox and stops behind them
  have read : scan.takeWhile (fun e => isRecord address e.1) = inbox.flatMap Mail.records := by
    apply scan_unique (sorted.sublist (List.takeWhile_sublist _)) descending
    intro e
    rw [reads e, List.mem_flatMap]
  have ends : ∀ email, foundMails address email (scan.dropWhile fun e => isRecord address e.1) =
      email.toList := by
    intro email
    cases rest : scan.dropWhile fun e => isRecord address e.1 with
    | nil => rfl
    | cons e later =>
      have other : isRecord address e.1 = false := by
        have stop := List.head?_dropWhile_not (fun e => isRecord address e.1) scan
        rwa [rest] at stop
      exact foundMails_other address email e.2 later other
  rw [← List.takeWhile_append_dropWhile (p := fun e => isRecord address e.1) (l := scan), read]
  -- an empty inbox says nothing about the address
  cases inbox with
  | nil => exact ends none
  | cons m inbox => exact foundMails_inbox _ (plain_ m (.head _)) ends (m :: inbox) own apart

/-- A legible record of the address is read as one. -/
private theorem Mail.isRecord_own (m : Mail) (own : m.recipient = address)
    (plain_ : plain underscore address = true) {key : Bytes} (key_ : key ∈ m.keys)
    (below : key < sentinel address) : isRecord address key = true := by
  subst own
  rcases (m.mem_keys key).mp key_ with ⟨field, field_, rfl⟩ | rfl
  · have read := m.components_fieldKey plain_ field (field_unmarked field_)
    exact (isRecord_iff _ _).mpr ⟨_, _, _, read⟩
  · exact absurd below (lt_irrefl _)

/-- A key of an inbox names its mail. -/
theorem Mail.id_of_key {m m' : Mail} {address key : Bytes} (own : m.recipient = address)
    (own' : m'.recipient = address) (plain_ : plain underscore address = true)
    (key_ : key ∈ m.keys) (key'_ : key ∈ m'.keys) (below : key < sentinel address) :
    m.id = m'.id := by
  rcases (m.mem_keys key).mp key_ with ⟨field, field_, rfl⟩ | rfl
  · rcases (m'.mem_keys _).mp key'_ with ⟨field', field'_, same⟩ | same
    · have read := m.components_fieldKey (own ▸ plain_) field (field_unmarked field_)
      rw [same, m'.components_fieldKey (own' ▸ plain_) field' (field_unmarked field'_)] at read
      simp only [List.cons.injEq] at read
      rw [Mail.id, Mail.id, read.2.1, read.2.2.1]
    · rw [same, own'] at below
      exact absurd below (lt_irrefl _)
  · rw [own] at below
    exact absurd below (lt_irrefl _)

variable {mails address} (distinct : mails.Pairwise fun m m' => m.id ≠ m'.id)
  (legible : Legible mails address) (unhidden : Unhidden mails address)
  {scan : List (Bytes × Bytes)}
  (sorted : scan.Pairwise fun e e' => e'.1 < e.1)
  (entries : ∀ e, e ∈ scan ↔ e ∈ (databaseOf mails).entries ∧ e.1 < sentinel address)

include distinct legible unhidden sorted entries

/-- What the scan reads are the records of the inbox. -/
private theorem mem_read_iff (e : Bytes × Bytes) :
    (e ∈ scan.takeWhile fun e => isRecord address e.1) ↔
      ∃ m ∈ mails, m.recipient = address ∧ e ∈ m.records := by
  rw [mem_takeWhile_iff (fun e => isRecord address e.1) sorted]
  constructor
  · rintro ⟨member, all⟩
    obtain ⟨stored, below⟩ := (entries e).mp member
    obtain ⟨m, member_, written⟩ := stored_of mails stored
    by_cases own : m.recipient = address
    · exact ⟨m, member_, own,
        (m.mem_records_iff (legible m member_ own).2 e).mpr ⟨written, own ▸ below⟩⟩
    · -- then the greatest of the other keys below the sentinel would be read
      obtain ⟨other, member', apart, key, key_, below', most, greatest⟩ :=
        greatest_other mails address member_ own (key_of written) below
      have unread := (unhidden other member' apart key key_ below').2 greatest
      obtain ⟨value, stored'⟩ := stored_key mails member' key_
      have read := all (key, value) ((entries _).mpr ⟨stored', below'⟩) most
      dsimp only at read
      rw [unread] at read
      cases read
  · -- a record of the inbox is stored as it was written, with nothing unread above it
    rintro ⟨m, member_, own, record⟩
    obtain ⟨plain_, other⟩ := legible m member_ own
    obtain ⟨written, below⟩ := (m.mem_records_iff other e).mp record
    rw [own] at below
    have above : ∀ key, e.1 ≤ key → ∀ m' ∈ mails, key ∈ m'.keys → key < sentinel address →
        m'.recipient = address := by
      intro key from_ m' member' key_ below'
      by_contra apart
      exact absurd ((unhidden m' member' apart key key_ below').1 m member_ own _ (key_of written))
        (not_lt.mpr from_)
    constructor
    · obtain ⟨value, stored⟩ := stored_key mails member_ (key_of written)
      obtain ⟨m', member', written'⟩ := stored_of mails stored
      have key_ := key_of written'
      dsimp only at key_
      have own' := above e.1 le_rfl m' member' key_ below
      have same := m'.id_of_key own' own plain_ key_ (key_of written) below
      obtain rfl := mail_unique mails distinct member' member_ same
      have entry := m'.entry_unique written' written rfl
      rw [entry] at stored
      exact (entries e).mpr ⟨stored, below⟩
    · intro e' member' from_
      obtain ⟨stored', below'⟩ := (entries e').mp member'
      obtain ⟨m', member'_, written'⟩ := stored_of mails stored'
      exact m'.isRecord_own address (above e'.1 from_ m' member'_ (key_of written') below') plain_
        (key_of written') below'

/-- A legible and unhidden inbox is found. -/
theorem foundMails_found : ∃ inbox : List Mail,
    inbox.Perm (mails.filter fun m => m.recipient = address) ∧ inbox.Pairwise Mail.Above ∧
      foundMails address none scan = inbox.map Mail.shown := by
  obtain ⟨inbox, perm, order⟩ := sorted_inbox mails address distinct
  have members : ∀ m, m ∈ inbox ↔ m ∈ mails ∧ m.recipient = address := by
    intro m
    rw [perm.mem_iff, List.mem_filter, decide_eq_true_eq]
  refine ⟨inbox, perm, order, ?_⟩
  apply foundMails_records sorted order
  · exact fun m member => ((members m).mp member).2
  · exact fun m member =>
      (legible m ((members m).mp member).1 ((members m).mp member).2).1
  · intro e
    rw [mem_read_iff distinct legible unhidden sorted entries e]
    simp only [members, and_assoc]

end Found

/-! ### What was found -/

section Given

private theorem exists_right {α β : Type} {related : α → β → Prop} {xs : List α} {ys : List β}
    (all : List.Forall₂ related xs ys) {x : α} (member : x ∈ xs) : ∃ y ∈ ys, related x y := by
  induction all with
  | nil => cases member
  | cons first _ ih =>
    rcases List.mem_cons.mp member with rfl | later
    · exact ⟨_, .head _, first⟩
    · obtain ⟨y, there, related_⟩ := ih later
      exact ⟨y, .tail _ there, related_⟩

private theorem fieldKey_of_components {address key socketId serial field : Bytes}
    (read : components key = [address, socketId, serial, field]) :
    key = fieldKey address socketId serial field := by
  obtain ⟨-, behindAddress, split, rest⟩ := parts_first underscore read nofun
  obtain ⟨-, behindSocket, split', rest'⟩ := parts_first underscore rest nofun
  obtain ⟨-, behindSerial, split'', last⟩ := parts_first underscore rest' nofun
  rw [fieldKey_eq, split, split', split'', eq_of_parts_one underscore last]

variable {mails : List Mail} {address : Bytes} {scan : List (Bytes × Bytes)}
  {inbox : List Mail} {found : List SMEmail} (named : address ≠ [])
  (perm : inbox.Perm (mails.filter fun m => m.recipient = address))
  (shows_ : List.Forall₂ Shows found inbox) (given : foundMails address none scan = found)

include named shows_ given

/-- What is read is no key of another inbox. -/
private theorem recipient_of_taken {e : Bytes × Bytes}
    (taken : e ∈ scan.takeWhile fun e => isRecord address e.1) {other : Mail}
    (key_ : e.1 ∈ other.keys) : other.recipient = address := by
  have record := List.mem_takeWhile_imp taken
  obtain ⟨socketId, serial, field, read⟩ := (isRecord_iff address e.1).mp record
  obtain ⟨email, member, same⟩ := foundMails_complete address named none scan taken read
  rw [given] at member
  obtain ⟨m, -, shown⟩ := exists_right shows_ member
  have ids : (socketId, serial) = m.id := by rw [← shown.1, same.1, same.2]
  obtain ⟨rfl, rfl⟩ := Prod.mk.inj ids
  exact m.recipient_of_read other key_ read

include perm

/-- The sender of a mail of the inbox is read. -/
private theorem sender_taken {m : Mail} (member : m ∈ mails) (own : m.recipient = address) :
    plain underscore address = true ∧ ∃ value,
      (fieldKey address m.email.socketId m.email.serial (ascii "sender"), value) ∈
        scan.takeWhile fun e => isRecord address e.1 := by
  have inside : m ∈ inbox := perm.mem_iff.mpr (List.mem_filter.mpr ⟨member, decide_eq_true own⟩)
  obtain ⟨email, there, shown⟩ := exists_right shows_.flip inside
  have shown : Shows email m := shown
  rw [← given] at there
  have sender : email.sender ≠ none := by
    rw [shown.2.2.2.1]
    exact nofun
  rcases foundMails_sender address named none scan there sender with ⟨_, hand, -⟩ | ⟨e, taken, read⟩
  · cases hand
  · obtain ⟨socketId, serial⟩ := Prod.mk.inj shown.1
    refine ⟨(parts_first underscore read nofun).1, e.2, ?_⟩
    rw [← socketId, ← serial, ← fieldKey_of_components read]
    exact taken

end Given

section Needed

variable {mails : List Mail} {address : Bytes} {scan : List (Bytes × Bytes)}
  {inbox : List Mail} {found : List SMEmail} (named : address ≠ [])
  (sorted : scan.Pairwise fun e e' => e'.1 < e.1)
  (entries : ∀ e, e ∈ scan ↔ e ∈ (databaseOf mails).entries ∧ e.1 < sentinel address)
  (perm : inbox.Perm (mails.filter fun m => m.recipient = address))
  (shows_ : List.Forall₂ Shows found inbox) (given : foundMails address none scan = found)

include named entries perm shows_ given

private theorem legible_of_found : Legible mails address := by
  intro m member own
  obtain ⟨plain_, value, taken⟩ := sender_taken named perm shows_ given member own
  have below := ((entries _).mp ((List.takeWhile_sublist _).subset taken)).2
  subst own
  exact ⟨plain_, (m.lt_sentinel_iff _).mp below⟩

include sorted

private theorem unhidden_of_found : Unhidden mails address := by
  have legible := legible_of_found named entries perm shows_ given
  intro other member apart key key_ below
  obtain ⟨value, stored⟩ := stored_key mails member key_
  have there : (key, value) ∈ scan := (entries _).mpr ⟨stored, below⟩
  have untaken : (key, value) ∉ scan.takeWhile fun e => isRecord address e.1 :=
    fun taken => apart (recipient_of_taken named shows_ given taken key_)
  rw [mem_takeWhile_iff _ sorted] at untaken
  constructor
  · intro m member' own key' key'_
    -- a key above the sender of the mail would have been read
    by_contra above
    apply untaken
    refine ⟨there, ?_⟩
    intro e member_ from_
    -- the sender of the mail was read, and the key lies above it
    obtain ⟨-, value', taken⟩ := sender_taken named perm shows_ given member' own
    apply ((mem_takeWhile_iff _ sorted _).mp taken).2 e member_
    refine le_trans ?_ ((not_lt.mp above).trans from_)
    subst own
    rcases (m.mem_keys key').mp key'_ with ⟨field, field_, rfl⟩ | rfl
    · exact m.sender_le m.recipient field_
    · exact absurd below above
  · intro greatest
    -- all above the greatest of the other keys is of the inbox, so it would be read as well
    by_contra read
    apply untaken
    refine ⟨there, ?_⟩
    intro e member_ from_
    obtain ⟨stored', below'⟩ := (entries e).mp member_
    obtain ⟨m, member', written⟩ := stored_of mails stored'
    by_cases own : m.recipient = address
    · exact m.isRecord_own address own (legible m member' own).1 (key_of written) below'
    · have most := greatest m member' own e.1 (key_of written) below'
      rw [le_antisymm most from_]
      simpa using read

end Needed

/-- For every set of mails, the search of an address finds its inbox exactly if the address is
searchable in it. -/
theorem finds_iff_searchable (mails : List Mail) (address : Bytes) (named : address ≠ [])
    (distinct : mails.Pairwise fun m m' => m.id ≠ m'.id) :
    Finds mails address (emailsForAddress (fun _ => true) address (databaseOf mails)) ↔
      Searchable mails address := by
  cases found : (databaseOf mails).seek (sentinel address) with
  | none =>
    have all := (seek_none_iff mails address).mp found
    refine iff_of_true ?_ (.inl all)
    rw [emailsForAddress_none mails address found]
    -- a mail for the address would have left its sentinel to be found
    have empty : mails.filter (fun m => m.recipient = address) = [] := by
      rw [List.filter_eq_nil_iff]
      intro m member own
      exact not_all_below mails address member (of_decide_eq_true own) all
    exact ⟨[], [], by rw [empty], .nil, .nil, rfl⟩
  | some scan =>
    obtain ⟨sorted, entries⟩ := Store.seek_some _ found
    rw [emailsForAddress_some mails address found]
    constructor
    · rintro ⟨inbox, emails, perm, -, shows_, calls⟩
      have given : foundMails address none scan = emails := by
        have same := (List.append_inj' calls rfl).1
        exact List.map_injective_iff.mpr (Option.some_injective _) same
      exact .inr ⟨legible_of_found named entries perm shows_ given,
        unhidden_of_found named sorted entries perm shows_ given⟩
    · rintro (all | ⟨legible, unhidden⟩)
      · rw [(seek_none_iff mails address).mpr all] at found
        cases found
      · obtain ⟨inbox, perm, order, given⟩ :=
          foundMails_found distinct legible unhidden sorted entries
        refine ⟨inbox, inbox.map Mail.shown, perm, order, ?_, by rw [given]⟩
        rw [List.forall₂_map_left_iff, List.forall₂_same]
        exact fun m _ => m.shows

def mailFor (recipient serial : Bytes)
    (address : recipient ≠ [] ∧ recipient.all (fun b => !emailSplitSet b) = true)
    (digits : wellFormed serialShape serial = true) : Mail where
  email :=
    { SMEmail.init (ascii "20120807120000000-001.002.003.004-00025") serial (some (ascii "s")) with
      recipients := [recipient] }
  recipient := recipient
  addressed := rfl
  address := address
  socketId := rfl
  serial := digits
  counted := Nat.two_pow_pos 63

theorem named_x : ascii "x" ≠ [] ∧ (ascii "x").all (fun b => !emailSplitSet b) = true := by decide

/-- A mail for `x`, and one for `x__5`. -/
def hiddenMails : List Mail :=
  [mailFor (ascii "x") (ascii "000001") (by decide) (by decide),
    mailFor (ascii "x__5") (ascii "000002") (by decide) (by decide)]

/-- A mail for `x`, and one for `y`. -/
def neighbours : List Mail :=
  [mailFor (ascii "x") (ascii "000001") (by decide) (by decide),
    mailFor (ascii "y") (ascii "000002") (by decide) (by decide)]

theorem finds_iff_searchable_neighbours :
    Finds neighbours (ascii "x")
      (emailsForAddress (fun _ => true) (ascii "x") (databaseOf neighbours)) := by
  have legible : Legible neighbours (ascii "x") := by
    unfold Legible
    decide +kernel
  have above : ∀ other ∈ neighbours, other.recipient ≠ ascii "x" →
      ∀ key ∈ other.keys, ¬key < sentinel (ascii "x") := by
    decide +kernel
  apply (finds_iff_searchable neighbours (ascii "x") nofun (by decide)).mpr
  exact .inr ⟨legible, fun other member apart key own below =>
    absurd below (above other member apart key own)⟩

/-- The mail for `x` is hidden by the keys of the other, one of which is read as a mail of `x`. -/
theorem hidden_lost :
    hiddenMails.Pairwise (fun m m' => m.id ≠ m'.id) ∧
      ¬ Finds hiddenMails (ascii "x")
        (emailsForAddress (fun _ => true) (ascii "x") (databaseOf hiddenMails)) := by
  refine ⟨by decide, ?_⟩
  rintro ⟨inbox, emails, perm, -, shows_, calls⟩
  cases found : (databaseOf hiddenMails).seek (sentinel (ascii "x")) with
  | none =>
    exact not_all_below hiddenMails (ascii "x") (.head _) rfl ((seek_none_iff _ _).mp found)
  | some scan =>
    obtain ⟨sorted, entries⟩ := Store.seek_some _ found
    rw [emailsForAddress_some _ _ found] at calls
    have given : foundMails (ascii "x") none scan = emails :=
      List.map_injective_iff.mpr (Option.some_injective _) (List.append_inj' calls rfl).1
    have named : ascii "x" ≠ [] := by decide
    have unhidden := unhidden_of_found named sorted entries perm shows_ given
    let m := mailFor (ascii "x") (ascii "000001") (by decide) (by decide)
    let other := mailFor (ascii "x__5") (ascii "000002") (by decide) (by decide)
    let key := fieldKey other.recipient other.email.socketId other.email.serial (ascii "size")
    let own := fieldKey m.recipient m.email.socketId m.email.serial (ascii "size")
    have key_ : key ∈ other.keys := (other.mem_keys key).mpr (.inl ⟨ascii "size", by decide, rfl⟩)
    have own_ : own ∈ m.keys := (m.mem_keys own).mpr (.inl ⟨ascii "size", by decide, rfl⟩)
    have below : key < sentinel (ascii "x") := by decide
    have above : own < key := by decide
    have hidden := (unhidden other (.tail _ (.head _)) (by decide) key key_ below).1
    exact absurd (hidden m (.head _) rfl own own_) (not_lt.mpr above.le)

end Spamass.App
