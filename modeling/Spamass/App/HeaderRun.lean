import Mathlib.Data.List.TakeWhile
import Spamass.App.Mail
import Spamass.Runs

/-!
# Reading data chunk by chunk

`handleData:withSocket:` over all chunks of a data segment. A chunk that is not UTF-8 is
a nil string, every message to which answers zero: the header half then goes on with a
nil value, and raises unless the header it is added to is a single string.
-/
namespace Spamass.App

open Spamass.Emailz Spamass.Runs

/-- The calls for the chunks of a data segment, one after another. -/
def handleDatas (lower : Bytes → Bytes) (socket : SMSocket) (chunks : List Bytes) :
    Option SMSocket :=
  chunks.foldlM (fun socket data => handleData lower data socket) socket

/-- What a call makes of the mail. -/
def SMEmail.receive (lower : Bytes → Bytes) (email : SMEmail) (data : Bytes) : Option SMEmail :=
  (readHeader lower email.toHeaderState (stringWithUtf8 data)).map fun h =>
    { email with
      toHeaderState := h
      data := email.data ++ data
      dataSize := email.dataSize + ((stringWithUtf8 data).map utf16Length).getD 0 }

/-- While headers are read, a chunk that is not UTF-8 comes behind a header with one value. -/
def Readable (email : SMEmail) (data : Bytes) : Prop :=
  email.isInHeaders = true → utf8Valid data = false →
    ∃ name value, email.lastHeader = some name ∧ email.headers.lookup name = some (.one value)

private theorem handleData_receive (lower : Bytes → Bytes) (data : Bytes) (socket : SMSocket)
    (email : SMEmail) :
    handleData lower data { socket with email := some email } =
      (email.receive lower data).map fun next => { socket with email := some next } := by
  simp only [handleData, SMEmail.receive, Option.map_map]
  rfl

private theorem handleDatas_receive (lower : Bytes → Bytes) (socket : SMSocket) (email : SMEmail)
    (chunks : List Bytes) :
    handleDatas lower { socket with email := some email } chunks =
      (chunks.foldlM (SMEmail.receive lower) email).map fun next =>
        { socket with email := some next } := by
  induction chunks generalizing email with
  | nil => rfl
  | cons data chunks ih =>
    simp only [handleDatas] at ih
    rw [handleDatas, List.foldlM_cons, List.foldlM_cons, handleData_receive]
    cases email.receive lower data with
    | none => rfl
    | some next => exact ih next

/-- A run of calls ends with the mail that receiving the chunks ends with. -/
theorem handleDatas_some {lower : Bytes → Bytes} {socket : SMSocket} {email last : SMEmail}
    {chunks : List Bytes} :
    handleDatas lower { socket with email := some email } chunks =
        some { socket with email := some last } ↔
      chunks.foldlM (SMEmail.receive lower) email = some last := by
  rw [handleDatas_receive, Option.map_eq_some_iff]
  constructor
  · rintro ⟨next, received, same⟩
    obtain rfl := Option.some.inj (congrArg SMSocket.email same)
    exact received
  · intro received
    exact ⟨last, received, rfl⟩

/-- The name and the value of a string line are strings. -/
private theorem headerField_some (lower : Bytes → Bytes) (lastHeader : Option Bytes) (line : Bytes)
    {name value : Option Bytes} (field : headerField lower lastHeader (some line) = some (name, value)) :
    ∃ name' value', name = some name' ∧ value = some value' := by
  unfold headerField at field
  split at field
  · cases ‹some line = none›
  · cases ‹some line = none›
  next last line' _ same =>
    split at field
    · cases field
      exact ⟨_, _, rfl, rfl⟩
    · obtain ⟨pair, -, made⟩ := Option.map_eq_some_iff.mp field
      cases made
      exact ⟨_, _, rfl, rfl⟩
  next line' _ same =>
    obtain ⟨pair, -, made⟩ := Option.map_eq_some_iff.mp field
    cases made
    exact ⟨_, _, rfl, rfl⟩

/-- A string is entered whatever the header holds so far. -/
private theorem enterHeader_isSome (headers : List (Bytes × Header)) (name value : Bytes) :
    (enterHeader headers (some name) (some value)).isSome = true := by
  unfold enterHeader
  dsimp only
  split <;> rfl

/-- A nil value is entered only behind a single string. -/
private theorem enterHeader_nil (headers : List (Bytes × Header)) (name : Bytes) :
    (enterHeader headers (some name) none).isSome = true ↔
      ∃ value, headers.lookup name = some (.one value) := by
  unfold enterHeader
  dsimp only
  split
  next value found => exact iff_of_true rfl ⟨value, found⟩
  next other => exact iff_of_false nofun fun ⟨value, found⟩ => other value found

/-- A chunk raises in the headers, not being a string, where there is no single value to add it
to. -/
private theorem readHeader_isSome (lower : Bytes → Bytes) (h : HeaderState) (data : Bytes) :
    (readHeader lower h (stringWithUtf8 data)).isSome = true ↔
      (h.isInHeaders = true → utf8Valid data = false →
        ∃ name value, h.lastHeader = some name ∧ h.headers.lookup name = some (.one value)) := by
  unfold readHeader
  cases reading : h.isInHeaders with
  | false => exact iff_of_true rfl nofun
  | true =>
    unfold stringWithUtf8
    cases valid : utf8Valid data with
    | true =>
      refine iff_of_true ?_ nofun
      rw [Bool.not_true, if_neg Bool.false_ne_true, if_pos rfl]
      split
      · rfl
      split
      · rfl
      next name value field =>
        obtain ⟨name', value', rfl, rfl⟩ := headerField_some lower h.lastHeader data field
        rw [Option.isSome_map, Option.map_some]
        exact enterHeader_isSome h.headers name' _
    | false =>
      rw [Bool.not_true, if_neg Bool.false_ne_true, if_neg Bool.false_ne_true, if_neg nofun]
      cases last : h.lastHeader with
      | none => simp [headerField, enterHeader]
      | some name => simp [headerField, enterHeader_nil]

theorem receive_isSome (lower : Bytes → Bytes) (email : SMEmail) (data : Bytes) :
    (email.receive lower data).isSome = true ↔ Readable email data := by
  rw [SMEmail.receive, Option.isSome_map, readHeader_isSome, Readable]

private theorem receive_data {lower : Bytes → Bytes} {email next : SMEmail} {data : Bytes}
    (received : email.receive lower data = some next) : next.data = email.data ++ data := by
  obtain ⟨h, -, rfl⟩ := Option.map_eq_some_iff.mp received
  rfl

theorem receives_data {lower : Bytes → Bytes} {email last : SMEmail} {chunks : List Bytes}
    (received : chunks.foldlM (SMEmail.receive lower) email = some last) :
    last.data = email.data ++ chunks.flatten := by
  induction chunks generalizing email with
  | nil =>
    obtain rfl := Option.some.inj received
    simp
  | cons data chunks ih =>
    rw [List.foldlM_cons] at received
    obtain ⟨next, first, later⟩ := Option.bind_eq_some_iff.mp received
    rw [ih later, receive_data first, List.flatten_cons, List.append_assoc]

/-- The headers are read by themselves. -/
theorem receives_headers (lower : Bytes → Bytes) (email : SMEmail) (chunks : List Bytes) :
    (chunks.foldlM (SMEmail.receive lower) email).map SMEmail.toHeaderState =
      chunks.foldlM (fun h data => readHeader lower h (stringWithUtf8 data))
        email.toHeaderState := by
  induction chunks generalizing email with
  | nil => rfl
  | cons data chunks ih =>
    rw [List.foldlM_cons, List.foldlM_cons, SMEmail.receive]
    cases readHeader lower email.toHeaderState (stringWithUtf8 data) with
    | none => rfl
    | some h => exact ih _

/-- A mail stays with its sender, its recipients and its name. -/
theorem receives_kept {lower : Bytes → Bytes} {email last : SMEmail} {chunks : List Bytes}
    (received : chunks.foldlM (SMEmail.receive lower) email = some last) :
    last.socketId = email.socketId ∧ last.serial = email.serial ∧
      last.recipients = email.recipients := by
  induction chunks generalizing email with
  | nil =>
    obtain rfl := Option.some.inj received
    exact ⟨rfl, rfl, rfl⟩
  | cons data chunks ih =>
    rw [List.foldlM_cons] at received
    obtain ⟨next, first, later⟩ := Option.bind_eq_some_iff.mp received
    obtain ⟨h, -, rfl⟩ := Option.map_eq_some_iff.mp first
    have kept := ih later
    exact kept

/-- The range of a colon is in the line, and the value is what is behind it. -/
private theorem splitAtColon_joined {line name value : Bytes}
    (split_ : splitAtColon line = some (name, value)) : line = name ++ colon :: value := by
  unfold splitAtColon at split_
  split at split_
  next present =>
    obtain ⟨rfl, rfl⟩ := Prod.mk.inj (Option.some.inj split_)
    have whole := List.takeWhile_append_dropWhile (p := (· != colon)) (l := line)
    have first := List.head?_dropWhile_not (· != colon) line
    cases rest : line.dropWhile (· != colon) with
    | nil =>
      have missing := List.dropWhile_eq_nil_iff.mp rest colon (List.contains_iff_mem.mp present)
      rw [bne_self_eq_false] at missing
      cases missing
    | cons b rest' =>
      rw [rest] at whole first
      have same : b = colon := by simpa using first
      rw [same] at whole
      exact whole.symm
  · cases split_

/-- All chunks are taken, and the data of the mail is all of them, exactly if every chunk is
readable where it comes; and no range of a colon leaves its line. -/
theorem handleDatas_iff_readable (lower : Bytes → Bytes) (socket : SMSocket) (email : SMEmail)
    (chunks : List Bytes) :
    ((∃ last, handleDatas lower { socket with email := some email } chunks =
          some { socket with email := some last } ∧ last.data = email.data ++ chunks.flatten) ↔
        Each (staying (SMEmail.receive lower)) Readable email chunks) ∧
      ∀ line name value, splitAtColon line = some (name, value) → line = name ++ colon :: value := by
  refine ⟨?_, fun _ _ _ => splitAtColon_joined⟩
  rw [← foldlM_isSome_iff _ (receive_isSome lower)]
  constructor
  · rintro ⟨last, done, -⟩
    rw [handleDatas_some.mp done]
    rfl
  · intro taken
    obtain ⟨last, received⟩ := Option.isSome_iff_exists.mp taken
    exact ⟨last, handleDatas_some.mpr received, receives_data received⟩

/-- A first line that is not UTF-8 raises, and so does one behind a repeated header. -/
theorem handleDatas_raises :
    handleDatas id { SMSocket.init [] with email := some (SMEmail.init [] [] none) } [[0xFF]] = none ∧
      handleDatas id { SMSocket.init [] with email := some (SMEmail.init [] [] none) }
        [ascii "a: b\r\n", ascii "a: c\r\n", [0xFF]] = none := by
  decide +kernel

end Spamass.App
