import Spamass.App.Inbox
import Spamass.Runs

/-!
# The search page

`HTTPEmailSearchResponse` builds its page in the block it hands to the scan of the
database, and the connection sends what there is in chunks meanwhile. Over every order
of calls and sends the page is complete and closed once, exactly if the scan gives at most
ten mails and no text of the page is cut off.
-/
namespace Spamass.Web

open Spamass.Emailz Spamass.App Spamass.SortedStore Spamass.Runs

/-! ### Texts -/

/-- `appendBytes:length:` of the UTF-8 bytes of a text, with its length in characters. -/
def clip (text : Bytes) : Bytes := text.take (utf16Length text)

/-- `numberWithInteger:` of an unsigned number, as text. -/
def integerText (n : Nat) : Bytes :=
  if n < 0x8000000000000000 then decimal n else 45 :: decimal (0x10000000000000000 - n)

/-- `emailId`; `none` where `objectAtIndex:0` raises. -/
def emailId (email : SMEmail) : Option Bytes :=
  email.recipients.head?.map fun first =>
    first ++ separator ++ email.socketId ++ separator ++ email.serial

/-- The date of a socket id, taken apart by `substringWithRange:`. -/
def dateText (date : Bytes) : Option Bytes :=
  let part (start count : Nat) := (date.drop start).take count
  if utf16Length date < 14 then none
  else some (part 0 4 ++ ascii "-" ++ part 4 2 ++ ascii "-" ++ part 6 2 ++ ascii " " ++
    part 8 2 ++ ascii ":" ++ part 10 2 ++ ascii ":" ++ part 12 2)

def pageHeader (address : Bytes) : Bytes :=
  ascii "<html><head><title>" ++ address ++ ascii "</title></head><body>" ++
    ascii "<table border=1 cellspacing=0 cellspacing=0><tr><td>" ++
    ascii "<table border=0 cellpadding=3 cellspacing=10><tr>" ++ ascii "<td>&nbsp;</td>" ++
    ascii "<td>Sender</td>" ++ ascii "<td>Recipient</td>" ++ ascii "<td>Subject</td>" ++
    ascii "<td>Size (bytes)</td>" ++ ascii "<td>Date (GMT)</td>" ++ ascii "<td>Remote</td>" ++
    ascii "</tr>\r\n"

def pageFooter : Bytes := ascii "</td></tr></table>\r\n" ++ ascii "</table></body></html>\r\n"

def invalidPage : Bytes :=
  ascii "<html><head><title>Hello.</title></head><body>" ++ ascii "Not a valid request." ++
    ascii "</body></html>\r\n"

/-- One row of the result; `none` where `appendString:` raises on nil or on an array. -/
def pageRow (count : Nat) (email : SMEmail) (date addr port : Bytes) : Option Bytes := do
  let day ← dateText date
  let name ← emailId email
  let sender ← email.sender
  let recipient ← email.recipients.head?
  let subject ← match email.headers.lookup (ascii "subject") with
    | some (.one subject) => some subject
    | _ => none
  some (ascii "<tr bgcolor=\"" ++ (if count % 2 = 1 then ascii "Azure" else ascii "White") ++
    ascii "\">" ++ ascii "<td align=right><a href=\"v?e=" ++ name ++ ascii "\">" ++
    integerText count ++ ascii "</a></td>" ++ ascii "<td>" ++ sender ++ ascii "</td>" ++
    ascii "<td>" ++ recipient ++ ascii "</td>" ++ ascii "<td>" ++ subject ++ ascii "</td>" ++
    ascii "<td align=right>" ++ integerText email.dataSize ++ ascii "</td>" ++
    ascii "<td><code>" ++ day ++ ascii "</code></td>" ++
    ascii "<td><code>" ++ addr ++ ascii ":" ++ port ++ ascii "</code></td>" ++ ascii "</tr>\r\n")

/-! ### The response -/

structure SearchResponse where
  connection : Bool
  dataBuffer : Bytes
  theOffset : Nat
  mIsDone : Bool
  mResultCount : Nat
  -- the counter of the block
  emailCount : Nat
  deriving DecidableEq, Repr

/-- `responseWithPath:forConnection:` up to the search. -/
def searchResponse (address : Bytes) : SearchResponse :=
  if utf16Length address = 0 then ⟨true, clip invalidPage, 0, true, 0, 0⟩
  else ⟨true, clip (pageHeader address), 0, false, 0, 0⟩

def SearchResponse.finish (r : SearchResponse) : SearchResponse :=
  { r with mIsDone := true, dataBuffer := r.dataBuffer ++ clip pageFooter }

def dash : UInt8 := 45

/-- The block handed to `emailsForAddress:withBlock:`, and its answer; `none` where it raises. -/
def searchCallback (r : SearchResponse) (found : Option SMEmail) : Option (SearchResponse × Bool) :=
  if !r.connection then some (r, false)
  else
    match found with
    | none => some (r.finish, true)
    | some email =>
      let counted := { r with emailCount := r.emailCount + 1 }
      if 10 ≤ r.emailCount then some (counted.finish, true)
      else
        match componentsInSet (· == dash) email.socketId with
        | [date, addr, port] =>
          (pageRow (r.mResultCount + 1) email date addr port).map fun row =>
            ({ counted with
                mResultCount := r.mResultCount + 1
                dataBuffer := r.dataBuffer ++ clip row }, true)
        | _ => some (counted, false)

/-- `readDataOfLength:`, nil as no data. -/
def SearchResponse.readDataOfLength (r : SearchResponse) (length : Nat) : SearchResponse × Bytes :=
  if r.dataBuffer.length ≤ r.theOffset then (r, [])
  else
    let count := min length (r.dataBuffer.length - r.theOffset)
    ({ r with theOffset := r.theOffset + count }, (r.dataBuffer.drop r.theOffset).take count)

def SearchResponse.isDone (r : SearchResponse) : Bool :=
  r.mIsDone && decide (r.dataBuffer.length ≤ r.theOffset)

/-! ### The run -/

/-- What the connection writes: a chunk of the page, or the zero chunk behind the last one. -/
inductive Chunk where
  | data (bytes : Bytes)
  | terminator
  deriving DecidableEq, Repr

structure Serving where
  response : SearchResponse
  -- the calls of the block that are still to come
  calls : List (Option SMEmail)
  sent : List Chunk
  deriving DecidableEq, Repr

/-- The search that answers a request. -/
def Serving.start (db : Database) (address : Bytes) : Serving where
  response := searchResponse address
  calls := if utf16Length address = 0 then [] else emailsForAddress (fun _ => true) address db
  sent := []

inductive PageStep where
  /-- the scan calls the block -/
  | call
  /-- `continueSendingStandardResponseBody`, with room for so many bytes -/
  | send (available : Nat)

/-- The calls behind a refused mail: the loop is left with the mail in hand, and hands it over
once more. -/
def refused (found : Option SMEmail) (left : List (Option SMEmail)) : List (Option SMEmail) :=
  if left.length ≤ 1 then left else [found, none]

def Serving.call (s : Serving) : Serving :=
  match s.calls with
  | [] => s
  | found :: left =>
    match searchCallback s.response found with
    -- an exception of the block ends the search
    | none => { s with calls := [] }
    | some (response, goesOn) =>
      { s with response := response, calls := if goesOn then left else refused found left }

def Serving.send (s : Serving) (available : Nat) : Serving :=
  let read := s.response.readDataOfLength available
  if read.2 = [] then { s with response := read.1 }
  else
    { s with
      response := read.1
      sent := s.sent ++ .data read.2 :: (if read.1.isDone then [.terminator] else []) }

def Serving.step (s : Serving) : PageStep → Serving
  | .call => s.call
  | .send available => s.send available

/-! ### The page -/

/-- The mails a scan delivers to a block that goes on. -/
def delivered (db : Database) (address : Bytes) : List SMEmail :=
  match db.seek (sentinel address) with
  | none => []
  | some scan => foundMails address none scan

/-- A mail that can be shown. -/
structure Displayable (email : SMEmail) : Prop where
  socketId : wellFormed socketIdShape email.socketId = true
  sender : email.sender ≠ none
  subject : ∃ subject, email.headers.lookup (ascii "subject") = some (.one subject)

/-- The row of a mail whose socket id is well-formed. -/
def rowOf (count : Nat) (email : SMEmail) : Bytes :=
  (pageRow count email (email.socketId.take 17) ((email.socketId.drop 18).take 15)
    (email.socketId.drop 34)).getD []

/-- The rows behind the first `count`. -/
def rowsFrom (count : Nat) : List SMEmail → Bytes
  | [] => []
  | email :: emails => rowOf (count + 1) email ++ rowsFrom (count + 1) emails

def page (address : Bytes) (emails : List SMEmail) : Bytes :=
  pageHeader address ++ rowsFrom 0 (emails.take 10) ++ pageFooter

/-- Once the calls are over the page is there, and nothing is sent behind the terminator. -/
structure PageComplete (address : Bytes) (emails : List SMEmail) (s : Serving) : Prop where
  page : s.calls = [] → s.response.dataBuffer = page address emails
  closed : ∀ before after, s.sent = before ++ .terminator :: after → after = []

/-- A step behind `mIsDone` leaves the buffer as it is, and the response done. -/
def StaysDone (s : Serving) (label : PageStep) : Prop :=
  s.response.mIsDone = true → (s.step label).response.dataBuffer = s.response.dataBuffer ∧
    (s.response.isDone = true → (s.step label).response.isDone = true)

/-- A text is not cut off: it has a character for each byte. -/
def Fits (text : Bytes) : Prop := text.length ≤ utf16Length text

instance (text : Bytes) : Decidable (Fits text) :=
  inferInstanceAs (Decidable (text.length ≤ utf16Length text))

def RowsFit (count : Nat) : List SMEmail → Prop
  | [] => True
  | email :: emails => Fits (rowOf (count + 1) email) ∧ RowsFit (count + 1) emails

instance decidableRowsFit (count : Nat) : ∀ emails, Decidable (RowsFit count emails)
  | [] => inferInstanceAs (Decidable True)
  | email :: emails =>
    have := decidableRowsFit (count + 1) emails
    inferInstanceAs (Decidable (Fits (rowOf (count + 1) email) ∧ RowsFit (count + 1) emails))

/-! ### Names -/

/-- A mark that is required is there. -/
private theorem passes_mark (mark : UInt8) (n : Nat) (text : Bytes)
    (passes_ : passes [(· == mark)] (text.drop n) = true) :
    text.drop n = mark :: text.drop (n + 1) := by
  rw [← List.drop_drop]
  cases rest : text.drop n with
  | nil =>
    rw [rest] at passes_
    cases passes_
  | cons b later =>
    rw [rest] at passes_
    simp only [passes, Bool.and_true, beq_iff_eq] at passes_
    rw [passes_]
    rfl

theorem components_dashes (a b c : Bytes) (first : ∀ x ∈ a, x ≠ dash) (second : ∀ x ∈ b, x ≠ dash)
    (third : ∀ x ∈ c, x ≠ dash) :
    componentsInSet (· == dash) (a ++ dash :: (b ++ dash :: c)) = [a, b, c] := by
  have apart : ∀ text : Bytes, (∀ x ∈ text, x ≠ dash) → ∀ x ∈ text, (x == dash) = false :=
    fun text other x member => beq_eq_false_iff_ne.mpr (other x member)
  rw [components_cons dash _ (apart a first) rfl, components_cons dash _ (apart b second) rfl,
    components_one (apart c third)]

def addressShape : List (UInt8 → Bool) :=
  List.replicate 3 isDigit ++ [(· == dot)] ++ List.replicate 3 isDigit ++ [(· == dot)] ++
    List.replicate 3 isDigit ++ [(· == dot)] ++ List.replicate 3 isDigit

/-- The three parts of a socket id. -/
theorem socketId_parts (socketId : Bytes) (shape : wellFormed socketIdShape socketId = true) :
    componentsInSet (· == dash) socketId =
      [socketId.take 17, (socketId.drop 18).take 15, socketId.drop 34] := by
  simp only [wellFormed, Bool.and_eq_true, beq_iff_eq] at shape
  obtain ⟨length, shape⟩ := shape
  have size : socketId.length = 39 := length
  have split : socketIdShape = List.replicate 17 isDigit ++ ([(· == dash)] ++
      (addressShape ++ ([(· == dash)] ++ List.replicate 5 isDigit))) := rfl
  have width : addressShape.length = 15 := rfl
  rw [split, passes_append, passes_append, passes_append, passes_append] at shape
  simp only [Bool.and_eq_true, List.drop_drop, List.length_replicate, List.length_singleton,
    width] at shape
  obtain ⟨day, first, addr, second, port⟩ := shape
  have dayApart : ∀ b ∈ socketId.take 17, b ≠ dash := passes_apart dash _ _ rfl day
  have addrApart : ∀ b ∈ (socketId.drop 18).take 15, b ≠ dash := passes_apart dash _ _ rfl addr
  have portApart : ∀ b ∈ (socketId.drop 34).take 5, b ≠ dash := passes_apart dash _ _ rfl port
  rw [List.take_of_length_le (by simp [size])] at portApart
  have whole : socketId = socketId.take 17 ++ dash :: ((socketId.drop 18).take 15 ++
      dash :: socketId.drop 34) := by
    have left := List.take_append_drop 17 socketId
    have right := List.take_append_drop 15 (socketId.drop 18)
    rw [List.drop_drop, passes_mark dash 33 socketId second] at right
    rw [passes_mark dash 17 socketId first, ← right] at left
    exact left.symm
  have parts := components_dashes _ _ _ dayApart addrApart portApart
  rwa [← whole] at parts

private theorem enterField_recipients (email : SMEmail) (field value : Bytes) :
    (enterField email field value).recipients = email.recipients := by
  unfold enterField
  split_ifs <;> rfl

theorem foundMails_recipients (address : Bytes) (named : address ≠ []) (email : Option SMEmail)
    (scan : List (Bytes × Bytes)) (own : ∀ e ∈ email, e.recipients = [address]) :
    ∀ e ∈ foundMails address email scan, e.recipients = [address] := by
  induction scan generalizing email with
  | nil => simpa [foundMails, searchLoop, handLoop] using own
  | cons entry scan ih =>
    obtain ⟨key, value⟩ := entry
    cases record : isRecord address key with
    | false => simpa [foundMails_other address _ value scan record] using own
    | true =>
      obtain ⟨socketId, serial, field, read⟩ := (isRecord_iff address key).mp record
      have begins : (opened address socketId serial field value).recipients = [address] :=
        enterField_recipients _ _ _
      cases email with
      | none =>
        rw [foundMails_first named value scan read]
        exact ih _ (by simpa using begins)
      | some email =>
        have here : email.recipients = [address] := own email rfl
        -- the record joins the mail in hand, or begins the next one
        by_cases same : SameMail email socketId serial
        · rw [foundMails_same named value scan read same]
          exact ih _ (by simpa [enterField_recipients] using here)
        · rw [foundMails_next named value scan read same]
          intro e member
          rcases List.mem_cons.mp member with rfl | later
          · exact here
          · exact ih _ (by simpa using begins) e later

/-- The mails of a search are of the address that was searched. -/
private theorem delivered_recipients (db : Database) (address : Bytes) (named : address ≠ []) :
    ∀ email ∈ delivered db address, email.recipients = [address] := by
  unfold delivered
  split
  · simp
  · exact foundMails_recipients address named none _ (by simp)

theorem emailsForAddress_delivered (db : Database) (address : Bytes) :
    emailsForAddress (fun _ => true) address db = (delivered db address).map some ++ [none] := by
  unfold emailsForAddress emailsForAddressWith delivered
  cases db.seek (sentinel address) with
  | none => rfl
  | some scan => rfl

/-! ### One call -/

/-- A mail that can be shown has a row. -/
theorem pageRow_some (count : Nat) (email : SMEmail) (displayable : Displayable email)
    (recipient : email.recipients ≠ []) :
    pageRow count email (email.socketId.take 17) ((email.socketId.drop 18).take 15)
      (email.socketId.drop 34) = some (rowOf count email) := by
  have shape := displayable.socketId
  simp only [wellFormed, Bool.and_eq_true, beq_iff_eq] at shape
  obtain ⟨length, shape⟩ := shape
  have size : email.socketId.length = 39 := length
  -- the day is seventeen digits long
  have digits : ∀ b ∈ email.socketId.take 17, isDigit b = true := by
    have split : socketIdShape = List.replicate 17 isDigit ++ socketIdShape.drop 17 := rfl
    rw [split, passes_append, Bool.and_eq_true] at shape
    refine passes_all (isDigit · = true) (List.replicate 17 isDigit) _ ?_ shape.1
    intro check member b accepts
    rwa [List.eq_of_mem_replicate member] at accepts
  have day : ∃ day, dateText (email.socketId.take 17) = some day := by
    unfold dateText
    rw [utf16Length_digits _ digits]
    simp [size]
  obtain ⟨day, dated⟩ := day
  obtain ⟨sender, from_⟩ := Option.ne_none_iff_exists'.mp displayable.sender
  obtain ⟨subject, titled⟩ := displayable.subject
  obtain ⟨first, rest, filled⟩ := List.exists_cons_of_ne_nil recipient
  simp [rowOf, pageRow, dated, from_, titled, filled, emailId]

/-- The rows as they are appended. -/
def clippedRows (count : Nat) : List SMEmail → Bytes
  | [] => []
  | email :: emails => clip (rowOf (count + 1) email) ++ clippedRows (count + 1) emails

private theorem clippedRows_snoc (count : Nat) (emails : List SMEmail) (email : SMEmail) :
    clippedRows count (emails ++ [email]) =
      clippedRows count emails ++ clip (rowOf (count + emails.length + 1) email) := by
  induction emails generalizing count with
  | nil => simp [clippedRows]
  | cons first emails ih =>
    have size : count + 1 + emails.length + 1 = count + (emails.length + 1) + 1 := by omega
    simp only [List.cons_append, clippedRows, ih, List.length_cons, List.append_assoc, size]

/-- The page is being written: the mails `done` have their rows. -/
structure Writing (address : Bytes) (done left : List SMEmail) (s : Serving) : Prop where
  calls : s.calls = left.map some ++ [none]
  connection : s.response.connection = true
  buffer : s.response.dataBuffer = clip (pageHeader address) ++ clippedRows 0 done
  underway : s.response.mIsDone = false
  results : s.response.mResultCount = done.length
  counted : s.response.emailCount = done.length
  unsent : Chunk.terminator ∉ s.sent

/-- The page has its footer. -/
structure PageEnded (address : Bytes) (emails : List SMEmail) (s : Serving) : Prop where
  calls : s.calls = []
  buffer : s.response.dataBuffer =
    clip (pageHeader address) ++ clippedRows 0 emails ++ clip pageFooter
  done : s.response.mIsDone = true
  closed : ∀ before after, s.sent = before ++ .terminator :: after →
    after = [] ∧ s.response.isDone = true

private theorem writing_start (db : Database) (address : Bytes) (named : utf16Length address ≠ 0) :
    Writing address [] (delivered db address) (.start db address) := by
  constructor <;>
    simp [Serving.start, searchResponse, named, emailsForAddress_delivered, clippedRows]

theorem writing_row {address : Bytes} {done left : List SMEmail} {email : SMEmail} {s : Serving}
    (writing : Writing address done (email :: left) s) (few : done.length < 10)
    (displayable : Displayable email) (recipient : email.recipients ≠ []) :
    Writing address (done ++ [email]) left s.call := by
  obtain ⟨calls, connection, buffer, underway, results, counted, unsent⟩ := writing
  have room : ¬ 10 ≤ s.response.emailCount := by omega
  -- the row is built, and the block asks for more
  have called : searchCallback s.response (some email) =
      some ({ s.response with
        emailCount := s.response.emailCount + 1
        mResultCount := s.response.mResultCount + 1
        dataBuffer := s.response.dataBuffer ++
          clip (rowOf (s.response.mResultCount + 1) email) }, true) := by
    simp only [searchCallback, connection, room, socketId_parts _ displayable.socketId,
      pageRow_some _ email displayable recipient]
    rfl
  have step : s.call = { s with
      response := { s.response with
        emailCount := s.response.emailCount + 1
        mResultCount := s.response.mResultCount + 1
        dataBuffer := s.response.dataBuffer ++
          clip (rowOf (s.response.mResultCount + 1) email) }
      calls := left.map some ++ [none] } := by
    simp only [Serving.call, calls, List.map_cons, List.cons_append, called, if_true]
  rw [step]
  refine ⟨rfl, connection, ?_, underway, ?_, ?_, unsent⟩
  · simp only [buffer, clippedRows_snoc, results, Nat.zero_add, List.append_assoc]
  · simp [results]
  · simp [counted]

/-- The end of the scan and every mail behind the tenth: the footer is appended. -/
theorem call_finish {s : Serving} {found : Option SMEmail} {left : List (Option SMEmail)}
    (calls : s.calls = found :: left) (connection : s.response.connection = true)
    (last : found = none ∨ 10 ≤ s.response.emailCount) :
    ∃ count, s.response.emailCount ≤ count ∧ s.call =
      { s with response := { s.response.finish with emailCount := count }, calls := left } := by
  cases found with
  | none =>
    refine ⟨s.response.emailCount, Nat.le_refl _, ?_⟩
    simp [Serving.call, calls, searchCallback, connection, SearchResponse.finish]
  | some email =>
    have many := last.resolve_left nofun
    refine ⟨s.response.emailCount + 1, Nat.le_succ _, ?_⟩
    simp [Serving.call, calls, searchCallback, connection, many, SearchResponse.finish]

private theorem writing_end {address : Bytes} {done : List SMEmail} {s : Serving}
    (writing : Writing address done [] s) : PageEnded address done s.call := by
  obtain ⟨count, -, step⟩ := call_finish writing.calls writing.connection (Or.inl rfl)
  rw [step]
  refine ⟨rfl, ?_, rfl, ?_⟩
  · simp [SearchResponse.finish, writing.buffer]
  · intro before after sent
    have there : Chunk.terminator ∈ s.sent := by simp [show s.sent = _ from sent]
    exact absurd there writing.unsent

/-! ### One send -/

/-- A send moves the offset at most, and writes only what is not done yet. -/
theorem send_spec (s : Serving) (available : Nat) :
    ∃ offset, s.response.theOffset ≤ offset ∧
      (s.send available).response = { s.response with theOffset := offset } ∧
      (s.send available).calls = s.calls ∧
      ((s.send available).sent = s.sent ∨ s.response.isDone = false ∧
        ∃ bytes, (s.send available).sent = s.sent ++ .data bytes ::
          (if (s.send available).response.isDone then [.terminator] else [])) := by
  unfold Serving.send SearchResponse.readDataOfLength
  by_cases all : s.response.dataBuffer.length ≤ s.response.theOffset
  · refine ⟨s.response.theOffset, Nat.le_refl _, ?_⟩
    simp [all]
  · simp only [if_neg all]
    have running : s.response.isDone = false := by simp [SearchResponse.isDone, all]
    split
    · exact ⟨_, Nat.le_add_right _ _, rfl, rfl, Or.inl rfl⟩
    · exact ⟨_, Nat.le_add_right _ _, rfl, rfl, Or.inr ⟨running, _, rfl⟩⟩

theorem writing_send {address : Bytes} {done left : List SMEmail} {s : Serving} (available : Nat)
    (writing : Writing address done left s) : Writing address done left (s.send available) := by
  obtain ⟨offset, -, response, calls, sent⟩ := send_spec s available
  obtain ⟨calls', connection, buffer, underway, results, counted, unsent⟩ := writing
  refine ⟨calls.trans calls', ?_, ?_, ?_, ?_, ?_, ?_⟩
  · rw [response]
    exact connection
  · rw [response]
    exact buffer
  · rw [response]
    exact underway
  · rw [response]
    exact results
  · rw [response]
    exact counted
  · have running : (s.send available).response.isDone = false := by
      rw [response]
      simp [SearchResponse.isDone, underway]
    rcases sent with same | ⟨-, bytes, more⟩
    · rw [same]
      exact unsent
    · rw [more, running]
      simpa using unsent

theorem written_send {address : Bytes} {emails : List SMEmail} {s : Serving} (available : Nat)
    (written : PageEnded address emails s) :
    PageEnded address emails (s.send available) ∧
      (s.response.isDone = true → (s.send available).response.isDone = true) := by
  obtain ⟨offset, further, response, calls, sent⟩ := send_spec s available
  obtain ⟨calls', buffer, done, closed⟩ := written
  have stays : s.response.isDone = true → (s.send available).response.isDone = true := by
    intro here
    rw [response]
    simp only [SearchResponse.isDone, Bool.and_eq_true, decide_eq_true_eq] at here ⊢
    exact ⟨here.1, Nat.le_trans here.2 further⟩
  refine ⟨⟨calls.trans calls', ?_, ?_, ?_⟩, stays⟩
  · rw [response]
    exact buffer
  · rw [response]
    exact done
  · intro before after split
    rcases sent with same | ⟨running, bytes, more⟩
    · rw [same] at split
      obtain ⟨last, here⟩ := closed before after split
      exact ⟨last, stays here⟩
    · -- the first terminator: nothing was sent behind one before
      have unsent : Chunk.terminator ∉ s.sent := by
        intro member
        obtain ⟨front, back, split'⟩ := List.append_of_mem member
        rw [(closed front back split').2] at running
        cases running
      have quiet : Chunk.terminator ∉ s.sent ++ [.data bytes] := by simpa using unsent
      rw [more, ← List.singleton_append, ← List.append_assoc] at split
      cases ended : (s.send available).response.isDone with
      | false =>
        rw [ended, if_neg Bool.false_ne_true, List.append_nil] at split
        exact absurd (by simp [split]) quiet
      | true =>
        rw [ended, if_pos rfl] at split
        refine ⟨?_, rfl⟩
        rcases List.eq_nil_or_concat after with rfl | ⟨init, last, rfl⟩
        · rfl
        · rw [List.concat_eq_append, ← List.cons_append, ← List.append_assoc] at split
          obtain ⟨front, -⟩ := List.append_inj' split rfl
          exact absurd (by simp [front]) quiet

/-! ### The lengths -/

theorem clip_length_le (text : Bytes) : (clip text).length ≤ text.length := by
  rw [clip, List.length_take]
  exact Nat.min_le_right _ _

theorem clip_fits {text : Bytes} (fits : Fits text) : clip text = text :=
  List.take_of_length_le fits

theorem fits_of_clip {text : Bytes} (length : (clip text).length = text.length) : Fits text := by
  rw [clip, List.length_take] at length
  unfold Fits
  omega

private theorem clippedRows_length_le (count : Nat) (emails : List SMEmail) :
    (clippedRows count emails).length ≤ (rowsFrom count emails).length := by
  induction emails generalizing count with
  | nil => exact Nat.le_refl _
  | cons email emails ih =>
    rw [clippedRows, rowsFrom, List.length_append, List.length_append]
    exact Nat.add_le_add (clip_length_le _) (ih _)

private theorem clippedRows_fit {count : Nat} {emails : List SMEmail} (fit : RowsFit count emails) :
    clippedRows count emails = rowsFrom count emails := by
  induction emails generalizing count with
  | nil => rfl
  | cons email emails ih => rw [clippedRows, rowsFrom, clip_fits fit.1, ih fit.2]

private theorem rowsFit_of_length {count : Nat} {emails : List SMEmail}
    (length : (clippedRows count emails).length = (rowsFrom count emails).length) :
    RowsFit count emails := by
  induction emails generalizing count with
  | nil => trivial
  | cons email emails ih =>
    rw [clippedRows, rowsFrom, List.length_append, List.length_append] at length
    have here := clip_length_le (rowOf (count + 1) email)
    have later := clippedRows_length_le (count + 1) emails
    exact ⟨fits_of_clip (by omega), ih (by omega)⟩

/-- A page is written as it should be if nothing of it is cut off. -/
theorem written_page_iff (address : Bytes) (emails : List SMEmail) (few : emails.length ≤ 10) :
    clip (pageHeader address) ++ clippedRows 0 emails ++ clip pageFooter = page address emails ↔
      Fits (pageHeader address) ∧ RowsFit 0 emails := by
  have footer : clip pageFooter = pageFooter := by decide
  rw [page, List.take_of_length_le few, footer, List.append_left_inj]
  constructor
  · intro same
    have length := congrArg List.length same
    rw [List.length_append, List.length_append] at length
    have header := clip_length_le (pageHeader address)
    have rows := clippedRows_length_le 0 emails
    exact ⟨fits_of_clip (by omega), rowsFit_of_length (by omega)⟩
  · rintro ⟨header, rows⟩
    rw [clip_fits header, clippedRows_fit rows]

/-! ### Every schedule -/

theorem delivered_filled (db : Database) (address : Bytes) (named : utf16Length address ≠ 0) :
    ∀ email ∈ delivered db address, email.recipients ≠ [] := by
  intro email member
  have present : address ≠ [] := by
    rintro rfl
    exact named rfl
  rw [delivered_recipients db address present email member]
  exact List.cons_ne_nil address []

section

variable (db : Database) (address : Bytes) (named : utf16Length address ≠ 0)
  (displayable : ∀ email ∈ delivered db address, Displayable email)

include named displayable

/-- At most ten mails: the page is written, or it is there. -/
theorem underway_kept (few : (delivered db address).length ≤ 10) (s : Serving) (label : PageStep)
    (here : (∃ done left, delivered db address = done ++ left ∧ Writing address done left s) ∨
      PageEnded address (delivered db address) s) :
    ((∃ done left, delivered db address = done ++ left ∧
        Writing address done left (s.step label)) ∨
      PageEnded address (delivered db address) (s.step label)) ∧ StaysDone s label := by
  have filled := delivered_filled db address named
  -- while rows are written the page is not done, and a written page stays
  rcases here with ⟨done, left, whole, writing⟩ | written
  · have idle : StaysDone s label := by
      intro done_
      rw [writing.underway] at done_
      cases done_
    refine ⟨?_, idle⟩
    cases label with
    | send available => exact Or.inl ⟨done, left, whole, writing_send available writing⟩
    | call =>
      cases left with
      | nil =>
        rw [List.append_nil] at whole
        rw [whole]
        exact Or.inr (writing_end writing)
      | cons email left =>
        have member : email ∈ delivered db address := by simp [whole]
        have room : done.length < 10 := by
          rw [whole, List.length_append, List.length_cons] at few
          omega
        exact Or.inl ⟨done ++ [email], left, by simp [whole],
          writing_row writing room (displayable email member) (filled email member)⟩
  · cases label with
    | send available =>
      obtain ⟨next, stays⟩ := written_send available written
      exact ⟨Or.inr next, fun _ => ⟨next.buffer.trans written.buffer.symm, stays⟩⟩
    | call =>
      have same : s.step .call = s := by simp [Serving.step, Serving.call, written.calls]
      rw [same]
      exact ⟨Or.inr written, fun _ => ⟨congrArg (fun s : Serving => s.response.dataBuffer) same,
        fun done_ => by rw [same]; exact done_⟩⟩

/-- The calls for the first mails write their rows. -/
private theorem run_calls (done left : List SMEmail) (whole : delivered db address = done ++ left)
    (few : done.length ≤ 10) :
    Writing address done left
      (run Serving.step (.start db address) (List.replicate done.length .call)) := by
  induction done using List.reverseRecOn generalizing left with
  | nil =>
    rw [List.nil_append] at whole
    rw [← whole]
    exact writing_start db address named
  | append_singleton done email ih =>
    rw [List.append_assoc, List.singleton_append] at whole
    rw [List.length_append, List.length_singleton] at few
    have member : email ∈ delivered db address := by simp [whole]
    have before := ih (email :: left) whole (by omega)
    rw [List.length_append, List.length_singleton, List.replicate_succ', run_append]
    exact writing_row before (by omega) (displayable email member)
      (delivered_filled db address named email member)

/-- An eleventh mail gets a footer, and what comes behind it another one. -/
private theorem few_of_staysDone
    (stays : ∀ schedule, Each Serving.step StaysDone (.start db address) schedule) :
    (delivered db address).length ≤ 10 := by
  by_contra many
  obtain ⟨done, left, whole, size⟩ : ∃ done left, delivered db address = done ++ left ∧
      done.length = 10 := by
    refine ⟨(delivered db address).take 10, (delivered db address).drop 10, by simp, ?_⟩
    rw [List.length_take]
    omega
  have writing := run_calls db address named displayable done left whole (by omega)
  -- the eleventh call ends the page, and the one behind it appends once more
  have twice := stays (List.replicate done.length .call ++ [.call, .call])
  rw [each_append] at twice
  generalize List.replicate done.length PageStep.call = steps at writing twice
  generalize run Serving.step (.start db address) steps = s at writing twice
  obtain ⟨-, -, second, -⟩ := twice
  cases left with
  | nil =>
    rw [whole, List.append_nil] at many
    omega
  | cons email left =>
    have counted : 10 ≤ s.response.emailCount := by rw [writing.counted, size]
    obtain ⟨count, more, first⟩ := call_finish writing.calls writing.connection (Or.inr counted)
    obtain ⟨found, behind, rest⟩ : ∃ found behind, left.map some ++ [none] = found :: behind := by
      cases left with
      | nil => exact ⟨none, [], rfl⟩
      | cons next left => exact ⟨some next, _, rfl⟩
    obtain ⟨_, -, again⟩ := call_finish (s := s.call) (by rw [first]; exact rest)
      (by rw [first]; exact writing.connection) (Or.inr (by rw [first]; exact counted.trans more))
    have grows := (second (by rw [Serving.step, first]; rfl)).1
    simp only [Serving.step] at grows
    rw [again] at grows
    have footer : (clip pageFooter).length ≠ 0 := by decide
    have length := congrArg List.length grows
    simp only [SearchResponse.finish, List.length_append] at length
    omega

/-- Over every order of calls and sends the page is complete and closed once, exactly if the scan
delivers at most ten mails and no text of the page is cut off. -/
theorem complete_iff_fits :
    (∀ schedule,
        Always Serving.step (PageComplete address (delivered db address)) (.start db address) schedule ∧
          Each Serving.step StaysDone (.start db address) schedule) ↔
      (delivered db address).length ≤ 10 ∧ Fits (pageHeader address) ∧
        RowsFit 0 (delivered db address) := by
  constructor
  · intro complete
    have few := few_of_staysDone db address named displayable fun schedule => (complete schedule).2
    refine ⟨few, (written_page_iff address _ few).mp ?_⟩
    have writing := run_calls db address named displayable (delivered db address) [] (by simp) few
    -- when all rows and the footer are called for, the page is the buffer
    have ended := always_run Serving.step
      (complete (List.replicate (delivered db address).length .call ++ [.call])).1
    rw [run_append] at ended
    have written := writing_end writing
    rw [← written.buffer]
    exact ended.page written.calls
  · rintro ⟨few, fits⟩ schedule
    have start : (∃ done left, delivered db address = done ++ left ∧
          Writing address done left (Serving.start db address)) ∨
        PageEnded address (delivered db address) (Serving.start db address) :=
      Or.inl ⟨[], _, rfl, writing_start db address named⟩
    have kept := underway_kept db address named displayable few
    refine ⟨?_, each_kept Serving.step kept start schedule⟩
    refine always_mono Serving.step ?_
      (always_kept Serving.step (fun s label here => (kept s label here).1) start schedule)
    rintro s (⟨done, left, -, writing⟩ | written)
    · refine ⟨?_, ?_⟩
      · intro ended
        rw [writing.calls] at ended
        simp at ended
      · intro before after sent
        exact absurd (by simp [sent]) writing.unsent
    · refine ⟨fun _ => ?_, fun before after sent => (written.closed before after sent).1⟩
      rw [written.buffer]
      exact (written_page_iff address _ few).mpr fits

end

/-! ### A full inbox -/

/-- Where all stored mails are for one address, a search delivers them. -/
private theorem delivered_inbox (mails : List Mail) (address : Bytes)
    (own : ∀ m ∈ mails, m.recipient = address) (present : mails ≠ [])
    (distinct : mails.Pairwise fun m m' => m.id ≠ m'.id) (legible : Legible mails address) :
    ∃ inbox : List Mail, inbox.Perm mails ∧
      delivered (databaseOf mails) address = inbox.map Mail.shown := by
  have unhidden : Unhidden mails address := fun other member apart =>
    absurd (own other member) apart
  have all : (mails.filter fun m => m.recipient = address) = mails :=
    List.filter_eq_self.mpr fun m member => decide_eq_true (own m member)
  cases found : (databaseOf mails).seek (sentinel address) with
  | none =>
    obtain ⟨m, rest, rfl⟩ := List.exists_cons_of_ne_nil present
    exact (not_all_below _ address (List.mem_cons_self ..) (own m (List.mem_cons_self ..))
      ((seek_none_iff _ address).mp found)).elim
  | some scan =>
    obtain ⟨sorted, entries⟩ := Store.seek_some _ found
    obtain ⟨inbox, perm, -, given⟩ := foundMails_found distinct legible unhidden sorted entries
    rw [all] at perm
    refine ⟨inbox, perm, ?_⟩
    rw [delivered, found]
    exact given

theorem displayable_shown (m : Mail) : Displayable m.shown := by
  obtain ⟨same, -, subject, sender, -⟩ := m.shows
  obtain ⟨socketId, -⟩ := Prod.mk.inj same
  refine ⟨?_, ?_, _, subject⟩
  · rw [socketId]
    exact m.socketId
  · rw [sender]
    exact nofun

/-- Mails for `x`, sent one after another on a connection. -/
def crowd (count : Nat)
    (digits : ∀ n < count, wellFormed serialShape (decimal6 (2 * n + 1)) = true) : List Mail :=
  (List.finRange count).map fun n : Fin count =>
    mailFor (ascii "x") (decimal6 (2 * n + 1)) named_x (digits n n.isLt)

private theorem delivered_crowd (count : Nat)
    (digits : ∀ n < count, wellFormed serialShape (decimal6 (2 * n + 1)) = true)
    (present : crowd count digits ≠ [])
    (distinct : (crowd count digits).Pairwise fun m m' => m.id ≠ m'.id) :
    (delivered (databaseOf (crowd count digits)) (ascii "x")).length = count ∧
      ∀ email ∈ delivered (databaseOf (crowd count digits)) (ascii "x"), Displayable email := by
  have own : ∀ m ∈ crowd count digits, m.recipient = ascii "x" ∧ m.id ≠ sentinelId := by
    intro m member
    obtain ⟨n, -, rfl⟩ := List.mem_map.mp member
    refine ⟨rfl, fun same => ?_⟩
    have first : ascii "20120807120000000-001.002.003.004-00025" = sentinelId.1 :=
      congrArg Prod.fst same
    exact absurd first (by decide)
  have legible : Legible (crowd count digits) (ascii "x") :=
    fun m member _ => ⟨by decide, (own m member).2⟩
  obtain ⟨inbox, perm, given⟩ := delivered_inbox (crowd count digits) (ascii "x")
    (fun m member => (own m member).1) present distinct legible
  rw [given]
  refine ⟨?_, ?_⟩
  · rw [List.length_map, perm.length_eq, crowd, List.length_map, List.length_finRange]
  · intro email member
    obtain ⟨m, -, rfl⟩ := List.mem_map.mp member
    exact displayable_shown m

/-- One mail for `x`. -/
def oneMail : Database := databaseOf (crowd 1 (by decide))

private theorem delivered_oneMail : (delivered oneMail (ascii "x")).length = 1 ∧
    ∀ email ∈ delivered oneMail (ascii "x"), Displayable email :=
  delivered_crowd 1 _ (by decide) (by decide)

private theorem oneMail_fits : (delivered oneMail (ascii "x")).length ≤ 10 ∧
    Fits (pageHeader (ascii "x")) ∧ RowsFit 0 (delivered oneMail (ascii "x")) := by
  constructor
  · rw [delivered_oneMail.1]
    decide
  · decide +kernel

/-- Its page is complete, however it is searched and sent. -/
theorem complete_iff_fits_one : (delivered oneMail (ascii "x")).length = 1 ∧
    ∀ schedule,
      Always Serving.step (PageComplete (ascii "x") (delivered oneMail (ascii "x")))
        (.start oneMail (ascii "x")) schedule ∧
      Each Serving.step StaysDone (.start oneMail (ascii "x")) schedule :=
  ⟨delivered_oneMail.1,
    (complete_iff_fits oneMail (ascii "x") (by decide) delivered_oneMail.2).mpr oneMail_fits⟩

/-- Eleven mails for `x`: the page is closed twice. -/
theorem eleven_incomplete :
    ¬ ∀ schedule,
      Always Serving.step (PageComplete (ascii "x")
          (delivered (databaseOf (crowd 11 (by decide))) (ascii "x")))
        (.start (databaseOf (crowd 11 (by decide))) (ascii "x")) schedule ∧
      Each Serving.step StaysDone (.start (databaseOf (crowd 11 (by decide))) (ascii "x"))
        schedule := by
  intro complete
  obtain ⟨size, displayable⟩ := delivered_crowd 11 (by decide) (by decide) (by decide)
  have few := few_of_staysDone _ _ (by decide) displayable fun schedule => (complete schedule).2
  omega

end Spamass.Web
