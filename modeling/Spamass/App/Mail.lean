import Spamass.App.Text

/-!
# The application's mail object

`SMSocket`, `SMEmail` and the handlers `SMAppDelegate` installs on a socket. The
handlers run one after another on the handler queue; an exception none of them
catches ends the application, and what they write is a list of database entries
and files.
-/
namespace Spamass.App

open Spamass.Emailz

/-! ### Headers -/

/-- A value of `headers`: a string, or the mutable array of a repeated header. -/
inductive Header where
  | one (value : Bytes)
  | many (values : List Bytes)
  deriving DecidableEq, Repr

structure HeaderState where
  headers : List (Bytes × Header)
  lastHeader : Option Bytes
  isInHeaders : Bool
  deriving DecidableEq, Repr

def setObject (headers : List (Bytes × Header)) (name : Bytes) (header : Header) :
    List (Bytes × Header) :=
  (name, header) :: headers.filter fun entry => entry.1 != name

/-- The text before and behind the first colon. -/
def splitAtColon (line : Bytes) : Option (Bytes × Bytes) :=
  if line.contains colon then
    some (line.takeWhile (· != colon), (line.dropWhile (· != colon)).drop 1)
  else none

/-- The name and the value of a header line, either of them nil; `none` where the line has
no colon. `lower` is `lowercaseString`. -/
def headerField (lower : Bytes → Bytes) (lastHeader arg : Option Bytes) :
    Option (Option Bytes × Option Bytes) :=
  match lastHeader, arg with
  -- a message to nil answers location 0: nil "starts with white space" and "has a colon"
  | none, none => some (none, none)
  | some name, none => some (some name, none)
  | some name, some line =>
    if startsIn whitespace line then some (some name, some line)
    else (splitAtColon line).map fun (name, value) =>
      (some (lower (trimming whitespace name)), some value)
  | none, some line =>
    (splitAtColon line).map fun (name, value) =>
      (some (lower (trimming whitespace name)), some value)

/-- Entering a value into `headers`; `none` where Foundation raises, on a nil key or object. -/
def enterHeader (headers : List (Bytes × Header)) (name value : Option Bytes) :
    Option (List (Bytes × Header)) :=
  match name, value with
  | none, _ => none
  | some name, some value =>
    match headers.lookup name with
    | none => some (setObject headers name (.one value))
    | some (.one first) => some (setObject headers name (.many [first, value]))
    | some (.many values) => some (setObject headers name (.many (values ++ [value])))
  | some name, none =>
    match headers.lookup name with
    -- a nil ends the argument list of arrayWithObjects:
    | some (.one first) => some (setObject headers name (.many [first]))
    | _ => none

/-- The header half of `handleData:withSocket:`; `none` is a raised exception. -/
def readHeader (lower : Bytes → Bytes) (h : HeaderState) (arg : Option Bytes) :
    Option HeaderState :=
  if !h.isInHeaders then some h
  else if arg = some [cr, lf] then some { h with isInHeaders := false }
  else
    match headerField lower h.lastHeader arg with
    | none => some { h with isInHeaders := false }
    | some (name, value) =>
      (enterHeader h.headers name (value.map (trimming whitespaceAndNewline))).map fun headers =>
        { h with headers := headers, lastHeader := name }

/-! ### The objects -/

structure SMEmail extends HeaderState where
  sender : Option Bytes
  recipients : List Bytes
  socketId : Bytes
  serial : Bytes
  dataSize : Nat
  data : Bytes
  deriving DecidableEq, Repr

structure SMSocket where
  socketId : Bytes
  email : Option SMEmail
  emailCount : Nat
  deriving DecidableEq, Repr

/-- The object the OPEN block makes. -/
def SMSocket.init (socketId : Bytes) : SMSocket := ⟨socketId, none, 0⟩

/-- `setEmail:` counts every assignment, nil included. -/
def SMSocket.setEmail (socket : SMSocket) (email : Option SMEmail) : SMSocket :=
  { socket with email := email, emailCount := socket.emailCount + 1 }

/-- A new `SMEmail`, and what `handleFrom:` puts into it. -/
def SMEmail.init (socketId serial : Bytes) (sender : Option Bytes) : SMEmail where
  headers := []
  lastHeader := none
  isInHeaders := true
  sender := sender
  recipients := []
  socketId := socketId
  serial := serial
  dataSize := 0
  data := []

def separator : Bytes := ascii "__"

/-- `dbprefix`; `none` where `objectAtIndex:0` raises. -/
def SMEmail.dbprefix (email : SMEmail) : Option Bytes :=
  email.recipients.head?.map fun first =>
    first ++ separator ++ email.socketId ++ separator ++ email.serial ++ separator

/-! ### Files -/

def isDigit (b : UInt8) : Bool := 48 ≤ b && b ≤ 57

/-- Each byte of the C string passes its check; the terminator passes none. -/
def passes : List (UInt8 → Bool) → Bytes → Bool
  | [], _ => true
  | _ :: _, [] => false
  | check :: checks, b :: bytes => check b && passes checks bytes

/-- YYYYMMDDHHMMSSSSS-XXX.XXX.XXX.XXX-XXXXX. -/
def socketIdShape : List (UInt8 → Bool) :=
  List.replicate 17 isDigit ++ [(· == 45)] ++ List.replicate 3 isDigit ++ [(· == dot)] ++
    List.replicate 3 isDigit ++ [(· == dot)] ++ List.replicate 3 isDigit ++ [(· == dot)] ++
    List.replicate 3 isDigit ++ [(· == 45)] ++ List.replicate 5 isDigit

def serialShape : List (UInt8 → Bool) := List.replicate 6 isDigit

/-- `pathWithSocketId:serial:mkdir:`. -/
def pathWithSocketId (socketId serial : Bytes) : Option Bytes :=
  if utf16Length socketId ≠ 39 ∨ utf16Length serial ≠ 6 then none
  else if passes socketIdShape socketId && passes serialShape serial then
    let part (start count : Nat) := (socketId.drop start).take count ++ ascii "/"
    some (ascii "/Volumes/StoreX/Spamass/Record/" ++ part 0 4 ++ part 4 2 ++ part 6 2 ++
      part 8 2 ++ part 10 2 ++ part 12 2 ++ socketId ++ separator ++ serial ++ ascii ".email")
  else none

/-! ### The handlers -/

inductive Write where
  /-- `setString:forKey:` on the email database; nil is stored as the empty string -/
  | put (key value : Bytes)
  | file (path contents : Bytes)
  deriving DecidableEq, Repr

/-- What a write puts into the database. -/
def Write.entry : Write → Option (Bytes × Bytes)
  | .put key value => some (key, value)
  | .file _ _ => none

/-- The part behind a keyword, if the argument starts with it. -/
def behind (keyword arg : Bytes) : Bytes :=
  if hasPrefix arg keyword then arg.drop keyword.length else arg

/-- The parts of an argument that are not empty. -/
def addresses (arg : Bytes) : List Bytes :=
  (componentsInSet emailSplitSet arg).filter fun part => part.length != 0

/-- `handleFrom:withSocket:`. -/
def handleFrom (arg : Option Bytes) (socket : SMSocket) : SMSocket :=
  socket.setEmail (some (SMEmail.init socket.socketId (decimal6 (socket.emailCount + 1))
    (arg.bind fun arg => (addresses (behind (ascii "FROM:") arg)).head?)))

/-- The recipients `handleRcpt:withSocket:` adds for an argument. -/
def recipientsIn (arg : Option Bytes) : List Bytes :=
  match arg with
  | none => []
  | some arg => addresses (behind (ascii "TO:") arg)

/-- `handleRcpt:withSocket:`. -/
def handleRcpt (arg : Option Bytes) (socket : SMSocket) : SMSocket :=
  { socket with
    email := socket.email.map fun email =>
      { email with recipients := email.recipients ++ recipientsIn arg } }

/-- `handleData:withSocket:`; `none` is a raised exception. -/
def handleData (lower : Bytes → Bytes) (data : Bytes) (socket : SMSocket) : Option SMSocket :=
  match socket.email with
  | none => some socket
  | some email =>
    (readHeader lower email.toHeaderState (stringWithUtf8 data)).map fun h =>
      { socket with
        email := some
          { email with
            toHeaderState := h
            data := email.data ++ data
            dataSize := email.dataSize + ((stringWithUtf8 data).map utf16Length).getD 0 } }

/-- What a `subject` header is stored as. -/
def subjectText : Option Header → Bytes
  | none => []
  | some (.one value) => value
  | some (.many values) => values.flatten

/-- The key every inbox gets, above the keys of its mails. -/
def sentinel (recipient : Bytes) : Bytes :=
  recipient ++ ascii "__99999999999999999-999.999.999.999-99999__999999"

/-- The key of a field of a mail in the inbox of a recipient. -/
def fieldKey (recipient socketId serial field : Bytes) : Bytes :=
  recipient ++ separator ++ socketId ++ separator ++ serial ++ separator ++ field

def mailFields : List Bytes := [ascii "subject", ascii "sender", ascii "size"]

/-- The entries and the file of a mail with a first recipient. -/
def storeEmail (email : SMEmail) (first prefix_ : Bytes) : List Write :=
  [.put (prefix_ ++ ascii "subject") (subjectText (email.headers.lookup (ascii "subject"))),
    .put (prefix_ ++ ascii "sender") (email.sender.getD []),
    .put (prefix_ ++ ascii "size") (decimal email.dataSize),
    .put (sentinel first) (ascii "1")] ++
  match pathWithSocketId email.socketId email.serial with
  | none => []
  | some path => [.file path email.data]

/-- `handleEmailWithSocket:`; no socket is left behind an exception. -/
def handleEmail (socket : SMSocket) : Option SMSocket × List Write :=
  match socket.email with
  | none =>
    -- every message to the nil email answers nil, and a nil key is the empty key
    (some (socket.setEmail none),
      [.put [] [], .put [] [], .put [] (decimal 0), .put [] (ascii "1")])
  | some email =>
    match email.recipients.head?, email.dbprefix with
    | some first, some prefix_ => (some (socket.setEmail none), storeEmail email first prefix_)
    | _, _ => (none, [])

theorem handleEmail_stored {socket : SMSocket} {email : SMEmail} {write : Write} {name : Bytes}
    (named : email.dbprefix = some name)
    (member : write ∈ (handleEmail { socket with email := some email }).2) :
    ∃ first, write ∈ storeEmail email first name := by
  cases first : email.recipients.head? with
  | none => simp [SMEmail.dbprefix, first] at named
  | some recipient =>
    simp only [handleEmail, first, named] at member
    exact ⟨recipient, member⟩

/-- A mail with a recipient and a path is written to that file, as it was received. -/
theorem handleEmail_file {socket : SMSocket} {email : SMEmail} {path contents : Bytes} :
    .file path contents ∈ (handleEmail { socket with email := some email }).2 ↔
      email.recipients ≠ [] ∧ pathWithSocketId email.socketId email.serial = some path ∧
        contents = email.data := by
  cases recipients : email.recipients with
  | nil => simp [handleEmail, recipients]
  | cons first others =>
    have named : email.dbprefix =
        some (first ++ separator ++ email.socketId ++ separator ++ email.serial ++ separator) := by
      rw [SMEmail.dbprefix, recipients]
      rfl
    simp only [handleEmail, recipients, List.head?_cons, named, storeEmail, List.mem_append,
      List.mem_cons, List.not_mem_nil, or_false, reduceCtorEq, false_or, ne_eq, not_false_eq_true,
      true_and]
    cases pathWithSocketId email.socketId email.serial with
    | none => simp
    | some own => simp [eq_comm]

/-- The subject of a mail with a recipient is written once. -/
theorem handleEmail_subject (socket : SMSocket) (email : SMEmail)
    (addressed : email.recipients ≠ []) :
    ∃ name, email.dbprefix = some name ∧ ∀ value, .put (name ++ ascii "subject") value ∈
        (handleEmail { socket with email := some email }).2 ↔
      value = subjectText (email.headers.lookup (ascii "subject")) := by
  obtain ⟨first, others, recipients⟩ := List.exists_cons_of_ne_nil addressed
  have named : email.dbprefix =
      some (first ++ separator ++ email.socketId ++ separator ++ email.serial ++ separator) := by
    rw [SMEmail.dbprefix, recipients]
    rfl
  refine ⟨_, named, fun value => ?_⟩
  simp only [handleEmail, recipients, List.head?_cons, named, storeEmail, List.mem_append,
    List.mem_cons, List.not_mem_nil, or_false, Write.put.injEq]
  constructor
  · rintro ((⟨-, same⟩ | ⟨other, -⟩ | ⟨other, -⟩ | ⟨other, -⟩) | file)
    · exact same
    · cases List.append_cancel_left other
    · cases List.append_cancel_left other
    · have ends := congrArg List.getLast? other
      simp [sentinel, ascii] at ends
    · split at file <;> simp at file
  · rintro rfl
    exact .inl (.inl ⟨trivial, rfl⟩)

/-- The blocks `mSmtpHandler` and `mDataHandler`, run on the calls libEmailz queues for them. -/
def appCall (lower : Bytes → Bytes) (socket : SMSocket) : Event → Option SMSocket × List Write
  | .smtp .mail arg => (some (handleFrom (stringWithUtf8 arg) socket), [])
  | .smtp .rcpt arg => (some (handleRcpt (stringWithUtf8 arg) socket), [])
  | .data payload false => (handleData lower payload socket, [])
  | .data _ true => handleEmail socket
  | _ => (some socket, [])

/-- One event of the log. Nothing runs any more once an exception has ended the application. -/
def appStep (lower : Bytes → Bytes) : Option SMSocket → Event → Option SMSocket × List Write
  | none, _ => (none, [])
  | some socket, event => appCall lower socket event

def appRun (lower : Bytes → Bytes) (app : Option SMSocket) (log : List Event) : Option SMSocket :=
  log.foldl (fun app event => (appStep lower app event).1) app

/-- What the OPEN block installs. -/
def appHandlers : Handlers where
  smtpHandler := true
  smtpHandlerMask := Command.mail.bit ||| Command.rcpt.bit
  authHandler := none
  dataHandler := true
  handlerQueue := true

theorem appRun_append (lower : Bytes → Bytes) (app : Option SMSocket) (xs ys : List Event) :
    appRun lower app (xs ++ ys) = appRun lower (appRun lower app xs) ys :=
  List.foldl_append

end Spamass.App
