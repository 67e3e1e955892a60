import Spamass.Web.Encoding

/-!
# Answers to requests

`responseWithPath:forConnection:` chooses one of three responses by the path, and catches
what they raise; behind the catch it ends without a value. The block of a search runs
later, where nothing catches. A request gets a defined answer exactly if its parameters
decode, the mail it names is UTF-8, and the mails it finds can be shown.
-/
namespace Spamass.Web

open Spamass.Emailz Spamass.App Spamass.SortedStore Spamass.Separated Spamass.Runs

/-! ### The responses -/

/-- What a page says at random: three addresses, and words. -/
structure MainTexts where
  first : Bytes
  second : Bytes
  third : Bytes
  words : Bytes

/-- The text of `HTTPMainPageResponse`. -/
def mainPage (texts : MainTexts) : Bytes :=
  let cell (email : Bytes) : Bytes :=
    ascii "<td><a href=\"mailto:" ++ email ++ ascii "\">" ++ email ++ ascii "</a></td>\n"
  ascii "<html><head><title>" ++ ascii "Free Throw-Away Email Address Server - Avoid the Spam" ++
    ascii "</title></head><body>" ++
    ascii "<table align=center width=500 border=0><tr><td><br/>" ++
    ascii "If you need to provide an email address, use any " ++
    ascii "<b><code>@spamass.net</code></b> address you want " ++
    ascii "(no need to sign-up or register it) " ++
    ascii "and then type that address into the form below to view the inbox. " ++
    ascii "Please note that anyone can view the inbox." ++
    ascii "</td></tr><table><br>\n" ++ ascii "<div align=center><form action=s method=get>" ++
    ascii "<input type=text size=40 placeholder=\"example@spamass.net\" name=\"e\" />" ++
    ascii "<input type=submit value=\"View\" />" ++ ascii "</form></div><br/><br/>" ++
    ascii "<br/><br/><br/><br/><br/><br/><br/><br/><br/>" ++ ascii "<div align=center>" ++
    ascii "These are some random email addresses. Please ignore them.<br/>\n<br/>\n" ++
    ascii "<table align=center border=0><tr>" ++ cell texts.first ++ cell texts.second ++
    cell texts.third ++ ascii "</tr></table><br/>\n<br/>\n" ++
    ascii "<center>And these are some random words. Please ignore them as well.</center><br/>\n" ++
    ascii "<table align=center width=500 border=0><tr><td>\n" ++ texts.words ++
    ascii "</td></tr></table></div>" ++
    ascii "<br>\n<center>Thank you for your cooperation.</center>" ++ ascii "</body></html>"

/-- `HTTPMainPageResponse`, whose bytes are counted as bytes. -/
def mainResponse (texts : MainTexts) : SearchResponse := ⟨true, mainPage texts, 0, true, 0, 0⟩

/-- What a function leaves its caller: a value, or whatever is there behind its end. -/
inductive Returned (ρ : Type) where
  | value (r : ρ)
  | undefined
  deriving DecidableEq, Repr

/-- The address a path searches for; `none` where the path is for no search, or its parameters
raise. -/
def searchedAddress (lower : Bytes → Bytes) (filePath : Bytes) : Option Bytes :=
  if responsePage filePath = .search then
    (parseCgiParams lower filePath).map fun args => (args.lookup (ascii "e")).getD []
  else none

/-- `responseWithPath:forConnection:` of `HTTPSpamassResponse`; the block that catches an exception
logs it, and returns nothing. -/
def responseWithPath (lower : Bytes → Bytes) (files : Bytes → Option Bytes) (texts : MainTexts)
    (filePath : Bytes) : Returned SearchResponse :=
  let response :=
    match responsePage filePath with
    | .search => (searchedAddress lower filePath).map searchResponse
    | .view => (viewText lower files filePath).map viewResponse
    | .main => some (mainResponse texts)
  match response with
  | some response => .value response
  | none => .undefined

/-! ### Answers -/

/-- The next call of the block raises nothing. -/
def Callable (s : Serving) : Prop :=
  ∀ found left, s.calls = found :: left → searchCallback s.response found ≠ none

/-- A request has a defined answer, and if it is for a search no call of its block raises, in any
order of calls and sends. -/
structure Answered (lower : Bytes → Bytes) (files : Bytes → Option Bytes) (texts : MainTexts)
    (db : Database) (filePath : Bytes) : Prop where
  defined : responseWithPath lower files texts filePath ≠ .undefined
  searched : ∀ address, searchedAddress lower filePath = some address →
    ∀ labels, Always Serving.step Callable (.start db address) labels

/-- The value of a pair decodes to UTF-8. -/
def Decodes (pair : Bytes) : Prop :=
  ∀ name value, pair.splitOn equals = [name, value] → (percentUnescape value).isSome = true

/-- What a row needs of a mail and of the day in its socket id. -/
structure Showable (email : SMEmail) (date : Bytes) : Prop where
  date : 14 ≤ utf16Length date
  sender : email.sender ≠ none
  subject : ∃ subject, email.headers.lookup (ascii "subject") = some (.one subject)

/-- So many mails can be shown, or those in front of the first whose socket id is not of three
parts. -/
def ShowableFirst : Nat → List SMEmail → Prop
  | 0, _ => True
  | _, [] => True
  | count + 1, email :: emails =>
    match componentsInSet (· == dash) email.socketId with
    | [date, _, _] => Showable email date ∧ ShowableFirst count emails
    | _ => True

/-- The parameters of a search or a view decode, the mail of a view is UTF-8, and the first ten
mails of a search can be shown. -/
structure Answerable (lower : Bytes → Bytes) (files : Bytes → Option Bytes) (db : Database)
    (filePath : Bytes) : Prop where
  decodes : responsePage filePath ≠ .main →
    ∀ pair ∈ (filePath.drop 3).splitOn ampersand, Decodes pair
  readable : responsePage filePath = .view → ∀ address socketId serial path data,
    viewRequest lower filePath = .mail address socketId serial path →
      path.bind files = some data → utf8Valid data = true
  showable : ∀ address, searchedAddress lower filePath = some address →
    utf16Length address ≠ 0 → ShowableFirst 10 (delivered db address)

/-! ### Parameters and views -/

theorem enterPair_isSome (lower : Bytes → Bytes) (args : List (Bytes × Bytes)) (pair : Bytes) :
    (enterPair lower args pair).isSome = true ↔ Decodes pair := by
  unfold enterPair Decodes
  split
  next name value parts =>
    rw [Option.isSome_map]
    constructor
    · intro decoded name' value' parts'
      rw [parts] at parts'
      rw [← (List.cons.inj (List.cons.inj parts').2).1]
      exact decoded
    · exact fun decodes => decodes name value parts
  next other =>
    exact iff_of_true rfl fun name value parts => absurd parts (other name value)

private theorem parseCgiParams_isSome (lower : Bytes → Bytes) (filePath : Bytes) :
    (parseCgiParams lower filePath).isSome = true ↔
      ∀ pair ∈ (filePath.drop 3).splitOn ampersand, Decodes pair := by
  unfold parseCgiParams
  rw [foldlM_isSome_iff _ (enterPair_isSome lower), each_iff_forall]

private theorem viewRequest_raised (lower : Bytes → Bytes) (filePath : Bytes) :
    viewRequest lower filePath = .raised ↔ parseCgiParams lower filePath = none := by
  unfold viewRequest
  cases parseCgiParams lower filePath with
  | none => exact iff_of_true rfl rfl
  | some args =>
    dsimp only
    split
    · exact iff_of_false nofun nofun
    · exact iff_of_false nofun nofun

/-- A view has a text if its parameters decode, and its mail is UTF-8. -/
theorem viewText_isSome (lower : Bytes → Bytes) (files : Bytes → Option Bytes) (filePath : Bytes) :
    (viewText lower files filePath).isSome = true ↔
      (parseCgiParams lower filePath).isSome = true ∧ ∀ address socketId serial path data,
        viewRequest lower filePath = .mail address socketId serial path →
          path.bind files = some data → utf8Valid data = true := by
  have raised := viewRequest_raised lower filePath
  rw [Option.isSome_iff_ne_none (o := parseCgiParams lower filePath), ne_eq, ← raised]
  unfold viewText
  cases request : viewRequest lower filePath with
  | raised => exact iff_of_false Bool.false_ne_true fun both => both.1 rfl
  | invalid => exact iff_of_true rfl ⟨nofun, nofun⟩
  | mail address socketId serial path =>
    dsimp only
    cases file : path.bind files with
    | none =>
      refine iff_of_true rfl ⟨nofun, fun _ _ _ path' data same file' => ?_⟩
      obtain ⟨-, -, -, rfl⟩ := View.mail.inj same
      rw [file] at file'
      cases file'
    | some data =>
      have only : (∀ address' socketId' serial' path' data',
          View.mail address socketId serial path = .mail address' socketId' serial' path' →
            path'.bind files = some data' → utf8Valid data' = true) ↔ utf8Valid data = true := by
        constructor
        · exact fun valid => valid _ _ _ _ data rfl file
        · intro valid _ _ _ path' data' same file'
          obtain ⟨-, -, -, rfl⟩ := View.mail.inj same
          rw [file] at file'
          rwa [← Option.some.inj file']
      rw [only]
      dsimp only
      split
      next empty =>
        obtain rfl := List.eq_nil_of_length_eq_zero empty
        exact iff_of_true rfl ⟨nofun, rfl⟩
      next filled =>
        rw [Option.isSome_map, stringWithUtf8]
        split
        next valid => exact iff_of_true rfl ⟨nofun, valid⟩
        next invalid => exact iff_of_false Bool.false_ne_true fun both => invalid both.2

/-! ### Calls -/

/-- A row of a mail with a recipient raises nothing exactly if the mail can be shown. -/
private theorem pageRow_isSome (count : Nat) (email : SMEmail) (date addr port : Bytes)
    (recipient : email.recipients ≠ []) :
    (pageRow count email date addr port).isSome = true ↔ Showable email date := by
  obtain ⟨first, rest, filled⟩ := List.exists_cons_of_ne_nil recipient
  have name : emailId email =
      some (first ++ separator ++ email.socketId ++ separator ++ email.serial) := by
    rw [emailId, filled]
    rfl
  unfold pageRow
  rw [name, filled]
  by_cases day : utf16Length date < 14
  · have undated : dateText date = none := if_pos day
    rw [undated]
    exact iff_of_false Bool.false_ne_true fun showable => absurd showable.date (by omega)
  · have dated : ∃ text, dateText date = some text := ⟨_, if_neg day⟩
    obtain ⟨text, dated⟩ := dated
    rw [dated]
    cases from_ : email.sender with
    | none => exact iff_of_false Bool.false_ne_true fun showable => showable.sender from_
    | some sender =>
      cases titled : email.headers.lookup (ascii "subject") with
      | none =>
        refine iff_of_false Bool.false_ne_true fun showable => ?_
        obtain ⟨subject, titled'⟩ := showable.subject
        cases titled.symm.trans titled'
      | some value =>
        cases value with
        | one subject =>
          refine iff_of_true rfl ⟨Nat.le_of_not_lt day, ?_, subject, titled⟩
          rw [from_]
          exact Option.some_ne_none sender
        | many values =>
          refine iff_of_false Bool.false_ne_true fun showable => ?_
          obtain ⟨subject, titled'⟩ := showable.subject
          cases titled.symm.trans titled'

/-- These mails are still to come, and the end of the scan behind them. -/
structure Waiting (emails : List SMEmail) (s : Serving) : Prop where
  calls : s.calls = emails.map some ++ [none]
  connection : s.response.connection = true
  filled : ∀ email ∈ emails, email.recipients ≠ []

section Call

variable {s : Serving} {email : SMEmail} {emails : List SMEmail}

theorem Waiting.ends (waiting : Waiting [] s) : Callable s ∧ s.call.calls = [] := by
  obtain ⟨count, -, step⟩ := call_finish waiting.calls waiting.connection (Or.inl rfl)
  refine ⟨fun found left calls => ?_, by rw [step]⟩
  obtain ⟨rfl, rfl⟩ := List.cons.inj (waiting.calls.symm.trans calls)
  simp [searchCallback, waiting.connection]

/-- A mail behind the tenth raises nothing, whatever it is. -/
theorem Waiting.full (waiting : Waiting (email :: emails) s) (full : 10 ≤ s.response.emailCount) :
    Callable s ∧ Waiting emails s.call ∧ 10 ≤ s.call.response.emailCount := by
  obtain ⟨count, more, step⟩ := call_finish waiting.calls waiting.connection (Or.inr full)
  refine ⟨fun found left calls => ?_, ?_, ?_⟩
  · obtain ⟨rfl, rfl⟩ := List.cons.inj (waiting.calls.symm.trans calls)
    simp [searchCallback, waiting.connection, full]
  · rw [step]
    exact ⟨rfl, waiting.connection, fun email member =>
      waiting.filled email (List.mem_cons_of_mem _ member)⟩
  · rw [step]
    exact Nat.le_trans full more

/-- A mail with a socket id of three parts raises nothing exactly if it can be shown. -/
theorem Waiting.row {date addr port : Bytes} (waiting : Waiting (email :: emails) s)
    (room : s.response.emailCount < 10)
    (parts : componentsInSet (· == dash) email.socketId = [date, addr, port]) :
    (Callable s ↔ Showable email date) ∧ (Showable email date → Waiting emails s.call ∧
      s.call.response.emailCount = s.response.emailCount + 1) := by
  have recipient := waiting.filled email (List.mem_cons_self ..)
  have row := pageRow_isSome (s.response.mResultCount + 1) email date addr port recipient
  have called : searchCallback s.response (some email) =
      (pageRow (s.response.mResultCount + 1) email date addr port).map fun row =>
        ({ s.response with
            emailCount := s.response.emailCount + 1
            mResultCount := s.response.mResultCount + 1
            dataBuffer := s.response.dataBuffer ++ clip row }, true) := by
    simp [searchCallback, waiting.connection, Nat.not_le_of_lt room, parts]
  refine ⟨?_, fun showable => ?_⟩
  · have returns : searchCallback s.response (some email) ≠ none ↔ Showable email date := by
      rw [called, ← row, Option.isSome_iff_ne_none, ne_eq, Option.map_eq_none_iff]
    rw [← returns]
    constructor
    · exact fun callable => callable (some email) _ waiting.calls
    · intro raises found left calls
      obtain ⟨rfl, -⟩ := List.cons.inj (waiting.calls.symm.trans calls)
      exact raises
  · obtain ⟨text, built⟩ := Option.isSome_iff_exists.mp (row.mpr showable)
    rw [built, Option.map_some] at called
    have step : s.call.calls = emails.map some ++ [none] ∧ s.call.response.connection = true ∧
        s.call.response.emailCount = s.response.emailCount + 1 := by
      simp [Serving.call, waiting.calls, called, waiting.connection]
    exact ⟨⟨step.1, step.2.1, fun email member =>
      waiting.filled email (List.mem_cons_of_mem _ member)⟩, step.2.2⟩

/-- A mail with another socket id is refused, and comes once more at most. -/
theorem Waiting.handedBack (waiting : Waiting (email :: emails) s) (room : s.response.emailCount < 10)
    (other : ∀ date addr port,
      componentsInSet (· == dash) email.socketId ≠ [date, addr, port]) :
    Callable s ∧ (Waiting [] s.call ∨ Waiting [email] s.call) := by
  have called : searchCallback s.response (some email) =
      some ({ s.response with emailCount := s.response.emailCount + 1 }, false) := by
    have connected : ¬(!s.response.connection) = true := by simp [waiting.connection]
    unfold searchCallback
    rw [if_neg connected]
    dsimp only
    rw [if_neg (Nat.not_le_of_lt room)]
    split
    next date addr port parts => exact absurd parts (other date addr port)
    next => rfl
  have step : s.call.calls = refused (some email) (emails.map some ++ [none]) ∧
      s.call.response.connection = true := by
    simp [Serving.call, waiting.calls, called, waiting.connection]
  obtain ⟨left, connection⟩ := step
  refine ⟨fun found left' calls => ?_, ?_⟩
  · obtain ⟨rfl, -⟩ := List.cons.inj (waiting.calls.symm.trans calls)
    rw [called]
    exact Option.some_ne_none _
  · rw [refused] at left
    split at left
    next short =>
      obtain rfl : emails = [] := by
        rw [List.length_append, List.length_map, List.length_singleton] at short
        exact List.eq_nil_of_length_eq_zero (by omega)
      exact .inl ⟨left, connection, List.forall_mem_nil _⟩
    next =>
      refine .inr ⟨left, connection, fun email' member => ?_⟩
      rw [List.mem_singleton.mp member]
      exact waiting.filled email (List.mem_cons_self ..)

end Call

/-! ### Runs -/

/-- Nothing that is still to come raises. -/
def Safe (s : Serving) : Prop :=
  s.calls = [] ∨ ∃ emails, Waiting emails s ∧ ShowableFirst (10 - s.response.emailCount) emails

private theorem showableFirst_other {count : Nat} {email : SMEmail} {emails : List SMEmail}
    (other : ∀ date addr port,
      componentsInSet (· == dash) email.socketId ≠ [date, addr, port]) :
    ShowableFirst count (email :: emails) := by
  cases count with
  | zero => trivial
  | succ count =>
    rw [ShowableFirst]
    split
    next date addr port parts => exact absurd parts (other date addr port)
    next => trivial

/-- A socket id has three parts between dashes, or it has not. -/
private theorem dashed (socketId : Bytes) :
    (∃ date addr port, componentsInSet (· == dash) socketId = [date, addr, port]) ∨
      ∀ date addr port, componentsInSet (· == dash) socketId ≠ [date, addr, port] := by
  by_cases three : ∃ date addr port, componentsInSet (· == dash) socketId = [date, addr, port]
  · exact .inl three
  · exact .inr fun date addr port parts => three ⟨date, addr, port, parts⟩

private theorem showableFirst_zero (emails : List SMEmail) : ShowableFirst 0 emails := by
  rw [ShowableFirst.eq_def]
  trivial

private theorem showableFirst_nil (count : Nat) : ShowableFirst count [] := by
  rw [ShowableFirst.eq_def]
  split <;> trivial

private theorem showableFirst_row {count : Nat} {email : SMEmail} {emails : List SMEmail}
    {date addr port : Bytes}
    (parts : componentsInSet (· == dash) email.socketId = [date, addr, port]) :
    ShowableFirst (count + 1) (email :: emails) ↔
      Showable email date ∧ ShowableFirst count emails := by
  rw [ShowableFirst, parts]

/-- A safe call raises nothing, and leaves what is safe. -/
private theorem safe_call {s : Serving} (safe : Safe s) : Callable s ∧ Safe s.call := by
  rcases safe with missing | ⟨emails, waiting, showable⟩
  · have stays : s.call = s := by simp [Serving.call, missing]
    rw [stays]
    exact ⟨fun found left calls => absurd calls (missing ▸ (List.cons_ne_nil found left).symm),
      .inl missing⟩
  cases emails with
  | nil =>
    obtain ⟨callable, left⟩ := waiting.ends
    exact ⟨callable, .inl left⟩
  | cons email emails =>
    by_cases full : 10 ≤ s.response.emailCount
    · obtain ⟨callable, next, still⟩ := waiting.full full
      refine ⟨callable, .inr ⟨emails, next, ?_⟩⟩
      rw [Nat.sub_eq_zero_of_le still]
      exact showableFirst_zero emails
    · rcases dashed email.socketId with ⟨date, addr, port, parts⟩ | other
      · obtain ⟨callable, goesOn⟩ := waiting.row (Nat.lt_of_not_le full) parts
        have count : 10 - s.response.emailCount = 10 - (s.response.emailCount + 1) + 1 := by omega
        rw [count, showableFirst_row parts] at showable
        obtain ⟨next, counted⟩ := goesOn showable.1
        refine ⟨callable.mpr showable.1, .inr ⟨emails, next, ?_⟩⟩
        rw [counted]
        exact showable.2
      · obtain ⟨callable, next | next⟩ := waiting.handedBack (Nat.lt_of_not_le full) other
        · exact ⟨callable, .inr ⟨[], next, showableFirst_nil _⟩⟩
        · exact ⟨callable, .inr ⟨[email], next, showableFirst_other other⟩⟩

theorem safe_step (s : Serving) (label : PageStep) (safe : Safe s) : Safe (s.step label) := by
  cases label with
  | call => exact (safe_call safe).2
  | send available =>
    obtain ⟨offset, -, response, calls, -⟩ := send_spec s available
    unfold Safe
    rw [Serving.step, response, calls]
    rcases safe with missing | ⟨emails, waiting, showable⟩
    · exact .inl missing
    · refine .inr ⟨emails, ⟨calls.trans waiting.calls, ?_, waiting.filled⟩, showable⟩
      rw [response]
      exact waiting.connection

/-- Where no run meets a call that raises, the mails can be shown. -/
theorem showableFirst_of_always {emails : List SMEmail} {s : Serving} (waiting : Waiting emails s)
    (always : ∀ labels, Always Serving.step Callable s labels) :
    ShowableFirst (10 - s.response.emailCount) emails := by
  induction emails generalizing s with
  | nil => exact showableFirst_nil _
  | cons email emails ih =>
    by_cases full : 10 ≤ s.response.emailCount
    · rw [Nat.sub_eq_zero_of_le full]
      exact showableFirst_zero _
    · rcases dashed email.socketId with ⟨date, addr, port, parts⟩ | other
      · obtain ⟨callable, goesOn⟩ := waiting.row (Nat.lt_of_not_le full) parts
        have count : 10 - s.response.emailCount = 10 - (s.response.emailCount + 1) + 1 := by omega
        have showable := callable.mp (always [])
        obtain ⟨next, counted⟩ := goesOn showable
        have later := ih next fun labels => (always (.call :: labels)).2
        rw [counted] at later
        rw [count, showableFirst_row parts]
        exact ⟨showable, later⟩
      · exact showableFirst_other other

/-- No call of a search raises exactly if the mails it finds can be shown. -/
private theorem always_callable_iff (db : Database) (address : Bytes) :
    (∀ labels, Always Serving.step Callable (.start db address) labels) ↔
      (utf16Length address ≠ 0 → ShowableFirst 10 (delivered db address)) := by
  have count : (Serving.start db address).response.emailCount = 0 := by
    simp only [Serving.start, searchResponse]
    split <;> rfl
  have waiting : utf16Length address ≠ 0 →
      Waiting (delivered db address) (.start db address) := by
    intro named
    refine ⟨?_, ?_, delivered_filled db address named⟩
    · simp [Serving.start, named, emailsForAddress_delivered]
    · simp [Serving.start, searchResponse, named]
  constructor
  · intro always named
    have showable := showableFirst_of_always (waiting named) always
    rwa [count] at showable
  · intro showable labels
    have safe : Safe (.start db address) := by
      by_cases named : utf16Length address = 0
      · exact .inl (if_pos named)
      · refine .inr ⟨_, waiting named, ?_⟩
        rw [count]
        exact showable named
    exact always_mono _ (fun s safe => (safe_call safe).1)
      (always_kept _ safe_step safe labels)

/-- Mails that can be displayed can be shown. -/
private theorem showableFirst_displayable {emails : List SMEmail}
    (all : ∀ email ∈ emails, Displayable email ∧ email.recipients ≠ []) (count : Nat) :
    ShowableFirst count emails := by
  induction emails generalizing count with
  | nil => exact showableFirst_nil _
  | cons email emails ih =>
    obtain ⟨⟨displayable, filled⟩, later⟩ := List.forall_mem_cons.mp all
    cases count with
    | zero => exact showableFirst_zero _
    | succ count =>
      rw [showableFirst_row (socketId_parts _ displayable.socketId)]
      have row := Option.isSome_of_eq_some (pageRow_some 0 email displayable filled)
      exact ⟨(pageRow_isSome 0 email _ _ _ filled).mp row, ih later count⟩

/-- No call of a search for mails of the application raises. -/
theorem stored_callable (mails : List Mail) (address : Bytes)
    (distinct : mails.Pairwise fun m m' => m.id ≠ m'.id) (legible : Legible mails address)
    (unhidden : Unhidden mails address) (labels : List PageStep) :
    Always Serving.step Callable (.start (databaseOf mails) address) labels := by
  refine (always_callable_iff _ address).mpr (fun named => ?_) labels
  apply showableFirst_displayable
  intro email member
  refine ⟨?_, delivered_filled _ address named email member⟩
  rw [delivered] at member
  split at member
  · cases member
  next scan found =>
    obtain ⟨sorted, entries⟩ := Store.seek_some _ found
    obtain ⟨inbox, -, -, given⟩ := foundMails_found distinct legible unhidden sorted entries
    rw [given] at member
    obtain ⟨m, -, rfl⟩ := List.mem_map.mp member
    exact displayable_shown m

/-- A path has a defined answer exactly if its response raises nothing. -/
private theorem responseWithPath_defined (lower : Bytes → Bytes) (files : Bytes → Option Bytes)
    (texts : MainTexts) (filePath : Bytes) :
    responseWithPath lower files texts filePath ≠ .undefined ↔
      (responsePage filePath ≠ .main → (parseCgiParams lower filePath).isSome = true) ∧
        (responsePage filePath = .view → (viewText lower files filePath).isSome = true) := by
  unfold responseWithPath searchedAddress
  cases responsePage filePath with
  | search =>
    cases parseCgiParams lower filePath with
    | none => exact iff_of_false (fun defined => defined rfl) fun both => nomatch both.1 nofun
    | some args => exact iff_of_true nofun ⟨fun _ => rfl, nofun⟩
  | view =>
    have parses := viewText_isSome lower files filePath
    cases text : viewText lower files filePath with
    | none => exact iff_of_false (fun defined => defined rfl) fun both => nomatch both.2 rfl
    | some text =>
      rw [text] at parses
      exact iff_of_true nofun ⟨fun _ => (parses.mp rfl).1, fun _ => rfl⟩
  | main => exact iff_of_true nofun ⟨fun other => absurd rfl other, nofun⟩

/-- A request is answered exactly if it is answerable. -/
theorem answered_iff (lower : Bytes → Bytes) (files : Bytes → Option Bytes) (texts : MainTexts)
    (db : Database) (filePath : Bytes) :
    Answered lower files texts db filePath ↔ Answerable lower files db filePath := by
  have defined := responseWithPath_defined lower files texts filePath
  have parses := parseCgiParams_isSome lower filePath
  have views := viewText_isSome lower files filePath
  constructor
  · rintro ⟨value, searched⟩
    obtain ⟨parsed, viewed⟩ := defined.mp value
    exact ⟨fun page => parses.mp (parsed page), fun page => (views.mp (viewed page)).2,
      fun address asked => (always_callable_iff db address).mp (searched address asked)⟩
  · rintro ⟨decodes, readable, showable⟩
    have parsed : responsePage filePath ≠ .main → (parseCgiParams lower filePath).isSome = true :=
      fun page => parses.mpr (decodes page)
    refine ⟨defined.mpr ⟨parsed, fun page => ?_⟩, fun address asked =>
      (always_callable_iff db address).mpr (showable address asked)⟩
    exact views.mpr ⟨parsed (page ▸ nofun), readable page⟩

theorem unanswered_view {lower : Bytes → Bytes} {files : Bytes → Option Bytes} {filePath : Bytes}
    (page : responsePage filePath = .view) (raised : viewText lower files filePath = none)
    (texts : MainTexts) (db : Database) : ¬Answered lower files texts db filePath := by
  intro answered
  have text := ((responseWithPath_defined lower files texts filePath).mp answered.defined).2 page
  rw [raised] at text
  cases text

/-- The link of a mail whose file is not UTF-8 has no answer. -/
theorem unanswered_mail {lower : Bytes → Bytes} (same : lower (ascii "e") = ascii "e") (m : Mail)
    (valid : utf8Valid m.recipient = true) (unescaped : Unescaped m.recipient)
    (plain_ : plain underscore m.recipient = true) {data : Bytes} (coded : utf8Valid data = false)
    (texts : MainTexts) (db : Database) :
    ¬Answered lower (fun _ => some data) texts db (ascii "/v?e=" ++ joinedId m) := by
  have request := viewRequest_joined lower same ((joinedId_unescaped m).mpr unescaped)
    (joinedId_valid m valid) ((components_joinedId m).mpr plain_)
  obtain ⟨path, named⟩ := pathWithSocketId_some m.socketId m.serial
  rw [named] at request
  refine unanswered_view rfl ?_ texts db
  have filled : data.length ≠ 0 := by
    intro empty
    rw [List.eq_nil_of_length_eq_zero empty] at coded
    cases coded
  rw [viewText, request]
  dsimp only [Option.bind_some]
  rw [if_neg filled, stringWithUtf8, coded]
  rfl

/-- A malformed escape, and a mail in Latin-1, leave the caller without a value. -/
theorem view_unanswered :
    (∀ files texts db, ¬Answered id files texts db (ascii "/v?e=%")) ∧
      ∀ texts db, ¬Answered id (fun _ => some [0xE9]) texts db
        (ascii "/v?e=" ++ joinedId (mailFor (ascii "x") (ascii "000001") named_x (by decide))) := by
  refine ⟨fun files => ?_, ?_⟩
  · have request : viewRequest id (ascii "/v?e=%") = .raised := by decide
    refine unanswered_view (by decide) ?_
    rw [viewText, request]
  · have unescaped : Unescaped (ascii "x") := by decide +kernel
    exact unanswered_mail rfl _ (by decide) unescaped (by decide) (by decide)

end Spamass.Web
