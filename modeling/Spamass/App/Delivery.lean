import Spamass.App.Recipients

/-!
# Acknowledged and stored

An auditor follows a connection event by event: who was told `250 Recipient ok` in
this transaction, and what the data handler was given. Each data segment that ends
is acknowledged exactly if what the application writes at its end stores the mail
for all of them; the ledger says for which lines of the client that is so.
-/
namespace Spamass.App

open Spamass.Framing Spamass.Emailz Spamass.Runs

/-! ### The auditor -/

structure Account where
  inMail : Bool
  -- the last line handled
  line : Bytes
  -- the recipients acknowledged in this transaction
  acknowledged : List Bytes
  -- what the data handler was given in this data segment
  delivered : Bytes
  deriving DecidableEq, Repr

def Account.start : Account := ⟨false, [], [], []⟩

/-- The commands that begin a transaction or give one up. -/
def opensTransaction (line : Bytes) : Bool :=
  [some .mail, some .rset, some .helo, some .ehlo].contains (lineCommand line)

def Account.note (a : Account) : Event → Account
  | .line line =>
    { a with
      line := line
      acknowledged := if !a.inMail && opensTransaction line then [] else a.acknowledged }
  | .reply .recipientOk _ => { a with acknowledged := a.acknowledged ++ recipientsOf a.line }
  | .reply .enterMail _ => { a with inMail := true }
  | .data payload false => { a with delivered := a.delivered ++ payload }
  | .data _ true => { a with delivered := [] }
  | .reply .accepted _ => { a with inMail := false, acknowledged := [] }
  | _ => a

/-- The mail is in the inbox of everyone acknowledged, and its file holds what was delivered. -/
def StoredFor (a : Account) (socketId : Bytes) (writes : List Write) : Prop :=
  ∃ serial path,
    (∀ recipient ∈ a.acknowledged,
      (∀ field ∈ mailFields, ∃ value, .put (fieldKey recipient socketId serial field) value ∈ writes) ∧
      .put (sentinel recipient) (ascii "1") ∈ writes) ∧
    pathWithSocketId socketId serial = some path ∧ .file path a.delivered ∈ writes

/-- The server writes "Message accepted for delivery" next. -/
def acknowledges : List Event → Bool
  | .reply .accepted _ :: _ => true
  | _ => false

/-- At the end of a data segment the reply and the writes of the application agree; anywhere
else there is neither. -/
def Account.Fair (a : Account) (socketId : Bytes) (writes : List Write) (later : List Event) :
    Event → Prop
  | .data _ true => if acknowledges later then StoredFor a socketId writes else writes = []
  | _ => acknowledges later = false ∧ writes = []

def Audited (lower : Bytes → Bytes) (socketId : Bytes) :
    Account → Option SMSocket → List Event → Prop
  | _, _, [] => True
  | a, app, event :: later =>
    a.Fair socketId (appStep lower app event).2 later event ∧
      Audited lower socketId (a.note event) (appStep lower app event).1 later

/-- A line that may end a mail. The terminator is answered with the acknowledgement: then one
address stands for everyone named, and the names of the mail make a path. The line over the
limit is not, and the application must have nothing it could write. -/
def Ledger.Storable (socketId : Bytes) (g : Ledger) (line : Bytes) : Prop :=
  Phase.closes g.phase line = true →
    if line = endOfMail then
      g.raised = false ∧ (pathWithSocketId socketId (decimal6 g.serial)).isSome = true ∧
        ∃ first rest, g.envelope = some (first :: rest) ∧ ∀ recipient ∈ g.named, recipient = first
    else g.raised = true ∨ g.envelope = some []

/-! ### What is stored -/

theorem pathWithSocketId_serial {socketId serial serial' path : Bytes}
    (here : pathWithSocketId socketId serial = some path)
    (there : pathWithSocketId socketId serial' = some path) : serial = serial' := by
  unfold pathWithSocketId at here there
  split at here
  · cases here
  · split at there
    · cases there
    · split at here
      · split at there
        · have same := (Option.some.inj here).trans (Option.some.inj there).symm
          simpa using same
        · cases there
      · cases here

/-- The subject of a recipient is put only for the recipient the mail is stored under. -/
private theorem subject_only {email : SMEmail} {first recipient socketId value : Bytes}
    (name : email.socketId = socketId)
    (stored : .put (fieldKey recipient socketId email.serial (ascii "subject")) value ∈
      storeEmail email first
        (first ++ separator ++ email.socketId ++ separator ++ email.serial ++ separator)) :
    recipient = first := by
  unfold storeEmail at stored
  simp only [List.mem_append, List.mem_cons, List.not_mem_nil, or_false, Write.put.injEq] at stored
  rcases stored with (⟨same, -⟩ | ⟨other, -⟩ | ⟨other, -⟩ | ⟨other, -⟩) | file
  · rw [← name] at same
    simpa [fieldKey] using same
  · -- the other keys end in other letters
    have ends := congrArg List.getLast? other
    simp [fieldKey, ascii] at ends
  · have ends := congrArg List.getLast? other
    simp [fieldKey, ascii] at ends
  · have ends := congrArg List.getLast? other
    simp [fieldKey, sentinel, ascii] at ends
  · split at file <;> simp at file

/-- What the writes at the end of a mail are, by the ledger. -/
private theorem writes_closed {lower : Bytes → Bytes} {socketId : Bytes} {g : Ledger}
    {app : Option SMSocket} (payload : Bytes) (reflects : Reflects lower socketId g app) :
    ((g.raised = true ∨ g.envelope = some []) ∧ (appStep lower app (.data payload true)).2 = []) ∨
      (g.raised = false ∧ g.envelope = none ∧ (appStep lower app (.data payload true)).2 =
        [.put [] [], .put [] [], .put [] (decimal 0), .put [] (ascii "1")]) ∨
      ∃ first rest email, g.raised = false ∧ g.envelope = some (first :: rest) ∧
        Holds lower socketId g (first :: rest) email ∧
        (appStep lower app (.data payload true)).2 = storeEmail email first
          (first ++ separator ++ email.socketId ++ separator ++ email.serial ++ separator) := by
  cases app with
  | none => exact Or.inl ⟨Or.inl reflects.none_raised, rfl⟩
  | some socket =>
    have alive := reflects.some_raised
    obtain ⟨-, -, holds⟩ := reflects.alive socket rfl
    -- no mail in hand, a mail without a recipient, or one with a first recipient
    rcases holds.inv with ⟨list, email⟩ | ⟨recipients, object, list, email, holds⟩
    · refine Or.inr (Or.inl ⟨alive, list, ?_⟩)
      simp [appStep, appCall, handleEmail, email]
    · have rcpts := holds.recipients
      cases recipients with
      | nil =>
        refine Or.inl ⟨Or.inr list, ?_⟩
        simp [appStep, appCall, handleEmail, email, rcpts]
      | cons first rest =>
        refine Or.inr (Or.inr ⟨first, rest, object, alive, list, holds, ?_⟩)
        simp [appStep, appCall, handleEmail, email, rcpts, SMEmail.dbprefix]

/-- Nothing is written exactly if the application has ended, or ends here. -/
private theorem writes_nothing_iff {lower : Bytes → Bytes} {socketId : Bytes} {g : Ledger}
    {app : Option SMSocket} (payload : Bytes) (reflects : Reflects lower socketId g app) :
    (appStep lower app (.data payload true)).2 = [] ↔ g.raised = true ∨ g.envelope = some [] := by
  rcases writes_closed payload reflects with ⟨ended, writes⟩ | ⟨alive, list, writes⟩ |
    ⟨first, rest, email, alive, list, -, writes⟩
  · exact iff_of_true writes ended
  · simp [writes, alive, list]
  · simp [writes, alive, list, storeEmail]

private theorem storedFor_iff {lower : Bytes → Bytes} {socketId : Bytes} {g : Ledger} {a : Account}
    {app : Option SMSocket} (payload : Bytes) (reflects : Reflects lower socketId g app)
    (acknowledged : a.acknowledged = g.named) (delivered : a.delivered = g.mail.flatten) :
    StoredFor a socketId (appStep lower app (.data payload true)).2 ↔
      g.raised = false ∧ (pathWithSocketId socketId (decimal6 g.serial)).isSome = true ∧
        ∃ first rest, g.envelope = some (first :: rest) ∧
          ∀ recipient ∈ g.named, recipient = first := by
  rcases writes_closed payload reflects with ⟨ended, writes⟩ | ⟨alive, list, writes⟩ |
    ⟨first, rest, email, alive, list, holds, writes⟩
  · -- no writes, so no file
    refine iff_of_false ?_ ?_
    · rw [writes]
      rintro ⟨_, _, _, _, file⟩
      cases file
    · rintro ⟨alive, -, first, rest, present, -⟩
      rcases ended with raised | empty
      · rw [raised] at alive
        cases alive
      · rw [present] at empty
        cases empty
  · -- without a mail object there is no path, and no file
    refine iff_of_false ?_ ?_
    · rw [writes]
      rintro ⟨_, _, _, _, file⟩
      simp at file
    · rintro ⟨-, -, first, rest, present, -⟩
      rw [list] at present
      cases present
  · rw [writes, ← holds.serial]
    constructor
    · rintro ⟨serial, path, inboxes, shape, file⟩
      have named : pathWithSocketId socketId email.serial = some path := by
        unfold storeEmail at file
        rw [holds.socketId] at file
        cases found : pathWithSocketId socketId email.serial with
        | none => simp [found] at file
        | some path' =>
          rw [found] at file
          simp only [List.mem_append, List.mem_cons, List.not_mem_nil, reduceCtorEq, or_false,
            false_or, Write.file.injEq] at file
          rw [file.1]
      obtain rfl : serial = email.serial := pathWithSocketId_serial shape named
      refine ⟨alive, by rw [named]; rfl, first, rest, list, ?_⟩
      intro recipient member
      obtain ⟨value, stored⟩ := (inboxes recipient (acknowledged ▸ member)).1 (ascii "subject")
        (by simp [mailFields])
      exact subject_only holds.socketId stored
    · rintro ⟨-, shape, first', rest', list', alone⟩
      rw [list] at list'
      obtain ⟨rfl, rfl⟩ := List.cons.inj (Option.some.inj list')
      obtain ⟨path, found⟩ := Option.isSome_iff_exists.mp shape
      refine ⟨email.serial, path, ?_, found, ?_⟩
      · intro recipient member
        obtain rfl := alone recipient (acknowledged ▸ member)
        refine ⟨?_, by simp [storeEmail]⟩
        intro field member
        simp only [mailFields, List.mem_cons, List.not_mem_nil, or_false] at member
        rcases member with rfl | rfl | rfl
        · exact ⟨subjectText (email.headers.lookup (ascii "subject")),
            by simp [storeEmail, fieldKey, holds.socketId]⟩
        · exact ⟨email.sender.getD [], by simp [storeEmail, fieldKey, holds.socketId]⟩
        · exact ⟨decimal email.dataSize, by simp [storeEmail, fieldKey, holds.socketId]⟩
      · simp [storeEmail, holds.socketId, found, delivered, holds.data]

/-! ### The audit of a talk -/

def Account.after (a : Account) (log : List Event) : Account := log.foldl Account.note a

/-- The auditor's account, against the ledger. -/
structure Fits (g : Ledger) (a : Account) : Prop where
  inMail : a.inMail = true ↔ g.phase ≠ .command
  acknowledged : a.acknowledged = g.named
  delivered : a.delivered = g.mail.flatten

/-- Events that run nothing, and do not acknowledge. -/
def Event.idles : Event → Bool
  | .reply .accepted _ => false
  | event => !Event.runs event

private theorem answered_idles {s : Session} {command : Command} {result : Session × List Event}
    (answered : Answered s command result) : ∀ event ∈ result.2, Event.idles event = true := by
  intro event member
  rcases answered_member answered event member with aside | ⟨reply, completion, rfl, other⟩
  · cases event <;> simp_all [Event.aside, Event.runs, Event.idles]
  · cases reply <;> first | rfl | exact absurd rfl other

theorem acknowledges_idle (event : Event) (later : List Event) (idle : Event.idles event = true) :
    acknowledges (event :: later) = false := by
  cases event with
  | reply reply _ => cases reply <;> first | rfl | cases idle
  | _ => rfl

private theorem audited_idle_cons (lower : Bytes → Bytes) (socketId : Bytes) (a : Account)
    (app : Option SMSocket) (event : Event) (later : List Event)
    (quiet : Event.runs event = false) (unacknowledged : acknowledges later = false) :
    Audited lower socketId a app (event :: later) ↔
      Audited lower socketId (a.note event) app later := by
  have idle := appStep_idle lower app event quiet
  have fair : a.Fair socketId [] later event := by
    cases event with
    | data _ done => cases quiet
    | _ => exact ⟨unacknowledged, rfl⟩
  rw [Audited, idle]
  exact ⟨And.right, fun rest => ⟨fair, rest⟩⟩

private theorem audited_idle (lower : Bytes → Bytes) (socketId : Bytes) (a : Account)
    (app : Option SMSocket) (log later : List Event)
    (idles : ∀ event ∈ log, Event.idles event = true)
    (unacknowledged : acknowledges later = false) :
    (Audited lower socketId a app (log ++ later) ↔
      Audited lower socketId (a.after log) app later) ∧ acknowledges (log ++ later) = false := by
  induction log generalizing a with
  | nil => exact ⟨Iff.rfl, unacknowledged⟩
  | cons event log ih =>
    have here := idles event (List.mem_cons_self ..)
    obtain ⟨rest, behind⟩ := ih (a.note event) fun event member =>
      idles event (List.mem_cons_of_mem _ member)
    have quiet : Event.runs event = false := by
      cases event <;> simp_all [Event.idles, Event.runs]
    refine ⟨?_, acknowledges_idle event _ here⟩
    rw [List.cons_append, audited_idle_cons lower socketId a app event _ quiet behind, rest]
    rfl

/-- What answering a command does to the account: recipients are acknowledged after RCPT,
and after DATA the data segment begins. -/
private theorem answered_account {s : Session} {command : Command} {result : Session × List Event}
    (a : Account) (answered : Answered s command result) :
    a.after result.2 =
      { a with
        acknowledged :=
          if command = .rcpt then a.acknowledged ++ recipientsOf a.line else a.acknowledged
        inMail := if command = .data then true else a.inMail } := by
  obtain ⟨before, reply, completion, after, _, _, rfl, answers, -, asides⟩ := answered
  -- nothing but the reply is noted
  have quiet : ∀ (a : Account) (log : List Event), (∀ event ∈ log, event.aside = true) →
      a.after log = a := by
    intro a log
    induction log with
    | nil => intro _; rfl
    | cons event log ih =>
      intro all
      have here : a.note event = a := by
        have aside := all event (List.mem_cons_self ..)
        cases event <;> first | rfl | cases aside
      rw [Account.after, List.foldl_cons, here]
      exact ih fun event member => all event (List.mem_cons_of_mem _ member)
  have split : a.after (before ++ .reply reply completion :: after) =
      ((a.after before).note (.reply reply completion)).after after := by
    simp [Account.after]
  rw [split, quiet a before fun event member => asides event (List.mem_append_left _ member),
    quiet _ after fun event member => asides event (List.mem_append_right _ member)]
  cases answers <;> simp [Account.note]

/-- The audit of what one line logs comes down to the condition on the line, and leaves an
account that fits the ledger. -/
def LineAudited (lower : Bytes → Bytes) (socketId : Bytes) (g : Ledger) (a : Account)
    (app : Option SMSocket) (line : Bytes) (events later : List Event) : Prop :=
  ∃ a', Fits (g.next lower line) a' ∧
    (Audited lower socketId a app (.line line :: (events ++ later)) ↔ g.Storable socketId line ∧
      Audited lower socketId a' (appRun lower app events) later)

section Lines

variable (lower : Bytes → Bytes) (socketId : Bytes) (g : Ledger) (a : Account)
  (app : Option SMSocket) (line : Bytes) (later : List Event)
  (reflects : Reflects lower socketId g app) (fits : Fits g a)
  (unacknowledged : acknowledges later = false)

include fits in
private theorem noted_mail (inMail : g.phase ≠ .command) :
    a.note (.line line) = { a with line := line } := by
  have going : a.inMail = true := fits.inMail.mpr inMail
  simp [Account.note, going]

include reflects fits unacknowledged in
/-- The terminator: the application writes, and the server acknowledges. -/
private theorem lineAudited_end (completion : Completion) (inMail : g.phase ≠ .command)
    (last : line = endOfMail) :
    LineAudited lower socketId g a app line [.data [] true, .reply .accepted completion] later := by
  have closes : Phase.closes g.phase line = true := by
    cases phase : g.phase with
    | command => exact absurd phase inMail
    | mail size => simp [Phase.closes, last]
  have next := g.next_close lower line closes
  have noted := noted_mail g a line fits inMail
  have told := storedFor_iff (a := a.note (.line line)) [] reflects
    (by rw [noted]; exact fits.acknowledged) (by rw [noted]; exact fits.delivered)
  have storable : g.Storable socketId line ↔
      StoredFor (a.note (.line line)) socketId (appStep lower app (.data [] true)).2 := by
    rw [told, Ledger.Storable, if_pos last]
    exact ⟨fun meets => meets closes, fun stored _ => stored⟩
  refine ⟨{ a with line := line, inMail := false, acknowledged := [], delivered := [] }, ?_, ?_⟩
  · rw [next]
    have ended : g.phase.next line = .command := by
      cases phase : g.phase with
      | command => exact absurd phase inMail
      | mail size => simp [Phase.next, last]
    refine ⟨?_, ?_, rfl⟩
    · simp [ended]
    · simp [last]
  · -- line, data, reply: the first and the last are idle
    rw [List.cons_append, List.singleton_append, audited_idle_cons lower socketId a app _ _ rfl rfl,
      storable]
    have split : Audited lower socketId (a.note (.line line)) app
        (.data [] true :: .reply .accepted completion :: later) ↔
          StoredFor (a.note (.line line)) socketId (appStep lower app (.data [] true)).2 ∧
          Audited lower socketId ((a.note (.line line)).note (.data [] true))
            (appStep lower app (.data [] true)).1 (.reply .accepted completion :: later) := Iff.rfl
    rw [split, audited_idle_cons lower socketId _ _ _ _ rfl unacknowledged, noted]
    have stays : appRun lower app [.data [] true, .reply .accepted completion] =
        (appStep lower app (.data [] true)).1 := by
      rw [show [Event.data [] true, Event.reply .accepted completion] =
        [Event.data [] true] ++ [Event.reply .accepted completion] from rfl, appRun_append,
        appRun_idle lower _ [_] (by simp [Event.runs])]
      rfl
    rw [stays]
    rfl

include reflects fits unacknowledged in
/-- A line over the limit: the server hangs up, and the application must not write. -/
theorem lineAudited_over (closes : Phase.closes g.phase line = true) (other : line ≠ endOfMail)
    (goesOn : g.phase.next line ≠ .command) :
    LineAudited lower socketId g a app line [.data line true, .stop] later := by
  have inMail : g.phase ≠ .command := by
    intro command
    rw [command] at closes
    cases closes
  have next := g.next_close lower line closes
  have noted := noted_mail g a line fits inMail
  -- the line gets no acknowledgement, so the application must write nothing
  have storable : g.Storable socketId line ↔ (appStep lower app (.data line true)).2 = [] := by
    rw [writes_nothing_iff line reflects, Ledger.Storable, if_neg other]
    exact ⟨fun meets => meets closes, fun silent _ => silent⟩
  refine ⟨{ a with line := line, delivered := [] }, ?_, ?_⟩
  · rw [next]
    refine ⟨?_, ?_, rfl⟩
    · simp only [ne_eq, goesOn, not_false_eq_true, iff_true]
      exact fits.inMail.mpr inMail
    · simp [other, fits.acknowledged]
  · rw [List.cons_append, List.singleton_append, audited_idle_cons lower socketId a app _ _ rfl rfl,
      storable]
    -- the data segment ends first, then the loop stops
    have split : Audited lower socketId (a.note (.line line)) app
          (.data line true :: .stop :: later) ↔
        (appStep lower app (.data line true)).2 = [] ∧
        Audited lower socketId ((a.note (.line line)).note (.data line true))
          (appStep lower app (.data line true)).1 (.stop :: later) := Iff.rfl
    rw [split, audited_idle_cons lower socketId _ _ _ _ rfl unacknowledged, noted]
    have stays : appRun lower app [.data line true, .stop] =
        (appStep lower app (.data line true)).1 := by
      rw [show [Event.data line true, Event.stop] = [Event.data line true] ++ [Event.stop] from rfl,
        appRun_append, appRun_idle lower _ [_] (by simp [Event.runs])]
      rfl
    rw [stays]
    rfl

include fits unacknowledged in
/-- A line of the mail. -/
private theorem lineAudited_mail (inMail : g.phase ≠ .command)
    (stays : Phase.closes g.phase line = false) (goesOn : g.phase.next line ≠ .command) :
    LineAudited lower socketId g a app line [.data line false] later := by
  have next := g.next_data lower line inMail stays
  have noted := noted_mail g a line fits inMail
  refine ⟨{ a with line := line, delivered := a.delivered ++ line }, ?_, ?_⟩
  · rw [next]
    refine ⟨?_, fits.acknowledged, ?_⟩
    · simp only [ne_eq, goesOn, not_false_eq_true, iff_true]
      exact fits.inMail.mpr inMail
    · simp [fits.delivered]
  · have silent : (appStep lower app (.data line false)).2 = [] := by cases app <;> rfl
    have storable : g.Storable socketId line := by simp [Ledger.Storable, stays]
    rw [List.singleton_append, audited_idle_cons lower socketId a app _ _ rfl rfl, noted]
    constructor
    · exact fun audited => ⟨storable, audited.2⟩
    · exact fun rest => ⟨⟨unacknowledged, silent⟩, rest.2⟩

include unacknowledged in
/-- A line read as a command: MAIL and RCPT reach the application, and nothing is written. -/
private theorem lineAudited_command (calls answer : List Event) (a' : Account)
    (command : g.phase = .command) (called : calls = [] ∨ ∃ c arg, calls = [.smtp c arg])
    (idles : ∀ event ∈ answer, Event.idles event = true)
    (account : (a.note (.line line)).after answer = a') (fits' : Fits (g.next lower line) a') :
    LineAudited lower socketId g a app line (calls ++ answer) later := by
  have storable : g.Storable socketId line := by simp [Ledger.Storable, command, Phase.closes]
  have runs : ∀ event ∈ answer, Event.runs event = false := by
    intro event member
    have idle := idles event member
    cases event <;> first | rfl | cases idle
  refine ⟨a', fits', ?_⟩
  -- a command that is not passed on is only answered; the others write nothing either
  rcases called with rfl | ⟨c, arg, rfl⟩
  · obtain ⟨rest, behind⟩ := audited_idle lower socketId (a.note (.line line)) app answer later
      idles unacknowledged
    rw [List.nil_append, audited_idle_cons lower socketId a app _ _ rfl behind, rest, account,
      appRun_idle lower app answer runs]
    exact ⟨fun audited => ⟨storable, audited⟩, And.right⟩
  · obtain ⟨rest, behind⟩ := audited_idle lower socketId (a.note (.line line))
      (appStep lower app (.smtp c arg)).1 answer later idles unacknowledged
    have silent : (appStep lower app (.smtp c arg)).2 = [] := by
      cases app with
      | none => rfl
      | some socket => cases c <;> rfl
    have split : Audited lower socketId (a.note (.line line)) app
          (.smtp c arg :: (answer ++ later)) ↔
        (acknowledges (answer ++ later) = false ∧ (appStep lower app (.smtp c arg)).2 = []) ∧
        Audited lower socketId (a.note (.line line)) (appStep lower app (.smtp c arg)).1
          (answer ++ later) := Iff.rfl
    have run : appRun lower app ([.smtp c arg] ++ answer) =
        (appStep lower app (.smtp c arg)).1 := by
      rw [appRun_append, appRun_idle lower _ answer runs]
      rfl
    rw [List.singleton_append, List.cons_append, audited_idle_cons lower socketId a app _ _ rfl rfl,
      split, rest, account, ← List.singleton_append, run]
    constructor
    · exact fun audited => ⟨storable, audited.2⟩
    · exact fun stored => ⟨⟨behind, silent⟩, stored.2⟩

end Lines

/-- The account after a command fits the ledger after it. -/
private theorem fits_command {s : Session} {c : Command} {result : Session × List Event}
    (lower : Bytes → Bytes) (g : Ledger) (a : Account) (line : Bytes)
    (command : g.phase = .command) (word : lineCommand line = some c)
    (answered : Answered s c result) (fits : Fits g a) :
    Fits (g.next lower line) ((a.note (.line line)).after result.2) := by
  have resting : a.inMail = false := by
    rw [Bool.eq_false_iff]
    intro going
    exact fits.inMail.mp going command
  have next : g.next lower line = { g.command line with phase := g.phase.next line } := by
    rw [Ledger.next, if_pos command]
  rw [answered_account _ answered, next]
  refine ⟨?_, ?_, ?_⟩
  · cases c <;> simp [command, Phase.next, word, Account.note, resting]
  · cases c <;> simp [Ledger.command, word, Account.note, resting, opensTransaction,
      fits.acknowledged]
  · cases c <;> simp [Ledger.command, word, Account.note, fits.delivered]

/-- One line of a talk. -/
theorem lineAudited_handled {env : Env} {s : Session} {line : Bytes} {after : Step Session Event}
    (lower : Bytes → Bytes) (socketId : Bytes) (g : Ledger) (a : Account) (app : Option SMSocket)
    (later : List Event) (handled : Handled env s line after)
    (installed : s.toHandlers = appHandlers) (phase : s.phase = g.phase)
    (reflects : Reflects lower socketId g app) (fits : Fits g a)
    (unacknowledged : acknowledges later = false) :
    ∃ events, after.events = .line line :: events ∧
      LineAudited lower socketId g a app line events later := by
  -- what the line does decides which of the four accounts applies
  cases handled with
  | ended completion _ mail last =>
    have atMail : g.phase = .mail s.emailSize := by simp [← phase, Session.phase, mail]
    refine ⟨_, rfl, ?_⟩
    rw [dataCallback_app s installed]
    exact lineAudited_end lower socketId g a app line later reflects fits unacknowledged completion
      (by simp [atMail]) last
  | overrun mail other large =>
    have atMail : g.phase = .mail s.emailSize := by simp [← phase, Session.phase, mail]
    refine ⟨_, rfl, ?_⟩
    rw [dataCallback_app s installed]
    exact lineAudited_over lower socketId g a app line later reflects fits unacknowledged
      (by simp [atMail, Phase.closes, large]) other (by simp [atMail, Phase.next, other])
  | mail mail other small =>
    have atMail : g.phase = .mail s.emailSize := by simp [← phase, Session.phase, mail]
    refine ⟨_, rfl, ?_⟩
    rw [dataCallback_app s installed]
    exact lineAudited_mail lower socketId g a app line later fits unacknowledged (by simp [atMail])
      (by simp [atMail, Phase.closes, other, small]) (by simp [atMail, Phase.next, other])
  | wordless command missing =>
    have atCommand : g.phase = .command := phase ▸ (phase_command_iff s).mpr command
    refine ⟨[], rfl, ?_⟩
    apply lineAudited_command lower socketId g a app line later unacknowledged [] [] _ atCommand
      (Or.inl rfl) (by simp) rfl
    refine ⟨?_, ?_, ?_⟩ <;>
      simp [Ledger.next, atCommand, Ledger.command, missing, Phase.next, Account.note, Account.after,
        fits.inMail, opensTransaction, fits.acknowledged, fits.delivered]
  | command c result command present _ answered =>
    have atCommand : g.phase = .command := phase ▸ (phase_command_iff s).mpr command
    refine ⟨_, rfl, ?_⟩
    apply lineAudited_command lower socketId g a app line later unacknowledged _ result.2 _
      atCommand _ (answered_idles answered) rfl
    · exact fits_command lower g a line atCommand present answered fits
    · rw [smtpCallback_app _ installed]
      split
      · exact Or.inr ⟨c, _, rfl⟩
      · exact Or.inl rfl

private theorem talk_unacknowledged {env : Env} {handlers : Handlers} {phase after : Phase}
    {log : List Event} (talk : Talk env handlers phase log after) : acknowledges log = false := by
  cases talk with
  | silence => rfl
  | stop _ => rfl
  | line s line _ _ =>
    have noted : ∃ events, (handleLine env s line).events = .line line :: events := ⟨_, rfl⟩
    obtain ⟨events, split⟩ := noted
    rw [split]
    rfl

private theorem audited_talk {env : Env} {phase after : Phase} {log : List Event}
    (talk : Talk env appHandlers phase log after) (lower : Bytes → Bytes) (socketId : Bytes)
    (g : Ledger) (a : Account) (app : Option SMSocket) (phase_ : phase = g.phase)
    (reflects : Reflects lower socketId g app) (fits : Fits g a) :
    Audited lower socketId a app log ↔
      Each (Ledger.next lower) (Ledger.Storable socketId) g (linesOf log) := by
  -- on the talk: each line is audited against the account the lines before it leave
  induction talk generalizing g a app with
  | silence => exact Iff.rfl
  | stop talk ih =>
    rw [audited_idle_cons lower socketId a app _ _ rfl (talk_unacknowledged talk)]
    exact ih g a app phase_ reflects fits
  | line s line installed talk ih =>
    have handled := handleLine_handled env s line
    have next := reflects_handled lower socketId g app handled installed phase_ reflects
    obtain ⟨events, split, a', fits', audited⟩ := lineAudited_handled lower socketId g a app _
      handled installed phase_ reflects fits (talk_unacknowledged talk)
    have noted : appRun lower app (.line line :: events) = appRun lower app events := by
      cases app <;> rfl
    have lines := handled.lines
    rw [split] at next lines ⊢
    rw [noted] at next
    rw [linesOf_append, lines, List.cons_append, audited,
      ih (g.next lower line) a' _ (by rw [phase_, g.next_phase lower]) next fits']
    rfl

/-! ### Every run -/

/-- The audit holds at every event of the log. -/
theorem audited_at {lower : Bytes → Bytes} {socketId : Bytes} {a : Account} {app : Option SMSocket}
    {before : List Event} {event : Event} {later : List Event}
    (audited : Audited lower socketId a app (before ++ event :: later)) :
    (a.after before).Fair socketId (appStep lower (appRun lower app before) event).2 later
      event := by
  induction before generalizing a app with
  | nil => exact audited.1
  | cons first before ih => exact ih audited.2

def someSocketId : Bytes := ascii "20120807120000000-001.002.003.004-00025"

/-- A mail for two recipients: both are told `250 Recipient ok`. -/
def twoRecipients : List Event :=
  appLog Env.granted 3 0 false
    [plainRead (ascii "MAIL FROM:<s>\r\nRCPT TO:<a>\r\nRCPT TO:<b>\r\nDATA\r\n.\r\n")]

end Spamass.App
