import Spamass.Emailz.Talk
import Spamass.Runs
import Spamass.App.Mail

/-!
# The ledger of a connection

What a witness who sees only the lines of the client writes down about the mail
that is open: whom it is for, what it says, and whether an exception has ended the
application. The objects of the application reflect this ledger on every run.
-/
namespace Spamass.App

open Spamass.Framing Spamass.Emailz

/-! ### The handlers on the log -/

/-- The mask has two commands. -/
theorem smtpCallback_app (s : Session) (installed : s.toHandlers = appHandlers)
    (command : Command) (arg : Bytes) :
    smtpCallback s command arg =
      if command = .mail ∨ command = .rcpt then [.smtp command arg] else [] := by
  have handler : s.smtpHandler = true := congrArg Handlers.smtpHandler installed
  have queue : s.handlerQueue = true := congrArg Handlers.handlerQueue installed
  have mask : s.smtpHandlerMask = appHandlers.smtpHandlerMask :=
    congrArg Handlers.smtpHandlerMask installed
  unfold smtpCallback
  rw [handler, queue, mask]
  cases command <;> rfl

theorem dataCallback_app (s : Session) (installed : s.toHandlers = appHandlers)
    (payload : Bytes) (done : Bool) : dataCallback s payload done = [.data payload done] := by
  have handler : s.dataHandler = true := congrArg Handlers.dataHandler installed
  have queue : s.handlerQueue = true := congrArg Handlers.handlerQueue installed
  simp [dataCallback, handler, queue]

/-- The events that run a block of the application. -/
def Event.runs : Event → Bool
  | .smtp _ _ => true
  | .data _ _ => true
  | _ => false

theorem appStep_idle (lower : Bytes → Bytes) (app : Option SMSocket) (event : Event)
    (idle : Event.runs event = false) : appStep lower app event = (app, []) := by
  cases app with
  | none => rfl
  | some socket => cases event <;> first | rfl | exact absurd idle (by simp [Event.runs])

theorem appRun_idle (lower : Bytes → Bytes) (app : Option SMSocket) (log : List Event)
    (idle : ∀ event ∈ log, Event.runs event = false) : appRun lower app log = app := by
  induction log with
  | nil => rfl
  | cons event log ih =>
    have here := appStep_idle lower app event (idle event (List.mem_cons_self ..))
    have later := ih fun event member => idle event (List.mem_cons_of_mem _ member)
    rw [show appRun lower app (event :: log) =
        appRun lower (appStep lower app event).1 log from rfl,
      here, later]

/-- What answering a command adds to the log: a reply, and what comes with it. -/
theorem answered_member {s : Session} {command : Command} {result : Session × List Event}
    (answered : Answered s command result) (event : Event) (member : event ∈ result.2) :
    event.aside = true ∨
      ∃ reply completion, event = .reply reply completion ∧ reply ≠ .accepted := by
  obtain ⟨before, reply, completion, after, _, _, rfl, answers, -, asides⟩ := answered
  have cases_ : event ∈ before ++ after ∨ event = .reply reply completion := by
    simp only [List.mem_append, List.mem_cons] at member ⊢
    tauto
  rcases cases_ with aside | rfl
  · exact Or.inl (asides event aside)
  · refine Or.inr ⟨reply, completion, rfl, ?_⟩
    rintro rfl
    cases answers

theorem answered_idle {s : Session} {command : Command} {result : Session × List Event}
    (answered : Answered s command result) : ∀ event ∈ result.2, Event.runs event = false := by
  intro event member
  rcases answered_member answered event member with aside | ⟨reply, completion, rfl, -⟩
  · cases event <;> simp_all [Event.aside, Event.runs]
  · rfl

/-! ### The ledger -/

structure Ledger where
  phase : Phase
  -- the recipients named since the transaction began
  named : List Bytes
  -- the recipients named since the last MAIL, where a mail is open
  envelope : Option (List Bytes)
  -- how many mails were begun or closed
  serial : Nat
  -- the lines of the mail so far
  mail : List Bytes
  -- an exception has ended the application
  raised : Bool
  deriving DecidableEq, Repr

def Ledger.start : Ledger := ⟨.command, [], none, 0, [], false⟩

/-- The recipients a RCPT line names, as the application reads them. -/
def recipientsOf (line : Bytes) : List Bytes := recipientsIn (stringWithUtf8 (argument line))

/-- The header state the lines of a mail lead to; `none` where reading them raises. -/
def readMail (lower : Bytes → Bytes) (lines : List Bytes) : Option HeaderState :=
  lines.foldlM (fun h line => readHeader lower h (stringWithUtf8 line)) ⟨[], none, true⟩

def Ledger.command (g : Ledger) (line : Bytes) : Ledger :=
  match lineCommand line with
  | some .mail => { g with named := [], envelope := some [], serial := g.serial + 1 }
  | some .rcpt =>
    { g with
      named := g.named ++ recipientsOf line
      envelope := g.envelope.map (· ++ recipientsOf line) }
  | some .rset => { g with named := [] }
  | some .helo => { g with named := [] }
  | some .ehlo => { g with named := [] }
  | _ => g

/-- A mail that is closed with an empty list of recipients ends the application. -/
def Ledger.close (g : Ledger) : Ledger :=
  { g with
    envelope := none
    serial := g.serial + 1
    mail := []
    raised := g.raised || g.envelope == some [] }

/-- The line closes the mail: the terminator, or the one that takes it over the limit. -/
def Phase.closes : Phase → Bytes → Bool
  | .command, _ => false
  | .mail size, line => line == endOfMail || decide (maxIndataSize < size + line.length)

def Ledger.mailLine (lower : Bytes → Bytes) (g : Ledger) (line : Bytes) : Ledger :=
  if Phase.closes g.phase line then
    -- the client takes the reply to the terminator for the end of the transaction
    { g.close with named := if line = endOfMail then [] else g.named }
  else
    { g with
      mail := g.mail ++ [line]
      raised := g.raised || (g.envelope.isSome && (readMail lower (g.mail ++ [line])).isNone) }

def Ledger.next (lower : Bytes → Bytes) (g : Ledger) (line : Bytes) : Ledger :=
  { (if g.phase = .command then g.command line else g.mailLine lower line) with
    phase := g.phase.next line }

theorem Ledger.next_phase (lower : Bytes → Bytes) (g : Ledger) (line : Bytes) :
    (g.next lower line).phase = g.phase.next line := rfl

theorem Ledger.next_data (lower : Bytes → Bytes) (g : Ledger) (line : Bytes)
    (phase : g.phase ≠ .command) (stays : Phase.closes g.phase line = false) :
    g.next lower line =
      { g with
        phase := g.phase.next line
        mail := g.mail ++ [line]
        raised := g.raised || (g.envelope.isSome && (readMail lower (g.mail ++ [line])).isNone) } := by
  simp [Ledger.next, phase, Ledger.mailLine, stays]

theorem Ledger.next_close (lower : Bytes → Bytes) (g : Ledger) (line : Bytes)
    (closes : Phase.closes g.phase line = true) :
    g.next lower line =
      { g.close with
        phase := g.phase.next line
        named := if line = endOfMail then [] else g.named } := by
  have phase : g.phase ≠ .command := by
    intro command
    rw [command] at closes
    cases closes
  simp [Ledger.next, phase, Ledger.mailLine, closes]

/-! ### The application reflects the ledger -/

/-- The mail object of a ledger with an open mail. -/
structure Holds (lower : Bytes → Bytes) (socketId : Bytes) (g : Ledger) (recipients : List Bytes)
    (email : SMEmail) : Prop where
  recipients : email.recipients = recipients
  socketId : email.socketId = socketId
  serial : email.serial = decimal6 g.serial
  headers : readMail lower g.mail = some email.toHeaderState
  data : email.data = g.mail.flatten

def MailReflects (lower : Bytes → Bytes) (socketId : Bytes) (g : Ledger) :
    Option (List Bytes) → Option SMEmail → Prop
  | none, none => True
  | some recipients, some email => Holds lower socketId g recipients email
  | _, _ => False

/-- There is a mail object exactly where a mail is open. -/
theorem MailReflects.inv {lower : Bytes → Bytes} {socketId : Bytes} {g : Ledger}
    {envelope : Option (List Bytes)} {email : Option SMEmail}
    (holds : MailReflects lower socketId g envelope email) :
    (envelope = none ∧ email = none) ∨ ∃ recipients object, envelope = some recipients ∧
      email = some object ∧ Holds lower socketId g recipients object := by
  cases envelope with
  | none =>
    cases email with
    | none => exact Or.inl ⟨rfl, rfl⟩
    | some object => exact absurd holds id
  | some recipients =>
    cases email with
    | none => exact absurd holds id
    | some object => exact Or.inr ⟨recipients, object, rfl, rfl, holds⟩

/-- The objects of the application, against the ledger. Outside the data segment the
mail has no line yet. -/
structure Reflects (lower : Bytes → Bytes) (socketId : Bytes) (g : Ledger) (app : Option SMSocket) :
    Prop where
  blank : g.phase = .command → g.mail = []
  raised : app = none ↔ g.raised = true
  alive : ∀ socket, app = some socket → socket.socketId = socketId ∧
    socket.emailCount = g.serial ∧ MailReflects lower socketId g g.envelope socket.email

theorem reflects_start (lower : Bytes → Bytes) (socketId : Bytes) :
    Reflects lower socketId .start (some (SMSocket.init socketId)) := by
  refine ⟨fun _ => rfl, by simp [Ledger.start], ?_⟩
  rintro _ ⟨⟩
  exact ⟨rfl, rfl, trivial⟩

theorem Reflects.none_raised {lower : Bytes → Bytes} {socketId : Bytes} {g : Ledger}
    (reflects : Reflects lower socketId g none) : g.raised = true :=
  reflects.raised.mp rfl

theorem Reflects.some_raised {lower : Bytes → Bytes} {socketId : Bytes} {g : Ledger}
    {socket : SMSocket} (reflects : Reflects lower socketId g (some socket)) :
    g.raised = false := by
  rw [Bool.eq_false_iff]
  intro raised
  cases reflects.raised.mpr raised

/-- A ledger that says the same about the mail is reflected by the same objects. -/
theorem Reflects.same {lower : Bytes → Bytes} {socketId : Bytes} {g g' : Ledger}
    {app : Option SMSocket} (reflects : Reflects lower socketId g app)
    (blank : g'.phase = .command → g'.mail = []) (envelope : g'.envelope = g.envelope)
    (serial : g'.serial = g.serial) (mail : g'.mail = g.mail) (raised : g'.raised = g.raised) :
    Reflects lower socketId g' app := by
  refine ⟨blank, by rw [raised]; exact reflects.raised, ?_⟩
  intro socket alive
  obtain ⟨name, count, holds⟩ := reflects.alive socket alive
  refine ⟨name, by rw [serial]; exact count, ?_⟩
  rw [envelope]
  rcases holds.inv with ⟨list, email⟩ | ⟨recipients, object, list, email, holds⟩
  · rw [list, email]
    trivial
  · rw [list, email]
    exact ⟨holds.recipients, holds.socketId, by rw [holds.serial, serial],
      by rw [mail, holds.headers], by rw [holds.data, mail]⟩

/-- The application that is there behind an event was there before it. -/
theorem appStep_alive {lower : Bytes → Bytes} {app : Option SMSocket} {event : Event}
    {socket : SMSocket} (alive : (appStep lower app event).1 = some socket) :
    ∃ before, app = some before ∧ (appCall lower before event).1 = some socket := by
  cases app with
  | none => cases alive
  | some before => exact ⟨before, rfl, alive⟩

/-- A new mail: `handleFrom:` makes a new object. -/
private theorem reflects_from (lower : Bytes → Bytes) (socketId line arg : Bytes) (g : Ledger)
    (app : Option SMSocket) (reflects : Reflects lower socketId g app)
    (phase : g.phase = .command) (word : lineCommand line = some .mail) :
    Reflects lower socketId (g.next lower line) (appStep lower app (.smtp .mail arg)).1 := by
  have blank := reflects.blank phase
  refine ⟨fun _ => ?_, ?_, ?_⟩
  · simp [Ledger.next, phase, Ledger.command, word, blank]
  · have raised := reflects.raised
    cases app <;> simp_all [Ledger.next, Ledger.command, appStep, appCall]
  · intro socket alive
    obtain ⟨old, before, alive⟩ := appStep_alive alive
    obtain ⟨name, count, -⟩ := reflects.alive old before
    obtain rfl : handleFrom (stringWithUtf8 arg) old = socket := Option.some.inj alive
    refine ⟨name, ?_, ?_⟩
    · simp [Ledger.next, phase, Ledger.command, word, handleFrom, SMSocket.setEmail, count]
    · simp only [Ledger.next, phase, Ledger.command, word, if_true, handleFrom, SMSocket.setEmail]
      refine ⟨rfl, name, ?_, ?_, ?_⟩
      · simp [SMEmail.init, count]
      · simp [blank, readMail, SMEmail.init]
      · simp [blank, SMEmail.init]

/-- `handleRcpt:` adds the recipients, when a mail is open. -/
private theorem reflects_rcpt (lower : Bytes → Bytes) (socketId line : Bytes) (g : Ledger)
    (app : Option SMSocket) (reflects : Reflects lower socketId g app)
    (phase : g.phase = .command) (word : lineCommand line = some .rcpt) :
    Reflects lower socketId (g.next lower line)
      (appStep lower app (.smtp .rcpt (argument line))).1 := by
  refine ⟨fun _ => ?_, ?_, ?_⟩
  · simp [Ledger.next, phase, Ledger.command, word, reflects.blank phase]
  · have raised := reflects.raised
    cases app <;> simp_all [Ledger.next, Ledger.command, appStep, appCall]
  · intro socket alive
    obtain ⟨old, before, alive⟩ := appStep_alive alive
    obtain ⟨name, count, holds⟩ := reflects.alive old before
    obtain rfl : handleRcpt (stringWithUtf8 (argument line)) old = socket := Option.some.inj alive
    simp only [Ledger.next, phase, Ledger.command, word, if_true, handleRcpt]
    refine ⟨name, count, ?_⟩
    rcases holds.inv with ⟨list, email⟩ | ⟨recipients, object, list, email, holds⟩
    · rw [list, email]
      trivial
    · rw [list, email]
      refine ⟨?_, holds.socketId, holds.serial, holds.headers, holds.data⟩
      simp [holds.recipients, recipientsOf]

/-- A command the application is not called for leaves the mail as it is. -/
private theorem reflects_other (lower : Bytes → Bytes) (socketId line : Bytes) (g : Ledger)
    (app : Option SMSocket) (reflects : Reflects lower socketId g app)
    (phase : g.phase = .command) (noMail : lineCommand line ≠ some .mail)
    (noRcpt : lineCommand line ≠ some .rcpt) :
    Reflects lower socketId (g.next lower line) app := by
  have same : (g.command line).envelope = g.envelope ∧ (g.command line).serial = g.serial ∧
      (g.command line).mail = g.mail ∧ (g.command line).raised = g.raised := by
    unfold Ledger.command
    split <;> simp_all
  obtain ⟨envelope, serial, mail, raised⟩ := same
  have next : g.next lower line = { g.command line with phase := g.phase.next line } := by
    rw [Ledger.next, if_pos phase]
  rw [next]
  exact reflects.same (fun _ => mail.trans (reflects.blank phase)) envelope serial mail raised

/-- A line of the mail: `handleData:` reads its header and keeps its bytes. -/
private theorem reflects_data (lower : Bytes → Bytes) (socketId line : Bytes) (g : Ledger)
    (app : Option SMSocket) (reflects : Reflects lower socketId g app)
    (phase : g.phase ≠ .command) (stays : Phase.closes g.phase line = false)
    (goesOn : g.phase.next line ≠ .command) :
    Reflects lower socketId (g.next lower line) (appStep lower app (.data line false)).1 := by
  have extended : readMail lower (g.mail ++ [line]) =
      (readMail lower g.mail).bind fun h => readHeader lower h (stringWithUtf8 line) := by
    simp [readMail, List.foldlM_append, Option.bind_eq_bind]
  rw [g.next_data lower line phase stays]
  cases app with
  | none =>
    have raised := reflects.none_raised
    refine ⟨fun command => absurd command goesOn, by simp [appStep, raised], ?_⟩
    rintro socket ⟨⟩
  | some socket =>
    have raised := reflects.some_raised
    obtain ⟨name, count, holds⟩ := reflects.alive socket rfl
    rcases holds.inv with ⟨list, email⟩ | ⟨recipients, object, list, email, holds⟩
    · -- no mail is open: the line goes nowhere
      refine ⟨fun command => absurd command goesOn, ?_, ?_⟩
      · simp [appStep, appCall, handleData, email, raised, list]
      · intro after alive
        simp only [appStep, appCall, handleData, email, Option.some.injEq] at alive
        subst alive
        refine ⟨name, count, ?_⟩
        rw [list, email]
        trivial
    · rw [holds.headers, Option.bind_some] at extended
      cases read : readHeader lower object.toHeaderState (stringWithUtf8 line) with
      | none =>
        -- Foundation raises on a nil key or object
        refine ⟨fun command => absurd command goesOn, ?_, ?_⟩
        · simp [appStep, appCall, handleData, email, read, list, extended]
        · intro after alive
          simp [appStep, appCall, handleData, email, read] at alive
      | some h =>
        refine ⟨fun command => absurd command goesOn, ?_, ?_⟩
        · simp [appStep, appCall, handleData, email, read, list, extended, raised]
        · intro after alive
          simp only [appStep, appCall, handleData, email, read, Option.map_some,
            Option.some.injEq] at alive
          subst alive
          refine ⟨name, count, ?_⟩
          rw [list]
          refine ⟨holds.recipients, holds.socketId, holds.serial, ?_, ?_⟩
          · simp only [extended, read]
          · simp [holds.data]

/-- The end of a mail: `handleEmailWithSocket:` lets go of the object, or raises. -/
private theorem reflects_close (lower : Bytes → Bytes) (socketId line payload : Bytes) (g : Ledger)
    (app : Option SMSocket) (reflects : Reflects lower socketId g app)
    (closes : Phase.closes g.phase line = true) :
    Reflects lower socketId (g.next lower line) (appStep lower app (.data payload true)).1 := by
  rw [g.next_close lower line closes]
  cases app with
  | none =>
    have raised := reflects.none_raised
    refine ⟨fun _ => rfl, by simp [appStep, Ledger.close, raised], ?_⟩
    rintro socket ⟨⟩
  | some socket =>
    have raised := reflects.some_raised
    obtain ⟨name, count, holds⟩ := reflects.alive socket rfl
    rcases holds.inv with ⟨list, email⟩ | ⟨recipients, object, list, email, holds⟩
    · refine ⟨fun _ => rfl, ?_, ?_⟩
      · simp [appStep, appCall, handleEmail, email, Ledger.close, list, raised]
      · intro after alive
        simp only [appStep, appCall, handleEmail, email, Option.some.injEq] at alive
        subst alive
        exact ⟨name, congrArg (· + 1) count, trivial⟩
    · have rcpts := holds.recipients
      cases recipients with
      | nil =>
        -- objectAtIndex:0 raises
        refine ⟨fun _ => rfl, ?_, ?_⟩
        · simp [appStep, appCall, handleEmail, email, rcpts, Ledger.close, list]
        · intro after alive
          simp [appStep, appCall, handleEmail, email, rcpts] at alive
      | cons first rest =>
        refine ⟨fun _ => rfl, ?_, ?_⟩
        · simp [appStep, appCall, handleEmail, email, rcpts, SMEmail.dbprefix, Ledger.close, list,
            raised]
        · intro after alive
          simp only [appStep, appCall, handleEmail, email, rcpts, SMEmail.dbprefix,
            List.head?_cons, Option.map_some, Option.some.injEq] at alive
          subst alive
          exact ⟨name, congrArg (· + 1) count, trivial⟩

/-- One line of a talk: the handlers of the application keep up with the ledger. -/
theorem reflects_handled {env : Env} {s : Session} {line : Bytes} {after : Step Session Event}
    (lower : Bytes → Bytes) (socketId : Bytes) (g : Ledger) (app : Option SMSocket)
    (handled : Handled env s line after) (installed : s.toHandlers = appHandlers)
    (phase : s.phase = g.phase) (reflects : Reflects lower socketId g app) :
    Reflects lower socketId (g.next lower line) (appRun lower app after.events) := by
  -- the application does not see lines, only calls
  have noted : ∀ log, appRun lower app (.line line :: log) = appRun lower app log := by
    intro log
    cases app <;> rfl
  cases handled with
  | ended completion _ mail last =>
    have closes : Phase.closes g.phase line = true := by
      simp [← phase, Session.phase, mail, Phase.closes, last]
    rw [noted, dataCallback_app s installed, appRun_append,
      appRun_idle lower _ [_] (by simp [Event.runs])]
    exact reflects_close lower socketId line [] g app reflects closes
  | overrun mail other large =>
    have closes : Phase.closes g.phase line = true := by
      simp [← phase, Session.phase, mail, Phase.closes, large]
    rw [noted, dataCallback_app s installed, appRun_append,
      appRun_idle lower _ [_] (by simp [Event.runs])]
    exact reflects_close lower socketId line line g app reflects closes
  | mail mail other small =>
    have inMail : g.phase = .mail s.emailSize := by simp [← phase, Session.phase, mail]
    have stays : Phase.closes g.phase line = false := by
      simp [inMail, Phase.closes, other, small]
    rw [noted, dataCallback_app s installed]
    exact reflects_data lower socketId line g app reflects (by simp [inMail]) stays
      (by simp [inMail, Phase.next, other])
  | wordless command missing =>
    have atCommand : g.phase = .command := phase ▸ (phase_command_iff s).mpr command
    rw [noted]
    exact reflects_other lower socketId line g app reflects atCommand (by simp [missing])
      (by simp [missing])
  | command c result command present _ answered =>
    have atCommand : g.phase = .command := phase ▸ (phase_command_iff s).mpr command
    rw [noted, appRun_append, appRun_idle lower _ result.2 (answered_idle answered),
      smtpCallback_app s installed]
    -- MAIL and RCPT are the two calls of the mask
    by_cases mail : c = .mail
    · subst mail
      exact reflects_from lower socketId line _ g app reflects atCommand present
    · by_cases rcpt : c = .rcpt
      · subst rcpt
        exact reflects_rcpt lower socketId line g app reflects atCommand present
      · rw [if_neg (by simp [mail, rcpt])]
        exact reflects_other lower socketId line g app reflects atCommand (by simp [present, mail])
          (by simp [present, rcpt])

end Spamass.App
