import Spamass.App.Ledger

/-!
# The recipients of an indexed mail

`handleEmailWithSocket:` takes the first recipient without asking whether there is
one. Over every run of a connection it finds one whenever it is called, exactly if
no mail is closed between a MAIL and the first RCPT that names an address.
-/
namespace Spamass.App

open Spamass.Framing Spamass.Emailz Spamass.Runs

/-- Wherever `handleEmailWithSocket:` is called with a mail, the mail has a recipient. -/
def IndexesRecipients (lower : Bytes → Bytes) (app : Option SMSocket) (log : List Event) : Prop :=
  ∀ before payload later socket email, log = before ++ .data payload true :: later →
    appRun lower app before = some socket → socket.email = some email → email.recipients ≠ []

/-- No mail is closed with an empty list of recipients, unless an exception came before. -/
def Ledger.Peopled (g : Ledger) (line : Bytes) : Prop :=
  Phase.closes g.phase line = true → g.raised = true ∨ g.envelope ≠ some []

instance (g : Ledger) (line : Bytes) : Decidable (g.Peopled line) :=
  inferInstanceAs (Decidable (_ → _))

/-- The objects a call at this event would find. -/
def FindsRecipient (app : Option SMSocket) (event : Event) : Prop :=
  ∀ payload socket email, event = .data payload true → app = some socket →
    socket.email = some email → email.recipients ≠ []

theorem indexesRecipients_cons (lower : Bytes → Bytes) (app : Option SMSocket) (event : Event)
    (log : List Event) :
    IndexesRecipients lower app (event :: log) ↔
      FindsRecipient app event ∧ IndexesRecipients lower (appStep lower app event).1 log := by
  constructor
  · intro indexes
    constructor
    · intro payload socket email done alive open_
      subst done
      exact indexes [] payload log socket email rfl alive open_
    · intro before payload later socket email split alive open_
      subst split
      exact indexes (event :: before) payload later socket email rfl alive open_
  · rintro ⟨here, there⟩ before payload later socket email split alive open_
    cases before with
    | nil =>
      obtain ⟨rfl, rfl⟩ := List.cons.inj split
      exact here payload socket email rfl alive open_
    | cons first before =>
      obtain ⟨rfl, rfl⟩ := List.cons.inj split
      exact there before payload later socket email rfl alive open_

private theorem indexesRecipients_nil (lower : Bytes → Bytes) (app : Option SMSocket) :
    IndexesRecipients lower app [] := by
  intro before payload later socket email split
  simp at split

private theorem indexesRecipients_append (lower : Bytes → Bytes) (app : Option SMSocket)
    (xs ys : List Event) :
    IndexesRecipients lower app (xs ++ ys) ↔
      IndexesRecipients lower app xs ∧ IndexesRecipients lower (appRun lower app xs) ys := by
  induction xs generalizing app with
  | nil => exact ⟨fun indexes => ⟨indexesRecipients_nil lower app, indexes⟩, And.right⟩
  | cons event xs ih =>
    rw [List.cons_append, indexesRecipients_cons, indexesRecipients_cons, ih, and_assoc]
    rfl

/-- Events other than the end of a mail call for nothing. -/
theorem indexesRecipients_other (lower : Bytes → Bytes) (app : Option SMSocket) (log : List Event)
    (other : ∀ payload, Event.data payload true ∉ log) : IndexesRecipients lower app log := by
  intro before payload later socket email split
  rw [split] at other
  exact absurd (List.mem_append_right _ (List.mem_cons_self ..)) (other payload)

/-- What the call at the end of a mail finds is what the ledger has on the envelope. -/
private theorem findsRecipient_iff {lower : Bytes → Bytes} {socketId : Bytes} {g : Ledger}
    {app : Option SMSocket} (payload : Bytes) (reflects : Reflects lower socketId g app) :
    FindsRecipient app (.data payload true) ↔ g.raised = true ∨ g.envelope ≠ some [] := by
  cases app with
  | none =>
    refine iff_of_true ?_ (Or.inl reflects.none_raised)
    rintro _ _ _ _ ⟨⟩
  | some socket =>
    have alive := reflects.some_raised
    obtain ⟨-, -, holds⟩ := reflects.alive socket rfl
    -- without a mail in hand there is nobody to find, and nothing raises
    rcases holds.inv with ⟨list, email⟩ | ⟨recipients, object, list, email, holds⟩
    · refine iff_of_true ?_ (Or.inr (by simp [list]))
      rintro _ _ object _ ⟨⟩ open_
      rw [email] at open_
      cases open_
    · rw [list, alive]
      constructor
      · intro finds
        have nonempty := finds payload socket object rfl rfl email
        rw [holds.recipients] at nonempty
        exact Or.inr fun empty => nonempty (Option.some.inj empty)
      · rintro (raised | nonempty) payload' _ object' _ ⟨⟩ open_
        · cases raised
        · rw [email] at open_
          obtain rfl := Option.some.inj open_
          rw [holds.recipients]
          exact fun empty => nonempty (congrArg some empty)

/-- The call that ends a mail comes right behind the line that closes it, and behind no other. -/
theorem handled_closes {env : Env} {s : Session} {line : Bytes} {after : Step Session Event}
    (handled : Handled env s line after) (installed : s.toHandlers = appHandlers) :
    (Phase.closes s.phase line = true ∧ ∃ payload event,
      after.events = [.line line, .data payload true, event] ∧
        ∀ payload, event ≠ .data payload true) ∨
    (Phase.closes s.phase line = false ∧ ∀ payload, .data payload true ∉ after.events) := by
  cases handled with
  | ended completion _ mail last =>
    left
    refine ⟨by simp [Session.phase, mail, Phase.closes, last], [], .reply .accepted completion, ?_⟩
    simp [dataCallback_app s installed]
  | overrun mail other large =>
    left
    refine ⟨by simp [Session.phase, mail, Phase.closes, large], line, .stop, ?_⟩
    simp [dataCallback_app s installed]
  | mail mail other small =>
    right
    refine ⟨by simp [Session.phase, mail, Phase.closes, other, small], ?_⟩
    simp [dataCallback_app s installed]
  | wordless command missing =>
    right
    exact ⟨by simp [Session.phase, command, Phase.closes], by simp⟩
  | command c result command present _ answered =>
    right
    refine ⟨by simp [Session.phase, command, Phase.closes], ?_⟩
    intro payload member
    rw [smtpCallback_app s installed] at member
    rcases List.mem_cons.mp member with impossible | member
    · cases impossible
    · rcases List.mem_append.mp member with smtp | answer
      · split at smtp <;> simp at smtp
      · exact absurd (answered_idle answered _ answer) (by simp [Event.runs])

/-- One line of a talk. -/
private theorem indexesRecipients_handled {env : Env} {s : Session} {line : Bytes}
    {after : Step Session Event} (lower : Bytes → Bytes) (socketId : Bytes) (g : Ledger)
    (app : Option SMSocket) (handled : Handled env s line after)
    (installed : s.toHandlers = appHandlers) (phase : s.phase = g.phase)
    (reflects : Reflects lower socketId g app) :
    IndexesRecipients lower app after.events ↔ g.Peopled line := by
  rcases handled_closes handled installed with
    ⟨closes, payload, event, events, other⟩ | ⟨stays, others⟩
  · -- nothing behind the call that ends the mail ends one again
    rw [phase] at closes
    have noted : (appStep lower app (.line line)).1 = app := by cases app <;> rfl
    have idle : FindsRecipient app (.line line) := by rintro _ _ _ ⟨⟩
    have rest := indexesRecipients_other lower (appStep lower app (.data payload true)).1 [event]
      fun payload member => other payload (List.mem_singleton.mp member).symm
    rw [events, indexesRecipients_cons, noted, indexesRecipients_cons,
      findsRecipient_iff payload reflects]
    simp [idle, rest, Ledger.Peopled, closes]
  · rw [phase] at stays
    refine iff_of_true (indexesRecipients_other lower app after.events others) ?_
    simp [Ledger.Peopled, stays]

private theorem indexesRecipients_talk {env : Env} {phase after : Phase} {log : List Event}
    (talk : Talk env appHandlers phase log after) (lower : Bytes → Bytes) (socketId : Bytes)
    (g : Ledger) (app : Option SMSocket) (phase_ : phase = g.phase)
    (reflects : Reflects lower socketId g app) :
    IndexesRecipients lower app log ↔ Each (Ledger.next lower) Ledger.Peopled g (linesOf log) := by
  induction talk generalizing g app with
  | silence => exact iff_of_true (indexesRecipients_nil lower app) trivial
  | stop _ ih =>
    have idle : FindsRecipient app .stop := by rintro _ _ _ ⟨⟩
    have stays : (appStep lower app .stop).1 = app := by cases app <;> rfl
    rw [indexesRecipients_cons, stays, ih g app phase_ reflects]
    exact ⟨And.right, fun rest => ⟨idle, rest⟩⟩
  | line s line installed _ ih =>
    have handled := handleLine_handled env s line
    have next := reflects_handled lower socketId g app handled installed phase_ reflects
    have here := indexesRecipients_handled lower socketId g app handled installed phase_ reflects
    rw [indexesRecipients_append, here, linesOf_append, handled.lines,
      ih (g.next lower line) _ (by rw [phase_, g.next_phase lower]) next]
    rfl

/-! ### Every run -/

/-- The log of a connection on which the OPEN block has installed the application's handlers. -/
def appLog (env : Env) (socketfd : Int) (now : UInt64) (record : Bool) (reads : List Arrival) :
    List Event :=
  (handleOpenReads env (Socket.started socketfd now record appHandlers) reads).2

theorem appLog_talk (env : Env) (socketfd : Int) (now : UInt64) (record : Bool)
    (reads : List Arrival) :
    ∃ after, Talk env appHandlers .command (appLog env socketfd now record reads) after :=
  ⟨_, (handleOpenReads_talks env (Socket.started socketfd now record appHandlers) reads).2⟩

/-- Every call of `handleEmailWithSocket:` with a mail finds a recipient exactly if no line of
the client closes a mail for which no recipient was named. -/
theorem indexesRecipients_iff_peopled (env : Env) (lower : Bytes → Bytes) (socketId : Bytes)
    (socketfd : Int) (now : UInt64) (record : Bool) (reads : List Arrival) :
    IndexesRecipients lower (some (SMSocket.init socketId))
        (appLog env socketfd now record reads) ↔
      Each (Ledger.next lower) Ledger.Peopled .start
        (linesOf (appLog env socketfd now record reads)) := by
  obtain ⟨after, talk⟩ := appLog_talk env socketfd now record reads
  exact indexesRecipients_talk talk lower socketId .start _ rfl (reflects_start lower socketId)

/-- A client that sends MAIL and DATA, but no RCPT. -/
def unaddressed : List Event :=
  appLog Env.granted 3 0 false [plainRead (ascii "MAIL FROM:<a@b>\r\nDATA\r\n.\r\n")]

theorem unaddressed_raises :
    ¬ IndexesRecipients id (some (SMSocket.init [])) unaddressed := by
  intro indexes
  have split : unaddressed = unaddressed.take 6 ++ .data [] true :: unaddressed.drop 7 := by decide
  have alive : appRun id (some (SMSocket.init [])) (unaddressed.take 6) =
      some ⟨[], some (SMEmail.init [] (decimal6 1) (some (ascii "a@b"))), 1⟩ := by decide
  exact indexes _ _ _ _ _ split alive rfl rfl

end Spamass.App
