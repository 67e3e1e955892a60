import Spamass.App.Recipients

/-!
# Mail transactions

The library decides where a transaction begins, the application keeps what it names.
Over every run of a connection the mails are stored under what was named since the
latest boundary, exactly if none is closed behind a RSET, or with two recipients.
-/
namespace Spamass.App

open Spamass.Framing Spamass.Emailz Spamass.Runs

/-! ### The open transaction -/

/-- What the client was told to be accepted since the latest boundary: an acknowledged MAIL
or RSET, or the end of a mail. -/
structure Transaction where
  -- the line that is being answered
  line : Bytes
  sender : Option Bytes
  recipients : List Bytes
  deriving DecidableEq, Repr

def Transaction.none : Transaction := ⟨[], .none, []⟩

/-- The sender a MAIL line names, as the application reads it; nil is the empty string. -/
def senderOf (line : Bytes) : Bytes :=
  ((stringWithUtf8 (argument line)).bind fun arg =>
    (addresses (behind (ascii "FROM:") arg)).head?).getD []

def Transaction.acknowledged (t : Transaction) : Command → Transaction
  | .mail => { t with sender := some (senderOf t.line), recipients := [] }
  | .rcpt => { t with recipients := t.recipients ++ recipientsOf t.line }
  | .rset => { t with sender := .none, recipients := [] }
  | _ => t

/-- Both replies are a 250. -/
def Transaction.next (t : Transaction) : Event → Transaction
  | .line line => { t with line := line }
  | .reply .ok _ => t.acknowledged ((lineCommand t.line).getD .none)
  | .reply .recipientOk _ => t.acknowledged ((lineCommand t.line).getD .none)
  | .data _ true => { t with sender := .none, recipients := [] }
  | _ => t

/-- The application, and the transaction that is open. -/
structure Watched where
  app : Option SMSocket
  transaction : Transaction
  deriving DecidableEq, Repr

def Watched.start (socketId : Bytes) : Watched := ⟨some (SMSocket.init socketId), .none⟩

def Watched.step (lower : Bytes → Bytes) (w : Watched) (event : Event) : Watched :=
  ⟨(appStep lower w.app event).1, w.transaction.next event⟩

/-- The mail an event stores: one with a first recipient. -/
def storedBy (app : Option SMSocket) (event : Event) : Option SMEmail :=
  match app, event with
  | some socket, .data _ true => socket.email.filter fun email => !email.recipients.isEmpty
  | _, _ => .none

/-- The recipients a mail is stored under. -/
def storedUnder (email : SMEmail) : List Bytes := email.recipients.take 1

/-- A mail is stored under the sender and the recipients of the open transaction. -/
def StoresGiven (w : Watched) (event : Event) : Prop :=
  ∀ email, storedBy w.app event = some email →
    w.transaction.sender = some (email.sender.getD []) ∧
      ∀ recipient, recipient ∈ storedUnder email ↔ recipient ∈ w.transaction.recipients

private theorem storedBy_iff (app : Option SMSocket) (event : Event) (email : SMEmail) :
    storedBy app event = some email ↔ ∃ socket payload first rest, app = some socket ∧
      event = .data payload true ∧ socket.email = some email ∧
        email.recipients = first :: rest := by
  constructor
  · intro stored
    unfold storedBy at stored
    split at stored
    next socket payload =>
      obtain ⟨object, present⟩ := Option.filter_eq_some_iff.mp stored
      cases recipients : email.recipients with
      | nil => simp [recipients] at present
      | cons first rest => exact ⟨socket, payload, first, rest, rfl, rfl, object, rfl⟩
    · cases stored
  · rintro ⟨socket, payload, first, rest, rfl, rfl, object, recipients⟩
    simp [storedBy, object, Option.filter, recipients]

/-- The entries of a stored mail are those of its sender and its first recipient. -/
theorem storedBy_writes (lower : Bytes → Bytes) (app : Option SMSocket) (event : Event)
    (email : SMEmail) (stored : storedBy app event = some email) :
    ∃ first, storedUnder email = [first] ∧
      (appStep lower app event).2 = storeEmail email first
        (first ++ separator ++ email.socketId ++ separator ++ email.serial ++ separator) := by
  obtain ⟨socket, payload, first, rest, rfl, rfl, object, recipients⟩ :=
    (storedBy_iff _ _ _).mp stored
  refine ⟨first, by simp [storedUnder, recipients], ?_⟩
  simp [appStep, appCall, handleEmail, object, recipients, SMEmail.dbprefix]

/-- Where no mail is stored there are entries under the empty key at most. -/
theorem storedBy_none (lower : Bytes → Bytes) (app : Option SMSocket) (event : Event)
    (missing : storedBy app event = .none) :
    ∀ write ∈ (appStep lower app event).2, ∃ value, write = .put [] value := by
  cases app with
  | none => simp [appStep]
  | some socket =>
    cases event with
    | smtp c arg => cases c <;> simp [appStep, appCall]
    | data payload done =>
      cases done with
      | false => simp [appStep, appCall]
      | true =>
        cases object : socket.email with
        | none => simp [appStep, appCall, handleEmail, object]
        | some email =>
          cases recipients : email.recipients with
          | nil => simp [appStep, appCall, handleEmail, object, recipients]
          | cons first rest =>
            have stored := (storedBy_iff (some socket) (.data payload true) email).mpr
              ⟨socket, payload, first, rest, rfl, rfl, object, recipients⟩
            rw [missing] at stored
            cases stored
    | _ => simp [appStep, appCall]

/-! ### The dealing -/

/-- The ledger, and whether a RSET has been sent since the latest MAIL. -/
structure Dealing extends Ledger where
  reset : Bool
  deriving DecidableEq, Repr

def Dealing.start : Dealing := ⟨.start, false⟩

def Dealing.next (lower : Bytes → Bytes) (d : Dealing) (line : Bytes) : Dealing :=
  ⟨d.toLedger.next lower line,
    if d.phase = .command then
      match lineCommand line with
      | some .mail => false
      | some .rset => true
      | _ => d.reset
    else d.reset⟩

/-- No mail is closed behind a RSET, or with two recipients, unless nothing is stored: an
exception came before, or no mail is open. -/
def Dealing.Proper (d : Dealing) (line : Bytes) : Prop :=
  Phase.closes d.phase line = true → d.raised = true ∨ ∀ first rest,
    d.envelope = some (first :: rest) → d.reset = false ∧ ∀ recipient ∈ rest, recipient = first

/-- The mail of the application against the open transaction. -/
def Tracks (d : Dealing) (w : Watched) : Prop :=
  ∀ socket email, w.app = some socket → socket.email = some email →
    if d.reset then w.transaction.sender = .none
    else w.transaction.sender = some (email.sender.getD []) ∧
      w.transaction.recipients = email.recipients

private theorem tracks_start (socketId : Bytes) : Tracks .start (.start socketId) := by
  rintro socket email ⟨⟩ ⟨⟩

/-! ### One event -/

private theorem watched_run (lower : Bytes → Bytes) (w : Watched) (log : List Event) :
    run (Watched.step lower) w log =
      ⟨appRun lower w.app log, log.foldl Transaction.next w.transaction⟩ := by
  induction log generalizing w with
  | nil => rfl
  | cons event log ih => exact ih _

private theorem watched_line (lower : Bytes → Bytes) (w : Watched) (line : Bytes) :
    w.step lower (.line line) = ⟨w.app, { w.transaction with line := line }⟩ := by
  rw [Watched.step, appStep_idle lower w.app _ rfl]
  rfl

private theorem watched_silent (lower : Bytes → Bytes) (w : Watched) (event : Event)
    (idle : Event.runs event = false) (silent : ∀ t, Transaction.next t event = t) :
    w.step lower event = w := by
  rw [Watched.step, appStep_idle lower w.app _ idle, silent]

private theorem transaction_asides (t : Transaction) (events : List Event)
    (asides : ∀ e ∈ events, e.aside = true) : events.foldl Transaction.next t = t := by
  induction events with
  | nil => rfl
  | cons e events ih =>
    have aside := asides e (List.mem_cons_self ..)
    have here : t.next e = t := by cases e <;> first | rfl | cases aside
    rw [List.foldl_cons, here]
    exact ih fun later member => asides later (List.mem_cons_of_mem _ member)

/-- The reply acknowledges the command, whatever it says. -/
theorem transaction_reply (t : Transaction) (c : Command) (reply : Reply) (completion : Completion)
    (word : lineCommand t.line = some c) (answers : Answers c reply) :
    t.next (.reply reply completion) = t.acknowledged c := by
  cases answers <;> simp [Transaction.next, word] <;> rfl

private theorem storesGiven_other (w : Watched) (event : Event)
    (other : ∀ payload, event ≠ .data payload true) : StoresGiven w event := by
  intro email stored
  obtain ⟨_, payload, _, _, -, rfl, -⟩ := (storedBy_iff _ _ _).mp stored
  exact absurd rfl (other payload)

/-- What is stored at the end of a mail, as the client has dealt it. -/
theorem storesGiven_iff {lower : Bytes → Bytes} {socketId : Bytes} {d : Dealing} {w : Watched}
    (payload : Bytes) (reflects : Reflects lower socketId d.toLedger w.app) (tracks : Tracks d w) :
    StoresGiven w (.data payload true) ↔ d.raised = true ∨ ∀ first rest,
      d.envelope = some (first :: rest) →
        d.reset = false ∧ ∀ recipient ∈ rest, recipient = first := by
  unfold StoresGiven
  cases app : w.app with
  | none =>
    rw [app] at reflects
    exact iff_of_true (by rintro _ ⟨⟩) (Or.inl reflects.none_raised)
  | some socket =>
    rw [app] at reflects
    have alive := reflects.some_raised
    obtain ⟨-, -, holds⟩ := reflects.alive socket rfl
    rcases holds.inv with ⟨list, missing⟩ | ⟨recipients, object, list, present, holds⟩
    · refine iff_of_true ?_ (Or.inr (by simp [list]))
      intro email stored
      obtain ⟨_, _, _, _, same, -, here, -⟩ := (storedBy_iff _ _ _).mp stored
      obtain rfl := Option.some.inj same
      rw [missing] at here
      cases here
    · have kept := tracks socket object app present
      cases named : recipients with
      | nil =>
        refine iff_of_true ?_ (Or.inr (by simp [list, named]))
        intro email stored
        obtain ⟨_, _, first, rest, same, -, here, filled⟩ := (storedBy_iff _ _ _).mp stored
        obtain rfl := Option.some.inj same
        rw [present] at here
        obtain rfl := Option.some.inj here
        rw [holds.recipients, named] at filled
        cases filled
      | cons first rest =>
        have stored : storedBy (some socket) (.data payload true) = some object :=
          (storedBy_iff _ _ _).mpr
            ⟨socket, payload, first, rest, rfl, rfl, present, by rw [holds.recipients, named]⟩
        have under : storedUnder object = [first] := by
          rw [storedUnder, holds.recipients, named]
          rfl
        rw [alive, list, named]
        cases reset : d.reset with
        | true =>
          rw [reset, if_pos rfl] at kept
          simp [stored, kept]
        | false =>
          rw [reset, if_neg Bool.false_ne_true, holds.recipients, named] at kept
          simp [stored, kept, under]

/-! ### One line -/

/-- Behind the end of a mail there is nothing to track. -/
theorem tracks_closed (lower : Bytes → Bytes) (d : Dealing) (w : Watched) (payload : Bytes) :
    Tracks d (w.step lower (.data payload true)) := by
  intro socket email alive open_
  obtain ⟨before, -, alive⟩ := appStep_alive alive
  simp only [appCall, handleEmail] at alive
  split at alive
  · obtain rfl := Option.some.inj alive
    cases open_
  · split at alive
    · obtain rfl := Option.some.inj alive
      cases open_
    · cases alive

/-- A line of the mail changes neither its sender nor its recipients. -/
private theorem tracks_data {lower : Bytes → Bytes} {d : Dealing} {w : Watched} (line : Bytes)
    (tracks : Tracks d w) : Tracks d (w.step lower (.data line false)) := by
  intro socket email alive open_
  obtain ⟨before, app, alive⟩ := appStep_alive alive
  simp only [appCall, handleData] at alive
  split at alive
  next missing =>
    obtain rfl := Option.some.inj alive
    rw [missing] at open_
    cases open_
  next object here =>
    obtain ⟨h, -, rfl⟩ := Option.map_eq_some_iff.mp alive
    obtain rfl := Option.some.inj open_
    exact tracks before object app here

/-- A command, with the call it makes and the reply it gets. -/
private theorem tracks_command {lower : Bytes → Bytes} {d : Dealing} {w : Watched} (line : Bytes)
    (c : Command) (reply : Reply) (completion : Completion) (command : d.phase = .command)
    (word : lineCommand line = some c) (answers : Answers c reply) (tracks : Tracks d w) :
    Tracks (d.next lower line)
      ⟨appRun lower w.app (if c = .mail ∨ c = .rcpt then [.smtp c (argument line)] else []),
        { w.transaction with line := line }.next (.reply reply completion)⟩ := by
  rw [transaction_reply _ c reply completion word answers]
  intro socket email alive open_
  have reset : (d.next lower line).reset = match some c with
      | some .mail => false
      | some .rset => true
      | _ => d.reset := by
    simp [Dealing.next, command, word]
  rw [reset]
  cases app : w.app with
  | none =>
    have ended : appRun lower none
        (if c = .mail ∨ c = .rcpt then [.smtp c (argument line)] else []) = none := by
      split <;> rfl
    rw [app] at alive
    rw [ended] at alive
    cases alive
  | some before =>
    rw [app] at alive
    -- MAIL begins anew, RCPT adds to both sides, RSET is seen by the client alone
    cases c with
    | mail =>
      obtain rfl : handleFrom (stringWithUtf8 (argument line)) before = socket :=
        Option.some.inj alive
      obtain rfl := Option.some.inj open_
      exact ⟨rfl, rfl⟩
    | rcpt =>
      obtain rfl : handleRcpt (stringWithUtf8 (argument line)) before = socket :=
        Option.some.inj alive
      obtain ⟨object, here, rfl⟩ := Option.map_eq_some_iff.mp open_
      have kept := tracks before object app here
      cases cleared : d.reset with
      | true =>
        rw [cleared, if_pos rfl] at kept
        exact kept
      | false =>
        rw [cleared, if_neg Bool.false_ne_true] at kept
        exact ⟨kept.1, by simp [Transaction.acknowledged, kept.2, recipientsOf]⟩
    | rset => rfl
    | _ =>
      obtain rfl : before = socket := Option.some.inj alive
      exact tracks before email app open_

private theorem tracks_handled {env : Env} {s : Session} {line : Bytes} {after : Step Session Event}
    (lower : Bytes → Bytes) (d : Dealing) (w : Watched) (handled : Handled env s line after)
    (installed : s.toHandlers = appHandlers) (phase : s.phase = d.phase) (tracks : Tracks d w) :
    Tracks (d.next lower line) (run (Watched.step lower) w after.events) := by
  -- on the lines of a mail the dealing goes on as it was
  have inMail : ∀ w, d.phase ≠ .command → Tracks d w → Tracks (d.next lower line) w := by
    intro w mail tracks socket email alive open_
    have same : (d.next lower line).reset = d.reset := by simp [Dealing.next, mail]
    rw [same]
    exact tracks socket email alive open_
  have noted : Tracks d (w.step lower (.line line)) := by
    rw [watched_line]
    exact tracks
  cases handled with
  | ended completion _ mail _ =>
    have other : d.phase ≠ .command := by simp [← phase, Session.phase, mail]
    rw [dataCallback_app s installed]
    simp only [run, List.foldl_cons, List.foldl_nil, List.cons_append, List.nil_append]
    rw [watched_silent lower _ (.reply .accepted completion) rfl fun _ => rfl]
    exact inMail _ other (tracks_closed lower d _ [])
  | overrun mail _ _ =>
    have other : d.phase ≠ .command := by simp [← phase, Session.phase, mail]
    rw [dataCallback_app s installed]
    simp only [run, List.foldl_cons, List.foldl_nil, List.cons_append, List.nil_append]
    rw [watched_silent lower _ .stop rfl fun _ => rfl]
    exact inMail _ other (tracks_closed lower d _ line)
  | mail mail _ _ =>
    have other : d.phase ≠ .command := by simp [← phase, Session.phase, mail]
    rw [dataCallback_app s installed]
    exact inMail _ other (tracks_data line noted)
  | wordless command missing =>
    have same : (d.next lower line).reset = d.reset := by
      simp [Dealing.next, ← phase, Session.phase, command, missing]
    intro socket email alive open_
    rw [same]
    exact noted socket email alive open_
  | command c result command present _ answered =>
    have idle := answered_idle answered
    obtain ⟨before, reply, completion, later, _, _, rfl, answers, -, asides⟩ := answered
    have early := fun t => transaction_asides t before fun e member =>
      asides e (List.mem_append_left _ member)
    have late := fun t => transaction_asides t later fun e member =>
      asides e (List.mem_append_right _ member)
    have called : ∀ t : Transaction, List.foldl Transaction.next t
        (if c = .mail ∨ c = .rcpt then [.smtp c (argument line)] else []) = t := by
      intro t
      split <;> rfl
    have here : d.phase = .command := phase ▸ (phase_command_iff s).mpr command
    rw [run, List.foldl_cons, watched_line, ← run, watched_run, smtpCallback_app s installed,
      appRun_append, appRun_idle lower _ _ idle, List.foldl_append, called, List.foldl_append,
      early, List.foldl_cons, late]
    exact tracks_command line c reply completion here present answers tracks

theorem storesGiven_handled {env : Env} {s : Session} {line : Bytes} {after : Step Session Event}
    (lower : Bytes → Bytes) (socketId : Bytes) (d : Dealing) (w : Watched)
    (handled : Handled env s line after) (installed : s.toHandlers = appHandlers)
    (phase : s.phase = d.phase) (reflects : Reflects lower socketId d.toLedger w.app)
    (tracks : Tracks d w) :
    Each (Watched.step lower) StoresGiven w after.events ↔ d.Proper line := by
  rcases handled_closes handled installed with
    ⟨closes, payload, event, events, other⟩ | ⟨stays, others⟩
  · -- the mail is stored right behind the line, and nothing behind it stores again
    rw [phase] at closes
    have idle := storesGiven_other w (.line line) (by simp)
    have last := storesGiven_other ((w.step lower (.line line)).step lower (.data payload true))
      event other
    have stored := storesGiven_iff (w := w.step lower (.line line)) payload
      (by rw [watched_line]; exact reflects) (by rw [watched_line]; exact tracks)
    rw [events]
    simp [Each, idle, last, stored, Dealing.Proper, closes]
  · rw [phase] at stays
    refine iff_of_true (each_always _ _ ?_ w) (by simp [Dealing.Proper, stays])
    intro event member w
    apply storesGiven_other w event
    rintro payload rfl
    exact others payload member

/-! ### Every run -/

private theorem storesGiven_talk {env : Env} {phase after : Phase} {log : List Event}
    (talk : Talk env appHandlers phase log after) (lower : Bytes → Bytes) (socketId : Bytes)
    (d : Dealing) (w : Watched) (phase_ : phase = d.phase)
    (reflects : Reflects lower socketId d.toLedger w.app) (tracks : Tracks d w) :
    Each (Watched.step lower) StoresGiven w log ↔
      Each (Dealing.next lower) Dealing.Proper d (linesOf log) := by
  induction talk generalizing d w with
  | silence => exact iff_of_true trivial trivial
  | stop _ ih =>
    rw [Each, watched_silent lower w .stop rfl fun _ => rfl, ih d w phase_ reflects tracks]
    exact ⟨And.right, fun rest => ⟨storesGiven_other w .stop (by simp), rest⟩⟩
  | line s line installed _ ih =>
    have handled := handleLine_handled env s line
    have next := reflects_handled lower socketId d.toLedger w.app handled installed phase_ reflects
    have kept := tracks_handled lower d w handled installed phase_ tracks
    have here := storesGiven_handled lower socketId d w handled installed phase_ reflects tracks
    have app : (run (Watched.step lower) w (handleLine env s line).events).app =
        appRun lower w.app (handleLine env s line).events := by rw [watched_run]
    rw [each_append, here, linesOf_append, handled.lines,
      ih (d.next lower line) _ (by rw [phase_]; rfl) (by rw [app]; exact next) kept]
    rfl

/-- A client that takes its mail back with RSET and sends DATA all the same. -/
def withdrawn : List Event :=
  appLog Env.granted 3 0 false
    [plainRead (ascii "MAIL FROM:<a@b>\r\nRCPT TO:<c@d>\r\nRSET\r\nDATA\r\n.\r\n")]

end Spamass.App
