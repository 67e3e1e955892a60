import Spamass.Emailz.HandleRead

/-!
# The dialogue behind the line loop

An abstract account of a session: a line is read either as a command or as mail
data of a known size, and each line fixes how the next one is read. The line
handler follows it, so a claim about a run can be stated on the lines alone.
-/
namespace Spamass.Emailz

open Spamass.Framing

inductive Phase where
  | command
  | mail (size : Nat)
  deriving DecidableEq, Repr

def Phase.next : Phase → Bytes → Phase
  | .command, line => if lineCommand line = some .data then .mail 0 else .command
  | .mail size, line => if line = endOfMail then .command else .mail (size + line.length)

def Phase.after (phase : Phase) (lines : List Bytes) : Phase := lines.foldl Phase.next phase

def Session.phase (s : Session) : Phase := if s.state = .data then .mail s.emailSize else .command

/-- The lines that are read as commands. -/
def commandLines : Phase → List Bytes → List Bytes
  | _, [] => []
  | .command, line :: lines => line :: commandLines (Phase.next .command line) lines
  | .mail size, line :: lines => commandLines (Phase.next (.mail size) line) lines

/-- A line at which the loop breaks off: a command line without a command word, or a mail
line that takes the mail over the limit. -/
def Phase.breaksOff : Phase → Bytes → Bool
  | .command, line => (lineCommand line).isNone
  | .mail size, line => line != endOfMail && decide (maxIndataSize < size + line.length)

def Phase.quits : Phase → Bytes → Bool
  | .command, line => lineCommand line == some .quit
  | .mail _, _ => false

/-- The reply to QUIT. -/
def Event.closes : Event → Bool
  | .reply .closing _ => true
  | _ => false

theorem commandLines_append (phase : Phase) (xs ys : List Bytes) :
    commandLines phase (xs ++ ys) = commandLines phase xs ++ commandLines (phase.after xs) ys := by
  induction xs generalizing phase with
  | nil => rfl
  | cons line lines ih => cases phase <;> simp [commandLines, ih, Phase.after]

/-- The reply a command is answered with. -/
inductive Answers : Command → Reply → Prop
  | helo : Answers .helo .helo
  | ehlo : Answers .ehlo .ehlo
  | ehloSecure : Answers .ehlo .ehloSecure
  | mail : Answers .mail .ok
  | rcpt : Answers .rcpt .recipientOk
  | data : Answers .data .enterMail
  | quit : Answers .quit .closing
  | rset : Answers .rset .ok
  | noop : Answers .noop .ok
  | help : Answers .help .help
  | vrfy : Answers .vrfy .vrfy
  | authenticated : Answers .auth .authenticated
  | authFailed : Answers .auth .authFailed
  | authUnsupported : Answers .auth .unsupported
  | readyTls : Answers .starttls .readyTls
  | starttlsUnsupported : Answers .starttls .unsupported
  | unsupported : Answers .none .unsupported

theorem Answers.closing_iff {command : Command} {reply : Reply} (answers : Answers command reply) :
    reply = .closing ↔ command = .quit := by
  cases answers <;> simp

/-! ### What a line does to the session -/

/-- A write logs its reply, and changes the counters at most. -/
theorem socketHandleWrite_spec (s : Session) (reply : Reply) (h : Option Completion) :
    ∃ completion sent, socketHandleWrite s reply h =
      ({ s with outbytes := s.outbytes + sent, bytesSent := s.bytesSent + sent },
        [.reply reply completion]) := by
  unfold socketHandleWrite
  split
  · exact ⟨_, 0, rfl⟩
  · exact ⟨_, reply.text.length, rfl⟩

/-- Setting up TLS touches the crypto fields only. -/
theorem socketSetupSsl_spec (answers : Nat → SetupAnswers) (s : Session) :
    ∃ crypto after, socketSetupSsl answers s = ({ s with toCrypto := crypto }, after) ∧
      (after = [] ∨ after = [.newContext s.setups]) := by
  unfold socketSetupSsl
  dsimp only
  split
  · exact ⟨_, _, rfl, Or.inl rfl⟩
  · split_ifs <;> exact ⟨_, _, rfl, Or.inr rfl⟩

/-- Events that come with a reply: the call of the auth handler before it, the new
context behind it. -/
def Event.aside : Event → Bool
  | .auth _ _ => true
  | .newContext _ => true
  | _ => false

/-- The outcome of answering a command: exactly one reply, and of the session only the
counters, the mail size after DATA and the crypto fields after STARTTLS change. -/
def Answered (s : Session) (command : Command) (result : Session × List Event) : Prop :=
  ∃ before reply completion after crypto sent,
    result =
      ({ s with
          toCrypto := crypto
          emailSize := if command = .data then 0 else s.emailSize
          outbytes := s.outbytes + sent
          bytesSent := s.bytesSent + sent },
        before ++ .reply reply completion :: after) ∧
    Answers command reply ∧ (command ≠ .starttls → crypto = s.toCrypto ∧ after = []) ∧
    ∀ e ∈ before ++ after, e.aside = true

theorem answered_write (s : Session) (command : Command) (reply : Reply) (h : Option Completion)
    (answers : Answers command reply) (other : command ≠ .data) :
    Answered s command (socketHandleWrite s reply h) := by
  obtain ⟨completion, sent, written⟩ := socketHandleWrite_spec s reply h
  refine ⟨[], reply, completion, [], s.toCrypto, sent, ?_, answers, fun _ => ⟨rfl, rfl⟩, by simp⟩
  rw [written, if_neg other]
  rfl

private theorem handleAuth_answered (env : Env) (s : Session) (line : Bytes) :
    Answered s .auth (handleAuth env s line) := by
  unfold handleAuth
  split
  · split
    · exact answered_write s _ _ _ .authFailed (by decide)
    next username password _ =>
      split
      next handler _ _ =>
        -- the verdict of the auth handler chooses between two replies
        have answers : Answers .auth
            (if handler username password then .authenticated else .authFailed) := by
          split
          · exact .authenticated
          · exact .authFailed
        obtain ⟨completion, sent, written⟩ := socketHandleWrite_spec s
          (if handler username password then .authenticated else .authFailed) none
        refine ⟨[.auth username password], _, completion, [], s.toCrypto, sent, ?_, answers,
          fun _ => ⟨rfl, rfl⟩, by simp [Event.aside]⟩
        rw [written]
        rfl
      · exact answered_write s _ _ _ .authenticated (by decide)
  · exact answered_write s _ _ _ .authUnsupported (by decide)

theorem respond_answered (env : Env) (s : Session) (line : Bytes) (command : Command) :
    Answered s command (respond env s line command) := by
  cases command with
  | helo => exact answered_write s _ _ _ .helo (by decide)
  | ehlo =>
    simp only [respond]
    split
    · exact answered_write s _ _ _ .ehloSecure (by decide)
    · exact answered_write s _ _ _ .ehlo (by decide)
  | mail => exact answered_write s _ _ _ .mail (by decide)
  | rcpt => exact answered_write s _ _ _ .rcpt (by decide)
  -- the size counter is reset before the reply is written
  | data =>
    obtain ⟨completion, sent, written⟩ :=
      socketHandleWrite_spec { s with emailSize := 0 } .enterMail none
    exact ⟨[], _, completion, [], s.toCrypto, sent, written, .data, fun _ => ⟨rfl, rfl⟩, by simp⟩
  | quit => exact answered_write s _ _ _ .quit (by decide)
  | rset => exact answered_write s _ _ _ .rset (by decide)
  | noop => exact answered_write s _ _ _ .noop (by decide)
  | help => exact answered_write s _ _ _ .help (by decide)
  | vrfy => exact answered_write s _ _ _ .vrfy (by decide)
  | none => exact answered_write s _ _ _ .unsupported (by decide)
  | auth => exact handleAuth_answered env s line
  | starttls =>
    simp only [respond]
    split
    · exact answered_write s _ _ _ .starttlsUnsupported (by decide)
    · obtain ⟨completion, sent, written⟩ := socketHandleWrite_spec s .readyTls none
      -- the handshake is set up behind the reply, and may put events of its own there
      obtain ⟨crypto, after, setup, made⟩ := socketSetupSsl_spec env.setup
        (socketHandleWrite s .readyTls none).1
      refine ⟨[], _, completion, after, crypto, sent, ?_, .readyTls, fun no => absurd rfl no, ?_⟩
      · rw [setup, written]
        rfl
      · rcases made with rfl | rfl <;> simp [Event.aside]

/-! ### The line handler follows the dialogue -/

theorem phase_mail_iff (s : Session) (size : Nat) :
    s.phase = .mail size ↔ s.state = .data ∧ s.emailSize = size := by
  unfold Session.phase
  split <;> simp_all

theorem phase_command_iff (s : Session) : s.phase = .command ↔ s.state ≠ .data := by
  unfold Session.phase
  split <;> simp_all

/-- Everything a line can do, by the way it is read. -/
inductive Handled (env : Env) (s : Session) (line : Bytes) : Step Session Event → Prop
  | ended (completion : Completion) (sent : Nat) (mail : s.state = .data) (last : line = endOfMail) :
      Handled env s line
        ⟨{ s with state := .none, outbytes := s.outbytes + sent, bytesSent := s.bytesSent + sent },
          .line line :: (dataCallback s [] true ++ [.reply .accepted completion]), false⟩
  | overrun (mail : s.state = .data) (other : line ≠ endOfMail)
      (large : maxIndataSize < s.emailSize + line.length) :
      Handled env s line
        ⟨{ s with emailSize := s.emailSize + line.length, stop := true, socketfd := 0 },
          .line line :: (dataCallback s line true ++ [.stop]), true⟩
  | mail (mail : s.state = .data) (other : line ≠ endOfMail)
      (small : s.emailSize + line.length ≤ maxIndataSize) :
      Handled env s line
        ⟨{ s with emailSize := s.emailSize + line.length },
          .line line :: dataCallback s line false, false⟩
  | wordless (command : s.state ≠ .data) (missing : lineCommand line = none) :
      Handled env s line ⟨s, [.line line], true⟩
  | command (c : Command) (result : Session × List Event) (command : s.state ≠ .data)
      (present : lineCommand line = some c)
      (responds : respond env { s with state := c } line c = result)
      (answered : Answered { s with state := c } c result) :
      Handled env s line
        ⟨result.1, .line line :: (smtpCallback s c (argument line) ++ result.2), false⟩

theorem handleLine_handled (env : Env) (s : Session) (line : Bytes) :
    Handled env s line (handleLine env s line) := by
  unfold handleLine
  split
  next mail =>
    unfold handleMailLine
    split
    next last =>
      obtain ⟨completion, sent, written⟩ :=
        socketHandleWrite_spec { s with state := .none } .accepted none
      simp only [written]
      exact .ended completion sent mail last
    next other =>
      dsimp only
      split
      next large => exact .overrun mail other large
      next small => exact .mail mail other (Nat.le_of_not_lt small)
  next command =>
    unfold handleCommandLine
    split
    next missing => exact .wordless command missing
    next c present => exact .command c _ command present rfl (respond_answered env _ line c)

theorem Handled.phase {env : Env} {s : Session} {line : Bytes} {after : Step Session Event}
    (handled : Handled env s line after) :
    after.state.phase = s.phase.next line := by
  cases handled with
  | ended _ _ mail last => simp [Session.phase, mail, Phase.next, last]
  | overrun mail other _ => simp [Session.phase, mail, Phase.next, other]
  | mail mail other _ => simp [Session.phase, mail, Phase.next, other]
  | wordless command missing => simp [Session.phase, command, Phase.next, missing]
  | command c result command present _ answered =>
    obtain ⟨_, _, _, _, _, _, rfl, -⟩ := answered
    by_cases data : c = .data <;> simp [Session.phase, command, Phase.next, present, data]

theorem Handled.breaks {env : Env} {s : Session} {line : Bytes} {after : Step Session Event}
    (handled : Handled env s line after) :
    after.breaks = s.phase.breaksOff line := by
  cases handled with
  | ended _ _ mail last => simp [Session.phase, mail, Phase.breaksOff, last]
  | overrun mail other large => simp [Session.phase, mail, Phase.breaksOff, other, large]
  | mail mail other small => simp [Session.phase, mail, Phase.breaksOff, other, small]
  | wordless command missing => simp [Session.phase, command, Phase.breaksOff, missing]
  | command c result command present => simp [Session.phase, command, Phase.breaksOff, present]

private theorem dataCallback_closes (s : Session) (payload : Bytes) (done : Bool) :
    (dataCallback s payload done).any Event.closes = false := by
  unfold dataCallback
  split <;> simp [Event.closes]

theorem smtpCallback_closes (s : Session) (c : Command) (arg : Bytes) :
    (smtpCallback s c arg).any Event.closes = false := by
  unfold smtpCallback
  split <;> simp [Event.closes]

theorem asides_close (events : List Event) (asides : ∀ e ∈ events, e.aside = true) :
    events.any Event.closes = false := by
  rw [List.any_eq_false]
  intro e member
  have aside := asides e member
  cases e <;> simp_all [Event.aside, Event.closes]

theorem Handled.closes {env : Env} {s : Session} {line : Bytes} {after : Step Session Event}
    (handled : Handled env s line after) :
    after.events.any Event.closes = s.phase.quits line := by
  cases handled with
  | ended _ _ mail _ =>
    simp [Session.phase, mail, Phase.quits, dataCallback_closes, Event.closes]
  | overrun mail _ _ => simp [Session.phase, mail, Phase.quits, dataCallback_closes, Event.closes]
  | mail mail _ _ => simp [Session.phase, mail, Phase.quits, dataCallback_closes, Event.closes]
  | wordless command missing => simp [Session.phase, command, Phase.quits, missing, Event.closes]
  | command c result command present _ answered =>
    obtain ⟨before, reply, completion, after, _, _, rfl, answers, -, asides⟩ := answered
    have quiet := asides_close _ asides
    rw [List.any_append, Bool.or_eq_false_iff] at quiet
    have closing : (Event.reply reply completion).closes = (reply == .closing) := by
      cases reply <;> rfl
    have lineQuiet : (Event.line line).closes = false := rfl
    simp only [List.any_cons, List.any_append, lineQuiet, smtpCallback_closes, quiet, closing,
      Bool.false_or, Bool.or_false, Session.phase, command, if_false, Phase.quits, present]
    rw [Bool.eq_iff_iff, beq_iff_eq, beq_iff_eq, Option.some.injEq, answers.closing_iff]

theorem Handled.handlers {env : Env} {s : Session} {line : Bytes} {after : Step Session Event}
    (handled : Handled env s line after) :
    after.state.toHandlers = s.toHandlers := by
  cases handled with
  | command c result command present _ answered =>
    obtain ⟨_, _, _, _, _, _, rfl, -⟩ := answered
    rfl
  | _ => rfl

/-- Only a STARTTLS command touches the crypto fields. -/
theorem Handled.crypto {env : Env} {s : Session} {line : Bytes} {after : Step Session Event}
    (handled : Handled env s line after)
    (other : s.phase = .command → lineCommand line ≠ some .starttls) :
    after.state.toCrypto = s.toCrypto := by
  cases handled with
  | command c result command present _ answered =>
    obtain ⟨_, _, _, _, _, _, rfl, _, kept, _⟩ := answered
    have plain : c ≠ .starttls := by
      rintro rfl
      exact other ((phase_command_iff s).mpr command) present
    exact (kept plain).1
  | _ => rfl

/-- A stopped session stays stopped. -/
theorem Handled.stopped {env : Env} {s : Session} {line : Bytes} {after : Step Session Event}
    (handled : Handled env s line after) (stopped : s.stop = true) : after.state.stop = true := by
  cases handled with
  | overrun mail other large => rfl
  | command c result command present _ answered =>
    obtain ⟨_, _, _, _, _, _, rfl, -⟩ := answered
    exact stopped
  | _ => exact stopped

/-- A line without a command word changes nothing. -/
theorem handleLine_wordless (env : Env) (s : Session) (line : Bytes) (command : s.state ≠ .data)
    (word : lineCommand line = none) : handleLine env s line = ⟨s, [.line line], true⟩ := by
  simp [handleLine, command, handleCommandLine, word]

/-! ### The lines and replies of a log -/

def Event.takenLine : Event → Option Bytes
  | .line bytes => some bytes
  | _ => none

/-- The lines a log took off the buffer. -/
def linesOf (log : List Event) : List Bytes := log.filterMap Event.takenLine

def repliesOf (log : List Event) : List Reply :=
  log.filterMap fun
    | .reply reply _ => some reply
    | _ => none

theorem linesOf_append (xs ys : List Event) : linesOf (xs ++ ys) = linesOf xs ++ linesOf ys :=
  List.filterMap_append

theorem linesOf_line (line : Bytes) (log : List Event) :
    linesOf (.line line :: log) = line :: linesOf log := rfl

private theorem linesOf_reply (reply : Reply) (completion : Completion) (log : List Event) :
    linesOf (.reply reply completion :: log) = linesOf log := rfl

private theorem linesOf_asides (events : List Event) (asides : ∀ e ∈ events, e.aside = true) :
    linesOf events = [] := by
  rw [linesOf, List.filterMap_eq_nil_iff]
  intro e member
  have aside := asides e member
  cases e with
  | line bytes => simp [Event.aside] at aside
  | _ => rfl

private theorem linesOf_callbacks (s : Session) (payload arg : Bytes) (done : Bool) (c : Command) :
    linesOf (dataCallback s payload done) = [] ∧ linesOf (smtpCallback s c arg) = [] := by
  unfold dataCallback smtpCallback
  constructor <;> split <;> rfl

theorem Handled.lines {env : Env} {s : Session} {line : Bytes} {after : Step Session Event}
    (handled : Handled env s line after) : linesOf after.events = [line] := by
  have quiet := fun payload done c arg => linesOf_callbacks s payload arg done c
  cases handled with
  | ended completion sent _ _ =>
    rw [linesOf_line, linesOf_append, (quiet [] true .none []).1]
    rfl
  | overrun _ _ _ =>
    rw [linesOf_line, linesOf_append, (quiet line true .none []).1]
    rfl
  | mail _ _ _ => rw [linesOf_line, (quiet line false .none []).1]
  | wordless _ _ => rfl
  | command c result _ _ _ answered =>
    obtain ⟨before, reply, completion, behind, _, _, rfl, -, -, asides⟩ := answered
    have left := linesOf_asides before fun e member => asides e (List.mem_append_left _ member)
    have right := linesOf_asides behind fun e member => asides e (List.mem_append_right _ member)
    rw [linesOf_line, linesOf_append, (quiet [] true c (argument line)).2, linesOf_append, left,
      linesOf_reply, right]
    rfl

theorem repliesOf_append (xs ys : List Event) :
    repliesOf (xs ++ ys) = repliesOf xs ++ repliesOf ys := List.filterMap_append

theorem repliesOf_asides (events : List Event) (asides : ∀ e ∈ events, e.aside = true) :
    repliesOf events = [] := by
  apply List.filterMap_eq_nil_iff.mpr
  intro e member
  have aside := asides e member
  cases e <;> first | rfl | cases aside

theorem repliesOf_callbacks (s : Session) (payload arg : Bytes) (done : Bool) (c : Command) :
    repliesOf (dataCallback s payload done) = [] ∧ repliesOf (smtpCallback s c arg) = [] := by
  constructor
  · unfold dataCallback
    split <;> rfl
  · unfold smtpCallback
    split <;> rfl

end Spamass.Emailz
