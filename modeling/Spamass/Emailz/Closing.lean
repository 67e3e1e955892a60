import Spamass.Emailz.Schedule
import Spamass.Emailz.Splitting

/-!
# After QUIT

The reply to QUIT asks its completion to stop the socket, and the line loop goes on with
whatever is buffered. Over every schedule nothing is answered or called behind the reply
exactly if no line the loop still takes has a command word.
-/
namespace Spamass.Emailz

open Spamass.Framing Spamass.Runs

/-- A reply or a callback. -/
def Event.acts : Event → Bool
  | .smtp _ _ => true
  | .data _ _ => true
  | .reply _ _ => true
  | _ => false

/-- The log behind the first closing reply. -/
def behindClosing (log : List Event) : List Event := (log.dropWhile fun e => !e.closes).drop 1

/-- Once "221 closing connection" is written, nothing is answered or called behind it, and the
state stays what QUIT has left. -/
def Closed (r : Running) : Prop :=
  r.log.any Event.closes = true →
    r.socket.state = .quit ∧ ∀ e ∈ behindClosing r.log, e.acts = false

/-- Once the closing reply is written, a line that is taken has no command word. -/
def StaysSilent (r : Running) : SocketStep → Prop
  | .line => r.log.any Event.closes = true → ∀ line rest, r.next = some (line, rest) →
      lineCommand line = none
  | _ => True

/-! ### The log behind the closing reply -/

private theorem behindClosing_closed (xs ys : List Event) (closes : xs.any Event.closes = true) :
    behindClosing (xs ++ ys) = behindClosing xs ++ ys := by
  induction xs with
  | nil => cases closes
  | cons e xs ih =>
    unfold behindClosing at ih ⊢
    cases closing : e.closes with
    | true => simp [closing]
    | false =>
      simp only [List.any_cons, closing, Bool.false_or] at closes
      simpa [closing] using ih closes

private theorem behindClosing_open (xs ys : List Event) (open_ : xs.any Event.closes = false) :
    behindClosing (xs ++ ys) = behindClosing ys := by
  induction xs with
  | nil => rfl
  | cons e xs ih =>
    simp only [List.any_cons, Bool.or_eq_false_iff] at open_
    unfold behindClosing at ih ⊢
    simpa [open_.1] using ih open_.2

/-- Behind a closing reply, more of the log keeps it closed exactly if nothing acts in it. -/
private theorem closed_logs_iff (r after : Running) (events : List Event)
    (log : after.log = r.log ++ events) (closes : r.log.any Event.closes = true)
    (here : Closed r) :
    Closed after ↔ after.socket.state = .quit ∧ ∀ e ∈ events, e.acts = false := by
  obtain ⟨-, quiet⟩ := here closes
  have still : (r.log ++ events).any Event.closes = true := by simp [closes]
  rw [Closed, log, behindClosing_closed _ _ closes]
  constructor
  · intro closed
    obtain ⟨quit, quiet'⟩ := closed still
    exact ⟨quit, fun e member => quiet' e (List.mem_append_right _ member)⟩
  · rintro ⟨quit, quiet'⟩ -
    refine ⟨quit, fun e member => ?_⟩
    rcases List.mem_append.mp member with old | new
    · exact quiet e old
    · exact quiet' e new

/-! ### What a line does -/

/-- A line with a command word is answered. -/
private theorem handleLine_acts (env : Env) (s : Session) (line : Bytes) (command : s.state ≠ .data)
    (word : lineCommand line ≠ none) : ∃ e ∈ (handleLine env s line).events, e.acts = true := by
  have handled := handleLine_handled env s line
  generalize handleLine env s line = after at handled ⊢
  cases handled with
  | ended _ _ mail _ => exact absurd mail command
  | overrun mail _ _ => exact absurd mail command
  | mail mail _ _ => exact absurd mail command
  | wordless _ missing => exact absurd missing word
  | command c result _ present _ answered =>
    obtain ⟨before, reply, completion, later, _, _, rfl, -⟩ := answered
    exact ⟨.reply reply completion, by simp, rfl⟩

/-- The closing reply is the last thing a QUIT line does. -/
private theorem handleLine_quit (env : Env) (s : Session) (line : Bytes)
    (closes : (handleLine env s line).events.any Event.closes = true) :
    (handleLine env s line).state.state = .quit ∧
      behindClosing (handleLine env s line).events = [] := by
  have handled := handleLine_handled env s line
  generalize handleLine env s line = after at handled closes ⊢
  -- only the line QUIT of the command phase closes
  have quits : s.phase.quits line = true := by rw [← handled.closes, closes]
  cases phase : s.phase with
  | mail size =>
    rw [phase] at quits
    cases quits
  | command =>
    have word : lineCommand line = some .quit := by
      rw [phase] at quits
      exact beq_iff_eq.mp quits
    cases handled with
    | ended _ _ mail _ => exact absurd mail ((phase_command_iff s).mp phase)
    | overrun mail _ _ => exact absurd mail ((phase_command_iff s).mp phase)
    | mail mail _ _ => exact absurd mail ((phase_command_iff s).mp phase)
    | wordless _ missing =>
      rw [word] at missing
      cases missing
    | command c result _ present _ answered =>
      obtain rfl : Command.quit = c := Option.some.inj (word.symm.trans present)
      obtain ⟨before, reply, completion, later, crypto, sent, rfl, answers, same, asides⟩ :=
        answered
      obtain rfl : reply = .closing := answers.closing_iff.mpr rfl
      obtain ⟨-, rfl⟩ := same (by decide)
      refine ⟨rfl, ?_⟩
      have quiet : (Event.line line :: (smtpCallback s .quit (argument line) ++ before)).any
          Event.closes = false := by
        have beforeQuiet := asides_close before fun e member =>
          asides e (List.mem_append_left _ member)
        simp [Event.closes, smtpCallback_closes, beforeQuiet]
      have split : Event.line line :: (smtpCallback s .quit (argument line) ++
          (before ++ [.reply .closing completion])) =
          (Event.line line :: (smtpCallback s .quit (argument line) ++ before)) ++
            [.reply .closing completion] := by simp
      rw [split, behindClosing_open _ _ quiet]
      rfl

/-! ### Every schedule -/

private theorem closed_took_iff (env : Env) (r : Running) (line rest : Bytes)
    (present : r.next = some (line, rest)) (here : Closed r) :
    Closed (r.took env rest (handleLine env r.socket.toSession line)) ↔ StaysSilent r .line := by
  cases closes : r.log.any Event.closes with
  | true =>
    -- the state is QUIT, so the line is read as a command
    obtain ⟨quit, -⟩ := here closes
    have command : r.socket.state ≠ .data := by rw [quit]; decide
    rw [closed_logs_iff r _ _ rfl closes here]
    constructor
    · rintro ⟨-, quiet⟩ - line' rest' same
      obtain ⟨rfl, rfl⟩ := Prod.mk.inj (Option.some.inj (present.symm.trans same))
      by_contra word
      obtain ⟨e, member, acts⟩ := handleLine_acts env _ line command word
      rw [quiet e member] at acts
      cases acts
    · intro silent
      have wordless := handleLine_wordless env _ line command (silent closes line rest present)
      rw [wordless]
      exact ⟨quit, by simp [Event.acts]⟩
  | false =>
    have silent : StaysSilent r .line := by
      intro closes'
      rw [closes] at closes'
      cases closes'
    refine iff_of_true ?_ silent
    intro closes'
    have here' : (handleLine env r.socket.toSession line).events.any Event.closes = true := by
      simpa [Running.took, Running.logs, closes] using closes'
    obtain ⟨quit, last⟩ := handleLine_quit env _ line here'
    refine ⟨quit, ?_⟩
    simp only [Running.took, Running.logs]
    rw [behindClosing_open _ _ closes, last]
    simp

/-- A step that logs nothing that acts, and leaves the state. -/
theorem closed_kept (r after : Running) (events : List Event) (log : after.log = r.log ++ events)
    (state : after.socket.state = r.socket.state)
    (quiet : ∀ e ∈ events, e = .stop) (here : Closed r) : Closed after := by
  have silent : ∀ e ∈ events, e.acts = false := fun e member => by rw [quiet e member]; rfl
  cases closes : r.log.any Event.closes with
  | true =>
    rw [closed_logs_iff r after events log closes here, state]
    exact ⟨(here closes).1, silent⟩
  | false =>
    intro closes'
    have missing : events.any Event.closes = false := by
      rw [List.any_eq_false]
      intro e member
      rw [quiet e member]
      decide
    rw [log, List.any_append, closes, missing] at closes'
    cases closes'

theorem Received.quiet {s : Socket} {arrival : Arrival} {next : Socket} {log : List Event}
    {goesOn : Bool} (received : Received s arrival (next, log, goesOn)) :
    next.state = s.state ∧ ∀ e ∈ log, e = .stop :=
  ⟨received.kept Session.state (fun _ => rfl) fun _ => rfl, received.silent⟩

private theorem closed_step_iff (env : Env) (r : Running) (label : SocketStep) (here : Closed r) :
    Closed (r.step env label) ↔ StaysSilent r label := by
  have moves := step_moves env r label
  generalize r.step env label = after at moves
  have nothing : label ≠ .line → StaysSilent r label := by
    intro other
    cases label <;> first | exact absurd rfl other | trivial
  cases moves with
  | ignored _ other => exact iff_of_true here (nothing other)
  | received arrival next log goesOn _ _ received =>
    obtain ⟨state, quiet⟩ := received.quiet
    exact iff_of_true (closed_kept r _ log rfl state quiet here) trivial
  | rested missing =>
    refine iff_of_true here ?_
    intro _ line rest present
    rw [missing] at present
    cases present
  | took line rest present => exact closed_took_iff env r line rest present here
  | completed => exact iff_of_true here trivial
  | stopped _ _ other =>
    exact iff_of_true (closed_kept r _ [.stop] rfl rfl (by simp) here) (nothing other)
  | installed => exact iff_of_true here trivial

/-- Over every schedule, on either transport and wherever the completions run, nothing happens
after the closing reply exactly if no line taken behind it has a command word. -/
theorem closed_iff_staysSilent (env : Env) (socketfd : Int) (now : UInt64) (record : Bool)
    (handlers : Handlers) (labels : List SocketStep) :
    Always (Running.step env) Closed (Running.accepted socketfd now record handlers) labels ↔
      Each (Running.step env) StaysSilent (Running.accepted socketfd now record handlers)
        labels := by
  have keeps : ∀ r label, True → (fun _ => True) ((r : Running).step env label) :=
    fun _ _ _ => trivial
  apply always_iff_each (Running.step env) keeps
  · exact fun r label _ here => closed_step_iff env r label here
  · trivial
  · intro closes
    cases closes

/-- A command behind QUIT in one read: it is answered, and the state moves on. -/
theorem pipelined_not_closed :
    ¬ Always (Running.step Env.granted) Closed (Running.accepted 3 0 false noHandlers)
      [.read (plainRead (ascii "QUIT\r\nNOOP\r\n")), .line, .line] := by
  rintro ⟨-, -, -, closed⟩
  exact absurd (closed (by decide)).1 (by decide)

end Spamass.Emailz
