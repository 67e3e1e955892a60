import Spamass.Emailz.LineLoop

/-!
# The log of a connection

Whatever the transport, the log of a connection is made of the lines the loop
handled, one after another along the dialogue, and of stops between them. A
claim about every run can be proved along this shape.
-/
namespace Spamass.Emailz

open Spamass.Framing

inductive Talk (env : Env) (handlers : Handlers) : Phase → List Event → Phase → Prop
  | silence (phase : Phase) : Talk env handlers phase [] phase
  | stop {phase after : Phase} {log : List Event} (talk : Talk env handlers phase log after) :
      Talk env handlers phase (.stop :: log) after
  | line {after : Phase} {log : List Event} (s : Session) (line : Bytes)
      (installed : s.toHandlers = handlers)
      (talk : Talk env handlers (s.phase.next line) log after) :
      Talk env handlers s.phase ((handleLine env s line).events ++ log) after

theorem Talk.append {env : Env} {handlers : Handlers} {before between after : Phase}
    {first second : List Event} (talk : Talk env handlers before first between)
    (goes_on : Talk env handlers between second after) :
    Talk env handlers before (first ++ second) after := by
  induction talk with
  | silence => exact goes_on
  | stop _ ih => exact .stop (ih goes_on)
  | line s line installed _ ih =>
    rw [List.append_assoc]
    exact .line s line installed (ih goes_on)

/-- A step of a connection keeps the handlers and adds a talk to the log. -/
def Talks (env : Env) (s : Socket) (result : Socket × List Event) : Prop :=
  result.1.toHandlers = s.toHandlers ∧ Talk env s.toHandlers s.phase result.2 result.1.phase

theorem Talks.trans {env : Env} {s : Socket} {first second : Socket × List Event}
    (talks : Talks env s first) (goes_on : Talks env first.1 second) :
    Talks env s (second.1, first.2 ++ second.2) := by
  obtain ⟨kept, talk⟩ := talks
  obtain ⟨kept', talk'⟩ := goes_on
  rw [kept] at talk'
  exact ⟨kept'.trans kept, talk.append talk'⟩

/-- A change of the fields the dialogue does not read, and perhaps a stop. -/
theorem Talks.unread {env : Env} {s : Socket} (next : Socket) (log : List Event)
    (handlers : next.toHandlers = s.toHandlers) (phase : next.phase = s.phase)
    (quiet : log = [] ∨ log = [.stop]) : Talks env s (next, log) := by
  refine ⟨handlers, ?_⟩
  rw [phase]
  rcases quiet with rfl | rfl
  · exact .silence _
  · exact .stop (.silence _)

private theorem lineLoop_talks (env : Env) (fuel : Nat) (s : Socket) :
    Talks env s (lineLoop env fuel s) := by
  induction fuel generalizing s with
  | zero => exact .unread s [] rfl rfl (Or.inl rfl)
  | succ fuel ih =>
    unfold lineLoop
    split
    · exact .unread s [] rfl rfl (Or.inl rfl)
    · split
      · exact .unread s [] rfl rfl (Or.inl rfl)
      next line rest _ =>
        have handled := handleLine_handled env s.toSession line
        -- the line by itself is a talk of one line
        have here : Talks env s
            ({ s with toSession := (handleLine env s.toSession line).state, indata := rest },
              (handleLine env s.toSession line).events) := by
          refine ⟨handled.handlers, ?_⟩
          have talk : Talk env s.toHandlers s.phase ((handleLine env s.toSession line).events ++ [])
              (s.phase.next line) := .line s.toSession line rfl (.silence _)
          rw [List.append_nil, ← handled.phase] at talk
          exact talk
        dsimp only
        split
        · exact here
        · exact here.trans (ih _)

private theorem sslReadLoop_talks (env : Env) (s : Socket) (answers : List SslRead) :
    Talks env s (sslReadLoop s answers) := by
  induction answers generalizing s with
  | nil => exact .unread s [] rfl rfl (Or.inl rfl)
  | cons answer answers ih =>
    unfold sslReadLoop
    dsimp only
    split
    · exact .unread _ _ rfl rfl (Or.inr rfl)
    · split
      · exact .unread _ _ rfl rfl (Or.inl rfl)
      · -- the decrypted bytes go to the buffer and to the record
        have kept := socketRecord_session (s.serve answer.toSslCall) answer.decrypted answer.short
        have appended : Talks env s
            ((s.serve answer.toSslCall).append answer.decrypted answer.short, []) := by
          apply Talks.unread
          · exact congrArg Session.toHandlers kept
          · exact congrArg Session.phase kept
          · exact Or.inl rfl
        exact appended.trans (ih _)

private theorem receive_talks (env : Env) (s : Socket) (arrival : Arrival) :
    Talks env s ((receive s arrival).1, (receive s arrival).2.1) := by
  have kept := socketRecord_session s arrival.data arrival.short
  unfold receive
  split
  · apply Talks.unread
    · exact congrArg Session.toHandlers kept
    · exact congrArg Session.phase kept
    · exact Or.inl rfl
  · dsimp only
    split
    · split
      · exact .unread _ _ rfl rfl (Or.inl rfl)
      · split
        · exact .unread _ _ rfl rfl (Or.inr rfl)
        · -- the handshake is done: only crypto fields changed before the reads
          exact (Talks.unread _ [] rfl rfl (Or.inl rfl)).trans
            (sslReadLoop_talks env _ arrival.sslReads)
    · exact (Talks.unread _ [] rfl rfl (Or.inl rfl)).trans
        (sslReadLoop_talks env _ arrival.sslReads)

theorem socketHandleRead_talks (env : Env) (s : Socket) (arrival : Arrival) :
    Talks env s (socketHandleRead env s arrival) := by
  have received := receive_talks env s arrival
  unfold socketHandleRead
  dsimp only
  split
  · exact received.trans (lineLoop_talks env _ _)
  · exact received

theorem handleOpenReads_talks (env : Env) (s : Socket) (reads : List Arrival) :
    Talks env s (handleOpenReads env s reads) := by
  induction reads generalizing s with
  | nil => exact .unread s [] rfl rfl (Or.inl rfl)
  | cons read reads ih =>
    unfold handleOpenReads
    split
    · exact .unread s [] rfl rfl (Or.inl rfl)
    · exact (socketHandleRead_talks env s read).trans (ih _)

end Spamass.Emailz
