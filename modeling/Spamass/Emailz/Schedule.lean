import Spamass.Emailz.LineLoop
import Spamass.Runs

/-!
# The steps of a connection

The socket queue is concurrent: between two lines of a read the completion of a write
may run, and the OPEN block may install its handlers. Here a read is taken apart into
its transport half and one step for each line, so that anything may happen in between.
-/
namespace Spamass.Emailz

open Spamass.Framing Spamass.Runs

/-! ### The transport half -/

/-- `SSLRead` failed: the loop stops the socket. -/
def SslRead.fails (answer : SslRead) : Bool :=
  answer.status != noErr && answer.status != errSSLWouldBlock

/-- The buffers the `SSLRead` loop appends to `indata`, joined. -/
def decrypted : List SslRead → Bytes
  | [] => []
  | answer :: answers =>
    if answer.fails || answer.decrypted.isEmpty then [] else answer.decrypted ++ decrypted answers

/-- The buffers a read appends to `indata`, joined. -/
def appended (s : Socket) (arrival : Arrival) : Bytes :=
  match s.sslcontext with
  | none => arrival.data
  | some _ =>
    if s.isHandshaking && arrival.handshake.status != noErr then [] else decrypted arrival.sslReads

/-- The session once `SSLHandshake` has returned noErr. -/
def Session.shook (s : Session) : Session :=
  if s.isHandshaking then { s with isHandshaking := false, isSecure := true } else s

/-- Everything the transport half of a read can do to the session and the buffer. -/
inductive Received (s : Socket) (arrival : Arrival) : Socket × List Event × Bool → Prop
  | plain (next : Socket) (plain : s.sslcontext = none) (session : next.toSession = s.toSession)
      (buffer : next.indata = s.indata ++ arrival.data) : Received s arrival (next, [], true)
  | waiting (next : Socket) (context : s.sslcontext.isSome = true)
      (handshaking : s.isHandshaking = true) (blocked : arrival.handshake.status ≠ noErr)
      (session : next.toSession = s.toSession) (buffer : next.indata = s.indata) :
      Received s arrival (next, [], false)
  | refused (next : Socket) (context : s.sslcontext.isSome = true)
      (handshaking : s.isHandshaking = true) (failed : arrival.handshake.status ≠ noErr)
      (session : next.toSession = (socketStop s.toSession).1) (buffer : next.indata = s.indata) :
      Received s arrival (next, [.stop], false)
  | open_ (next : Socket) (log : List Event) (context : s.sslcontext.isSome = true)
      (shaken : s.isHandshaking = true → arrival.handshake.status = noErr)
      (session : (next.toSession = s.shook ∧ log = []) ∨
        (next.toSession = (socketStop s.shook).1 ∧ log = [.stop]))
      (buffer : next.indata = s.indata ++ decrypted arrival.sslReads) :
      Received s arrival (next, log, true)

/-- What neither a stop nor the end of a handshake changes, a read leaves as it was. -/
theorem Received.kept {s : Socket} {arrival : Arrival} {next : Socket} {log : List Event}
    {goesOn : Bool} (received : Received s arrival (next, log, goesOn)) {β : Type}
    (view : Session → β) (stops : ∀ s, view (socketStop s).1 = view s)
    (shakes : ∀ s : Session, view { s with isHandshaking := false, isSecure := true } = view s) :
    view next.toSession = view s.toSession := by
  have shook : view s.shook = view s.toSession := by
    unfold Session.shook
    split
    · exact shakes _
    · rfl
  cases received with
  | plain _ _ session _ => rw [session]
  | waiting _ _ _ _ session _ => rw [session]
  | refused _ _ _ _ session _ => rw [session, stops]
  | open_ _ _ _ _ session _ =>
    rcases session with ⟨session, -⟩ | ⟨session, -⟩
    · rw [session, shook]
    · rw [session, stops, shook]

/-- A read itself logs nothing but that the connection is stopped. -/
theorem Received.silent {s : Socket} {arrival : Arrival} {next : Socket} {log : List Event}
    {goesOn : Bool} (received : Received s arrival (next, log, goesOn)) : ∀ e ∈ log, e = .stop := by
  cases received with
  | refused => simp
  | open_ _ _ _ _ session _ => rcases session with ⟨-, rfl⟩ | ⟨-, rfl⟩ <;> simp
  | _ => simp

private theorem sslReadLoop_decrypts (s : Socket) (answers : List SslRead) :
    (sslReadLoop s answers).1.indata = s.indata ++ decrypted answers ∧
      (((sslReadLoop s answers).1.toSession = s.toSession ∧ (sslReadLoop s answers).2 = []) ∨
        ((sslReadLoop s answers).1.toSession = (socketStop s.toSession).1 ∧
          (sslReadLoop s answers).2 = [.stop])) := by
  induction answers generalizing s with
  | nil => exact ⟨by simp [sslReadLoop, decrypted], Or.inl ⟨rfl, rfl⟩⟩
  | cons answer answers ih =>
    unfold sslReadLoop
    dsimp only
    split
    -- only an answer that fails stops the socket
    next failed =>
      have fails : answer.fails = true := by simpa [SslRead.fails] using failed
      exact ⟨by simp [decrypted, fails, Socket.stopped, Socket.serve], Or.inr ⟨rfl, rfl⟩⟩
    next running =>
      have goesOn : answer.fails = false := by simpa [SslRead.fails] using running
      split
      next empty =>
        have missing : answer.decrypted = [] := List.eq_nil_of_length_eq_zero empty
        exact ⟨by simp [decrypted, missing, Socket.serve], Or.inl ⟨rfl, rfl⟩⟩
      next filled =>
        have present : answer.decrypted.isEmpty = false := by
          cases bytes : answer.decrypted with
          | nil => rw [bytes] at filled; exact absurd rfl filled
          | cons _ _ => rfl
        obtain ⟨buffer, session⟩ := ih
          ((s.serve answer.toSslCall).append answer.decrypted answer.short)
        have kept := socketRecord_session (s.serve answer.toSslCall) answer.decrypted answer.short
        have same : ((s.serve answer.toSslCall).append answer.decrypted answer.short).toSession =
            s.toSession := kept
        rw [same] at session
        refine ⟨?_, session⟩
        rw [buffer]
        simp [decrypted, goesOn, present, Socket.append, Socket.serve]

theorem receive_received (s : Socket) (arrival : Arrival) :
    Received s arrival (receive s arrival) := by
  unfold receive
  split
  next plain => exact .plain _ plain (socketRecord_session s arrival.data arrival.short) rfl
  next c context =>
    have present : s.sslcontext.isSome = true := by rw [context]; rfl
    dsimp only
    split
    next handshaking =>
      split
      next blocked => exact .waiting _ present handshaking (by rw [blocked]; decide) rfl rfl
      · split
        next failed => exact .refused _ present handshaking failed rfl rfl
        next done =>
          -- the handshake is complete, and the first decrypted bytes may be here
          have reads := sslReadLoop_decrypts
            { ({ s with tmpdata := s.tmpdata ++ arrival.data } : Socket).serve arrival.handshake with
              isHandshaking := false
              isSecure := true } arrival.sslReads
          have shook : s.shook = { s.toSession with isHandshaking := false, isSecure := true } :=
            if_pos handshaking
          refine .open_ _ _ present (fun _ => by simpa using done) ?_ reads.1
          rw [shook]
          exact reads.2
    next idle =>
      have reads := sslReadLoop_decrypts { s with tmpdata := s.tmpdata ++ arrival.data }
        arrival.sslReads
      have shook : s.shook = s.toSession := if_neg idle
      refine .open_ _ _ present (fun handshaking => absurd handshaking idle) ?_ reads.1
      rw [shook]
      exact reads.2

/-! ### The machine -/

/-- The handler a reply completes with. -/
def Event.completion : Event → Option Completion
  | .reply _ completion => some completion
  | _ => none

/-- A call between the creation of the context and the handshake failed. -/
def SetupAnswers.misconfigured (a : SetupAnswers) : Bool := a.configuration.any (· ≠ noErr)

/-- The Security calls of a setup all returned noErr, the handshake included. -/
def SetupAnswers.shakes (a : SetupAnswers) : Bool :=
  a.newContext == noErr && !a.misconfigured && a.handshake == noErr

/-- A connection between two steps. -/
structure Running where
  socket : Socket
  -- `emailz_socket_handle_read` is in its line loop
  looping : Bool
  -- the writes that have not completed
  writes : List Completion
  -- the contexts on which `SSLHandshake` returned noErr
  shaken : List Nat
  log : List Event

inductive SocketStep where
  /-- the channel delivers data: the transport half of `emailz_socket_handle_read` -/
  | read (arrival : Arrival)
  /-- one turn of the line loop -/
  | line
  /-- the completion of a pending write -/
  | written (k : Nat) (error : Bool)
  /-- the read handler stops the socket: end of file, an error or the timeout -/
  | hangUp
  /-- the application sets its handlers -/
  | install (handlers : Handlers)

def Running.logs (r : Running) (s : Socket) (events : List Event) : Running :=
  { r with
    socket := s
    writes := r.writes ++ events.filterMap Event.completion
    log := r.log ++ events }

/-- One turn of the loop: the socket behind the next line, what the line logs, and whether the
loop breaks off. -/
def loopBody (env : Env) (s : Socket) : Option (Socket × List Event × Bool) :=
  match socketReadLine s.indata with
  | none => none
  | some (line, rest) =>
    let handled := handleLine env s.toSession line
    some ({ s with toSession := handled.state, indata := rest }, handled.events, handled.breaks)

/-- The handshakes a read completes. -/
def readShakes (s : Socket) (arrival : Arrival) : List Nat :=
  if s.isHandshaking && arrival.handshake.status == noErr then s.sslcontext.toList else []

/-- The handshakes a setup completes. -/
def setupShakes (env : Env) (s next : Session) : List Nat :=
  if s.setups < next.setups && (env.setup s.setups).shakes then [s.setups] else []

def Running.step (env : Env) (r : Running) : SocketStep → Running
  | .read arrival =>
    if r.looping || r.socket.stop then r
    else
      let received := receive r.socket arrival
      { r.logs received.1 received.2.1 with
        looping := received.2.2
        shaken := r.shaken ++ readShakes r.socket arrival }
  | .line =>
    if r.looping then
      match loopBody env r.socket with
      | none => { r with looping := false }
      | some (next, events, breaks) =>
        { r.logs next events with
          looping := !breaks
          shaken := r.shaken ++ setupShakes env r.socket.toSession next.toSession }
    else r
  | .written k error =>
    match r.writes[k]? with
    | none => r
    | some completion =>
      let waiting := { r with writes := r.writes.eraseIdx k }
      if completion.stops error then waiting.logs r.socket.stopped (socketStop r.socket.toSession).2
      else waiting
  | .hangUp =>
    if r.looping then r else r.logs r.socket.stopped (socketStop r.socket.toSession).2
  | .install handlers => { r with socket := { r.socket with toHandlers := handlers } }

/-- `emailz_handle_accept`: the greeting is the first thing written. -/
def Running.accepted (socketfd : Int) (now : UInt64) (record : Bool) (handlers : Handlers) :
    Running :=
  let started := Socket.started socketfd now record handlers
  let greeted := socketHandleWrite started.toSession .greeting none
  (Running.mk started false [] [] []).logs { started with toSession := greeted.1 } greeted.2

/-- The line the next turn of the loop takes, and the buffer behind it. -/
def Running.next (r : Running) : Option (Bytes × Bytes) :=
  if r.looping then socketReadLine r.socket.indata else none

/-- The connection behind a line that was handled. -/
def Running.took (env : Env) (r : Running) (rest : Bytes) (handled : Step Session Event) :
    Running :=
  { r.logs { r.socket with toSession := handled.state, indata := rest } handled.events with
    looping := !handled.breaks
    shaken := r.shaken ++ setupShakes env r.socket.toSession handled.state }

private theorem step_line_none (env : Env) (r : Running) (missing : r.next = none) :
    r.step env .line = { r with looping := false } := by
  unfold Running.next at missing
  split at missing
  next looping => simp [Running.step, looping, loopBody, missing]
  next idle =>
    have same : r.looping = false := by simpa using idle
    cases r
    subst same
    rfl

private theorem step_line_some (env : Env) (r : Running) (line rest : Bytes)
    (present : r.next = some (line, rest)) :
    r.step env .line = r.took env rest (handleLine env r.socket.toSession line) := by
  unfold Running.next at present
  split at present
  next looping => simp [Running.step, looping, loopBody, present, Running.took]
  · cases present

/-- Everything a step can do. -/
inductive Moves (env : Env) (r : Running) : SocketStep → Running → Prop
  | ignored (label : SocketStep) (other : label ≠ .line) : Moves env r label r
  | received (arrival : Arrival) (next : Socket) (log : List Event) (goesOn : Bool)
      (idle : r.looping = false) (running : r.socket.stop = false)
      (received : Received r.socket arrival (next, log, goesOn)) :
      Moves env r (.read arrival)
        { r.logs next log with
          looping := goesOn
          shaken := r.shaken ++ readShakes r.socket arrival }
  | rested (missing : r.next = none) : Moves env r .line { r with looping := false }
  | took (line rest : Bytes) (present : r.next = some (line, rest)) :
      Moves env r .line (r.took env rest (handleLine env r.socket.toSession line))
  | completed (k : Nat) (error : Bool) (writes : List Completion) :
      Moves env r (.written k error) { r with writes := writes }
  | stopped (label : SocketStep) (writes : List Completion) (other : label ≠ .line) :
      Moves env r label
        { r with socket := r.socket.stopped, writes := writes, log := r.log ++ [.stop] }
  | installed (handlers : Handlers) :
      Moves env r (.install handlers) { r with socket := { r.socket with toHandlers := handlers } }

private theorem logs_stop (r : Running) (s : Socket) (s' : Session) :
    r.logs s (socketStop s').2 = { r with socket := s, log := r.log ++ [.stop] } := by
  have missing : (socketStop s').2.filterMap Event.completion = [] := rfl
  rw [Running.logs, missing, List.append_nil]
  rfl

theorem step_moves (env : Env) (r : Running) (label : SocketStep) :
    Moves env r label (r.step env label) := by
  -- a stopped connection ignores everything but its lines and an install
  cases label with
  | read arrival =>
    simp only [Running.step]
    split
    · exact .ignored _ nofun
    next idle =>
      rw [Bool.or_eq_true, not_or, Bool.not_eq_true, Bool.not_eq_true] at idle
      exact .received arrival _ _ _ idle.1 idle.2 (receive_received r.socket arrival)
  | line =>
    cases next : r.next with
    | none =>
      rw [step_line_none env r next]
      exact .rested next
    | some pair =>
      rw [step_line_some env r pair.1 pair.2 next]
      exact .took pair.1 pair.2 next
  | written k error =>
    simp only [Running.step]
    split
    · exact .ignored _ nofun
    · split
      · rw [logs_stop]
        exact .stopped (.written k error) _ nofun
      · exact .completed k error _
  | hangUp =>
    simp only [Running.step]
    split
    · exact .ignored _ nofun
    · rw [logs_stop]
      exact .stopped .hangUp _ nofun
  | install handlers => exact .installed handlers

/-! ### The steps make up the read function -/

theorem lineLoop_body (env : Env) (fuel : Nat) (s : Socket) :
    lineLoop env (fuel + 1) s =
      match loopBody env s with
      | none => (s, [])
      | some (next, events, breaks) =>
        if breaks then (next, events)
        else ((lineLoop env fuel next).1, events ++ (lineLoop env fuel next).2) := by
  unfold loopBody
  rw [lineLoop]
  split
  next empty =>
    have nothing : s.indata = [] := List.eq_nil_of_length_eq_zero empty
    have missing : socketReadLine [] = none := by decide
    rw [nothing, missing]
  · cases socketReadLine s.indata with
    | none => rfl
    | some pair => rfl

private theorem loopBody_shorter (env : Env) (s next : Socket) (events : List Event) (breaks : Bool)
    (body : loopBody env s = some (next, events, breaks)) :
    next.indata.length < s.indata.length := by
  unfold loopBody at body
  split at body
  · cases body
  next line rest read =>
    obtain ⟨rfl, -, -⟩ := Prod.mk.inj (Option.some.inj body)
    exact lineFramer.rest_shorter read

/-- The log and the socket of a run of the machine, behind what another function returns. -/
def Running.EndsAs (r after : Running) (result : Socket × List Event) : Prop :=
  after.socket = result.1 ∧ after.looping = false ∧ after.log = r.log ++ result.2 ∧
    after.writes = r.writes ++ result.2.filterMap Event.completion

private theorem run_idle (env : Env) (r : Running) (idle : r.looping = false) (n : Nat) :
    run (Running.step env) r (List.replicate n .line) = r := by
  induction n with
  | zero => rfl
  | succ n ih =>
    have stays : r.step env .line = r := by simp [Running.step, idle]
    rw [List.replicate_succ, run, List.foldl_cons, stays]
    exact ih

/-- The line loop, turn by turn. -/
private theorem run_lines (env : Env) (fuel : Nat) (r : Running) (looping : r.looping = true)
    (enough : r.socket.indata.length ≤ fuel) :
    r.EndsAs (run (Running.step env) r (List.replicate (fuel + 1) .line))
      (lineLoop env fuel r.socket) := by
  -- on the fuel: a body that ran has shortened the buffer, so that one unit less is enough
  induction fuel generalizing r with
  | zero =>
    have nothing : r.socket.indata = [] := List.eq_nil_of_length_eq_zero (by omega)
    have missing : loopBody env r.socket = none := by
      have read : socketReadLine [] = none := by decide
      simp only [loopBody, nothing, read]
    simp [run, Running.step, looping, missing, lineLoop, Running.EndsAs]
  | succ fuel ih =>
    have once : run (Running.step env) r (List.replicate (fuel + 1 + 1) .line) =
        run (Running.step env) (r.step env .line) (List.replicate (fuel + 1) .line) := rfl
    rw [once, lineLoop_body]
    cases body : loopBody env r.socket with
    | none =>
      have ended : r.step env .line = { r with looping := false } := by
        simp [Running.step, looping, body]
      rw [ended, run_idle env { r with looping := false } rfl]
      simp [Running.EndsAs]
    | some turn =>
      obtain ⟨next, events, breaks⟩ := turn
      have shorter := loopBody_shorter env _ _ _ _ body
      have taken : r.step env .line =
          { r.logs next events with
            looping := !breaks
            shaken := r.shaken ++ setupShakes env r.socket.toSession next.toSession } := by
        simp [Running.step, looping, body]
      rw [taken]
      cases breaks with
      | true =>
        rw [run_idle env _ rfl]
        exact ⟨rfl, rfl, rfl, rfl⟩
      | false =>
        have shorter' : next.indata.length ≤ fuel := by omega
        obtain ⟨socket, ended, log, writes⟩ := ih
          { r.logs next events with
            looping := !false
            shaken := r.shaken ++ setupShakes env r.socket.toSession next.toSession } rfl shorter'
        refine ⟨socket, ended, ?_, ?_⟩
        · rw [log]
          simp [Running.logs]
        · rw [writes]
          simp [Running.logs]

/-- A read and enough turns of the loop behind it are one call of `emailz_socket_handle_read`. -/
theorem run_read (env : Env) (r : Running) (arrival : Arrival) (idle : r.looping = false)
    (running : r.socket.stop = false) :
    ∃ n, r.EndsAs (run (Running.step env) r (.read arrival :: List.replicate n .line))
      (socketHandleRead env r.socket arrival) := by
  let received := receive r.socket arrival
  refine ⟨received.1.indata.length + 1, ?_⟩
  have once : run (Running.step env) r
      (.read arrival :: List.replicate (received.1.indata.length + 1) .line) =
      run (Running.step env) (r.step env (.read arrival))
        (List.replicate (received.1.indata.length + 1) .line) := rfl
  have read : r.step env (.read arrival) =
      { r.logs received.1 received.2.1 with
        looping := received.2.2
        shaken := r.shaken ++ readShakes r.socket arrival } := by
    simp [Running.step, idle, running, received]
  rw [once, read]
  unfold socketHandleRead
  dsimp only
  split
  next open_ =>
    obtain ⟨socket, ended, log, writes⟩ := run_lines env received.1.indata.length
      { r.logs received.1 received.2.1 with
        looping := received.2.2
        shaken := r.shaken ++ readShakes r.socket arrival } open_ (Nat.le_refl _)
    refine ⟨socket, ended, ?_, ?_⟩
    · rw [log]
      simp [Running.logs, received]
    · rw [writes]
      simp [Running.logs, received]
  next early =>
    -- a handshake that is not complete returns before the loop
    have left : received.2.2 = false := by simpa using early
    rw [run_idle env _ left]
    exact ⟨rfl, left, rfl, rfl⟩

end Spamass.Emailz
