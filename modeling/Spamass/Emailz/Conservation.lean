import Spamass.Emailz.Schedule
import Spamass.Emailz.StartTls

/-!
# No byte is lost

What is appended to `indata` leaves it line by line, and goes into the record file on
its way in. The input of a socket is kept beside it, and compared after every call with
the lines taken, the buffer and the file.
-/
namespace Spamass.Emailz

open Spamass.Framing Spamass.Runs

/-! ### Recording -/

/-- `emailz_socket_record` region by region; a number is what an incomplete `fwrite` wrote. -/
def recordRegions (s : Socket) : List (Bytes × Option Nat) → Socket
  | [] => s
  | (region, none) :: regions =>
    recordRegions { s with recorded := s.recorded ++ region } regions
  | (region, some n) :: _ =>
    { s with recorded := s.recorded ++ region.take n, record := false }

/-- The regions do not matter: the writes add up to one write, complete or not. -/
theorem recordRegions_eq (s : Socket) (regions : List (Bytes × Option Nat))
    (recording : s.recording = true) :
    ∃ short, recordRegions s regions = socketRecord s (regions.map Prod.fst).flatten short := by
  induction regions generalizing s with
  | nil => exact ⟨none, by simp [recordRegions, socketRecord, recording]⟩
  | cons write regions ih =>
    obtain ⟨region, short⟩ := write
    -- a short write ends the record, and the regions behind it are not written
    cases short with
    | some n =>
      refine ⟨some (min n region.length), ?_⟩
      have within : min n region.length ≤ region.length := Nat.min_le_right _ _
      have taken : region.take (min n region.length) = region.take n := by
        rw [List.take_eq_take_iff]
        omega
      simp only [recordRegions, socketRecord, recording, if_true, List.map_cons, List.flatten_cons,
        List.take_append_of_le_length within, taken]
    | none =>
      obtain ⟨short, rest⟩ := ih { s with recorded := s.recorded ++ region } recording
      have still : ({ s with recorded := s.recorded ++ region } : Socket).recording = true :=
        recording
      cases short with
      | none =>
        refine ⟨none, ?_⟩
        simp only [recordRegions, rest, socketRecord, recording, still, if_true, List.map_cons,
          List.flatten_cons, List.append_assoc]
      | some n =>
        refine ⟨some (region.length + n), ?_⟩
        simp only [recordRegions, rest, socketRecord, recording, still, if_true, List.map_cons,
          List.flatten_cons, List.append_assoc, List.take_length_add_append]

/-- Every `fwrite` of the `SSLRead` loop is complete. -/
def completeReads : List SslRead → Bool
  | [] => true
  | answer :: answers =>
    if answer.fails || answer.decrypted.isEmpty then true
    else answer.short.isNone && completeReads answers

/-- Every `fwrite` of a call is complete. -/
def completeRead (s : Socket) (arrival : Arrival) : Bool :=
  match s.sslcontext with
  | none => arrival.short.isNone
  | some _ =>
    if s.isHandshaking && arrival.handshake.status != noErr then true
    else completeReads arrival.sslReads

/-- The record file, against the input: `opened` says that recording was opened at start,
`complete` that every write was complete so far. -/
structure Recorded (opened complete : Bool) (input : Bytes) (s : Socket) : Prop where
  part : s.recorded <+: input
  whole : s.recording = true → s.recorded = input
  kept : opened = true → complete = true → s.record = true

theorem Recorded.append {opened complete : Bool} {input : Bytes} {s : Socket}
    (recorded : Recorded opened complete input s) (data : Bytes) (short : Option Nat) :
    Recorded opened (complete && short.isNone) (input ++ data) (s.append data short) := by
  have fields : (s.append data short).recorded = (socketRecord s data short).recorded ∧
      (s.append data short).record = (socketRecord s data short).record ∧
      (s.append data short).stop = s.stop :=
    ⟨rfl, rfl, congrArg Session.stop (socketRecord_session s data short)⟩
  -- a record that has ended stays as it is
  cases recording : s.recording with
  | false =>
    have same : socketRecord s data short = s := by simp [socketRecord, recording]
    rw [same] at fields
    refine ⟨?_, ?_, ?_⟩
    · rw [fields.1]
      exact recorded.part.trans (List.prefix_append _ _)
    · intro still
      rw [Socket.recording, fields.2.1, fields.2.2] at still
      rw [Socket.recording, still] at recording
      cases recording
    · intro opened' complete'
      rw [fields.2.1]
      exact recorded.kept opened' (Bool.and_eq_true_iff.mp complete').1
  | true =>
    have before := recorded.whole recording
    cases short with
    | none =>
      simp only [socketRecord, recording, if_true] at fields
      refine ⟨?_, ?_, ?_⟩
      · exact ⟨[], by rw [List.append_nil, fields.1, before]⟩
      · intro _
        rw [fields.1, before]
      · intro opened' complete'
        rw [fields.2.1]
        exact recorded.kept opened' (Bool.and_eq_true_iff.mp complete').1
    | some n =>
      simp only [socketRecord, recording, if_true] at fields
      refine ⟨?_, ?_, ?_⟩
      · rw [fields.1, before]
        exact (List.prefix_append_right_inj input).mpr (List.take_prefix n data)
      · intro still
        rw [Socket.recording, fields.2.1] at still
        cases still
      · intro _ complete'
        simp at complete'

/-- A change of other fields, and perhaps a stop. -/
theorem Recorded.same {opened complete : Bool} {input : Bytes} {s : Socket}
    (recorded : Recorded opened complete input s) (next : Socket)
    (file : next.recorded = s.recorded) (record : next.record = s.record)
    (stop : s.stop = true → next.stop = true) : Recorded opened complete input next := by
  refine ⟨by rw [file]; exact recorded.part, ?_, by rw [record]; exact recorded.kept⟩
  intro recording
  rw [file]
  apply recorded.whole
  simp only [Socket.recording, Bool.and_eq_true, Bool.not_eq_true'] at recording ⊢
  refine ⟨record ▸ recording.1, ?_⟩
  cases stopped : s.stop with
  | false => rfl
  | true =>
    rw [stop stopped] at recording
    cases recording.2

/-! ### One call -/

private theorem sslReadLoop_recorded {opened complete : Bool} {input : Bytes} (s : Socket)
    (answers : List SslRead) (recorded : Recorded opened complete input s) :
    Recorded opened (complete && completeReads answers) (input ++ decrypted answers)
      (sslReadLoop s answers).1 := by
  induction answers generalizing s complete input with
  | nil => simpa [sslReadLoop, completeReads, decrypted] using recorded
  | cons answer answers ih =>
    unfold sslReadLoop
    dsimp only
    split
    -- a failed or an empty answer ends the loop, and appends nothing
    next failed =>
      have fails : answer.fails = true := by simpa [SslRead.fails] using failed
      simp only [completeReads, decrypted, fails, Bool.true_or, if_true, Bool.and_true,
        List.append_nil]
      exact recorded.same _ rfl rfl fun _ => rfl
    next running =>
      have goesOn : answer.fails = false := by simpa [SslRead.fails] using running
      split
      next empty =>
        have missing : answer.decrypted.isEmpty = true :=
          List.isEmpty_iff.mpr (List.eq_nil_of_length_eq_zero empty)
        simp only [completeReads, decrypted, missing, Bool.or_true, if_true, Bool.and_true,
          List.append_nil]
        exact recorded.same _ rfl rfl id
      next filled =>
        have present : answer.decrypted.isEmpty = false := by
          rw [Bool.eq_false_iff]
          intro missing
          exact filled (by rw [List.isEmpty_iff.mp missing]; rfl)
        have served : Recorded opened complete input (s.serve answer.toSslCall) :=
          recorded.same _ rfl rfl id
        have rest := ih _ (served.append answer.decrypted answer.short)
        simp only [completeReads, decrypted, goesOn, present, Bool.or_false, Bool.false_eq_true,
          if_false]
        rw [← List.append_assoc, ← Bool.and_assoc]
        exact rest

theorem receive_recorded {opened complete : Bool} {input : Bytes} (s : Socket) (arrival : Arrival)
    (recorded : Recorded opened complete input s) :
    Recorded opened (complete && completeRead s arrival) (input ++ appended s arrival)
      (receive s arrival).1 := by
  cases context : s.sslcontext with
  | none =>
    simp only [receive, completeRead, appended, context]
    exact recorded.append arrival.data arrival.short
  | some c =>
    simp only [receive, completeRead, appended, context]
    -- data of a handshake that is not done are not read yet
    cases handshaking : s.isHandshaking with
    | false =>
      simp only [Bool.false_and, Bool.false_eq_true, if_false]
      apply sslReadLoop_recorded
      exact recorded.same _ rfl rfl id
    | true =>
      simp only [if_true, Bool.true_and, bne_iff_ne]
      by_cases done : arrival.handshake.status = noErr
      · simp only [done, ne_eq, not_true, if_false]
        apply sslReadLoop_recorded
        exact recorded.same _ rfl rfl id
      · simp only [ne_eq, done, not_false_eq_true, if_true, Bool.and_true, List.append_nil]
        split
        · exact recorded.same _ rfl rfl id
        · exact recorded.same _ rfl rfl fun _ => rfl

private theorem receive_appends (s : Socket) (arrival : Arrival) :
    (receive s arrival).1.indata = s.indata ++ appended s arrival := by
  have received := receive_received s arrival
  generalize receive s arrival = result at received ⊢
  unfold appended
  cases received with
  | plain _ plain _ buffer => rw [buffer, plain]
  | waiting _ context handshaking blocked _ buffer =>
    obtain ⟨c, present⟩ := Option.isSome_iff_exists.mp context
    simp [buffer, present, handshaking, blocked]
  | refused _ context handshaking failed _ buffer =>
    obtain ⟨c, present⟩ := Option.isSome_iff_exists.mp context
    simp [buffer, present, handshaking, failed]
  | open_ _ _ context shaken _ buffer =>
    obtain ⟨c, present⟩ := Option.isSome_iff_exists.mp context
    have other : (s.isHandshaking && arrival.handshake.status != noErr) = false := by
      cases handshaking : s.isHandshaking with
      | false => rfl
      | true => simp [shaken handshaking]
    simp [buffer, present, other]

/-- The lines the framer cuts are not empty and fit the line buffer. -/
private theorem pieces_sizes (s : Bytes) :
    ∀ line ∈ (lineFramer.pieces s).1, 1 ≤ line.length ∧ line.length ≤ maxLineSize := by
  induction s using lineFramer.pieces_induction with
  | rest s cut =>
    rw [lineFramer.pieces_none cut]
    nofun
  | piece s l r cut ih =>
    rw [lineFramer.pieces_some cut]
    intro line member
    rcases List.mem_cons.mp member with rfl | later
    · exact ⟨List.length_pos_iff.mpr (lineFramer.nonempty cut), socketReadLine_length cut⟩
    · exact ih line later

/-- The line loop: what it takes off the buffer are the lines it logs. -/
private theorem lineLoop_conserves (env : Env) (s : Socket) :
    s.indata = (linesOf (lineLoop env s.indata.length s).2).flatten ++
        (lineLoop env s.indata.length s).1.indata ∧
      ∀ line ∈ linesOf (lineLoop env s.indata.length s).2,
        1 ≤ line.length ∧ line.length ≤ maxLineSize := by
  obtain ⟨taken, cuts, runs⟩ :=
    turn_takes (handleLine env) s.toSession (lineFramer.pieces s.indata).1
  have lines := linesOf_runAll env s.toSession taken
  rw [runs] at lines
  rw [lineLoop_turn env _ s (Nat.le_refl _), lines]
  constructor
  · have whole := lineFramer.pieces_flatten s.indata
    rw [cuts, List.flatten_append, List.append_assoc] at whole
    exact whole.symm
  · intro line member
    apply pieces_sizes s.indata
    rw [cuts]
    exact List.mem_append_left _ member

private theorem lineLoop_recorded {opened complete : Bool} {input : Bytes} (env : Env) (s : Socket)
    (recorded : Recorded opened complete input s) :
    Recorded opened complete input (lineLoop env s.indata.length s).1 := by
  rw [lineLoop_turn env _ s (Nat.le_refl _)]
  refine recorded.same _ rfl rfl ?_
  intro stopped
  obtain ⟨taken, -, runs⟩ := turn_takes (handleLine env) s.toSession (lineFramer.pieces s.indata).1
  have session : (turn (handleLine env) s.toSession (lineFramer.pieces s.indata).1).1 =
      (runAll (handleLine env) s.toSession taken).1 := by rw [runs]
  simp only [session]
  exact runAll_stopped env _ taken stopped

/-! ### Every run of calls -/

inductive Call where
  | handleRead (arrival : Arrival)
  /-- `emailz_socket_stop` from a completion -/
  | stop

/-- A socket with the input it was given, whether every write to the file was complete, and its
log. -/
structure Fed where
  socket : Socket
  input : Bytes
  complete : Bool
  log : List Event

def Fed.step (env : Env) (f : Fed) : Call → Fed
  | .handleRead arrival =>
    { socket := (socketHandleRead env f.socket arrival).1
      input := f.input ++ appended f.socket arrival
      complete := f.complete && completeRead f.socket arrival
      log := f.log ++ (socketHandleRead env f.socket arrival).2 }
  | .stop => { f with socket := f.socket.stopped, log := f.log ++ [.stop] }

def Fed.start (socketfd : Int) (now : UInt64) (opened : Bool) (handlers : Handlers) : Fed :=
  ⟨Socket.started socketfd now opened handlers, [], true, []⟩

/-- The input is made up of the lines taken and the buffer, and the record file is the input or a
prefix of it. -/
structure Conserved (opened : Bool) (f : Fed) : Prop where
  joined : f.input = (linesOf f.log).flatten ++ f.socket.indata
  sizes : ∀ line ∈ linesOf f.log, 1 ≤ line.length ∧ line.length ≤ maxLineSize
  -- a line that cannot be read leaves the buffer, whatever its regions are
  unread : ∀ regions, regions.flatten = f.socket.indata → socketReadLineRegions regions = none →
    ∀ env fuel, lineLoop env fuel f.socket = (f.socket, [])
  file : f.socket.recorded <+: f.input
  whole : opened = true → f.complete = true → f.socket.stop = false → f.socket.recorded = f.input

private theorem lineLoop_unread (env : Env) (fuel : Nat) (s : Socket)
    (missing : socketReadLine s.indata = none) : lineLoop env fuel s = (s, []) := by
  cases fuel with
  | zero => rfl
  | succ fuel =>
    rw [lineLoop_body]
    simp only [loopBody, missing]

/-- A call behind the transport half. -/
private theorem socketHandleRead_conserves (env : Env) (s : Socket) (arrival : Arrival) :
    s.indata ++ appended s arrival = (linesOf (socketHandleRead env s arrival).2).flatten ++
        (socketHandleRead env s arrival).1.indata ∧
      ∀ line ∈ linesOf (socketHandleRead env s arrival).2,
        1 ≤ line.length ∧ line.length ≤ maxLineSize := by
  have appends := receive_appends s arrival
  have quiet : linesOf (receive s arrival).2.1 = [] := by
    have received := receive_received s arrival
    generalize receive s arrival = result at received ⊢
    cases received with
    | open_ _ _ _ _ session _ => rcases session with ⟨-, rfl⟩ | ⟨-, rfl⟩ <;> rfl
    | _ => rfl
  unfold socketHandleRead
  dsimp only
  split
  · obtain ⟨joined, sizes⟩ := lineLoop_conserves env (receive s arrival).1
    rw [linesOf_append, quiet, List.nil_append]
    exact ⟨appends ▸ joined, sizes⟩
  · rw [quiet, ← appends]
    exact ⟨rfl, nofun⟩

theorem socketHandleRead_recorded {opened complete : Bool} {input : Bytes} (env : Env) (s : Socket)
    (arrival : Arrival) (recorded : Recorded opened complete input s) :
    Recorded opened (complete && completeRead s arrival) (input ++ appended s arrival)
      (socketHandleRead env s arrival).1 := by
  have received := receive_recorded s arrival recorded
  unfold socketHandleRead
  dsimp only
  split
  · exact lineLoop_recorded env _ received
  · exact received

/-- What every call keeps. -/
structure Accounted (opened : Bool) (f : Fed) : Prop where
  joined : f.input = (linesOf f.log).flatten ++ f.socket.indata
  sizes : ∀ line ∈ linesOf f.log, 1 ≤ line.length ∧ line.length ≤ maxLineSize
  recorded : Recorded opened f.complete f.input f.socket

private theorem accounted_step (env : Env) (opened : Bool) (f : Fed) (call : Call)
    (accounted : Accounted opened f) : Accounted opened (f.step env call) := by
  obtain ⟨joined, sizes, recorded⟩ := accounted
  cases call with
  | handleRead arrival =>
    obtain ⟨joined', sizes'⟩ := socketHandleRead_conserves env f.socket arrival
    refine ⟨?_, ?_, socketHandleRead_recorded env f.socket arrival recorded⟩
    · simp only [Fed.step, linesOf_append, List.flatten_append, List.append_assoc, ← joined']
      rw [joined, List.append_assoc]
    · intro line member
      simp only [Fed.step, linesOf_append] at member
      rcases List.mem_append.mp member with old | new
      · exact sizes line old
      · exact sizes' line new
  | stop =>
    have lines : linesOf (f.log ++ [.stop]) = linesOf f.log := by
      rw [linesOf_append]
      exact List.append_nil _
    refine ⟨?_, ?_, recorded.same _ rfl rfl fun _ => rfl⟩
    · simp only [Fed.step, lines]
      exact joined
    · simp only [Fed.step, lines]
      exact sizes

private theorem Accounted.conserved {opened : Bool} {f : Fed} (accounted : Accounted opened f) :
    Conserved opened f := by
  obtain ⟨joined, sizes, recorded⟩ := accounted
  refine ⟨joined, sizes, ?_, recorded.part, ?_⟩
  · intro regions same missing env fuel
    apply lineLoop_unread
    rw [← same, ← socketReadLineRegions_flatten, missing]
  · intro opened' complete running
    apply recorded.whole
    rw [Socket.recording, recorded.kept opened' complete, running]
    rfl

/-- Over every run of calls on a socket, on either transport, no byte of the input is lost,
repeated or moved on its way to the lines and to the record file. -/
theorem conserved_always (env : Env) (socketfd : Int) (now : UInt64) (opened : Bool)
    (handlers : Handlers) (calls : List Call) :
    Always (Fed.step env) (Conserved opened) (Fed.start socketfd now opened handlers) calls := by
  have start : Accounted opened (Fed.start socketfd now opened handlers) :=
    ⟨rfl, nofun, List.prefix_rfl, fun _ => rfl, fun opened' _ => opened'⟩
  exact always_mono (Fed.step env) (fun _ accounted => accounted.conserved)
    (always_kept (Fed.step env) (accounted_step env opened) start calls)

end Spamass.Emailz
