import Spamass.App.World

/-!
# Idle connections

The channel of a connection delivers at every tick of its interval, with or without data.
The read handler takes each data object for a read, an empty one too, so that the time it
compares with the timeout is that of the last tick, and not of the last data.
-/
namespace Spamass.App

open Spamass.Framing Spamass.Emailz Spamass.Runs

/-- A delivery of the channel with a data object, which may be empty. -/
structure Delivery where
  arrival : Arrival
  done : Bool
  error : Bool
  now : UInt64
  later : UInt64

def Delivery.input (d : Delivery) : ChannelRead := ⟨d.done, some d.arrival, d.error, d.now, d.later⟩

/-- The delivery carries a byte at least. -/
def Delivery.carries (d : Delivery) : Bool := !d.arrival.data.isEmpty

/-- A connection, and the time of the latest delivery to it that carried a byte; before the first
that of the accept. -/
structure Observed where
  socket : Socket
  latest : UInt64

def Observed.accepted (socketfd : Int) (now : UInt64) (record : Bool) (handlers : Handlers) :
    Observed := ⟨Socket.started socketfd now record handlers, now⟩

/-- A stopped connection takes no delivery. -/
def Observed.deliver (env : Env) (w : Observed) (d : Delivery) : Observed where
  socket := (channelRead env w.socket d.input).1
  latest := if w.socket.stop = false ∧ d.carries = true then d.now else w.latest

/-- `last_read_time` is what its name says. -/
def Observed.Timely (w : Observed) : Prop := w.socket.lastReadTime = w.latest

/-- A delivery without data, later than the timeout allows, stops the connection. -/
def Drops (env : Env) (w : Observed) (d : Delivery) : Prop :=
  w.socket.stop = false → d.carries = false →
    w.latest.toNat + socketTimeout.toNat < d.now.toNat → (w.deliver env d).socket.stop = true

/-- A delivery without data comes at the very time of the latest data. -/
def Prompt (w : Observed) (d : Delivery) : Prop :=
  w.socket.stop = false → d.carries = false → d.now = w.latest

/-- In every state of a run the time is that of the latest data, and every idle delivery drops the
connection. -/
def TimesOut (env : Env) (w : Observed) (deliveries : List Delivery) : Prop :=
  Always (Observed.deliver env) Observed.Timely w deliveries ∧
    Each (Observed.deliver env) (Drops env) w deliveries

/-! ### The clock -/

private theorem socketRecord_clock (s : Socket) (data : Bytes) (short : Option Nat) :
    (socketRecord s data short).lastReadTime = s.lastReadTime := by
  unfold socketRecord
  split
  · cases short <;> rfl
  · rfl

private theorem sslReadLoop_clock (s : Socket) (answers : List SslRead) :
    (sslReadLoop s answers).1.lastReadTime = s.lastReadTime := by
  induction answers generalizing s with
  | nil => rfl
  | cons answer answers ih =>
    unfold sslReadLoop
    dsimp only
    split
    · rfl
    · split
      · rfl
      · exact (ih _).trans (socketRecord_clock _ _ _)

private theorem receive_clock (s : Socket) (arrival : Arrival) :
    (receive s arrival).1.lastReadTime = s.lastReadTime := by
  unfold receive
  split
  · exact socketRecord_clock s _ _
  · dsimp only
    split
    · split
      · rfl
      · split
        · rfl
        · exact sslReadLoop_clock _ _
    · exact sslReadLoop_clock _ _

private theorem lineLoop_clock (env : Env) (fuel : Nat) (s : Socket) :
    (lineLoop env fuel s).1.lastReadTime = s.lastReadTime := by
  induction fuel generalizing s with
  | zero => rfl
  | succ fuel ih =>
    unfold lineLoop
    split
    · rfl
    · split
      · rfl
      · dsimp only
        split
        · rfl
        · exact ih _

/-- Handling input leaves the time of the read as it was noted. -/
private theorem socketHandleRead_clock (env : Env) (s : Socket) (arrival : Arrival) :
    (socketHandleRead env s arrival).1.lastReadTime = s.lastReadTime := by
  unfold socketHandleRead
  dsimp only
  split
  · exact (lineLoop_clock env _ _).trans (receive_clock s arrival)
  · exact receive_clock s arrival

/-! ### Deliveries -/

/-- The read handler notes the time of every delivery with a data object. -/
private theorem channelRead_clock (env : Env) (s : Socket) (d : Delivery) (open_ : s.stop = false) :
    (channelRead env s d.input).1.lastReadTime = d.now := by
  have noted : (channelData env s d.input).1.lastReadTime = d.now :=
    socketHandleRead_clock env _ d.arrival
  rw [channelRead, if_neg (by rw [open_]; exact Bool.false_ne_true)]
  dsimp only
  split
  · exact noted
  · exact noted

private theorem channelRead_stopped (env : Env) (s : Socket) (input : ChannelRead)
    (stopped : s.stop = true) : channelRead env s input = (s, []) := if_pos stopped

/-- A delivery keeps the time right exactly if it is prompt. -/
private theorem timely_deliver_iff (env : Env) (w : Observed) (d : Delivery) (timely : w.Timely) :
    (w.deliver env d).Timely ↔ Prompt w d := by
  unfold Observed.Timely Observed.deliver Prompt
  cases stop : w.socket.stop with
  | true =>
    rw [channelRead_stopped env w.socket d.input stop, if_neg (by simp)]
    exact iff_of_true timely nofun
  | false =>
    rw [channelRead_clock env w.socket d stop]
    cases carries : d.carries with
    | true => simp
    | false => simp

/-- A prompt delivery is not late. -/
private theorem Prompt.drops {env : Env} {w : Observed} {d : Delivery} (prompt : Prompt w d) :
    Drops env w d := by
  intro open_ idle late
  rw [prompt open_ idle] at late
  omega

/-- A connection is watched rightly, and dropped when it is idle, exactly if every delivery
without data comes at the time of the latest data. -/
theorem timesOut_iff_prompt (env : Env) (socketfd : Int) (now : UInt64) (record : Bool)
    (handlers : Handlers) (deliveries : List Delivery) :
    TimesOut env (Observed.accepted socketfd now record handlers) deliveries ↔
      Each (Observed.deliver env) Prompt (Observed.accepted socketfd now record handlers)
        deliveries := by
  have timely : (Observed.accepted socketfd now record handlers).Timely := rfl
  have always := @always_iff_each _ _ (Observed.deliver env) (fun _ => True) Observed.Timely Prompt
    (fun _ _ _ => trivial) (fun w d _ => timely_deliver_iff env w d) _ trivial timely deliveries
  constructor
  · rintro ⟨timely, -⟩
    exact always.mp timely
  · intro prompt
    refine ⟨always.mpr prompt, ?_⟩
    exact @each_under _ _ (Observed.deliver env) (fun _ => True) Prompt (Drops env)
      (fun w d _ prompt => ⟨trivial, Prompt.drops prompt⟩) _ trivial _ prompt

/-! ### Ticks -/

/-- A delivery without data, that is handled within the timeout. -/
structure Tick (d : Delivery) : Prop where
  empty : d.arrival.data = []
  goesOn : d.done = false ∧ d.error = false
  handled : d.later - socketTimeout ≤ d.now

/-- A connection without TLS, and without a line that has begun. -/
structure Silent (s : Socket) : Prop where
  open_ : s.stop = false
  plain : s.sslcontext = none
  waiting : s.indata = []

theorem socketHandleRead_empty (env : Env) (s : Socket) (arrival : Arrival) (silent : Silent s)
    (empty : arrival.data = []) : (socketHandleRead env s arrival).1.view = s.view := by
  have fed := congrArg Prod.fst (socketHandleRead_plain env s arrival silent.plain)
  have missing : lineFramer.cut [] = none := by decide
  rw [silent.waiting, empty, feedChunk, List.append_nil, lineFramer.pieces_none missing] at fed
  exact fed.trans (congrArg (Prod.mk s.toSession) silent.waiting.symm)

/-- What is silent is seen by the line handler. -/
theorem Silent.of_view {s t : Socket} (silent : Silent s) (same : t.view = s.view) : Silent t := by
  have session : t.toSession = s.toSession := congrArg Prod.fst same
  have buffer : t.indata = s.indata := congrArg Prod.snd same
  exact ⟨session ▸ silent.open_, session ▸ silent.plain, buffer.trans silent.waiting⟩

private theorem silent_deliver (env : Env) (w : Observed) (d : Delivery) (silent : Silent w.socket)
    (tick : Tick d) : Silent (w.deliver env d).socket := by
  have open_ : ¬w.socket.stop = true := by
    rw [silent.open_]
    exact Bool.false_ne_true
  have noted : (channelData env w.socket d.input).1.lastReadTime = d.now :=
    socketHandleRead_clock env _ d.arrival
  have early : ¬(channelData env w.socket d.input).1.lastReadTime < d.input.later - socketTimeout :=
    noted ▸ UInt64.not_lt.mpr tick.handled
  have read : Silent (channelData env w.socket d.input).1 :=
    silent.of_view (socketHandleRead_empty env _ d.arrival
      (Silent.of_view silent rfl) tick.empty)
  have goesOn : (d.input.done || d.input.error || decide
      ((channelData env w.socket d.input).1.lastReadTime < d.input.later - socketTimeout)) =
        false := by
    rw [decide_eq_false early, Bool.or_false]
    exact Bool.or_eq_false_iff.mpr tick.goesOn
  change Silent (channelRead env w.socket d.input).1
  rw [channelRead, if_neg open_]
  dsimp only
  rw [goesOn, if_neg Bool.false_ne_true]
  exact read

/-- However long they go on, ticks do not drop a connection. -/
theorem ticks_kept (env : Env) (w : Observed) (deliveries : List Delivery)
    (ticks : ∀ d ∈ deliveries, Tick d) (silent : Silent w.socket) :
    Always (Observed.deliver env) (fun w => Silent w.socket) w deliveries := by
  have each : Each (Observed.deliver env) (fun _ d => Tick d) w deliveries :=
    each_always (Observed.deliver env) deliveries (fun d member _ => ticks d member) w
  exact always_under (Observed.deliver env) (silent_deliver env) silent each

/-- The ticks of an interval of ten seconds behind an accept. -/
def ticks (accept : UInt64) (count : Nat) : List Delivery :=
  (List.range count).map fun k =>
    let now := accept + 10000 * (UInt64.ofNat k + 1)
    ⟨plainRead [], false, false, now, now⟩

/-- A connection that was accepted on 10 August 2012. -/
def justAccepted : Observed :=
  Observed.accepted 3 1344600000000 false ⟨false, 0, none, false, false⟩

/-- After two minutes and ten seconds without data the connection is open, and its time that of the
last tick. -/
theorem ticks_refresh :
    (run (Observed.deliver Env.granted) justAccepted (ticks 1344600000000 13)).socket.stop = false ∧
      ¬TimesOut Env.granted justAccepted (ticks 1344600000000 13) := by
  have kept : (run (Observed.deliver Env.granted) justAccepted
      (ticks 1344600000000 13)).socket.stop = false := by decide +kernel
  refine ⟨kept, fun timesOut => ?_⟩
  have timely := always_run (Observed.deliver Env.granted) timesOut.1
  have noted : (run (Observed.deliver Env.granted) justAccepted
      (ticks 1344600000000 13)).socket.lastReadTime = 1344600130000 := by decide +kernel
  have latest : (run (Observed.deliver Env.granted) justAccepted
      (ticks 1344600000000 13)).latest = 1344600000000 := by decide +kernel
  rw [Observed.Timely, noted, latest] at timely
  exact absurd timely (by decide)

end Spamass.App
