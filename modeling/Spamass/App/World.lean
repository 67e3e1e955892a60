import Mathlib.Logic.Function.Basic
import Spamass.App.Ledger

/-!
# Two queues

The read and cleanup handlers of the channels run on the socket queue, the blocks
they dispatch on the serial handler queue. A block holds the socket it was made for
and looks into it only when it runs; nothing keeps the socket alive until then.
-/
namespace Spamass.App

open Spamass.Framing Spamass.Emailz Spamass.Runs

/-! ### The read handler -/

/-- The arguments of one call of the channel's read handler, and the clock before and
behind `emailz_socket_handle_read`. -/
structure ChannelRead where
  done : Bool
  data : Option Arrival
  error : Bool
  now : UInt64
  later : UInt64

/-- The data of a call: the clock and the counters first, then the input is handled. -/
def channelData (env : Env) (s : Socket) (input : ChannelRead) : Socket × List Event :=
  match input.data with
  | none => (s, [])
  | some arrival =>
    socketHandleRead env
      { s with
        lastReadTime := input.now
        inbytes := s.inbytes + arrival.data.length
        bytesRcvd := s.bytesRcvd + arrival.data.length } arrival

/-- The read handler of `emailz_socket_start`. -/
def channelRead (env : Env) (s : Socket) (input : ChannelRead) : Socket × List Event :=
  if s.stop then (s, [])
  else
    let read := channelData env s input
    if input.done || input.error || read.1.lastReadTime < input.later - socketTimeout then
      (read.1.stopped, read.2 ++ (socketStop read.1.toSession).2)
    else read

private theorem channelData_talks (env : Env) (s : Socket) (input : ChannelRead) :
    Talks env s (channelData env s input) := by
  unfold channelData
  split
  · exact .unread s [] rfl rfl (Or.inl rfl)
  · -- the counters and the clock do not enter the dialogue
    exact (Talks.unread _ [] rfl rfl (Or.inl rfl)).trans (socketHandleRead_talks env _ _)

private theorem channelRead_talks (env : Env) (s : Socket) (input : ChannelRead) :
    Talks env s (channelRead env s input) := by
  have read := channelData_talks env s input
  unfold channelRead
  split
  · exact .unread s [] rfl rfl (Or.inl rfl)
  · dsimp only
    split
    · exact read.trans (.unread _ _ rfl rfl (Or.inr rfl))
    · exact read

/-! ### Blocks and connections -/

/-- A block on the handler queue, with the socket it captured. -/
inductive Block where
  | opened (id : Nat)
  | call (id : Nat) (event : Event)
  | closed (id : Nat)
  deriving DecidableEq, Repr

def Block.id : Block → Nat
  | .opened id => id
  | .call id _ => id
  | .closed id => id

/-- A started socket, and what has happened to it so far. -/
structure Connection where
  socket : Socket
  -- the log of the socket queue, before and since the OPEN block ran
  early : List Event
  late : List Event
  opened : Bool
  -- the cleanup handler has queued the CLOSE block
  closing : Bool
  -- the CLOSE block has run
  closed : Bool
  -- `emailz_socket_destroy` has freed the socket
  destroyed : Bool
  -- the calls the application got, and those whose block found the socket freed
  delivered : List Event
  stale : List Event

def Connection.log (c : Connection) : List Event := c.early ++ c.late

/-- `emailz_handle_accept` and `emailz_socket_start`: the greeting is the first thing written. -/
def Connection.start (socketfd : Int) (now : UInt64) (record : Bool) : Connection :=
  let fresh := Socket.fresh socketfd now record
  let greeted := socketHandleWrite fresh.toSession .greeting none
  { socket := { fresh with toSession := greeted.1 }
    early := greeted.2
    late := []
    opened := false
    closing := false
    closed := false
    destroyed := false
    delivered := []
    stale := [] }

/-- The socket queue has handled input: its log goes on. -/
def Connection.advance (c : Connection) (result : Socket × List Event) : Connection :=
  if c.opened then { c with socket := result.1, late := c.late ++ result.2 }
  else { c with socket := result.1, early := c.early ++ result.2 }

/-- The handlers `emailz_socket_set_smtp_handler` and `emailz_socket_set_data_handler` install. -/
def Connection.install (c : Connection) : Connection :=
  { c with
    opened := true
    socket :=
      { c.socket with
        toHandlers :=
          (c.socket.toHandlers.setSmtpHandler (Command.mail.bit ||| Command.rcpt.bit)).setDataHandler } }

/-- The block runs. On a freed socket none of the fields it reads is there any more. -/
def Connection.runBlock (c : Connection) : Block → Connection
  | .opened _ => if c.destroyed then c else c.install
  | .call _ event =>
    if c.destroyed then { c with stale := c.stale ++ [event] }
    else { c with delivered := c.delivered ++ [event] }
  | .closed _ => if c.destroyed then c else { c with closed := true }

/-! ### The world -/

structure World where
  connections : Nat → Option Connection
  -- the next socket
  count : Nat
  -- the pending blocks of the handler queue
  queue : List Block
  socketsOpen : UInt64
  socketsTotal : UInt64

def World.empty : World := ⟨fun _ => none, 0, [], 0, 0⟩

inductive Label where
  /-- a connection is accepted; `started` is the success of `setsockopt` -/
  | accept (socketfd : Int) (now : UInt64) (record started : Bool)
  | read (id : Nat) (input : ChannelRead)
  /-- `emailz_socket_stop` from the completion of a write -/
  | stop (id : Nat)
  /-- the handler queue runs its next block -/
  | run
  /-- the cleanup handler, up to and with the dispatch of the CLOSE block -/
  | cleanup (id : Nat)
  /-- the rest of the cleanup handler: `emailz_socket_destroy` -/
  | destroy (id : Nat)

def World.put (w : World) (id : Nat) (c : Connection) : World :=
  { w with connections := Function.update w.connections id (some c) }

/-- The blocks dispatched for the events of a log, each for one call. -/
def calls (id : Nat) (log : List Event) : List Block := (log.filter Event.runs).map (Block.call id)

def World.accept (w : World) (c : Connection) : World :=
  { w.put w.count c with count := w.count + 1, queue := w.queue ++ [.opened w.count] }

/-- The socket queue handles input of a connection. -/
def World.handled (w : World) (id : Nat) (c : Connection) (result : Socket × List Event) : World :=
  { w.put id (c.advance result) with queue := w.queue ++ calls id result.2 }

def World.runNext (w : World) : World :=
  match w.queue with
  | [] => w
  | block :: queue =>
    match w.connections block.id with
    | none => { w with queue := queue }
    | some c => { w.put block.id (c.runBlock block) with queue := queue }

def World.step (env : Nat → Env) (w : World) : Label → World
  | .accept socketfd now record started =>
    let counted := { w with socketsOpen := w.socketsOpen + 1, socketsTotal := w.socketsTotal + 1 }
    if started then counted.accept (Connection.start socketfd now record) else counted
  | .read id input =>
    match w.connections id with
    | none => w
    | some c => if c.closing then w else w.handled id c (channelRead (env id) c.socket input)
  | .stop id =>
    match w.connections id with
    | none => w
    | some c =>
      if c.closing then w
      else w.handled id c (c.socket.stopped, (socketStop c.socket.toSession).2)
  | .run => w.runNext
  | .cleanup id =>
    match w.connections id with
    | none => w
    | some c =>
      -- the channel cleans up once it was closed
      if c.socket.stop && !c.closing then
        { w.put id { c with closing := true } with queue := w.queue ++ [.closed id] }
      else w
  | .destroy id =>
    match w.connections id with
    | none => w
    | some c =>
      if c.closing && !c.destroyed then
        { w.put id { c with destroyed := true } with socketsOpen := w.socketsOpen - 1 }
      else w

/-! ### What a step changes -/

/-- A step that finds nothing to do. -/
def Excused (w : World) : Label → Prop
  | .read id _ => ∀ c, w.connections id = some c → c.closing = true
  | .run => w.queue = []
  | .destroy id => ∀ c, w.connections id = some c → c.closing = true → c.destroyed = true
  | _ => True

/-- Everything a step can do to the connections and the queue. -/
inductive Change (env : Nat → Env) (w : World) : Label → World → Prop
  | idle (label : Label) (w' : World) (excused : Excused w label)
      (connections : w'.connections = w.connections) (count : w'.count = w.count)
      (queue : w'.queue = w.queue) : Change env w label w'
  | accepted (socketfd : Int) (now : UInt64) (record : Bool) (w' : World)
      (connections : w'.connections =
        Function.update w.connections w.count (some (Connection.start socketfd now record)))
      (count : w'.count = w.count + 1) (queue : w'.queue = w.queue ++ [.opened w.count]) :
      Change env w (.accept socketfd now record true) w'
  | read (id : Nat) (input : ChannelRead) (c : Connection) (here : w.connections id = some c)
      (open_ : c.closing = false) :
      Change env w (.read id input) (w.handled id c (channelRead (env id) c.socket input))
  | stopped (id : Nat) (c : Connection) (here : w.connections id = some c)
      (open_ : c.closing = false) :
      Change env w (.stop id) (w.handled id c (c.socket.stopped, (socketStop c.socket.toSession).2))
  | ran (block : Block) (queue : List Block) (c : Connection) (waiting : w.queue = block :: queue)
      (here : w.connections block.id = some c) :
      Change env w .run { w.put block.id (c.runBlock block) with queue := queue }
  | cleaned (id : Nat) (c : Connection) (here : w.connections id = some c)
      (open_ : c.closing = false) :
      Change env w (.cleanup id)
        { w.put id { c with closing := true } with queue := w.queue ++ [.closed id] }
  | freed (id : Nat) (c : Connection) (here : w.connections id = some c) (closing : c.closing = true)
      (there : c.destroyed = false) :
      Change env w (.destroy id)
        { w.put id { c with destroyed := true } with socketsOpen := w.socketsOpen - 1 }

/-- Sockets are numbered below the count, and every pending block belongs to one. -/
structure Numbered (w : World) : Prop where
  fresh : ∀ id, w.count ≤ id → w.connections id = none
  blocks : ∀ block ∈ w.queue, ∃ c, w.connections block.id = some c

theorem Numbered.below {w : World} (numbered : Numbered w) {id : Nat} {c : Connection}
    (here : w.connections id = some c) : id < w.count := by
  by_contra above
  rw [numbered.fresh id (by omega)] at here
  cases here

theorem step_change (env : Nat → Env) (w : World) (label : Label) (numbered : Numbered w) :
    Change env w label (w.step env label) := by
  cases label with
  | accept socketfd now record started =>
    cases started with
    | false => exact .idle _ _ trivial rfl rfl rfl
    | true => exact .accepted socketfd now record _ rfl rfl rfl
  | read id input =>
    unfold World.step
    dsimp only
    split
    next missing => exact .idle _ _ (fun c here => by rw [missing] at here; cases here) rfl rfl rfl
    next c here =>
      split
      -- a connection that is going away reads nothing
      next closing =>
        refine .idle _ _ ?_ rfl rfl rfl
        intro c' here'
        rw [here] at here'
        obtain rfl := Option.some.inj here'
        exact closing
      next open_ => exact .read id input c here (by simpa using open_)
  | stop id =>
    unfold World.step
    dsimp only
    split
    · exact .idle _ _ trivial rfl rfl rfl
    next c here =>
      split
      · exact .idle _ _ trivial rfl rfl rfl
      next open_ => exact .stopped id c here (by simpa using open_)
  | run =>
    unfold World.step World.runNext
    dsimp only
    split
    next empty => exact .idle _ _ empty rfl rfl rfl
    next block queue waiting =>
      -- a block belongs to a connection that was accepted
      obtain ⟨c, here⟩ := numbered.blocks block (by rw [waiting]; exact List.mem_cons_self ..)
      rw [here]
      exact .ran block queue c waiting here
  | cleanup id =>
    unfold World.step
    dsimp only
    split
    · exact .idle _ _ trivial rfl rfl rfl
    next c here =>
      split
      next stopped =>
        rw [Bool.and_eq_true, Bool.not_eq_true'] at stopped
        exact .cleaned id c here stopped.2
      · exact .idle _ _ trivial rfl rfl rfl
  | destroy id =>
    unfold World.step
    dsimp only
    split
    next missing => exact .idle _ _ (fun c here => by rw [missing] at here; cases here) rfl rfl rfl
    next c here =>
      split
      next closing =>
        rw [Bool.and_eq_true, Bool.not_eq_true'] at closing
        exact .freed id c here closing.1 closing.2
      next other =>
        refine .idle _ _ ?_ rfl rfl rfl
        intro c' here' closing
        rw [here] at here'
        obtain rfl := Option.some.inj here'
        simpa [closing] using other

/-! ### Connections with their blocks -/

/-- The pending blocks of a socket. -/
def own (id : Nat) (queue : List Block) : List Block := queue.filter fun block => block.id == id

theorem own_append (id : Nat) (xs ys : List Block) : own id (xs ++ ys) = own id xs ++ own id ys :=
  List.filter_append xs ys

private theorem own_all (id : Nat) (blocks : List Block) (mine : ∀ block ∈ blocks, block.id = id) :
    own id blocks = blocks := by
  rw [own, List.filter_eq_self]
  intro block member
  simp [mine block member]

theorem own_none (id : Nat) (blocks : List Block) (others : ∀ block ∈ blocks, block.id ≠ id) :
    own id blocks = [] := by
  rw [own, List.filter_eq_nil_iff]
  intro block member
  simp [others block member]

theorem calls_id (id : Nat) (log : List Event) : ∀ block ∈ calls id log, block.id = id := by
  intro block member
  obtain ⟨event, -, rfl⟩ := List.mem_map.mp member
  rfl

/-- A property of every connection together with its pending blocks. -/
def World.All (holds : List Block → Connection → Prop) (w : World) : Prop :=
  ∀ id c, w.connections id = some c → holds (own id w.queue) c

/-- When a step puts one connection, and leaves the blocks of the others alone, only that
connection is in question. -/
theorem all_put {holds : List Block → Connection → Prop} {w w' : World} (id : Nat) (c : Connection)
    (all : w.All holds) (connections : w'.connections = Function.update w.connections id (some c))
    (others : ∀ id', id' ≠ id → own id' w'.queue = own id' w.queue) :
    w'.All holds ↔ holds (own id w'.queue) c := by
  constructor
  · intro all'
    apply all' id c
    rw [connections, Function.update_self]
  · intro here id' c' there
    rw [connections] at there
    by_cases same : id' = id
    · subst same
      rw [Function.update_self] at there
      obtain rfl := Option.some.inj there
      exact here
    · rw [Function.update_of_ne same] at there
      rw [others id' same]
      exact all id' c' there

/-- The queue with more blocks of one socket. -/
theorem own_more (id : Nat) (queue blocks : List Block) (mine : ∀ block ∈ blocks, block.id = id) :
    own id (queue ++ blocks) = own id queue ++ blocks ∧
      ∀ id', id' ≠ id → own id' (queue ++ blocks) = own id' queue := by
  constructor
  · rw [own_append, own_all id blocks mine]
  · intro id' other
    rw [own_append, own_none id' blocks, List.append_nil]
    intro block member same
    exact other (same.symm.trans (mine block member))

/-- The queue without its first block. -/
theorem own_next (block : Block) (queue : List Block) :
    own block.id (block :: queue) = block :: own block.id queue ∧
      ∀ id, id ≠ block.id → own id queue = own id (block :: queue) := by
  constructor
  · simp [own]
  · intro id other
    simp [own, Ne.symm other]

/-- The blocks of a socket that was just numbered. -/
private theorem own_fresh {w : World} (numbered : Numbered w) : own w.count w.queue = [] := by
  apply own_none
  intro block member same
  obtain ⟨c, here⟩ := numbered.blocks block member
  have below := numbered.below here
  omega

theorem numbered_empty : Numbered World.empty := ⟨fun _ _ => rfl, by simp [World.empty]⟩

/-- A step that puts one connection that is there already. -/
theorem Numbered.put {w w' : World} (numbered : Numbered w) {id : Nat} {old : Connection}
    (c : Connection) (here : w.connections id = some old) (count : w'.count = w.count)
    (connections : w'.connections = Function.update w.connections id (some c))
    (blocks : ∀ block ∈ w'.queue, block ∈ w.queue ∨ block.id = id) : Numbered w' := by
  have below := numbered.below here
  refine ⟨?_, ?_⟩
  · intro id' above
    rw [connections, Function.update_of_ne (by omega)]
    exact numbered.fresh id' (by omega)
  · intro block member
    rw [connections]
    by_cases same : block.id = id
    · exact ⟨c, by rw [same, Function.update_self]⟩
    · rw [Function.update_of_ne same]
      rcases blocks block member with old | mine
      · exact numbered.blocks block old
      · exact absurd mine same

theorem Numbered.step {env : Nat → Env} {w w' : World} {label : Label} (numbered : Numbered w)
    (change : Change env w label w') : Numbered w' := by
  have handled : ∀ id c (result : Socket × List Event), w.connections id = some c →
      Numbered (w.handled id c result) := by
    intro id c result here
    refine numbered.put (c.advance result) here rfl rfl ?_
    intro block member
    exact (List.mem_append.mp member).imp (fun old => old) (calls_id _ _ block)
  cases change with
  | idle _ _ _ connections count queue =>
    refine ⟨?_, ?_⟩
    · rw [connections, count]
      exact numbered.fresh
    · rw [connections, queue]
      exact numbered.blocks
  | accepted socketfd now record _ connections count queue =>
    refine ⟨?_, ?_⟩
    · intro id above
      rw [count] at above
      -- a number above the new connection is as free as before
      rw [connections, Function.update_of_ne (by omega)]
      exact numbered.fresh id (by omega)
    · intro block member
      rw [queue, List.mem_append, List.mem_singleton] at member
      rw [connections]
      -- what waited before belongs to older connections
      rcases member with old | rfl
      · obtain ⟨c, here⟩ := numbered.blocks block old
        have below := numbered.below here
        exact ⟨c, by rw [Function.update_of_ne (by omega)]; exact here⟩
      · exact ⟨_, Function.update_self ..⟩
  | read id input c here _ => exact handled id c _ here
  | stopped id c here _ => exact handled id c _ here
  | ran block queue c waiting here =>
    refine numbered.put (c.runBlock block) here rfl rfl ?_
    intro block' member
    rw [waiting]
    exact Or.inl (List.mem_cons_of_mem _ member)
  | cleaned id c here _ =>
    refine numbered.put { c with closing := true } here rfl rfl ?_
    intro block member
    exact (List.mem_append.mp member).imp (fun old => old)
      fun new => by rw [List.mem_singleton.mp new]; rfl
  | freed id c here _ _ =>
    exact numbered.put { c with destroyed := true } here rfl rfl fun block member => Or.inl member

/-- The rule for a property of a connection and its blocks: what each kind of step does to
the one it is about. -/
structure KeptByEach (holds : List Block → Connection → Prop) : Prop where
  start : ∀ id socketfd now record, holds [.opened id] (Connection.start socketfd now record)
  handled : ∀ env id blocks c result, c.closing = false → Talks env c.socket result →
    holds blocks c → holds (blocks ++ calls id result.2) (c.advance result)
  ran : ∀ block blocks c, holds (block :: blocks) c → holds blocks (c.runBlock block)
  cleaned : ∀ id blocks c, c.closing = false → holds blocks c →
    holds (blocks ++ [.closed id]) { c with closing := true }
  freed : ∀ blocks c, c.closing = true → c.destroyed = false → holds blocks c →
    holds blocks { c with destroyed := true }

theorem all_step {holds : List Block → Connection → Prop} (kept : KeptByEach holds)
    {env : Nat → Env} {w w' : World} {label : Label} (numbered : Numbered w) (all : w.All holds)
    (change : Change env w label w') : w'.All holds := by
  have handled : ∀ id c (result : Socket × List Event), w.connections id = some c →
      c.closing = false → Talks (env id) c.socket result → (w.handled id c result).All holds := by
    intro id c result here open_ talks
    -- the new blocks are behind the old ones of this connection, and are of no other
    obtain ⟨mine, others⟩ := own_more id w.queue (calls id result.2) (calls_id id result.2)
    rw [all_put id (c.advance result) all rfl others]
    show holds (own id (w.queue ++ calls id result.2)) _
    rw [mine]
    exact kept.handled (env id) id _ c result open_ talks (all id c here)
  cases change with
  | idle _ _ _ connections _ queue =>
    intro id c here
    rw [connections] at here
    rw [queue]
    exact all id c here
  | accepted socketfd now record _ connections _ queue =>
    obtain ⟨mine, others⟩ := own_more w.count w.queue [.opened w.count] (by simp [Block.id])
    rw [all_put w.count _ all connections (by rw [queue]; exact others), queue, mine,
      own_fresh numbered]
    exact kept.start w.count socketfd now record
  | read id input c here open_ =>
    exact handled id c _ here open_ (channelRead_talks (env id) c.socket input)
  | stopped id c here open_ =>
    exact handled id c _ here open_ (.unread _ _ rfl rfl (Or.inr rfl))
  | ran block queue c waiting here =>
    obtain ⟨mine, others⟩ := own_next block queue
    rw [all_put block.id (c.runBlock block) all rfl (by rw [waiting]; exact others)]
    -- the block is taken off the front of its own connection's queue
    have before := all block.id c here
    rw [waiting, mine] at before
    exact kept.ran block _ c before
  | cleaned id c here open_ =>
    obtain ⟨mine, others⟩ := own_more id w.queue [.closed id] (by simp [Block.id])
    rw [all_put id { c with closing := true } all rfl others]
    show holds (own id (w.queue ++ [.closed id])) _
    rw [mine]
    exact kept.cleaned id _ c open_ (all id c here)
  | freed id c here closing there =>
    refine (all_put id { c with destroyed := true } all ?_ ?_).mpr ?_
    · rfl
    · exact fun _ _ => rfl
    · exact kept.freed _ c closing there (all id c here)

end Spamass.App
