import Spamass.App.Calls
import Spamass.App.Lifetime
import Spamass.Http.Client
import Spamass.Http.Searches

/-!
# The whole application

Mails come in over many connections, whose calls run one after another on the handler
queue; each writes a mail entry by entry. Pages go out over many connections of the web
server, and each search reads a snapshot of the database, taken when it begins. Whatever
the order of all these steps, what is on the disk was written by calls that each mail
connection owes by its own lines, and a page is the one that its request gets from some
such disk.
-/
namespace Spamass.Site

open Spamass.Emailz Spamass.App Spamass.Web Spamass.Chunked Spamass.Http Spamass.SortedStore
  Spamass.Runs

/-! ### The disk -/

/-- The email database and the files. -/
structure Disk where
  mDb : Database
  files : Bytes → Option Bytes

def Disk.empty : Disk := ⟨.empty, fun _ => none⟩

def Disk.write (d : Disk) : Write → Disk
  | .put key value => { d with mDb := d.mDb.put key value }
  | .file path contents => { d with files := Function.update d.files path (some contents) }

def Disk.after (writes : List Write) : Disk := writes.foldl Disk.write .empty

/-! ### The machine -/

structure Server (μ : Type) where
  -- the mail connections and the handler queue
  world : World
  -- the object of the application for each mail connection
  sockets : Nat → Option SMSocket
  -- what the block that runs has still to write
  writes : List Write
  disk : Disk
  -- the connections of the web server
  web : Nat → HTTPConnection μ
  -- the snapshot that each search takes, and whether it has
  snapshots : Nat → Nat → Database
  begun : Nat → Nat → Bool
  crashed : Bool
  -- what has happened: the calls, the writes, and what the lines of the web connections asked
  calls : List (Nat × Event)
  made : List Write
  heard : Nat → Hearing μ

inductive Label where
  /-- a step of the mail server; no block runs before the one in front has written -/
  | mail (label : App.Label)
  | write
  /-- the socket of a web connection -/
  | received (w : Nat) (data : Bytes)
  | wrote (w : Nat)
  | hangUp (w : Nat)
  /-- the queue of a web connection runs a block; a search that it makes will take the snapshot -/
  | run (w : Nat) (snapshot : Database) (texts : MainTexts) (date : Bytes)
  /-- a search begins, with the database as it is -/
  | begin (w id : Nat)
  | call (w id : Nat)

section

variable {μ : Type} (messages : Messages μ) (lower : Bytes → Bytes) (env : Nat → Env)
  (name : Nat → Bytes)

def Server.start : Server μ where
  world := .empty
  sockets := fun _ => none
  writes := []
  disk := .empty
  web := fun _ => HTTPConnection.start messages
  snapshots := fun _ _ => .empty
  begun := fun _ _ => false
  crashed := false
  calls := []
  made := []
  heard := fun _ => .start messages

namespace Server

variable (s : Server μ)

/-- The block of `mSmtpHandler` or `mDataHandler`, up to its first write. -/
def appCall (id : Nat) (event : Event) : Server μ :=
  match s.sockets id with
  | none => s
  | some socket =>
    let result := App.appCall lower socket event
    { s with
      sockets := Function.update s.sockets id result.1
      writes := result.2
      crashed := result.1.isNone
      calls := s.calls ++ [(id, event)] }

/-- The handler queue runs its next block. -/
def runNext : Server μ :=
  match s.world.queue with
  | [] => s
  | block :: _ =>
    let ran := { s with world := s.world.step env .run }
    match s.world.connections block.id with
    | none => ran
    | some c =>
      if c.destroyed then ran
      else
        match block with
        | .opened id =>
          { ran with sockets := Function.update s.sockets id (some (SMSocket.init (name id))) }
        | .call id event => ran.appCall lower id event
        | .closed _ => ran

def write : Server μ :=
  match s.writes with
  | [] => s
  | write :: writes =>
    { s with writes := writes, disk := s.disk.write write, made := s.made ++ [write] }

/-- A step of a web connection. An exception there ends the application as well. -/
def webStep (w : Nat) (label : HTTPConnection.Label) : Server μ :=
  let c := (s.web w).step messages lower label
  { s with
    web := Function.update s.web w c
    crashed := c.crashed
    heard := Function.update s.heard w
      ((handled (s.web w) label).toList.foldl (Hearing.hear messages) (s.heard w)) }

def step (s : Server μ) (label : Label) : Server μ :=
  if s.crashed then s
  else
    match label with
    | .mail .run => if s.writes = [] then s.runNext lower env name else s
    | .mail label => { s with world := s.world.step env label }
    | .write => s.write
    | .received w data => s.webStep messages lower w (.received data)
    | .wrote w => s.webStep messages lower w .wrote
    | .hangUp w => s.webStep messages lower w .hangUp
    | .run w snapshot texts date =>
      { s.webStep messages lower w (.run ⟨s.disk.files, texts, snapshot, date⟩) with
        snapshots := Function.update s.snapshots w
          (Function.update (s.snapshots w) (s.web w).count snapshot) }
    | .begin w id =>
      if id < (s.web w).count ∧ (s.snapshots w id).entries = s.disk.mDb.entries then
        { s with begun := Function.update s.begun w (Function.update (s.begun w) id true) }
      else s
    | .call w id => if s.begun w id then s.webStep messages lower w (.call id) else s

end Server

/-! ### What a run comes from -/

/-- The calls of one mail connection. -/
def eventsOf (id : Nat) (calls : List (Nat × Event)) : List Event :=
  calls.filterMap fun call => if call.1 = id then some call.2 else none

/-- What a call writes: only the earlier calls of its own connection enter. -/
def callWrites (earlier : List (Nat × Event)) (call : Nat × Event) : List Write :=
  (appStep lower (appRun lower (some (SMSocket.init (name call.1))) (eventsOf call.1 earlier))
    call.2).2

def writesFrom (earlier : List (Nat × Event)) : List (Nat × Event) → List Write
  | [] => []
  | call :: calls => callWrites lower name earlier call ++ writesFrom (earlier ++ [call]) calls

/-- What calls write, one after another. -/
def writesOf (calls : List (Nat × Event)) : List Write := writesFrom lower name [] calls

/-- The page of a path, from the files when its request is handled and the database when its
search begins. -/
def pageOf (files : Bytes → Option Bytes) (texts : MainTexts) (mDb : Database) (uri : Bytes) :
    Option Bytes :=
  match responseWithPath lower files texts uri with
  | .undefined => none
  | .value response =>
    some (searched (HTTPConnection.searchOf lower ⟨files, texts, mDb, []⟩ uri
      response)).response.dataBuffer

/-! ### Replays -/

section Replays

variable {lower name}

theorem eventsOf_snoc (id : Nat) (calls : List (Nat × Event)) (id' : Nat) (event : Event) :
    eventsOf id (calls ++ [(id', event)]) =
      eventsOf id calls ++ if id' = id then [event] else [] := by
  rw [eventsOf, List.filterMap_append, ← eventsOf]
  by_cases same : id' = id
  · rw [if_pos same, List.filterMap_cons, List.filterMap_nil, if_pos same]
  · rw [if_neg same, List.filterMap_cons, List.filterMap_nil, if_neg same]

theorem writesFrom_append (earlier calls calls' : List (Nat × Event)) :
    writesFrom lower name earlier (calls ++ calls') =
      writesFrom lower name earlier calls ++ writesFrom lower name (earlier ++ calls) calls' := by
  induction calls generalizing earlier with
  | nil => rw [List.nil_append, List.append_nil, writesFrom, List.nil_append]
  | cons first calls ih =>
    rw [List.cons_append, writesFrom, writesFrom, ih, List.append_assoc, List.append_assoc]
    rfl

theorem writesOf_snoc (calls : List (Nat × Event)) (call : Nat × Event) :
    writesOf lower name (calls ++ [call]) =
      writesOf lower name calls ++ callWrites lower name calls call := by
  rw [writesOf, writesFrom_append, writesFrom, writesFrom, List.append_nil, List.nil_append]
  rfl

theorem Disk.after_snoc (writes : List Write) (write : Write) :
    Disk.after (writes ++ [write]) = (Disk.after writes).write write := List.foldl_append

end Replays

/-! ### The handler queue -/

def Block.isOpened : App.Block → Bool
  | .opened _ => true
  | _ => false

/-- The OPEN block of a connection is still to come only once, and before its handlers are there. -/
structure Unopened (blocks : List App.Block) (c : Connection) : Prop where
  once : blocks.countP Block.isOpened ≤ 1
  before : blocks.countP Block.isOpened ≠ 0 → c.opened = false

private theorem advance_opened (c : Connection) (result : Socket × List Event) :
    (c.advance result).opened = c.opened ∧ (c.advance result).delivered = c.delivered := by
  unfold Connection.advance
  split <;> exact ⟨rfl, rfl⟩

private theorem calls_unopened (id : Nat) (log : List Event) :
    (App.calls id log).countP Block.isOpened = 0 := by
  rw [List.countP_eq_zero]
  intro block member
  obtain ⟨event, -, rfl⟩ := List.mem_map.mp member
  exact Bool.false_ne_true

private theorem unopened_kept : KeptByEach Unopened where
  start id socketfd now record := ⟨Nat.le_refl 1, fun _ => rfl⟩
  handled env id blocks c result _ _ unopened := by
    have same : (blocks ++ App.calls id result.2).countP Block.isOpened =
        blocks.countP Block.isOpened := by
      rw [List.countP_append, calls_unopened, Nat.add_zero]
    refine ⟨same ▸ unopened.once, fun more => ?_⟩
    rw [(advance_opened c result).1]
    exact unopened.before (same ▸ more)
  ran block blocks c unopened := by
    have once := unopened.once
    have before := unopened.before
    cases block with
    | opened id =>
      rw [List.countP_cons_of_pos (by rfl)] at once
      have missing : blocks.countP Block.isOpened = 0 := by omega
      exact ⟨by omega, fun more => absurd missing more⟩
    | call id event =>
      rw [List.countP_cons_of_neg (by simp [Block.isOpened])] at once before
      refine ⟨once, fun more => ?_⟩
      unfold Connection.runBlock
      dsimp only
      split <;> exact before more
    | closed id =>
      rw [List.countP_cons_of_neg (by simp [Block.isOpened])] at once before
      refine ⟨once, fun more => ?_⟩
      unfold Connection.runBlock
      dsimp only
      split <;> exact before more
  cleaned id blocks c _ unopened := by
    have same : (blocks ++ [App.Block.closed id]).countP Block.isOpened =
        blocks.countP Block.isOpened := by
      rw [List.countP_append]
      rfl
    exact ⟨same ▸ unopened.once, fun more => unopened.before (same ▸ more)⟩
  freed blocks c _ _ unopened := ⟨unopened.once, unopened.before⟩

/-- What the calls of a connection are, and what they have made of its object. -/
structure Tied (s : Server μ) (id : Nat) (c : Connection) : Prop where
  calls : c.delivered = eventsOf id s.calls
  object : s.crashed = false → c.opened = true → ∃ socket, s.sockets id = some socket ∧
    appRun lower (some (SMSocket.init (name id))) (eventsOf id s.calls) = some socket

structure Mailed (s : Server μ) : Prop where
  numbered : Numbered s.world
  books : s.world.All Books
  unopened : s.world.All Unopened
  tied : ∀ id c, s.world.connections id = some c → Tied lower name s id c
  unborn : ∀ id, s.world.connections id = none → eventsOf id s.calls = []
  writes : s.made ++ s.writes = writesOf lower name s.calls
  disk : s.disk = Disk.after s.made

theorem mailed_start : Mailed lower name (Server.start messages) where
  numbered := numbered_empty
  books id c here := by cases here
  unopened id c here := by cases here
  tied id c here := by cases here
  unborn _ _ := rfl
  writes := by rfl
  disk := by rfl

section Steps

variable {messages lower env name} {s : Server μ}

/-- What becomes of a connection in a step that runs no block. -/
inductive Carried : Option Connection → Option Connection → Prop
  | nobody : Carried none none
  | accepted (c : Connection) (delivered : c.delivered = []) (opened : c.opened = false) :
    Carried none (some c)
  | kept (c c' : Connection) (delivered : c'.delivered = c.delivered)
    (opened : c'.opened = c.opened) : Carried (some c) (some c')

private theorem carried_same (old : Option Connection) : Carried old old := by
  cases old with
  | none => exact .nobody
  | some c => exact .kept c c rfl rfl

private theorem carried_put (connections : Nat → Option Connection) {id' : Nat} {c c' : Connection}
    (here : connections id' = some c) (delivered : c'.delivered = c.delivered)
    (opened : c'.opened = c.opened) (id : Nat) :
    Carried (connections id) (Function.update connections id' (some c') id) := by
  by_cases same : id = id'
  · rw [same, Function.update_self, here]
    exact .kept c c' delivered opened
  · rw [Function.update_of_ne same]
    exact carried_same _

private theorem change_carried {w w' : World} {label : App.Label} (numbered : Numbered w)
    (change : Change env w label w') (other : label ≠ .run) (id : Nat) :
    Carried (w.connections id) (w'.connections id) := by
  cases change with
  | idle _ _ _ connections _ _ =>
    rw [connections]
    exact carried_same _
  | accepted socketfd now record _ connections _ _ =>
    rw [connections]
    by_cases same : id = w.count
    · rw [same, Function.update_self, numbered.fresh _ (Nat.le_refl _)]
      exact .accepted _ rfl rfl
    · rw [Function.update_of_ne same]
      exact carried_same _
  | read id' input c here _ =>
    obtain ⟨opened, delivered⟩ := advance_opened c (channelRead (env id') c.socket input)
    exact carried_put w.connections here delivered opened id
  | stopped id' c here _ =>
    obtain ⟨opened, delivered⟩ :=
      advance_opened c (c.socket.stopped, (socketStop c.socket.toSession).2)
    exact carried_put w.connections here delivered opened id
  | ran => exact absurd rfl other
  | cleaned id' c here _ =>
    have closing : ({ c with closing := true } : Connection).delivered = c.delivered := rfl
    exact carried_put w.connections here closing rfl id
  | freed id' c here _ _ =>
    have destroyed : ({ c with destroyed := true } : Connection).delivered = c.delivered := rfl
    exact carried_put w.connections here destroyed rfl id

/-- A step of the mail server that runs no block. -/
theorem Mailed.mail (mailed : Mailed lower name s) (label : App.Label) (other : label ≠ .run) :
    Mailed lower name { s with world := s.world.step env label } := by
  have change := step_change env s.world label mailed.numbered
  have carried := change_carried mailed.numbered change other
  generalize s.world.step env label = w' at change carried ⊢
  refine ⟨mailed.numbered.step change, all_step books_kept mailed.numbered mailed.books change,
    all_step unopened_kept mailed.numbered mailed.unopened change, ?_, ?_, mailed.writes,
    mailed.disk⟩
  · intro id c' here
    have there : w'.connections id = some c' := here
    have one := carried id
    rw [there] at one
    cases old : s.world.connections id with
    | none =>
      rw [old] at one
      cases one with
      | accepted _ delivered unopened =>
        refine ⟨delivered.trans (mailed.unborn id old).symm, fun _ open_ => ?_⟩
        rw [unopened] at open_
        cases open_
    | some c =>
      rw [old] at one
      cases one with
      | kept _ _ delivered opened =>
        obtain ⟨calls, object⟩ := mailed.tied id c old
        exact ⟨delivered.trans calls, fun running open_ => object running (opened.symm.trans open_)⟩
  · intro id here
    have there : w'.connections id = none := here
    have one := carried id
    rw [there] at one
    cases old : s.world.connections id with
    | none => exact mailed.unborn id old
    | some c =>
      rw [old] at one
      cases one

/-- A block has run: its own connection is in question. -/
theorem Mailed.ran (mailed : Mailed lower name s) {block : App.Block} {queue : List App.Block}
    {c : Connection} (waiting : s.world.queue = block :: queue)
    (here : s.world.connections block.id = some c) {sockets : Nat → Option SMSocket}
    {writes : List Write} {crashed : Bool} {calls : List (Nat × Event)}
    (tied : Tied lower name
      { s with sockets := sockets, writes := writes, crashed := crashed, calls := calls } block.id
      (c.runBlock block))
    (others : ∀ id, id ≠ block.id →
      sockets id = s.sockets id ∧ eventsOf id calls = eventsOf id s.calls)
    (running : crashed = false → s.crashed = false)
    (written : s.made ++ writes = writesOf lower name calls) :
    Mailed lower name
      { s with
        world := s.world.step env .run
        sockets := sockets
        writes := writes
        crashed := crashed
        calls := calls } := by
  have change := step_change env s.world .run mailed.numbered
  have connections : (s.world.step env .run).connections =
      Function.update s.world.connections block.id (some (c.runBlock block)) := by
    rw [World.step, World.runNext, waiting]
    dsimp only
    rw [here]
    rfl
  generalize s.world.step env .run = w' at change connections ⊢
  refine ⟨mailed.numbered.step change, all_step books_kept mailed.numbered mailed.books change,
    all_step unopened_kept mailed.numbered mailed.unopened change, ?_, ?_, written, mailed.disk⟩
  · intro id c' there
    have found : w'.connections id = some c' := there
    rw [connections] at found
    by_cases same : id = block.id
    · rw [same, Function.update_self] at found
      rw [← Option.some.inj found, same]
      exact ⟨tied.calls, tied.object⟩
    · rw [Function.update_of_ne same] at found
      obtain ⟨own, object⟩ := mailed.tied id c' found
      obtain ⟨socket, events⟩ := others id same
      refine ⟨own.trans events.symm, fun still open_ => ?_⟩
      obtain ⟨object', present, run_⟩ := object (running still) open_
      refine ⟨object', socket.trans present, ?_⟩
      show appRun lower _ (eventsOf id calls) = _
      rw [events]
      exact run_
  · intro id there
    have found : w'.connections id = none := there
    rw [connections] at found
    by_cases same : id = block.id
    · rw [same, Function.update_self] at found
      cases found
    · rw [Function.update_of_ne same] at found
      exact (others id same).2.trans (mailed.unborn id found)

private theorem runBlock_kept (c : Connection) (block : App.Block)
    (other : c.destroyed = true ∨ block.isClosed = true) :
    (c.runBlock block).delivered = c.delivered ∧ (c.runBlock block).opened = c.opened := by
  cases block with
  | opened id =>
    have freed := other.resolve_right (by simp [App.Block.isClosed])
    rw [Connection.runBlock, if_pos freed]
    exact ⟨rfl, rfl⟩
  | call id event =>
    have freed := other.resolve_right (by simp [App.Block.isClosed])
    rw [Connection.runBlock, if_pos freed]
    exact ⟨rfl, rfl⟩
  | closed id =>
    rw [Connection.runBlock]
    split <;> exact ⟨rfl, rfl⟩

/-- Calls wait only where the handlers are there. -/
private theorem opened_of_call {id : Nat} {event : Event} {blocks : List App.Block} {c : Connection}
    (books : Books (.call id event :: blocks) c) : c.opened = true := by
  cases opened : c.opened with
  | true => rfl
  | false =>
    have accounts := books.accounts
    rw [(books.bare opened).2] at accounts
    have missing := (List.append_eq_nil_iff.mp accounts).2
    cases missing

/-- Before the handlers are there no call is made. -/
theorem delivered_of_unopened {blocks : List App.Block} {c : Connection} (books : Books blocks c)
    (opened : c.opened = false) : c.delivered = [] := by
  have accounts := books.accounts
  rw [(books.bare opened).2] at accounts
  exact (List.append_eq_nil_iff.mp (List.append_eq_nil_iff.mp accounts).1).1

/-- The handler queue runs a block, and the block in front has written. -/
theorem Mailed.runNext (mailed : Mailed lower name s) (running : s.crashed = false)
    (idle : s.writes = []) : Mailed lower name (s.runNext lower env name) := by
  rw [Server.runNext]
  cases waiting : s.world.queue with
  | nil => exact mailed
  | cons block queue =>
    obtain ⟨c, here⟩ := mailed.numbered.blocks block (by rw [waiting]; exact List.mem_cons_self ..)
    have books := mailed.books block.id c here
    have unopened := mailed.unopened block.id c here
    rw [waiting, (own_next block queue).1] at books unopened
    obtain ⟨calls, object⟩ := mailed.tied block.id c here
    have same : ∀ id, id ≠ block.id →
        s.sockets id = s.sockets id ∧ eventsOf id s.calls = eventsOf id s.calls :=
      fun id _ => ⟨rfl, rfl⟩
    dsimp only
    rw [here]
    dsimp only
    have nothing : c.destroyed = true ∨ block.isClosed = true →
        Mailed lower name { s with world := s.world.step env .run } := by
      intro other
      obtain ⟨delivered, opened⟩ := runBlock_kept c block other
      refine mailed.ran waiting here ⟨delivered.trans calls, fun still open_ => ?_⟩ same id
        mailed.writes
      exact object still (opened.symm.trans open_)
    split
    next freed => exact nothing (.inl freed)
    next there =>
      cases block with
      | closed id => exact nothing (.inr rfl)
      | opened id =>
        -- the object is there before the first call
        have before := unopened.before (by rw [List.countP_cons_of_pos (by rfl)]; omega)
        have missing := delivered_of_unopened books before
        have events : eventsOf id s.calls = [] := calls.symm.trans missing
        have run_ : c.runBlock (.opened id) = c.install := if_neg there
        refine mailed.ran waiting here ⟨?_, fun _ _ => ?_⟩ ?_ (fun still => still) mailed.writes
        · rw [run_]
          exact calls
        · refine ⟨SMSocket.init (name id), Function.update_self .., ?_⟩
          show appRun lower _ (eventsOf id s.calls) = _
          rw [events]
          rfl
        · exact fun id' other => ⟨Function.update_of_ne other .., rfl⟩
      | call id event =>
        obtain ⟨socket, present, run_⟩ := object running (opened_of_call books)
        have delivered : c.runBlock (.call id event) = { c with delivered := c.delivered ++ [event] } :=
          if_neg there
        have own : eventsOf id (s.calls ++ [(id, event)]) = eventsOf id s.calls ++ [event] := by
          rw [eventsOf_snoc, if_pos rfl]
        have done : appStep lower (appRun lower (some (SMSocket.init (name id)))
            (eventsOf id s.calls)) event = App.appCall lower socket event := by
          have before : appRun lower (some (SMSocket.init (name id))) (eventsOf id s.calls) =
              some socket := run_
          rw [before]
          rfl
        have found : Server.appCall lower { s with world := s.world.step env .run } id event =
            { s with
              world := s.world.step env .run
              sockets := Function.update s.sockets id (App.appCall lower socket event).1
              writes := (App.appCall lower socket event).2
              crashed := (App.appCall lower socket event).1.isNone
              calls := s.calls ++ [(id, event)] } := by
          unfold Server.appCall
          have object_ : s.sockets id = some socket := present
          dsimp only
          rw [object_]
        dsimp only
        rw [found]
        refine mailed.ran waiting here ⟨?_, fun still _ => ?_⟩ ?_ ?_ ?_
        · rw [delivered]
          show c.delivered ++ [event] = eventsOf id (s.calls ++ [(id, event)])
          rw [own]
          exact congrArg (· ++ [event]) calls
        · have some' : (App.appCall lower socket event).1.isNone = false := still
          obtain ⟨socket', made⟩ := Option.isSome_iff_exists.mp
            (by rw [← Option.not_isNone, some']; rfl :
              (App.appCall lower socket event).1.isSome = true)
          refine ⟨socket', (Function.update_self ..).trans made, ?_⟩
          show appRun lower _ (eventsOf id (s.calls ++ [(id, event)])) = _
          rw [own, appRun_append]
          exact (congrArg Prod.fst done).trans made
        · intro id' other
          refine ⟨Function.update_of_ne other .., ?_⟩
          have apart : id ≠ id' := Ne.symm other
          rw [eventsOf_snoc, if_neg apart, List.append_nil]
        · exact fun _ => running
        · have written := mailed.writes
          rw [idle, List.append_nil] at written
          rw [writesOf_snoc, ← written, callWrites]
          exact congrArg (fun result : Option SMSocket × List Write => s.made ++ result.2) done.symm

theorem Mailed.write (mailed : Mailed lower name s) : Mailed lower name s.write := by
  rw [Server.write]
  cases writes : s.writes with
  | nil => exact mailed
  | cons write writes_ =>
    have written := mailed.writes
    rw [writes] at written
    refine ⟨mailed.numbered, mailed.books, mailed.unopened,
      fun id c here => ⟨(mailed.tied id c here).calls, (mailed.tied id c here).object⟩,
      mailed.unborn, ?_, ?_⟩
    · rw [← written, List.append_assoc]
      rfl
    · show s.disk.write write = Disk.after (s.made ++ [write])
      rw [Disk.after_snoc, mailed.disk]

end Steps

end

end Spamass.Site
