import Spamass.Emailz.Socket
import Spamass.Runs

/-!
# Accepted connections

From the accept event of a listener to the cleanup handler of a channel, with the two
counters `emailz_s` keeps of its connections. `accept` and `setsockopt` may fail on every
event; the counters, the greeting and the socket do not notice.
-/
namespace Spamass.Emailz

open Spamass.Runs

/-- The part of `emailz_socket_s` a connection is started with. -/
structure AcceptedSocket where
  socketfd : Int
  queue : Bool
  -- `dispatch_io_create` has made the channel
  channel : Bool
  outbytes : Nat
  -- what was handed to `dispatch_io_write`
  replies : List Reply
  -- the cleanup handler has run
  cleaned : Bool
  -- `emailz_socket_destroy` has freed the socket
  destroyed : Bool
  deriving DecidableEq, Repr

/-- `emailz_s`, the sockets it has made, and the blocks that wait on the handler queue. -/
structure Accounts where
  handlerQueue : Bool
  socketQueue : Bool
  bytesSent : Nat
  socketsOpen : Nat
  socketsTotal : Nat
  sockets : List AcceptedSocket
  -- the descriptors of the accept blocks
  waiting : List Int
  deriving DecidableEq, Repr

/-- `emailz_start`; the application may have set a handler queue before. -/
def Accounts.start (handlerQueue : Bool) : Accounts where
  handlerQueue := handlerQueue
  socketQueue := true
  bytesSent := 0
  socketsOpen := 0
  socketsTotal := 0
  sockets := []
  waiting := []

/-- `emailz_socket_create`. -/
def Accounts.socketCreate (a : Accounts) (socketfd : Int) : AcceptedSocket where
  socketfd := socketfd
  queue := a.socketQueue
  channel := false
  outbytes := 0
  replies := []
  cleaned := false
  destroyed := false

/-- `setsockopt(TCP_NODELAY)`, which fails on a bad descriptor. -/
def setsockopt (socketfd : Int) (succeeds : Bool) : Int :=
  if socketfd < 0 then -1 else if succeeds then 0 else -1

/-- `emailz_socket_start`, and what it returns. -/
def AcceptedSocket.start (s : AcceptedSocket) (nodelay : Bool) : AcceptedSocket × Bool :=
  if !s.queue then (s, false)
  else if setsockopt s.socketfd nodelay ≠ 0 then (s, false)
  else ({ s with channel := true }, true)

/-- `emailz_socket_handle_write` without a context: no test of the channel. -/
def AcceptedSocket.handleWrite (s : AcceptedSocket) (reply : Reply) : AcceptedSocket :=
  { s with outbytes := s.outbytes + reply.text.length, replies := s.replies ++ [reply] }

/-- `emailz_handle_accept`. -/
def Accounts.handleAccept (a : Accounts) (socketfd : Int) (nodelay : Bool) : Accounts :=
  -- what `emailz_socket_start` returns is dropped
  let started := ((a.socketCreate socketfd).start nodelay).1
  { a with
    socketsOpen := a.socketsOpen + 1
    socketsTotal := a.socketsTotal + 1
    bytesSent := a.bytesSent + Reply.greeting.text.length
    sockets := a.sockets ++ [started.handleWrite .greeting] }

inductive AcceptStep where
  /-- the event handler of a listener, with what `accept` returned -/
  | event (sock : Int)
  /-- the next accept block, and whether the socket takes the option -/
  | handle (nodelay : Bool)
  /-- the cleanup handler of a channel -/
  | cleanup (id : Nat)
  deriving DecidableEq, Repr

def Accounts.event (a : Accounts) (sock : Int) : Accounts :=
  if sock ≠ 0 then if a.handlerQueue then { a with waiting := a.waiting ++ [sock] } else a else a

/-- The cleanup handler runs once, and only for a channel that was made. -/
def Accounts.cleanup (a : Accounts) (id : Nat) : Accounts :=
  match a.sockets[id]? with
  | none => a
  | some s =>
    if s.channel && !s.cleaned then
      { a with
        socketsOpen := a.socketsOpen - 1
        sockets := a.sockets.set id { s with cleaned := true, destroyed := true } }
    else a

def Accounts.step (a : Accounts) : AcceptStep → Accounts
  | .event sock => a.event sock
  | .handle nodelay =>
    match a.waiting with
    | [] => a
    | sock :: waiting => { a with waiting := waiting }.handleAccept sock nodelay
  | .cleanup id => a.cleanup id

/-! ### What the counters should say -/

/-- A channel was made, and its cleanup handler has not run yet. -/
def AcceptedSocket.live (s : AcceptedSocket) : Bool := s.channel && !s.cleaned

/-- The counters count the connections that were accepted and started, and nothing is left of an
event that failed. -/
structure Balanced (a : Accounts) : Prop where
  open_ : a.socketsOpen = a.sockets.countP (·.live)
  bound : a.socketsOpen ≤ a.socketsTotal
  total : a.socketsTotal = a.sockets.countP (·.channel)
  accepted : ∀ s ∈ a.sockets, s.channel = true → 0 ≤ s.socketfd
  failed : ∀ s ∈ a.sockets, s.channel = false → s.replies = [] ∧ s.destroyed = true

/-- The descriptor of the block came from an `accept` that succeeded, and takes the option. -/
def Succeeds (a : Accounts) : AcceptStep → Prop
  | .handle nodelay => ∀ sock waiting, a.waiting = sock :: waiting → 0 ≤ sock ∧ nodelay = true
  | _ => True

/-! ### What they do say -/

/-- What became of a socket that was made: its channel, or the greeting alone. -/
structure Greeted (s : AcceptedSocket) : Prop where
  accepted : s.channel = true → 0 ≤ s.socketfd
  greeted : s.replies = [.greeting]
  cleaned : s.cleaned = true → s.channel = true
  destroyed : s.destroyed = s.cleaned

/-- Every event counts for good, unless a cleanup handler takes it back. -/
structure Booked (a : Accounts) : Prop where
  socketQueue : a.socketQueue = true
  total : a.socketsTotal = a.sockets.length
  open_ : a.socketsOpen = a.sockets.countP (! ·.cleaned)
  kept : ∀ s ∈ a.sockets, Greeted s

private theorem booked_start (handlerQueue : Bool) : Booked (Accounts.start handlerQueue) where
  socketQueue := rfl
  total := rfl
  open_ := rfl
  kept := nofun

/-- The socket of an accept block, as the greeting leaves it. -/
private theorem greeted_start (a : Accounts) (socketfd : Int) (nodelay : Bool) :
    Greeted (((a.socketCreate socketfd).start nodelay).1.handleWrite .greeting) := by
  unfold AcceptedSocket.start
  split_ifs with queue option
  · exact ⟨nofun, rfl, nofun, rfl⟩
  · exact ⟨nofun, rfl, nofun, rfl⟩
  · have good : ¬socketfd < 0 := by
      intro bad
      apply option
      simp [setsockopt, Accounts.socketCreate, bad]
    exact ⟨fun _ => Int.not_lt.mp good, rfl, fun _ => rfl, rfl⟩

private theorem channel_greeted (a : Accounts) (socketfd : Int) (nodelay : Bool)
    (queue : a.socketQueue = true) :
    (((a.socketCreate socketfd).start nodelay).1.handleWrite .greeting).channel = true ↔
      0 ≤ socketfd ∧ nodelay = true := by
  unfold AcceptedSocket.start
  by_cases bad : socketfd < 0
  · have under : ¬0 ≤ socketfd := Int.not_le.mpr bad
    simp [setsockopt, Accounts.socketCreate, AcceptedSocket.handleWrite, queue, bad, under]
  · cases nodelay <;>
      simp [setsockopt, Accounts.socketCreate, AcceptedSocket.handleWrite, queue, bad,
        Int.not_lt.mp bad]

private theorem not_cleaned_greeted (a : Accounts) (socketfd : Int) (nodelay : Bool) :
    (((a.socketCreate socketfd).start nodelay).1.handleWrite .greeting).cleaned = false := by
  unfold AcceptedSocket.start
  split_ifs <;> rfl

theorem handleAccept_booked {a : Accounts} (booked : Booked a) (socketfd : Int) (nodelay : Bool) :
    Booked (a.handleAccept socketfd nodelay) where
  socketQueue := booked.socketQueue
  total := by simp [Accounts.handleAccept, booked.total]
  open_ := by
    simp [Accounts.handleAccept, booked.open_, List.countP_append,
      not_cleaned_greeted a socketfd nodelay]
  kept := by
    intro s member
    rcases List.mem_append.mp member with old | new
    · exact booked.kept s old
    · rw [List.mem_singleton.mp new]
      exact greeted_start a socketfd nodelay

theorem cleanup_booked {a : Accounts} (booked : Booked a) (id : Nat) : Booked (a.cleanup id) := by
  unfold Accounts.cleanup
  split
  · exact booked
  next s here =>
    split
    next live =>
      rw [Bool.and_eq_true, Bool.not_eq_true'] at live
      obtain ⟨within, found⟩ := List.getElem?_eq_some_iff.mp here
      have old := booked.kept s (List.mem_of_getElem? here)
      constructor
      · exact booked.socketQueue
      · exact booked.total.trans (List.length_set ..).symm
      · dsimp only
        rw [booked.open_, List.countP_set within, found]
        simp [live.2]
      · intro s' member
        rcases List.mem_or_eq_of_mem_set member with same | rfl
        · exact booked.kept s' same
        · exact ⟨old.accepted, old.greeted, fun _ => live.1, rfl⟩
    · exact booked

/-- An accept event at most queues a block. -/
private theorem step_event (a : Accounts) (sock : Int) :
    ∃ waiting, a.step (.event sock) = { a with waiting := waiting } := by
  simp only [Accounts.step, Accounts.event]
  split_ifs
  · exact ⟨a.waiting ++ [sock], rfl⟩
  · exact ⟨a.waiting, rfl⟩
  · exact ⟨a.waiting, rfl⟩

private theorem booked_waiting {a : Accounts} (booked : Booked a) (waiting : List Int) :
    Booked { a with waiting := waiting } :=
  ⟨booked.socketQueue, booked.total, booked.open_, booked.kept⟩

private theorem step_handle (a : Accounts) (nodelay : Bool) :
    a.step (.handle nodelay) =
      match a.waiting with
      | [] => a
      | sock :: waiting => { a with waiting := waiting }.handleAccept sock nodelay := rfl

private theorem step_booked {a : Accounts} (booked : Booked a) (label : AcceptStep) :
    Booked (a.step label) := by
  cases label with
  | event sock =>
    obtain ⟨waiting, step⟩ := step_event a sock
    rw [step]
    exact booked_waiting booked waiting
  | handle nodelay =>
    rw [step_handle]
    split
    · exact booked
    next sock waiting _ => exact handleAccept_booked (booked_waiting booked waiting) sock nodelay
  | cleanup id => exact cleanup_booked booked id

/-- In every run `sockets_open` is off by the sockets that got no channel, and `sockets_total`
counts them as well. -/
private theorem booked_off {a : Accounts} (booked : Booked a) :
    a.socketsOpen = a.sockets.countP (·.live) + a.sockets.countP (! ·.channel) ∧
      a.socketsTotal = a.sockets.countP (·.channel) + a.sockets.countP (! ·.channel) := by
  obtain ⟨-, total, open_, kept⟩ := booked
  rw [total, open_]
  clear total open_
  generalize a.sockets = sockets at kept ⊢
  -- on the sockets: one without a channel is never cleaned up, and stays in both counts
  induction sockets with
  | nil => exact ⟨rfl, rfl⟩
  | cons s sockets ih =>
    have here := kept s (List.mem_cons_self ..)
    obtain ⟨open_, total⟩ := ih fun later member => kept later (List.mem_cons_of_mem _ member)
    have one : (if (!s.cleaned) = true then 1 else 0) =
        (if s.live = true then 1 else 0) + (if (!s.channel) = true then 1 else 0) ∧
        1 = (if s.channel = true then 1 else 0) + (if (!s.channel) = true then 1 else 0) := by
      have cleaned := here.cleaned
      unfold AcceptedSocket.live
      cases channel : s.channel with
      | true => simp
      | false =>
        rw [channel] at cleaned
        have not_ : s.cleaned = false := Bool.eq_false_iff.mpr fun gone => nomatch cleaned gone
        simp [not_]
    rw [List.countP_cons, List.countP_cons, List.countP_cons, List.countP_cons, List.length_cons]
    omega

private theorem balanced_iff {a : Accounts} (booked : Booked a) :
    Balanced a ↔ ∀ s ∈ a.sockets, s.channel = true := by
  obtain ⟨open_, total⟩ := booked_off booked
  constructor
  · intro balanced s member
    by_contra missing
    obtain ⟨silent, -⟩ := balanced.failed s member (by simpa using missing)
    rw [(booked.kept s member).greeted] at silent
    cases silent
  · intro all
    have missing : a.sockets.countP (! ·.channel) = 0 := by
      rw [List.countP_eq_zero]
      intro s member
      simp [all s member]
    rw [missing, Nat.add_zero] at open_ total
    have less : a.sockets.countP (·.live) ≤ a.sockets.countP (·.channel) := by
      apply List.countP_mono_left
      intro s _ live
      exact (Bool.and_eq_true_iff.mp live).1
    refine ⟨open_, by omega, total, fun s member => (booked.kept s member).accepted, ?_⟩
    intro s member channel
    exact absurd ((all s member).symm.trans channel) nofun

/-- One step makes a socket without a channel exactly if it handles an event that failed. -/
private theorem step_channels {a : Accounts} (booked : Booked a)
    (all : ∀ s ∈ a.sockets, s.channel = true) (label : AcceptStep) :
    (∀ s ∈ (a.step label).sockets, s.channel = true) ↔ Succeeds a label := by
  cases label with
  | event sock =>
    obtain ⟨waiting, step⟩ := step_event a sock
    rw [step]
    exact iff_of_true all trivial
  | handle nodelay =>
    rw [step_handle]
    cases blocks : a.waiting with
    | nil =>
      refine iff_of_true all ?_
      intro sock waiting present
      rw [blocks] at present
      cases present
    | cons sock waiting =>
      have greeted := channel_greeted { a with waiting := waiting } sock nodelay booked.socketQueue
      have sockets : ({ a with waiting := waiting }.handleAccept sock nodelay).sockets =
          a.sockets ++ [(({ a with waiting := waiting }.socketCreate sock).start
            nodelay).1.handleWrite .greeting] := rfl
      dsimp only
      -- one socket is appended; its channel is there if the descriptor and the option are
      rw [sockets, List.forall_mem_append, List.forall_mem_singleton, greeted]
      constructor
      · rintro ⟨-, succeeds⟩ sock' waiting' same
        rw [blocks] at same
        obtain ⟨rfl, -⟩ := List.cons.inj same
        exact succeeds
      · intro succeeds
        exact ⟨all, succeeds sock waiting blocks⟩
  | cleanup id =>
    refine iff_of_true ?_ trivial
    change ∀ s ∈ (a.cleanup id).sockets, s.channel = true
    unfold Accounts.cleanup
    split
    · exact all
    next s here =>
      split
      · intro s' member
        rcases List.mem_or_eq_of_mem_set member with same | rfl
        · exact all s' same
        · exact all s (List.mem_of_getElem? here)
      · exact all

/-- The accounts stay right, in whatever order events, blocks and cleanups come, exactly if every
block that runs has a descriptor that was accepted and takes the option. -/
theorem balanced_iff_succeeds (handlerQueue : Bool) (steps : List AcceptStep) :
    Always Accounts.step Balanced (Accounts.start handlerQueue) steps ↔
      Each Accounts.step Succeeds (Accounts.start handlerQueue) steps := by
  have keeps : ∀ a label, Booked a → Booked (a.step label) := fun _ label booked =>
    step_booked booked label
  have exactly : ∀ a label, Booked a → Balanced a → (Balanced (a.step label) ↔ Succeeds a label) := by
    intro a label booked balanced
    rw [balanced_iff (step_booked booked label)]
    exact step_channels booked ((balanced_iff booked).mp balanced) label
  have start := booked_start handlerQueue
  have here : Balanced (Accounts.start handlerQueue) := (balanced_iff start).mpr nofun
  exact always_iff_each Accounts.step keeps exactly start here steps

/-- One failed `accept`: a connection is counted, greeted and kept. -/
theorem failed_accept_counted :
    ¬ Always Accounts.step Balanced (Accounts.start true) [.event (-1), .handle true] ∧
      (run Accounts.step (Accounts.start true) [.event (-1), .handle true]).socketsOpen = 1 := by
  refine ⟨?_, rfl⟩
  intro always
  have open_ := (always_run Accounts.step always).open_
  revert open_
  decide

end Spamass.Emailz
