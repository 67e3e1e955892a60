import Spamass.App.World

/-!
# No acknowledged command is lost

Every MAIL, every RCPT and every line of a mail owes the application a call. Over
every schedule of the two queues the calls made and the calls pending are the calls
owed, in the order of the stream, exactly if no line that owes a call is handled
before the OPEN block ran, and no call runs after its socket was freed.
-/
namespace Spamass.App

open Spamass.Framing Spamass.Emailz Spamass.Runs

/-! ### What a line owes -/

def owedBy : Phase → Bytes → List Event
  | .command, line =>
    match lineCommand line with
    | some .mail => [.smtp .mail (argument line)]
    | some .rcpt => [.smtp .rcpt (argument line)]
    | _ => []
  | .mail size, line =>
    if line = endOfMail then [.data [] true]
    else [.data line (decide (maxIndataSize < size + line.length))]

def owed : Phase → List Bytes → List Event
  | _, [] => []
  | phase, line :: lines => owedBy phase line ++ owed (phase.next line) lines

private theorem owed_append (phase : Phase) (xs ys : List Bytes) :
    owed phase (xs ++ ys) = owed phase xs ++ owed (phase.after xs) ys := by
  induction xs generalizing phase with
  | nil => rfl
  | cons line lines ih => simp [owed, ih, Phase.after]

private theorem idle_filter (log : List Event) (idle : ∀ event ∈ log, Event.runs event = false) :
    log.filter Event.runs = [] := by
  rw [List.filter_eq_nil_iff]
  intro event member
  simp [idle event member]

/-- With the application's handlers, a line makes the calls it owes. -/
private theorem handled_calls {env : Env} {s : Session} {line : Bytes} {after : Step Session Event}
    (handled : Handled env s line after) (installed : s.toHandlers = appHandlers) :
    after.events.filter Event.runs = owedBy s.phase line := by
  cases handled with
  | ended completion _ mail last =>
    simp [dataCallback_app s installed, Session.phase, mail, owedBy, last, Event.runs, List.filter]
  | overrun mail other large =>
    simp [dataCallback_app s installed, Session.phase, mail, owedBy, other, large, Event.runs,
      List.filter]
  | mail mail other small =>
    have within : ¬ maxIndataSize < s.emailSize + line.length := by omega
    simp [dataCallback_app s installed, Session.phase, mail, owedBy, other, within, Event.runs]
  | wordless command missing => simp [Session.phase, command, owedBy, missing, Event.runs]
  | command c result command present _ answered =>
    have quiet := idle_filter result.2 (answered_idle answered)
    rw [List.filter_cons_of_neg (by simp [Event.runs]), List.filter_append, quiet,
      smtpCallback_app s installed, (phase_command_iff s).mpr command]
    cases c <;> simp [owedBy, present, Event.runs]

/-- Without handlers it makes none. -/
private theorem handled_silent {env : Env} {s : Session} {line : Bytes} {after : Step Session Event}
    (handled : Handled env s line after) (smtp : s.smtpHandler = false)
    (data : s.dataHandler = false) : after.events.filter Event.runs = [] := by
  cases handled with
  | command c result command present _ answered =>
    have quiet := idle_filter result.2 (answered_idle answered)
    rw [List.filter_cons_of_neg (by simp [Event.runs]), List.filter_append, quiet]
    simp [smtpCallback, smtp]
  | _ => simp [dataCallback, data, Event.runs]

theorem talk_phase {env : Env} {handlers : Handlers} {phase after : Phase} {log : List Event}
    (talk : Talk env handlers phase log after) : after = phase.after (linesOf log) := by
  induction talk with
  | silence => rfl
  | stop _ ih => exact ih
  | line s line _ _ ih =>
    rw [ih, linesOf_append, (handleLine_handled env s line).lines]
    rfl

private theorem talk_calls {env : Env} {phase after : Phase} {log : List Event}
    (talk : Talk env appHandlers phase log after) :
    log.filter Event.runs = owed phase (linesOf log) := by
  induction talk with
  | silence => rfl
  | stop _ ih => exact ih
  | line s line installed _ ih =>
    have handled := handleLine_handled env s line
    rw [List.filter_append, ih, handled_calls handled installed, linesOf_append,
      handled.lines]
    rfl

theorem talk_silent {env : Env} {handlers : Handlers} {phase after : Phase} {log : List Event}
    (talk : Talk env handlers phase log after) (smtp : handlers.smtpHandler = false)
    (data : handlers.dataHandler = false) : log.filter Event.runs = [] := by
  induction talk with
  | silence => rfl
  | stop _ ih => exact ih
  | line s line installed _ ih =>
    subst installed
    rw [List.filter_append, ih,
      handled_silent (handleLine_handled env s line) smtp data]
    rfl

/-! ### The books of a connection -/

/-- The calls among the pending blocks of a socket. -/
def callsIn (blocks : List Block) : List Event :=
  blocks.filterMap fun
    | .call _ event => some event
    | _ => none

theorem callsIn_append (xs ys : List Block) : callsIn (xs ++ ys) = callsIn xs ++ callsIn ys :=
  List.filterMap_append

private theorem callsIn_calls (id : Nat) (log : List Event) :
    callsIn (calls id log) = log.filter Event.runs := by
  simp [callsIn, calls, List.filterMap_map]

/-- The handlers of a socket on which none are installed. -/
def bareHandlers : Handlers := (Socket.fresh 0 0 false).toHandlers

structure Books (blocks : List Block) (c : Connection) : Prop where
  bare : c.opened = false → c.socket.toHandlers = bareHandlers ∧ c.late = []
  installed : c.opened = true → c.socket.toHandlers = appHandlers
  phase : c.socket.phase = Phase.command.after (linesOf c.log)
  accounts : c.delivered ++ c.stale ++ callsIn blocks =
    owed (Phase.command.after (linesOf c.early)) (linesOf c.late)
  stale : c.destroyed = false → c.stale = []

private theorem after_append (phase : Phase) (xs ys : List Bytes) :
    phase.after (xs ++ ys) = (phase.after xs).after ys :=
  List.foldl_append

/-- Input handled on the socket queue queues the calls it owes, once the handlers are installed. -/
private theorem books_advance (env : Env) (id : Nat) (blocks : List Block) (c : Connection)
    (result : Socket × List Event) (talks : Talks env c.socket result) (books : Books blocks c) :
    Books (blocks ++ calls id result.2) (c.advance result) := by
  obtain ⟨kept, talk⟩ := talks
  have phase : result.1.phase = Phase.command.after (linesOf (c.log ++ result.2)) := by
    rw [talk_phase talk, books.phase, linesOf_append, after_append]
  have more : callsIn (blocks ++ calls id result.2) =
      callsIn blocks ++ result.2.filter Event.runs := by
    rw [callsIn_append, callsIn_calls]
  have accounts := books.accounts
  cases opened : c.opened with
  -- before the OPEN block has run no handler is installed, and nothing is queued
  | false =>
    obtain ⟨bare, late⟩ := books.bare opened
    have silent : result.2.filter Event.runs = [] := by
      apply talk_silent talk
      · rw [bare]; rfl
      · rw [bare]; rfl
    have advance : c.advance result =
        { c with socket := result.1, early := c.early ++ result.2 } := by
      simp [Connection.advance, opened]
    rw [late] at accounts
    rw [advance]
    refine ⟨fun _ => ⟨kept.trans bare, late⟩, fun yes => ?_, ?_, ?_, books.stale⟩
    · rw [opened] at yes
      cases yes
    · rw [phase]
      simp [Connection.log, late]
    · rw [more, silent, List.append_nil, late]
      exact accounts
  -- with the handlers in place every call of the lines read is queued
  | true =>
    have installed := books.installed opened
    rw [installed, books.phase] at talk
    have advance : c.advance result =
        { c with socket := result.1, late := c.late ++ result.2 } := by
      simp [Connection.advance, opened]
    rw [advance]
    refine ⟨fun no => ?_, fun _ => kept.trans installed, ?_, ?_, books.stale⟩
    · rw [opened] at no
      cases no
    · rw [phase]
      simp [Connection.log]
    · rw [more, ← List.append_assoc, accounts, talk_calls talk, linesOf_append, owed_append,
        Connection.log, linesOf_append, after_append]

/-- The OPEN block: from here on calls are made. -/
private theorem books_install (blocks : List Block) (c : Connection) (books : Books blocks c) :
    Books blocks c.install := by
  have installed : c.install.socket.toHandlers = appHandlers := by
    cases opened : c.opened with
    | false =>
      simp only [Connection.install]
      rw [(books.bare opened).1]
      rfl
    | true =>
      simp only [Connection.install]
      rw [books.installed opened]
      rfl
  refine ⟨fun no => ?_, fun _ => installed, books.phase, books.accounts, books.stale⟩
  cases no

/-- A block that runs takes the first pending call over to the delivered ones, or loses it. -/
private theorem books_runBlock (block : Block) (blocks : List Block) (c : Connection)
    (books : Books (block :: blocks) c) : Books blocks (c.runBlock block) := by
  have accounts := books.accounts
  cases block with
  | opened id =>
    have books : Books blocks c :=
      ⟨books.bare, books.installed, books.phase, accounts, books.stale⟩
    unfold Connection.runBlock
    dsimp only
    split
    · exact books
    · exact books_install blocks c books
  | closed id =>
    unfold Connection.runBlock
    dsimp only
    split
    · exact ⟨books.bare, books.installed, books.phase, accounts, books.stale⟩
    · exact ⟨books.bare, books.installed, books.phase, accounts, books.stale⟩
  | call id event =>
    have first : callsIn (.call id event :: blocks) = event :: callsIn blocks := rfl
    rw [first] at accounts
    unfold Connection.runBlock
    dsimp only
    split
    next freed =>
      -- the socket is gone, and the call with it
      refine ⟨books.bare, books.installed, books.phase, ?_, fun no => ?_⟩
      · rw [← accounts]
        simp
      · rw [freed] at no
        cases no
    next there =>
      have stale := books.stale (by simpa using there)
      refine ⟨books.bare, books.installed, books.phase, ?_, books.stale⟩
      rw [stale] at accounts ⊢
      rw [← accounts]
      simp

theorem books_kept : KeptByEach Books where
  start id socketfd now record := by
    refine ⟨fun _ => ⟨rfl, rfl⟩, fun opened => ?_, rfl, rfl, fun _ => rfl⟩
    cases opened
  handled env id blocks c result _ talks books := books_advance env id blocks c result talks books
  ran := books_runBlock
  cleaned id blocks c _ books := by
    refine ⟨books.bare, books.installed, books.phase, ?_, books.stale⟩
    rw [callsIn_append]
    exact (List.append_assoc ..).symm.trans ((List.append_nil _).trans books.accounts)
  freed blocks c _ _ books := by
    refine ⟨books.bare, books.installed, books.phase, books.accounts, fun no => ?_⟩
    cases no

/-! ### CallsComplete deliveries -/

/-- Each connection: the calls its handlers got and the calls still pending are the calls its
lines owe, each once and in order. -/
def CallsComplete : World → Prop :=
  World.All fun blocks c => c.delivered ++ callsIn blocks = owed .command (linesOf c.log)

/-- The schedule is in time: no line that owes a call is handled before the OPEN block of its
socket has run, and no call runs once its socket is freed. -/
def OnTime (env : Nat → Env) (w : World) : Label → Prop
  | .read id input => ∀ c, w.connections id = some c → c.opened = false → c.closing = false →
    owed c.socket.phase (linesOf (channelRead (env id) c.socket input).2) = []
  | .run => ∀ id event later c, w.queue = .call id event :: later → w.connections id = some c →
    c.destroyed = false
  | _ => True

/-- Nothing was owed early, and nothing was lost late. -/
def Intact : World → Prop :=
  World.All fun _ c => owed .command (linesOf c.early) = [] ∧ c.stale = []

private theorem complete_iff_intact (w : World) (all : w.All Books) : CallsComplete w ↔ Intact w := by
  refine forall_congr' fun id => forall_congr' fun c => forall_congr' fun here => ?_
  show c.delivered ++ callsIn (own id w.queue) = owed .command (linesOf c.log) ↔ _
  rw [Connection.log, linesOf_append, owed_append, ← (all id c here).accounts]
  constructor
  · intro whole
    -- both sides hold the delivered and the pending calls, so the rest is empty
    have sizes := congrArg List.length whole
    simp only [List.length_append] at sizes
    exact ⟨List.eq_nil_of_length_eq_zero (by omega), List.eq_nil_of_length_eq_zero (by omega)⟩
  · rintro ⟨early, stale⟩
    rw [early, stale]
    simp

/-- Input handled leaves a connection intact if it owed nothing early. -/
theorem intact_handled (w : World) (id : Nat) (c : Connection) (result : Socket × List Event)
    (all : w.All Books) (intact : Intact w) (here : w.connections id = some c) :
    Intact (w.handled id c result) ↔
      (c.opened = false → owed c.socket.phase (linesOf result.2) = []) := by
  obtain ⟨early, stale⟩ := intact id c here
  have books := all id c here
  obtain ⟨-, others⟩ := own_more id w.queue (calls id result.2) (calls_id id result.2)
  rw [Intact, all_put id (c.advance result) intact rfl others]
  cases opened : c.opened with
  | true => simp [Connection.advance, opened, early, stale]
  | false =>
    have log : c.log = c.early := by
      rw [Connection.log, (books.bare opened).2, List.append_nil]
    have phase := books.phase
    rw [log] at phase
    simp [Connection.advance, opened, stale, linesOf_append, owed_append, early, phase]

/-- A block that runs leaves its connection intact unless it is a call that comes too late. -/
private theorem intact_runBlock (block : Block) (c : Connection)
    (intact : owed .command (linesOf c.early) = [] ∧ c.stale = []) :
    (owed .command (linesOf (c.runBlock block).early) = [] ∧ (c.runBlock block).stale = []) ↔
      ((∃ id event, block = .call id event) → c.destroyed = false) := by
  cases freed : c.destroyed with
  | false => cases block <;> simp [Connection.runBlock, Connection.install, freed, intact]
  | true => cases block <;> simp [Connection.runBlock, freed, intact]

private theorem intact_step (env : Nat → Env) (w w' : World) (label : Label) (all : w.All Books)
    (intact : Intact w) (change : Change env w label w') : Intact w' ↔ OnTime env w label := by
  cases change with
  | idle _ _ excused connections _ queue =>
    have same : Intact w' := by
      intro id c here
      rw [connections] at here
      exact intact id c here
    refine iff_of_true same ?_
    cases label with
    | read id input =>
      intro c here _ open_
      have closing := excused c here
      rw [open_] at closing
      cases closing
    | run =>
      intro id event later c waiting
      rw [excused] at waiting
      cases waiting
    | _ => trivial
  | accepted socketfd now record _ connections _ queue =>
    obtain ⟨-, others⟩ := own_more w.count w.queue [.opened w.count] (by simp [Block.id])
    refine iff_of_true ?_ trivial
    rw [Intact, all_put w.count _ intact connections (by rw [queue]; exact others)]
    exact ⟨rfl, rfl⟩
  -- only a read of a bare connection can lose calls, and only then is it too early
  | read id input c here open_ =>
    rw [intact_handled w id c _ all intact here]
    constructor
    · intro quiet c' here' bare _
      rw [here] at here'
      obtain rfl := Option.some.inj here'
      exact quiet bare
    · exact fun all bare => all c here bare open_
  | stopped id c here open_ =>
    exact iff_of_true ((intact_handled w id c _ all intact here).mpr fun _ => rfl) trivial
  -- the OPEN block installs the handlers: what was read before it is owed
  | ran block queue c waiting here =>
    obtain ⟨-, others⟩ := own_next block queue
    rw [Intact, all_put block.id (c.runBlock block) intact rfl (by rw [waiting]; exact others),
      intact_runBlock block c (intact block.id c here)]
    constructor
    · intro there id event later c' first here'
      rw [waiting] at first
      obtain ⟨rfl, rfl⟩ := List.cons.inj first
      rw [Block.id, here'] at here
      obtain rfl := Option.some.inj here
      exact there ⟨id, event, rfl⟩
    · rintro all ⟨id, event, rfl⟩
      exact all id event queue c waiting here
  | cleaned id c here open_ =>
    obtain ⟨-, others⟩ := own_more id w.queue [.closed id] (by simp [Block.id])
    refine iff_of_true ?_ trivial
    rw [Intact, all_put id { c with closing := true } intact rfl others]
    exact intact id c here
  | freed id c here closing there =>
    refine iff_of_true ?_ trivial
    refine (all_put id { c with destroyed := true } intact ?_ ?_).mpr (intact id c here)
    · rfl
    · exact fun _ _ => rfl

/-- Over every schedule of accepts, reads, stops, cleanups and handler blocks, the calls made and
pending are the calls owed in every state exactly if every step is in time. -/
theorem complete_iff_onTime (env : Nat → Env) (labels : List Label) :
    Always (World.step env) CallsComplete .empty labels ↔
      Each (World.step env) (OnTime env) .empty labels := by
  have keeps : ∀ (w : World) label, Numbered w ∧ w.All Books →
      Numbered (w.step env label) ∧ (w.step env label).All Books := by
    rintro w label ⟨numbered, all⟩
    have change := step_change env w label numbered
    exact ⟨numbered.step change, all_step books_kept numbered all change⟩
  have start : Numbered .empty ∧ World.empty.All Books :=
    ⟨numbered_empty, fun _ _ missing => by cases missing⟩
  have intact : Intact .empty := fun _ _ missing => by cases missing
  rw [always_congr (World.step env) keeps (fun w kept => complete_iff_intact w kept.2) start]
  apply always_iff_each (World.step env) keeps _ start intact
  intro w label kept intact
  exact intact_step env w _ label kept.2 intact (step_change env w label kept.1)

/-- A client that talks before the OPEN block has run. -/
def hasty : List Label :=
  [.accept 3 1344297600000 false true,
    .read 0 ⟨false, some (plainRead (ascii "MAIL FROM:<a@b>\r\n")), false, 1344297600000,
      1344297600000⟩]

/-- What the client has said is answered, and the application never hears of it. -/
theorem hasty_lost : ¬ Always (World.step fun _ => Env.granted) CallsComplete .empty hasty := by
  intro always
  have complete : CallsComplete (run (World.step fun _ => Env.granted) .empty hasty) := always.2.2
  have owing : ((run (World.step fun _ => Env.granted) .empty hasty).connections 0).map
      (fun c => (c.delivered, owed .command (linesOf c.log))) =
        some ([], [.smtp .mail (ascii "FROM:<a@b>\r\n")]) := by decide
  have idle : callsIn (own 0 (run (World.step fun _ => Env.granted) .empty hasty).queue) = [] := by
    decide
  obtain ⟨c, here, both⟩ := Option.map_eq_some_iff.mp owing
  have nothing : c.delivered ++ callsIn _ = owed .command (linesOf c.log) := complete 0 c here
  obtain ⟨delivered, owes⟩ := Prod.mk.inj both
  rw [idle, delivered, owes] at nothing
  cases nothing

end Spamass.App
