import Spamass.App.World

/-!
# No block of a freed socket

The cleanup handler queues the CLOSE block and then frees the socket, which the
block still holds. Since the handler queue is serial, the CLOSE block is the last of
its socket: no block is pending for a freed socket, over a whole schedule, exactly
if every socket is freed after its CLOSE block has run.
-/
namespace Spamass.App

open Spamass.Framing Spamass.Emailz Spamass.Runs

/-- No pending block belongs to a freed socket. -/
def NoneFreed (w : World) : Prop :=
  ∀ block ∈ w.queue, ∀ c, w.connections block.id = some c → c.destroyed = false

/-- A socket is freed only when its CLOSE block has run. -/
def AfterClose (w : World) : Label → Prop
  | .destroy id => ∀ c, w.connections id = some c → c.closing = true → c.destroyed = false →
    c.closed = true
  | _ => True

def Block.isClosed : Block → Bool
  | .closed _ => true
  | _ => false

/-- The CLOSE block is the last one of its socket, and runs once. -/
structure Life (blocks : List Block) (c : Connection) : Prop where
  open_ : c.closing = false →
    c.destroyed = false ∧ c.closed = false ∧ ∀ block ∈ blocks, block.isClosed = false
  last : c.closing = true → c.closed = false → c.destroyed = false →
    ∃ front block, blocks = front ++ [block] ∧ block.isClosed = true ∧
      ∀ block ∈ front, block.isClosed = false
  closed : c.closed = true → blocks = []

private theorem advance_flags (c : Connection) (result : Socket × List Event) :
    (c.advance result).closing = c.closing ∧ (c.advance result).closed = c.closed ∧
      (c.advance result).destroyed = c.destroyed := by
  unfold Connection.advance
  split <;> exact ⟨rfl, rfl, rfl⟩

private theorem runBlock_flags (c : Connection) (block : Block) :
    (c.runBlock block).closing = c.closing ∧ (c.runBlock block).destroyed = c.destroyed ∧
      (c.runBlock block).closed = (c.closed || (block.isClosed && !c.destroyed)) := by
  cases freed : c.destroyed <;>
    cases block <;> simp [Connection.runBlock, Connection.install, Block.isClosed, freed]

/-- Before the cleanup the socket only gets blocks that are not the last. -/
private theorem life_handled (id : Nat) (blocks : List Block) (c : Connection)
    (result : Socket × List Event) (open_ : c.closing = false) (life : Life blocks c) :
    Life (blocks ++ calls id result.2) (c.advance result) := by
  obtain ⟨closing, closed, destroyed⟩ := advance_flags c result
  obtain ⟨there, unclosed, others⟩ := life.open_ open_
  refine ⟨fun _ => ⟨?_, ?_, ?_⟩, fun yes => ?_, fun yes => ?_⟩
  · rw [destroyed, there]
  · rw [closed, unclosed]
  · intro block member
    rcases List.mem_append.mp member with old | new
    · exact others block old
    · obtain ⟨event, -, rfl⟩ := List.mem_map.mp new
      rfl
  · rw [closing, open_] at yes
    cases yes
  · rw [closed, unclosed] at yes
    cases yes

/-- Running the CLOSE block leaves none behind; running another leaves it where it is. -/
private theorem life_ran (block : Block) (blocks : List Block) (c : Connection)
    (life : Life (block :: blocks) c) : Life blocks (c.runBlock block) := by
  obtain ⟨closing, destroyed, closed⟩ := runBlock_flags c block
  refine ⟨fun no => ?_, fun yes pending there => ?_, fun done => ?_⟩
  · rw [closing] at no
    obtain ⟨there, unclosed, others⟩ := life.open_ no
    have first := others block (List.mem_cons_self ..)
    exact ⟨destroyed.trans there, by rw [closed, unclosed, first]; rfl,
      fun block member => others block (List.mem_cons_of_mem _ member)⟩
  · rw [closing] at yes
    rw [destroyed] at there
    rw [closed, there, Bool.or_eq_false_iff] at pending
    obtain ⟨front, final, split, isClosed, others⟩ := life.last yes pending.1 there
    cases front with
    | nil =>
      -- the CLOSE block itself: then it has run now
      obtain ⟨rfl, -⟩ := List.cons.inj split
      rw [isClosed] at pending
      cases pending.2
    | cons first front =>
      obtain ⟨rfl, rfl⟩ := List.cons.inj split
      exact ⟨front, final, rfl, isClosed,
        fun block member => others block (List.mem_cons_of_mem _ member)⟩
  · rw [closed, Bool.or_eq_true, Bool.and_eq_true, Bool.not_eq_true'] at done
    rcases done with before | ⟨now, there⟩
    · cases life.closed before
    · cases unclosed : c.closed with
      | true => cases life.closed unclosed
      | false =>
        cases opened : c.closing with
        | false =>
          have other := (life.open_ opened).2.2 block (List.mem_cons_self ..)
          rw [now] at other
          cases other
        | true =>
          obtain ⟨front, final, split, -, others⟩ := life.last opened unclosed there
          cases front with
          | nil => exact (List.cons.inj split).2
          | cons first front =>
            obtain ⟨rfl, -⟩ := List.cons.inj split
            have other := others block (List.mem_cons_self ..)
            rw [now] at other
            cases other

private theorem life_kept : KeptByEach Life where
  start id socketfd now record := by
    refine ⟨fun _ => ⟨rfl, rfl, ?_⟩, fun yes => ?_, fun yes => ?_⟩
    · simp [Block.isClosed]
    · cases yes
    · cases yes
  handled _ id blocks c result open_ _ life := life_handled id blocks c result open_ life
  ran := life_ran
  cleaned id blocks c open_ life := by
    obtain ⟨there, unclosed, others⟩ := life.open_ open_
    refine ⟨fun no => ?_, fun _ _ _ => ⟨blocks, .closed id, rfl, rfl, others⟩, fun yes => ?_⟩
    · cases no
    · rw [unclosed] at yes
      cases yes
  freed blocks c closing there life := by
    refine ⟨fun no => ?_, fun _ _ yes => ?_, life.closed⟩
    · rw [closing] at no
      cases no
    · cases yes

/-! ### Freed sockets -/

/-- `NoneFreed`, connection by connection. -/
def FreedIdle : World → Prop := World.All fun blocks c => c.destroyed = true → blocks = []

private theorem noneFreed_iff_freedIdle (w : World) : NoneFreed w ↔ FreedIdle w := by
  constructor
  · intro missing id c here freed
    apply own_none
    intro block member same
    rw [← same] at here
    have there := missing block member c here
    rw [freed] at there
    cases there
  · intro quiet block member c here
    rw [Bool.eq_false_iff]
    intro freed
    have empty := quiet block.id c here freed
    have mine : block ∈ own block.id w.queue := by simp [own, member]
    rw [empty] at mine
    cases mine

private theorem quiet_handled (w : World) (id : Nat) (c : Connection) (result : Socket × List Event)
    (lives : w.All Life) (quiet : FreedIdle w) (here : w.connections id = some c)
    (open_ : c.closing = false) : FreedIdle (w.handled id c result) := by
  obtain ⟨-, others⟩ := own_more id w.queue (calls id result.2) (calls_id id result.2)
  have there := ((lives id c here).open_ open_).1
  rw [FreedIdle, all_put id (c.advance result) quiet rfl others, (advance_flags c result).2.2, there]
  rintro ⟨⟩

private theorem quiet_step (env : Nat → Env) (w w' : World) (label : Label) (lives : w.All Life)
    (quiet : FreedIdle w) (change : Change env w label w') : FreedIdle w' ↔ AfterClose w label := by
  cases change with
  | idle _ _ excused connections _ queue =>
    have same : FreedIdle w' := by
      intro id c here
      rw [connections] at here
      rw [queue]
      exact quiet id c here
    refine iff_of_true same ?_
    cases label with
    | destroy id =>
      intro c here closing there
      have freed := excused c here closing
      rw [there] at freed
      cases freed
    | _ => trivial
  | accepted socketfd now record _ connections _ queue =>
    obtain ⟨-, others⟩ := own_more w.count w.queue [.opened w.count] (by simp [Block.id])
    refine iff_of_true ?_ trivial
    rw [FreedIdle, all_put w.count _ quiet connections (by rw [queue]; exact others)]
    rintro ⟨⟩
  | read id input c here open_ =>
    exact iff_of_true (quiet_handled w id c _ lives quiet here open_) trivial
  | stopped id c here open_ =>
    exact iff_of_true (quiet_handled w id c _ lives quiet here open_) trivial
  | ran block queue c waiting here =>
    obtain ⟨mine, others⟩ := own_next block queue
    refine iff_of_true ?_ trivial
    rw [FreedIdle, all_put block.id (c.runBlock block) quiet rfl (by rw [waiting]; exact others),
      (runBlock_flags c block).2.1]
    -- the block that ran was pending, so its socket is there
    intro freed
    have empty := quiet block.id c here freed
    rw [waiting, mine] at empty
    cases empty
  | cleaned id c here open_ =>
    obtain ⟨-, others⟩ := own_more id w.queue [.closed id] (by simp [Block.id])
    have there := ((lives id c here).open_ open_).1
    refine iff_of_true ?_ trivial
    rw [FreedIdle, all_put id { c with closing := true } quiet rfl others]
    intro freed
    rw [there] at freed
    cases freed
  | freed id c here closing there =>
    have life := lives id c here
    have put :
        FreedIdle { w.put id { c with destroyed := true } with socketsOpen := w.socketsOpen - 1 } ↔
        (true = true → own id w.queue = []) := by
      refine all_put id { c with destroyed := true } quiet ?_ ?_
      · rfl
      · exact fun _ _ => rfl
    rw [put]
    constructor
    · intro empty c' here' _ _
      rw [here] at here'
      obtain rfl := Option.some.inj here'
      cases closed : c.closed with
      | true => rfl
      | false =>
        -- a CLOSE block that has not run is still pending
        obtain ⟨front, final, split, -, -⟩ := life.last closing closed there
        rw [empty rfl] at split
        exact absurd split.symm (by simp)
    · intro after _
      exact life.closed (after c here closing there)

/-- Over every schedule, no pending block belongs to a freed socket in any state exactly if every
socket is freed only after its CLOSE block has run. -/
theorem noneFreed_iff_afterClose (env : Nat → Env) (labels : List Label) :
    Always (World.step env) NoneFreed .empty labels ↔
      Each (World.step env) AfterClose .empty labels := by
  have keeps : ∀ (w : World) label, Numbered w ∧ w.All Life →
      Numbered (w.step env label) ∧ (w.step env label).All Life := by
    rintro w label ⟨numbered, lives⟩
    have change := step_change env w label numbered
    exact ⟨numbered.step change, all_step life_kept numbered lives change⟩
  have start : Numbered .empty ∧ World.empty.All Life :=
    ⟨numbered_empty, fun _ _ missing => by cases missing⟩
  have quiet : FreedIdle .empty := fun _ _ missing => by cases missing
  rw [always_congr (World.step env) keeps (fun w _ => noneFreed_iff_freedIdle w) start]
  apply always_iff_each (World.step env) keeps _ start quiet
  intro w label kept quiet
  exact quiet_step env w _ label kept.2 quiet (step_change env w label kept.1)

/-- A connection that is cleaned up while the handler queue is busy elsewhere. -/
def hangsUp : List Label :=
  [.accept 3 1344297600000 false true, .run, .stop 0, .cleanup 0, .destroy 0]

/-- The CLOSE block is still to run, and holds the freed socket. -/
theorem hangsUp_pending : ¬ Always (World.step fun _ => Env.granted) NoneFreed .empty hangsUp := by
  intro always
  have missing : NoneFreed (run (World.step fun _ => Env.granted) .empty hangsUp) :=
    always.2.2.2.2.2
  have queue : (run (World.step fun _ => Env.granted) .empty hangsUp).queue = [.closed 0] := by
    decide
  have freed : ((run (World.step fun _ => Env.granted) .empty hangsUp).connections 0).map
      Connection.destroyed = some true := by decide
  obtain ⟨c, here, gone⟩ := Option.map_eq_some_iff.mp freed
  have there := missing (.closed 0) (by rw [queue]; exact List.mem_singleton_self _) c here
  rw [gone] at there
  cases there

end Spamass.App
