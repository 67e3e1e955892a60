import Spamass.Emailz.Dialogue
import Spamass.Emailz.Fragments

/-!
# The line buffer

The places of `socket->line` and `socket->cmnd` that are touched when a line is read and
its command parsed, in the order of the code. The copying loop stops at the size of the
line buffer, but the terminator is put behind what was copied, and the leading spaces
are skipped by a loop that reads before it compares: a line that fills the buffer is
terminated outside of it.
-/
namespace Spamass.Emailz

open Spamass.Framing

inductive Access where
  | lineWrite (i : Nat)
  | lineRead (i : Nat)
  | cmndWrite (i : Nat)
  deriving DecidableEq, Repr

/-- The place is in its array. -/
def Access.InBounds : Access → Prop
  | .lineWrite i => i < maxLineSize
  | .lineRead i => i < maxLineSize
  | .cmndWrite i => i < maxCmndSize

instance (a : Access) : Decidable a.InBounds := by
  cases a <;> exact Nat.decLt _ _

/-! ### Reading a line -/

/-- The writes of the inner loop over one region: `lineptr` stands behind what was copied. -/
def regionWrites : Scan → Bytes → List Access
  | _, [] => []
  | scan, byte :: rest =>
    .lineWrite scan.line.length ::
      if (scan.push byte).stops then [] else regionWrites (scan.push byte) rest

def regionsWrites : Scan → List Bytes → List Access
  | _, [] => []
  | scan, region :: regions =>
    regionWrites scan region ++
      if (scanRegion scan region).2 then regionsWrites (scanRegion scan region).1 regions else []

/-- What `emailz_socket_read_line` writes to `line`, the terminator last. -/
def readLineAccesses (regions : List Bytes) : List Access :=
  .lineWrite 0 :: regionsWrites Scan.start regions ++
    match socketReadLineRegions regions with
    | some (line, _) => [.lineWrite line.length]
    | none => [.lineWrite 0]

/-! ### Reading a command -/

/-- Skipping the leading spaces from the index `p` on: the byte is read before `lineptr` is
compared with `lineend`. -/
def spaceReads : Nat → Bytes → List Access
  | p, [] => [.lineRead p]
  | p, c :: rest => .lineRead p :: if c == space then spaceReads (p + 1) rest else []

/-- Copying the command word from `line[p]` to `cmnd[n]` on. -/
def wordAccesses : Nat → Nat → Bytes → List Access
  | _, _, [] => []
  | p, n, c :: rest =>
    if n < maxCmndSize - 1 then
      .lineRead p :: if isLetter c then .cmndWrite n :: wordAccesses (p + 1) (n + 1) rest else []
    else []

/-- Advancing to the argument. -/
def argReads : Nat → Bytes → List Access
  | _, [] => []
  | p, c :: rest => .lineRead p :: if c == colon || c == space then argReads (p + 1) rest else []

/-- What `emailz_socket_read_command` reads of `line` and writes to `cmnd`. -/
def readCommandAccesses (line : Bytes) : List Access :=
  .cmndWrite 0 ::
    if line.length = 0 then []
    else
      let spaces := line.takeWhile (· == space)
      let unspaced := line.dropWhile (· == space)
      let word := (unspaced.takeWhile isLetter).take (maxCmndSize - 1)
      spaceReads 0 line ++ wordAccesses spaces.length 0 unspaced ++
        argReads (spaces.length + word.length) (unspaced.drop word.length) ++ [.cmndWrite word.length]

/-- One turn of the line loop: no command is read in the data segment. -/
def turnAccesses (state : Command) (regions : List Bytes) : List Access :=
  readLineAccesses regions ++
    match socketReadLineRegions regions with
    | some (line, _) => if state = .data then [] else readCommandAccesses line
    | none => []

/-! ### The turns of a run -/

/-- The state and the buffer at the head of each turn of the line loop. -/
def turns (env : Env) : Nat → Socket → List (Command × Bytes)
  | 0, _ => []
  | fuel + 1, s =>
    if s.indata.length = 0 then []
    else
      (s.state, s.indata) ::
        match socketReadLine s.indata with
        | none => []
        | some (line, rest) =>
          let handled := handleLine env s.toSession line
          if handled.breaks then []
          else turns env fuel { s with toSession := handled.state, indata := rest }

def turnsOfRead (env : Env) (s : Socket) (arrival : Arrival) : List (Command × Bytes) :=
  let received := receive s arrival
  if received.2.2 then turns env received.1.indata.length received.1 else []

def turnsOfReads (env : Env) : Socket → List Arrival → List (Command × Bytes)
  | _, [] => []
  | s, arrival :: arrivals =>
    turnsOfRead env s arrival ++ turnsOfReads env (socketHandleRead env s arrival).1 arrivals

/-- The turns are those in which the loop took its lines. -/
theorem lineLoop_turns (env : Env) (fuel : Nat) (s : Socket) :
    linesOf (lineLoop env fuel s).2 =
      (turns env fuel s).filterMap fun turn => (socketReadLine turn.2).map Prod.fst := by
  induction fuel generalizing s with
  | zero => rfl
  | succ fuel ih =>
    rw [lineLoop, turns]
    split
    · rfl
    · cases read : socketReadLine s.indata with
      | none => simp [read, linesOf]
      | some pair =>
        obtain ⟨line, rest⟩ := pair
        have taken := (handleLine_handled env s.toSession line).lines
        rw [List.filterMap_cons, read]
        dsimp only [Option.map_some]
        split
        · rw [taken, List.filterMap_nil]
        · rw [linesOf_append, taken, ih]
          rfl

/-! ### Where they are -/

/-- The buffer is no full line yet, or a line ends in front of the last place. -/
def Terminable (indata : Bytes) : Prop :=
  indata.length < maxLineSize ∨
    ∃ front, front <+: indata ∧ front.length < maxLineSize ∧ LineEnd front

theorem regionWrites_inBounds (scan : Scan) (s : Bytes) (room : scan.line.length < maxLineSize) :
    ∀ a ∈ regionWrites scan s, a.InBounds := by
  induction s generalizing scan with
  | nil => exact List.forall_mem_nil _
  | cons byte s ih =>
    rw [regionWrites, List.forall_mem_cons]
    refine ⟨room, ?_⟩
    split
    · exact List.forall_mem_nil _
    next running =>
      apply ih
      simp only [Scan.stops, Bool.or_eq_true, decide_eq_true_eq, not_or, Nat.not_le] at running
      exact running.2

theorem regionsWrites_inBounds (scan : Scan) (regions : List Bytes) (running : scan.stops = false) :
    ∀ a ∈ regionsWrites scan regions, a.InBounds := by
  induction regions generalizing scan with
  | nil => exact List.forall_mem_nil _
  | cons region regions ih =>
    have room : scan.line.length < maxLineSize := by
      simp only [Scan.stops, Bool.or_eq_false_iff, decide_eq_false_iff_not, Nat.not_le] at running
      exact running.2
    rw [regionsWrites, List.forall_mem_append]
    refine ⟨regionWrites_inBounds scan region room, ?_⟩
    split
    next through =>
      apply ih
      rw [scanRegion_stops scan region running, through]
      rfl
    · exact List.forall_mem_nil _

theorem spaceReads_inBounds (p : Nat) (line : Bytes) (room : p + line.length < maxLineSize) :
    ∀ a ∈ spaceReads p line, a.InBounds := by
  induction line generalizing p with
  | nil => exact List.forall_mem_singleton.mpr room
  | cons c line ih =>
    rw [List.length_cons] at room
    have here : (Access.lineRead p).InBounds := by
      change p < maxLineSize
      omega
    rw [spaceReads, List.forall_mem_cons]
    refine ⟨here, ?_⟩
    split
    · exact ih (p + 1) (by omega)
    · exact List.forall_mem_nil _

/-- The word is copied to the places in front of its terminator. -/
theorem wordAccesses_inBounds (p n : Nat) (line : Bytes) (room : p + line.length ≤ maxLineSize) :
    ∀ a ∈ wordAccesses p n line, a.InBounds := by
  induction line generalizing p n with
  | nil => exact List.forall_mem_nil _
  | cons c line ih =>
    rw [List.length_cons] at room
    have here : (Access.lineRead p).InBounds := by
      change p < maxLineSize
      omega
    rw [wordAccesses]
    split
    next below =>
      rw [List.forall_mem_cons]
      refine ⟨here, ?_⟩
      split
      · rw [List.forall_mem_cons]
        exact ⟨Nat.lt_of_lt_of_le below (Nat.sub_le _ _), ih (p + 1) (n + 1) (by omega)⟩
      · exact List.forall_mem_nil _
    · exact List.forall_mem_nil _

private theorem argReads_inBounds (p : Nat) (line : Bytes) (room : p + line.length ≤ maxLineSize) :
    ∀ a ∈ argReads p line, a.InBounds := by
  induction line generalizing p with
  | nil => exact List.forall_mem_nil _
  | cons c line ih =>
    rw [List.length_cons] at room
    have here : (Access.lineRead p).InBounds := by
      change p < maxLineSize
      omega
    rw [argReads, List.forall_mem_cons]
    refine ⟨here, ?_⟩
    split
    · exact ih (p + 1) (by omega)
    · exact List.forall_mem_nil _

private theorem readCommandAccesses_inBounds (line : Bytes) (room : line.length < maxLineSize) :
    ∀ a ∈ readCommandAccesses line, a.InBounds := by
  have first : (Access.cmndWrite 0).InBounds := by decide
  rw [readCommandAccesses, List.forall_mem_cons]
  refine ⟨first, ?_⟩
  split
  · exact List.forall_mem_nil _
  have parts : (line.takeWhile (· == space)).length + (line.dropWhile (· == space)).length =
      line.length := by
    rw [← List.length_append, List.takeWhile_append_dropWhile]
  have fits : (((line.dropWhile (· == space)).takeWhile isLetter).take (maxCmndSize - 1)).length ≤
      maxCmndSize - 1 := List.length_take_le _ _
  simp only [List.forall_mem_append, List.forall_mem_singleton]
  refine ⟨⟨⟨spaceReads_inBounds 0 line (by omega), wordAccesses_inBounds _ 0 _ (by omega)⟩, ?_⟩, ?_⟩
  · apply argReads_inBounds
    have copied : (((line.dropWhile (· == space)).takeWhile isLetter).take (maxCmndSize - 1)).length ≤
        (line.dropWhile (· == space)).length :=
      Nat.le_trans (List.take_sublist _ _).length_le (List.takeWhile_sublist _).length_le
    rw [List.length_drop]
    omega
  · exact Nat.lt_of_le_of_lt fits (by decide)

/-- The lines of a buffer are shorter than the line buffer exactly if it is terminable. -/
private theorem terminable_iff (indata : Bytes) :
    Terminable indata ↔
      ∀ line rest, socketReadLine indata = some (line, rest) → line.length < maxLineSize := by
  constructor
  · intro terminable line rest read
    obtain ⟨fragment, -⟩ := socketReadLine_fragment.mp read
    rcases terminable with short | ⟨front, inside, short, ends⟩
    · exact Nat.lt_of_le_of_lt fragment.inside.length_le short
    · rcases List.prefix_or_prefix_of_prefix inside fragment.inside with shorter | longer
      · rwa [← fragment.first front shorter ends]
      · exact Nat.lt_of_le_of_lt longer.length_le short
  · intro bounded
    cases read : socketReadLine indata with
    | none => exact Or.inl (socketReadLine_none read)
    | some pair =>
      obtain ⟨fragment, -⟩ := socketReadLine_fragment.mp read
      have short := bounded pair.1 pair.2 read
      refine Or.inr ⟨pair.1, fragment.inside, short, ?_⟩
      rcases fragment.ends with ended | full
      · exact ended
      · omega

/-- The places one turn touches are in their arrays exactly if the buffer is terminable. -/
private theorem turnAccesses_iff (state : Command) (regions : List Bytes) :
    (∀ a ∈ turnAccesses state regions, a.InBounds) ↔ Terminable regions.flatten := by
  have same := socketReadLineRegions_flatten regions
  rw [terminable_iff, ← same]
  have first : (Access.lineWrite 0).InBounds := by decide
  have copies := regionsWrites_inBounds Scan.start regions scanStart_stops
  simp only [turnAccesses, readLineAccesses, List.forall_mem_append, List.forall_mem_cons]
  cases socketReadLineRegions regions with
  | none =>
    refine iff_of_true ⟨⟨⟨first, copies⟩, ?_⟩, List.forall_mem_nil _⟩ nofun
    exact List.forall_mem_singleton.mpr first
  | some pair =>
    obtain ⟨line, rest⟩ := pair
    simp only [List.forall_mem_singleton, Option.some.injEq, Prod.mk.injEq]
    constructor
    · rintro ⟨⟨-, terminator⟩, -⟩ _ _ ⟨rfl, rfl⟩
      exact terminator
    · intro bounded
      have short := bounded line rest ⟨rfl, rfl⟩
      refine ⟨⟨⟨first, copies⟩, short⟩, ?_⟩
      split
      · exact List.forall_mem_nil _
      · exact readCommandAccesses_inBounds line short

/-- In every division of every buffer and in every turn of every run, all places that are touched
are in their arrays exactly if the buffers are terminable. -/
theorem lineBuffer_iff_terminable (env : Env) (s : Socket) (arrivals : List Arrival) :
    (∀ (state : Command) (regions : List Bytes),
      (∀ a ∈ turnAccesses state regions, a.InBounds) ↔ Terminable regions.flatten) ∧
    ((∀ turn ∈ turnsOfReads env s arrivals, ∀ regions : List Bytes, regions.flatten = turn.2 →
        ∀ a ∈ turnAccesses turn.1 regions, a.InBounds) ↔
      ∀ turn ∈ turnsOfReads env s arrivals, Terminable turn.2) := by
  refine ⟨turnAccesses_iff, forall₂_congr fun turn _ => ?_⟩
  constructor
  · intro inBounds
    have one := (turnAccesses_iff turn.1 [turn.2]).mp (inBounds [turn.2] (List.flatten_singleton ..))
    rwa [List.flatten_singleton] at one
  · intro terminable regions same
    rw [← same] at terminable
    exact (turnAccesses_iff turn.1 regions).mpr terminable

theorem spaces_unended (count : Nat) (front : Bytes) (inside : front <+: List.replicate count space) :
    ¬LineEnd front := by
  rintro ⟨before, rfl, -⟩
  have member : lf ∈ List.replicate count space := inside.subset (by simp)
  exact absurd (List.eq_of_mem_replicate member) (by decide)

private theorem spaceReads_end (p count : Nat) :
    .lineRead (p + count) ∈ spaceReads p (List.replicate count space) := by
  induction count generalizing p with
  | zero => exact List.mem_singleton_self _
  | succ count ih =>
    have later := ih (p + 1)
    rw [Nat.add_right_comm] at later
    rw [List.replicate_succ, spaceReads, beq_self_eq_true, if_pos rfl]
    exact List.mem_cons_of_mem _ later

/-- A full line of spaces: its terminator is written, and a byte is read, behind the line buffer. -/
theorem lineBuffer_overrun :
    .lineWrite maxLineSize ∈ turnAccesses .none [List.replicate maxLineSize space] ∧
      .lineRead maxLineSize ∈ turnAccesses .none [List.replicate maxLineSize space] ∧
      ¬(Access.lineWrite maxLineSize).InBounds ∧ ¬(Access.lineRead maxLineSize).InBounds := by
  have size : (List.replicate maxLineSize space).length = maxLineSize := List.length_replicate
  have read : socketReadLineRegions [List.replicate maxLineSize space] =
      some (List.replicate maxLineSize space, []) := by
    rw [← socketReadLine, socketReadLine_fragment]
    refine ⟨⟨List.prefix_refl _, Nat.le_of_eq size, Or.inr size, ?_⟩, List.append_nil _⟩
    intro front inside ended
    exact absurd ended (spaces_unended maxLineSize front inside)
  have skipped := spaceReads_end 0 maxLineSize
  rw [Nat.zero_add] at skipped
  have command : .lineRead maxLineSize ∈ readCommandAccesses (List.replicate maxLineSize space) := by
    rw [readCommandAccesses, if_neg (by rw [size]; decide)]
    simp only [List.mem_cons, List.mem_append, skipped, true_or, or_true]
  refine ⟨?_, ?_, Nat.lt_irrefl _, Nat.lt_irrefl _⟩
  · simp only [turnAccesses, readLineAccesses, read, size, List.mem_append, List.mem_cons, true_or,
      or_true]
  · simp only [turnAccesses, read, List.mem_append]
    exact Or.inr command

end Spamass.Emailz
