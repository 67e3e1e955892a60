import Spamass.Emailz.LineLoop

/-!
# Splitting the stream into reads

Whether the outcome of a plaintext session depends on how the stream is cut into
reads. It does not as long as the line loop breaks off at the last complete line
only; a line left in the buffer by a break waits for the next read.
-/
namespace Spamass.Emailz

open Spamass.Framing

/-- What a session shows to the client and to the application. -/
def Event.outward : Event → Bool
  | .line _ => false
  | _ => true

@[simp] theorem outward_line (line : Bytes) : (Event.line line).outward = false := rfl
@[simp] theorem outward_data (payload : Bytes) (done : Bool) :
    (Event.data payload done).outward = true := rfl
@[simp] theorem outward_reply (reply : Reply) (completion : Completion) :
    (Event.reply reply completion).outward = true := rfl

/-- The QUIT reply, or a stop. -/
def Event.ends (e : Event) : Bool := e.closes || e == .stop

/-- A way of splitting a stream into non-empty reads. -/
def Splits (stream : Bytes) (reads : List Arrival) : Prop :=
  (reads.map Arrival.data).flatten = stream ∧ ∀ read ∈ reads, read.data ≠ []

/-- The runs agree up to the first QUIT reply, and in what they leave when neither ended. -/
def SameOutcome (a b : Socket × List Event) : Prop :=
  upTo Event.closes (a.2.filter Event.outward) = upTo Event.closes (b.2.filter Event.outward) ∧
    (a.2.any Event.ends = false → b.2.any Event.ends = false →
      a.1.state = b.1.state ∧ a.1.emailSize = b.1.emailSize ∧ a.1.indata = b.1.indata)

def SplitIndependent (run : List Arrival → Socket × List Event) (stream : Bytes) : Prop :=
  ∀ xs ys, Splits stream xs → Splits stream ys → SameOutcome (run xs) (run ys)

/-- A mail line that takes the mail over the limit. -/
def Phase.overruns : Phase → Bytes → Bool
  | .command, _ => false
  | .mail size, line => line != endOfMail && decide (maxIndataSize < size + line.length)

def Phase.ends (phase : Phase) (line : Bytes) : Bool := phase.quits line || phase.overruns line

/-- Up to the first line for which `last` holds, no line at which the loop breaks off is
followed by another complete line. -/
def Settled (last : Phase → Bytes → Bool) : Phase → List Bytes → Prop
  | _, [] => True
  | phase, line :: lines =>
    last phase line = true ∨
      ((phase.breaksOff line = true → lines = []) ∧ Settled last (phase.next line) lines)

instance Settled.decide (last : Phase → Bytes → Bool) :
    (phase : Phase) → (lines : List Bytes) → Decidable (Settled last phase lines)
  | _, [] => isTrue trivial
  | phase, line :: lines =>
    have := Settled.decide last (phase.next line) lines
    inferInstanceAs (Decidable (last phase line = true ∨
      ((phase.breaksOff line = true → lines = []) ∧ Settled last (phase.next line) lines)))

/-- The events that end a comparison are foretold by the lines. -/
def Foretells (env : Env) (halts : Event → Bool) (last : Phase → Bytes → Bool) : Prop :=
  ∀ s line, (handleLine env s line).events.any halts = last s.phase line

private theorem steady_iff_settled (env : Env) (halts : Event → Bool) (last : Phase → Bytes → Bool)
    (foretells : Foretells env halts last) (s : Session) (lines : List Bytes) :
    SteadyUntil (handleLine env) halts s lines ↔ Settled last s.phase lines := by
  induction lines generalizing s with
  | nil => exact Iff.rfl
  | cons line lines ih =>
    have handled := handleLine_handled env s line
    simp only [SteadyUntil, Settled, foretells s line, handled.breaks, ih, handled.phase]

private theorem foretells_closes (env : Env) : Foretells env Event.closes Phase.quits :=
  fun s line => (handleLine_handled env s line).closes

private theorem closes_outward (e : Event) (closes : e.closes = true) : e.outward = true := by
  cases e with
  | reply reply completion => rfl
  | _ => simp [Event.closes] at closes

private theorem ends_outward (e : Event) (ends : e.ends = true) : e.outward = true := by
  cases e with
  | line bytes => simp [Event.ends, Event.closes] at ends
  | _ => rfl

private theorem any_ends (events : List Event) :
    events.any Event.ends = (events.any Event.closes || events.contains .stop) := by
  induction events with
  | nil => rfl
  | cons e es ih =>
    have sides : (Event.stop == e) = (e == .stop) := Bool.beq_comm
    simp only [List.any_cons, ih, Event.ends, List.contains_cons, sides]
    cases e.closes <;> cases e == .stop <;> simp

private theorem ends_running (events : List Event) (running : events.any Event.ends = false) :
    events.any Event.closes = false ∧ Event.stop ∉ events := by
  simpa [any_ends] using running

private theorem hidden_running (events : List Event) (hidden : events.filter Event.outward = []) :
    events.any Event.ends = false := by
  rw [← any_filter_visible Event.ends Event.outward ends_outward, hidden]
  rfl

/-! ### Stops -/

private theorem asides_stop (events : List Event) (asides : ∀ e ∈ events, e.aside = true) :
    Event.stop ∉ events := by
  intro member
  exact absurd (asides _ member) (by decide)

private theorem smtpCallback_stop (s : Session) (c : Command) (arg : Bytes) :
    Event.stop ∉ smtpCallback s c arg := by
  unfold smtpCallback
  split <;> simp

private theorem dataCallback_stop (s : Session) (payload : Bytes) (done : Bool) :
    Event.stop ∉ dataCallback s payload done := by
  unfold dataCallback
  split <;> simp

/-- Either nothing was stopped, or the stop is the last thing that happened. -/
def StopsLast (s after : Session) (log : List Event) : Prop :=
  (Event.stop ∉ log ∧ after.stop = s.stop) ∨
    (after.stop = true ∧ ∃ before, log = before ++ [.stop] ∧ Event.stop ∉ before)

theorem Handled.stopsLast {env : Env} {s : Session} {line : Bytes} {after : Step Session Event}
    (handled : Handled env s line after) : StopsLast s after.state after.events := by
  cases handled with
  | overrun _ _ _ =>
    right
    exact ⟨rfl, .line line :: dataCallback s line true, rfl, by simp [dataCallback_stop]⟩
  | ended _ _ _ _ => exact Or.inl ⟨by simp [dataCallback_stop], rfl⟩
  | mail _ _ _ => exact Or.inl ⟨by simp [dataCallback_stop], rfl⟩
  | wordless _ _ => exact Or.inl ⟨by simp, rfl⟩
  | command c result _ _ _ answered =>
    left
    obtain ⟨before, reply, completion, behind, _, _, rfl, -, -, asides⟩ := answered
    have quiet := asides_stop _ asides
    simp only [List.mem_append, not_or] at quiet
    exact ⟨by simp [smtpCallback_stop, quiet], rfl⟩

/-- The lines that stop the socket are the ones that take a mail over the limit. -/
theorem Handled.stop_iff {env : Env} {s : Session} {line : Bytes} {after : Step Session Event}
    (handled : Handled env s line after) :
    Event.stop ∈ after.events ↔ s.phase.overruns line = true := by
  cases handled with
  | overrun mail other large => simp [Session.phase, mail, Phase.overruns, other, large]
  | ended _ _ mail last => simp [Session.phase, mail, Phase.overruns, last, dataCallback_stop]
  | mail mail _ small => simp [Session.phase, mail, Phase.overruns, small, dataCallback_stop]
  | wordless command _ => simp [Session.phase, command, Phase.overruns]
  | command c result command _ _ answered =>
    obtain ⟨before, reply, completion, behind, _, _, rfl, -, -, asides⟩ := answered
    have quiet := asides_stop _ asides
    simp only [List.mem_append, not_or] at quiet
    simp [Session.phase, command, Phase.overruns, smtpCallback_stop, quiet]

private theorem foretells_ends (env : Env) : Foretells env Event.ends Phase.ends := by
  intro s line
  have handled := handleLine_handled env s line
  rw [any_ends, handled.closes, Phase.ends]
  congr 1
  rw [Bool.eq_iff_iff, List.contains_iff_mem, handled.stop_iff]

private theorem Phase.overruns_breaks (phase : Phase) (line : Bytes)
    (overruns : phase.overruns line = true) :
    phase.breaksOff line = true := by
  cases phase with
  | command => simp [Phase.overruns] at overruns
  | mail size => exact overruns

theorem StopsLast.trans {s mid after : Session} {xs ys : List Event} (first : StopsLast s mid xs)
    (running : Event.stop ∉ xs) (second : StopsLast mid after ys) :
    StopsLast s after (xs ++ ys) := by
  rcases first with ⟨-, kept⟩ | ⟨-, before, rfl, -⟩
  · rcases second with ⟨quiet, kept'⟩ | ⟨stopped, before, rfl, quiet⟩
    · exact Or.inl ⟨by simp [running, quiet], kept'.trans kept⟩
    · exact Or.inr ⟨stopped, xs ++ before, by simp, by simp [running, quiet]⟩
  · simp at running

private theorem turn_stopsLast (env : Env) (s : Session) (lines : List Bytes) :
    StopsLast s (turn (handleLine env) s lines).1 (turn (handleLine env) s lines).2.2 := by
  induction lines generalizing s with
  | nil => exact Or.inl ⟨List.not_mem_nil, rfl⟩
  | cons line lines ih =>
    have handled := handleLine_handled env s line
    simp only [turn]
    split
    · exact handled.stopsLast
    next through =>
      apply handled.stopsLast.trans _ (ih _)
      intro stops
      apply through
      rw [handled.breaks]
      exact Phase.overruns_breaks _ _ (handled.stop_iff.mp stops)

private theorem unbroken_stop (env : Env) (s : Session) (lines : List Bytes)
    (unbroken : Unbroken (handleLine env) s lines) :
    Event.stop ∉ (runAll (handleLine env) s lines).2 := by
  induction lines generalizing s with
  | nil => exact List.not_mem_nil
  | cons line lines ih =>
    have handled := handleLine_handled env s line
    intro stops
    rcases List.mem_append.mp stops with here | later
    · have breaks := handled.breaks
      rw [Phase.overruns_breaks _ _ (handled.stop_iff.mp here), unbroken.1] at breaks
      contradiction
    · exact ih _ unbroken.2 later

/-- Behind a line that stopped the socket the next line shows all the same. -/
private theorem stopped_outward (env : Env) (s : Session) (line next : Bytes)
    (stops : Event.stop ∈ (handleLine env s line).events) :
    (handleLine env (handleLine env s line).state next).events.filter Event.outward ≠ [] := by
  have handled := handleLine_handled env s line
  have overruns := handled.stop_iff.mp stops
  have phase := handled.phase
  generalize (handleLine env s line).state = after at phase ⊢
  cases here : s.phase with
  | command => simp [here, Phase.overruns] at overruns
  | mail size =>
    simp only [here, Phase.overruns, Bool.and_eq_true, bne_iff_ne, decide_eq_true_eq] at overruns
    rw [here, Phase.next, if_neg overruns.1, phase_mail_iff] at phase
    have more := handleLine_handled env after next
    generalize handleLine env after next = result at more
    cases more with
    | ended _ _ _ _ => simp [Event.outward]
    | overrun _ _ _ => simp [Event.outward]
    | mail _ _ small => omega
    | wordless command _ => exact absurd phase.1 command
    | command _ _ command _ _ _ => exact absurd phase.1 command

/-! ### Two splits -/

section

variable (env : Env) (fd : Int) (now : UInt64) (record : Bool) (handlers : Handlers)

/-- A split of the stream feeds the line handler from the start. -/
private theorem handleReads_splits (stream : Bytes) (reads : List Arrival)
    (without : Without [.starttls] .command (lineFramer.pieces stream).1)
    (splits : Splits stream reads) :
    ((handleReads env (Socket.started fd now record handlers) reads).1.view,
        (handleReads env (Socket.started fd now record handlers) reads).2) =
      feed lineFramer (handleLine env) (Socket.started fd now record handlers).toSession []
        (reads.map Arrival.data) := by
  apply handleReads_plain env _ reads rfl
  rw [splits.1]
  exact without

/-- Settled lines give every split the same events up to the end of the comparison, and the
same session where it is not reached. -/
private theorem settled_reads (halts : Event → Bool) (last : Phase → Bytes → Bool)
    (foretells : Foretells env halts last) (stream : Bytes)
    (without : Without [.starttls] .command (lineFramer.pieces stream).1)
    (settled : Settled last .command (lineFramer.pieces stream).1) (xs ys : List Arrival)
    (splitX : Splits stream xs) (splitY : Splits stream ys) :
    upTo halts (handleReads env (Socket.started fd now record handlers) xs).2 =
        upTo halts (handleReads env (Socket.started fd now record handlers) ys).2 ∧
      ((handleReads env (Socket.started fd now record handlers) xs).2.any halts = false →
        (handleReads env (Socket.started fd now record handlers) xs).1.view =
          (handleReads env (Socket.started fd now record handlers) ys).1.view) := by
  have fedX := handleReads_splits env fd now record handlers stream xs without splitX
  have fedY := handleReads_splits env fd now record handlers stream ys without splitY
  generalize handleReads env (Socket.started fd now record handlers) xs = ranX at fedX ⊢
  generalize handleReads env (Socket.started fd now record handlers) ys = ranY at fedY ⊢
  have steady := (steady_iff_settled env halts last foretells
    (Socket.started fd now record handlers).toSession _).mpr settled
  have runsX := feed_steady lineFramer (handleLine env) halts _ [] (xs.map Arrival.data)
    lineFramer.cut_nil (by rw [splitX.1]; exact steady)
  have runsY := feed_steady lineFramer (handleLine env) halts _ [] (ys.map Arrival.data)
    lineFramer.cut_nil (by rw [splitY.1]; exact steady)
  rw [← fedX, splitX.1, List.nil_append] at runsX
  rw [← fedY, splitY.1, List.nil_append] at runsY
  refine ⟨runsX.1.trans runsY.1.symm, ?_⟩
  intro running
  -- a run that did not halt played one step for each line of the stream
  have quiet : (runAll (handleLine env) (Socket.started fd now record handlers).toSession
      (lineFramer.pieces stream).1).2.any halts = false := by
    rw [← any_upTo, ← runsX.1, any_upTo]
    exact running
  exact (congrArg Prod.fst (runsX.2 quiet)).trans (congrArg Prod.fst (runsY.2 quiet)).symm

/-- Lines that are not settled are told apart by the stream in one read and the stream cut
behind the line that breaks the loop off. -/
private theorem unsettled_reads (halts : Event → Bool) (last : Phase → Bytes → Bool)
    (foretells : Foretells env halts last) (stream : Bytes)
    (without : Without [.starttls] .command (lineFramer.pieces stream).1)
    (unsettled : ¬Settled last .command (lineFramer.pieces stream).1) :
    ∃ xs ys later, Splits stream xs ∧ Splits stream ys ∧
      (handleReads env (Socket.started fd now record handlers) xs).2.any halts = false ∧
      (handleReads env (Socket.started fd now record handlers) ys).2 =
        (handleReads env (Socket.started fd now record handlers) xs).2 ++ later ∧
      (handleReads env (Socket.started fd now record handlers) ys).1.indata ≠
        (handleReads env (Socket.started fd now record handlers) xs).1.indata ∧
      (Event.stop ∈ (handleReads env (Socket.started fd now record handlers) xs).2 →
        later.filter Event.outward ≠ []) := by
  have unsteady := (steady_iff_settled env halts last foretells
    (Socket.started fd now record handlers).toSession _).not.mpr unsettled
  -- the first line that breaks the loop off with a line behind it
  obtain ⟨before, line, next, after, cuts, unbroken, breaks, running⟩ :=
    unsteady_splits (handleLine env) halts _ _ unsteady
  have joined := lineFramer.pieces_flatten stream
  have tail := lineFramer.pieces_tail stream (before ++ [line]) (next :: after) (by rw [cuts]; simp)
  have whole := feed_whole lineFramer (handleLine env) _ stream before line (next :: after) cuts
    unbroken breaks
  have cut := feed_cut lineFramer (handleLine env) _ stream before line (next :: after) cuts
    unbroken breaks
  have filled := lineFramer.pieces_nonempty stream
  rw [cuts] at filled
  have present := lineFramer.pieces_cut _ next after (congrArg Prod.fst tail)
  rw [tail] at present
  generalize chunk : (next :: after).flatten ++ (lineFramer.pieces stream).2 = second at *
  have streamed : (before ++ [line]).flatten ++ second = stream := by
    rw [← joined, cuts, ← chunk]
    simp
  -- the whole stream in one read, and the stream cut behind that line
  have splitX : Splits stream [plainRead stream] := by
    refine ⟨by simp, ?_⟩
    simp only [List.mem_singleton, forall_eq, plainRead_data]
    intro empty
    rw [← streamed] at empty
    simp [filled line] at empty
  have splitY : Splits stream [plainRead (before ++ [line]).flatten, plainRead second] := by
    refine ⟨by simpa using streamed, ?_⟩
    simp only [List.mem_cons, List.not_mem_nil, or_false, forall_eq_or_imp, forall_eq,
      plainRead_data]
    refine ⟨?_, ?_⟩
    · simp [filled line]
    · simp [← chunk, filled next]
  have ranX := handleReads_splits env fd now record handlers stream _ without splitX
  have ranY := handleReads_splits env fd now record handlers stream _ without splitY
  simp only [plainRead_data, List.map_cons, List.map_nil, whole, cut] at ranX ranY
  obtain ⟨viewX, logX⟩ := Prod.ext_iff.mp ranX
  obtain ⟨viewY, logY⟩ := Prod.ext_iff.mp ranY
  obtain ⟨⟨more, played⟩, shorter⟩ := feedChunk_progress lineFramer (handleLine env)
    (runAll (handleLine env) (Socket.started fd now record handlers).toSession
      (before ++ [line])).1 [] second next _ present
  simp only at logX logY
  refine ⟨_, _, (feedChunk lineFramer (handleLine env) _ [] second).2, splitX, splitY,
    by rw [logX]; exact running, by rw [logX]; exact logY, ?_, ?_⟩
  · intro same
    have leftX := congrArg Prod.snd viewX
    have leftY := congrArg Prod.snd viewY
    simp only [Socket.view] at leftX leftY
    rw [← leftY, same, leftX] at shorter
    exact absurd shorter (Nat.not_le_of_lt (lineFramer.rest_shorter present))
  · intro stops
    have behind : runAll (handleLine env) (Socket.started fd now record handlers).toSession
        (before ++ [line]) = _ := runAll_append (handleLine env) _ before [line]
    simp only [logX, behind, List.mem_append, unbroken_stop env _ before unbroken,
      false_or] at stops
    rw [played, List.filter_append, behind]
    -- a stop swallows the line behind it in one read only
    have shows := stopped_outward env _ line next (by simpa [runAll] using stops)
    simp [runAll, shows]

end

/-! ### Reads passed on by the read handler -/

private theorem upTo_stopsLast (log : List Event)
    (last : Event.stop ∉ log ∨ ∃ before, log = before ++ [.stop] ∧ Event.stop ∉ before) :
    upTo Event.closes log = upTo Event.ends log := by
  have agrees : ∀ xs : List Event, Event.stop ∉ xs →
      upTo Event.closes xs = upTo Event.ends xs ∧ xs.any Event.closes = xs.any Event.ends := by
    intro xs quiet
    refine ⟨?_, by simp [any_ends, quiet]⟩
    induction xs with
    | nil => rfl
    | cons e es ih =>
      simp only [List.mem_cons, not_or] at quiet
      have same : e.ends = e.closes := by simp [Event.ends, Ne.symm quiet.1]
      simp only [upTo, same, ih quiet.2]
  rcases last with quiet | ⟨before, rfl, quiet⟩
  · exact (agrees log quiet).1
  · obtain ⟨logs, halts⟩ := agrees before quiet
    cases halted : before.any Event.closes with
    | true =>
      rw [upTo_append_halted _ _ _ halted, upTo_append_halted _ _ _ (halts ▸ halted), logs]
    | false =>
      rw [upTo_append_running _ _ _ halted, upTo_append_running _ _ _ (halts ▸ halted)]
      rfl

section

variable (env : Env)

theorem socketHandleRead_stopsLast (s : Socket) (arrival : Arrival) (plain : s.sslcontext = none) :
    StopsLast s.toSession (socketHandleRead env s arrival).1.toSession
      (socketHandleRead env s arrival).2 := by
  have here := socketHandleRead_plain env s arrival plain
  have stops := turn_stopsLast env s.toSession (lineFramer.pieces (s.indata ++ arrival.data)).1
  obtain ⟨view, log⟩ := Prod.ext_iff.mp here
  have session := congrArg Prod.fst view
  simp only [Socket.view] at session log
  rw [session, log]
  exact stops

theorem handleOpenReads_stopped (s : Socket) (reads : List Arrival) (stopped : s.stop = true) :
    handleOpenReads env s reads = (s, []) := by
  cases reads with
  | nil => rfl
  | cons read reads => simp [handleOpenReads, stopped]

/-- The read handler passes on the same reads up to the first stop, and none behind it. -/
theorem handleOpenReads_agrees (s : Socket) (reads : List Arrival) (running : s.stop = false)
    (plain : s.sslcontext = none)
    (without : Without [.starttls] s.phase
      (lineFramer.pieces (s.indata ++ (reads.map Arrival.data).flatten)).1) :
    upTo Event.closes (handleOpenReads env s reads).2 = upTo Event.ends (handleReads env s reads).2 ∧
      (Event.stop ∉ (handleReads env s reads).2 →
        handleOpenReads env s reads = handleReads env s reads) := by
  induction reads generalizing s with
  | nil => exact ⟨rfl, fun _ => rfl⟩
  | cons read reads ih =>
    rw [List.map_cons, List.flatten_cons, ← List.append_assoc] at without
    obtain ⟨crypto, without'⟩ := socketHandleRead_next env s read _ _ (carries_plain s read plain)
      without
    have plain' : (socketHandleRead env s read).1.sslcontext = none := by rw [crypto, plain]
    simp only [handleOpenReads, running, Bool.false_eq_true, if_false, handleReads]
    rcases socketHandleRead_stopsLast env s read plain with ⟨quiet, kept⟩ | ⟨stopped, last⟩
    · obtain ⟨logs, runs⟩ := ih _ (kept.trans running) plain' without'
      refine ⟨?_, ?_⟩
      · -- up to the stop of a later read, if any, the QUIT reply is what ends both logs
        have here := upTo_stopsLast _ (Or.inl quiet)
        cases halted : (socketHandleRead env s read).2.any Event.closes with
        | true =>
          have ended : (socketHandleRead env s read).2.any Event.ends = true := by
            rw [any_ends, halted, Bool.true_or]
          rw [upTo_append_halted _ _ _ halted, upTo_append_halted _ _ _ ended, here]
        | false =>
          have ended : (socketHandleRead env s read).2.any Event.ends = false := by
            simp [any_ends, halted, quiet]
          rw [upTo_append_running _ _ _ halted, upTo_append_running _ _ _ ended, logs]
      · intro silent
        rw [List.mem_append, not_or] at silent
        rw [runs silent.2]
    · obtain ⟨before, log, quiet⟩ := last
      have ended : (socketHandleRead env s read).2.any Event.ends = true := by
        simp [log, Event.ends]
      rw [handleOpenReads_stopped env _ reads stopped, List.append_nil,
        upTo_append_halted _ _ _ ended]
      refine ⟨upTo_stopsLast _ (Or.inr ⟨before, log, quiet⟩), ?_⟩
      intro silent
      exact absurd (by simp [log]) silent

end

section

variable (env : Env) (fd : Int) (now : UInt64) (record : Bool) (handlers : Handlers)

private theorem openReads_agree (stream : Bytes) (reads : List Arrival)
    (without : Without [.starttls] .command (lineFramer.pieces stream).1)
    (splits : Splits stream reads) :
    upTo Event.closes
          (handleOpenReads env (Socket.started fd now record handlers) reads).2 =
        upTo Event.ends (handleReads env (Socket.started fd now record handlers) reads).2 ∧
      (Event.stop ∉ (handleReads env (Socket.started fd now record handlers) reads).2 →
        handleOpenReads env (Socket.started fd now record handlers) reads =
          handleReads env (Socket.started fd now record handlers) reads) := by
  apply handleOpenReads_agrees env _ reads rfl rfl
  rw [splits.1]
  exact without

private theorem view_same {a b : Socket} (same : a.view = b.view) :
    a.state = b.state ∧ a.emailSize = b.emailSize ∧ a.indata = b.indata := by
  have session : a.toSession = b.toSession := congrArg Prod.fst same
  exact ⟨congrArg Session.state session, congrArg Session.emailSize session, congrArg Prod.snd same⟩

private theorem independent_of_settled (stream : Bytes)
    (without : Without [.starttls] .command (lineFramer.pieces stream).1)
    (settled : Settled Phase.quits .command (lineFramer.pieces stream).1) :
    SplitIndependent (handleReads env (Socket.started fd now record handlers)) stream := by
  intro xs ys splitX splitY
  obtain ⟨logs, views⟩ := settled_reads env fd now record handlers _ _ (foretells_closes env) stream
    without settled xs ys splitX splitY
  refine ⟨?_, ?_⟩
  · rw [upTo_filter _ _ closes_outward, upTo_filter _ _ closes_outward, logs]
  · intro running _
    exact view_same (views (ends_running _ running).1)

private theorem settled_of_independent (stream : Bytes)
    (without : Without [.starttls] .command (lineFramer.pieces stream).1)
    (independent : SplitIndependent (handleReads env (Socket.started fd now record handlers)) stream) :
    Settled Phase.quits .command (lineFramer.pieces stream).1 := by
  by_contra unsettled
  obtain ⟨xs, ys, later, splitX, splitY, running, log, left, shows⟩ :=
    unsettled_reads env fd now record handlers _ _ (foretells_closes env) stream without unsettled
  obtain ⟨logs, leaves⟩ := independent xs ys splitX splitY
  have quiet := (any_filter_visible _ _ closes_outward _).trans running
  rw [log, List.filter_append, upTo_append_running _ _ _ quiet, upTo_running _ _ quiet] at logs
  -- the later events show nothing, so neither run ended, and the buffers would have to agree
  have hidden := upTo_eq_nil _ _ (List.self_eq_append_right.mp logs)
  have silent : Event.stop ∉ (handleReads env (Socket.started fd now record handlers) xs).2 :=
    fun stops => shows stops hidden
  have openX : (handleReads env (Socket.started fd now record handlers) xs).2.any Event.ends =
      false := by
    simp [any_ends, running, silent]
  have openY : (handleReads env (Socket.started fd now record handlers) ys).2.any Event.ends =
      false := by
    rw [log, List.any_append, openX, hidden_running _ hidden, Bool.or_false]
  exact left (leaves openX openY).2.2.symm

private theorem open_independent_of_settled (stream : Bytes)
    (without : Without [.starttls] .command (lineFramer.pieces stream).1)
    (settled : Settled Phase.ends .command (lineFramer.pieces stream).1) :
    SplitIndependent (handleOpenReads env (Socket.started fd now record handlers)) stream := by
  intro xs ys splitX splitY
  obtain ⟨logs, views⟩ := settled_reads env fd now record handlers _ _ (foretells_ends env) stream
    without settled xs ys splitX splitY
  obtain ⟨logX, runX⟩ := openReads_agree env fd now record handlers stream xs without splitX
  obtain ⟨logY, runY⟩ := openReads_agree env fd now record handlers stream ys without splitY
  refine ⟨?_, ?_⟩
  · rw [upTo_filter _ _ closes_outward, upTo_filter _ _ closes_outward, logX, logY, logs]
  · intro runningX _
    -- the direct run did not end either, so both ways of reading agree
    have direct : (handleReads env (Socket.started fd now record handlers) xs).2.any Event.ends =
        false := by
      rw [← any_upTo, ← logX, upTo_running _ _ (ends_running _ runningX).1, runningX]
    have directY : (handleReads env (Socket.started fd now record handlers) ys).2.any Event.ends =
        false := by
      rw [← any_upTo, ← logs, any_upTo, direct]
    rw [runX (ends_running _ direct).2, runY (ends_running _ directY).2]
    exact view_same (views direct)

private theorem settled_of_open_independent (stream : Bytes)
    (without : Without [.starttls] .command (lineFramer.pieces stream).1)
    (independent :
      SplitIndependent (handleOpenReads env (Socket.started fd now record handlers)) stream) :
    Settled Phase.ends .command (lineFramer.pieces stream).1 := by
  by_contra unsettled
  obtain ⟨xs, ys, later, splitX, splitY, running, log, left, -⟩ :=
    unsettled_reads env fd now record handlers _ _ (foretells_ends env) stream without unsettled
  obtain ⟨logX, runX⟩ := openReads_agree env fd now record handlers stream xs without splitX
  obtain ⟨logY, runY⟩ := openReads_agree env fd now record handlers stream ys without splitY
  obtain ⟨logs, leaves⟩ := independent xs ys splitX splitY
  rw [upTo_filter _ _ closes_outward, upTo_filter _ _ closes_outward, logX, logY, log,
    upTo_append_running _ _ _ running, upTo_running _ _ running, List.filter_append,
    ← upTo_filter _ _ ends_outward] at logs
  have hidden := upTo_eq_nil _ _ (List.self_eq_append_right.mp logs)
  have runningY : (handleReads env (Socket.started fd now record handlers) ys).2.any Event.ends =
      false := by
    rw [log, List.any_append, running, hidden_running _ hidden, Bool.or_false]
  rw [runX (ends_running _ running).2, runY (ends_running _ runningY).2] at leaves
  exact left (leaves running runningY).2.2.symm

/-- The outcome does not depend on the reads exactly when no line that breaks the loop off is
followed by a complete line. Behind the read handler a line that stops the socket is harmless. -/
theorem splitIndependent_iff_settled (stream : Bytes)
    (without : Without [.starttls] .command (lineFramer.pieces stream).1) :
    (SplitIndependent (handleReads env (Socket.started fd now record handlers)) stream ↔
        Settled Phase.quits .command (lineFramer.pieces stream).1) ∧
      (SplitIndependent (handleOpenReads env (Socket.started fd now record handlers)) stream ↔
        Settled Phase.ends .command (lineFramer.pieces stream).1) := by
  refine ⟨⟨?_, ?_⟩, ⟨?_, ?_⟩⟩
  · exact settled_of_independent env fd now record handlers stream without
  · exact independent_of_settled env fd now record handlers stream without
  · exact settled_of_open_independent env fd now record handlers stream without
  · exact open_independent_of_settled env fd now record handlers stream without

end

def noHandlers : Handlers := ⟨false, 0, none, false, true⟩

theorem splitIndependent_noop :
    SplitIndependent (handleReads Env.granted (Socket.started 3 0 false noHandlers))
        (ascii "NOOP\r\nQUIT\r\n") ∧
      SplitIndependent (handleOpenReads Env.granted (Socket.started 3 0 false noHandlers))
        (ascii "NOOP\r\nQUIT\r\n") :=
  have settled := splitIndependent_iff_settled Env.granted 3 0 false noHandlers
    (ascii "NOOP\r\nQUIT\r\n") (by decide)
  ⟨settled.1.mpr (by decide), settled.2.mpr (by decide)⟩

/-- In one read the NOOP waits behind the line without a command word. In two it is answered. -/
theorem wordless_line_splits :
    Without [.starttls] .command (lineFramer.pieces (ascii "1\r\nNOOP\r\n")).1 ∧
      ¬SplitIndependent (handleReads Env.granted (Socket.started 3 0 false noHandlers))
        (ascii "1\r\nNOOP\r\n") ∧
      ¬SplitIndependent (handleOpenReads Env.granted (Socket.started 3 0 false noHandlers))
        (ascii "1\r\nNOOP\r\n") := by
  refine ⟨by decide, ?_, ?_⟩
  · intro independent
    exact absurd (settled_of_independent Env.granted 3 0 false noHandlers _ (by decide) independent)
      (by decide)
  · intro independent
    exact absurd
      (settled_of_open_independent Env.granted 3 0 false noHandlers _ (by decide) independent)
      (by decide)

end Spamass.Emailz
