import Spamass.Emailz.StartTls

/-!
# One reply for each command line

The replies of a plaintext connection are compared, after every read, with the lines
taken so far. They correspond, and nothing complete is left in the buffer, exactly if
every command line has a command word and the unfinished line has no line end in it.
-/
namespace Spamass.Emailz

open Spamass.Framing

/-! ### The correspondence -/

/-- One reply for each command line and each completed DATA phase, in order. A line without a
command word is answered like an unsupported command. -/
inductive Corresponds : Phase → List Bytes → List Reply → Prop
  | nothing (phase : Phase) : Corresponds phase [] []
  | command {line : Bytes} {c : Command} {reply : Reply} {lines : List Bytes}
      {replies : List Reply} (word : lineCommand line = some c) (answers : Answers c reply)
      (later : Corresponds (Phase.command.next line) lines replies) :
      Corresponds .command (line :: lines) (reply :: replies)
  | wordless {line : Bytes} {lines : List Bytes} {replies : List Reply}
      (word : lineCommand line = none) (later : Corresponds .command lines replies) :
      Corresponds .command (line :: lines) (.unsupported :: replies)
  | ended {size : Nat} {lines : List Bytes} {replies : List Reply}
      (later : Corresponds .command lines replies) :
      Corresponds (.mail size) (endOfMail :: lines) (.accepted :: replies)
  | mail {size : Nat} {line : Bytes} {lines : List Bytes} {replies : List Reply}
      (other : line ≠ endOfMail) (later : Corresponds (.mail (size + line.length)) lines replies) :
      Corresponds (.mail size) (line :: lines) replies

/-- When a read returns, no complete line is left, and every line taken is answered. -/
structure AnsweredAll (result : Socket × List Event) : Prop where
  noLineEnd : ¬[cr, lf] <:+: result.1.indata
  short : result.1.indata.length < maxLineSize
  answered : Corresponds .command (linesOf result.2) (repliesOf result.2)

/-- No mail of the stream goes over the limit. -/
def WithinLimit : Phase → List Bytes → Prop
  | _, [] => True
  | phase, line :: lines => phase.overruns line = false ∧ WithinLimit (phase.next line) lines

instance WithinLimit.decide : (phase : Phase) → (lines : List Bytes) →
    Decidable (WithinLimit phase lines)
  | _, [] => isTrue trivial
  | phase, line :: lines =>
    have := WithinLimit.decide (phase.next line) lines
    inferInstanceAs (Decidable (phase.overruns line = false ∧ WithinLimit (phase.next line) lines))

/-- Every command line of the stream has a command word, and the unfinished line behind the
complete ones has no line end in it. -/
structure Answerable (stream : Bytes) : Prop where
  worded : ∀ line ∈ commandLines .command (lineFramer.pieces stream).1, lineCommand line ≠ none
  unfinished : ¬[cr, lf] <:+: (lineFramer.pieces stream).2

/-! ### The replies of the lines -/

/-- The replies a line gets: one for a command, none for a line without a word, and one for the
end of a mail. -/
inductive LineReplies : Phase → Bytes → List Reply → Prop
  | command {line : Bytes} {c : Command} {reply : Reply} (word : lineCommand line = some c)
      (answers : Answers c reply) : LineReplies .command line [reply]
  | wordless {line : Bytes} (word : lineCommand line = none) : LineReplies .command line []
  | ended (size : Nat) : LineReplies (.mail size) endOfMail [.accepted]
  | mail {line : Bytes} (size : Nat) (other : line ≠ endOfMail) : LineReplies (.mail size) line []

private theorem handleLine_replies (env : Env) (s : Session) (line : Bytes) :
    LineReplies s.phase line (repliesOf (handleLine env s line).events) := by
  have handled := handleLine_handled env s line
  generalize handleLine env s line = after at handled ⊢
  have quiet := fun payload done arg c => repliesOf_callbacks s payload arg done c
  have noted : ∀ log, repliesOf (.line line :: log) = repliesOf log := fun _ => rfl
  cases handled with
  | ended completion _ mail last =>
    subst last
    rw [(phase_mail_iff s s.emailSize).mpr ⟨mail, rfl⟩, noted, repliesOf_append,
      (quiet [] true [] .none).1]
    exact .ended _
  | overrun mail other _ =>
    rw [(phase_mail_iff s s.emailSize).mpr ⟨mail, rfl⟩, noted, repliesOf_append,
      (quiet line true [] .none).1]
    exact .mail _ other
  | mail mail other _ =>
    rw [(phase_mail_iff s s.emailSize).mpr ⟨mail, rfl⟩, noted, (quiet line false [] .none).1]
    exact .mail _ other
  | wordless command missing =>
    rw [(phase_command_iff s).mpr command]
    exact .wordless missing
  | command c result command present _ answered =>
    -- around the one reply there are only asides
    obtain ⟨before, reply, completion, later, _, _, rfl, answers, -, asides⟩ := answered
    have early := repliesOf_asides before fun e member => asides e (List.mem_append_left _ member)
    have late := repliesOf_asides later fun e member => asides e (List.mem_append_right _ member)
    have one : repliesOf (.reply reply completion :: later) = reply :: repliesOf later := rfl
    rw [(phase_command_iff s).mpr command, noted, repliesOf_append, repliesOf_append,
      (quiet [] false (argument line) c).2, early, one, late]
    exact .command present answers

/-- The replies the lines of a stream call for. -/
def due : Phase → List Bytes → Nat
  | _, [] => 0
  | .command, line :: lines => 1 + due (Phase.command.next line) lines
  | .mail size, line :: lines =>
    (if line = endOfMail then 1 else 0) + due ((Phase.mail size).next line) lines

theorem Corresponds.counts {phase : Phase} {lines : List Bytes} {replies : List Reply}
    (corresponds : Corresponds phase lines replies) : replies.length = due phase lines := by
  induction corresponds with
  | nothing phase => cases phase <;> rfl
  | command _ _ _ ih => simp [due, ih, Nat.add_comm]
  | wordless word _ ih => simp [due, ih, Nat.add_comm, Phase.next, word]
  | ended _ ih => simp [due, ih, Nat.add_comm, Phase.next]
  | mail other _ ih => simp [due, ih, other, Phase.next]

/-- A line without a command word leaves a reply owing. -/
private theorem replies_counted (env : Env) (s : Session) (lines : List Bytes) :
    (repliesOf (runAll (handleLine env) s lines).2).length +
        ((commandLines s.phase lines).filter fun line => (lineCommand line).isNone).length =
      due s.phase lines := by
  induction lines generalizing s with
  | nil => cases s.phase <;> rfl
  | cons line lines ih =>
    have here := handleLine_replies env s line
    have next := (handleLine_handled env s line).phase
    have later := ih (handleLine env s line).state
    rw [next] at later
    rw [runAll, repliesOf_append, List.length_append]
    generalize repliesOf (handleLine env s line).events = replies at here ⊢
    generalize s.phase = phase at here later ⊢
    -- a line without a word is counted where the others are answered
    cases here with
    | command word _ =>
      simp [commandLines, due, word]
      omega
    | wordless word =>
      simp [commandLines, due, word]
      omega
    | ended size =>
      simp [commandLines, due]
      omega
    | mail size other => simpa [commandLines, due, other] using later

private theorem corresponds_iff_worded (env : Env) (s : Session) (lines : List Bytes) :
    Corresponds s.phase lines (repliesOf (runAll (handleLine env) s lines).2) ↔
      ∀ line ∈ commandLines s.phase lines, lineCommand line ≠ none := by
  constructor
  · -- a line without a word leaves one reply too few
    intro corresponds
    have counted := replies_counted env s lines
    rw [corresponds.counts] at counted
    intro line member word
    have there : line ∈ (commandLines s.phase lines).filter fun line =>
        (lineCommand line).isNone := List.mem_filter.mpr ⟨member, by rw [word]; rfl⟩
    have present := List.length_pos_of_mem there
    omega
  · intro worded
    induction lines generalizing s with
    | nil => exact .nothing _
    | cons line lines ih =>
      have here := handleLine_replies env s line
      have next := (handleLine_handled env s line).phase
      have later := ih (handleLine env s line).state
      rw [next] at later
      rw [runAll, repliesOf_append]
      generalize repliesOf (handleLine env s line).events = replies at here ⊢
      generalize s.phase = phase at here later worded ⊢
      cases here with
      | command word answers =>
        exact .command word answers (later fun l member => worded l (List.mem_cons_of_mem _ member))
      | wordless word => exact absurd word (worded line (List.mem_cons_self ..))
      | ended size =>
        have after : (Phase.mail size).next endOfMail = .command := by simp [Phase.next]
        rw [after] at later
        exact .ended (later fun l member => worded l (by simpa [commandLines, after] using member))
      | mail size other =>
        have after : (Phase.mail size).next line = .mail (size + line.length) := by
          simp [Phase.next, other]
        rw [after] at later
        exact .mail other
          (later fun l member => worded l (by simpa [commandLines, after] using member))

/-! ### The whole stream -/

private theorem withinLimit_front (phase : Phase) (xs ys : List Bytes)
    (within : WithinLimit phase (xs ++ ys)) : WithinLimit phase xs := by
  induction xs generalizing phase with
  | nil => trivial
  | cons line xs ih => exact ⟨within.1, ih _ within.2⟩

/-- Where no mail goes over the limit, the loop breaks off at lines without a word only. -/
private theorem unbroken_iff_worded (env : Env) (s : Session) (lines : List Bytes)
    (within : WithinLimit s.phase lines) :
    Unbroken (handleLine env) s lines ↔
      ∀ line ∈ commandLines s.phase lines, lineCommand line ≠ none := by
  induction lines generalizing s with
  | nil => cases s.phase <;> simp [Unbroken, commandLines]
  | cons line lines ih =>
    have handled := handleLine_handled env s line
    have later := ih (handleLine env s line).state
    rw [handled.phase] at later
    rw [Unbroken, handled.breaks]
    obtain ⟨here, within⟩ := within
    generalize s.phase = phase at here later within ⊢
    rw [later within]
    cases phase with
    | command => simp [commandLines, Phase.breaksOff, Option.isNone_eq_false_iff,
        Option.isSome_iff_ne_none]
    | mail size =>
      have running : (Phase.mail size).breaksOff line = false := here
      simp [commandLines, running]

/-- Every line the loop takes is answered exactly if it takes all of them. -/
private theorem feed_corresponds_iff (env : Env) (s : Session) (chunks : List Bytes)
    (within : WithinLimit s.phase (lineFramer.pieces chunks.flatten).1) :
    Corresponds s.phase (linesOf (feed lineFramer (handleLine env) s [] chunks).2)
        (repliesOf (feed lineFramer (handleLine env) s [] chunks).2) ↔
      Unbroken (handleLine env) s (lineFramer.pieces chunks.flatten).1 := by
  constructor
  · intro corresponds
    by_contra broken
    -- the line that breaks the loop off is itself taken, and needs an answer
    obtain ⟨before, line, after, cuts, unbroken, breaks⟩ :=
      broken_splits (handleLine env) s _ broken
    obtain ⟨more, log⟩ := feed_breaking lineFramer (handleLine env) s [] chunks before line after
      (by decide) cuts unbroken
    obtain ⟨taken, runs, inside, -⟩ := feed_takes lineFramer (handleLine env) s [] chunks
    have lines := linesOf_runAll env s taken
    rw [runs] at lines
    have reached : taken = (before ++ [line]) ++ linesOf more := by
      rw [← lines, log, linesOf_append, linesOf_runAll]
    rw [lines, ← congrArg Prod.snd runs, corresponds_iff_worded] at corresponds
    obtain ⟨left, whole⟩ := inside
    rw [List.nil_append] at whole
    rw [← whole] at within
    have through := (unbroken_iff_worded env s taken (withinLimit_front _ _ _ within)).mpr
      corresponds
    rw [reached, unbroken_append, unbroken_append] at through
    rw [through.1.2.1] at breaks
    cases breaks
  · intro unbroken
    rw [feed_unbroken lineFramer (handleLine env) s [] chunks (by decide) unbroken,
      linesOf_runAll, corresponds_iff_worded]
    exact (unbroken_iff_worded env s _ within).mp unbroken

section

variable (env : Env) (fd : Int) (now : UInt64) (record : Bool) (handlers : Handlers)

private theorem answeredAll_iff (reads : List Arrival)
    (without : Without [.starttls] .command
      (lineFramer.pieces (reads.map Arrival.data).flatten).1)
    (within : WithinLimit .command (lineFramer.pieces (reads.map Arrival.data).flatten).1) :
    AnsweredAll (handleReads env (Socket.started fd now record handlers) reads) ↔
      Answerable (reads.map Arrival.data).flatten := by
  have fed := handleReads_plain env (Socket.started fd now record handlers) reads rfl without
  have buffer := congrArg (fun result => result.1.2) fed
  have log := congrArg Prod.snd fed
  simp only [Socket.view] at buffer log
  have corresponds := feed_corresponds_iff env (Socket.started fd now record handlers).toSession
    (reads.map Arrival.data) within
  have worded := unbroken_iff_worded env (Socket.started fd now record handlers).toSession _ within
  -- where every line is taken, the buffer holds the unfinished line
  have rest := fun unbroken => congrArg (fun result => result.1.2)
    (feed_unbroken lineFramer (handleLine env) (Socket.started fd now record handlers).toSession []
      (reads.map Arrival.data) (by decide) unbroken)
  constructor
  · rintro ⟨noLineEnd, -, answered⟩
    rw [log] at answered
    have unbroken := corresponds.mp answered
    refine ⟨worded.mp unbroken, ?_⟩
    rw [← List.nil_append (reads.map Arrival.data).flatten, ← rest unbroken]
    rw [buffer] at noLineEnd
    exact noLineEnd
  · rintro ⟨every, unfinished⟩
    have unbroken := worded.mpr every
    have left := buffer.trans (rest unbroken)
    refine ⟨?_, ?_, ?_⟩
    · rw [left]
      exact unfinished
    · rw [left]
      exact socketReadLine_none (lineFramer.pieces_rest _)
    · rw [log]
      exact corresponds.mpr unbroken

/-- After every read of a plaintext stream all complete lines are consumed and answered, exactly
if every complete command line has a word and what is left behind them has no line end in it. -/
theorem answered_iff_answerable (reads : List Arrival)
    (without : Without [.starttls] .command
      (lineFramer.pieces (reads.map Arrival.data).flatten).1)
    (within : WithinLimit .command (lineFramer.pieces (reads.map Arrival.data).flatten).1) :
    (∀ before, before <+: reads →
        AnsweredAll (handleReads env (Socket.started fd now record handlers) before)) ↔
      ∀ before, before <+: reads → Answerable (before.map Arrival.data).flatten := by
  refine forall_congr' fun before => imp_congr_right fun inside => ?_
  obtain ⟨after, rfl⟩ := inside
  rw [List.map_append, List.flatten_append, lineFramer.pieces_append] at without within
  rw [without_append] at without
  exact answeredAll_iff env fd now record handlers before without.1
    (withinLimit_front _ _ _ within)

end

theorem answered_iff_answerable_noop :
    (∀ before, before <+: [plainRead (ascii "NOOP\r\n")] → AnsweredAll
      (handleReads Env.granted (Socket.started 3 0 false noHandlers) before)) ↔
      ∀ before, before <+: [plainRead (ascii "NOOP\r\n")] →
        Answerable (before.map Arrival.data).flatten :=
  answered_iff_answerable Env.granted 3 0 false noHandlers [plainRead (ascii "NOOP\r\n")]
    (by decide) (by decide)

/-- A line that starts with a digit gets no answer, and keeps the command behind it waiting. -/
theorem digit_unanswered :
    Without [.starttls, .quit] .command (lineFramer.pieces (ascii "1\r\nNOOP\r\n")).1 ∧
      WithinLimit .command (lineFramer.pieces (ascii "1\r\nNOOP\r\n")).1 ∧
      ¬AnsweredAll (handleReads Env.granted (Socket.started 3 0 false noHandlers)
        [plainRead (ascii "1\r\nNOOP\r\n")]) := by
  refine ⟨by decide, by decide, fun answered => ?_⟩
  exact absurd ⟨ascii "NOOP", [], by decide⟩ answered.noLineEnd

end Spamass.Emailz
