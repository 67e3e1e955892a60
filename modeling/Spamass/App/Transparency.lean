import Spamass.App.HeaderRun
import Spamass.App.Ledger
import Spamass.Emailz.EndOfMail

/-!
# Transparency of the data segment

A sender doubles the dot that a line of the message begins with, so that no such line is
taken for the end of the mail. Nothing in libEmailz or the application takes the second
dot away again.
-/
namespace Spamass.App

open Spamass.Emailz Spamass.Framing Spamass.Runs

/-- A line of a message: CRLF at its end and nowhere else, with room for one more byte. -/
structure MessageLine (line : Bytes) : Prop where
  ended : ∃ text, line = text ++ [cr, lf] ∧ cr ∉ text ∧ lf ∉ text
  short : line.length < maxLineSize - 1

/-- The transparency rule of SMTP. -/
def transparent (line : Bytes) : Bytes := if line.head? = some dot then dot :: line else line

/-- What the client sends for a message after DATA. -/
def dataSegment (message : List Bytes) : Bytes :=
  (message.map transparent).flatten ++ endOfMail

/-- Up to the call that ends the mail, the application has taken the bytes of the message and no
others, and a file it writes holds them. -/
def Arrives (lower : Bytes → Bytes) (log : List Event) (socket : SMSocket) (email : SMEmail)
    (message : List Bytes) : Prop :=
  ∃ before payload after last,
    log.filter Event.outward = before ++ .data payload true :: after ∧
    (∀ other, Event.data other true ∉ before) ∧
    appRun lower (some { socket with email := some email }) before =
      some { socket with email := some last } ∧
    last.data = message.flatten ∧
    ∀ path contents,
      .file path contents ∈ (handleEmail { socket with email := some last }).2 ↔
        last.recipients ≠ [] ∧ pathWithSocketId last.socketId last.serial = some path ∧
          contents = message.flatten

/-! ### On the wire -/

theorem MessageLine.whole {line : Bytes} (made : MessageLine line) :
    lineFramer.cut line = some (line, []) := by
  obtain ⟨text, rfl, crs, lfs⟩ := made.ended
  have short := made.short
  exact socketReadLine_line text crs lfs (by omega)

/-- A line is cut off the stream as it was sent, and is not taken for the end of the mail. -/
theorem MessageLine.sent {line : Bytes} (made : MessageLine line) :
    lineFramer.cut (transparent line) = some (transparent line, []) ∧
      transparent line ≠ endOfMail := by
  by_cases dotted : line.head? = some dot
  · obtain ⟨text, rfl, crs, lfs⟩ := made.ended
    have short := made.short
    rw [transparent, if_pos dotted]
    -- the added dot belongs to the text of the line
    have crs' : cr ∉ dot :: text := List.not_mem_cons_of_ne_of_not_mem (by decide) crs
    have lfs' : lf ∉ dot :: text := List.not_mem_cons_of_ne_of_not_mem (by decide) lfs
    refine ⟨socketReadLine_line (dot :: text) crs' lfs' ?_, ?_⟩
    · rw [List.cons_append, List.length_cons]
      omega
    · intro same
      have tail : text ++ [cr, lf] = [cr, lf] := (List.cons.inj same).2
      rw [tail] at dotted
      exact absurd dotted (by decide)
  · rw [transparent, if_neg dotted]
    refine ⟨made.whole, ?_⟩
    rintro rfl
    exact dotted rfl

section Message

variable {message : List Bytes} (lines : ∀ line ∈ message, MessageLine line)

include lines

private theorem transparent_whole :
    ∀ line ∈ message.map transparent, lineFramer.cut line = some (line, []) := by
  intro line member
  obtain ⟨raw, member', rfl⟩ := List.mem_map.mp member
  exact (lines raw member').sent.1

private theorem transparent_unended : endOfMail ∉ message.map transparent := by
  intro member
  obtain ⟨raw, member', same⟩ := List.mem_map.mp member
  exact (lines raw member').sent.2 same

/-- The stream of a message is cut into its lines, the end of the mail and what follows. -/
private theorem dataSegment_pieces (rest : Bytes) :
    (lineFramer.pieces (dataSegment message ++ rest)).1 =
      message.map transparent ++ endOfMail :: (lineFramer.pieces rest).1 := by
  have ended : lineFramer.cut (endOfMail ++ rest) = some (endOfMail, rest) :=
    lineFramer.decides rest (s := endOfMail) (r := []) (by decide)
  rw [dataSegment, List.append_assoc, lineFramer.pieces_whole _ _ (transparent_whole lines),
    lineFramer.pieces_some ended]

/-- Lines as they are sent have the bytes of the message only if they are its lines. -/
theorem transparent_flatten {front : List Bytes} (inside : front <+: message.map transparent)
    (same : front.flatten = message.flatten) : message = front := by
  -- both are made of lines, so they agree line by line
  have left := lineFramer.pieces_whole front [] fun line member =>
    transparent_whole lines line (inside.subset member)
  have right := lineFramer.pieces_whole message [] fun line member => (lines line member).whole
  rw [same, right] at left
  exact List.append_cancel_right (congrArg Prod.fst left)

end Message

/-- The rule leaves a message alone exactly if no line of it begins with a dot. -/
private theorem transparent_same (message : List Bytes) :
    message.map transparent = message ↔ ∀ line ∈ message, line.head? ≠ some dot := by
  have one : ∀ line, transparent line = line ↔ line.head? ≠ some dot := by
    intro line
    unfold transparent
    split
    next dotted => exact iff_of_false (List.cons_ne_self _ _) (not_not_intro dotted)
    next plain => exact iff_of_true rfl plain
  induction message with
  | nil => exact iff_of_true rfl (List.forall_mem_nil _)
  | cons line message ih =>
    rw [List.map_cons, List.cons.injEq, List.forall_mem_cons]
    exact and_congr (one line) ih

/-- The lines whose total passes the limit for the first time. -/
private theorem split_large (bound start : Nat) (lines : List Bytes) (small : start ≤ bound)
    (large : bound < start + lines.flatten.length) :
    ∃ front line back, lines = front ++ line :: back ∧ start + front.flatten.length ≤ bound ∧
      bound < start + front.flatten.length + line.length := by
  induction lines generalizing start with
  | nil => exact absurd large (by simp only [List.flatten_nil, List.length_nil]; omega)
  | cons line lines ih =>
    rw [List.flatten_cons, List.length_append, ← Nat.add_assoc] at large
    rcases Nat.lt_or_ge bound (start + line.length) with here | later
    · exact ⟨[], line, lines, rfl, small, here⟩
    · obtain ⟨front, last, back, rfl, within, passes⟩ := ih (start + line.length) later large
      refine ⟨line :: front, last, back, rfl, ?_, ?_⟩
      · rw [List.flatten_cons, List.length_append]
        omega
      · rw [List.flatten_cons, List.length_append]
        omega

section Sending

variable (env : Env) (s : Session) (chunks lines : List Bytes) (rest : Bytes)
  (mail : s.state = .data) (count : s.emailSize = 0) (installed : s.dataHandler = true)
  (queue : s.handlerQueue = true) (other : endOfMail ∉ lines)
  (cuts : (lineFramer.pieces chunks.flatten).1 =
    lines ++ endOfMail :: (lineFramer.pieces rest).1)

include mail count installed queue other cuts

/-- The data handler gets the lines one by one, up to the end of the mail or to the line that
takes it over the limit. -/
private theorem feed_lines :
    ∃ front payload more, front <+: lines ∧
      (lines.flatten.length ≤ maxIndataSize → front = lines) ∧
      (feed lineFramer (handleLine env) s [] chunks).2.filter Event.outward =
        front.map (Event.data · false) ++ .data payload true :: more := by
  rcases Nat.lt_or_ge maxIndataSize lines.flatten.length with large | small
  · obtain ⟨front, line, back, rfl, within, passes⟩ :=
      split_large maxIndataSize 0 lines (Nat.zero_le _) (by omega)
    rw [List.mem_append, List.mem_cons, not_or, not_or] at other
    obtain ⟨runs, unbroken⟩ := runAll_mail env s front mail installed queue other.1 (by omega)
    obtain ⟨more, log⟩ := feed_breaking lineFramer (handleLine env) s [] chunks front line
      (back ++ endOfMail :: (lineFramer.pieces rest).1) (by decide)
      (by rw [List.nil_append, cuts, List.append_assoc, List.cons_append]) unbroken
    have overrun := handleLine_overrun env
      { s with emailSize := s.emailSize + front.flatten.length } line mail installed queue
      (Ne.symm other.2.1) (by dsimp only; omega)
    refine ⟨front, line, .stop :: more.filter Event.outward, List.prefix_append _ _, ?_, ?_⟩
    · intro small
      omega
    · rw [log, runAll_append, runs]
      simp only [runAll, overrun, List.append_nil, List.filter_append, mail_outward,
        List.append_assoc]
      rfl
  · obtain ⟨runs, unbroken⟩ := runAll_mail env s lines mail installed queue other (by omega)
    obtain ⟨more, log⟩ := feed_breaking lineFramer (handleLine env) s [] chunks lines endOfMail
      (lineFramer.pieces rest).1 (by decide) (by rw [List.nil_append, cuts]) unbroken
    obtain ⟨completion, sent, ended⟩ := handleLine_end env
      { s with emailSize := s.emailSize + lines.flatten.length } mail installed queue
    refine ⟨lines, [], .reply .accepted completion :: more.filter Event.outward, List.prefix_rfl,
      fun _ => rfl, ?_⟩
    rw [log, runAll_append, runs]
    simp only [runAll, ended, List.append_nil, List.filter_append, mail_outward, List.append_assoc]
    rfl

end Sending

/-! ### In the application -/

private theorem appRun_datas (lower : Bytes → Bytes) (socket : SMSocket) (chunks : List Bytes) :
    appRun lower (some socket) (chunks.map (Event.data · false)) =
      handleDatas lower socket chunks := by
  have stopped : ∀ log, appRun lower none log = none := by
    intro log
    induction log with
    | nil => rfl
    | cons event log ih => exact ih
  induction chunks generalizing socket with
  | nil => rfl
  | cons data chunks ih =>
    have first : appRun lower (some socket) ((data :: chunks).map (Event.data · false)) =
        appRun lower (handleData lower data socket) (chunks.map (Event.data · false)) := rfl
    rw [first, handleDatas, List.foldlM_cons]
    cases handleData lower data socket with
    | none => exact stopped _
    | some next => exact ih next

/-- The call that ends a mail is the first of its kind in the log. -/
theorem first_done {before after rest : List Event} {front : List Bytes} {payload last : Bytes}
    (missing : ∀ other, Event.data other true ∉ before)
    (same : before ++ .data payload true :: after =
      front.map (Event.data · false) ++ .data last true :: rest) :
    before = front.map (Event.data · false) := by
  rcases List.append_eq_append_iff.mp same with ⟨extra, split_, tail⟩ | ⟨extra, split_, tail⟩
  · cases extra with
    | nil => rw [split_, List.append_nil]
    | cons event extra =>
      obtain ⟨rfl, -⟩ := List.cons.inj tail
      have member : Event.data payload true ∈ front.map (Event.data · false) := by
        rw [split_]
        simp
      simp at member
  · cases extra with
    | nil => rw [split_, List.append_nil]
    | cons event extra =>
      obtain ⟨rfl, -⟩ := List.cons.inj tail
      exact absurd (by rw [split_]; simp) (missing last)

/-- A message within the limit arrives as it was sent exactly if no line of it begins with a dot,
and the application can read every line where it comes. -/
theorem arrives_iff_undotted (lower : Bytes → Bytes) (env : Env) (s : Socket)
    (reads : List Arrival) (chunks : List Bytes) (socket : SMSocket) (email : SMEmail)
    (message : List Bytes) (rest : Bytes) (carries : CarriesAll env s reads chunks)
    (mail : s.phase = .mail 0) (empty : s.indata = []) (installed : s.dataHandler = true)
    (queue : s.handlerQueue = true) (lines : ∀ line ∈ message, MessageLine line)
    (small : message.flatten.length ≤ maxIndataSize)
    (sent : chunks.flatten = dataSegment message ++ rest) (fresh : email.data = []) :
    Arrives lower (handleReads env s reads).2 socket email message ↔
      (∀ line ∈ message, line.head? ≠ some dot) ∧
        Each (staying (SMEmail.receive lower)) Readable email message := by
  obtain ⟨data, count⟩ := (phase_mail_iff s.toSession 0).mp mail
  have cuts : (lineFramer.pieces chunks.flatten).1 =
      message.map transparent ++ endOfMail :: (lineFramer.pieces rest).1 := by
    rw [sent, dataSegment_pieces lines rest]
  obtain ⟨front, payload, more, inside, fits, log⟩ := feed_lines env s.toSession chunks
    (message.map transparent) rest data count installed queue (transparent_unended lines) cuts
  have fed := congrArg Prod.snd (handleReads_carries env s reads chunks carries)
  rw [empty] at fed
  rw [← fed] at log
  dsimp only at log
  constructor
  · rintro ⟨before, last_, after, last, split_, missing, ran, held, -⟩
    rw [log] at split_
    obtain rfl := first_done missing split_.symm
    rw [appRun_datas, handleDatas_some] at ran
    rw [receives_data ran, fresh, List.nil_append] at held
    obtain rfl := transparent_flatten lines inside held
    have all : message = message.map transparent := inside.eq_of_length (List.length_map _).symm
    refine ⟨(transparent_same message).mp all.symm, ?_⟩
    rw [← foldlM_isSome_iff _ (receive_isSome lower), ran]
    rfl
  · rintro ⟨plain, readable⟩
    rw [(transparent_same message).mpr plain] at fits
    obtain rfl := fits small
    rw [← foldlM_isSome_iff _ (receive_isSome lower)] at readable
    obtain ⟨last, received⟩ := Option.isSome_iff_exists.mp readable
    have held : last.data = front.flatten := by
      rw [receives_data received, fresh, List.nil_append]
    refine ⟨front.map (Event.data · false), payload, more, last, log, ?_, ?_, held, ?_⟩
    · simp
    · rw [appRun_datas, handleDatas_some, received]
    · intro path contents
      rw [handleEmail_file, held]

/-- A message without dots. -/
theorem arrives_undotted :
    Arrives id (handleReads Env.granted mailSocket [plainRead (dataSegment [ascii "a: b\r\n"])]).2
      (SMSocket.init []) (SMEmail.init [] [] none) [ascii "a: b\r\n"] := by
  have made : ∀ line ∈ [ascii "a: b\r\n"], MessageLine line := by
    intro line member
    rw [List.mem_singleton.mp member]
    exact ⟨⟨ascii "a: b", by decide⟩, by decide⟩
  exact (arrives_iff_undotted id Env.granted mailSocket
    [plainRead (dataSegment [ascii "a: b\r\n"])] [dataSegment [ascii "a: b\r\n"]] (SMSocket.init [])
    (SMEmail.init [] [] none) [ascii "a: b\r\n"] [] ⟨carries_plain _ _ rfl, trivial⟩ (by decide)
    (by decide) (by decide) (by decide) made (by decide) (by decide) rfl).mpr
    ⟨by decide, fun _ invalid => absurd invalid (by decide), trivial⟩

/-- The doubled dot stays in the mail. -/
theorem dot_doubled :
    MessageLine (ascii ".a\r\n") ∧
      CarriesAll Env.granted mailSocket [plainRead (dataSegment [ascii ".a\r\n"])]
        [dataSegment [ascii ".a\r\n"]] ∧
      mailSocket.phase = .mail 0 ∧ mailSocket.indata = [] ∧ mailSocket.dataHandler = true ∧
      mailSocket.handlerQueue = true ∧
      ¬Arrives id (handleReads Env.granted mailSocket [plainRead (dataSegment [ascii ".a\r\n"])]).2
        (SMSocket.init []) (SMEmail.init [] [] none) [ascii ".a\r\n"] := by
  refine ⟨⟨⟨ascii ".a", by decide⟩, by decide⟩, ⟨carries_plain _ _ rfl, trivial⟩, by decide,
    by decide, by decide, by decide, ?_⟩
  rintro ⟨before, payload, after, last, log, missing, ran, held, -⟩
  have logged : (handleReads Env.granted mailSocket
      [plainRead (dataSegment [ascii ".a\r\n"])]).2.filter Event.outward =
        [ascii "..a\r\n"].map (Event.data · false) ++
          .data [] true :: [.reply .accepted .stopOnError] := by
    decide
  rw [logged] at log
  obtain rfl := first_done missing log.symm
  rw [appRun_datas, handleDatas_some] at ran
  rw [receives_data ran] at held
  exact absurd held (by decide)

end Spamass.App
