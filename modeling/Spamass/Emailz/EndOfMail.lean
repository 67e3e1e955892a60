import Spamass.Emailz.Fragments
import Spamass.Emailz.Splitting

/-!
# The end of the data segment

SMTP ends the mail at the first line that is a single dot, where lines are parted by
CRLF. The program looks at the fragments the line reader returns. The two agree
exactly when the dot line starts a fragment, and no fragment before it reads the same.
-/
namespace Spamass.Emailz

open Spamass.Framing

/-- A dot line: the first thing after DATA, or behind a CRLF. -/
def AtEnd (stream : Bytes) (k : Nat) : Prop :=
  endOfMail <+: stream.drop k ∧ (k = 0 ∨ [cr, lf] <:+ stream.take k)

instance (stream : Bytes) (k : Nat) : Decidable (AtEnd stream k) :=
  inferInstanceAs (Decidable (_ ∧ _))

def FirstEnd (stream : Bytes) (k : Nat) : Prop := AtEnd stream k ∧ ∀ q < k, ¬AtEnd stream q

instance (stream : Bytes) (k : Nat) : Decidable (FirstEnd stream k) :=
  inferInstanceAs (Decidable (_ ∧ _))

/-- The session once the mail was accepted. -/
def Session.accepted (s : Session) (size sent : Nat) : Session :=
  { s with
    state := .none
    emailSize := s.emailSize + size
    outbytes := s.outbytes + sent
    bytesSent := s.bytesSent + sent }

/-- The data segment ends at the first dot line: the handler got the bytes before it and the
end, and the bytes behind it are handled in the session that no longer reads mail. Without a
dot line the handler gets mail only. -/
structure EndsMail (env : Env) (s : Session) (stream : Bytes)
    (ran : (Session × Bytes) × List Event) : Prop where
  ended : ∀ k, FirstEnd stream k → ∃ (chunks rest : List Bytes) (completion : Completion)
    (sent : Nat),
    chunks.flatten = stream.take k ∧ rest.flatten = stream.drop (k + endOfMail.length) ∧
    ran.1 = (feed lineFramer (handleLine env) (s.accepted k sent) [] rest).1 ∧
    ran.2.filter Event.outward =
      chunks.map (Event.data · false) ++ .data [] true :: .reply .accepted completion ::
        (feed lineFramer (handleLine env) (s.accepted k sent) [] rest).2.filter Event.outward
  goesOn : (∀ k, ¬FirstEnd stream k) →
    ran.1.1.state = .data ∧
      ∃ chunks : List Bytes, ran.2.filter Event.outward = chunks.map (Event.data · false)

/-- The dot line starts a fragment, and no earlier fragment reads like it. -/
structure Recognised (stream : Bytes) : Prop where
  cut : ∀ k, FirstEnd stream k → FragmentStart stream k
  only : ∀ k, FragmentStart stream k → endOfMail <+: stream.drop k →
    ∃ q, q ≤ k ∧ FirstEnd stream q

/-! ### Mail lines -/

private theorem endOfMail_fragment (stream : Bytes) :
    Fragment stream endOfMail ↔ endOfMail <+: stream := by
  constructor
  · exact Fragment.inside
  · intro inside
    refine ⟨inside, by decide, Or.inl ⟨[dot, cr], rfl, by decide⟩, ?_⟩
    rintro front ⟨rest, same⟩ ⟨body, rfl, odd⟩
    -- the LF is the last of the three bytes
    cases rest with
    | nil => simpa using same
    | cons byte rest =>
      have member : lf ∈ [dot, cr] := by
        have behind : body ++ lf :: (byte :: rest) = [dot, cr] ++ [lf] := by
          simpa [endOfMail] using same
        have front := congrArg List.dropLast behind
        rw [List.dropLast_concat, List.dropLast_append_cons, List.dropLast_cons_cons] at front
        rw [← front]
        simp
      exact absurd member (by decide)

section

variable (env : Env)

theorem handleLine_mail (s : Session) (line : Bytes) (mail : s.state = .data)
    (installed : s.dataHandler = true) (queue : s.handlerQueue = true) (other : line ≠ endOfMail)
    (small : s.emailSize + line.length ≤ maxIndataSize) :
    handleLine env s line =
      ⟨{ s with emailSize := s.emailSize + line.length }, [.line line, .data line false], false⟩ := by
  have within : ¬maxIndataSize < s.emailSize + line.length := Nat.not_lt.mpr small
  simp [handleLine, mail, handleMailLine, other, within, dataCallback, installed, queue]

/-- The line that takes the mail over the limit goes to the data handler as its last. -/
theorem handleLine_overrun (s : Session) (line : Bytes) (mail : s.state = .data)
    (installed : s.dataHandler = true) (queue : s.handlerQueue = true) (other : line ≠ endOfMail)
    (large : maxIndataSize < s.emailSize + line.length) :
    (handleLine env s line).events = [.line line, .data line true, .stop] := by
  simp [handleLine, mail, handleMailLine, other, large, dataCallback, installed, queue, socketStop]

theorem handleLine_end (s : Session) (mail : s.state = .data) (installed : s.dataHandler = true)
    (queue : s.handlerQueue = true) :
    ∃ completion sent, handleLine env s endOfMail =
      ⟨s.accepted 0 sent,
        [.line endOfMail, .data [] true, .reply .accepted completion], false⟩ := by
  obtain ⟨completion, sent, written⟩ :=
    socketHandleWrite_spec { s with state := .none } .accepted none
  refine ⟨completion, sent, ?_⟩
  simp [handleLine, mail, handleMailLine, written, dataCallback, installed, queue, Session.accepted]

/-- Lines that are not the dot line go to the data handler, within the limit. -/
theorem runAll_mail (s : Session) (lines : List Bytes) (mail : s.state = .data)
    (installed : s.dataHandler = true) (queue : s.handlerQueue = true)
    (other : endOfMail ∉ lines)
    (small : s.emailSize + lines.flatten.length ≤ maxIndataSize) :
    runAll (handleLine env) s lines =
        ({ s with emailSize := s.emailSize + lines.flatten.length },
          lines.flatMap fun line => [.line line, .data line false]) ∧
      Unbroken (handleLine env) s lines := by
  induction lines generalizing s with
  | nil => exact ⟨rfl, trivial⟩
  | cons line lines ih =>
    simp only [List.mem_cons, not_or] at other
    rw [List.flatten_cons, List.length_append] at small
    have here := handleLine_mail env s line mail installed queue (Ne.symm other.1) (by omega)
    obtain ⟨runs, unbroken⟩ := ih { s with emailSize := s.emailSize + line.length } mail installed
      queue other.2 (by simp only; omega)
    refine ⟨?_, ?_, ?_⟩
    · rw [runAll, here]
      simp only [runs, List.flatten_cons, List.length_append, List.flatMap_cons, Nat.add_assoc]
    · rw [here]
    · rw [here]
      exact unbroken

theorem mail_outward (lines : List Bytes) :
    (lines.flatMap fun line => [Event.line line, .data line false]).filter Event.outward =
      lines.map (Event.data · false) := by
  induction lines with
  | nil => rfl
  | cons line lines ih =>
    rw [List.flatMap_cons, List.filter_append, ih]
    rfl

variable (s : Session) (chunks : List Bytes) (mail : s.state = .data)
  (installed : s.dataHandler = true) (queue : s.handlerQueue = true)
  (small : s.emailSize + chunks.flatten.length ≤ maxIndataSize)

include mail installed queue small

/-- No fragment is the dot line: the handler gets the mail and nothing else. -/
private theorem feed_goesOn (other : endOfMail ∉ (lineFramer.pieces chunks.flatten).1) :
    (feed lineFramer (handleLine env) s [] chunks).1.1.state = .data ∧
      (feed lineFramer (handleLine env) s [] chunks).2.filter Event.outward =
        (lineFramer.pieces chunks.flatten).1.map (Event.data · false) := by
  have joined := congrArg List.length (lineFramer.pieces_flatten chunks.flatten)
  rw [List.length_append] at joined
  obtain ⟨runs, unbroken⟩ := runAll_mail env s (lineFramer.pieces chunks.flatten).1 mail installed
    queue other (by omega)
  have fed := feed_unbroken lineFramer (handleLine env) s [] chunks (by decide) unbroken
  rw [List.nil_append] at fed
  rw [fed, runs]
  exact ⟨mail, mail_outward _⟩

/-- The first fragment that is the dot line ends the mail. -/
private theorem feed_ended (left right : List Bytes)
    (cuts : (lineFramer.pieces chunks.flatten).1 = left ++ endOfMail :: right)
    (other : endOfMail ∉ left) :
    ∃ completion sent rest,
      rest.flatten = right.flatten ++ (lineFramer.pieces chunks.flatten).2 ∧
      (feed lineFramer (handleLine env) s [] chunks).1 =
        (feed lineFramer (handleLine env) (s.accepted left.flatten.length sent) [] rest).1 ∧
      (feed lineFramer (handleLine env) s [] chunks).2.filter Event.outward =
        left.map (Event.data · false) ++ .data [] true :: .reply .accepted completion ::
          (feed lineFramer (handleLine env) (s.accepted left.flatten.length sent) [] rest).2.filter
            Event.outward := by
  have joined := congrArg List.length (lineFramer.pieces_flatten chunks.flatten)
  rw [cuts, List.length_append, List.flatten_append, List.length_append] at joined
  -- the lines before the terminator are content
  obtain ⟨runs, unbroken⟩ := runAll_mail env s left mail installed queue other (by omega)
  obtain ⟨completion, sent, ended⟩ := handleLine_end env
    { s with emailSize := s.emailSize + left.flatten.length } mail installed queue
  have through : Unbroken (handleLine env) s (left ++ [endOfMail]) := by
    rw [unbroken_append, runs]
    exact ⟨unbroken, by rw [ended], trivial⟩
  have played : runAll (handleLine env) s (left ++ [endOfMail]) =
      (s.accepted left.flatten.length sent,
        (left.flatMap fun line => [Event.line line, .data line false]) ++
          [.line endOfMail, .data [] true, .reply .accepted completion]) := by
    rw [runAll_append, runs]
    simp only [runAll, ended, List.append_nil]
    rfl
  -- the chunks are cut behind the terminator; the rest starts a new dialogue
  obtain ⟨rest, behind, fed⟩ := feed_splits lineFramer (handleLine env) s [] chunks
    (left ++ [endOfMail]) right (by decide) (by simpa using cuts) through
  rw [List.nil_append] at behind
  rw [fed, played]
  refine ⟨completion, sent, rest, behind, rfl, ?_⟩
  simp only [List.filter_append, mail_outward, List.append_assoc]
  rfl

end

/-! ### Where the two rules meet -/

theorem FirstEnd.unique {stream : Bytes} {p q : Nat} (left : FirstEnd stream p)
    (right : FirstEnd stream q) : p = q := by
  rcases Nat.lt_trichotomy p q with below | same | above
  · exact absurd left.1 (right.2 p below)
  · exact same
  · exact absurd right.1 (left.2 q above)

/-- The fragments that read like the dot line, as positions. -/
private theorem endOfMail_start (stream : Bytes) (k : Nat) :
    (FragmentStart stream k ∧ endOfMail <+: stream.drop k) ↔
      ∃ left right, (lineFramer.pieces stream).1 = left ++ endOfMail :: right ∧
        k = left.flatten.length := by
  have joined := lineFramer.pieces_flatten stream
  constructor
  · rintro ⟨start, dotLine⟩
    obtain ⟨left, behind, cuts, rfl⟩ := (fragmentStart_iff stream k).mp start
    have tail := lineFramer.pieces_tail stream left behind cuts
    rw [cuts, List.flatten_append, List.append_assoc] at joined
    rw [← joined, List.drop_left] at dotLine
    obtain ⟨rest, same⟩ := dotLine
    have fragment := (endOfMail_fragment (behind.flatten ++ (lineFramer.pieces stream).2)).mpr
      ⟨rest, same⟩
    have cut : lineFramer.cut (behind.flatten ++ (lineFramer.pieces stream).2) =
        some (endOfMail, rest) := socketReadLine_fragment.mpr ⟨fragment, same⟩
    rw [lineFramer.pieces_some cut, Prod.mk.injEq] at tail
    exact ⟨left, _, by rw [cuts, ← tail.1], rfl⟩
  · rintro ⟨left, right, cuts, rfl⟩
    refine ⟨(fragmentStart_iff stream _).mpr ⟨left, _, cuts, rfl⟩, ?_⟩
    rw [cuts, List.flatten_append, List.append_assoc] at joined
    rw [← joined, List.drop_left, List.flatten_cons, List.append_assoc]
    exact List.prefix_append _ _

/-- The first fragment that reads like the dot line is the first in the stream. -/
private theorem first_below (stream : Bytes) (left right : List Bytes) (k : Nat)
    (cuts : (lineFramer.pieces stream).1 = left ++ endOfMail :: right) (other : endOfMail ∉ left)
    (start : FragmentStart stream k) (dotLine : endOfMail <+: stream.drop k) :
    left.flatten.length ≤ k := by
  obtain ⟨front, behind, cuts', rfl⟩ := (endOfMail_start stream k).mp ⟨start, dotLine⟩
  rw [cuts] at cuts'
  rcases List.append_eq_append_iff.mp cuts' with ⟨extra, rfl, -⟩ | ⟨extra, rfl, same⟩
  · simp
  · cases extra with
    | nil => simp
    | cons line extra =>
      obtain ⟨rfl, -⟩ := List.cons.inj same
      exact absurd (by simp) other

/-- Two logs of mail lines up to the end of the mail carry the same lines. -/
private theorem mail_cancel (xs ys : List Bytes) (restX restY : List Event)
    (same : xs.map (Event.data · false) ++ .data [] true :: restX =
      ys.map (Event.data · false) ++ .data [] true :: restY) : xs = ys := by
  induction xs generalizing ys with
  | nil =>
    cases ys with
    | nil => rfl
    | cons y ys => simp at same
  | cons x xs ih =>
    cases ys with
    | nil => simp at same
    | cons y ys =>
      simp only [List.map_cons, List.cons_append, List.cons.injEq, Event.data.injEq] at same
      rw [same.1.1, ih ys same.2]

private theorem mail_unended (xs ys : List Bytes) (rest : List Event) :
    xs.map (Event.data · false) ++ .data [] true :: rest ≠ ys.map (Event.data · false) := by
  intro same
  have member : Event.data [] true ∈ ys.map (Event.data · false) := by
    rw [← same]
    simp
  simp at member

section

variable (env : Env) (s : Session) (chunks : List Bytes) (mail : s.phase = .mail 0)
  (installed : s.dataHandler = true) (queue : s.handlerQueue = true)
  (small : chunks.flatten.length ≤ maxIndataSize)

include mail installed queue small

/-- No fragment reads like the dot line: both sides say that there is none. -/
private theorem endsMail_unseen (other : endOfMail ∉ (lineFramer.pieces chunks.flatten).1) :
    EndsMail env s chunks.flatten (feed lineFramer (handleLine env) s [] chunks) ↔
      Recognised chunks.flatten := by
  obtain ⟨data, count⟩ := (phase_mail_iff s 0).mp mail
  obtain ⟨open_, log⟩ := feed_goesOn env s chunks data installed queue (by omega) other
  have unseen : ∀ k, FragmentStart chunks.flatten k → ¬endOfMail <+: chunks.flatten.drop k := by
    intro k start dotLine
    obtain ⟨left, right, cuts, -⟩ := (endOfMail_start _ k).mp ⟨start, dotLine⟩
    apply other
    rw [cuts]
    simp
  constructor
  · intro ends
    refine ⟨?_, fun k start dotLine => absurd dotLine (unseen k start)⟩
    intro k first
    obtain ⟨passed, rest, completion, sent, -, -, -, ended⟩ := ends.ended k first
    rw [log] at ended
    exact absurd ended.symm (mail_unended _ _ _)
  · intro recognised
    have never : ∀ k, ¬FirstEnd chunks.flatten k :=
      fun k first => unseen k (recognised.cut k first) first.1.1
    exact ⟨fun k first => absurd first (never k), fun _ => ⟨open_, _, log⟩⟩

/-- Otherwise both sides say that the first such fragment is the first dot line. -/
private theorem endsMail_seen (left right : List Bytes)
    (cuts : (lineFramer.pieces chunks.flatten).1 = left ++ endOfMail :: right)
    (other : endOfMail ∉ left) :
    EndsMail env s chunks.flatten (feed lineFramer (handleLine env) s [] chunks) ↔
      Recognised chunks.flatten := by
  obtain ⟨data, count⟩ := (phase_mail_iff s 0).mp mail
  obtain ⟨completion, sent, rest, behind, view, log⟩ :=
    feed_ended env s chunks data installed queue (by omega) left right cuts other
  have joined := lineFramer.pieces_flatten chunks.flatten
  rw [cuts, List.flatten_append, List.flatten_cons, List.append_assoc, List.append_assoc,
    ← behind] at joined
  have below := fun k => first_below chunks.flatten left right k cuts other
  obtain ⟨start, dotLine⟩ := (endOfMail_start chunks.flatten _).mpr ⟨left, right, cuts, rfl⟩
  constructor
  · intro ends
    -- the handler got the lines in `left`, so the mail ended at the right place
    have first : FirstEnd chunks.flatten left.flatten.length := by
      by_cases present : ∃ k, FirstEnd chunks.flatten k
      · obtain ⟨k, first⟩ := present
        obtain ⟨passed, _, _, _, taken, -, -, ended⟩ := ends.ended k first
        rw [log] at ended
        obtain rfl := mail_cancel _ _ _ _ ended
        have inside := first.1.1.length_le
        rw [List.length_drop, show endOfMail.length = 3 from rfl] at inside
        rw [taken, List.length_take, Nat.min_eq_left (by omega)]
        exact first
      · obtain ⟨-, passed, ended⟩ := ends.goesOn (fun k first => present ⟨k, first⟩)
        rw [log] at ended
        exact absurd ended (mail_unended _ _ _)
    refine ⟨fun k other => first.unique other ▸ start, ?_⟩
    exact fun k start dotLine => ⟨_, below k start dotLine, first⟩
  · intro recognised
    obtain ⟨q, le, first⟩ := recognised.only _ start dotLine
    have same : q = left.flatten.length :=
      Nat.le_antisymm le (below q (recognised.cut q first) first.1.1)
    subst same
    refine ⟨?_, fun never => absurd first (never _)⟩
    intro k firstK
    obtain rfl := first.unique firstK
    refine ⟨left, rest, completion, sent, ?_, ?_, view, log⟩
    · rw [← joined, List.take_left]
    · rw [← joined, ← List.append_assoc, ← List.length_append, List.drop_left]

/-- The mail ends where SMTP says it does exactly when the line reader cuts the stream there. -/
private theorem feed_endsMail_iff :
    EndsMail env s chunks.flatten (feed lineFramer (handleLine env) s [] chunks) ↔
      Recognised chunks.flatten := by
  by_cases seen : endOfMail ∈ (lineFramer.pieces chunks.flatten).1
  · obtain ⟨left, right, cuts, other⟩ := List.eq_append_cons_of_mem seen
    exact endsMail_seen env s chunks mail installed queue small left right cuts other
  · exact endsMail_unseen env s chunks mail installed queue small seen

end

/-- After an accepted DATA, over either transport, the data segment ends where SMTP says it does
exactly when the line reader cuts the stream there. -/
theorem endsMail_iff_recognised (env : Env) (s : Socket) (reads : List Arrival)
    (chunks : List Bytes) (carries : CarriesAll env s reads chunks) (mail : s.phase = .mail 0)
    (empty : s.indata = []) (installed : s.dataHandler = true) (queue : s.handlerQueue = true)
    (small : chunks.flatten.length ≤ maxIndataSize) :
    EndsMail env s.toSession chunks.flatten
        ((handleReads env s reads).1.view, (handleReads env s reads).2) ↔
      Recognised chunks.flatten := by
  rw [handleReads_carries env s reads chunks carries, empty]
  exact feed_endsMail_iff env s.toSession chunks mail installed queue small

private theorem recognised_of_first (stream : Bytes) (left right : List Bytes)
    (cuts : (lineFramer.pieces stream).1 = left ++ endOfMail :: right) (other : endOfMail ∉ left)
    (first : FirstEnd stream left.flatten.length) : Recognised stream := by
  have start := (endOfMail_start stream _).mpr ⟨left, right, cuts, rfl⟩
  refine ⟨fun k firstK => first.unique firstK ▸ start.1, ?_⟩
  intro k startK dotLine
  exact ⟨_, first_below stream left right k cuts other startK dotLine, first⟩

private theorem not_recognised_of_unseen (stream : Bytes) (k : Nat) (first : FirstEnd stream k)
    (unseen : endOfMail ∉ (lineFramer.pieces stream).1) : ¬Recognised stream := by
  intro recognised
  obtain ⟨left, right, cuts, -⟩ :=
    (endOfMail_start stream k).mp ⟨recognised.cut k first, first.1.1⟩
  apply unseen
  rw [cuts]
  simp

/-- A socket whose client has sent DATA. -/
def mailSocket : Socket :=
  (socketHandleRead Env.granted (Socket.started 3 0 false ⟨false, 0, none, true, true⟩)
    (plainRead (ascii "DATA\r\n"))).1

theorem endsMail_short :
    EndsMail Env.granted mailSocket.toSession (ascii "a\r\n.\r\nQUIT\r\n")
      ((handleReads Env.granted mailSocket [plainRead (ascii "a\r\n.\r\nQUIT\r\n")]).1.view,
        (handleReads Env.granted mailSocket [plainRead (ascii "a\r\n.\r\nQUIT\r\n")]).2) :=
  (endsMail_iff_recognised Env.granted mailSocket [plainRead (ascii "a\r\n.\r\nQUIT\r\n")]
    [ascii "a\r\n.\r\nQUIT\r\n"] ⟨carries_plain _ _ rfl, trivial⟩ (by decide) (by decide)
    (by decide) (by decide) (by decide)).mpr
    (recognised_of_first _ [ascii "a\r\n"] [ascii "QUIT\r\n"] (by decide) (by decide) (by decide))

/-- Behind CR CR LF the dot line is not seen. -/
theorem doubled_cr_hides_end :
    CarriesAll Env.granted mailSocket [plainRead (ascii "a\r\r\n.\r\n")]
        [ascii "a\r\r\n.\r\n"] ∧
      mailSocket.phase = .mail 0 ∧ mailSocket.indata = [] ∧ mailSocket.dataHandler = true ∧
      mailSocket.handlerQueue = true ∧ FirstEnd (ascii "a\r\r\n.\r\n") 4 ∧
      ¬EndsMail Env.granted mailSocket.toSession (ascii "a\r\r\n.\r\n")
        ((handleReads Env.granted mailSocket [plainRead (ascii "a\r\r\n.\r\n")]).1.view,
          (handleReads Env.granted mailSocket [plainRead (ascii "a\r\r\n.\r\n")]).2) := by
  have carries : CarriesAll Env.granted mailSocket [plainRead (ascii "a\r\r\n.\r\n")]
      [ascii "a\r\r\n.\r\n"] := ⟨carries_plain _ _ rfl, trivial⟩
  refine ⟨carries, by decide, by decide, by decide, by decide, by decide, ?_⟩
  rw [handleReads_carries _ _ _ _ carries]
  intro ends
  have recognised := (feed_endsMail_iff Env.granted mailSocket.toSession
    [ascii "a\r\r\n.\r\n"] (by decide) (by decide) (by decide) (by decide)).mp ends
  exact not_recognised_of_unseen _ 4 (by decide) (by decide) recognised

end Spamass.Emailz
