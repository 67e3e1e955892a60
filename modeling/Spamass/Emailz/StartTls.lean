import Spamass.Emailz.Fragments
import Spamass.Emailz.Transport

/-!
# Bytes sent in the clear behind STARTTLS

The line loop goes on after the STARTTLS line, and the buffer is kept across the
handshake: bytes behind that line in the same read are handled as if they had come
over TLS, or joined to what does.
-/
namespace Spamass.Emailz

open Spamass.Framing

def Event.ready : Event → Bool
  | .reply .readyTls _ => true
  | _ => false

def Event.isContext : Event → Bool
  | .newContext _ => true
  | _ => false

/-- Callbacks and replies. -/
def Event.dispatched : Event → Bool
  | .smtp _ _ => true
  | .data _ _ => true
  | .reply _ _ => true
  | _ => false

/-- The log from the 220 reply on. -/
def afterReady (log : List Event) : List Event := log.dropWhile fun e => !e.ready

/-- Behind the 220 reply only decrypted bytes were parsed, and one context was made. -/
structure SealedOff (log : List Event) (decrypted : Bytes) : Prop where
  parsed : (linesOf (afterReady log)).flatten <+: decrypted
  contexts : (log.filter Event.isContext).length ≤ 1

/-- The buffer ends, with this read, in the first STARTTLS command; the lines before it are
handled without a break. -/
structure Accepts (env : Env) (s : Socket) (last : Bytes) (before : List Bytes) (line : Bytes) :
    Prop where
  plain : s.sslcontext = none
  insecure : s.isSecure = false
  cuts : lineFramer.pieces (s.indata ++ last) = (before ++ [line], [])
  unbroken : Unbroken (handleLine env) s.toSession before
  first : Without [.starttls] s.phase before
  command : s.phase.after before = .command
  word : lineCommand line = some .starttls

/-- The session up to the end of the handshake, with bytes appended behind STARTTLS. -/
def upToHandshake (env : Env) (s : Socket) (last extra : Bytes) (waiting : List Arrival) :
    Socket × List Event := handleReads env s (plainRead (last ++ extra) :: waiting)

/-- However the handshake completes and whatever is decrypted then, two sessions that differ in
the bytes behind STARTTLS agree from then on, and both have parsed decrypted bytes only. -/
def Discards (env : Env) (s : Socket) (last x y : Bytes) : Prop :=
  ∀ waiting completing later chunks,
    (∀ read ∈ waiting, read.handshake.status = errSSLWouldBlock) →
    completing.handshake.status = noErr → List.Forall₂ Delivers (completing :: later) chunks →
    (upToHandshake env s last x waiting).1.state = (upToHandshake env s last y waiting).1.state ∧
    (upToHandshake env s last x waiting).1.indata =
      (upToHandshake env s last y waiting).1.indata ∧
    (handleReads env (upToHandshake env s last x waiting).1 (completing :: later)).2.filter
        Event.dispatched =
      (handleReads env (upToHandshake env s last y waiting).1 (completing :: later)).2.filter
        Event.dispatched ∧
    SealedOff ((upToHandshake env s last x waiting).2 ++
      (handleReads env (upToHandshake env s last x waiting).1 (completing :: later)).2)
      chunks.flatten ∧
    SealedOff ((upToHandshake env s last y waiting).2 ++
      (handleReads env (upToHandshake env s last y waiting).1 (completing :: later)).2)
      chunks.flatten

/-! ### What a line logs -/

/-- A run logs the lines it takes. -/
theorem linesOf_runAll (env : Env) (s : Session) (lines : List Bytes) :
    linesOf (runAll (handleLine env) s lines).2 = lines := by
  induction lines generalizing s with
  | nil => rfl
  | cons line lines ih =>
    rw [runAll, linesOf_append, (handleLine_handled env s line).lines, ih]
    rfl

/-- An event that neither makes a context nor announces TLS. -/
def Event.unrelated (e : Event) : Bool := !e.ready && !e.isContext

private theorem write_unrelated (s : Session) (reply : Reply) (handler : Option Completion)
    (other : reply ≠ .readyTls) :
    ∀ e ∈ (socketHandleWrite s reply handler).2, e.unrelated = true := by
  obtain ⟨completion, sent, written⟩ := socketHandleWrite_spec s reply handler
  rw [written]
  simp only [List.mem_singleton, forall_eq]
  cases reply with
  | readyTls => exact absurd rfl other
  | _ => rfl

private theorem respond_unrelated (env : Env) (s : Session) (line : Bytes) (c : Command)
    (kept : c ≠ .starttls ∨ s.isSecure = true) :
    ∀ e ∈ (respond env s line c).2, e.unrelated = true := by
  -- apart from STARTTLS on a plain socket nothing is done but write
  cases c with
  | starttls =>
    have secure : s.isSecure = true := kept.resolve_left fun other => other rfl
    simp only [respond, secure, if_true]
    exact write_unrelated s _ _ (by decide)
  | ehlo =>
    simp only [respond]
    split
    · exact write_unrelated s _ _ (by decide)
    · exact write_unrelated s _ _ (by decide)
  | auth =>
    simp only [respond, handleAuth]
    split
    · split
      · exact write_unrelated s _ _ (by decide)
      · split
        next handler _ _ =>
          intro e member
          rcases List.mem_cons.mp member with rfl | later
          · rfl
          · refine write_unrelated s _ _ ?_ e later
            split <;> decide
        · exact write_unrelated s _ _ (by decide)
    · exact write_unrelated s _ _ (by decide)
  | _ => exact write_unrelated _ _ _ (by decide)

theorem callbacks_unrelated (s : Session) (payload arg : Bytes) (done : Bool) (c : Command) :
    (∀ e ∈ dataCallback s payload done, e.unrelated = true) ∧
      ∀ e ∈ smtpCallback s c arg, e.unrelated = true := by
  unfold dataCallback smtpCallback
  constructor <;> split <;> simp [Event.unrelated, Event.ready, Event.isContext]

/-- Only an accepted STARTTLS announces TLS and makes a context. -/
private theorem handleLine_unrelated (env : Env) (s : Session) (line : Bytes)
    (kept : Avoids [.starttls] s line ∨ s.isSecure = true) :
    ∀ e ∈ (handleLine env s line).events, e.unrelated = true := by
  intro e member
  simp only [handleLine] at member
  rcases List.mem_cons.mp member with rfl | member
  · rfl
  -- a mail line makes no command, so no completion is a handshake's
  by_cases mail : s.state = .data
  · simp only [mail, if_true, handleMailLine] at member
    split at member
    · rcases List.mem_append.mp member with callback | written
      · exact (callbacks_unrelated s [] [] true .none).1 e callback
      · exact write_unrelated _ _ _ (by decide) e written
    · split at member
      · rcases List.mem_append.mp member with callback | stopped
        · exact (callbacks_unrelated s line [] true .none).1 e callback
        · rw [List.mem_singleton.mp stopped]
          rfl
      · exact (callbacks_unrelated s line [] false .none).1 e member
  · simp only [mail, if_false, handleCommandLine] at member
    cases word : lineCommand line with
    | none => simp [word] at member
    | some c =>
      simp only [word] at member
      rcases List.mem_append.mp member with callback | responds
      · exact (callbacks_unrelated _ [] _ true c).2 e callback
      · refine respond_unrelated env _ line c ?_ e responds
        -- STARTTLS does not come, or is refused on a connection that is secure
        rcases kept with avoids | secure
        · left
          rintro rfl
          exact avoids.command mail word (List.mem_singleton_self _)
        · exact Or.inr secure

/-! ### The accepted STARTTLS -/

section

variable (env : Env) (s : Socket) (last : Bytes) (before : List Bytes) (line : Bytes)
  (granted : ∀ n, env.setup n = SetupAnswers.granted) (accepts : Accepts env s last before line)

/-- The session once the lines are handled. -/
def sessionAfter (env : Env) (s : Session) (lines : List Bytes) : Session :=
  (runAll (handleLine env) s lines).1

include granted accepts

/-- STARTTLS makes the context and waits for the handshake; it is logged last. -/
private theorem accepted_run :
    ∃ quiet n, runAll (handleLine env) s.toSession (before ++ [line]) =
        (sessionAfter env s.toSession (before ++ [line]),
          quiet ++ [.reply .readyTls .stopOnError, .newContext n]) ∧
      (∀ e ∈ quiet, e.unrelated = true) ∧
      (sessionAfter env s.toSession (before ++ [line])).toCrypto = ⟨some n, true, false, n + 1⟩ ∧
      Unbroken (handleLine env) s.toSession (before ++ [line]) := by
  have crypto := runAll_crypto env s.toSession before accepts.first
  have phase := runAll_phase env s.toSession before
  have related := runAll_events (handleLine env) (Avoids [.starttls]) (fun e => e.unrelated = true)
    (fun s line avoids => handleLine_unrelated env s line (Or.inl avoids)) s.toSession before
    (along_avoids env _ _ _ accepts.first)
  rw [accepts.command] at phase
  generalize reached : runAll (handleLine env) s.toSession before = run at crypto phase related
  have outside := (phase_command_iff run.1).mp phase
  have plain : run.1.sslcontext = none := by rw [crypto, accepts.plain]
  have insecure : run.1.isSecure = false := by rw [crypto, accepts.insecure]
  -- the STARTTLS line itself, every Security call succeeding
  have step : handleLine env run.1 line =
      ⟨(socketSetupSsl env.setup
          (socketHandleWrite { run.1 with state := .starttls } .readyTls none).1).1,
        .line line :: (smtpCallback { run.1 with state := .starttls } .starttls (argument line) ++
          [.reply .readyTls .stopOnError, .newContext run.1.setups]), false⟩ := by
    simp [handleLine, outside, handleCommandLine, accepts.word, respond, insecure,
      socketHandleWrite, plain, socketSetupSsl, granted, SetupAnswers.granted,
      SetupAnswers.configuration, noErr, errSSLWouldBlock]
    rfl
  have crypto' : (handleLine env run.1 line).state.toCrypto =
      ⟨some run.1.setups, true, false, run.1.setups + 1⟩ := by
    rw [step]
    simp [socketHandleWrite, plain, socketSetupSsl, granted, SetupAnswers.granted,
      SetupAnswers.configuration, noErr, errSSLWouldBlock, insecure]
  refine ⟨run.2 ++ .line line ::
    smtpCallback { run.1 with state := .starttls } .starttls (argument line), run.1.setups,
    ?_, ?_, ?_, ?_⟩
  · simp only [sessionAfter, runAll_append, reached, runAll, step]
    simp
  · intro e member
    rcases List.mem_append.mp member with earlier | here
    · exact related e earlier
    · rcases List.mem_cons.mp here with rfl | callback
      · rfl
      · exact (callbacks_unrelated _ [] _ true .starttls).2 e callback
  · rw [← crypto', sessionAfter, runAll_append, reached]
    rfl
  · rw [unbroken_append, reached]
    exact ⟨accepts.unbroken, by rw [step], trivial⟩

/-- The read that brings STARTTLS goes on with the bytes behind it. -/
private theorem accepted_read (extra : Bytes) :
    ((socketHandleRead env s (plainRead (last ++ extra))).1.view,
        (socketHandleRead env s (plainRead (last ++ extra))).2) =
      ((feedChunk lineFramer (handleLine env) (sessionAfter env s.toSession (before ++ [line])) []
          extra).1,
        (runAll (handleLine env) s.toSession (before ++ [line])).2 ++
          (feedChunk lineFramer (handleLine env) (sessionAfter env s.toSession (before ++ [line])) []
            extra).2) := by
  obtain ⟨_, _, -, -, -, unbroken⟩ := accepted_run env s last before line granted accepts
  have cuts := lineFramer.pieces_append (s.indata ++ last) extra
  rw [accepts.cuts, List.nil_append] at cuts
  have played := turn_unbroken_append (handleLine env) s.toSession (before ++ [line])
    (lineFramer.pieces extra).1 unbroken
  rw [socketHandleRead_plain env s _ accepts.plain, plainRead_data]
  simp only [feedChunk, ← List.append_assoc, cuts, List.nil_append, played, sessionAfter]

end

/-! ### The handshake -/

/-- While the handshake waits, reads change nothing the line handler works on. -/
private theorem handleReads_waiting (env : Env) (s : Socket) (waiting : List Arrival)
    (context : s.sslcontext.isSome = true) (handshaking : s.isHandshaking = true)
    (blocks : ∀ read ∈ waiting, read.handshake.status = errSSLWouldBlock) :
    (handleReads env s waiting).2 = [] ∧ (handleReads env s waiting).1.view = s.view := by
  obtain ⟨name, made⟩ := Option.isSome_iff_exists.mp context
  induction waiting generalizing s with
  | nil => exact ⟨rfl, rfl⟩
  | cons read waiting ih =>
    have block := blocks read (List.mem_cons_self ..)
    have idle : socketHandleRead env s read =
        ({ s with tmpdata := s.tmpdata ++ read.data }.serve read.handshake, []) := by
      simp [socketHandleRead, receive, made, handshaking, block]
    obtain ⟨log, view⟩ := ih ({ s with tmpdata := s.tmpdata ++ read.data }.serve read.handshake)
      context handshaking (fun later member => blocks later (List.mem_cons_of_mem _ member)) made
    simp only [handleReads, idle, log, view]
    exact ⟨rfl, rfl⟩

/-- The session once the handshake has completed. -/
def Session.secured (s : Session) : Session := { s with isHandshaking := false, isSecure := true }

/-- The read that completes the handshake hands the line loop the old buffer with what was
decrypted behind it. -/
theorem socketHandleRead_completing (env : Env) (s : Socket) (completing : Arrival) (chunk : Bytes)
    (context : s.sslcontext.isSome = true) (handshaking : s.isHandshaking = true)
    (done : completing.handshake.status = noErr) (delivers : Delivers completing chunk) :
    ((socketHandleRead env s completing).1.view, (socketHandleRead env s completing).2) =
      feedChunk lineFramer (handleLine env) s.toSession.secured s.indata chunk := by
  obtain ⟨name, made⟩ := Option.isSome_iff_exists.mp context
  have ready : noErr ≠ errSSLWouldBlock := by decide
  generalize served : ({ s with tmpdata := s.tmpdata ++ completing.data }.serve
    completing.handshake) = mid
  have session : mid.toSession = s.toSession := by rw [← served]; rfl
  have buffer : mid.indata = s.indata := by rw [← served]; rfl
  obtain ⟨log, view⟩ := sslReadLoop_delivers
    { mid with isHandshaking := false, isSecure := true } completing.sslReads delivers.works
  -- the handshake ends in this read, and the SSL read loop follows at once
  have transport : receive s completing =
      ((sslReadLoop { mid with isHandshaking := false, isSecure := true } completing.sslReads).1,
        [], true) := by
    simp only [receive, made, handshaking, if_true, served, ready, if_false, done, ne_eq,
      not_true_eq_false, log]
  generalize sslReadLoop { mid with isHandshaking := false, isSecure := true }
    completing.sslReads = received at view transport
  have session' : received.1.toSession = s.toSession.secured := by
    rw [show received.1.toSession = _ from congrArg Prod.fst view, ← session]
    rfl
  have buffer' : received.1.indata = s.indata ++ chunk := by
    rw [show received.1.indata = _ from congrArg Prod.snd view, ← delivers.joins, ← buffer]
  have loop := lineLoop_turn env _ received.1 (Nat.le_refl _)
  simp only [socketHandleRead, transport, if_true, List.nil_append, loop, Socket.view]
  rw [session', buffer']
  rfl

/-- From the end of the handshake on, the decrypted bytes feed the line handler. -/
private theorem handleReads_established (env : Env) (s : Socket) (completing : Arrival)
    (later : List Arrival) (chunks : List Bytes) (context : s.sslcontext.isSome = true)
    (handshaking : s.isHandshaking = true) (done : completing.handshake.status = noErr)
    (delivers : List.Forall₂ Delivers (completing :: later) chunks) :
    ((handleReads env s (completing :: later)).1.view,
        (handleReads env s (completing :: later)).2) =
      feed lineFramer (handleLine env) s.toSession.secured s.indata chunks := by
  cases delivers with
  | @cons _ chunk _ chunks here rest =>
    have first := socketHandleRead_completing env s completing chunk context handshaking done here
    obtain ⟨taken, runs, -⟩ := feedChunk_takes lineFramer (handleLine env) s.toSession.secured
      s.indata chunk []
    have crypto := runAll_secure_crypto env s.toSession.secured taken rfl
    rw [runs, ← first] at crypto
    simp only [Socket.view] at crypto
    have carries := carriesAll_tls env (socketHandleRead env s completing).1 later chunks
      (by rw [crypto]; exact context) (by rw [crypto]; rfl) (by rw [crypto]; rfl) rest
    have fed := handleReads_carries env _ later chunks carries
    simp only [handleReads, feed, ← first]
    simp only [Socket.view] at fed ⊢
    rw [← fed]

/-! ### What the two sessions have parsed -/

theorem afterReady_quiet (quiet log : List Event) (unrelated : ∀ e ∈ quiet, e.unrelated = true) :
    afterReady (quiet ++ log) = afterReady log := by
  induction quiet with
  | nil => rfl
  | cons e quiet ih =>
    have passed := unrelated e (List.mem_cons_self ..)
    rw [Event.unrelated, Bool.and_eq_true] at passed
    simp only [List.cons_append, afterReady, List.dropWhile_cons, passed.1, if_true]
    exact ih fun later member => unrelated later (List.mem_cons_of_mem _ member)

private theorem contexts_quiet (quiet : List Event) (unrelated : ∀ e ∈ quiet, e.unrelated = true) :
    quiet.filter Event.isContext = [] := by
  rw [List.filter_eq_nil_iff]
  intro e member context
  have passed := unrelated e member
  rw [Event.unrelated, context, Bool.not_true, Bool.and_false] at passed
  contradiction

/-- The lines parsed behind the 220 reply are the lines of what was logged behind it. -/
private theorem linesOf_ready (quiet more : List Event) (n : Nat)
    (unrelated : ∀ e ∈ quiet, e.unrelated = true) :
    linesOf (afterReady (quiet ++ [.reply .readyTls .stopOnError, .newContext n] ++ more)) =
      linesOf more := by
  rw [List.append_assoc, afterReady_quiet _ _ unrelated]
  rfl

theorem along_all (env : Env) (s : Session) (lines : List Bytes) (secure : s.isSecure = true) :
    Along (handleLine env) (fun s _ => s.isSecure = true) s lines := by
  induction lines generalizing s with
  | nil => trivial
  | cons line lines ih => exact ⟨secure, ih _ (by rw [secure_crypto env s line secure, secure])⟩

theorem feed_sealed (env : Env) (s : Session) (chunks : List Bytes) (secure : s.isSecure = true) :
    (∀ e ∈ (feed lineFramer (handleLine env) s [] chunks).2, e.unrelated = true) ∧
      (linesOf (feed lineFramer (handleLine env) s [] chunks).2).flatten <+: chunks.flatten := by
  obtain ⟨taken, runs, -, joined⟩ := feed_takes lineFramer (handleLine env) s [] chunks
  have log : (feed lineFramer (handleLine env) s [] chunks).2 =
      (runAll (handleLine env) s taken).2 := by rw [runs]
  rw [log]
  refine ⟨?_, ?_⟩
  · exact runAll_events (handleLine env) (fun s _ => s.isSecure = true) _
      (fun s line secure => handleLine_unrelated env s line (Or.inr secure)) s taken
      (along_all env s taken secure)
  · rw [linesOf_runAll, ← List.nil_append chunks.flatten, ← joined]
    exact List.prefix_append _ _

section

variable (env : Env) (s : Socket) (last : Bytes) (before : List Bytes) (line : Bytes)
  (granted : ∀ n, env.setup n = SetupAnswers.granted) (accepts : Accepts env s last before line)

include granted accepts

/-- With nothing behind STARTTLS only decrypted bytes are parsed. -/
theorem sealed_of_nothing (waiting : List Arrival) (completing : Arrival) (later : List Arrival)
    (chunks : List Bytes) (blocks : ∀ read ∈ waiting, read.handshake.status = errSSLWouldBlock)
    (done : completing.handshake.status = noErr)
    (delivers : List.Forall₂ Delivers (completing :: later) chunks) :
    SealedOff ((upToHandshake env s last [] waiting).2 ++
      (handleReads env (upToHandshake env s last [] waiting).1 (completing :: later)).2)
      chunks.flatten := by
  obtain ⟨quiet, n, runs, unrelated, crypto, -⟩ :=
    accepted_run env s last before line granted accepts
  have read := accepted_read env s last before line granted accepts []
  have idle : feedChunk lineFramer (handleLine env) (sessionAfter env s.toSession (before ++ [line]))
      [] [] = ((sessionAfter env s.toSession (before ++ [line]), []), []) := rfl
  rw [idle, List.append_nil, runs] at read
  simp only [upToHandshake, List.append_nil]
  obtain ⟨view, log⟩ := Prod.ext_iff.mp read
  have session := congrArg Prod.fst view
  simp only [Socket.view, List.append_nil] at view session log
  have context : (socketHandleRead env s (plainRead last)).1.sslcontext.isSome = true := by
    rw [session, crypto]
    rfl
  have handshaking : (socketHandleRead env s (plainRead last)).1.isHandshaking = true := by
    rw [session, crypto]
  -- the reads that wait for the handshake leave the session alone
  obtain ⟨waited, kept⟩ := handleReads_waiting env _ waiting context handshaking blocks
  simp only [Socket.view, view] at kept
  have session' := congrArg Prod.fst kept
  have buffer' := congrArg Prod.snd kept
  simp only at session' buffer'
  have fed := handleReads_established env _ completing later chunks
    (by rw [session', crypto]; rfl) (by rw [session', crypto]) done delivers
  obtain ⟨-, decrypted⟩ := Prod.ext_iff.mp fed
  simp only [session', buffer'] at decrypted
  -- with an empty buffer the decrypted bytes are parsed from their start
  obtain ⟨clean, parsed⟩ := feed_sealed env
    (sessionAfter env s.toSession (before ++ [line])).secured chunks rfl
  simp only [handleReads, log, waited, List.append_nil] at decrypted ⊢
  rw [decrypted]
  refine ⟨by rw [linesOf_ready _ _ _ unrelated]; exact parsed, ?_⟩
  rw [List.filter_append, List.filter_append, contexts_quiet _ unrelated, contexts_quiet _ clean]
  exact Nat.le_refl 1

/-- A line behind STARTTLS is parsed at once. -/
private theorem unsealed_line (extra parsed rest : Bytes) (more : List Event) (decrypted : Bytes)
    (cut : socketReadLine extra = some (parsed, rest)) (short : decrypted.length < parsed.length) :
    ¬SealedOff ((socketHandleRead env s (plainRead (last ++ extra))).2 ++ more) decrypted := by
  intro sealed_
  obtain ⟨quiet, n, runs, unrelated, -, -⟩ :=
    accepted_run env s last before line granted accepts
  have read := accepted_read env s last before line granted accepts extra
  obtain ⟨⟨behind, log⟩, -⟩ := feedChunk_progress lineFramer (handleLine env)
    (sessionAfter env s.toSession (before ++ [line])) [] extra parsed rest cut
  have logged := congrArg Prod.snd read
  simp only [runs, log] at logged
  have inside := sealed_.parsed
  rw [logged, List.append_assoc, linesOf_ready _ _ _ unrelated, List.append_assoc, linesOf_append,
    (handleLine_handled env _ parsed).lines] at inside
  have le := inside.length_le
  simp only [List.singleton_append, List.flatten_cons, List.length_append] at le
  omega

end

/-- Three bytes that complete any line. -/
def completion : Bytes := ascii "a\r\n"

private theorem lineEnd_completion (s : Bytes) : LineEnd (s ++ completion) := by
  refine ⟨s ++ [97, cr], by simp [completion, ascii, cr, lf], ?_⟩
  have odd : trailingCrs (s ++ [97] ++ [cr]) = 1 := by
    rw [trailingCrs_push, trailingCrs_push]
    rfl
  simpa using congrArg (· % 2) odd

/-- A partial line behind STARTTLS is completed by what is decrypted later: the line is longer
than that. -/
theorem completion_cut (extra : Bytes) (filled : extra ≠ []) (missing : socketReadLine extra = none) :
    ∃ parsed rest, socketReadLine (extra ++ completion) = some (parsed, rest) ∧
      completion.length < parsed.length := by
  have size : completion.length = 3 := rfl
  have pos := List.length_pos_iff.mpr filled
  have scans := scanRegion_fragment [] (extra ++ completion) (by decide)
  cases read : socketReadLine (extra ++ completion) with
  | none =>
    -- the scan cannot run through a line end
    rw [show Scan.of [] = Scan.start by decide] at scans
    rw [socketReadLine_eq] at read
    split at read
    next through =>
      rw [if_pos through] at scans
      have ended := lineEnd_completion extra
      exact absurd ended (scans.1 (extra ++ completion) (List.prefix_refl _) (by simp [filled]))
    · simp at read
  | some pair =>
    refine ⟨pair.1, pair.2, rfl, ?_⟩
    obtain ⟨fragment, joined⟩ := socketReadLine_fragment.mp read
    rcases List.append_eq_append_iff.mp joined with ⟨tail, same, -⟩ | ⟨tail, same, behind⟩
    · -- a line inside `extra` would have been read before
      have again := lineFramer.decides tail read
      rw [← same] at again
      rw [show lineFramer.cut extra = none from missing] at again
      contradiction
    · rcases fragment.ends with ⟨front, ended, -⟩ | full
      · rw [same] at ended ⊢
        match tail, behind with
        | [], _ =>
          have again := lineFramer.decides [] read
          rw [same, List.append_nil, List.append_nil] at again
          rw [show lineFramer.cut extra = none from missing] at again
          contradiction
        | [first], behind =>
          obtain ⟨-, last⟩ := List.append_inj' ended rfl
          have letter : (97 : UInt8) = first := (List.cons.inj behind).1
          have same : (97 : UInt8) = lf := letter.trans (List.cons.inj last).1
          exact absurd same (by decide)
        | [first, second], behind =>
          have split : (extra ++ [first]) ++ [second] = front ++ [lf] := by simpa using ended
          obtain ⟨-, last⟩ := List.append_inj' split rfl
          have return_ : cr = second := (List.cons.inj (List.cons.inj behind).2).1
          have same : cr = lf := return_.trans (List.cons.inj last).1
          exact absurd same (by decide)
        | _ :: _ :: _ :: _, _ =>
          simp only [List.length_append, List.length_cons, size]
          omega
      · rw [full]
        decide

section

variable (env : Env) (s : Socket) (last : Bytes) (before : List Bytes) (line : Bytes)
  (granted : ∀ n, env.setup n = SetupAnswers.granted) (accepts : Accepts env s last before line)

include granted accepts

/-- A partial line behind STARTTLS stays in the buffer and heads the first decrypted line. -/
private theorem unsealed_partial (extra : Bytes) (filled : extra ≠ [])
    (missing : socketReadLine extra = none) (completing : Arrival)
    (done : completing.handshake.status = noErr) (delivers : Delivers completing completion) :
    ¬SealedOff ((upToHandshake env s last extra []).2 ++
      (handleReads env (upToHandshake env s last extra []).1 [completing]).2) completion := by
  intro sealed_
  obtain ⟨quiet, n, runs, unrelated, crypto, -⟩ :=
    accepted_run env s last before line granted accepts
  have read := accepted_read env s last before line granted accepts extra
  have cut : lineFramer.cut extra = none := missing
  have idle : feedChunk lineFramer (handleLine env) (sessionAfter env s.toSession (before ++ [line]))
      [] extra = ((sessionAfter env s.toSession (before ++ [line]), extra), []) := by
    simp [feedChunk, lineFramer.pieces_none cut, turn]
  rw [idle, runs] at read
  obtain ⟨view, log⟩ := Prod.ext_iff.mp read
  have session := congrArg Prod.fst view
  have buffer := congrArg Prod.snd view
  simp only [Socket.view, List.append_nil] at session buffer log
  have fed := handleReads_established env (socketHandleRead env s (plainRead (last ++ extra))).1
    completing [] [completion] (by rw [session, crypto]; rfl) (by rw [session, crypto]) done
    (.cons delivers .nil)
  rw [session, buffer] at fed
  obtain ⟨-, decrypted⟩ := Prod.ext_iff.mp fed
  -- the plaintext left in the buffer begins the first line that is parsed over TLS
  obtain ⟨parsed, rest, again, longer⟩ := completion_cut extra filled missing
  obtain ⟨⟨behind, more⟩, -⟩ := feedChunk_progress lineFramer (handleLine env)
    (sessionAfter env s.toSession (before ++ [line])).secured extra completion parsed rest again
  have inside := sealed_.parsed
  simp only [feed, more, List.append_nil] at decrypted
  simp only [upToHandshake, handleReads, log, List.append_nil] at inside decrypted
  rw [decrypted, linesOf_ready _ _ _ unrelated, linesOf_append,
    (handleLine_handled env _ parsed).lines] at inside
  have le := inside.length_le
  simp only [List.singleton_append, List.flatten_cons, List.length_append] at le
  omega

/-- Some continuation tells that bytes behind STARTTLS were kept. -/
private theorem unsealed_extra (extra : Bytes) (filled : extra ≠ []) :
    ∃ completing chunk, completing.handshake.status = noErr ∧ Delivers completing chunk ∧
      ¬SealedOff ((upToHandshake env s last extra []).2 ++
        (handleReads env (upToHandshake env s last extra []).1 [completing]).2) chunk := by
  cases read : socketReadLine extra with
  | none =>
    refine ⟨⟨[], none, ⟨noErr, []⟩, completion.map byteRead⟩, completion, rfl,
      delivers_bytes completion, ?_⟩
    exact unsealed_partial env s last before line granted accepts extra filled read _ rfl
      (delivers_bytes completion)
  | some pair =>
    have pos := List.length_pos_iff.mpr (lineFramer.nonempty (l := pair.1) (r := pair.2) read)
    refine ⟨⟨[], none, ⟨noErr, []⟩, []⟩, [], rfl, delivers_bytes [], ?_⟩
    simp only [upToHandshake, handleReads, List.append_nil]
    exact unsealed_line env s last before line granted accepts extra pair.1 pair.2 _ [] read pos

theorem discards_left (x y : Bytes) (discards : Discards env s last x y) : x = [] ∧ y = [] := by
  constructor
  · by_contra filled
    obtain ⟨completing, chunk, done, delivers, unsealed⟩ :=
      unsealed_extra env s last before line granted accepts x filled
    obtain ⟨-, -, -, sealed_, -⟩ :=
      discards [] completing [] [chunk] (by simp) done (.cons delivers .nil)
    rw [List.flatten_singleton] at sealed_
    exact unsealed sealed_
  · by_contra filled
    obtain ⟨completing, chunk, done, delivers, unsealed⟩ :=
      unsealed_extra env s last before line granted accepts y filled
    obtain ⟨-, -, -, -, sealed_⟩ :=
      discards [] completing [] [chunk] (by simp) done (.cons delivers .nil)
    rw [List.flatten_singleton] at sealed_
    exact unsealed sealed_

private theorem discards_nothing : Discards env s last [] [] := by
  intro waiting completing later chunks blocks done delivers
  have sealed_ := sealed_of_nothing env s last before line granted accepts waiting completing later
    chunks blocks done delivers
  exact ⟨rfl, rfl, rfl, sealed_, sealed_⟩

/-- STARTTLS discards what was received in the clear exactly when there is nothing to discard. -/
theorem discards_iff_nothing (x y : Bytes) : Discards env s last x y ↔ x = [] ∧ y = [] := by
  constructor
  · exact discards_left env s last before line granted accepts x y
  · rintro ⟨rfl, rfl⟩
    exact discards_nothing env s last before line granted accepts

end

private theorem starttls_accepted :
    Accepts Env.granted plainTwin (ascii "STARTTLS\r\n") [] (ascii "STARTTLS\r\n") :=
  ⟨rfl, rfl, by decide, trivial, by decide, rfl, by decide⟩

theorem discards_alone : Discards Env.granted plainTwin (ascii "STARTTLS\r\n") [] [] :=
  (discards_iff_nothing Env.granted plainTwin (ascii "STARTTLS\r\n") [] (ascii "STARTTLS\r\n")
    (fun _ => rfl) starttls_accepted [] []).mpr ⟨rfl, rfl⟩

/-- A MAIL command behind STARTTLS is not discarded. -/
theorem mail_not_discarded :
    Accepts Env.granted plainTwin (ascii "STARTTLS\r\n") [] (ascii "STARTTLS\r\n") ∧
      ¬Discards Env.granted plainTwin (ascii "STARTTLS\r\n") (ascii "MAIL FROM:<a@b>\r\n") [] := by
  refine ⟨starttls_accepted, ?_⟩
  intro discards
  have nothing := discards_left Env.granted plainTwin _ [] _ (fun _ => rfl) starttls_accepted _ _
    discards
  exact absurd nothing.1 (by decide)

end Spamass.Emailz
