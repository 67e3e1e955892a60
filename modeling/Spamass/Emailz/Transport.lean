import Spamass.Emailz.Splitting

/-!
# Plaintext and TLS

The same bytes over a plaintext socket and over an established TLS connection. The
dialogue is the same on both; the completion handler and the accounting of a write
exist on the plaintext branch only.
-/
namespace Spamass.Emailz

open Spamass.Framing

/-- A plaintext session and an established TLS session at the same point of a dialogue. -/
structure Twins (p t : Session) : Prop where
  handlers : p.toHandlers = t.toHandlers
  phase : p.phase = t.phase
  plain : p.sslcontext = none
  context : t.sslcontext.isSome = true
  settled : t.isHandshaking = false
  secure : t.isSecure = true

/-- The commands whose handling depends on the transport by design. -/
def transportCommands : List Command := [.ehlo, .auth, .starttls]

/-- `SSLRead` returns the chunk in pieces of any size, and then would block. -/
structure Delivers (arrival : Arrival) (chunk : Bytes) : Prop where
  joins : (arrival.sslReads.map SslRead.decrypted).flatten = chunk
  works : ∀ answer ∈ arrival.sslReads, answer.decrypted ≠ [] ∧
    (answer.status = noErr ∨ answer.status = errSSLWouldBlock)

/-- What is seen of an event once every channel write has succeeded: the completion of a reply
may stop the connection. -/
def Event.completed : Event → List Event
  | .line _ => []
  | .reply said completion =>
    .reply said .stopOnError :: if completion.stops false then [.stop] else []
  | e => [e]

def Event.replyBytes : Event → Nat
  | .reply said _ => said.text.length
  | _ => 0

def replyBytes (log : List Event) : Nat :=
  log.foldr (fun event bytes => event.replyBytes + bytes) 0

/-- The TLS run shows what the plaintext run shows, and counts the same bytes. -/
structure SameService (p t : Socket) (x y : Socket × List Event) : Prop where
  shows : x.2.flatMap Event.completed = y.2.flatMap Event.completed
  counts : ∃ gain, x.1.outbytes = p.outbytes + gain ∧ y.1.outbytes = t.outbytes + gain
  sent : ∃ gain, x.1.bytesSent = p.bytesSent + gain ∧ y.1.bytesSent = t.bytesSent + gain

/-- TLS changes nothing for these bytes, however the reads cut them on the one side, and the reads
and `SSLRead` on the other. -/
def Transparent (env : Env) (p t : Socket) (bytes : Bytes) : Prop :=
  ∀ xs ys chunks, (xs.map Arrival.data).flatten = bytes → List.Forall₂ Delivers ys chunks →
    chunks.flatten = bytes → SameService p t (handleReads env p xs) (handleReads env t ys)

/-- No complete line of the bytes has a command word. -/
def Wordless (bytes : Bytes) : Prop :=
  ∀ line ∈ (lineFramer.pieces bytes).1, lineCommand line = none

instance (bytes : Bytes) : Decidable (Wordless bytes) :=
  inferInstanceAs (Decidable (∀ line ∈ (lineFramer.pieces bytes).1, lineCommand line = none))

/-! ### Input over TLS -/

theorem sslReadLoop_delivers (s : Socket) (answers : List SslRead)
    (works : ∀ answer ∈ answers, answer.decrypted ≠ [] ∧
      (answer.status = noErr ∨ answer.status = errSSLWouldBlock)) :
    (sslReadLoop s answers).2 = [] ∧
      (sslReadLoop s answers).1.view =
        (s.toSession, s.indata ++ (answers.map SslRead.decrypted).flatten) := by
  induction answers generalizing s with
  | nil => simp [sslReadLoop, Socket.view]
  | cons answer answers ih =>
    obtain ⟨filled, status⟩ := works answer (List.mem_cons_self ..)
    have fine : ¬(answer.status ≠ noErr ∧ answer.status ≠ errSSLWouldBlock) := by
      rintro ⟨error, blocks⟩
      rcases status with same | same
      · exact error same
      · exact blocks same
    have present : answer.decrypted.length ≠ 0 := by
      intro empty
      exact filled (List.eq_nil_of_length_eq_zero empty)
    -- the answer is appended, and the loop goes on with the others
    obtain ⟨log, view⟩ := ih ((s.serve answer.toSslCall).append answer.decrypted answer.short)
      (fun later member => works later (List.mem_cons_of_mem _ member))
    have session : ((s.serve answer.toSslCall).append answer.decrypted answer.short).toSession =
        s.toSession := socketRecord_session _ _ _
    simp only [sslReadLoop, fine, if_false, present]
    refine ⟨log, ?_⟩
    rw [view, session]
    simp only [Socket.append, Socket.serve, List.map_cons, List.flatten_cons, List.append_assoc]

private theorem carries_tls (s : Socket) (arrival : Arrival) (chunk : Bytes)
    (context : s.sslcontext.isSome = true) (settled : s.isHandshaking = false)
    (delivers : Delivers arrival chunk) : Carries s arrival chunk := by
  obtain ⟨name, made⟩ := Option.isSome_iff_exists.mp context
  obtain ⟨log, view⟩ := sslReadLoop_delivers { s with tmpdata := s.tmpdata ++ arrival.data }
    arrival.sslReads delivers.works
  refine ⟨_, ?_, view.trans ?_⟩
  · simp only [receive, made, settled, Bool.false_eq_true, if_false, log]
  · rw [delivers.joins]

/-- A secure session refuses STARTTLS, so no line touches its crypto fields. -/
theorem secure_crypto (env : Env) (s : Session) (line : Bytes) (secure : s.isSecure = true) :
    (handleLine env s line).state.toCrypto = s.toCrypto := by
  by_cases starttls : s.phase = .command ∧ lineCommand line = some .starttls
  · obtain ⟨command, word⟩ := starttls
    have outside := (phase_command_iff s).mp command
    obtain ⟨completion, sent, written⟩ :=
      socketHandleWrite_spec { s with state := .starttls } .unsupported none
    simp only [handleLine, outside, if_false, handleCommandLine, word, respond, secure, if_true,
      written]
  · apply (handleLine_handled env s line).crypto
    intro command word
    exact starttls ⟨command, word⟩

theorem runAll_secure_crypto (env : Env) (s : Session) (lines : List Bytes)
    (secure : s.isSecure = true) : (runAll (handleLine env) s lines).1.toCrypto = s.toCrypto := by
  induction lines generalizing s with
  | nil => rfl
  | cons line lines ih =>
    have same := secure_crypto env s line secure
    rw [runAll, ih _ (by rw [same, secure]), same]

/-- Reads over an established TLS connection carry what `SSLRead` returns. -/
theorem carriesAll_tls (env : Env) (s : Socket) (reads : List Arrival) (chunks : List Bytes)
    (context : s.sslcontext.isSome = true) (settled : s.isHandshaking = false)
    (secure : s.isSecure = true) (delivers : List.Forall₂ Delivers reads chunks) :
    CarriesAll env s reads chunks := by
  induction delivers generalizing s with
  | nil => trivial
  | @cons read chunk reads chunks here _ ih =>
    have carries := carries_tls s read chunk context settled here
    have fed := socketHandleRead_carries env s read chunk carries
    obtain ⟨taken, runs, -⟩ := feedChunk_takes lineFramer (handleLine env) s.toSession s.indata
      chunk []
    have crypto := runAll_secure_crypto env s.toSession taken secure
    rw [runs, ← fed] at crypto
    simp only [Socket.view] at crypto
    exact ⟨carries, ih _ (by rw [crypto, context]) (by rw [crypto, settled])
      (by rw [crypto, secure])⟩

/-- Any chunk can be delivered, a byte at a time. -/
def byteRead (byte : UInt8) : SslRead := ⟨⟨noErr, []⟩, [byte], by simp, none⟩

theorem delivers_bytes (chunk : Bytes) :
    Delivers ⟨[], none, ⟨noErr, []⟩, chunk.map byteRead⟩ chunk := by
  refine ⟨?_, ?_⟩
  · induction chunk with
    | nil => rfl
    | cons byte chunk ih => simpa [byteRead] using ih
  · intro answer member
    obtain ⟨byte, -, rfl⟩ := List.mem_map.mp member
    exact ⟨List.cons_ne_nil _ _, Or.inl rfl⟩

/-! ### One line on both transports -/

/-- The reply of a command whose handling does not depend on the transport, and the
completion handler passed with it. -/
def fixedReply : Command → Reply × Option Completion
  | .helo => (.helo, none)
  | .data => (.enterMail, none)
  | .rcpt => (.recipientOk, none)
  | .quit => (.closing, some .stopWhenWritten)
  | .help => (.help, none)
  | .vrfy => (.vrfy, none)
  | .mail | .rset | .noop => (.ok, none)
  | .none | .ehlo | .auth | .starttls => (.unsupported, none)

private theorem respond_fixed (env : Env) (s : Session) (line : Bytes) (c : Command)
    (fixed : c ∉ transportCommands) :
    respond env s line c =
      socketHandleWrite (if c = .data then { s with emailSize := 0 } else s) (fixedReply c).1
        (fixedReply c).2 := by
  cases c with
  | ehlo => exact absurd (by decide) fixed
  | auth => exact absurd (by decide) fixed
  | starttls => exact absurd (by decide) fixed
  | _ => rfl

private theorem write_plain (s : Session) (reply : Reply) (handler : Option Completion)
    (plain : s.sslcontext = none) :
    socketHandleWrite s reply handler =
      ({ s with
          outbytes := s.outbytes + reply.text.length
          bytesSent := s.bytesSent + reply.text.length },
        [.reply reply (handler.getD .stopOnError)]) := by
  simp [socketHandleWrite, plain]

private theorem write_tls (s : Session) (reply : Reply) (handler : Option Completion)
    (context : s.sslcontext.isSome = true) :
    socketHandleWrite s reply handler = (s, [.reply reply .stopOnError]) := by
  simp [socketHandleWrite, context]

/-- A line that is not one of the transport commands. -/
abbrev Fixed (s : Session) (line : Bytes) : Prop := Avoids transportCommands s line

theorem Fixed.crypto (env : Env) {s : Session} {line : Bytes} (fixed : Fixed s line) :
    (handleLine env s line).state.toCrypto = s.toCrypto :=
  (handleLine_handled env s line).crypto fun command => fixed command .starttls (by decide)

/-- What is compared of the dialogues: everything but the completion of a reply. -/
def Event.erased : Event → Event
  | .reply said _ => .reply said .stopOnError
  | e => e

private theorem erased_write (p t : Session) (reply : Reply) (handler : Option Completion) :
    (socketHandleWrite p reply handler).2.map Event.erased =
      (socketHandleWrite t reply handler).2.map Event.erased := by
  unfold socketHandleWrite
  split <;> split <;> rfl

theorem Twins.dataCallback {p t : Session} (twins : Twins p t) (payload : Bytes) (done : Bool) :
    dataCallback p payload done = dataCallback t payload done := by
  simp only [Emailz.dataCallback, twins.handlers]

theorem Twins.smtpCallback {p t : Session} (twins : Twins p t) (c : Command) (arg : Bytes) :
    smtpCallback p c arg = smtpCallback t c arg := by
  simp only [Emailz.smtpCallback, twins.handlers]

private theorem twins_events (env : Env) (p t : Session) (line : Bytes) (twins : Twins p t)
    (fixed : Fixed p line) :
    (handleLine env p line).events.map Event.erased =
      (handleLine env t line).events.map Event.erased := by
  have phase := twins.phase
  -- both sockets are in the same phase, and what they say there is the same
  by_cases mail : p.state = .data
  · obtain ⟨mail', size⟩ := (phase_mail_iff t p.emailSize).mp
      (phase ▸ (phase_mail_iff p _).mpr ⟨mail, rfl⟩)
    simp only [handleLine, mail, mail', if_true, handleMailLine, twins.dataCallback]
    split
    · have write := erased_write { p with state := .none } { t with state := .none } .accepted none
      simp only [List.map_cons, List.map_append, write]
    · rw [size]
      split <;> simp [socketStop]
  · have command := (phase_command_iff p).mpr mail
    have mail' := (phase_command_iff t).mp (phase ▸ command)
    simp only [handleLine, mail, mail', if_false, handleCommandLine]
    cases word : lineCommand line with
    | none => rfl
    | some c =>
      have other := fixed.command mail word
      have write := erased_write
        (if c = .data then { { p with state := c } with emailSize := 0 } else { p with state := c })
        (if c = .data then { { t with state := c } with emailSize := 0 } else { t with state := c })
        (fixedReply c).1 (fixedReply c).2
      simp only [respond_fixed env _ line c other, List.map_cons, List.map_append, write,
        twins.smtpCallback]

/-- The line handler takes the same step on both transports. -/
private theorem twins_simulate (env : Env) :
    Simulates (handleLine env) (handleLine env) Event.erased Event.erased Twins Fixed := by
  intro p t line twins fixed
  have left := handleLine_handled env p line
  have right := handleLine_handled env t line
  have fixed' : Fixed t line := by
    intro command
    exact fixed (twins.phase.trans command)
  have crypto := Fixed.crypto env fixed
  have crypto' := Fixed.crypto env fixed'
  refine ⟨⟨?_, ?_, ?_, ?_, ?_, ?_⟩, twins_events env p t line twins fixed, ?_⟩
  · rw [left.handlers, right.handlers, twins.handlers]
  · rw [left.phase, right.phase, twins.phase]
  · rw [crypto, twins.plain]
  · rw [crypto', twins.context]
  · rw [crypto', twins.settled]
  · rw [crypto', twins.secure]
  · rw [left.breaks, right.breaks, twins.phase]

/-- Over established TLS the answers of `SSLRead` feed the line handler. -/
theorem handleReads_tls (env : Env) (s : Socket) (reads : List Arrival) (chunks : List Bytes)
    (context : s.sslcontext.isSome = true) (settled : s.isHandshaking = false)
    (secure : s.isSecure = true) (delivers : List.Forall₂ Delivers reads chunks) :
    ((handleReads env s reads).1.view, (handleReads env s reads).2) =
      feed lineFramer (handleLine env) s.toSession s.indata chunks :=
  handleReads_carries env s reads chunks
    (carriesAll_tls env s reads chunks context settled secure delivers)

/-- Established TLS changes nothing in the dialogue: both transports leave the same buffer, and
show the same events but for the completion handlers. -/
theorem tls_dialogue (env : Env) (p t : Socket) (xs ys : List Arrival) (chunks : List Bytes)
    (twins : Twins p.toSession t.toSession) (buffers : p.indata = t.indata)
    (without : Without transportCommands p.phase
      (lineFramer.pieces (p.indata ++ chunks.flatten)).1)
    (plain : xs.map Arrival.data = chunks) (delivers : List.Forall₂ Delivers ys chunks) :
    Twins (handleReads env p xs).1.toSession (handleReads env t ys).1.toSession ∧
      (handleReads env p xs).1.indata = (handleReads env t ys).1.indata ∧
      (handleReads env p xs).2.map Event.erased = (handleReads env t ys).2.map Event.erased := by
  have fedX := handleReads_plain env p xs twins.plain (by
    rw [plain]
    exact without.mono (by decide))
  have fedY := handleReads_tls env t ys chunks twins.context twins.settled twins.secure delivers
  rw [plain] at fedX
  rw [← buffers] at fedY
  obtain ⟨related, left, logs⟩ := feed_related lineFramer (handleLine env) (handleLine env)
    Event.erased Event.erased Twins Fixed (twins_simulate env) p.toSession t.toSession p.indata
    chunks twins (along_avoids env _ _ _ without)
  rw [← fedX, ← fedY] at related left logs
  exact ⟨related, left, logs⟩

/-! ### Accounting -/

@[simp] theorem replyBytes_append (xs ys : List Event) :
    replyBytes (xs ++ ys) = replyBytes xs + replyBytes ys := by
  induction xs with
  | nil => exact (Nat.zero_add _).symm
  | cons event xs ih =>
    have first : ∀ log, replyBytes (event :: log) = event.replyBytes + replyBytes log :=
      fun _ => rfl
    rw [List.cons_append, first, first, ih, Nat.add_assoc]

@[simp] theorem replyBytes_line (line : Bytes) (log : List Event) :
    replyBytes (.line line :: log) = replyBytes log := by
  simp [replyBytes, Event.replyBytes]

@[simp] theorem replyBytes_reply (reply : Reply) (completion : Completion) (log : List Event) :
    replyBytes (.reply reply completion :: log) = reply.text.length + replyBytes log := by
  simp [replyBytes, Event.replyBytes]

@[simp] theorem replyBytes_stop : replyBytes [.stop] = 0 := rfl

@[simp] theorem replyBytes_dataCallback (s : Session) (payload : Bytes) (done : Bool) :
    replyBytes (dataCallback s payload done) = 0 := by
  unfold dataCallback
  split <;> rfl

@[simp] theorem replyBytes_smtpCallback (s : Session) (c : Command) (arg : Bytes) :
    replyBytes (smtpCallback s c arg) = 0 := by
  unfold smtpCallback
  split <;> rfl

/-- The counters went up by the replies in the log. -/
def Counted (s after : Session) (log : List Event) : Prop :=
  after.outbytes = s.outbytes + replyBytes log ∧ after.bytesSent = s.bytesSent + replyBytes log

private theorem write_counted (s : Session) (reply : Reply) (handler : Option Completion)
    (plain : s.sslcontext = none) :
    Counted s (socketHandleWrite s reply handler).1 (socketHandleWrite s reply handler).2 := by
  have bytes : replyBytes [.reply reply (handler.getD .stopOnError)] = reply.text.length :=
    replyBytes_reply reply _ []
  rw [write_plain s reply handler plain]
  exact ⟨by rw [bytes], by rw [bytes]⟩

/-- A plaintext socket counts every reply. -/
private theorem plain_counts (env : Env) (s : Session) (line : Bytes) (plain : s.sslcontext = none)
    (fixed : Fixed s line) :
    Counted s (handleLine env s line).state (handleLine env s line).events := by
  by_cases mail : s.state = .data
  · simp only [handleLine, mail, if_true, handleMailLine]
    split
    · have counted := write_counted { s with state := .none } .accepted none plain
      simpa [Counted] using counted
    · split <;> simp [Counted, socketStop]
  · simp only [handleLine, mail, if_false, handleCommandLine]
    cases word : lineCommand line with
    | none => simp [Counted, replyBytes, Event.replyBytes]
    | some c =>
      simp only [respond_fixed env _ line c (fixed.command mail word)]
      split
      · have counted := write_counted { s with state := c, emailSize := 0 } (fixedReply c).1
          (fixedReply c).2 plain
        simpa [Counted] using counted
      · have counted := write_counted { s with state := c } (fixedReply c).1 (fixedReply c).2 plain
        simpa [Counted] using counted

/-- A TLS socket counts none. -/
theorem tls_counts (env : Env) (s : Session) (line : Bytes) (context : s.sslcontext.isSome = true)
    (fixed : Fixed s line) :
    (handleLine env s line).state.outbytes = s.outbytes ∧
      (handleLine env s line).state.bytesSent = s.bytesSent := by
  by_cases mail : s.state = .data
  · simp only [handleLine, mail, if_true, handleMailLine]
    split
    · rw [write_tls { s with state := .none } _ _ context]
      exact ⟨rfl, rfl⟩
    · split <;> exact ⟨rfl, rfl⟩
  · simp only [handleLine, mail, if_false, handleCommandLine]
    cases word : lineCommand line with
    | none => exact ⟨rfl, rfl⟩
    | some c =>
      simp only [respond_fixed env _ line c (fixed.command mail word)]
      split
      · rw [write_tls { s with state := c, emailSize := 0 } _ _ context]
        exact ⟨rfl, rfl⟩
      · rw [write_tls { s with state := c } _ _ context]
        exact ⟨rfl, rfl⟩

private theorem runAll_plain_counts (env : Env) (s : Session) (lines : List Bytes)
    (plain : s.sslcontext = none) (along : Along (handleLine env) Fixed s lines) :
    Counted s (runAll (handleLine env) s lines).1 (runAll (handleLine env) s lines).2 := by
  induction lines generalizing s with
  | nil => exact ⟨rfl, rfl⟩
  | cons line lines ih =>
    obtain ⟨fixed, later⟩ := along
    have crypto := Fixed.crypto env fixed
    obtain ⟨out, sent⟩ := plain_counts env s line plain fixed
    obtain ⟨out', sent'⟩ := ih _ (by rw [crypto, plain]) later
    simp only [runAll, Counted, replyBytes_append]
    omega

private theorem runAll_tls_counts (env : Env) (s : Session) (lines : List Bytes)
    (context : s.sslcontext.isSome = true) (along : Along (handleLine env) Fixed s lines) :
    (runAll (handleLine env) s lines).1.outbytes = s.outbytes ∧
      (runAll (handleLine env) s lines).1.bytesSent = s.bytesSent := by
  induction lines generalizing s with
  | nil => exact ⟨rfl, rfl⟩
  | cons line lines ih =>
    obtain ⟨fixed, later⟩ := along
    have crypto := Fixed.crypto env fixed
    obtain ⟨out, sent⟩ := tls_counts env s line context fixed
    obtain ⟨out', sent'⟩ := ih _ (by rw [crypto, context]) later
    exact ⟨out'.trans out, sent'.trans sent⟩

/-! ### Runs without a reply -/

/-- Lines without a command word leave the session as it is, and are not answered. -/
theorem runAll_wordless (env : Env) (s : Session) (lines : List Bytes) (command : s.phase = .command)
    (wordless : ∀ line ∈ lines, lineCommand line = none) :
    runAll (handleLine env) s lines = (s, lines.map .line) := by
  have outside := (phase_command_iff s).mp command
  induction lines with
  | nil => rfl
  | cons line lines ih =>
    obtain ⟨word, later⟩ := List.forall_mem_cons.mp wordless
    rw [runAll, handleLine_wordless env s line outside word, ih later]
    rfl

private theorem replyBytes_zero {log : List Event} (silent : replyBytes log = 0) (reply : Reply)
    (completion : Completion) : Event.reply reply completion ∉ log := by
  intro member
  obtain ⟨before, after, rfl⟩ := List.append_of_mem member
  have pos := reply.text_pos
  rw [replyBytes_append, replyBytes_reply] at silent
  omega

/-- A run that answers nothing has met no command word. -/
private theorem wordless_of_silent (env : Env) (s : Session) (lines : List Bytes)
    (command : s.phase = .command)
    (silent : replyBytes (runAll (handleLine env) s lines).2 = 0) :
    ∀ line ∈ lines, lineCommand line = none := by
  have outside := (phase_command_iff s).mp command
  induction lines with
  | nil => exact List.forall_mem_nil _
  | cons line lines ih =>
    cases word : lineCommand line with
    | none =>
      rw [runAll, handleLine_wordless env s line outside word, List.singleton_append,
        replyBytes_line] at silent
      exact List.forall_mem_cons.mpr ⟨word, ih silent⟩
    | some c =>
      -- a command is answered, so the run was not silent
      have step : (handleLine env s line).events =
          .line line :: (smtpCallback { s with state := c } c (argument line) ++
            (respond env { s with state := c } line c).2) := by
        simp [handleLine, outside, handleCommandLine, word]
        rfl
      obtain ⟨before, reply, completion, after, _, _, responds, -⟩ :=
        respond_answered env { s with state := c } line c
      have member : Event.reply reply completion ∈
          (runAll (handleLine env) s (line :: lines)).2 := by
        simp [runAll, step, responds]
      exact absurd member (replyBytes_zero silent reply completion)

section

variable (env : Env) (p t : Socket) (bytes : Bytes) (twins : Twins p.toSession t.toSession)
  (command : p.phase = .command) (emptyP : p.indata = []) (emptyT : t.indata = [])
  (without : Without transportCommands .command (lineFramer.pieces bytes).1)

/-- A run of any chunks of wordless bytes shows nothing and leaves the session as it is. -/
private theorem feed_wordless (s : Session) (chunks : List Bytes) (outside : s.phase = .command)
    (wordless : Wordless chunks.flatten) :
    (feed lineFramer (handleLine env) s [] chunks).1.1 = s ∧
      (feed lineFramer (handleLine env) s [] chunks).2.flatMap Event.completed = [] := by
  obtain ⟨taken, runs, cuts, -⟩ := feed_takes lineFramer (handleLine env) s [] chunks
  have quiet := runAll_wordless env s taken outside fun line member =>
    wordless line (cuts.subset member)
  rw [quiet] at runs
  obtain ⟨session, log⟩ := Prod.mk.inj runs
  refine ⟨session.symm, ?_⟩
  rw [← log, List.flatMap_map]
  exact List.flatMap_eq_nil_iff.mpr fun _ _ => rfl

include twins command emptyP emptyT without

/-- Plaintext reads feed the line handler from an empty buffer, and so do reads over TLS. -/
private theorem twins_feed (xs ys : List Arrival) (chunks : List Bytes)
    (plain : (xs.map Arrival.data).flatten = bytes) (delivers : List.Forall₂ Delivers ys chunks) :
    ((handleReads env p xs).1.view, (handleReads env p xs).2) =
        feed lineFramer (handleLine env) p.toSession [] (xs.map Arrival.data) ∧
      ((handleReads env t ys).1.view, (handleReads env t ys).2) =
        feed lineFramer (handleLine env) t.toSession [] chunks := by
  have fedX := handleReads_plain env p xs twins.plain (by
    rw [emptyP, List.nil_append, plain, command]
    exact without.mono (by decide))
  have fedY := handleReads_tls env t ys chunks twins.context twins.settled twins.secure delivers
  rw [emptyP] at fedX
  rw [emptyT] at fedY
  exact ⟨fedX, fedY⟩

theorem transparent_of_wordless (wordless : Wordless bytes) : Transparent env p t bytes := by
  intro xs ys chunks plain delivers joined
  obtain ⟨fedX, fedY⟩ := twins_feed env p t bytes twins command emptyP emptyT without xs ys chunks
    plain delivers
  obtain ⟨sameX, shownX⟩ := feed_wordless env p.toSession (xs.map Arrival.data) command
    (plain ▸ wordless)
  obtain ⟨sameY, shownY⟩ := feed_wordless env t.toSession chunks (twins.phase.symm.trans command)
    (joined ▸ wordless)
  rw [← fedX] at sameX shownX
  rw [← fedY] at sameY shownY
  simp only [Socket.view] at sameX sameY shownX shownY
  refine ⟨shownX.trans shownY.symm, ⟨0, ?_, ?_⟩, ⟨0, ?_, ?_⟩⟩
  · rw [sameX, Nat.add_zero]
  · rw [sameY, Nat.add_zero]
  · rw [sameX, Nat.add_zero]
  · rw [sameY, Nat.add_zero]

theorem wordless_of_transparent (transparent : Transparent env p t bytes) : Wordless bytes := by
  -- each line in a read of its own, so that the plaintext side handles all of them
  let cut := (lineFramer.pieces bytes).1 ++ [(lineFramer.pieces bytes).2]
  have joined : cut.flatten = bytes := by
    rw [List.flatten_append, List.flatten_singleton]
    exact lineFramer.pieces_flatten bytes
  have plain : (cut.map plainRead).map Arrival.data = cut := by
    rw [List.map_map]
    exact List.map_id cut
  have delivers : List.Forall₂ Delivers
      [⟨[], none, ⟨noErr, []⟩, bytes.map byteRead⟩] [bytes] :=
    .cons (delivers_bytes bytes) .nil
  have whole : ((cut.map plainRead).map Arrival.data).flatten = bytes := by rw [plain, joined]
  obtain ⟨-, ⟨gain, outX, outY⟩, -⟩ := transparent _ _ _ whole delivers (by simp)
  obtain ⟨fedX, fedY⟩ := twins_feed env p t bytes twins command emptyP emptyT without _ _ _ whole
    delivers
  rw [plain, feed_pieces lineFramer (handleLine env) p.toSession _ (lineFramer.pieces_each bytes)
    _ (lineFramer.pieces_rest bytes)] at fedX
  have along := along_avoids env _ p.toSession _ (command ▸ without)
  have along' := along_avoids env _ t.toSession _ ((twins.phase.symm.trans command) ▸ without)
  obtain ⟨taken, runs, ⟨rest, cuts⟩, -⟩ := feed_takes lineFramer (handleLine env) t.toSession []
    [bytes]
  rw [List.nil_append, List.flatten_singleton] at cuts
  rw [← cuts, along_append] at along'
  have countsX := (runAll_plain_counts env p.toSession _ twins.plain along).1
  have countsY := (runAll_tls_counts env t.toSession taken twins.context along'.1).1
  -- the TLS side counts nothing, so the plaintext side wrote nothing
  obtain ⟨view, log⟩ := Prod.mk.inj fedX
  have session := congrArg Prod.fst view
  simp only [Socket.view] at session
  rw [← session] at countsX
  rw [runs, ← fedY] at countsY
  simp only [Socket.view] at countsY
  exact wordless_of_silent env p.toSession _ command (by omega)

/-- TLS changes nothing exactly when nothing is answered. -/
theorem transparent_iff_wordless : Transparent env p t bytes ↔ Wordless bytes := by
  constructor
  · exact wordless_of_transparent env p t bytes twins command emptyP emptyT without
  · exact transparent_of_wordless env p t bytes twins command emptyP emptyT without

end

/-- A started socket, and the same after STARTTLS and the handshake. -/
def plainTwin : Socket := Socket.started 3 0 false noHandlers

def tlsTwin : Socket :=
  (handleReads Env.granted plainTwin
    [plainRead (ascii "STARTTLS\r\n"), ⟨[22], none, ⟨noErr, [5]⟩, []⟩]).1

private theorem twins_started : Twins plainTwin.toSession tlsTwin.toSession :=
  ⟨rfl, by decide, rfl, by decide, by decide, by decide⟩

theorem transparent_blank : Transparent Env.granted plainTwin tlsTwin (ascii "1\r\n2\r\nNOOP") :=
  (transparent_iff_wordless Env.granted plainTwin tlsTwin (ascii "1\r\n2\r\nNOOP") twins_started
    (by decide) (by decide) (by decide) (by decide)).mpr (by decide)

/-- QUIT over TLS: the reply counts nowhere and does not stop the connection. -/
theorem quit_not_transparent :
    Twins plainTwin.toSession tlsTwin.toSession ∧
      Without transportCommands .command (lineFramer.pieces (ascii "QUIT\r\n")).1 ∧
      ¬Transparent Env.granted plainTwin tlsTwin (ascii "QUIT\r\n") := by
  refine ⟨twins_started, by decide, ?_⟩
  intro transparent
  have wordless := wordless_of_transparent Env.granted plainTwin tlsTwin (ascii "QUIT\r\n")
    twins_started (by decide) (by decide) (by decide) (by decide) transparent
  exact absurd wordless (by decide)

end Spamass.Emailz
