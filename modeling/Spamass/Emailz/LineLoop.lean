import Spamass.Emailz.Dialogue

/-!
# Reads as chunks

The line loop is one turn of the line handler over the lines of the buffer, and
the reads of a plaintext socket feed that machine chunk by chunk.
-/
namespace Spamass.Emailz

open Spamass.Framing

theorem lineLoop_turn (env : Env) (fuel : Nat) (s : Socket) (enough : s.indata.length ≤ fuel) :
    lineLoop env fuel s =
      ({ s with
          toSession := (turn (handleLine env) s.toSession (lineFramer.pieces s.indata).1).1
          indata :=
            (turn (handleLine env) s.toSession (lineFramer.pieces s.indata).1).2.1.flatten ++
              (lineFramer.pieces s.indata).2 },
        (turn (handleLine env) s.toSession (lineFramer.pieces s.indata).1).2.2) := by
  induction fuel generalizing s with
  | zero =>
    have empty : s.indata = [] := List.eq_nil_of_length_eq_zero (by omega)
    have missing : lineFramer.cut s.indata = none := by rw [empty]; decide
    rw [lineFramer.pieces_none missing]
    simp [lineLoop, turn]
  | succ fuel ih =>
    simp only [lineLoop]
    cases read : socketReadLine s.indata with
    | none =>
      have missing : lineFramer.cut s.indata = none := read
      rw [lineFramer.pieces_none missing]
      simp [turn]
    | some pair =>
      have present : lineFramer.cut s.indata = some (pair.1, pair.2) := read
      have shorter := lineFramer.rest_shorter present
      have nonempty : s.indata.length ≠ 0 := by omega
      simp only [nonempty, if_false, lineFramer.pieces_some present, turn]
      split
      · -- the loop breaks off: the lines behind this one stay in the buffer
        rw [lineFramer.pieces_flatten]
      · rw [ih _ (by simp only; omega)]

/-- What the line handler works on. -/
def Socket.view (s : Socket) : Session × Bytes := (s.toSession, s.indata)

/-- The transport half of a read appends these bytes to the buffer, and touches nothing else
the line handler works on. -/
def Carries (s : Socket) (arrival : Arrival) (bytes : Bytes) : Prop :=
  ∃ received, receive s arrival = (received, [], true) ∧
    received.view = (s.toSession, s.indata ++ bytes)

theorem socketHandleRead_carries (env : Env) (s : Socket) (arrival : Arrival) (bytes : Bytes)
    (carries : Carries s arrival bytes) :
    ((socketHandleRead env s arrival).1.view, (socketHandleRead env s arrival).2) =
      feedChunk lineFramer (handleLine env) s.toSession s.indata bytes := by
  obtain ⟨received, transport, view⟩ := carries
  have session : received.toSession = s.toSession := congrArg Prod.fst view
  have buffer : received.indata = s.indata ++ bytes := congrArg Prod.snd view
  have loop := lineLoop_turn env _ received (Nat.le_refl _)
  simp only [socketHandleRead, transport, if_true, List.nil_append, loop, Socket.view]
  rw [session, buffer]
  rfl

theorem socketRecord_session (s : Socket) (data : Bytes) (short : Option Nat) :
    (socketRecord s data short).toSession = s.toSession := by
  unfold socketRecord
  split
  · split <;> rfl
  · rfl

theorem carries_plain (s : Socket) (arrival : Arrival) (plain : s.sslcontext = none) :
    Carries s arrival arrival.data := by
  have recorded := socketRecord_session s arrival.data arrival.short
  refine ⟨s.append arrival.data arrival.short, ?_, ?_⟩
  · simp only [receive, plain]
  · simp only [Socket.view, Socket.append, recorded]

theorem socketHandleRead_plain (env : Env) (s : Socket) (arrival : Arrival)
    (plain : s.sslcontext = none) :
    ((socketHandleRead env s arrival).1.view, (socketHandleRead env s arrival).2) =
      feedChunk lineFramer (handleLine env) s.toSession s.indata arrival.data :=
  socketHandleRead_carries env s arrival arrival.data (carries_plain s arrival plain)

/-- Each read of a run carries a chunk of the stream, over whichever transport. -/
def CarriesAll (env : Env) : Socket → List Arrival → List Bytes → Prop
  | _, [], [] => True
  | s, arrival :: arrivals, chunk :: chunks =>
    Carries s arrival chunk ∧ CarriesAll env (socketHandleRead env s arrival).1 arrivals chunks
  | _, _, _ => False

/-- Reads that carry their chunks feed them to the line handler. -/
theorem handleReads_carries (env : Env) (s : Socket) (reads : List Arrival) (chunks : List Bytes)
    (carries : CarriesAll env s reads chunks) :
    ((handleReads env s reads).1.view, (handleReads env s reads).2) =
      feed lineFramer (handleLine env) s.toSession s.indata chunks := by
  induction reads generalizing s chunks with
  | nil =>
    cases chunks with
    | nil => rfl
    | cons chunk chunks => exact absurd carries id
  | cons read reads ih =>
    cases chunks with
    | nil => exact absurd carries id
    | cons chunk chunks =>
      have here := socketHandleRead_carries env s read chunk carries.1
      have later := ih _ chunks carries.2
      simp only [handleReads, feed, ← here]
      simp only [Socket.view] at later ⊢
      rw [← later]

/-! ### The lines of a run -/

/-- No line read as a command carries one of the given words. -/
def Without (words : List Command) (phase : Phase) (lines : List Bytes) : Prop :=
  ∀ line ∈ commandLines phase lines, ∀ c ∈ words, lineCommand line ≠ some c

theorem Without.mono {words fewer : List Command} {phase : Phase} {lines : List Bytes}
    (without : Without words phase lines) (subset : fewer ⊆ words) : Without fewer phase lines :=
  fun line member c word => without line member c (subset word)

instance (words : List Command) (phase : Phase) (lines : List Bytes) :
    Decidable (Without words phase lines) :=
  inferInstanceAs (Decidable (∀ line ∈ commandLines phase lines, ∀ c ∈ words,
    lineCommand line ≠ some c))

theorem without_append (words : List Command) (phase : Phase) (xs ys : List Bytes) :
    Without words phase (xs ++ ys) ↔
      Without words phase xs ∧ Without words (phase.after xs) ys := by
  simp only [Without, commandLines_append, List.mem_append]
  constructor
  · intro missing
    exact ⟨fun line member => missing line (Or.inl member),
      fun line member => missing line (Or.inr member)⟩
  · rintro ⟨left, right⟩ line (member | member)
    · exact left line member
    · exact right line member

/-- A line that, read as a command, carries none of the words. -/
def Avoids (words : List Command) (s : Session) (line : Bytes) : Prop :=
  s.phase = .command → ∀ c ∈ words, lineCommand line ≠ some c

theorem Avoids.command {words : List Command} {s : Session} {line : Bytes} {c : Command}
    (avoids : Avoids words s line) (command : s.state ≠ .data) (word : lineCommand line = some c) :
    c ∉ words :=
  fun member => avoids ((phase_command_iff s).mpr command) c member word

theorem along_avoids (env : Env) (words : List Command) (s : Session) (lines : List Bytes)
    (without : Without words s.phase lines) :
    Along (handleLine env) (Avoids words) s lines := by
  induction lines generalizing s with
  | nil => trivial
  | cons line lines ih =>
    obtain ⟨here, later⟩ := (without_append words s.phase [line] lines).mp without
    refine ⟨?_, ih _ (by rw [(handleLine_handled env s line).phase]; exact later)⟩
    intro command
    apply here line
    rw [command]
    exact List.mem_singleton_self line

theorem runAll_phase (env : Env) (s : Session) (lines : List Bytes) :
    (runAll (handleLine env) s lines).1.phase = s.phase.after lines := by
  induction lines generalizing s with
  | nil => rfl
  | cons line lines ih =>
    rw [runAll, ih, (handleLine_handled env s line).phase]
    rfl

theorem runAll_stopped (env : Env) (s : Session) (lines : List Bytes) (stopped : s.stop = true) :
    (runAll (handleLine env) s lines).1.stop = true := by
  induction lines generalizing s with
  | nil => exact stopped
  | cons line lines ih => exact ih _ ((handleLine_handled env s line).stopped stopped)

theorem runAll_crypto (env : Env) (s : Session) (lines : List Bytes)
    (without : Without [.starttls] s.phase lines) :
    (runAll (handleLine env) s lines).1.toCrypto = s.toCrypto := by
  have along := along_avoids env _ s lines without
  clear without
  induction lines generalizing s with
  | nil => rfl
  | cons line lines ih =>
    have same : (handleLine env s line).state.toCrypto = s.toCrypto :=
      (handleLine_handled env s line).crypto fun command => along.1 command .starttls (by simp)
    rw [runAll, ih _ along.2, same]

/-- Without a STARTTLS command a read leaves the crypto fields alone, and the lines it took off
the stream are the first ones of the stream. -/
theorem socketHandleRead_next (env : Env) (s : Socket) (arrival : Arrival) (chunk rest : Bytes)
    (carries : Carries s arrival chunk)
    (without : Without [.starttls] s.phase (lineFramer.pieces (s.indata ++ chunk ++ rest)).1) :
    (socketHandleRead env s arrival).1.toCrypto = s.toCrypto ∧
      Without [.starttls] (socketHandleRead env s arrival).1.phase
        (lineFramer.pieces ((socketHandleRead env s arrival).1.indata ++ rest)).1 := by
  have here := socketHandleRead_carries env s arrival chunk carries
  obtain ⟨taken, runs, cuts⟩ := feedChunk_takes lineFramer (handleLine env) s.toSession s.indata
    chunk rest
  rw [← here] at runs cuts
  rw [cuts, without_append] at without
  -- the lines taken by this read leave the phase and the crypto fields the next read starts from
  have session : (runAll (handleLine env) s.toSession taken).1 =
      (socketHandleRead env s arrival).1.toSession := congrArg Prod.fst runs
  have phase := runAll_phase env s.toSession taken
  have crypto := runAll_crypto env s.toSession taken without.1
  rw [session] at phase crypto
  exact ⟨crypto, by rw [phase]; exact without.2⟩

/-- Plaintext reads carry their bytes, as long as no TLS is started. -/
private theorem carriesAll_plain (env : Env) (s : Socket) (reads : List Arrival)
    (plain : s.sslcontext = none)
    (without : Without [.starttls] s.phase
      (lineFramer.pieces (s.indata ++ (reads.map Arrival.data).flatten)).1) :
    CarriesAll env s reads (reads.map Arrival.data) := by
  induction reads generalizing s with
  | nil => trivial
  | cons read reads ih =>
    rw [List.map_cons, List.flatten_cons, ← List.append_assoc] at without
    have carries := carries_plain s read plain
    obtain ⟨crypto, without'⟩ := socketHandleRead_next env s read _ _ carries without
    exact ⟨carries, ih _ (by rw [crypto, plain]) without'⟩

/-- On a plaintext socket the reads feed the line handler, as long as no TLS is started. -/
theorem handleReads_plain (env : Env) (s : Socket) (reads : List Arrival)
    (plain : s.sslcontext = none)
    (without : Without [.starttls] s.phase
      (lineFramer.pieces (s.indata ++ (reads.map Arrival.data).flatten)).1) :
    ((handleReads env s reads).1.view, (handleReads env s reads).2) =
      feed lineFramer (handleLine env) s.toSession s.indata (reads.map Arrival.data) :=
  handleReads_carries env s reads _ (carriesAll_plain env s reads plain without)

end Spamass.Emailz
