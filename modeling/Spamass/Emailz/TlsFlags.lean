import Spamass.Emailz.Schedule
import Spamass.Emailz.Transport

/-!
# The TLS flags

`is_handshaking` and `is_secure` say what is going on on the current context. Over every
schedule of a connection they tell the truth exactly if each setup that runs either
leaves a context that waits for the client, or fails before there is a context.
-/
namespace Spamass.Emailz

open Spamass.Framing Spamass.Runs

/-- A call of the setup failed. -/
def SetupAnswers.fails (a : SetupAnswers) : Bool :=
  a.newContext != noErr || a.misconfigured ||
    (a.handshake != noErr && a.handshake != errSSLWouldBlock)

/-- What the flags say is so, and a setup that failed left no context. -/
structure Truthful (env : Env) (shaken : List Nat) (c : Crypto) : Prop where
  plain : c.sslcontext = none → c.isHandshaking = false ∧ c.isSecure = false
  oneFlag : c.sslcontext ≠ none → c.isHandshaking = !c.isSecure
  secure : ∀ context, c.sslcontext = some context → (c.isSecure = true ↔ context ∈ shaken)
  failed : ∀ n, c.setups = n + 1 → (env.setup n).fails = true → c.sslcontext = none

/-- The flags of a connection that was not stopped. -/
def TellsTruth (env : Env) (r : Running) : Prop :=
  r.socket.stop = false → Truthful env r.shaken r.socket.toCrypto

/-- The next turn of the loop runs `emailz_socket_setup_ssl`. -/
def Running.startsTls (r : Running) : Bool :=
  match r.next with
  | some (line, _) =>
    r.socket.phase == .command && lineCommand line == some .starttls && !r.socket.isSecure
  | none => false

/-- Every call of the setup is granted, and its handshake waits for the client. -/
def SetupAnswers.grants (a : SetupAnswers) : Bool :=
  a.newContext == noErr && !a.misconfigured && a.handshake == errSSLWouldBlock

/-- A setup that runs is granted, or there was no context and it makes none. -/
def SetsUp (env : Env) (r : Running) : SocketStep → Prop
  | .line => r.socket.stop = false → r.startsTls = true →
      (env.setup r.socket.setups).grants = true ∨
        ((env.setup r.socket.setups).newContext ≠ noErr ∧ r.socket.sslcontext = none)
  | _ => True

/-! ### What a setup does to the flags -/

/-- The crypto fields behind a setup. -/
def SetupAnswers.crypto (a : SetupAnswers) (c : Crypto) : Crypto :=
  if a.newContext ≠ noErr then { c with setups := c.setups + 1 }
  else if a.misconfigured then
    { c with setups := c.setups + 1, sslcontext := some c.setups }
  else
    { c with
      setups := c.setups + 1
      sslcontext := some c.setups
      isHandshaking := a.handshake != noErr }

private theorem socketSetupSsl_crypto (answers : Nat → SetupAnswers) (s : Session) :
    (socketSetupSsl answers s).1.toCrypto = (answers s.setups).crypto s.toCrypto := by
  unfold socketSetupSsl SetupAnswers.crypto SetupAnswers.misconfigured
  dsimp only
  split
  · rfl
  · split
    · rfl
    · split
      next failed => simp [failed.1]
      · split
        next done => simp [done]
        next waits => simp [waits]

theorem handleLine_startTls (env : Env) (s : Session) (line : Bytes) (command : s.phase = .command)
    (word : lineCommand line = some .starttls) (plain : s.isSecure = false) :
    (handleLine env s line).state.toCrypto = (env.setup s.setups).crypto s.toCrypto ∧
      (handleLine env s line).state.stop = s.stop := by
  have state : s.state ≠ .data := (phase_command_iff s).mp command
  obtain ⟨completion, sent, written⟩ := socketHandleWrite_spec { s with state := .starttls }
    .readyTls none
  obtain ⟨crypto, after, setup, -⟩ := socketSetupSsl_spec env.setup
    (socketHandleWrite { s with state := .starttls } .readyTls none).1
  have fields := socketSetupSsl_crypto env.setup
    (socketHandleWrite { s with state := .starttls } .readyTls none).1
  simp only [handleLine, state, if_false, handleCommandLine, word, respond, plain,
    Bool.false_eq_true, fields]
  rw [setup, written]
  exact ⟨rfl, rfl⟩

/-- Any other line leaves the crypto fields alone. -/
private theorem handleLine_crypto (env : Env) (s : Session) (line : Bytes)
    (other : s.phase = .command → lineCommand line = some .starttls → s.isSecure = true) :
    (handleLine env s line).state.toCrypto = s.toCrypto := by
  have handled := handleLine_handled env s line
  by_cases secure : s.isSecure = true
  · exact secure_crypto env s line secure
  · exact handled.crypto fun command word => secure (other command word)

/-! ### Contexts are numbered by their setups -/

structure Numbered (r : Running) : Prop where
  context : ∀ context, r.socket.sslcontext = some context → context < r.socket.setups
  shaken : ∀ context ∈ r.shaken, context < r.socket.setups

/-- A setup whose calls failed, or that waits for the client, completes no handshake. -/
theorem setupShakes_same (env : Env) (s next : Session) (same : next.toCrypto = s.toCrypto) :
    setupShakes env s next = [] := by
  have setups : next.setups = s.setups := congrArg Crypto.setups same
  simp [setupShakes, setups]

private theorem SetupAnswers.crypto_setups (a : SetupAnswers) (c : Crypto) :
    (a.crypto c).setups = c.setups + 1 := by
  unfold SetupAnswers.crypto
  split_ifs <;> rfl

private theorem setupShakes_setup (env : Env) (s next : Session)
    (setup : next.toCrypto = (env.setup s.setups).crypto s.toCrypto) :
    setupShakes env s next = if (env.setup s.setups).shakes then [s.setups] else [] := by
  have setups : next.setups = s.setups + 1 := by
    rw [show next.setups = next.toCrypto.setups from rfl, setup, SetupAnswers.crypto_setups]
  simp [setupShakes, setups]

theorem numbered_start (socketfd : Int) (now : UInt64) (record : Bool) (handlers : Handlers) :
    Numbered (Running.accepted socketfd now record handlers) := by
  refine ⟨?_, ?_⟩
  · intro context made
    cases made
  · intro context made
    cases made

/-- What a received read leaves of the context and its setups. -/
theorem Received.context {s : Socket} {arrival : Arrival} {next : Socket} {log : List Event}
    {goesOn : Bool} (received : Received s arrival (next, log, goesOn)) :
    next.sslcontext = s.sslcontext ∧ next.setups = s.setups :=
  ⟨received.kept (fun s => s.sslcontext) (fun _ => rfl) fun _ => rfl,
    received.kept (fun s => s.setups) (fun _ => rfl) fun _ => rfl⟩

private theorem readShakes_context (s : Socket) (arrival : Arrival) :
    ∀ context ∈ readShakes s arrival, s.sslcontext = some context := by
  intro context made
  unfold readShakes at made
  split at made
  · simpa using made
  · cases made

/-- The context behind a setup is the one before it, or the new one. -/
private theorem SetupAnswers.crypto_context (a : SetupAnswers) (c : Crypto) (context : Nat)
    (made : (a.crypto c).sslcontext = some context) :
    c.sslcontext = some context ∨ context = c.setups := by
  unfold SetupAnswers.crypto at made
  split_ifs at made
  · exact Or.inl made
  · exact Or.inr (Option.some.inj made).symm
  · exact Or.inr (Option.some.inj made).symm

theorem numbered_took (env : Env) (r : Running) (line rest : Bytes) (numbered : Numbered r) :
    Numbered (r.took env rest (handleLine env r.socket.toSession line)) := by
  have cases_ : (handleLine env r.socket.toSession line).state.toCrypto = r.socket.toCrypto ∨
      (handleLine env r.socket.toSession line).state.toCrypto =
        (env.setup r.socket.setups).crypto r.socket.toCrypto := by
    by_cases other : r.socket.phase = .command → lineCommand line = some .starttls →
        r.socket.isSecure = true
    · exact Or.inl (handleLine_crypto env _ line other)
    · simp only [Classical.not_imp, Bool.not_eq_true] at other
      exact Or.inr (handleLine_startTls env _ line other.1 other.2.1 other.2.2).1
  -- either no setup ran, or one more did and its context is the latest
  rcases cases_ with crypto | crypto
  · have context : (handleLine env r.socket.toSession line).state.sslcontext =
        r.socket.sslcontext := congrArg Crypto.sslcontext crypto
    have setups : (handleLine env r.socket.toSession line).state.setups = r.socket.setups :=
      congrArg Crypto.setups crypto
    refine ⟨?_, ?_⟩
    · intro c made
      simp only [Running.took, Running.logs, setups, context] at made ⊢
      exact numbered.context c made
    · intro c made
      simp only [Running.took, Running.logs, setups, setupShakes_same env _ _ crypto,
        List.append_nil] at made ⊢
      exact numbered.shaken c made
  · have setups : (handleLine env r.socket.toSession line).state.setups = r.socket.setups + 1 :=
      (congrArg Crypto.setups crypto).trans (SetupAnswers.crypto_setups _ _)
    refine ⟨?_, ?_⟩
    · intro c made
      have made' := (congrArg Crypto.sslcontext crypto).symm.trans made
      have bound := SetupAnswers.crypto_context _ _ c made'
      simp only [Running.took, Running.logs, setups]
      rcases bound with old | new
      · exact Nat.lt_succ_of_lt (numbered.context c old)
      · exact new ▸ Nat.lt_succ_self _
    · intro c made
      simp only [Running.took, Running.logs, setups, setupShakes_setup env _ _ crypto] at made ⊢
      rcases List.mem_append.mp made with old | new
      · exact Nat.lt_succ_of_lt (numbered.shaken c old)
      · split at new
        · obtain rfl := List.mem_singleton.mp new
          exact Nat.lt_succ_self _
        · cases new

theorem numbered_step (env : Env) (r : Running) (label : SocketStep) (numbered : Numbered r) :
    Numbered (r.step env label) := by
  have moves := step_moves env r label
  generalize r.step env label = after at moves
  cases moves with
  | ignored => exact numbered
  | received arrival next log goesOn _ _ received =>
    obtain ⟨context, setups⟩ := received.context
    refine ⟨?_, ?_⟩
    · intro c made
      simp only [Running.logs, context, setups] at made ⊢
      exact numbered.context c made
    · intro c made
      simp only [Running.logs, setups] at made ⊢
      rcases List.mem_append.mp made with old | new
      · exact numbered.shaken c old
      · exact numbered.context c (readShakes_context r.socket arrival c new)
  | took line rest _ => exact numbered_took env r line rest numbered
  | _ => exact ⟨numbered.context, numbered.shaken⟩

/-! ### A step keeps the flags truthful exactly if its setup is sound -/

/-- On a connection that is not secure yet, a setup leaves truthful flags exactly if it is granted,
or fails without leaving a context. -/
private theorem truthful_setup_iff (env : Env) (shaken : List Nat) (c : Crypto)
    (here : Truthful env shaken c) (plain : c.isSecure = false) (fresh : c.setups ∉ shaken) :
    Truthful env (shaken ++ if (env.setup c.setups).shakes then [c.setups] else [])
        ((env.setup c.setups).crypto c) ↔
      (env.setup c.setups).grants = true ∨
        ((env.setup c.setups).newContext ≠ noErr ∧ c.sslcontext = none) := by
  have fails : ∀ a : SetupAnswers, a = env.setup c.setups → a.fails = true →
      Truthful env (shaken ++ if (env.setup c.setups).shakes then [c.setups] else [])
        ((env.setup c.setups).crypto c) → (a.crypto c).sslcontext = none := by
    intro a same failed truthful
    subst same
    exact truthful.failed c.setups (SetupAnswers.crypto_setups _ _) failed
  generalize answers : env.setup c.setups = a at fails ⊢
  by_cases made : a.newContext = noErr
  · by_cases configured : a.misconfigured = true
    · -- a failing call behind SSLNewContext leaves the context
      have failed : a.fails = true := by simp [SetupAnswers.fails, configured]
      have grants : a.grants = false := by simp [SetupAnswers.grants, configured]
      have context : (a.crypto c).sslcontext = some c.setups := by
        rw [SetupAnswers.crypto, if_neg (by simp [made]), if_pos configured]
      refine iff_of_false ?_ (by simp [grants, made])
      intro truthful
      have missing := fails a rfl failed truthful
      rw [context] at missing
      cases missing
    · have crypto : a.crypto c = { c with
          setups := c.setups + 1
          sslcontext := some c.setups
          isHandshaking := a.handshake != noErr } := by
        rw [SetupAnswers.crypto, if_neg (by simp [made]), if_neg configured]
      have quiet : a.misconfigured = false := Bool.eq_false_iff.mpr configured
      by_cases waits : a.handshake = errSSLWouldBlock
      · -- the handshake waits for the client
        have blocked : (a.handshake != noErr) = true := by rw [waits]; decide
        have shakes : a.shakes = false := by
          simp only [SetupAnswers.shakes, waits, Bool.and_eq_false_iff]
          exact Or.inr (by decide)
        have grants : a.grants = true := by simp [SetupAnswers.grants, made, quiet, waits]
        have fine : a.fails = false := by simp [SetupAnswers.fails, made, quiet, waits]
        refine iff_of_true ?_ (Or.inl grants)
        rw [crypto, shakes, blocked]
        refine ⟨nofun, fun _ => by simp [plain], ?_, ?_⟩
        · rintro context ⟨⟩
          simp [plain, fresh]
        · intro n counted failed
          obtain rfl : c.setups = n := Nat.succ.inj counted
          rw [answers, fine] at failed
          cases failed
      · have grants : a.grants = false := by simp [SetupAnswers.grants, waits]
        refine iff_of_false ?_ (by simp [grants, made])
        intro truthful
        by_cases done : a.handshake = noErr
        · -- a handshake that is complete at once leaves both flags down
          have flags := truthful.oneFlag (by simp [crypto])
          simp [crypto, done, plain] at flags
        · have failed : a.fails = true := by simp [SetupAnswers.fails, waits, done]
          have missing := fails a rfl failed truthful
          simp [crypto] at missing
  · have failed : a.fails = true := by simp [SetupAnswers.fails, made]
    have shakes : a.shakes = false := by simp [SetupAnswers.shakes, made]
    have grants : a.grants = false := by simp [SetupAnswers.grants, made]
    have crypto : a.crypto c = { c with setups := c.setups + 1 } := by
      simp [SetupAnswers.crypto, made]
    constructor
    · intro truthful
      have missing := fails a rfl failed truthful
      exact Or.inr ⟨made, by simpa [crypto] using missing⟩
    · rintro (granted | ⟨-, missing⟩)
      · rw [grants] at granted
        cases granted
      · rw [crypto, shakes]
        refine ⟨here.plain, here.oneFlag, ?_, fun _ _ _ => missing⟩
        intro context present
        rw [missing] at present
        cases present

/-- A completed handshake makes the current context secure. -/
private theorem truthful_received {env : Env} {s : Socket} {arrival : Arrival} {next : Socket}
    {log : List Event} {goesOn : Bool} {shaken : List Nat}
    (received : Received s arrival (next, log, goesOn)) (running : next.stop = false)
    (here : Truthful env shaken s.toCrypto) :
    Truthful env (shaken ++ readShakes s arrival) next.toCrypto := by
  have still : readShakes s arrival = [] → next.toCrypto = s.toCrypto →
      Truthful env (shaken ++ readShakes s arrival) next.toCrypto := by
    intro missing same
    rw [missing, same, List.append_nil]
    exact here
  cases received with
  | plain _ plain session _ =>
    exact still (by simp [readShakes, plain]) (congrArg Session.toCrypto session)
  | waiting _ _ _ blocked session _ =>
    exact still (by simp [readShakes, blocked]) (congrArg Session.toCrypto session)
  | refused _ _ _ _ session _ =>
    rw [session] at running
    cases running
  | open_ _ _ context shaken_ session _ =>
    rcases session with ⟨session, -⟩ | ⟨session, -⟩
    · -- the handshake is over in this read, or was before it
      by_cases handshaking : s.isHandshaking = true
      · have shook : next.toCrypto =
            { s.toCrypto with isHandshaking := false, isSecure := true } := by
          rw [session, Session.shook, if_pos handshaking]
        obtain ⟨c, present⟩ := Option.isSome_iff_exists.mp context
        have shakes : readShakes s arrival = [c] := by
          simp [readShakes, handshaking, shaken_ handshaking, present]
        rw [shakes, shook]
        refine ⟨?_, fun _ => rfl, ?_, here.failed⟩
        · intro missing
          rw [present] at missing
          cases missing
        · intro context' same
          rw [present] at same
          obtain rfl := Option.some.inj same
          simp
      · have settled : s.isHandshaking = false := by simpa using handshaking
        apply still
        · simp [readShakes, settled]
        · rw [session, Session.shook, if_neg handshaking]
    · rw [session] at running
      cases running

private theorem tellsTruth_took_iff (env : Env) (r : Running) (line rest : Bytes)
    (present : r.next = some (line, rest)) (numbered : Numbered r) (here : TellsTruth env r) :
    TellsTruth env (r.took env rest (handleLine env r.socket.toSession line)) ↔
      SetsUp env r .line := by
  have handled := handleLine_handled env r.socket.toSession line
  by_cases stopped : r.socket.stop = true
  · -- a stopped connection stays stopped
    have still : (handleLine env r.socket.toSession line).state.stop = true :=
      handled.stopped stopped
    refine iff_of_true ?_ ?_
    · intro running
      have running' : (handleLine env r.socket.toSession line).state.stop = false := running
      rw [still] at running'
      cases running'
    · intro running
      rw [stopped] at running
      cases running
  · have running : r.socket.stop = false := by simpa using stopped
    have truthful := here running
    by_cases starts : r.socket.phase = .command ∧ lineCommand line = some .starttls ∧
        r.socket.isSecure = false
    · obtain ⟨command, word, plain⟩ := starts
      obtain ⟨crypto, stop⟩ := handleLine_startTls env _ line command word plain
      have fresh : r.socket.setups ∉ r.shaken := fun member =>
        Nat.lt_irrefl _ (numbered.shaken _ member)
      have setup := truthful_setup_iff env r.shaken r.socket.toCrypto truthful plain fresh
      have begins : r.startsTls = true := by simp [Running.startsTls, present, command, word, plain]
      have shakes := setupShakes_setup env r.socket.toSession _ crypto
      constructor
      · intro tells _ _
        apply setup.mp
        have after := tells (stop.trans running)
        simp only [Running.took, Running.logs, shakes, crypto] at after
        exact after
      · intro sets _
        have after := setup.mpr (sets running begins)
        simp only [Running.took, Running.logs, shakes, crypto]
        exact after
    · have other : r.startsTls = false := by
        simp only [Running.startsTls, present, Bool.and_eq_false_iff, beq_eq_false_iff_ne,
          Bool.not_eq_false']
        by_contra missing
        simp only [not_or, ne_eq, not_not, Bool.not_eq_true] at missing
        exact starts ⟨missing.1.1, missing.1.2, missing.2⟩
      have crypto := handleLine_crypto env r.socket.toSession line fun command word => by
        by_contra plain
        exact starts ⟨command, word, by simpa using plain⟩
      refine iff_of_true ?_ ?_
      · intro _
        simp only [Running.took, Running.logs, setupShakes_same env _ _ crypto, List.append_nil,
          crypto]
        exact truthful
      · intro _ begins
        rw [other] at begins
        cases begins

theorem tellsTruth_step_iff (env : Env) (r : Running) (label : SocketStep) (numbered : Numbered r)
    (here : TellsTruth env r) : TellsTruth env (r.step env label) ↔ SetsUp env r label := by
  have moves := step_moves env r label
  generalize r.step env label = after at moves
  have nothing : label ≠ .line → SetsUp env r label := by
    intro other
    cases label <;> first | exact absurd rfl other | trivial
  -- only a line that is taken can set TLS up
  cases moves with
  | ignored _ other => exact iff_of_true here (nothing other)
  | received arrival next log goesOn _ running received =>
    refine iff_of_true ?_ trivial
    intro open_
    exact truthful_received received open_ (here running)
  | rested missing =>
    refine iff_of_true here ?_
    intro _ begins
    simp [Running.startsTls, missing] at begins
  | took line rest present => exact tellsTruth_took_iff env r line rest present numbered here
  | completed => exact iff_of_true here trivial
  | stopped _ _ other =>
    refine iff_of_true ?_ (nothing other)
    intro running
    cases running
  | installed => exact iff_of_true here trivial

private theorem tellsTruth_start (env : Env) (socketfd : Int) (now : UInt64) (record : Bool)
    (handlers : Handlers) : TellsTruth env (Running.accepted socketfd now record handlers) := by
  intro _
  refine ⟨fun _ => ⟨rfl, rfl⟩, fun context => absurd rfl context, nofun, nofun⟩

/-- Over every schedule, the flags tell the truth in every state of a connection that was not
stopped, exactly if every setup that runs is granted or fails before there is a context. -/
theorem tellsTruth_iff_setsUp (env : Env) (socketfd : Int) (now : UInt64) (record : Bool)
    (handlers : Handlers) (labels : List SocketStep) :
    Always (Running.step env) (TellsTruth env) (Running.accepted socketfd now record handlers)
        labels ↔
      Each (Running.step env) (SetsUp env) (Running.accepted socketfd now record handlers)
        labels :=
  always_iff_each (Running.step env) (numbered_step env) (tellsTruth_step_iff env)
    (numbered_start socketfd now record handlers)
    (tellsTruth_start env socketfd now record handlers) labels

/-- The certificate is refused. -/
def uncertified : Env :=
  ⟨fun _ => { SetupAnswers.granted with setCertificate := -50 }, fun _ => 65⟩

/-- STARTTLS, and the certificate cannot be set: the context stays, with both flags down. -/
theorem uncertified_untruthful :
    ¬ Always (Running.step uncertified) (TellsTruth uncertified)
      (Running.accepted 3 0 false noHandlers)
      [.read (plainRead (ascii "STARTTLS\r\n")), .line] := by
  rintro ⟨-, -, truthful⟩
  have flags := (truthful (by decide)).oneFlag (by decide)
  exact absurd flags (by decide)

end Spamass.Emailz
