import Spamass.Emailz.Closing
import Spamass.Emailz.StartTls

/-!
# The data calls of a mail

In each DATA phase the data handler is given the lines of the mail and, at its end, one
call with `done`. An automaton reads the log of any schedule; the size limit and the
`done` flag are read off the way it goes.
-/
namespace Spamass.Emailz

open Spamass.Framing Spamass.Runs

/-! ### The data calls of a log -/

def dataCalls (log : List Event) : List (Bytes × Bool) :=
  log.filterMap fun
    | .data payload done => some (payload, done)
    | _ => none

/-- The DATA phase has ended with its terminator. -/
def Event.accepts : Event → Bool
  | .reply .accepted _ => true
  | _ => false

def totalSize (pieces : List Bytes) : Nat := pieces.foldr (fun piece n => piece.length + n) 0

/-- What the lines of a DATA phase add up to, the terminator left out. -/
def mailSize (phase : List Event) : Nat := totalSize ((linesOf phase).filter (· ≠ endOfMail))

/-- The data calls of one DATA phase: pieces within the limit, and at most one call with `done`,
the last. There is one if the phase ends with the terminator or goes over the limit. -/
def PhaseCalls (phase : List Event) : Prop :=
  ∃ pieces final, dataCalls phase = pieces.map (fun piece => (piece, false)) ++ final ∧
    totalSize pieces ≤ maxIndataSize ∧ (final = [] ∨ ∃ payload, final = [(payload, true)]) ∧
    (phase.any Event.accepts = true ∨ maxIndataSize < mailSize phase → final ≠ [])

/-- The data calls of a connection fit its DATA phases. -/
structure Consistent (r : Running) : Prop where
  -- no data call is made between phases
  inPhase : ∀ before payload done later, r.log = before ++ .data payload done :: later →
    ∃ earlier completion phase, before = earlier ++ .reply .enterMail completion :: phase ∧
      phase.any Event.accepts = false
  phases : ∀ before completion later, r.log = before ++ .reply .enterMail completion :: later →
    PhaseCalls (upTo Event.accepts later)
  -- only the call at the limit has `done` and data
  limit : ∀ before payload later, r.log = before ++ .data payload true :: later → payload ≠ [] →
    r.socket.stop = true ∧ ∀ e ∈ later, e.acts = false

/-- Where a data call goes to the application. -/
def Handlers.takesData (h : Handlers) : Bool := h.dataHandler && h.handlerQueue

/-- A DATA phase begins behind this reply. -/
def Event.opensMail : Event → Bool
  | .reply .enterMail _ => true
  | _ => false

/-! ### The automaton -/

/-- An event that is not part of a DATA phase. -/
def Event.offPhase : Event → Bool
  | .data _ _ => false
  | .reply .enterMail _ => false
  | .reply .accepted _ => false
  | _ => true

inductive Mode where
  | idle
  | mail (size : Nat)
  -- a line of the mail was taken, and its call comes next
  | taken (size : Nat) (line : Bytes)
  -- the call with `done` was made, at the terminator or at the limit
  | ended
  | overrun

/-- The mode behind an event that may come in a mode. -/
inductive Mode.Admits : Mode → Event → Mode → Prop
  | quiet (e : Event) (off : e.offPhase = true) : Admits .idle e .idle
  | opens (completion : Completion) : Admits .idle (.reply .enterMail completion) (.mail 0)
  | line (size : Nat) (line : Bytes) : Admits (.mail size) (.line line) (.taken size line)
  | stop (size : Nat) : Admits (.mail size) .stop (.mail size)
  | piece (size : Nat) (line : Bytes) (other : line ≠ endOfMail)
      (small : size + line.length ≤ maxIndataSize) :
      Admits (.taken size line) (.data line false) (.mail (size + line.length))
  | last (size : Nat) : Admits (.taken size endOfMail) (.data [] true) .ended
  | large (size : Nat) (line : Bytes) (other : line ≠ endOfMail)
      (large : maxIndataSize < size + line.length) :
      Admits (.taken size line) (.data line true) .overrun
  | accepted (completion : Completion) : Admits .ended (.reply .accepted completion) .idle
  | hushed : Admits .overrun .stop .overrun

inductive AdmitsLog : Mode → List Event → Mode → Prop
  | done (mode : Mode) : AdmitsLog mode [] mode
  | step {mode next last : Mode} {e : Event} {log : List Event} (admits : mode.Admits e next)
      (follows : AdmitsLog next log last) : AdmitsLog mode (e :: log) last

theorem AdmitsLog.append {mode mid last : Mode} {xs ys : List Event} (first : AdmitsLog mode xs mid)
    (second : AdmitsLog mid ys last) : AdmitsLog mode (xs ++ ys) last := by
  induction first with
  | done => exact second
  | step admits _ ih => exact .step admits (ih second)

theorem AdmitsLog.split {mode last : Mode} {xs ys : List Event}
    (follows : AdmitsLog mode (xs ++ ys) last) :
    ∃ mid, AdmitsLog mode xs mid ∧ AdmitsLog mid ys last := by
  induction xs generalizing mode with
  | nil => exact ⟨mode, .done mode, follows⟩
  | cons e xs ih =>
    cases follows with
    | step admits follows =>
      obtain ⟨mid, first, second⟩ := ih follows
      exact ⟨mid, .step admits first, second⟩

theorem AdmitsLog.quiet (log : List Event) (off : ∀ e ∈ log, e.offPhase = true) :
    AdmitsLog .idle log .idle := by
  induction log with
  | nil => exact .done _
  | cons e log ih =>
    exact .step (.quiet e (off e (List.mem_cons_self ..)))
      (ih fun e member => off e (List.mem_cons_of_mem _ member))

/-! ### What an admitted log says -/

/-- Behind the limit the log only stops. -/
theorem AdmitsLog.overrun {last : Mode} {log : List Event} (follows : AdmitsLog .overrun log last) :
    last = .overrun ∧ ∀ e ∈ log, e = .stop := by
  induction log with
  | nil =>
    cases follows
    exact ⟨rfl, nofun⟩
  | cons e log ih =>
    cases follows with
    | step admits follows =>
      cases admits with
      | hushed =>
        obtain ⟨same, stops⟩ := ih follows
        refine ⟨same, fun e member => ?_⟩
        rcases List.mem_cons.mp member with rfl | later
        · rfl
        · exact stops e later

/-- A DATA phase is going on. -/
def Mode.inMail : Mode → Bool
  | .idle => false
  | _ => true

private theorem AdmitsLog.inPhase {mode : Mode} {log : List Event} (follows : AdmitsLog .idle log mode)
    (inMail : mode.inMail = true) :
    ∃ earlier completion phase, log = earlier ++ .reply .enterMail completion :: phase ∧
      phase.any Event.accepts = false := by
  induction log using List.reverseRecOn generalizing mode with
  | nil =>
    cases follows
    cases inMail
  | append_singleton log e ih =>
    obtain ⟨before, first, second⟩ := follows.split
    cases second with
    | step admits rest =>
      cases rest
      -- all but the opening reply come behind one
      have behind : before.inMail = true → e.accepts = false → ∃ earlier completion phase,
          log ++ [e] = earlier ++ .reply .enterMail completion :: phase ∧
            phase.any Event.accepts = false := by
        intro inMail' other
        obtain ⟨earlier, completion, phase, rfl, open_⟩ := ih first inMail'
        exact ⟨earlier, completion, phase ++ [e], by simp, by simp [open_, other]⟩
      cases admits with
      | quiet => cases inMail
      | accepted => cases inMail
      | opens completion => exact ⟨log, completion, [], rfl, rfl⟩
      | _ => exact behind rfl rfl

/-- Between two lines of a run. -/
def Mode.settled : Mode → Bool
  | .taken _ _ => false
  | .ended => false
  | _ => true

private theorem mailSize_line (line : Bytes) (log : List Event) (other : line ≠ endOfMail) :
    mailSize (.line line :: log) = line.length + mailSize log := by
  rw [mailSize, linesOf_line, List.filter_cons_of_pos (by simpa using other)]
  rfl

private theorem mailSize_data (payload : Bytes) (done : Bool) (log : List Event) :
    mailSize (.data payload done :: log) = mailSize log := rfl

private theorem dataCalls_stops (log : List Event) (stops : ∀ e ∈ log, e = .stop) :
    dataCalls (upTo Event.accepts log) = [] := by
  induction log with
  | nil => rfl
  | cons e log ih =>
    obtain rfl := stops e (List.mem_cons_self ..)
    exact ih fun e member => stops e (List.mem_cons_of_mem _ member)

/-- Along a DATA phase that is `size` bytes long so far. -/
private theorem AdmitsLog.phaseCalls {size : Nat} {log : List Event} {last : Mode}
    (follows : AdmitsLog (.mail size) log last) (settled : last.settled = true)
    (small : size ≤ maxIndataSize) :
    ∃ pieces final, dataCalls (upTo Event.accepts log) =
        pieces.map (fun piece => (piece, false)) ++ final ∧
      size + totalSize pieces ≤ maxIndataSize ∧
      (final = [] ∨ ∃ payload, final = [(payload, true)]) ∧
      ((upTo Event.accepts log).any Event.accepts = true ∨
        maxIndataSize < size + mailSize (upTo Event.accepts log) → final ≠ []) := by
  induction length : log.length using Nat.strongRecOn generalizing size log with
  | _ n ih =>
    subst length
    cases follows with
    | done =>
      refine ⟨[], [], rfl, small, Or.inl rfl, ?_⟩
      rintro (ended | large)
      · cases ended
      · exact absurd large (Nat.not_lt.mpr small)
    | step admits follows =>
      cases admits with
      | stop =>
        obtain ⟨pieces, final, calls, within, most, least⟩ := ih _ (by simp) follows small rfl
        exact ⟨pieces, final, calls, within, most, least⟩
      | line _ line =>
        cases follows with
        | done => cases settled
        | step admits follows =>
          cases admits with
          | piece _ _ other small' =>
            -- the line is handed over, and the phase goes on
            obtain ⟨pieces, final, calls, within, most, least⟩ :=
              ih _ (by simp only [List.length_cons]; omega) follows small' rfl
            refine ⟨line :: pieces, final, ?_, ?_, most, ?_⟩
            · simp only [upTo, Event.accepts, Bool.false_eq_true, if_false, List.map_cons,
                List.cons_append, ← calls]
              rfl
            · have here : totalSize (line :: pieces) = line.length + totalSize pieces := rfl
              omega
            · intro ends
              apply least
              simp only [upTo, Event.accepts, Bool.false_eq_true, if_false, List.any_cons,
                Bool.false_or, mailSize_line line _ other] at ends
              rcases ends with ended | large
              · exact Or.inl ended
              · refine Or.inr ?_
                rw [mailSize_data] at large
                omega
          | last =>
            cases follows with
            | done => cases settled
            | step admits _ =>
              cases admits with
              | accepted completion =>
                exact ⟨[], [([], true)], rfl, small, Or.inr ⟨[], rfl⟩, fun _ => by simp⟩
          | large =>
            -- behind the call at the limit there is nothing but stops
            have silent := dataCalls_stops _ follows.overrun.2
            refine ⟨[], [(line, true)], ?_, small, Or.inr ⟨line, rfl⟩, fun _ => by simp⟩
            simp only [upTo, Event.accepts, Bool.false_eq_true, if_false]
            exact congrArg ((line, true) :: ·) silent

/-! ### A schedule follows the automaton -/

/-- The mode of a connection between two steps. -/
def Fits : Mode → Running → Prop
  | .idle, r => r.socket.state ≠ .data
  | .mail size, r => r.socket.state = .data ∧ r.socket.emailSize = size ∧ size ≤ maxIndataSize ∧
      r.socket.toHandlers.takesData = true
  | .overrun, r => r.socket.stop = true ∧ r.looping = false
  | _, _ => False

def Kept (r : Running) : Prop := ∃ mode, AdmitsLog .idle r.log mode ∧ Fits mode r

theorem Fits.settled {mode : Mode} {r : Running} (fits : Fits mode r) : mode.settled = true := by
  cases mode <;> first | rfl | exact absurd fits id

private theorem dataCallback_takes (s : Session) (payload : Bytes) (done : Bool)
    (takes : s.toHandlers.takesData = true) : dataCallback s payload done = [.data payload done] :=
  if_pos takes

private theorem smtpCallback_off (s : Session) (c : Command) (arg : Bytes) :
    ∀ e ∈ smtpCallback s c arg, e.offPhase = true := by
  intro e member
  unfold smtpCallback at member
  split at member
  · rw [List.mem_singleton.mp member]
    rfl
  · cases member

private theorem asides_off (events : List Event) (asides : ∀ e ∈ events, e.aside = true) :
    ∀ e ∈ events, e.offPhase = true := by
  intro e member
  have aside := asides e member
  cases e <;> first | rfl | cases aside

/-- A line read as a command: after DATA, and only then, a DATA phase begins. -/
private theorem follows_command {s : Session} {c : Command} {result : Session × List Event}
    (line : Bytes) (arg : Bytes) (answered : Answered { s with state := c } c result) :
    (c = .data ∧ result.1.emailSize = 0 ∧ result.1.state = .data ∧
        (∃ e ∈ result.2, e.opensMail = true) ∧
        AdmitsLog .idle (.line line :: (smtpCallback s c arg ++ result.2)) (.mail 0)) ∨
      (c ≠ .data ∧ result.1.state ≠ .data ∧
        AdmitsLog .idle (.line line :: (smtpCallback s c arg ++ result.2)) .idle) := by
  obtain ⟨before, reply, completion, after, crypto, sent, rfl, answers, same, asides⟩ := answered
  have early : ∀ e ∈ Event.line line :: (smtpCallback s c arg ++ before), e.offPhase = true := by
    intro e member
    rcases List.mem_cons.mp member with rfl | member
    · rfl
    · rcases List.mem_append.mp member with smtp | aside
      · exact smtpCallback_off s c arg e smtp
      · exact asides_off before (fun e member => asides e (List.mem_append_left _ member)) e aside
  have late := asides_off after fun e member => asides e (List.mem_append_right _ member)
  have split : Event.line line :: (smtpCallback s c arg ++
      (before ++ .reply reply completion :: after)) =
      (Event.line line :: (smtpCallback s c arg ++ before)) ++
        (.reply reply completion :: after) := by
    simp
  -- only an answered DATA opens a mail
  by_cases data : c = .data
  · subst data
    obtain ⟨-, rfl⟩ := same (by decide)
    cases answers
    refine Or.inl ⟨rfl, rfl, rfl, ⟨.reply .enterMail completion, by simp, rfl⟩, ?_⟩
    rw [split]
    exact (AdmitsLog.quiet _ early).append (.step (.opens completion) (.done _))
  · refine Or.inr ⟨data, data, ?_⟩
    have off : (Event.reply reply completion).offPhase = true := by
      cases answers <;> first | rfl | exact absurd rfl data
    rw [split]
    apply (AdmitsLog.quiet _ early).append
    exact .step (.quiet _ off) (AdmitsLog.quiet _ late)

theorem kept_took (env : Env) (r : Running) (line rest : Bytes) (present : r.next = some (line, rest))
    (kept : Kept r) (prepared : r.socket.toHandlers.takesData = true ∨
      (r.took env rest (handleLine env r.socket.toSession line)).log.any Event.opensMail = false) :
    Kept (r.took env rest (handleLine env r.socket.toSession line)) := by
  obtain ⟨mode, follows, fits⟩ := kept
  have handled := handleLine_handled env r.socket.toSession line
  have handlers := handled.handlers
  have looping : r.looping = true := by
    by_contra idle
    simp [Running.next, idle] at present
  generalize handleLine env r.socket.toSession line = after at handled handlers prepared ⊢
  cases mode with
  | taken => exact absurd fits id
  | ended => exact absurd fits id
  | overrun =>
    -- the loop was left at the limit
    rw [fits.2] at looping
    cases looping
  | idle =>
    have command : r.socket.state ≠ .data := fits
    cases handled with
    | ended _ _ mail _ => exact absurd mail command
    | overrun mail _ _ => exact absurd mail command
    | mail mail _ _ => exact absurd mail command
    | wordless _ _ => exact ⟨.idle, follows.append (.step (.quiet _ rfl) (.done _)), command⟩
    | command c result _ _ _ answered =>
      rcases follows_command line (argument line) answered with ⟨rfl, size, state, opens, goesOn⟩ |
        ⟨-, state, goesOn⟩
      · refine ⟨.mail 0, follows.append goesOn, state, size, Nat.zero_le _, ?_⟩
        rcases prepared with takes | missing
        · show result.1.toHandlers.takesData = true
          rw [show result.1.toHandlers = r.socket.toHandlers from handlers, takes]
        · obtain ⟨e, member, opening⟩ := opens
          have here : (r.took env rest ⟨result.1, .line line ::
              (smtpCallback r.socket.toSession .data (argument line) ++ result.2), false⟩).log.any
                Event.opensMail = true := by
            apply List.any_eq_true.mpr
            exact ⟨e, by simp [Running.took, Running.logs, member], opening⟩
          rw [here] at missing
          cases missing
      · exact ⟨.idle, follows.append goesOn, state⟩
  | mail size =>
    obtain ⟨mail, counted, small, takes⟩ := fits
    cases handled with
    | ended completion sent _ last =>
      subst last
      refine ⟨.idle, follows.append ?_, by show Command.none ≠ .data; decide⟩
      rw [dataCallback_takes _ _ _ takes]
      exact .step (.line _ _) (.step (.last _) (.step (.accepted _) (.done _)))
    | overrun _ other large =>
      refine ⟨.overrun, follows.append ?_, rfl, rfl⟩
      rw [dataCallback_takes _ _ _ takes]
      have large' : maxIndataSize < size + line.length := counted ▸ large
      exact .step (.line _ _) (.step (.large _ _ other large') (.step .hushed (.done _)))
    | mail _ other small' =>
      have small'' : size + line.length ≤ maxIndataSize := counted ▸ small'
      refine ⟨.mail (size + line.length), follows.append ?_, mail, ?_, small'', takes⟩
      · rw [dataCallback_takes _ _ _ takes]
        exact .step (.line _ _) (.step (.piece _ _ other small'') (.done _))
      · simp [Running.took, Running.logs, counted]
    | wordless command _ => exact absurd mail command
    | command _ _ command _ _ _ => exact absurd mail command

/-- A stop changes no mode between two lines. -/
theorem AdmitsLog.stops {mode : Mode} (log : List Event) (settled : mode.settled = true)
    (stops : ∀ e ∈ log, e = .stop) : AdmitsLog mode log mode := by
  have admits : mode.Admits .stop mode := by
    cases mode with
    | idle => exact .quiet _ rfl
    | mail size => exact .stop size
    | overrun => exact .hushed
    | _ => cases settled
  induction log with
  | nil => exact .done _
  | cons e log ih =>
    obtain rfl := stops e (List.mem_cons_self ..)
    exact .step admits (ih fun e member => stops e (List.mem_cons_of_mem _ member))

theorem Received.mail {s : Socket} {arrival : Arrival} {next : Socket} {log : List Event}
    {goesOn : Bool} (received : Received s arrival (next, log, goesOn)) :
    next.emailSize = s.emailSize ∧ next.toHandlers = s.toHandlers :=
  ⟨received.kept Session.emailSize (fun _ => rfl) fun _ => rfl,
    received.kept Session.toHandlers (fun _ => rfl) fun _ => rfl⟩

/-- A step keeps the log on the automaton, if a DATA command finds the data handler installed,
and no installation takes it away from a DATA phase. -/
private theorem kept_step (env : Env) (r : Running) (label : SocketStep) (kept : Kept r)
    (prepared : r.socket.toHandlers.takesData = true ∨
      (r.step env label).log.any Event.opensMail = false)
    (installs : ∀ h, label = .install h →
      h.takesData = true ∨ r.log.any Event.opensMail = false) : Kept (r.step env label) := by
  have moves := step_moves env r label
  generalize r.step env label = after at moves prepared ⊢
  cases moves with
  | ignored => exact kept
  | received arrival next log goesOn _ running received =>
    obtain ⟨mode, follows, fits⟩ := kept
    obtain ⟨state, stops⟩ := received.quiet
    obtain ⟨size, handlers⟩ := received.mail
    refine ⟨mode, follows.append (.stops log fits.settled stops), ?_⟩
    cases mode with
    | idle => exact (state ▸ fits : next.state ≠ .data)
    | mail n =>
      obtain ⟨mail, counted, small, takes⟩ := fits
      exact ⟨state.trans mail, size.trans counted, small, by rw [← takes, ← handlers]; rfl⟩
    | overrun =>
      rw [fits.1] at running
      cases running
    | _ => exact absurd fits id
  | rested =>
    obtain ⟨mode, follows, fits⟩ := kept
    refine ⟨mode, follows, ?_⟩
    cases mode with
    | overrun => exact ⟨fits.1, rfl⟩
    | _ => exact fits
  | took line rest present => exact kept_took env r line rest present kept prepared
  | completed k error writes =>
    obtain ⟨mode, follows, fits⟩ := kept
    refine ⟨mode, follows, ?_⟩
    cases mode <;> exact fits
  | stopped _ writes =>
    obtain ⟨mode, follows, fits⟩ := kept
    refine ⟨mode, follows.append (.stops [.stop] fits.settled (by simp)), ?_⟩
    cases mode with
    | overrun => exact ⟨rfl, fits.2⟩
    | _ => exact fits
  | installed handlers =>
    obtain ⟨mode, follows, fits⟩ := kept
    refine ⟨mode, follows, ?_⟩
    cases mode with
    | mail n =>
      obtain ⟨mail, counted, small, -⟩ := fits
      refine ⟨mail, counted, small, ?_⟩
      rcases installs handlers rfl with takes | missing
      · exact takes
      · -- a DATA phase is going on, so its reply is in the log
        obtain ⟨earlier, completion, phase, split, -⟩ := follows.inPhase rfl
        rw [split] at missing
        simp [Event.opensMail] at missing
    | _ => exact fits

private theorem step_log (env : Env) (r : Running) (label : SocketStep) :
    ∃ more, (r.step env label).log = r.log ++ more := by
  have moves := step_moves env r label
  generalize r.step env label = after at moves ⊢
  cases moves <;> first | exact ⟨_, rfl⟩ | exact ⟨[], (List.append_nil _).symm⟩

private theorem run_log (env : Env) (r : Running) (labels : List SocketStep) :
    ∃ more, (run (Running.step env) r labels).log = r.log ++ more := by
  induction labels generalizing r with
  | nil => exact ⟨[], (List.append_nil _).symm⟩
  | cons label labels ih =>
    obtain ⟨here, one⟩ := step_log env r label
    obtain ⟨later, rest⟩ := ih (r.step env label)
    refine ⟨here ++ later, ?_⟩
    rw [run, List.foldl_cons]
    exact rest.trans (by rw [one, List.append_assoc])

/-- As long as no DATA is answered, any handlers will do. -/
private theorem kept_early (env : Env) (r : Running) (labels : List SocketStep) (kept : Kept r)
    (early : (run (Running.step env) r labels).log.any Event.opensMail = false) :
    Kept (run (Running.step env) r labels) := by
  induction labels generalizing r with
  | nil => exact kept
  | cons label labels ih =>
    obtain ⟨here, one⟩ := step_log env r label
    obtain ⟨later, rest⟩ := run_log env (r.step env label) labels
    have early' : (run (Running.step env) (r.step env label) labels).log.any Event.opensMail =
        false := early
    rw [rest, one, List.any_append, List.any_append, Bool.or_eq_false_iff,
      Bool.or_eq_false_iff] at early'
    apply ih _ _ early
    apply kept_step env r label kept
    · exact Or.inr (by rw [one, List.any_append, early'.1.1, early'.1.2]; rfl)
    · exact fun _ _ => Or.inr early'.1.1

private theorem step_takes (env : Env) (r : Running) (label : SocketStep)
    (takes : r.socket.toHandlers.takesData = true)
    (installs : ∀ h, label = .install h → h.takesData = true) :
    (r.step env label).socket.toHandlers.takesData = true := by
  have moves := step_moves env r label
  generalize r.step env label = after at moves ⊢
  cases moves with
  | received _ next _ _ _ _ received =>
    rw [← takes, ← received.mail.2]
    rfl
  | took line rest _ =>
    rw [← takes, ← (handleLine_handled env r.socket.toSession line).handlers]
    rfl
  | installed h => exact installs h rfl
  | _ => exact takes

private theorem kept_installed (env : Env) (r : Running) (labels : List SocketStep) (kept : Kept r)
    (takes : r.socket.toHandlers.takesData = true)
    (installs : ∀ h, .install h ∈ labels → h.takesData = true) :
    Kept (run (Running.step env) r labels) := by
  induction labels generalizing r with
  | nil => exact kept
  | cons label labels ih =>
    have here : ∀ h, label = .install h → h.takesData = true := by
      rintro h rfl
      exact installs h (List.mem_cons_self ..)
    exact ih _ (kept_step env r label kept (Or.inl takes) fun h same => Or.inl (here h same))
      (step_takes env r label takes here) fun h member => installs h (List.mem_cons_of_mem _ member)

/-- What the automaton says of a log is what is asked of its data calls. -/
private theorem Kept.consistent {r : Running} (kept : Kept r) : Consistent r := by
  obtain ⟨mode, follows, fits⟩ := kept
  refine ⟨?_, ?_, ?_⟩
  · intro before payload done later split
    rw [split] at follows
    obtain ⟨mid, first, second⟩ := follows.split
    apply first.inPhase
    -- a data call comes behind a line of the mail only
    cases second with
    | step admits _ =>
      cases admits with
      | quiet _ off => cases off
      | _ => rfl
  · intro before completion later split
    rw [split] at follows
    obtain ⟨mid, -, second⟩ := follows.split
    cases second with
    | step admits rest =>
      cases admits with
      | quiet _ off => cases off
      | opens =>
        obtain ⟨pieces, final, calls, within, most, least⟩ :=
          rest.phaseCalls fits.settled (Nat.zero_le _)
        simp only [Nat.zero_add] at within least
        exact ⟨pieces, final, calls, within, most, least⟩
  · intro before payload later split filled
    rw [split] at follows
    obtain ⟨mid, -, second⟩ := follows.split
    cases second with
    | step admits rest =>
      cases admits with
      | quiet _ off => cases off
      | last => exact absurd rfl filled
      | large =>
        obtain ⟨rfl, stops⟩ := rest.overrun
        exact ⟨fits.1, fun e member => by rw [stops e member]; rfl⟩

/-- In every session whose data handler is installed before the first DATA is answered, and is
not taken away, the data calls are consistent with the limit and with each other. -/
theorem consistent_installed (env : Env) (socketfd : Int) (now : UInt64) (record : Bool)
    (handlers installed : Handlers) (before after : List SocketStep)
    (takes : installed.takesData = true)
    (early : (run (Running.step env) (Running.accepted socketfd now record handlers)
      before).log.any Event.opensMail = false)
    (stays : ∀ h, .install h ∈ after → h.takesData = true) :
    Consistent (run (Running.step env) (Running.accepted socketfd now record handlers)
      (before ++ .install installed :: after)) := by
  have start : Kept (Running.accepted socketfd now record handlers) := by
    refine ⟨.idle, ?_, nofun⟩
    exact .step (.quiet _ rfl) (.done _)
  have first := kept_early env _ before start early
  have second := kept_step env _ (.install installed) first
    (Or.inr early) (fun h same => Or.inl (by cases same; exact takes))
  have third := kept_installed env _ after second takes stays
  rw [run, List.foldl_append]
  exact third.consistent

/-- A mail with one line, for which the data handler is installed just before DATA. -/
theorem consistent_small :
    Consistent (run (Running.step Env.granted) (Running.accepted 3 0 false noHandlers)
      ([.read (plainRead (ascii "NOOP\r\nDATA\r\na\r\n.\r\n")), .line] ++
        .install ⟨false, 0, none, true, true⟩ :: [.line, .line, .line, .line])) :=
  consistent_installed _ _ _ _ _ _ _ _ rfl (by decide) (by simp)

end Spamass.Emailz
