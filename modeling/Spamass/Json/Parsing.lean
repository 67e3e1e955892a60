import Spamass.Json.Document
import Spamass.Json.Restart

/-!
# Parsing

The loop of `parse:` is a machine over the scanner of tokens, so that it does not see how
its input is cut. A document is read exactly from its tokens, with white space or the
beginning of a token behind it, and no input whatsoever makes the parser raise.
-/
namespace Spamass.Json

open Spamass.App Spamass.Emailz Spamass.Scanning

/-! ### The loop as a machine -/

/-- A token or an error is taken by a parser that did not raise. -/
def takeStep (m : Option StreamParser) (t : Except TokenError Token) : Option StreamParser :=
  m.bind fun p =>
    match t with
    | .error e => some (p.tokenError e)
    | .ok token => p.take token

def isHalted : Option StreamParser → Bool
  | none => true
  | some p => p.state.isError

def outcome (m : Option StreamParser × Bytes) : Option ((StreamParser × Bytes) × Status) :=
  m.1.map fun p => ((p, m.2), p.state.parserShouldReturn)

private theorem isError_iff (state : State) : state.isError = true ↔ state = .error := by
  cases state <;> decide

private theorem parseLoop_drain (fuel : Nat) (p : StreamParser) (stream : Bytes)
    (enough : stream.length < fuel) :
    parseLoop fuel p stream = outcome (drain tokenScanner takeStep isHalted (some p) stream) := by
  induction fuel generalizing p stream with
  | zero => exact absurd enough (Nat.not_lt_zero _)
  | succ fuel ih =>
    cases halts : p.state.isError with
    | true =>
      rw [parseLoop, if_pos halts, drain_halted tokenScanner takeStep isHalted (s := some p) halts,
        outcome, Option.map_some, (isError_iff _).mp halts]
      rfl
    | false =>
      rw [parseLoop, if_neg (by simp [halts])]
      cases token : getToken stream with
      | eof =>
        have next : tokenScanner.next stream = none := congrArg Scan.attempt token
        rw [drain_none tokenScanner takeStep isHalted (s := some p) halts next]
        rfl
      | error e rest =>
        have next : tokenScanner.next stream = some (.error e, rest) := congrArg Scan.attempt token
        rw [drain_stop tokenScanner takeStep isHalted (s := some p) halts next rfl]
        rfl
      | found x rest =>
        have next : tokenScanner.next stream = some (.ok x, rest) := congrArg Scan.attempt token
        have shorter := getToken_leaves token
        rw [drain_some tokenScanner takeStep isHalted (s := some p) halts next rfl]
        have step : takeStep (some p) (.ok x) = p.take x := rfl
        rw [step, StreamParser.take]
        dsimp only
        cases accepted : p.state.shouldAcceptToken x with
        | false =>
          have stop : isHalted (some (p.handleTokenNotExpectedHere x)) = true := rfl
          exact congrArg outcome (drain_halted tokenScanner takeStep isHalted stop rest).symm
        | true =>
          simp only [Bool.not_true, Bool.false_eq_true, if_false, if_true]
          cases handled : p.handle x with
          | none =>
            have stop : isHalted none = true := rfl
            exact congrArg outcome (drain_halted tokenScanner takeStep isHalted stop rest).symm
          | some next => exact ih next rest (by omega)

/-- `parse:` feeds the machine. -/
private theorem parse_feed (m : StreamParser × Bytes) (data : Bytes) :
    parse m data = outcome (feed tokenScanner takeStep isHalted (some m.1, m.2) data) :=
  parseLoop_drain _ _ _ (Nat.lt_succ_self _)

/-! ### Chunks -/

/-- A parser without the text of its error. -/
def StreamParser.quiet (p : StreamParser) : StreamParser := { p with error := none }

private theorem handle_quiet (p : StreamParser) (token : Token) :
    (p.quiet.handle token).map StreamParser.quiet = (p.handle token).map StreamParser.quiet := by
  have values : ∀ v, (p.quiet.handleValue token v).map StreamParser.quiet =
      (p.handleValue token v).map StreamParser.quiet := by
    intro v
    simp only [StreamParser.handleValue, StreamParser.quiet, Option.map_map]
    rfl
  have ends : ∀ found, (p.quiet.handleEnd token found).map StreamParser.quiet =
      (p.handleEnd token found).map StreamParser.quiet := by
    intro found
    simp only [StreamParser.handleEnd, StreamParser.quiet]
    split
    · rfl
    · simp only [Option.map_map]
      rfl
  cases token with
  | objectStart =>
    by_cases deep : p.maxDepth ≤ p.stateStack.length <;>
      simp [StreamParser.handle, StreamParser.handleObjectStart, StreamParser.quiet,
        StreamParser.maxDepthError, deep]
  | arrayStart =>
    by_cases deep : p.maxDepth ≤ p.stateStack.length <;>
      simp [StreamParser.handle, StreamParser.handleArrayStart, StreamParser.quiet,
        StreamParser.maxDepthError, deep]
  | objectEnd => exact ends _
  | arrayEnd => exact ends _
  | separator => rfl
  | keyvalSeparator => rfl
  | true_ => exact values _
  | false_ => exact values _
  | null => exact values _
  | number n => exact values _
  | string text =>
    have value := values (.string text)
    have same : p.quiet.state.needKey = p.state.needKey := rfl
    rw [StreamParser.handle, StreamParser.handle, same]
    cases p.state.needKey with
    | true => rfl
    | false => exact value

private theorem take_quiet (p : StreamParser) (token : Token) :
    (p.quiet.take token).map StreamParser.quiet = (p.take token).map StreamParser.quiet := by
  have handled := handle_quiet p token
  have same : p.quiet.state.shouldAcceptToken token = p.state.shouldAcceptToken token := rfl
  rw [StreamParser.take, StreamParser.take, same]
  cases p.state.shouldAcceptToken token with
  | true => exact handled
  | false => rfl

private theorem machine_respects :
    Respects tokenScanner takeStep isHalted (Option.map StreamParser.quiet) where
  stops s t stops := by
    cases t with
    | ok token => cases stops
    | error e => cases s <;> rfl
  halted {s s'} same := by
    cases s <;> cases s' <;> first | rfl | cases same | skip
    next p p' =>
      have both : some p.quiet = some p'.quiet := same
      have halts := congrArg (fun q : StreamParser => q.state.isError) (Option.some.inj both)
      exact halts
  step {s s' t t'} same alike := by
    cases s <;> cases s' <;> first | rfl | cases same | skip
    next p p' =>
      have both : some p.quiet = some p'.quiet := same
      have quiet := Option.some.inj both
      cases t with
      | error e =>
        cases t' with
        | error e' =>
          have left := congrArg (fun q : StreamParser => some { q with state := .error }) quiet
          exact left
        | ok token => cases alike
      | ok token =>
        cases t' with
        | error e => cases alike
        | ok token' =>
          obtain rfl : token = token' := Option.some.inj alike
          show (p.take token).map _ = (p'.take token).map _
          rw [← take_quiet p token, quiet, take_quiet p' token]

/-- Calls of `parse:` one after another, each with the next chunk; the result of the last. -/
def parses : StreamParser × Bytes → Bytes → List Bytes →
    Option ((StreamParser × Bytes) × Status)
  | m, data, [] => parse m data
  | m, data, next :: chunks => (parse m data).bind fun result => parses result.1 next chunks

private theorem feed_raised (data stream : Bytes) :
    feed tokenScanner takeStep isHalted (none, stream) data = (none, stream ++ data) :=
  drain_halted tokenScanner takeStep isHalted (s := none) rfl _

private theorem feeds_raised (stream : Bytes) (chunks : List Bytes) :
    (chunks.foldl (feed tokenScanner takeStep isHalted) (none, stream)).1 = none := by
  induction chunks generalizing stream with
  | nil => rfl
  | cons chunk chunks ih =>
    rw [List.foldl_cons, feed_raised]
    exact ih _

private theorem parses_feed (m : StreamParser × Bytes) (data : Bytes) (chunks : List Bytes) :
    parses m data chunks = outcome (chunks.foldl (feed tokenScanner takeStep isHalted)
      (feed tokenScanner takeStep isHalted (some m.1, m.2) data)) := by
  induction chunks generalizing m data with
  | nil => exact parse_feed m data
  | cons next chunks ih =>
    rw [parses, parse_feed, List.foldl_cons]
    obtain ⟨state, stream⟩ := feed tokenScanner takeStep isHalted (some m.1, m.2) data
    cases state with
    | none =>
      rw [feed_raised, outcome, outcome, feeds_raised]
      rfl
    | some q => exact ih (q, stream) next

/-- The parser and its stream, and the status, without the text of an error. -/
def quietly (result : (StreamParser × Bytes) × Status) : (StreamParser × Bytes) × Status :=
  ((result.1.1.quiet, result.1.2), result.2)

private theorem outcome_alike {m m' : Option StreamParser × Bytes}
    (alike : Alike (Option.map StreamParser.quiet) m m') :
    (outcome m).map quietly = (outcome m').map quietly := by
  obtain ⟨state, stream⟩ := m
  obtain ⟨state', stream'⟩ := m'
  obtain ⟨same, rfl⟩ := alike
  have agree := congrArg (Option.map fun p : StreamParser =>
    ((p, stream), p.state.parserShouldReturn)) same
  rw [Option.map_map, Option.map_map] at agree
  rw [outcome, outcome, Option.map_map, Option.map_map]
  exact agree

private theorem reading_parseLoop (fuel : Nat) {p : StreamParser} {tokens : List Token}
    (reading : Reading p tokens) (stream : Bytes) :
    ∃ result more, parseLoop fuel p stream = some result ∧ Reading result.1.1 more := by
  induction fuel generalizing p tokens stream with
  | zero => exact ⟨_, tokens, rfl, reading⟩
  | succ fuel ih =>
    rw [parseLoop]
    split
    · exact ⟨_, tokens, rfl, reading⟩
    next running =>
      split
      · exact ⟨_, tokens, rfl, reading⟩
      · exact ⟨_, [], rfl, .failed rfl⟩
      next token rest _ =>
        split
        · exact ⟨_, [], rfl, .failed rfl⟩
        next accepted =>
          obtain ⟨q, taken, -, next⟩ := reading_take reading (by simpa using running) token
          rw [StreamParser.take, if_pos (by simpa using accepted)] at taken
          rw [taken]
          exact ih next rest

private theorem reading_parses {m : StreamParser × Bytes} {tokens : List Token}
    (reading : Reading m.1 tokens) (data : Bytes) (chunks : List Bytes) :
    ∃ result, parses m data chunks = some result := by
  induction chunks generalizing m tokens data with
  | nil =>
    obtain ⟨result, -, present, -⟩ := reading_parseLoop _ reading (m.2 ++ data)
    exact ⟨result, present⟩
  | cons next chunks ih =>
    obtain ⟨result, more, present, later⟩ := reading_parseLoop ((m.2 ++ data).length + 1) reading
      (m.2 ++ data)
    rw [parses, parse, present, Option.bind_some]
    exact ih later next

/-- The parser raises on no input, and it does not matter how the input is cut into chunks:
the last call returns the same status and leaves the same states, the same value and the same
stream. Only the text of an error may differ. -/
theorem parses_chunks (maxDepth : Nat) (data : Bytes) (chunks : List Bytes) :
    ∃ split whole, parses (.init maxDepth, []) data chunks = some split ∧
      parse (.init maxDepth, []) (data ++ chunks.flatten) = some whole ∧
      split.2 = whole.2 ∧ split.1.2 = whole.1.2 ∧ split.1.1.quiet = whole.1.1.quiet := by
  have start := reading_init maxDepth
  obtain ⟨split, ended⟩ := reading_parses (m := (.init maxDepth, [])) start data chunks
  obtain ⟨whole, once⟩ := reading_parses (m := (.init maxDepth, [])) start (data ++ chunks.flatten) []
  rw [parses] at once
  have alike := outcome_alike (feed_chunks tokenScanner takeStep isHalted machine_respects
    (some (.init maxDepth), []) data chunks)
  have left := parses_feed (.init maxDepth, []) data chunks
  have right := parse_feed (.init maxDepth, []) (data ++ chunks.flatten)
  rw [← left, ← right, ended, once, Option.map_some, Option.map_some] at alike
  have same := Option.some.inj alike
  have status := congrArg (fun result => result.2) same
  have stream := congrArg (fun result => result.1.2) same
  have states := congrArg (fun result => result.1.1) same
  exact ⟨split, whole, ended, once, status, stream, states⟩

/-! ### Documents -/

/-- The tokens of the data, and what is left where no more whole token follows. -/
inductive Scans : Bytes → List Token → Bytes → Prop
  | eof {s : Bytes} (ended : getToken s = .eof) : Scans s [] (skipWhitespace s)
  | token {s rest left : Bytes} {token : Token} {tokens : List Token}
      (found : getToken s = .found token rest) (later : Scans rest tokens left) :
      Scans s (token :: tokens) left

theorem parseLoop_scanned {s left : Bytes} {tokens : List Token} (scans : Scans s tokens left)
    (fuel : Nat) {p q : StreamParser} (enough : s.length < fuel)
    (taken : p.takeAll tokens = some q) (running : q.state.isError = false) :
    parseLoop fuel p s = some ((q, left), q.state.parserShouldReturn) := by
  induction scans generalizing fuel p with
  | eof ended =>
    obtain rfl := Option.some.inj taken
    obtain ⟨fuel, rfl⟩ : ∃ n, fuel = n + 1 := ⟨fuel - 1, by omega⟩
    rw [parseLoop, if_neg (by simp [running]), ended]
  | @token s rest left token tokens found later ih =>
    obtain ⟨fuel, rfl⟩ : ∃ n, fuel = n + 1 := ⟨fuel - 1, by omega⟩
    have shorter := getToken_leaves found
    cases before : p.state.isError with
    | true =>
      rw [takeAll_error before] at taken
      obtain rfl := Option.some.inj taken
      exact absurd (running.symm.trans before) Bool.false_ne_true
    | false =>
      rw [StreamParser.takeAll, if_neg (by simp [before]), StreamParser.take] at taken
      rw [parseLoop, if_neg (by simp [before]), found]
      dsimp only
      cases accepted : p.state.shouldAcceptToken token with
      | false =>
        -- an error would be left behind
        rw [accepted, if_neg Bool.false_ne_true, Option.bind_some, takeAll_error rfl] at taken
        obtain rfl := Option.some.inj taken
        cases running
      | true =>
        rw [accepted, if_pos rfl] at taken
        rw [Bool.not_true, if_neg Bool.false_ne_true]
        cases handled : p.handle token with
        | none =>
          rw [handled] at taken
          cases taken
        | some next =>
          rw [handled, Option.bind_some] at taken
          exact ih fuel (by omega) taken

private theorem parseLoop_scans (fuel : Nat) {p q : StreamParser} {s left : Bytes} {status : Status}
    (enough : s.length < fuel) (ended : parseLoop fuel p s = some ((q, left), status))
    (fine : status ≠ .error) :
    ∃ tokens, Scans s tokens left ∧ p.takeAll tokens = some q ∧
      status = q.state.parserShouldReturn := by
  induction fuel generalizing p s with
  | zero => exact absurd enough (Nat.not_lt_zero _)
  | succ fuel ih =>
    rw [parseLoop] at ended
    split at ended
    · obtain ⟨-, rfl⟩ := Prod.mk.inj (Option.some.inj ended)
      exact absurd rfl fine
    next running =>
      split at ended
      next missing =>
        obtain ⟨⟨rfl, rfl⟩, rfl⟩ := ended
        exact ⟨[], .eof missing, rfl, rfl⟩
      · obtain ⟨-, rfl⟩ := Prod.mk.inj (Option.some.inj ended)
        exact absurd rfl fine
      next token rest found =>
        have shorter := getToken_leaves found
        split at ended
        · obtain ⟨-, rfl⟩ := Prod.mk.inj (Option.some.inj ended)
          exact absurd rfl fine
        next accepted =>
          split at ended
          · cases ended
          next next handled =>
            obtain ⟨tokens, scans, taken, same⟩ := ih (by omega) ended
            refine ⟨token :: tokens, .token found scans, ?_, same⟩
            rw [takeAll_cons tokens (by simpa using running) (by simpa using accepted) handled]
            exact taken

/-- The tokens of an array or a dictionary that is not nested too deeply are read. -/
theorem objectWithData_scanned {maxDepth : Nat} {data left : Bytes} {v : Value}
    (container : v.isContainer = true) (room : v.depth ≤ maxDepth)
    (scans : Scans data v.tokens left) :
    objectWithData maxDepth data = some (.ok (some v.collected)) := by
  have whole := takeAll_value v (.init maxDepth) { Adapter.init with value := some v.collected }
    container room rfl
  have parsed := parseLoop_scanned scans (([] ++ data).length + 1) (Nat.lt_succ_self _) whole rfl
  rw [objectWithData, parse]
  dsimp only
  rw [List.nil_append] at parsed ⊢
  rw [parsed]
  rfl

/-- `objectWithData:` has an object for exactly the data that are the tokens of an array or a
dictionary, nested at most `maxDepth` deep, with white space or the beginning of a token behind
it; the object is the one they spell, with the last of the members that share a key. -/
theorem objectWithData_iff (maxDepth : Nat) (data : Bytes) :
    ∃ answer, objectWithData maxDepth data = some answer ∧
      ∀ object, answer = .ok object ↔
        ∃ (v : Value) (left : Bytes), v.isContainer = true ∧ v.depth ≤ maxDepth ∧
          Scans data v.tokens left ∧ object = some v.collected := by
  obtain ⟨result, -, ended, -⟩ := reading_parseLoop (([] ++ data).length + 1)
    (reading_init maxDepth) ([] ++ data)
  obtain ⟨⟨q, left⟩, status⟩ := result
  refine ⟨_, by rw [objectWithData, parse, ended]; rfl, ?_⟩
  intro object
  have enough : data.length < ([] ++ data).length + 1 := Nat.lt_succ_self _
  constructor
  · intro answer
    cases status with
    | waitingForData => cases answer
    | error => cases answer
    | complete =>
      have value : q.adapter.value = object := Except.ok.inj answer
      obtain ⟨tokens, scans, taken, same⟩ := parseLoop_scans _ enough ended (by decide)
      have state : q.state = .complete := by
        cases state : q.state <;> rw [state] at same <;> first | rfl | cases same
      obtain ⟨v, container, room, rfl, collected⟩ :=
        (takeAll_complete_iff maxDepth tokens q taken).mp state
      exact ⟨v, left, container, room, scans, value.symm.trans collected⟩
  · rintro ⟨v, left', container, room, scans, rfl⟩
    have parsed := objectWithData_scanned container room scans
    rw [objectWithData, parse, ended] at parsed
    exact Option.some.inj parsed

end Spamass.Json
