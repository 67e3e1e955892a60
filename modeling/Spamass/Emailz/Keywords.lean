import Spamass.Emailz.CommandLine
import Spamass.Emailz.HandleRead

/-!
# Keywords

The command word is upper-cased in one place, compared by prefix in another, and AUTH
looks at the line once more, as it was sent. This module says which lines are handled
like the line without leading spaces and with its keywords in upper case.
-/
namespace Spamass.Emailz

/-! ### Words and handling -/

def keywords : List (Command × Bytes) :=
  [(.helo, ascii "HELO"), (.ehlo, ascii "EHLO"), (.mail, ascii "MAIL"), (.rcpt, ascii "RCPT"),
    (.data, ascii "DATA"), (.quit, ascii "QUIT"), (.rset, ascii "RSET"), (.noop, ascii "NOOP"),
    (.help, ascii "HELP"), (.vrfy, ascii "VRFY"), (.auth, ascii "AUTH"),
    (.starttls, ascii "STARTTLS")]

/-- The letters behind the leading spaces. -/
def commandWord (line : Bytes) : Bytes := (line.dropWhile (· == space)).takeWhile isLetter

def behindWord (line : Bytes) : Bytes := (line.dropWhile (· == space)).dropWhile isLetter

/-- PLAIN behind AUTH in upper case. -/
def plainTail (word rest : Bytes) : Bytes :=
  if word = ascii "AUTH" ∧ (rest.take 7).map toupper = ascii " PLAIN " then
    ascii " PLAIN " ++ rest.drop 7
  else rest

/-- The line without leading spaces and with its keywords in upper case: what all its variants in
spaces and in the case of the keywords have in common. -/
def canonical (line : Bytes) : Bytes :=
  (commandWord line).map toupper ++ plainTail ((commandWord line).map toupper) (behindWord line)

/-- How a line is handled outside of a data segment: the command, the call of the smtp handler,
and whether AUTH recognises the PLAIN mechanism. -/
structure Handling where
  command : Option Command
  handed : List Event
  plain : Option Bool
  deriving DecidableEq, Repr

def handling (s : Session) (line : Bytes) : Handling where
  command := lineCommand line
  handed :=
    match lineCommand line with
    | none => []
    | some command => smtpCallback s command (argument line)
  plain :=
    if lineCommand line = some .auth ∧ s.isSecure = true then
      some (startsWith line (ascii "AUTH PLAIN "))
    else none

/-- The smtp handler is called for the command. -/
def Session.calls (s : Session) (command : Command) : Prop :=
  (s.smtpHandler && s.handlerQueue && (command.bit &&& s.smtpHandlerMask != 0)) = true

/-- The word is a keyword or begins with none; where the smtp handler is called the line has no
leading spaces and nothing to be put into upper case behind its word; and where PLAIN is looked
for it is there in upper case or not at all. -/
structure Exact (s : Session) (line : Bytes) : Prop where
  word : (∃ k, (k, (commandWord line).map toupper) ∈ keywords) ∨
    ∀ entry ∈ keywords, ¬entry.2 <+: (commandWord line).map toupper
  handed : ∀ k, (k, (commandWord line).map toupper) ∈ keywords → s.calls k →
    line = commandWord line ++ plainTail ((commandWord line).map toupper) (behindWord line)
  plain : s.isSecure = true → (commandWord line).map toupper = ascii "AUTH" →
    startsWith (canonical line) (ascii "AUTH PLAIN ") = true →
      startsWith line (ascii "AUTH PLAIN ") = true

/-- The handling is what the line loop does with the line. -/
theorem handleCommandLine_handling (env : Env) (s : Session) (line : Bytes) :
    handleCommandLine env s line =
      match (handling s line).command with
      | none => ⟨s, [], true⟩
      | some command =>
        ⟨(respond env { s with state := command } line command).1,
          (handling s line).handed ++ (respond env { s with state := command } line command).2,
          false⟩ := by
  simp only [handleCommandLine, handling]
  cases lineCommand line <;> rfl

/-! ### The comparison of keywords -/

/-- The chain of comparisons, entry by entry. -/
def firstKeyword (word : Bytes) : List (Command × Bytes) → Command
  | [] => .none
  | entry :: entries => if startsWith word entry.2 then entry.1 else firstKeyword word entries

theorem commandOf_firstKeyword (word : Bytes) : commandOf word = firstKeyword word keywords := rfl

theorem startsWith_iff (text keyword : Bytes) : startsWith text keyword = true ↔ keyword <+: text := by
  rw [startsWith, beq_iff_eq, List.prefix_iff_eq_take, eq_comm]

private theorem firstKeyword_cases (word : Bytes) (entries : List (Command × Bytes)) :
    (∃ entry ∈ entries, entry.2 <+: word ∧ firstKeyword word entries = entry.1) ∨
      (∀ entry ∈ entries, ¬entry.2 <+: word) ∧ firstKeyword word entries = .none := by
  induction entries with
  | nil => exact Or.inr ⟨List.forall_mem_nil _, rfl⟩
  | cons entry entries ih =>
    rw [firstKeyword]
    split
    next starts =>
      exact Or.inl ⟨entry, List.mem_cons_self .., (startsWith_iff word entry.2).mp starts, rfl⟩
    next other =>
      rw [startsWith_iff] at other
      rcases ih with ⟨later, member, starts, found⟩ | ⟨missing, found⟩
      · exact Or.inl ⟨later, List.mem_cons_of_mem _ member, starts, found⟩
      · exact Or.inr ⟨List.forall_mem_cons.mpr ⟨other, missing⟩, found⟩

/-- No keyword begins with another, and no two commands share one. -/
private theorem keywords_apart : ∀ entry ∈ keywords, ∀ entry' ∈ keywords,
    entry.2 <+: entry'.2 ∨ entry.1 = entry'.1 → entry = entry' := by
  decide +kernel

private theorem keywords_short : ∀ entry ∈ keywords,
    0 < entry.2.length ∧ entry.2.length ≤ 8 ∧ entry.1 ≠ .none := by
  decide +kernel

theorem commandOf_starts {entry : Command × Bytes} {word : Bytes} (member : entry ∈ keywords)
    (starts : entry.2 <+: word) : commandOf word = entry.1 := by
  rw [commandOf_firstKeyword]
  rcases firstKeyword_cases word keywords with ⟨other, member', starts', found⟩ | ⟨missing, -⟩
  · rw [found]
    rcases List.prefix_or_prefix_of_prefix starts starts' with shorter | longer
    · rw [keywords_apart entry member other member' (Or.inl shorter)]
    · rw [keywords_apart other member' entry member (Or.inl longer)]
  · exact absurd starts (missing entry member)

private theorem commandOf_none {word : Bytes} (missing : ∀ entry ∈ keywords, ¬entry.2 <+: word) :
    commandOf word = .none := by
  rw [commandOf_firstKeyword]
  rcases firstKeyword_cases word keywords with ⟨entry, member, starts, -⟩ | ⟨-, found⟩
  · exact absurd starts (missing entry member)
  · exact found

/-- The size of `cmnd` cuts no keyword. -/
theorem commandOf_take (word : Bytes) : commandOf (word.take (maxCmndSize - 1)) = commandOf word := by
  rcases firstKeyword_cases word keywords with ⟨entry, member, starts, -⟩ | ⟨missing, -⟩
  · rw [commandOf_starts member starts]
    apply commandOf_starts member
    have short := (keywords_short entry member).2.1
    exact List.prefix_take_iff.mpr ⟨starts, short.trans (by decide)⟩
  · rw [commandOf_none missing]
    apply commandOf_none
    intro entry member starts
    exact missing entry member (List.prefix_take_iff.mp starts).1

private theorem lineCommand_word (line : Bytes) :
    lineCommand line =
      if commandWord line = [] then none else some (commandOf ((commandWord line).map toupper)) := by
  have cmnd : (socketReadCommand line).cmnd =
      ((commandWord line).map toupper).take (maxCmndSize - 1) := List.map_take.symm ▸ rfl
  rw [lineCommand, cmnd, commandOf_take]
  have empty : (((commandWord line).map toupper).take (maxCmndSize - 1)).length = 0 ↔
      commandWord line = [] := by
    rw [List.length_eq_zero_iff, List.take_eq_nil_iff, List.map_eq_nil_iff]
    exact or_iff_right (by decide)
  simp only [empty]

/-- A line is dispatched by its keyword alone exactly if its word is one or begins with none. -/
private theorem dispatched_iff (line : Bytes) :
    (∀ entry ∈ keywords,
      lineCommand line = some entry.1 ↔ (commandWord line).map toupper = entry.2) ↔
    (∃ k, (k, (commandWord line).map toupper) ∈ keywords) ∨
      ∀ entry ∈ keywords, ¬entry.2 <+: (commandWord line).map toupper := by
  have word_ne_nil : ∀ entry ∈ keywords, entry.2 <+: (commandWord line).map toupper →
      commandWord line ≠ [] := by
    intro entry member starts empty
    have pos := (keywords_short entry member).1
    rw [empty, List.map_nil, List.prefix_nil] at starts
    rw [starts] at pos
    exact absurd pos (Nat.lt_irrefl 0)
  rw [lineCommand_word]
  constructor
  · intro dispatched
    by_contra neither
    rw [not_or] at neither
    obtain ⟨other, begins⟩ := neither
    simp only [not_forall, not_not, exists_prop] at begins
    obtain ⟨entry, member, starts⟩ := begins
    have same := (dispatched entry member).mp (by
      rw [if_neg (word_ne_nil entry member starts), commandOf_starts member starts])
    exact other ⟨entry.1, same ▸ member⟩
  · intro exact_ entry member
    constructor
    · intro found
      split at found
      · cases found
      have command := Option.some.inj found
      rcases exact_ with ⟨k, keyword⟩ | missing
      · rw [commandOf_starts keyword (List.prefix_refl _)] at command
        have same := keywords_apart (k, _) keyword entry member (Or.inr command)
        rw [← same]
      · rw [commandOf_none missing] at command
        exact absurd command.symm (keywords_short entry member).2.2
    · intro same
      have starts : entry.2 <+: (commandWord line).map toupper := same ▸ List.prefix_refl _
      rw [if_neg (word_ne_nil entry member starts), commandOf_starts member starts]

/-! ### The canonical line -/

private theorem toupper_isLetter (b : UInt8) : isLetter (toupper b) = isLetter b := by
  have each : ∀ n : Fin 256, isLetter (toupper (UInt8.ofFin n)) = isLetter (UInt8.ofFin n) := by
    decide +kernel
  exact each b.toFin

private theorem toupper_space {b : UInt8} (upper : toupper b = space) : b = space := by
  have each : ∀ n : Fin 256, toupper (UInt8.ofFin n) = space → UInt8.ofFin n = space := by
    decide +kernel
  exact each b.toFin upper

private theorem commandWord_letters (line : Bytes) : ∀ b ∈ commandWord line, isLetter b = true :=
  fun _ member => List.mem_takeWhile_imp member

private theorem upper_letters {word : Bytes} (letters : ∀ b ∈ word, isLetter b = true) :
    ∀ b ∈ word.map toupper, isLetter b = true := by
  intro b member
  obtain ⟨letter, member', rfl⟩ := List.mem_map.mp member
  exact (toupper_letter (letters letter member')).1

private theorem upper_upper {word : Bytes} (letters : ∀ b ∈ word, isLetter b = true) :
    (word.map toupper).map toupper = word.map toupper := by
  rw [List.map_map]
  exact List.map_congr_left fun b member => (toupper_letter (letters b member)).2.2

private theorem unspaced_parts (line : Bytes) :
    commandWord line ++ behindWord line = line.dropWhile (· == space) :=
  List.takeWhile_append_dropWhile

/-- What is put behind the word begins with no letter. -/
private theorem plainTail_head (word rest : Bytes) (ends : ∀ b ∈ rest.head?, isLetter b = false) :
    ∀ b ∈ (plainTail word rest).head?, isLetter b = false := by
  unfold plainTail
  split
  · intro b member
    obtain rfl := Option.some.inj member
    rfl
  · exact ends

private theorem canonical_dropSpaces (line : Bytes) :
    (canonical line).dropWhile (· == space) = canonical line ∧
      (canonical line).takeWhile (· == space) = [] := by
  have stops : ∀ b ∈ (canonical line).head?, (b == space) = false := by
    unfold canonical
    cases word : commandWord line with
    | nil =>
      -- without a word the line begins behind its spaces
      have begins := unspaced_parts line
      rw [word, List.nil_append] at begins
      have other : plainTail [] (behindWord line) = behindWord line := if_neg (by simp [ascii])
      rw [List.map_nil, List.nil_append, other, begins]
      exact head_dropWhile line
    | cons b word' =>
      intro first member
      obtain rfl := Option.some.inj member
      have letter := commandWord_letters line b (word ▸ List.mem_cons_self ..)
      have upper := (toupper_letter letter).1
      rw [beq_eq_false_iff_ne]
      intro spaced
      rw [spaced] at upper
      cases upper
  have parts := takeWhile_front (List.forall_mem_nil _) stops
  exact ⟨parts.2, parts.1⟩

private theorem canonical_word (line : Bytes) :
    commandWord (canonical line) = (commandWord line).map toupper ∧
      behindWord (canonical line) =
        plainTail ((commandWord line).map toupper) (behindWord line) := by
  rw [commandWord, behindWord, (canonical_dropSpaces line).1, canonical]
  exact takeWhile_front (upper_letters (commandWord_letters line))
    (plainTail_head _ _ (head_dropWhile _))

theorem lineCommand_canonical (line : Bytes) : lineCommand (canonical line) = lineCommand line := by
  rw [lineCommand_word, lineCommand_word, (canonical_word line).1,
    upper_upper (commandWord_letters line)]
  simp only [List.map_eq_nil_iff]

/-! ### The argument -/

private theorem parts_word {line p r : Bytes} (short : (commandWord line).length ≤ maxCmndSize - 1)
    (rest : p ++ r = behindWord line) (separators : ∀ b ∈ p, b = colon ∨ b = space)
    (separated : ∀ b ∈ r.head?, b ≠ colon ∧ b ≠ space) :
    Parts line (line.takeWhile (· == space)).length (commandWord line) p r where
  joined := by
    rw [rest, unspaced_parts]
    exact spaces_front line
  unspaced := by
    rw [rest, unspaced_parts]
    intro b member
    have other := head_dropWhile line b member
    simpa using other
  letters := commandWord_letters line
  capped := short
  ends := by
    intro _
    rw [rest]
    exact head_dropWhile _
  separators := separators
  separated := separated

/-- The rest of the line and that of its canonical form: they differ in the letters of PLAIN. -/
private theorem rest_parts (word rest : Bytes) :
    ∃ p q q' r, rest = p ++ (q ++ r) ∧ plainTail word rest = p ++ (q' ++ r) ∧
      q.length = q'.length ∧ (∀ b ∈ q, isLetter b = true) ∧ (∀ b ∈ q', isLetter b = true) ∧
      (∀ b ∈ p, b = colon ∨ b = space) ∧ (∀ b ∈ (q ++ r).head?, b ≠ colon ∧ b ≠ space) ∧
      ∀ b ∈ (q' ++ r).head?, b ≠ colon ∧ b ≠ space := by
  unfold plainTail
  split
  next plain =>
    obtain ⟨-, upper⟩ := plain
    have split_ : ascii " PLAIN " = space :: (ascii "PLAIN" ++ [space]) := rfl
    have joined := List.take_append_drop 7 rest
    generalize rest.take 7 = front at upper joined
    generalize rest.drop 7 = after at joined ⊢
    rw [split_] at upper
    obtain ⟨first, behind, rfl, first_, behind_⟩ := List.map_eq_cons_iff.mp upper
    obtain ⟨q, last, rfl, q_, last_⟩ := List.map_eq_append_iff.mp behind_
    obtain ⟨final, rfl, final_⟩ := List.map_eq_singleton_iff.mp last_
    obtain rfl := toupper_space first_
    obtain rfl := toupper_space final_
    have letters : ∀ b ∈ q, isLetter b = true := by
      intro b member
      have upper : toupper b ∈ ascii "PLAIN" := q_ ▸ List.mem_map_of_mem member
      rw [← toupper_isLetter]
      revert upper
      generalize toupper b = b'
      revert b'
      decide +kernel
    have length : q.length = (ascii "PLAIN").length := by rw [← q_, List.length_map]
    have apart : ∀ b : UInt8, isLetter b = true → b ≠ colon ∧ b ≠ space := by
      rintro b letter
      constructor
      all_goals
        rintro rfl
        cases letter
    refine ⟨[space], q, ascii "PLAIN", space :: after, ?_, ?_, length, letters, by decide +kernel,
      by decide +kernel, ?_, ?_⟩
    · rw [← joined]
      simp
    · rfl
    · rcases q with _ | ⟨b, q⟩
      · cases length
      · intro b' member
        obtain rfl := Option.some.inj member
        exact apart _ (letters _ (List.mem_cons_self ..))
    · intro b member
      obtain rfl := Option.some.inj member
      decide
  next =>
    refine ⟨rest.takeWhile fun c => c == colon || c == space, [], [],
      rest.dropWhile fun c => c == colon || c == space, ?_, ?_, rfl, List.forall_mem_nil _,
      List.forall_mem_nil _, ?_, ?_, ?_⟩
    · exact List.takeWhile_append_dropWhile.symm
    · exact List.takeWhile_append_dropWhile.symm
    · intro b member
      have passes := List.mem_takeWhile_imp member
      simpa using passes
    all_goals
      intro b member
      have other := head_dropWhile rest b member
      simpa using other

private theorem behindLine_length {line line' c c' : Bytes} (shorter : line'.length ≤ line.length)
    (same : c'.map toupper = c.map toupper) :
    (cString (behindLine line' c')).length ≤ (cString (behindLine line c)).length := by
  unfold behindLine
  rw [same]
  split
  · exact Nat.zero_le _
  next full =>
    rw [if_neg (by omega)]

theorem rest_length {line line' c c' : Bytes} (r : Bytes) (shorter : line'.length ≤ line.length)
    (same : c'.map toupper = c.map toupper) :
    (cString (r ++ behindLine line' c')).length ≤ (cString (r ++ behindLine line c)).length := by
  by_cases ends : 0 ∈ r
  · rw [cString_append_of_mem r _ ends, cString_append_of_mem r _ ends]
  · rw [cString_append r _ ends, cString_append r _ ends, List.length_append, List.length_append]
    exact Nat.add_le_add_left (behindLine_length shorter same) _

theorem letters_nonzero {q : Bytes} (letters : ∀ b ∈ q, isLetter b = true) : 0 ∉ q := by
  intro zero
  exact letter_nonzero (letters 0 zero) rfl

/-- The canonical line hands on the same argument exactly if the line is canonical behind its
word and has no spaces in front of it. -/
theorem argument_canonical (line : Bytes) (short : (commandWord line).length ≤ maxCmndSize - 1) :
    argument line = argument (canonical line) ↔
      line = commandWord line ++ plainTail ((commandWord line).map toupper) (behindWord line) := by
  obtain ⟨p, q, q', r, rest, tail, length, letters, letters', separators, separated, separated'⟩ :=
    rest_parts ((commandWord line).map toupper) (behindWord line)
  obtain ⟨word, behind⟩ := canonical_word line
  have parts := parts_word (p := p) short rest.symm separators separated
  have parts' : Parts (canonical line) 0 ((commandWord line).map toupper) p (q' ++ r) := by
    have short' : (commandWord (canonical line)).length ≤ maxCmndSize - 1 := by
      rw [word, List.length_map]
      exact short
    have canonical_ := parts_word (p := p) short' (tail.symm.trans behind.symm) separators separated'
    rwa [word, (canonical_dropSpaces line).2] at canonical_
  have upper := upper_upper (commandWord_letters line)
  have whole := parts.length
  have whole' := parts'.length
  rw [List.length_append] at whole whole'
  rw [List.length_map] at whole'
  have shorter : (canonical line).length ≤ line.length := by omega
  rw [parts.argument, parts'.argument, List.append_assoc, List.append_assoc,
    cString_append q _ (letters_nonzero letters), cString_append q' _ (letters_nonzero letters')]
  have nothing : shifted 0 ((commandWord line).map toupper) p = [] :=
    List.length_eq_zero_iff.mp (shifted_length _ _ _)
  rw [nothing, List.nil_append, tail]
  constructor
  · intro same
    -- the canonical line hands on no more than the rest: nothing is left for a shift
    have bytes := congrArg List.length same
    have fits := rest_length r shorter upper
    rw [List.length_append, List.length_append, List.length_append, shifted_length] at bytes
    have unspaced : (line.takeWhile (· == space)).length = 0 := by omega
    have missing : shifted (line.takeWhile (· == space)).length (commandWord line) p = [] :=
      List.length_eq_zero_iff.mp ((shifted_length _ _ _).trans unspaced)
    rw [missing, List.nil_append] at same
    obtain ⟨plain, -⟩ := List.append_inj same length
    have joined := parts.joined
    rw [unspaced, List.replicate_zero, List.nil_append, plain] at joined
    exact joined
  · intro same
    have unspaced : (line.takeWhile (· == space)).length = 0 := by
      have total := congrArg List.length same
      rw [List.length_append, List.length_append, List.length_append] at total
      omega
    have joined := parts.joined
    rw [unspaced, List.replicate_zero, List.nil_append] at joined
    have plain : q = q' := by
      have both := List.append_cancel_left (List.append_cancel_left (joined.symm.trans same))
      exact (List.append_inj both length).1
    have missing : shifted (line.takeWhile (· == space)).length (commandWord line) p = [] :=
      List.length_eq_zero_iff.mp ((shifted_length _ _ _).trans unspaced)
    have size : (canonical line).length = line.length := by omega
    rw [missing, List.nil_append, plain, behindLine, behindLine, size, upper]

/-! ### The handling -/

private theorem smtpCallback_called {s : Session} {command : Command} (called : s.calls command)
    (arg : Bytes) : smtpCallback s command arg = [.smtp command arg] := if_pos called

theorem smtpCallback_uncalled {s : Session} {command : Command} (uncalled : ¬s.calls command)
    (arg : Bytes) : smtpCallback s command arg = [] := if_neg uncalled

private theorem calls_none (s : Session) : ¬s.calls .none := by
  rw [Session.calls, show Command.none.bit = 0 from rfl]
  simp

/-- A line with PLAIN in upper case is canonical. -/
theorem canonical_plain (line : Bytes) (plain : startsWith line (ascii "AUTH PLAIN ") = true) :
    canonical line = line := by
  obtain ⟨rest, rfl⟩ := (startsWith_iff _ _).mp plain
  rfl

private theorem keyword_command {line : Bytes} {k : Command}
    (keyword : (k, (commandWord line).map toupper) ∈ keywords) :
    lineCommand line = some k ∧ (commandWord line).length ≤ maxCmndSize - 1 := by
  obtain ⟨pos, short, -⟩ := keywords_short _ keyword
  rw [List.length_map] at pos short
  have present : commandWord line ≠ [] := List.length_pos_iff.mp pos
  rw [lineCommand_word, if_neg present, commandOf_starts keyword (List.prefix_refl _)]
  exact ⟨rfl, short.trans (by decide)⟩

theorem Exact.same {s : Session} {line : Bytes} (exact_ : Exact s line) :
    handling s line = handling s (canonical line) := by
  have command := lineCommand_canonical line
  have auth := exact_.plain
  simp only [handling, command, Handling.mk.injEq, true_and]
  rcases exact_.word with ⟨k, keyword⟩ | missing
  · obtain ⟨found, short⟩ := keyword_command keyword
    simp only [found]
    constructor
    · by_cases called : s.calls k
      · rw [(argument_canonical line short).mpr (exact_.handed k keyword called)]
      · rw [smtpCallback_uncalled called, smtpCallback_uncalled called]
    · split
      next looked =>
        obtain ⟨isAuth, secure⟩ := looked
        obtain rfl := Option.some.inj isAuth
        have word : (commandWord line).map toupper = ascii "AUTH" := by
          have same := keywords_apart (.auth, (commandWord line).map toupper) keyword
            (.auth, ascii "AUTH") (by decide) (Or.inr rfl)
          exact congrArg Prod.snd same
        congr 1
        rw [Bool.eq_iff_iff]
        constructor
        · intro plain
          rwa [canonical_plain line plain]
        · exact auth secure word
      · rfl
  · have found : lineCommand line = none ∨ lineCommand line = some .none := by
      rw [lineCommand_word, commandOf_none missing]
      split
      · exact Or.inl rfl
      · exact Or.inr rfl
    rcases found with found | found
    all_goals simp [found, smtpCallback_uncalled (calls_none s)]

/-- A line is dispatched by its keyword alone and handled as all its variants in leading spaces
and in the case of the keywords, exactly if it meets three conditions. -/
theorem handling_iff_exact (s : Session) (line : Bytes) :
    ((∀ entry ∈ keywords,
        lineCommand line = some entry.1 ↔ (commandWord line).map toupper = entry.2) ∧
      handling s line = handling s (canonical line)) ↔ Exact s line := by
  constructor
  · rintro ⟨dispatched, same⟩
    have command := lineCommand_canonical line
    simp only [handling, command, Handling.mk.injEq, true_and] at same
    obtain ⟨handed, plain⟩ := same
    refine ⟨(dispatched_iff line).mp dispatched, ?_, ?_⟩
    · intro k keyword called
      obtain ⟨found, short⟩ := keyword_command keyword
      simp only [found, smtpCallback_called called, List.cons.injEq, Event.smtp.injEq, true_and,
        and_true] at handed
      exact (argument_canonical line short).mp handed
    · intro secure word starts
      have keyword : (Command.auth, (commandWord line).map toupper) ∈ keywords := by
        rw [word]
        decide
      obtain ⟨found, -⟩ := keyword_command keyword
      rw [if_pos ⟨found, secure⟩, if_pos ⟨found, secure⟩] at plain
      rw [Option.some.inj plain]
      exact starts
  · intro exact_
    exact ⟨(dispatched_iff line).mpr exact_.word, exact_.same⟩

/-- A longer word switches the session into mail mode. -/
theorem dispatched_longer :
    lineCommand (ascii "DATAX\r\n") = some .data ∧
      (commandWord (ascii "DATAX\r\n")).map toupper ≠ ascii "DATA" ∧
      (.data, ascii "DATA") ∈ keywords := by
  decide +kernel

end Spamass.Emailz
