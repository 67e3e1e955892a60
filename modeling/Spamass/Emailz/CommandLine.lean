import Mathlib.Data.List.TakeWhile
import Spamass.Emailz.ReadCommand

/-!
# The parts of a command line

`emailz_socket_read_command` walks over leading spaces, the command word and the
separators behind it, but its offset counts the last two only. The parts of a line are
stated here as they are written, and compared with what the parser makes of them.
-/
namespace Spamass.Emailz

/-- A line of leading spaces, a command word, the separators behind it and the rest; each part
ends where the next character is none of its own, the word at the size of `cmnd` too. -/
structure Parts (line : Bytes) (spaces : Nat) (c p r : Bytes) : Prop where
  joined : line = List.replicate spaces space ++ (c ++ (p ++ r))
  unspaced : ∀ b ∈ (c ++ (p ++ r)).head?, b ≠ space
  letters : ∀ b ∈ c, isLetter b = true
  capped : c.length ≤ maxCmndSize - 1
  ends : c.length < maxCmndSize - 1 → ∀ b ∈ (p ++ r).head?, isLetter b = false
  separators : ∀ b ∈ p, b = colon ∨ b = space
  separated : ∀ b ∈ r.head?, b ≠ colon ∧ b ≠ space

theorem takeWhile_front {holds : UInt8 → Bool} {front back : Bytes}
    (all_ : ∀ b ∈ front, holds b = true) (stops : ∀ b ∈ back.head?, holds b = false) :
    (front ++ back).takeWhile holds = front ∧ (front ++ back).dropWhile holds = back := by
  rw [List.takeWhile_append_of_pos all_, List.dropWhile_append_of_pos all_]
  cases back with
  | nil => simp
  | cons b back => simp [stops b rfl]

theorem head_dropWhile {holds : UInt8 → Bool} (text : Bytes) :
    ∀ b ∈ (text.dropWhile holds).head?, holds b = false := by
  intro b member
  have fails := List.head?_dropWhile_not holds text
  rw [Option.mem_def.mp member] at fails
  simpa using fails

theorem toupper_letter {b : UInt8} (letter : isLetter b = true) :
    isLetter (toupper b) = true ∧ toupper b ≠ 0 ∧ toupper (toupper b) = toupper b := by
  have each : ∀ n : Fin 256, isLetter (UInt8.ofFin n) = true →
      isLetter (toupper (UInt8.ofFin n)) = true ∧ toupper (UInt8.ofFin n) ≠ 0 ∧
        toupper (toupper (UInt8.ofFin n)) = toupper (UInt8.ofFin n) := by
    decide +kernel
  exact each b.toFin letter

theorem spaces_front (line : Bytes) :
    line = List.replicate (line.takeWhile (· == space)).length space ++
      line.dropWhile (· == space) := by
  have all_ : ∀ b ∈ line.takeWhile (· == space), b = space := by
    intro b member
    have passes := List.mem_takeWhile_imp member
    exact beq_iff_eq.mp passes
  rw [← List.eq_replicate_of_mem all_, List.takeWhile_append_dropWhile]

/-- Every line has its parts. -/
private theorem parts_exist (line : Bytes) : ∃ spaces c p r, Parts line spaces c p r := by
  let unspaced := line.dropWhile (· == space)
  let word := (unspaced.takeWhile isLetter).take (maxCmndSize - 1)
  let behind := unspaced.drop word.length
  let separator := fun c => c == colon || c == space
  have inside : word <+: unspaced := (List.take_prefix _ _).trans (List.takeWhile_prefix _)
  have parted : word ++ behind = unspaced := by
    have taken := List.prefix_iff_eq_take.mp inside
    calc word ++ behind = unspaced.take word.length ++ unspaced.drop word.length := by
          rw [← taken]
      _ = unspaced := List.take_append_drop _ _
  have separated : behind.takeWhile separator ++ behind.dropWhile separator = behind :=
    List.takeWhile_append_dropWhile
  refine ⟨(line.takeWhile (· == space)).length, word, behind.takeWhile separator,
    behind.dropWhile separator, ?_, ?_, ?_, List.length_take_le _ _, ?_, ?_, ?_⟩
  · rw [separated, parted]
    exact spaces_front line
  · rw [separated, parted]
    intro b member
    have other := head_dropWhile line b member
    simpa using other
  · intro b member
    exact List.mem_takeWhile_imp (List.mem_of_mem_take member)
  · rw [separated]
    intro short
    -- the cap has not been reached: the word is the whole run of letters
    have whole : word = unspaced.takeWhile isLetter := by
      apply List.take_of_length_le
      simp only [word, List.length_take] at short
      omega
    have rest : behind = unspaced.dropWhile isLetter := by
      have same : word ++ behind = word ++ unspaced.dropWhile isLetter := by
        rw [parted, whole, List.takeWhile_append_dropWhile]
      exact List.append_cancel_left same
    rw [rest]
    exact head_dropWhile unspaced
  · intro b member
    have passes := List.mem_takeWhile_imp member
    simpa [separator] using passes
  · intro b member
    have other := head_dropWhile behind b member
    simpa [separator] using other

section Parsed

variable {line : Bytes} {spaces : Nat} {c p r : Bytes} (parts : Parts line spaces c p r)

include parts

theorem Parts.length : line.length = spaces + (c.length + (p.length + r.length)) := by
  rw [parts.joined]
  simp

private theorem Parts.dropSpaces : line.dropWhile (· == space) = c ++ (p ++ r) := by
  rw [parts.joined]
  refine (takeWhile_front ?_ ?_).2
  · intro b member
    rw [List.eq_of_mem_replicate member]
    rfl
  · intro b member
    simpa using parts.unspaced b member

/-- The parser finds the word and the separators, and counts them. -/
theorem Parts.reads : socketReadCommand line = ⟨c.map toupper, c.length + p.length⟩ := by
  have word : ((c ++ (p ++ r)).takeWhile isLetter).take (maxCmndSize - 1) = c := by
    rcases Nat.lt_or_ge c.length (maxCmndSize - 1) with short | full
    · rw [(takeWhile_front parts.letters (parts.ends short)).1]
      exact List.take_of_length_le parts.capped
    · have size := Nat.le_antisymm parts.capped full
      rw [List.takeWhile_append_of_pos parts.letters, ← size, List.take_left]
  have separators : (p ++ r).takeWhile (fun c => c == colon || c == space) = p := by
    refine (takeWhile_front ?_ ?_).1
    · intro b member
      simpa using parts.separators b member
    · intro b member
      simpa using parts.separated b member
  simp only [socketReadCommand, parts.dropSpaces, word, List.drop_left, separators]

end Parsed

/-- What the offset falls short of the rest by. -/
def shifted (spaces : Nat) (c p : Bytes) : Bytes :=
  (List.replicate spaces space ++ (c ++ p)).drop (c.length + p.length)

/-- What is in memory behind a line, up to a NUL. -/
def behindLine (line c : Bytes) : Bytes :=
  if line.length < maxLineSize then [0] else c.map toupper ++ [0]

theorem shifted_length (spaces : Nat) (c p : Bytes) : (shifted spaces c p).length = spaces := by
  simp [shifted]

theorem letter_nonzero {b : UInt8} (letter : isLetter b = true) : b ≠ 0 := by
  rintro rfl
  cases letter

section Argument

variable {line : Bytes} {spaces : Nat} {c p r : Bytes} (parts : Parts line spaces c p r)

include parts

private theorem Parts.shifted_nonzero : ∀ b ∈ shifted spaces c p, b ≠ 0 := by
  intro b member
  rcases List.mem_append.mp (List.mem_of_mem_drop member) with spaced | later
  · rw [List.eq_of_mem_replicate spaced]
    decide
  · rcases List.mem_append.mp later with letter | separator
    · exact letter_nonzero (parts.letters b letter)
    · rcases parts.separators b separator with rfl | rfl <;> decide

private theorem Parts.word_nonzero : ∀ b ∈ c.map toupper, b ≠ 0 := by
  intro b member
  obtain ⟨letter, member', rfl⟩ := List.mem_map.mp member
  exact (toupper_letter (parts.letters letter member')).2.1

theorem Parts.drop : line.drop (c.length + p.length) = shifted spaces c p ++ r := by
  have joined : line = (List.replicate spaces space ++ (c ++ p)) ++ r := by
    rw [parts.joined]
    simp
  rw [joined, List.drop_append_of_le_length, shifted]
  simp

/-- The argument that is copied begins in front of the rest. -/
theorem Parts.argument :
    argument line = shifted spaces c p ++ cString (r ++ behindLine line c) := by
  have memory : lineMemory line (c.map toupper) = line ++ behindLine line c := by
    unfold lineMemory behindLine
    split
    · rfl
    · rw [List.append_assoc]
  have inside : c.length + p.length ≤ line.length := by
    rw [parts.length]
    omega
  simp only [Emailz.argument, parts.reads, memory]
  rw [List.drop_append_of_le_length inside, parts.drop, List.append_assoc, cString,
    List.takeWhile_append_of_pos fun b member => bne_iff_ne.mpr (parts.shifted_nonzero b member),
    cString]

end Argument

theorem cString_append_of_mem (front back : Bytes) (ends : 0 ∈ front) :
    cString (front ++ back) = cString front := by
  induction front with
  | nil => cases ends
  | cons b front ih =>
    rw [List.cons_append, cString, cString, List.takeWhile_cons, List.takeWhile_cons]
    split
    next nonzero =>
      have later : 0 ∈ front := by
        rcases List.mem_cons.mp ends with rfl | later
        · cases nonzero
        · exact later
      exact congrArg (b :: ·) (ih later)
    · rfl

theorem cString_append (front back : Bytes) (nonzero : 0 ∉ front) :
    cString (front ++ back) = front ++ cString back :=
  List.takeWhile_append_of_pos fun _ member => bne_iff_ne.mpr fun zero => nonzero (zero ▸ member)

private theorem cString_self (text : Bytes) (nonzero : 0 ∉ text) : cString text = text := by
  have whole := cString_append text [] nonzero
  have nothing : cString [] = [] := rfl
  rwa [nothing, List.append_nil] at whole

/-- The memory behind the line adds to the rest exactly if a full line without NUL is followed by
its command word. -/
theorem Parts.behind {line : Bytes} {spaces : Nat} {c p r : Bytes}
    (parts : Parts line spaces c p r) :
    cString (r ++ behindLine line c) = cString r ↔ line.length < maxLineSize ∨ c = [] ∨ 0 ∈ r := by
  by_cases ends : 0 ∈ r
  · rw [cString_append_of_mem r _ ends]
    exact iff_of_true rfl (Or.inr (Or.inr ends))
  · rw [cString_append r _ ends, cString_self r ends, List.append_right_eq_self]
    have word : 0 ∉ c.map toupper := fun zero => parts.word_nonzero 0 zero rfl
    unfold behindLine
    split
    next short => exact iff_of_true rfl (Or.inl short)
    next full =>
      rw [cString_append _ _ word]
      simp [full, ends, cString]

/-- Every line has its parts, and for all parts a line can be written as: the word and its length
are read as they are, and the argument is the rest up to its first NUL, exactly if there is no
leading space and the line has room for its terminator, or its rest brings one. -/
theorem argument_iff_unshifted (line : Bytes) :
    (∃ spaces c p r, Parts line spaces c p r) ∧
    ∀ spaces c p r, Parts line spaces c p r →
      (((socketReadCommand line).cmnd = c.map toupper ∧
          (socketReadCommand line).cmnd.length = c.length ∧
          line.drop (socketReadCommand line).lineoff = r ∧
          argument line = cString r) ↔
        spaces = 0 ∧ (line.length < maxLineSize ∨ c = [] ∨ 0 ∈ r)) := by
  refine ⟨parts_exist line, fun spaces c p r parts => ?_⟩
  have unshifted : shifted spaces c p = [] ↔ spaces = 0 := by
    rw [← List.length_eq_zero_iff, shifted_length]
  rw [parts.argument, parts.reads, ← parts.behind, ← unshifted, parts.drop]
  constructor
  · rintro ⟨-, -, rest, argument_⟩
    have missing := List.append_left_eq_self.mp rest
    rw [missing, List.nil_append] at argument_
    exact ⟨missing, argument_⟩
  · rintro ⟨missing, behind⟩
    rw [missing, List.nil_append, List.nil_append]
    exact ⟨rfl, List.length_map _, rfl, behind⟩

/-- A space in front of the command moves the argument back by one character. -/
theorem argument_shifted :
    Parts (ascii " MAIL FROM:<a@b.c>\r\n") 1 (ascii "MAIL") (ascii " ") (ascii "FROM:<a@b.c>\r\n") ∧
      argument (ascii " MAIL FROM:<a@b.c>\r\n") = ascii " FROM:<a@b.c>\r\n" ∧
      argument (ascii " MAIL FROM:<a@b.c>\r\n") ≠ cString (ascii "FROM:<a@b.c>\r\n") := by
  refine ⟨⟨rfl, ?_, ?_, ?_, ?_, ?_, ?_⟩, ?_, ?_⟩
  all_goals decide +kernel

end Spamass.Emailz
