import Spamass.Json.Tokeniser
import Spamass.Scanning

/-!
# Starting over in a token

The tokeniser goes back to the front of a token that the data ends in. What it finds in
whole data it also finds when more is appended, with one exception that does not get out:
the last digit of a low surrogate is made up where it is missing, and the string that it
is in is then unfinished, or the pair is wrong whatever the digit is.
-/
namespace Spamass.Json

open Spamass.App Spamass.Emailz Spamass.Scanning

/-! ### More data -/

/-- An attempt that did not run out of data ends in the same way when more of it is there. The
text of an error may differ. -/
def Scan.Extends {τ : Type} (u : Bytes) (scan scan' : Scan τ) : Prop :=
  match scan with
  | .eof => True
  | .error _ rest => ∃ e, scan' = .error e (rest ++ u)
  | .found x rest => scan' = .found x (rest ++ u)

section Extending

variable {τ τ' : Type} {u : Bytes}

theorem Scan.Extends.bind {scan scan' : Scan τ} {f f' : τ → Bytes → Scan τ'}
    (extends_ : scan.Extends u scan')
    (rest_extends : ∀ x rest, scan = .found x rest →
      (f x rest).Extends u (f' x (rest ++ u))) :
    (scan.bind f).Extends u (scan'.bind f') := by
  cases scan with
  | eof => trivial
  | error e rest =>
    obtain ⟨e', rfl⟩ := extends_
    exact ⟨e', rfl⟩
  | found x rest =>
    have same : scan' = .found x (rest ++ u) := extends_
    rw [same]
    exact rest_extends x rest rfl

theorem Scan.Extends.map {scan scan' : Scan τ} (f : τ → τ') (extends_ : scan.Extends u scan') :
    (scan.map f).Extends u (scan'.map f) := by
  cases scan with
  | eof => trivial
  | error e rest =>
    obtain ⟨e', rfl⟩ := extends_
    exact ⟨e', rfl⟩
  | found x rest =>
    have same : scan' = .found x (rest ++ u) := extends_
    rw [same]
    rfl

/-- A run that ends in front of the end of the data does so whatever comes behind it. -/
private theorem takeWhile_extends (p : UInt8 → Bool) {s after : Bytes} {ch : UInt8}
    (stop : s.dropWhile p = ch :: after) :
    (s ++ u).dropWhile p = ch :: (after ++ u) ∧
      (s ++ u).takeWhile p = s.takeWhile p := by
  induction s with
  | nil => cases stop
  | cons b s ih =>
    cases in_ : p b with
    | false =>
      rw [List.dropWhile_cons_of_neg (by simp [in_])] at stop
      obtain ⟨rfl, rfl⟩ := List.cons.inj stop
      simp [in_]
    | true =>
      rw [List.dropWhile_cons_of_pos in_] at stop
      have rest := ih stop
      simp [in_, rest]

/-! ### Strings with more data -/

private theorem hexQuadLoop_extends (n : Nat) (c : UInt8) (tmp : Nat) (rest : Bytes)
    (long : n < rest.length) :
    hexQuadLoop n c tmp (rest ++ u) =
        ((hexQuadLoop n c tmp rest).1, (hexQuadLoop n c tmp rest).2 ++ u) ∧
      (hexQuadLoop n c tmp rest).2 ≠ [] := by
  induction n generalizing c tmp rest with
  | zero => exact ⟨rfl, List.ne_nil_of_length_pos long⟩
  | succ n ih =>
    obtain ⟨b, d, rest, rfl⟩ : ∃ b d rest', rest = b :: d :: rest' := by
      match rest, long with
      | b :: d :: rest, _ => exact ⟨b, d, rest, rfl⟩
    simp only [List.length_cons] at long
    simp only [hexQuadLoop, List.cons_append, List.tail_cons, List.headD_cons]
    cases hexDigit d with
    | none => exact ⟨rfl, List.cons_ne_nil _ _⟩
    | some x => exact ih d (tmp * 16 + x) (d :: rest) (by simpa using long)

private theorem decodeHexQuad_extends {rest : Bytes} (long : 5 ≤ rest.length) :
    decodeHexQuad (rest ++ u) =
        ((decodeHexQuad rest).1, (decodeHexQuad rest).2 ++ u) ∧ (decodeHexQuad rest).2 ≠ [] :=
  hexQuadLoop_extends 4 0 0 rest long

private theorem hexDigit_lt {b : UInt8} {x : Nat} (digit : hexDigit b = some x) : x < 16 := by
  unfold hexDigit at digit
  -- the three ranges, each with the bytes it is made of
  split at digit
  next range =>
    simp only [Bool.and_eq_true, decide_eq_true_eq, UInt8.le_iff_toNat_le, UInt8.reduceToNat]
      at range
    have value := Option.some.inj digit
    omega
  · split at digit
    next range =>
      simp only [Bool.and_eq_true, decide_eq_true_eq, UInt8.le_iff_toNat_le, UInt8.reduceToNat]
        at range
      have value := Option.some.inj digit
      omega
    · split at digit
      next range =>
        simp only [Bool.and_eq_true, decide_eq_true_eq, UInt8.le_iff_toNat_le, UInt8.reduceToNat]
          at range
        have value := Option.some.inj digit
        omega
      · cases digit

/-- With its last digit missing, a quad repeats the digit in front of it. -/
private theorem decodeHexQuad_short {rest : Bytes} (short : rest.length = 4) :
    (∃ left, decodeHexQuad rest = (none, left) ∧
        decodeHexQuad (rest ++ u) = (none, left ++ u)) ∨
      ∃ high x, x < 16 ∧ decodeHexQuad rest = (some (high * 16 + x), []) ∧
        (decodeHexQuad (rest ++ u) = (none, u) ∨
          ∃ y, y < 16 ∧ decodeHexQuad (rest ++ u) = (some (high * 16 + y), u)) := by
  obtain ⟨a, b, c, d, rfl⟩ : ∃ a b c d, rest = [a, b, c, d] := by
    match rest, short with
    | [a, b, c, d], _ => exact ⟨a, b, c, d, rfl⟩
  simp only [decodeHexQuad, hexQuadLoop, List.cons_append, List.tail_cons, List.headD_cons,
    List.headD_nil, List.nil_append]
  cases hexDigit b with
  | none => exact Or.inl ⟨_, rfl, rfl⟩
  | some first =>
    cases hexDigit c with
    | none => exact Or.inl ⟨_, rfl, rfl⟩
    | some second =>
      cases digit : hexDigit d with
      | none => exact Or.inl ⟨_, rfl, rfl⟩
      | some third =>
        have small := hexDigit_lt digit
        refine Or.inr ⟨((0 * 16 + first) * 16 + second) * 16 + third, third, small, ?_, ?_⟩
        · simp only
        · cases u with
          | nil => exact Or.inr ⟨third, small, by simp only [List.headD_nil, digit]⟩
          | cons m ms =>
            simp only [List.headD_cons]
            cases last : hexDigit m with
            | none => exact Or.inl rfl
            | some fourth => exact Or.inr ⟨fourth, hexDigit_lt last, rfl⟩

private theorem isSurrogateLow_high {high x y : Nat} (small : x < 16) (small' : y < 16) :
    isSurrogateLow (high * 16 + x) = isSurrogateLow (high * 16 + y) := by
  rw [Bool.eq_iff_iff]
  simp only [isSurrogateLow, Bool.and_eq_true, decide_eq_true_eq]
  omega

/-- The same of an attempt whose result counts only if something is left behind it. -/
def Scan.ExtendsInside (u : Bytes) (scan scan' : Scan τ) : Prop :=
  match scan with
  | .eof => True
  | .error _ rest => ∃ e, scan' = .error e (rest ++ u)
  | .found x rest => rest ≠ [] → scan' = .found x (rest ++ u)

theorem Scan.ExtendsInside.bind {scan scan' : Scan τ} {f f' : τ → Bytes → Scan τ'}
    (extends_ : scan.ExtendsInside u scan')
    (rest_extends : ∀ x rest, scan = .found x rest → rest ≠ [] →
      (f x rest).Extends u (f' x (rest ++ u)))
    (ended : ∀ x, f x [] = .eof) : (scan.bind f).Extends u (scan'.bind f') := by
  cases scan with
  | eof => trivial
  | error e rest =>
    obtain ⟨e', rfl⟩ := extends_
    exact ⟨e', rfl⟩
  | found x rest =>
    by_cases empty : rest = []
    · subst empty
      show (f x []).Extends u _
      rw [ended x]
      trivial
    · rw [extends_ empty]
      exact rest_extends x rest rfl empty

private theorem lowQuad_extends (hi : Nat) (rest : Bytes) (there : 4 ≤ rest.length) :
    (lowQuad hi (decodeHexQuad rest)).ExtendsInside u
      (lowQuad hi (decodeHexQuad (rest ++ u))) := by
  by_cases whole : 5 ≤ rest.length
  · -- the last digit is there
    obtain ⟨same, inside⟩ := decodeHexQuad_extends (u := u) whole
    rw [same]
    cases decodeHexQuad rest with
    | mk value left =>
      cases value with
      | none => exact ⟨_, rfl⟩
      | some lo =>
        simp only [lowQuad]
        split
        · exact fun _ => rfl
        · exact ⟨_, rfl⟩
  · rcases decodeHexQuad_short (u := u) (show rest.length = 4 by omega) with
      ⟨left, missing, none'⟩ | ⟨high, x, small, present, other | ⟨y, small', some'⟩⟩
    · rw [missing, none']
      exact ⟨_, rfl⟩
    · rw [present, other]
      simp only [lowQuad]
      split
      · exact fun left => absurd rfl left
      · exact ⟨_, rfl⟩
    · -- whether it is a low surrogate does not depend on the last digit
      rw [present, some']
      simp only [lowQuad, isSurrogateLow_high small small']
      split
      · exact fun left => absurd rfl left
      · exact ⟨_, rfl⟩

private theorem lowSurrogate_long (hi : Nat) (a b c : UInt8) (lo : Bytes) (long : 3 ≤ lo.length) :
    lowSurrogate hi (a :: b :: c :: lo) =
      if b ≠ backslash ∨ c ≠ 117 then .error .missingLow (c :: lo)
      else lowQuad hi (decodeHexQuad (c :: lo)) :=
  if_neg (by simp only [List.length_cons]; omega)

private theorem lowSurrogate_extends (hi : Nat) (rest : Bytes) :
    (lowSurrogate hi rest).ExtendsInside u (lowSurrogate hi (rest ++ u)) := by
  by_cases short : rest.length < 6
  · rw [lowSurrogate, if_pos short]
    trivial
  · obtain ⟨a, b, c, lo, rfl⟩ : ∃ a b c lo, rest = a :: b :: c :: lo := by
      match rest, Nat.le_of_not_lt short with
      | a :: b :: c :: lo, _ => exact ⟨a, b, c, lo, rfl⟩
      | [_, _], short => exact absurd short (by simp)
      | [_], short => exact absurd short (by simp)
      | [], short => exact absurd short (by simp)
    simp only [List.length_cons] at short
    rw [lowSurrogate_long hi a b c lo (by omega), List.cons_append, List.cons_append,
      List.cons_append, lowSurrogate_long hi a b c (lo ++ u) (by simp; omega)]
    split
    · exact ⟨_, rfl⟩
    · exact lowQuad_extends hi (c :: lo) (by simp; omega)

private theorem hexEscape_extends (rest : Bytes) :
    (hexEscape rest).ExtendsInside u (hexEscape (rest ++ u)) := by
  unfold hexEscape
  split
  · trivial
  next long =>
    have whole : 5 ≤ rest.length := by omega
    obtain ⟨same, inside⟩ := decodeHexQuad_extends (u := u) whole
    rw [if_neg (by simp; omega), same]
    split
    next left quad => exact ⟨_, by rw [quad]⟩
    next hi left quad =>
      rw [quad]
      dsimp only
      split
      · exact lowSurrogate_extends hi left
      · split
        · exact ⟨_, rfl⟩
        · exact fun _ => rfl

theorem escape_extends (rest : Bytes) :
    (escape rest).ExtendsInside u (escape (rest ++ u)) := by
  cases rest with
  | nil => trivial
  | cons ch rest =>
    rw [List.cons_append, escape, escape]
    split
    · exact hexEscape_extends (ch :: rest)
    · split
      · exact ⟨_, rfl⟩
      · exact fun _ => rfl

private theorem stringLoop_nil (fuel : Nat) (acc : Bytes) : stringLoop fuel acc [] = .eof := by
  cases fuel <;> rfl

private theorem stringLoop_extends (fuel fuel' : Nat) (acc rest : Bytes) (enough : fuel ≤ fuel') :
    (stringLoop fuel acc rest).Extends u (stringLoop fuel' acc (rest ++ u)) := by
  induction fuel generalizing fuel' acc rest with
  | zero => trivial
  | succ fuel ih =>
    obtain ⟨fuel', rfl⟩ : ∃ n, fuel' = n + 1 := ⟨fuel' - 1, by omega⟩
    cases rest with
    | nil => trivial
    | cons b rest =>
      rw [List.cons_append, stringLoop, stringLoop, List.tail_cons, List.tail_cons]
      cases stop : rest.dropWhile inFragment with
      | nil => trivial
      | cons ch after =>
        -- the fragment and the character behind it stay what they are
        obtain ⟨drop, take⟩ := takeWhile_extends (u := u) inFragment stop
        rw [drop, take]
        dsimp only
        split
        · exact ⟨_, rfl⟩
        · split
          · exact ⟨_, rfl⟩
          · split
            · rfl
            · refine (escape_extends after).bind ?_ (fun x => stringLoop_nil fuel _)
              intro decoded left _ _
              exact ih fuel' _ left (by omega)

private theorem getStringToken_extends (rest : Bytes) :
    (getStringToken rest).Extends u (getStringToken (rest ++ u)) :=
  stringLoop_extends _ _ [] rest (by simp)

/-! ### Numbers with more data -/

private theorem digitRun_extends (rest : Bytes) :
    (digitRun rest).Extends u (digitRun (rest ++ u)) := by
  unfold digitRun
  cases stop : rest.dropWhile isDigit with
  | nil => trivial
  | cons ch after =>
    obtain ⟨drop, take⟩ := takeWhile_extends (u := u) isDigit stop
    rw [drop, take]
    rfl

private theorem integerPart_extends (rest : Bytes) :
    (integerPart rest).Extends u (integerPart (rest ++ u)) := by
  cases rest with
  | nil => trivial
  | cons ch rest =>
    have run := digitRun_extends (u := u) (ch :: rest)
    cases rest with
    | nil =>
      simp only [integerPart, List.cons_append, List.nil_append] at run ⊢
      split
      · trivial
      · exact run
    | cons next rest =>
      simp only [integerPart, List.cons_append] at run ⊢
      split
      · split
        · exact ⟨_, rfl⟩
        · rfl
      · exact run

private theorem fractionPart_extends (rest : Bytes) :
    (fractionPart rest).Extends u (fractionPart (rest ++ u)) := by
  cases rest with
  | nil => trivial
  | cons ch rest =>
    rw [List.cons_append, fractionPart, fractionPart]
    split
    · refine (digitRun_extends rest).bind ?_
      intro digits left _
      split
      · exact ⟨_, rfl⟩
      · rfl
    · rfl

private theorem exponentSign_extends (rest : Bytes) :
    (exponentSign rest).Extends u (exponentSign (rest ++ u)) := by
  cases rest with
  | nil => trivial
  | cons ch rest =>
    rw [List.cons_append, exponentSign, exponentSign]
    split
    · rfl
    · split <;> rfl

private theorem exponentPart_extends (rest : Bytes) :
    (exponentPart rest).Extends u (exponentPart (rest ++ u)) := by
  cases rest with
  | nil => trivial
  | cons ch rest =>
    rw [List.cons_append, exponentPart, exponentPart]
    split
    · refine (exponentSign_extends rest).bind ?_
      intro negative left _
      refine (digitRun_extends left).bind ?_
      intro digits left _
      split
      · exact ⟨_, rfl⟩
      · rfl
    · rfl

private theorem getNumberToken_extends (start : Bytes) :
    (getNumberToken start).Extends u (getNumberToken (start ++ u)) := by
  cases start with
  | nil => trivial
  | cons ch start =>
    have text : ∀ rest : Bytes, ((ch :: start) ++ u).take
        (((ch :: start) ++ u).length - (rest ++ u).length) =
          (ch :: start).take ((ch :: start).length - rest.length) := by
      intro rest
      rw [List.length_append, List.length_append, Nat.add_sub_add_right,
        List.take_append_of_le_length (Nat.sub_le _ _)]
    have behindSign : (integerPart (if ch == 45 then start else ch :: start)).Extends u
        (integerPart (if ch == 45 then start ++ u else ch :: (start ++ u))) := by
      split
      · exact integerPart_extends start
      · exact integerPart_extends (ch :: start)
    refine behindSign.bind ?_
    intro digits left _
    refine (fractionPart_extends left).bind ?_
    intro fraction left _
    refine (exponentPart_extends left).bind ?_
    intro exponent left _
    rw [text left]
    dsimp only [List.cons_append, List.headD_cons]
    split
    · exact ⟨_, rfl⟩
    · rfl

/-! ### Tokens with more data -/

private theorem matchPattern_extends (pattern : Bytes) (token : Token) (rest : Bytes) :
    (matchPattern pattern token rest).Extends u (matchPattern pattern token (rest ++ u)) := by
  unfold matchPattern
  split
  · trivial
  next long =>
    have there : pattern.length ≤ rest.length := Nat.le_of_not_lt long
    have long' : ¬ (rest ++ u).length < pattern.length := by
      rw [List.length_append]
      omega
    rw [if_neg long', List.take_append_of_le_length there, List.drop_append_of_le_length there]
    split
    · rfl
    · exact ⟨_, rfl⟩

private theorem wordAt_extends (ch : UInt8) (rest : Bytes) :
    (wordAt ch rest).Extends u (wordAt ch (rest ++ u)) := by
  unfold wordAt
  -- the cases in the order of the switch
  split
  · exact matchPattern_extends _ _ rest
  split
  · exact matchPattern_extends _ _ rest
  split
  · exact matchPattern_extends _ _ rest
  split
  · exact (getStringToken_extends rest).map _
  split
  · exact (getNumberToken_extends rest).map _
  split
  · exact ⟨_, rfl⟩
  · exact ⟨_, rfl⟩

theorem tokenAt_extends (rest : Bytes) : (tokenAt rest).Extends u (tokenAt (rest ++ u)) := by
  cases rest with
  | nil => trivial
  | cons ch rest =>
    rw [List.cons_append, tokenAt, tokenAt]
    cases punctuation ch with
    | some token => rfl
    | none => exact wordAt_extends ch (ch :: rest)

/-- White space that is left behind is skipped again, which changes nothing. -/
private theorem skipWhitespace_append (s : Bytes) :
    skipWhitespace (skipWhitespace s ++ u) = skipWhitespace (s ++ u) := by
  induction s with
  | nil => rfl
  | cons b s ih =>
    unfold skipWhitespace at ih ⊢
    cases white : isWhitespace b with
    | true => rw [List.dropWhile_cons_of_pos white, List.cons_append,
        List.dropWhile_cons_of_pos white, ih]
    | false => rw [List.dropWhile_cons_of_neg (by simp [white])]

private theorem getToken_extends (s : Bytes) : (getToken s).Extends u (getToken (s ++ u)) := by
  have token := tokenAt_extends (u := u) (skipWhitespace s)
  cases white : skipWhitespace s with
  | nil =>
    rw [getToken, white]
    trivial
  | cons ch rest =>
    -- the token begins within the data
    have begins : skipWhitespace (s ++ u) = (ch :: rest) ++ u :=
      (takeWhile_extends isWhitespace white).1
    rw [white, ← begins] at token
    rw [getToken, getToken, white]
    exact token

end Extending

/-! ### Progress -/

/-- A result leaves no more than so many bytes. -/
def Scan.Leaves {τ : Type} (bound : Nat) (scan : Scan τ) : Prop :=
  ∀ x rest, scan = .found x rest → rest.length ≤ bound

section Leaving

variable {τ τ' : Type}

private theorem Scan.leaves_eof (bound : Nat) : (Scan.eof : Scan τ).Leaves bound := by
  intro x rest found
  cases found

private theorem Scan.leaves_error (bound : Nat) (e : TokenError) (left : Bytes) :
    (Scan.error e left : Scan τ).Leaves bound := by
  intro x rest found
  cases found

theorem Scan.leaves_found {bound : Nat} {x : τ} {left : Bytes} (short : left.length ≤ bound) :
    (Scan.found x left).Leaves bound := by
  rintro x rest ⟨rfl, rfl⟩
  exact short

theorem Scan.Leaves.bind {bound bound' : Nat} {scan : Scan τ} {f : τ → Bytes → Scan τ'}
    (leaves : scan.Leaves bound)
    (rest_leaves : ∀ x rest, rest.length ≤ bound → (f x rest).Leaves bound') :
    (scan.bind f).Leaves bound' := by
  cases scan with
  | eof => exact Scan.leaves_eof bound'
  | error e left => exact Scan.leaves_error bound' e left
  | found x left => exact rest_leaves x left (leaves x left rfl)

theorem Scan.Leaves.map {bound : Nat} {scan : Scan τ} (leaves : scan.Leaves bound) (f : τ → τ') :
    (scan.map f).Leaves bound := by
  cases scan with
  | eof => exact Scan.leaves_eof bound
  | error e left => exact Scan.leaves_error bound e left
  | found x left => exact Scan.leaves_found (leaves x left rfl)

theorem Scan.Leaves.mono {bound bound' : Nat} {scan : Scan τ} (leaves : scan.Leaves bound)
    (le : bound ≤ bound') : scan.Leaves bound' :=
  fun x rest found => Nat.le_trans (leaves x rest found) le

end Leaving

theorem dropWhile_length_le (p : UInt8 → Bool) (s : Bytes) : (s.dropWhile p).length ≤ s.length :=
  (List.dropWhile_sublist p).length_le

private theorem digitRun_leaves (rest : Bytes) : (digitRun rest).Leaves rest.length := by
  have shorter := dropWhile_length_le isDigit rest
  unfold digitRun
  cases left : rest.dropWhile isDigit with
  | nil => exact Scan.leaves_eof _
  | cons ch after =>
    rw [left] at shorter
    exact Scan.leaves_found shorter

private theorem integerPart_leaves (rest : Bytes) : (integerPart rest).Leaves rest.length := by
  cases rest with
  | nil => exact Scan.leaves_eof _
  | cons ch rest =>
    have run := digitRun_leaves (ch :: rest)
    cases rest with
    | nil =>
      simp only [integerPart]
      split
      · exact Scan.leaves_eof _
      · exact run
    | cons next rest =>
      simp only [integerPart]
      split
      · split
        · exact Scan.leaves_error _ _ _
        · exact Scan.leaves_found (Nat.le_succ _)
      · exact run

private theorem integerPart_digit {ch : UInt8} (rest : Bytes) (digit : isDigit ch = true) :
    (integerPart (ch :: rest)).Leaves rest.length := by
  have run : (digitRun (ch :: rest)).Leaves rest.length := by
    have shorter := dropWhile_length_le isDigit rest
    unfold digitRun
    rw [List.dropWhile_cons_of_pos digit]
    cases left : rest.dropWhile isDigit with
    | nil => exact Scan.leaves_eof _
    | cons next after =>
      rw [left] at shorter
      exact Scan.leaves_found shorter
  cases rest with
  | nil =>
    simp only [integerPart]
    split
    · exact Scan.leaves_eof _
    · exact run
  | cons next rest =>
    simp only [integerPart]
    split
    · split
      · exact Scan.leaves_error _ _ _
      · exact Scan.leaves_found (Nat.le_refl _)
    · exact run

private theorem fractionPart_leaves (rest : Bytes) : (fractionPart rest).Leaves rest.length := by
  cases rest with
  | nil => exact Scan.leaves_eof _
  | cons ch rest =>
    rw [fractionPart]
    split
    · refine ((digitRun_leaves rest).mono (Nat.le_succ _)).bind ?_
      intro digits left short
      split
      · exact Scan.leaves_error _ _ _
      · exact Scan.leaves_found short
    · exact Scan.leaves_found (Nat.le_refl _)

private theorem exponentSign_leaves (rest : Bytes) : (exponentSign rest).Leaves rest.length := by
  cases rest with
  | nil => exact Scan.leaves_eof _
  | cons ch rest =>
    rw [exponentSign]
    split
    · exact Scan.leaves_found (Nat.le_succ _)
    · split
      · exact Scan.leaves_found (Nat.le_succ _)
      · exact Scan.leaves_found (Nat.le_refl _)

private theorem exponentPart_leaves (rest : Bytes) : (exponentPart rest).Leaves rest.length := by
  cases rest with
  | nil => exact Scan.leaves_eof _
  | cons ch rest =>
    rw [exponentPart]
    split
    · refine ((exponentSign_leaves rest).mono (Nat.le_succ _)).bind ?_
      intro negative left short
      refine ((digitRun_leaves left).mono short).bind ?_
      intro digits left short
      split
      · exact Scan.leaves_error _ _ _
      · exact Scan.leaves_found short
    · exact Scan.leaves_found (Nat.le_refl _)

theorem getNumberToken_leaves (ch : UInt8) (rest : Bytes) (starts : isDigit ch || ch == 45) :
    (getNumberToken (ch :: rest)).Leaves rest.length := by
  have behindSign : (integerPart (if ch == 45 then rest else ch :: rest)).Leaves rest.length := by
    split
    · exact integerPart_leaves rest
    next unsigned =>
      rw [Bool.or_eq_true] at starts
      exact integerPart_digit rest (starts.resolve_right unsigned)
  refine behindSign.bind ?_
  intro digits left short
  refine ((fractionPart_leaves left).mono short).bind ?_
  intro fraction left short
  refine ((exponentPart_leaves left).mono short).bind ?_
  intro exponent left short
  split
  · exact Scan.leaves_error _ _ _
  · exact Scan.leaves_found short

private theorem hexQuadLoop_length (n : Nat) (c : UInt8) (tmp : Nat) (rest : Bytes) :
    (hexQuadLoop n c tmp rest).2.length ≤ rest.length := by
  induction n generalizing c tmp rest with
  | zero => exact Nat.le_refl _
  | succ n ih =>
    have tail : rest.tail.length ≤ rest.length := by simp
    rw [hexQuadLoop]
    split
    · exact tail
    · exact Nat.le_trans (ih _ _ _) tail

private theorem lowQuad_leaves (hi : Nat) (quad : Option Nat × Bytes) :
    (lowQuad hi quad).Leaves quad.2.length := by
  obtain ⟨value, left⟩ := quad
  cases value with
  | none => exact Scan.leaves_error _ _ _
  | some lo =>
    rw [lowQuad]
    split
    · exact Scan.leaves_found (Nat.le_refl _)
    · exact Scan.leaves_error _ _ _

private theorem lowSurrogate_leaves (hi : Nat) (rest : Bytes) :
    (lowSurrogate hi rest).Leaves rest.length := by
  have quad := hexQuadLoop_length 4 0 0 rest.tail.tail
  rw [lowSurrogate]
  split
  · exact Scan.leaves_eof _
  · dsimp only
    split
    · exact Scan.leaves_error _ _ _
    · refine (lowQuad_leaves hi _).mono ?_
      simp only [List.length_tail] at quad
      exact Nat.le_trans quad (by omega)

private theorem hexEscape_leaves (rest : Bytes) : (hexEscape rest).Leaves rest.length := by
  have short := hexQuadLoop_length 4 0 0 rest
  rw [hexEscape]
  split
  · exact Scan.leaves_eof _
  · split
    · exact Scan.leaves_error _ _ _
    next hi left quad =>
      rw [decodeHexQuad] at quad
      rw [quad] at short
      split
      · exact (lowSurrogate_leaves hi left).mono short
      · split
        · exact Scan.leaves_error _ _ _
        · exact Scan.leaves_found short

private theorem escape_leaves (rest : Bytes) : (escape rest).Leaves rest.length := by
  cases rest with
  | nil => exact Scan.leaves_eof _
  | cons ch rest =>
    rw [escape]
    split
    · exact hexEscape_leaves _
    · split
      · exact Scan.leaves_error _ _ _
      · exact Scan.leaves_found (Nat.le_refl _)

private theorem stringLoop_leaves (fuel : Nat) (acc : Bytes) (b : UInt8) (rest : Bytes) :
    (stringLoop fuel acc (b :: rest)).Leaves rest.length := by
  induction fuel generalizing acc b rest with
  | zero => exact Scan.leaves_eof _
  | succ fuel ih =>
    have shorter := dropWhile_length_le inFragment rest
    rw [stringLoop, List.tail_cons]
    cases stop : rest.dropWhile inFragment with
    | nil => exact Scan.leaves_eof _
    | cons ch after =>
      have behind : after.length ≤ rest.length := by
        rw [stop, List.length_cons] at shorter
        omega
      dsimp only
      split
      · exact Scan.leaves_error _ _ _
      · split
        · exact Scan.leaves_error _ _ _
        · split
          · exact Scan.leaves_found behind
          · refine ((escape_leaves after).mono behind).bind ?_
            intro decoded left short
            cases left with
            | nil =>
              rw [stringLoop_nil]
              exact Scan.leaves_eof _
            | cons last left =>
              rw [List.length_cons] at short
              exact (ih _ last left).mono (by omega)

private theorem matchPattern_leaves (pattern : Bytes) (token : Token) (rest : Bytes) :
    (matchPattern pattern token rest).Leaves (rest.length - pattern.length) := by
  unfold matchPattern
  split
  · exact Scan.leaves_eof _
  · split
    · exact Scan.leaves_found (Nat.le_of_eq List.length_drop)
    · exact Scan.leaves_error _ _ _

private theorem wordAt_leaves (ch : UInt8) (rest : Bytes) :
    (wordAt ch (ch :: rest)).Leaves rest.length := by
  have pattern : ∀ (text : Bytes) (token : Token), 0 < text.length →
      (matchPattern text token (ch :: rest)).Leaves rest.length := by
    intro text token present
    refine (matchPattern_leaves text token (ch :: rest)).mono ?_
    rw [List.length_cons]
    omega
  unfold wordAt
  split
  · exact pattern _ _ (by decide)
  split
  · exact pattern _ _ (by decide)
  split
  · exact pattern _ _ (by decide)
  split
  · exact (stringLoop_leaves _ [] ch rest).map _
  split
  next starts => exact (getNumberToken_leaves ch rest starts).map _
  split
  · exact Scan.leaves_error _ _ _
  · exact Scan.leaves_error _ _ _

/-- Every token takes at least one byte. -/
theorem getToken_leaves {s rest : Bytes} {token : Token} (found : getToken s = .found token rest) :
    rest.length < s.length := by
  have shorter := dropWhile_length_le isWhitespace s
  rw [getToken, skipWhitespace] at found
  cases start : s.dropWhile isWhitespace with
  | nil =>
    rw [start] at found
    cases found
  | cons ch left =>
    rw [start, List.length_cons] at shorter
    rw [start, tokenAt] at found
    cases single : punctuation ch with
    | some token' =>
      rw [single] at found
      obtain ⟨rfl, rfl⟩ := found
      omega
    | none =>
      rw [single] at found
      have less := wordAt_leaves ch left token rest found
      omega

/-! ### The scanner -/

def Scan.attempt {τ : Type} : Scan τ → Option (Except TokenError τ × Bytes)
  | .eof => none
  | .error e rest => some (.error e, rest)
  | .found x rest => some (.ok x, rest)

/-- The tokeniser as a scanner: an error stops it, and its text is not seen. -/
def tokenScanner : Scanner UInt8 (Except TokenError Token) (Option Token) where
  next s := (getToken s).attempt
  settle := skipWhitespace
  stops t := t.isOk.not
  see t := t.toOption
  shorter {s t r} found goes_on := by
    cases token : getToken s with
    | eof => rw [token] at found; cases found
    | error e rest =>
      rw [token] at found
      obtain ⟨rfl, rfl⟩ := Prod.mk.inj (Option.some.inj found)
      cases goes_on
    | found x rest =>
      rw [token] at found
      obtain ⟨-, rfl⟩ := Prod.mk.inj (Option.some.inj found)
      exact getToken_leaves token
  stops_see {t t'} same := by
    cases t <;> cases t' <;> first | rfl | cases same
  extends_ {s t r} u found := by
    have extends_ := getToken_extends (u := u) s
    cases token : getToken s with
    | eof => rw [token] at found; cases found
    | error e rest =>
      rw [token] at found extends_
      obtain ⟨rfl, rfl⟩ := Prod.mk.inj (Option.some.inj found)
      obtain ⟨e', same⟩ := extends_
      exact ⟨.error e', by rw [same]; rfl, rfl⟩
    | found x rest =>
      rw [token] at found extends_
      obtain ⟨rfl, rfl⟩ := Prod.mk.inj (Option.some.inj found)
      have same : getToken (s ++ u) = .found x (rest ++ u) := extends_
      exact ⟨.ok x, by rw [same]; rfl, rfl⟩
  settles s u := by rw [getToken, getToken, skipWhitespace_append]
  settled s u := skipWhitespace_append s

end Spamass.Json
