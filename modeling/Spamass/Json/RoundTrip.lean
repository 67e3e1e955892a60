import Spamass.Json.Parsing
import Spamass.Json.Written
import Spamass.Web.Encoding

/-!
# What is written is read

The tokens of the text that the writer gives to an object are those of a value: the object,
with the numbers of the digits that were written. So the parser reads what the writer has
written.
-/
namespace Spamass.Json

open Spamass.App Spamass.Emailz Spamass.Web

/-! ### Values that are read -/

section Reread

variable {δ : Type} (texts : NumberTexts δ)

def WriterNumber.numeral : WriterNumber δ → Numeral
  | .unsignedLongLong n => .ofInt n.toNat
  | .longLong n => .ofInt n.toInt
  | .double x => texts.format x
  | .decimal d => texts.stringValue d

mutual

/-- The value that is read where the object was written. -/
def WriterObject.reread : WriterObject δ → Value
  | .dictionary members => .object (rereadMembers members)
  | .array items => .array (rereadItems items)
  | .string text => .string text
  | .number n => .number (n.numeral texts).number
  | .bool x => .bool x
  | .null | .other => .null

def rereadItems : List (WriterObject δ) → List Value
  | [] => []
  | v :: items => v.reread :: rereadItems items

def rereadMembers : List (Option Bytes × WriterObject δ) → List (Bytes × Value)
  | [] => []
  | (key, v) :: members => (key.getD [], v.reread) :: rereadMembers members

end

end Reread

mutual

/-- All its strings and keys are UTF-8. -/
def WriterObject.unicode {δ : Type} : WriterObject δ → Bool
  | .string text => utf8Valid text
  | .array items => itemsUnicode items
  | .dictionary members => membersUnicode members
  | _ => true

def itemsUnicode {δ : Type} : List (WriterObject δ) → Bool
  | [] => true
  | v :: items => v.unicode && itemsUnicode items

def membersUnicode {δ : Type} : List (Option Bytes × WriterObject δ) → Bool
  | [] => true
  | (key, v) :: members => utf8Valid (key.getD []) && (v.unicode && membersUnicode members)

end

variable {δ : Type} {texts : NumberTexts δ}

private theorem numberText_numeral (n : WriterNumber δ) :
    numberText texts n = (n.numeral texts).text := by
  have formatted : ∀ i : Int, (Numeral.ofInt i).text =
      if i < 0 then 45 :: decimal i.natAbs else decimal i.natAbs := by
    intro i
    simp only [Numeral.text, Numeral.ofInt, Numeral.pointText, Numeral.exponentText,
      List.append_nil, decide_eq_true_eq]
    split <;> rfl
  cases n with
  | unsignedLongLong n =>
    rw [numberText, WriterNumber.numeral, formatted, if_neg (by omega), Int.natAbs_natCast]
  | longLong n =>
    rw [numberText, WriterNumber.numeral, formatted]
    simp only [Int64.lt_iff_toInt_lt, Int64.toInt_zero]
  | double x => rfl
  | decimal d => rfl

mutual

private theorem depth_reread (v : WriterObject δ) : (v.reread texts).depth = v.depth := by
  match v with
  | .null | .bool _ | .number _ | .string _ | .other => rfl
  | .array items =>
    rw [WriterObject.reread, Value.depth, WriterObject.depth, itemsDepth_reread items]
  | .dictionary members =>
    rw [WriterObject.reread, Value.depth, WriterObject.depth, membersDepth_reread members]

private theorem itemsDepth_reread (items : List (WriterObject δ)) :
    itemsDepth (rereadItems texts items) = itemsNesting items := by
  match items with
  | [] => rfl
  | v :: items =>
    rw [rereadItems, itemsDepth, itemsNesting, depth_reread v, itemsDepth_reread items]

private theorem membersDepth_reread (members : List (Option Bytes × WriterObject δ)) :
    membersDepth (rereadMembers texts members) = membersNesting members := by
  match members with
  | [] => rfl
  | (key, v) :: members =>
    rw [rereadMembers, membersDepth, membersNesting, depth_reread v, membersDepth_reread members]

end

/-! ### Strings -/

/-- The escape of a character is decoded as the character, up to its last byte. -/
private theorem escape_strForChar (c : UInt8) (special : inFragment c = false) :
    strForChar c = backslash :: (strForChar c).tail ∧
      escape (strForChar c).tail = .found [c] [(strForChar c).getLastD 0] := by
  have all : ∀ n < 256, inFragment (UInt8.ofNat n) = false →
      strForChar (UInt8.ofNat n) = backslash :: (strForChar (UInt8.ofNat n)).tail ∧
        escape (strForChar (UInt8.ofNat n)).tail =
          .found [UInt8.ofNat n] [(strForChar (UInt8.ofNat n)).getLastD 0] := by
    decide +kernel
  have this := all c.toNat c.toNat_lt
  rw [UInt8.ofNat_toNat] at this
  exact this special

private theorem escaped_append (text text' : Bytes) :
    escaped (text ++ text') = escaped text ++ escaped text' := List.flatMap_append

private theorem escaped_cons (c : UInt8) (text : Bytes) :
    escaped (c :: text) = (if inFragment c then [c] else strForChar c) ++ escaped text := by
  rw [escaped, List.flatMap_cons, inFragment]
  cases c == quote <;> cases c == backslash <;> cases decide (c < 0x20) <;> rfl

private theorem escaped_fragment {text : Bytes} (inside : ∀ b ∈ text, inFragment b = true) :
    escaped text = text := by
  induction text with
  | nil => rfl
  | cons b text ih =>
    rw [escaped_cons, if_pos (inside b (List.mem_cons_self ..)),
      ih fun later member => inside later (List.mem_cons_of_mem _ member), List.singleton_append]

/-- A character that is not in a fragment is an ASCII character. -/
private theorem special_ascii {c : UInt8} (special : inFragment c = false) : c < 0x80 := by
  simp only [inFragment, Bool.not_eq_false', Bool.or_eq_true, beq_iff_eq, decide_eq_true_eq]
    at special
  rcases special with (rfl | rfl) | control
  · decide
  · decide
  · exact UInt8.lt_trans control (by decide)

private theorem stringLoop_escaped (fuel : Nat) (text : Bytes) (valid : utf8Valid text = true)
    (enough : (escaped text).length < fuel) (acc : Bytes) (b : UInt8) (rest : Bytes) :
    stringLoop fuel acc (b :: (escaped text ++ quote :: rest)) = .found (acc ++ text) rest := by
  induction fuel generalizing text acc b with
  | zero => exact absurd enough (Nat.not_lt_zero _)
  | succ fuel ih =>
    have split : text.takeWhile inFragment ++ text.dropWhile inFragment = text :=
      List.takeWhile_append_dropWhile
    have inside : ∀ b ∈ text.takeWhile inFragment, inFragment b = true :=
      fun b member => List.mem_takeWhile_imp member
    have head := List.head?_dropWhile_not inFragment text
    generalize text.takeWhile inFragment = front at split inside
    cases back : text.dropWhile inFragment with
    | nil =>
      -- the last fragment ends at the closing quote
      rw [back, List.append_nil] at split
      obtain rfl := split
      have stop : inFragment quote = false := by decide
      rw [stringLoop, List.tail_cons, escaped_fragment inside,
        List.dropWhile_append_of_pos inside, List.dropWhile_cons_of_neg (by simp [stop])]
      dsimp only
      rw [List.takeWhile_append_of_pos inside, List.takeWhile_cons_of_neg (by simp [stop]),
        List.append_nil, stringWithUtf8, if_pos valid]
      rfl
    | cons c more =>
      -- a fragment and an escape, and the string goes on behind them
      rw [back] at split head
      obtain rfl := split
      have special : inFragment c = false := head
      obtain ⟨first, behind⟩ := utf8From_front (le_refl _) (special_ascii special) valid
      obtain ⟨begins, decoded⟩ := escape_strForChar c special
      have stop : inFragment backslash = false := by decide
      rw [escaped_append, escaped_fragment inside, escaped_cons, special,
        if_neg Bool.false_ne_true, begins] at enough ⊢
      -- the escape is followed by more text, with its last byte in front
      have extends_ := escape_extends (u := escaped more ++ quote :: rest) (strForChar c).tail
      rw [decoded] at extends_
      have shorter : (escaped more).length < fuel := by
        simp only [List.length_append, List.length_cons] at enough
        omega
      have next := ih more behind shorter (acc ++ front ++ [c]) ((strForChar c).getLastD 0)
      rw [stringLoop, List.tail_cons, List.append_assoc, List.cons_append, List.cons_append,
        List.append_assoc, List.dropWhile_append_of_pos inside,
        List.dropWhile_cons_of_neg (by simp [stop])]
      dsimp only
      rw [List.takeWhile_append_of_pos inside, List.takeWhile_cons_of_neg (by simp [stop]),
        List.append_nil, stringWithUtf8, utf8Valid, if_pos first]
      have escape_ : escape ((strForChar c).tail ++ (escaped more ++ quote :: rest)) =
          .found [c] ((strForChar c).getLastD 0 :: (escaped more ++ quote :: rest)) :=
        extends_ (List.cons_ne_nil _ _)
      dsimp only
      rw [if_neg (by decide), if_neg (by decide), escape_, Scan.bind, next]
      simp only [List.append_assoc, List.singleton_append]

private theorem getToken_string (text : Bytes) (valid : utf8Valid text = true) (rest : Bytes) :
    getToken (stringText text ++ rest) = .found (.string text) rest := by
  have whole : stringText text ++ rest = quote :: (escaped text ++ quote :: rest) := by
    simp only [stringText, List.cons_append, List.append_assoc, List.nil_append]
  have found := stringLoop_escaped (stringText text ++ rest).length text valid (by
    simp only [stringText, List.length_append, List.length_cons]
    omega) [] quote rest
  rw [← whole, ← getStringToken, List.nil_append] at found
  have token : getToken (stringText text ++ rest) =
      (getStringToken (stringText text ++ rest)).map .string := rfl
  rw [token, found]
  rfl

/-! ### Tokens of texts -/

theorem Scans.white {white s left : Bytes} {tokens : List Token}
    (blank : ∀ b ∈ white, isWhitespace b = true) (scans : Scans s tokens left) :
    Scans (white ++ s) tokens left := by
  have same : skipWhitespace (white ++ s) = skipWhitespace s :=
    List.dropWhile_append_of_pos blank
  cases scans with
  | eof ended =>
    rw [← same]
    refine .eof ?_
    rwa [getToken, same]
  | token found later =>
    refine .token ?_ later
    rwa [getToken, same]

theorem Scans.punctuation {ch : UInt8} {rest left : Bytes} {token : Token} {more : List Token}
    (mark : punctuation ch = some token) (visible : isWhitespace ch = false)
    (later : Scans rest more left) : Scans (ch :: rest) (token :: more) left := by
  refine .token ?_ later
  rw [getToken, skipWhitespace, List.dropWhile_cons_of_neg (by simp [visible]), tokenAt, mark]

private theorem matchPattern_self (pattern : Bytes) (token : Token) (rest : Bytes) :
    matchPattern pattern token (pattern ++ rest) = .found token rest := by
  have long : ¬ (pattern ++ rest).length < pattern.length := by
    rw [List.length_append]
    omega
  rw [matchPattern, if_neg long, List.take_left, if_pos rfl, List.drop_left]

/-- A number begins with a digit or with its sign. -/
theorem getToken_digit {ch : UInt8} (starts : (isDigit ch || ch == 45) = true) (rest : Bytes) :
    getToken (ch :: rest) = (getNumberToken (ch :: rest)).map .number := by
  have all : ∀ n < 256, (isDigit (UInt8.ofNat n) || UInt8.ofNat n == 45) = true →
      isWhitespace (UInt8.ofNat n) = false ∧ Json.punctuation (UInt8.ofNat n) = none ∧
        (UInt8.ofNat n == 110) = false ∧ (UInt8.ofNat n == 116) = false ∧
        (UInt8.ofNat n == 102) = false ∧ (UInt8.ofNat n == quote) = false := by
    decide +kernel
  have this := all ch.toNat ch.toNat_lt
  rw [UInt8.ofNat_toNat] at this
  obtain ⟨visible, mark, null, true_, false_, string⟩ := this starts
  rw [getToken, skipWhitespace, List.dropWhile_cons_of_neg (by simp [visible]), tokenAt, mark]
  dsimp only
  rw [wordAt, null, true_, false_, string, starts]
  rfl

theorem getToken_numeral (p : Numeral) {b : UInt8} (stop : delimits b = true) (rest : Bytes) :
    getToken (p.text ++ b :: rest) = .found (.number p.number) (b :: rest) := by
  have number := p.getNumberToken_text rest stop
  obtain ⟨ch, more, begins, starts⟩ := p.text_begins
  rw [begins, List.cons_append] at number ⊢
  rw [getToken_digit starts, number]
  rfl

/-- The token of a separator. -/
def WriterState.tokens : WriterState → List Token
  | .objectKey | .arrayValue => [.separator]
  | .objectValue => [.keyvalSeparator]
  | _ => []

private theorem white_whitespace (depth : Nat) (state : WriterState) :
    ∀ b ∈ state.whitespace depth, isWhitespace b = true := by
  have indent : ∀ b ∈ (List.replicate depth (ascii "  ")).flatten, isWhitespace b = true := by
    intro b member
    obtain ⟨two, copy, inside⟩ := List.mem_flatten.mp member
    rw [List.eq_of_mem_replicate copy] at inside
    have blank : (ascii "  ").all isWhitespace = true := by decide
    exact List.all_eq_true.mp blank b inside
  have line : ∀ b ∈ ascii "\n" ++ (List.replicate depth (ascii "  ")).flatten,
      isWhitespace b = true := by
    intro b member
    rcases List.mem_append.mp member with first | later
    · have blank : (ascii "\n").all isWhitespace = true := by decide
      exact List.all_eq_true.mp blank b first
    · exact indent b later
  cases state with
  | objectValue =>
    have blank : (ascii " ").all isWhitespace = true := by decide
    exact List.all_eq_true.mp blank
  | _ => exact line

theorem scans_lead (humanReadable : Bool) (depth : Nat) (state : WriterState) {rest left : Bytes}
    {more : List Token} (later : Scans rest more left) :
    Scans (state.lead humanReadable depth ++ rest) (state.tokens ++ more) left := by
  have blank : ∀ b ∈ (if humanReadable && state != .start then state.whitespace depth else []),
      isWhitespace b = true := by
    split
    · exact white_whitespace depth state
    · exact List.forall_mem_nil _
  have spaced := later.white blank
  rw [WriterState.lead, List.append_assoc]
  generalize (if humanReadable && state != .start then state.whitespace depth else []) = white at *
  cases state <;>
    first
      | exact spaced
      | exact spaced.punctuation rfl rfl

/-- The tokens of the parts of a container, behind what is there before. -/
def partTokens (state : WriterState) : List (List Token) → List Token
  | [] => []
  | first :: others => state.tokens ++ (first ++ others.flatMap (Token.separator :: ·))

private theorem partTokens_first {state : WriterState} (first : state.tokens = [])
    (parts : List (List Token)) : partTokens state parts = separated parts := by
  cases parts with
  | nil => rfl
  | cons part parts => rw [partTokens, first, separated, List.nil_append]

private theorem partTokens_more {state : WriterState} (more : state.tokens = [.separator])
    (parts : List (List Token)) :
    partTokens state parts = parts.flatMap (Token.separator :: ·) := by
  cases parts with
  | nil => rfl
  | cons part parts => rw [partTokens, more, List.flatMap_cons, List.singleton_append]; rfl

private theorem delimited_closingSpace (humanReadable : Bool) (depth : Nat) {bracket : Bytes}
    (ends : delimited bracket = true) :
    delimited (closingSpace humanReadable depth ++ bracket) = true := by
  cases humanReadable
  · exact ends
  · rfl

section Scanning

variable {humanReadable : Bool} {depth : Nat} {rest left : Bytes} {more : List Token}

private theorem delimited_items (items : List (WriterObject δ)) (ends : delimited rest = true) :
    delimited (itemsText texts humanReadable depth .arrayValue items ++ rest) =
      true := by
  cases items with
  | nil => exact ends
  | cons v items => rw [itemsText]; rfl

theorem delimited_members (members : List (Option Bytes × WriterObject δ))
    (ends : delimited rest = true) :
    delimited (membersText texts humanReadable depth .objectKey members ++ rest) =
      true := by
  cases members with
  | nil => exact ends
  | cons m members => rw [membersText]; rfl

/-- The token of a number whose end can be seen. -/
private theorem scans_number (n : WriterNumber δ) (later : Scans rest more left)
    (ends : delimited rest = true) :
    Scans (numberText texts n ++ rest) (.number (n.numeral texts).number :: more) left := by
  cases rest with
  | nil => cases ends
  | cons b rest =>
    rw [numberText_numeral]
    exact .token (getToken_numeral (n.numeral texts) ends rest) later

private theorem scans_closingSpace {ch : UInt8} {token : Token} (mark : punctuation ch = some token)
    (visible : isWhitespace ch = false) (later : Scans rest more left) :
    Scans (closingSpace humanReadable depth ++ (ch :: rest)) (token :: more) left := by
  have closed := later.punctuation mark visible
  cases humanReadable with
  | false => exact closed
  | true => exact closed.white (white_whitespace depth .arrayStart)

mutual

/-- A text has the tokens of the value that is read, whatever comes behind it. -/
private theorem scans_value (v : WriterObject δ) (unicode : v.unicode = true)
    (writable : v.writable texts = true) (depth : Nat) {rest : Bytes} {more : List Token}
    (later : Scans rest more left) (ends : v.isContainer = true ∨ delimited rest = true) :
    Scans (v.text texts humanReadable depth ++ rest) ((v.reread texts).tokens ++ more)
      left := by
  match v with
  | .null => exact .token (matchPattern_self (ascii "null") .null rest) later
  | .bool true => exact .token (matchPattern_self (ascii "true") .true_ rest) later
  | .bool false => exact .token (matchPattern_self (ascii "false") .false_ rest) later
  | .number n => exact scans_number n later (ends.resolve_left Bool.false_ne_true)
  | .other => exact absurd writable Bool.false_ne_true
  | .string text => exact .token (getToken_string text unicode rest) later
  | .array items =>
    have close : Scans (closingSpace humanReadable depth ++ (93 :: rest)) (.arrayEnd :: more) left :=
      scans_closingSpace rfl rfl later
    have inside := scans_items items unicode writable .arrayStart (depth + 1) close
      (delimited_closingSpace humanReadable depth rfl)
    rw [partTokens_first rfl] at inside
    have opening : punctuation 91 = some .arrayStart := rfl
    have whole := inside.punctuation opening rfl
    rw [WriterObject.text, WriterObject.reread, Value.tokens]
    simp only [List.cons_append, List.append_assoc, List.nil_append]
    exact whole
  | .dictionary members =>
    have close : Scans (closingSpace humanReadable depth ++ (125 :: rest)) (.objectEnd :: more) left :=
      scans_closingSpace rfl rfl later
    have inside := scans_members members unicode writable .objectStart (depth + 1) close
      (delimited_closingSpace humanReadable depth rfl)
    rw [partTokens_first rfl] at inside
    have opening : punctuation 123 = some .objectStart := rfl
    have whole := inside.punctuation opening rfl
    rw [WriterObject.text, WriterObject.reread, Value.tokens]
    simp only [List.cons_append, List.append_assoc, List.nil_append]
    exact whole

private theorem scans_items (items : List (WriterObject δ)) (unicode : itemsUnicode items = true)
    (writable : itemsWritable texts items = true) (state : WriterState) (depth : Nat)
    {rest : Bytes} {more : List Token} (later : Scans rest more left)
    (ends : delimited rest = true) :
    Scans (itemsText texts humanReadable depth state items ++ rest)
      (partTokens state (itemTokens (rereadItems texts items)) ++ more) left := by
  match items with
  | [] => exact later
  | v :: items =>
    rw [itemsUnicode, Bool.and_eq_true] at unicode
    rw [itemsWritable, Bool.and_eq_true] at writable
    -- behind a value there is a separator or a bracket, which also ends a number
    have others := scans_items items unicode.2 writable.2 .arrayValue depth later ends
    rw [partTokens_more rfl] at others
    have value := scans_value v unicode.1 writable.1 depth others
      (Or.inr (delimited_items items ends))
    have whole := scans_lead humanReadable depth state value
    rw [itemsText, rereadItems, itemTokens, partTokens]
    simpa only [List.append_assoc] using whole

theorem scans_members (members : List (Option Bytes × WriterObject δ))
    (unicode : membersUnicode members = true)
    (writable : membersWritable texts members = true) (state : WriterState) (depth : Nat)
    {rest : Bytes} {more : List Token} (later : Scans rest more left)
    (ends : delimited rest = true) :
    Scans (membersText texts humanReadable depth state members ++ rest)
      (partTokens state (memberTokens (rereadMembers texts members)) ++ more) left := by
  match members with
  | [] => exact later
  | (key, v) :: members =>
    rw [membersUnicode, Bool.and_eq_true, Bool.and_eq_true] at unicode
    rw [membersWritable, Bool.and_eq_true, Bool.and_eq_true] at writable
    have others := scans_members members unicode.2.2 writable.2.2 .objectKey depth later ends
    rw [partTokens_more rfl] at others
    have value := scans_value v unicode.2.1 writable.2.1 depth others
      (Or.inr (delimited_members members ends))
    have behind := scans_lead humanReadable depth .objectValue value
    have member := Scans.token (getToken_string (key.getD []) unicode.1 _) behind
    have whole := scans_lead humanReadable depth state member
    rw [membersText, rereadMembers, memberTokens, partTokens]
    simpa only [List.append_assoc, List.cons_append, WriterState.tokens, List.nil_append]
      using whole

end

end Scanning

/-! ### Round trip -/

private theorem reread_container (v : WriterObject δ) :
    (v.reread texts).isContainer = v.isContainer := by
  cases v <;> rfl

/-- The number as an integer, if it is one of the classes of integers. -/
def WriterNumber.integer : WriterNumber δ → Option Int
  | .unsignedLongLong n => some n.toNat
  | .longLong n => some n.toInt
  | _ => none

/-- An integer of up to eighteen digits is read as the same integer, though perhaps in the other
class of integers. -/
private theorem integer_reread {n : WriterNumber δ} {i : Int} (integer : n.integer = some i)
    (small : i.natAbs < 10 ^ 18) : (n.numeral texts).number.integer = some i := by
  have numeral : n.numeral texts = .ofInt i := by
    cases n with
    | unsignedLongLong n =>
      obtain rfl := Option.some.inj integer
      rfl
    | longLong n =>
      obtain rfl := Option.some.inj integer
      rfl
    | double x => cases integer
    | decimal d => cases integer
  rw [numeral]
  exact number_ofInt i small

/-- `SBJsonWriter` writes exactly the arrays and dictionaries that are not nested too deeply,
and in which every number is finite, every key is a string and everything else has a class for
JSON. `SBJsonParser` with a limit that is not exceeded reads what was written, with white space
or without, as the object that was given: of the members that share a key it has the last, and
the numbers are those of their digits, which for an integer of up to eighteen digits is the
integer. -/
theorem written_read (texts : NumberTexts δ) (maxDepth depth : Nat) (humanReadable : Bool)
    (v : WriterObject δ) (container : v.isContainer = true) (unicode : v.unicode = true) :
    let written := dataWithObject texts maxDepth humanReadable v
    ((∃ data, written = .ok data) ↔
      (maxDepth = 0 ∨ v.depth ≤ maxDepth) ∧ v.writable texts = true) ∧
    (∀ data, written = .ok data → v.depth ≤ depth →
      objectWithData depth data = some (.ok (some (v.reread texts).collected))) ∧
    ∀ (n : WriterNumber δ) (i : Int), n.integer = some i → i.natAbs < 10 ^ 18 →
      (n.numeral texts).number.integer = some i := by
  obtain ⟨writes, fails⟩ := dataWithObject_text texts maxDepth humanReadable container
  dsimp only
  refine ⟨⟨?_, fun ok => ⟨_, writes ok⟩⟩, ?_, fun n i => integer_reread⟩
  · rintro ⟨data, written⟩
    by_contra short
    obtain ⟨e, failed⟩ := fails short
    rw [written] at failed
    cases failed
  · intro data written room
    by_cases ok : (maxDepth = 0 ∨ v.depth ≤ maxDepth) ∧ v.writable texts = true
    · obtain rfl := Except.ok.inj (written.symm.trans (writes ok))
      -- nothing stands behind the document, whose bracket ends it
      have nothing : Scans [] [] [] := .eof rfl
      have scans : Scans (v.text texts humanReadable 0 ++ []) _ [] :=
        scans_value v unicode ok.2 0 nothing (Or.inl container)
      rw [List.append_nil, List.append_nil] at scans
      exact objectWithData_scanned ((reread_container v).trans container)
        ((depth_reread v).trans_le room) scans
    · obtain ⟨e, failed⟩ := fails ok
      rw [written] at failed
      cases failed

/-- A few numbers, with a double by its bits. -/
def fewTexts : NumberTexts UInt64 where
  isPositiveInfinity
    | .double x => x == 0x7FF0000000000000
    | _ => false
  isNegativeInfinity
    | .double x => x == 0xFFF0000000000000
    | _ => false
  isNotANumber
    | .double x => 0x7FF0000000000000 < x &&& 0x7FFFFFFFFFFFFFFF
    | _ => false
  stringValue
    | .parts 25 (-1) false =>
      { Numeral.ofInt 2 with
        fraction := some (ascii "5")
        fractionLength := by decide
        fractionDigits := by
          rintro digits ⟨⟩
          exact List.all_eq_true.mp (by decide) }
    | _ => .ofInt 0
  format x :=
    if x = 0x4415AF1D78B58C40 then
      { Numeral.ofInt 1 with
        exponent := some (false, ascii "20")
        exponentLength := by decide
        exponentDigits := by
          rintro e ⟨⟩
          exact List.all_eq_true.mp (by decide) }
    else .ofInt 0

def report : WriterObject UInt64 :=
  .dictionary [(some (ascii "a\n"), .array [.null, .number (.longLong (-7)), .dictionary []]),
    (some (ascii "b"), .number (.decimal (.parts 25 (-1) false))),
    (some (ascii "c"), .number (.double 0x4415AF1D78B58C40))]

def infinite : WriterObject UInt64 := .array [.number (.double 0x7FF0000000000000)]

theorem written_read_report :
    (∃ data, dataWithObject fewTexts 32 true report = .ok data ∧
      objectWithData 32 data = some (.ok (some (.object
        [(ascii "a\n", .array [.null, .number (.longLong (-7)), .object []]),
          (ascii "b", .number (.decimal (.parts 25 (-1) false))),
          (ascii "c", .number (.decimal (.parts 1 20 false)))])))) ∧
      ∀ data, dataWithObject fewTexts 0 true infinite ≠ .ok data := by
  have shallow : report.depth ≤ 32 := by decide
  have writable : report.writable fewTexts = true := by decide +kernel
  obtain ⟨writes, reads, -⟩ := written_read fewTexts 32 32 true report rfl (by decide +kernel)
  obtain ⟨data, written⟩ := writes.mpr ⟨Or.inr shallow, writable⟩
  refine ⟨⟨data, written, reads data written shallow⟩, ?_⟩
  intro data written
  obtain ⟨refuses, -⟩ := written_read fewTexts 0 32 true infinite rfl rfl
  have refused : infinite.writable fewTexts = false := by decide +kernel
  have allowed := (refuses.mp ⟨data, written⟩).2
  rw [refused] at allowed
  cases allowed

end Spamass.Json
