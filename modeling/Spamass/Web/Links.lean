import Spamass.Web.SearchPage

/-!
# The links of the search page

The search page joins the parts of a mail's id into a link, and the view takes the link
apart again: at `&` and `=`, through percent escapes, and at the doubled underscores. Both
are inverse exactly if the recipient has none of their marks.
-/
namespace Spamass.Web

open Spamass.Emailz Spamass.App Spamass.Separated

def ampersand : UInt8 := 38
def equals : UInt8 := 61
def percent : UInt8 := 37

/-! ### Reading a request -/

def hexValue (b : UInt8) : Option UInt8 :=
  if isDigit b then some (b - 48)
  else if 65 ≤ b && b ≤ 70 then some (b - 55)
  else if 97 ≤ b && b ≤ 102 then some (b - 87)
  else none

/-- The bytes of the percent escapes in their places; `none` at a malformed one. -/
def unescapeBytes : Bytes → Option Bytes
  | [] => some []
  | b :: rest =>
    if b = percent then
      match rest with
      | high :: low :: later => do
        let h ← hexValue high
        let l ← hexValue low
        let bytes ← unescapeBytes later
        some ((16 * h + l) :: bytes)
      | _ => none
    else (unescapeBytes rest).map (b :: ·)

/-- `stringByReplacingPercentEscapesUsingEncoding:` for UTF-8, nil where it is not possible. -/
def percentUnescape (text : Bytes) : Option Bytes := (unescapeBytes text).bind stringWithUtf8

/-- One pair of a query; `none` where `setObject:forKey:` raises on a nil object. -/
def enterPair (lower : Bytes → Bytes) (args : List (Bytes × Bytes)) (pair : Bytes) :
    Option (List (Bytes × Bytes)) :=
  match pair.splitOn equals with
  | [name, value] =>
    (percentUnescape value).map fun text =>
      (lower name, text) :: args.filter fun entry => entry.1 != lower name
  | _ => some args

/-- `parseCgiParams:`. -/
def parseCgiParams (lower : Bytes → Bytes) (filePath : Bytes) : Option (List (Bytes × Bytes)) :=
  ((filePath.drop 3).splitOn ampersand).foldlM (enterPair lower) []

/-- What `HTTPSpamassResponse` makes of a request. -/
inductive Page where
  | search
  | view
  | main
  deriving DecidableEq, Repr

def responsePage (filePath : Bytes) : Page :=
  if hasPrefix filePath (ascii "/s?") then .search
  else if hasPrefix filePath (ascii "/v?") then .view
  else .main

/-- What `HTTPEmailViewResponse` looks for. -/
inductive View where
  -- an exception, caught and logged by `HTTPSpamassResponse`
  | raised
  -- "Not a valid request. [101]"
  | invalid
  | mail (address socketId serial : Bytes) (path : Option Bytes)
  deriving DecidableEq, Repr

def viewRequest (lower : Bytes → Bytes) (filePath : Bytes) : View :=
  match parseCgiParams lower filePath with
  | none => .raised
  | some args =>
    match (args.lookup (ascii "e")).map components with
    | some [address, socketId, serial] =>
      .mail address socketId serial (pathWithSocketId socketId serial)
    | _ => .invalid

/-- The `href` of a row. -/
def rowLink (email : SMEmail) : Option Bytes := (emailId email).map (ascii "v?e=" ++ ·)

/-- A click on the link of a mail that was found asks the view for that mail and its file. -/
def Opens (lower : Bytes → Bytes) (m : Mail) : Prop :=
  ∃ href, rowLink m.shown = some href ∧ responsePage (ascii "/" ++ href) = .view ∧
    viewRequest lower (ascii "/" ++ href) =
      .mail m.recipient m.email.socketId m.email.serial
        (pathWithSocketId m.email.socketId m.email.serial)

/-- No mark of a parameter is in the text. -/
def Unescaped (text : Bytes) : Prop := ∀ b ∈ text, b ≠ ampersand ∧ b ≠ equals ∧ b ≠ percent

instance (text : Bytes) : Decidable (Unescaped text) :=
  inferInstanceAs (Decidable (∀ b ∈ text, b ≠ ampersand ∧ b ≠ equals ∧ b ≠ percent))

/-! ### Percent escapes -/

private theorem unescapeBytes_other (b : UInt8) (rest : Bytes) (other : b ≠ percent) :
    unescapeBytes (b :: rest) = (unescapeBytes rest).map (b :: ·) := by
  rw [unescapeBytes.eq_def]
  simp only [other, if_false]

private theorem unescapeBytes_plain (text : Bytes) (apart : ∀ b ∈ text, b ≠ percent) :
    unescapeBytes text = some text := by
  induction text with
  | nil => rfl
  | cons b text ih =>
    have rest := ih fun later member => apart later (List.mem_cons_of_mem _ member)
    rw [unescapeBytes_other b text (apart b (List.mem_cons_self ..)), rest, Option.map_some]

/-- An escape makes the text shorter. -/
private theorem unescapeBytes_shorter (text : Bytes) {bytes : Bytes}
    (unescaped : unescapeBytes text = some bytes) :
    bytes.length ≤ text.length ∧ (percent ∈ text → bytes.length < text.length) := by
  induction text using unescapeBytes.induct generalizing bytes with
  | case1 =>
    obtain rfl := Option.some.inj unescaped
    simp
  -- three bytes give one
  | case2 high low later ih =>
    rw [unescapeBytes, if_pos rfl] at unescaped
    simp only [Option.bind_eq_bind, Option.bind_eq_some_iff] at unescaped
    obtain ⟨h, -, l, -, rest, here, joined⟩ := unescaped
    obtain rfl := Option.some.inj joined
    have shorter := (ih here).1
    simp only [List.length_cons]
    omega
  | case3 rest short =>
    rw [unescapeBytes.eq_def] at unescaped
    simp only [if_true] at unescaped
    cases unescaped
  | case4 b rest other ih =>
    rw [unescapeBytes_other b rest other] at unescaped
    obtain ⟨bytes', here, rfl⟩ := Option.map_eq_some_iff.mp unescaped
    obtain ⟨shorter, strictly⟩ := ih here
    refine ⟨Nat.succ_le_succ shorter, fun member => ?_⟩
    rcases List.mem_cons.mp member with same | later
    · exact absurd same.symm other
    · exact Nat.succ_lt_succ (strictly later)

/-! ### Parameters -/

/-- A part of a split text is no longer than the text. -/
theorem splitOn_length_le (mark : UInt8) (text part : Bytes) (member : part ∈ text.splitOn mark) :
    part.length ≤ text.length := by
  induction text generalizing part with
  | nil =>
    rw [List.splitOn_nil, List.mem_singleton] at member
    rw [member]
  | cons b text ih =>
    rw [List.splitOn_cons_eq_if_modifyHead] at member
    split at member
    · rcases List.mem_cons.mp member with rfl | later
      · exact Nat.zero_le _
      · exact Nat.le_succ_of_le (ih part later)
    · obtain ⟨first, others, split⟩ := List.exists_cons_of_ne_nil (List.splitOn_ne_nil mark text)
      rw [split, List.modifyHead_cons] at member
      rcases List.mem_cons.mp member with rfl | later
      · exact Nat.succ_le_succ (ih first (by simp [split]))
      · exact Nat.le_succ_of_le (ih part (by simp [split, later]))

private theorem splitOn_two {mark : UInt8} {text name value : Bytes}
    (split : text.splitOn mark = [name, value]) : text = name ++ mark :: value := by
  have joined : List.intercalate [mark] (text.splitOn mark) = text := List.intercalate_splitOn mark
  rw [split] at joined
  simpa [List.intercalate] using joined.symm

/-- Every argument comes from the value of a pair. -/
private theorem enterPair_value (lower : Bytes → Bytes) (pairs : List Bytes)
    {old args : List (Bytes × Bytes)} (parsed : pairs.foldlM (enterPair lower) old = some args)
    {name text : Bytes} (member : (name, text) ∈ args) :
    (name, text) ∈ old ∨ ∃ pair ∈ pairs, ∃ name value,
      pair.splitOn equals = [name, value] ∧ percentUnescape value = some text := by
  induction pairs generalizing old with
  | nil =>
    obtain rfl := Option.some.inj parsed
    exact Or.inl member
  | cons pair pairs ih =>
    rw [List.foldlM_cons, Option.bind_eq_bind, Option.bind_eq_some_iff] at parsed
    obtain ⟨next, here, later⟩ := parsed
    -- from a later pair, or from this one or what was there before
    rcases ih later with new | ⟨pair', member', found⟩
    · unfold enterPair at here
      split at here
      next first value split =>
        obtain ⟨bytes, unescaped, rfl⟩ := Option.map_eq_some_iff.mp here
        rcases List.mem_cons.mp new with same | kept
        · obtain ⟨-, rfl⟩ := Prod.mk.inj same
          exact Or.inr ⟨pair, List.mem_cons_self .., first, value, split, unescaped⟩
        · exact Or.inl (List.mem_filter.mp kept).1
      · obtain rfl := Option.some.inj here
        exact Or.inl new
    · exact Or.inr ⟨pair', List.mem_cons_of_mem _ member', found⟩

/-! ### Strings -/

/-- What a byte at the start of a character leaves to come. -/
def utf8Lead (b : UInt8) : Option (Nat × UInt8 × UInt8) :=
  if b < 0x80 then some (0, 0x80, 0xBF)
  else if 0xC2 ≤ b && b ≤ 0xDF then some (1, 0x80, 0xBF)
  else if b == 0xE0 then some (2, 0xA0, 0xBF)
  else if b == 0xED then some (2, 0x80, 0x9F)
  else if 0xE1 ≤ b && b ≤ 0xEF then some (2, 0x80, 0xBF)
  else if b == 0xF0 then some (3, 0x90, 0xBF)
  else if 0xF1 ≤ b && b ≤ 0xF3 then some (3, 0x80, 0xBF)
  else if b == 0xF4 then some (3, 0x80, 0x8F)
  else none

theorem utf8From_lead (lo hi b : UInt8) (rest : Bytes) :
    utf8From 0 lo hi (b :: rest) =
      match utf8Lead b with
      | some (need, lo, hi) => utf8From need lo hi rest
      | none => false := by
  unfold utf8Lead
  rw [utf8From.eq_def]
  dsimp only
  split_ifs <;> rfl

theorem utf8Lead_low {b : UInt8} {need : Nat} {lo hi : UInt8}
    (lead : utf8Lead b = some (need, lo, hi)) : 0x80 ≤ lo := by
  unfold utf8Lead at lead
  split_ifs at lead
  all_goals
    obtain ⟨-, rfl, -⟩ := lead
    decide

theorem utf8From_start (lo hi : UInt8) (text : Bytes) : utf8From 0 lo hi text = utf8Valid text := by
  cases text with
  | nil => simp [utf8Valid, utf8From]
  | cons b rest => rw [utf8Valid, utf8From_lead, utf8From_lead]

/-- An ASCII character is one by itself. -/
theorem utf8Valid_low {b : UInt8} (rest : Bytes) (low : b < 0x80) :
    utf8Valid (b :: rest) = utf8Valid rest := by
  rw [utf8Valid, utf8From_lead, utf8Lead, if_pos low]
  rfl

/-- A string goes on with a string. -/
theorem utf8From_append {need : Nat} {lo hi : UInt8} {front back : Bytes}
    (front_ : utf8From need lo hi front = true) (back_ : utf8Valid back = true) :
    utf8From need lo hi (front ++ back) = true := by
  induction front generalizing need lo hi with
  | nil =>
    cases need with
    | zero => rwa [List.nil_append, utf8From_start]
    | succ need => simp [utf8From] at front_
  | cons b front ih =>
    cases need with
    | zero =>
      rw [List.cons_append, utf8From_lead]
      rw [utf8From_lead] at front_
      split at front_
      next need lo hi lead =>
        exact ih front_
      · cases front_
    | succ need =>
      simp only [List.cons_append, utf8From, Bool.and_eq_true] at front_ ⊢
      exact ⟨front_.1, ih front_.2⟩

theorem utf8Valid_ascii (text : Bytes) (low : ∀ b ∈ text, b < 0x80) : utf8Valid text = true := by
  induction text with
  | nil => simp [utf8Valid, utf8From]
  | cons b text ih =>
    rw [utf8Valid_low text (low b (List.mem_cons_self ..))]
    exact ih fun later member => low later (List.mem_cons_of_mem _ member)

/-- The parts of a string between ASCII characters are strings. -/
private theorem utf8From_splitOnP (set : UInt8 → Bool) (ascii_ : ∀ b, set b = true → b < 0x80)
    {need : Nat} {lo hi : UInt8} (low : 0x80 ≤ lo) (text : Bytes)
    (valid : utf8From need lo hi text = true) :
    ∃ first others, text.splitOnP set = first :: others ∧ utf8From need lo hi first = true ∧
      ∀ part ∈ others, utf8Valid part = true := by
  induction text generalizing need lo hi with
  | nil => exact ⟨[], [], List.splitOnP_nil, valid, by simp⟩
  | cons b text ih =>
    rw [List.splitOnP_cons_eq_if_modifyHead]
    -- a mark is ASCII, and can only stand between two characters
    by_cases sep : set b = true
    · rw [if_pos sep]
      have small := ascii_ b sep
      cases need with
      | zero =>
        rw [utf8From_lead, utf8Lead, if_pos small] at valid
        obtain ⟨first, others, split, first_, others_⟩ := ih (by decide) valid
        refine ⟨[], _, rfl, by simp [utf8From], ?_⟩
        rw [split]
        intro part member
        rcases List.mem_cons.mp member with rfl | later
        · exact first_
        · exact others_ part later
      | succ need =>
        simp only [utf8From, Bool.and_eq_true, decide_eq_true_eq] at valid
        exact absurd (lt_of_lt_of_le small low) (not_lt.mpr valid.1.1)
    · rw [if_neg sep]
      cases need with
      | zero =>
        rw [utf8From_lead] at valid
        split at valid
        next need lo' hi' lead =>
          obtain ⟨first, others, split, first_, others_⟩ := ih (utf8Lead_low lead) valid
          refine ⟨b :: first, others, by rw [split]; rfl, ?_, others_⟩
          rw [utf8From_lead, lead]
          exact first_
        · cases valid
      | succ need =>
        simp only [utf8From, Bool.and_eq_true] at valid
        obtain ⟨first, others, split, first_, others_⟩ := ih (by decide) valid.2
        refine ⟨b :: first, others, by rw [split]; rfl, ?_, others_⟩
        simp only [utf8From, Bool.and_eq_true]
        exact ⟨valid.1, first_⟩

/-- The recipients of a RCPT are strings. -/
private theorem recipientsIn_valid (arg : Bytes) {recipient : Bytes}
    (member : recipient ∈ recipientsIn (stringWithUtf8 arg)) : utf8Valid recipient = true := by
  unfold stringWithUtf8 at member
  split at member
  next valid =>
    have shorter : utf8Valid (behind (ascii "TO:") arg) = true := by
      unfold behind
      split
      next starts =>
        simp only [hasPrefix, Bool.and_eq_true, List.isPrefixOf_iff_prefix] at starts
        obtain ⟨-, rest, rfl⟩ := starts
        rw [List.drop_left]
        exact valid
      · exact valid
    have small : ∀ b, emailSplitSet b = true → b < 0x80 := by
      intro b sep
      have inside : b ∈ ascii " <>,\r\n" := List.contains_iff_mem.mp sep
      have low : (ascii " <>,\r\n").all (· < 0x80) = true := by decide
      exact of_decide_eq_true (List.all_eq_true.mp low b inside)
    obtain ⟨first, others, split, first_, others_⟩ :=
      utf8From_splitOnP emailSplitSet small (by decide) _ shorter
    have part := (List.mem_filter.mp member).1
    rw [componentsInSet, split] at part
    rcases List.mem_cons.mp part with rfl | later
    · exact first_
    · exact others_ recipient later
  · cases member

/-! ### The id of a mail -/

/-- The parts of an id, joined. -/
def joinedId (m : Mail) : Bytes :=
  m.recipient ++ underscore :: underscore ::
    (m.email.socketId ++ underscore :: underscore :: m.email.serial)

private theorem rowLink_shown (m : Mail) : rowLink m.shown = some (ascii "v?e=" ++ joinedId m) := by
  obtain ⟨same, recipients, -⟩ := m.shows
  obtain ⟨socketId, serial⟩ := Prod.mk.inj same
  simp [rowLink, emailId, recipients, socketId, serial, joinedId, separator, ascii, underscore]

/-- A text of a shape that none of the three characters fits has none of them. -/
private theorem unescaped_shaped (shape : List (UInt8 → Bool)) {text : Bytes}
    (length : text.length ≤ shape.length) (passes_ : passes shape text = true)
    (noAmpersand : shape.all (fun check => !check ampersand) = true)
    (noEquals : shape.all (fun check => !check equals) = true)
    (noPercent : shape.all (fun check => !check percent) = true) : Unescaped text := by
  have whole : text.take shape.length = text := List.take_of_length_le length
  rw [← whole]
  intro b member
  exact ⟨passes_apart ampersand shape text noAmpersand passes_ b member,
    passes_apart equals shape text noEquals passes_ b member,
    passes_apart percent shape text noPercent passes_ b member⟩

/-- A socket id and a serial have none of the marks. -/
theorem joinedId_unescaped (m : Mail) : Unescaped (joinedId m) ↔ Unescaped m.recipient := by
  have socketId : Unescaped m.email.socketId :=
    unescaped_shaped socketIdShape m.socketId_shape.1.le m.socketId_shape.2 rfl rfl rfl
  have serial : Unescaped m.email.serial :=
    unescaped_shaped serialShape m.serial_shape.1.le m.serial_shape.2 rfl rfl rfl
  have mark : underscore ≠ ampersand ∧ underscore ≠ equals ∧ underscore ≠ percent := by decide
  -- names and marks have none of the three characters
  constructor
  · intro unescaped b member
    exact unescaped b (List.mem_append_left _ member)
  · intro unescaped b member
    simp only [joinedId, List.mem_append, List.mem_cons] at member
    rcases member with here | rfl | rfl | here | rfl | rfl | here
    · exact unescaped b here
    · exact mark
    · exact mark
    · exact socketId b here
    · exact mark
    · exact mark
    · exact serial b here

theorem joinedId_valid (m : Mail) (valid : utf8Valid m.recipient = true) :
    utf8Valid (joinedId m) = true := by
  refine utf8From_append valid (utf8Valid_ascii _ ?_)
  intro b member
  simp only [List.mem_append, List.mem_cons] at member
  rcases member with rfl | rfl | here | rfl | rfl | here
  · decide
  · decide
  · exact m.socketId_low b here
  · decide
  · decide
  · exact m.serial_low b here

/-- The id is taken apart where it was joined exactly if the recipient is plain. -/
theorem components_joinedId (m : Mail) :
    components (joinedId m) = [m.recipient, m.email.socketId, m.email.serial] ↔
      plain underscore m.recipient = true := by
  have socketId := plain_of_unmarked _ _ m.socketId_unmarked
  constructor
  · intro split
    exact (parts_first _ split nofun).1
  · intro plain_
    rw [components, joinedId, parts_append _ _ _ (plain_ends _ _ plain_),
      parts_append _ _ _ (plain_ends _ _ socketId), parts_plain _ _ plain_,
      parts_plain _ _ socketId, parts_unmarked _ _ m.serial_unmarked]
    rfl

/-- Only the id itself has its parts. -/
private theorem eq_joinedId (m : Mail) {text : Bytes}
    (split : components text = [m.recipient, m.email.socketId, m.email.serial]) :
    text = joinedId m := by
  obtain ⟨-, rest, rfl, split'⟩ := parts_first _ split nofun
  obtain ⟨-, rest', rfl, split''⟩ := parts_first _ split' nofun
  rw [eq_of_parts_one _ split'']
  rfl

/-! ### There and back -/

private theorem viewRequest_mail {lower : Bytes → Bytes} {filePath address socketId serial : Bytes}
    {path : Option Bytes} (asks : viewRequest lower filePath = .mail address socketId serial path) :
    ∃ args text, parseCgiParams lower filePath = some args ∧ (ascii "e", text) ∈ args ∧
      components text = [address, socketId, serial] := by
  unfold viewRequest at asks
  split at asks
  · cases asks
  next args parsed =>
    split at asks
    next address' socketId' serial' split =>
      obtain ⟨text, found, here⟩ := Option.map_eq_some_iff.mp split
      simp only [View.mail.injEq] at asks
      obtain ⟨rfl, rfl, rfl, -⟩ := asks
      obtain ⟨before, after, rfl, -⟩ := List.lookup_eq_some_iff.mp found
      exact ⟨_, text, parsed, by simp, here⟩
    · cases asks

theorem splitOn_not_one {mark : UInt8} {text part : Bytes} (split : text.splitOn mark = [part]) :
    mark ∉ text := by
  intro member
  obtain ⟨front, back, rfl, -⟩ := List.eq_append_cons_of_mem member
  rw [List.splitOn_append_cons_self] at split
  have length := congrArg List.length split
  have front_ := List.length_pos_iff.mpr (List.splitOn_ne_nil mark front)
  have back_ := List.length_pos_iff.mpr (List.splitOn_ne_nil mark back)
  rw [List.length_append, List.length_singleton] at length
  omega

/-- The query of a link has a name before its first `=`. -/
private theorem value_shorter {text name value : Bytes}
    (joined : ascii "e=" ++ text = name ++ equals :: value) :
    ∃ later, name = ascii "e" ++ later ∧ text.length = later.length + value.length := by
  cases name with
  | nil => exact absurd (List.cons.inj joined).1 (by decide)
  | cons first later =>
    obtain ⟨rfl, rest⟩ := List.cons.inj joined
    have length := congrArg List.length joined
    refine ⟨later, rfl, ?_⟩
    simp only [List.length_append, List.length_cons, show (ascii "e=").length = 2 from rfl]
      at length
    omega

/-- A value that is read as the id takes up the whole query, and has no escape. -/
private theorem whole_value (id : Bytes) {pair name value : Bytes}
    (member : pair ∈ (ascii "e=" ++ id).splitOn ampersand)
    (split : pair.splitOn equals = [name, value]) (unescaped : percentUnescape value = some id) :
    Unescaped id := by
  have bytes : unescapeBytes value = some id := by
    obtain ⟨bytes, here, string⟩ := Option.bind_eq_some_iff.mp unescaped
    rw [here, (stringWithUtf8_some string).2]
  obtain ⟨shorter, strictly⟩ := unescapeBytes_shorter value bytes
  have joined := splitOn_two split
  -- every pair of a query with an ampersand is too short for such a value
  have one : ampersand ∉ id := by
    intro marked
    obtain ⟨front, back, cuts, apart⟩ := List.eq_append_cons_of_mem marked
    have pairs : (ascii "e=" ++ id).splitOn ampersand =
        (ascii "e=" ++ front) :: back.splitOn ampersand := by
      rw [cuts, ← List.append_assoc]
      refine List.splitOn_append_cons_self_of_not_mem ?_ back
      intro member
      rcases List.mem_append.mp member with here | here
      · exact absurd here (by decide)
      · exact apart here
    have size := congrArg List.length cuts
    rw [List.length_append, List.length_cons] at size
    rw [pairs] at member
    rcases List.mem_cons.mp member with rfl | later
    · obtain ⟨_, -, length⟩ := value_shorter joined
      omega
    · have small := splitOn_length_le ampersand back pair later
      rw [joined, List.length_append, List.length_cons] at small
      omega
  have start : ampersand ∉ ascii "e=" ++ id := by
    intro member
    rcases List.mem_append.mp member with here | here
    · exact absurd here (by decide)
    · exact one here
  rw [List.splitOn_eq_singleton start, List.mem_singleton] at member
  rw [member] at joined split
  obtain ⟨later, rfl, length⟩ := value_shorter joined
  obtain rfl : later = [] := List.eq_nil_of_length_eq_zero (by omega)
  have whole : id = value := (List.cons.inj (List.cons.inj joined).2).2
  subst whole
  have parts : (ascii "e=" ++ id).splitOn equals = ascii "e" :: id.splitOn equals :=
    List.splitOn_append_cons_self_of_not_mem (by decide : equals ∉ ascii "e") id
  rw [parts, List.append_nil] at split
  have two := splitOn_not_one (List.cons.inj split).2
  have plain_ : percent ∉ id := fun escape => absurd (strictly escape) (Nat.lt_irrefl _)
  intro b here
  refine ⟨?_, ?_, ?_⟩
  · rintro rfl
    exact one here
  · rintro rfl
    exact two here
  · rintro rfl
    exact plain_ here

theorem viewRequest_joined (lower : Bytes → Bytes) (same : lower (ascii "e") = ascii "e")
    {id address socketId serial : Bytes} (unescaped : Unescaped id) (valid : utf8Valid id = true)
    (split : components id = [address, socketId, serial]) :
    viewRequest lower (ascii "/v?e=" ++ id) =
      .mail address socketId serial (pathWithSocketId socketId serial) := by
  have drop : (ascii "/v?e=" ++ id).drop 3 = ascii "e=" ++ id := rfl
  -- the query is one pair, and the pair one name and one value
  have pairs : (ascii "e=" ++ id).splitOn ampersand = [ascii "e=" ++ id] := by
    refine List.splitOn_eq_singleton ?_
    intro member
    rcases List.mem_append.mp member with here | here
    · exact absurd here (by decide)
    · exact (unescaped _ here).1 rfl
  have parts : (ascii "e=" ++ id).splitOn equals = [ascii "e", id] := by
    have apart : equals ∉ id := fun member => (unescaped _ member).2.1 rfl
    rw [show ascii "e=" ++ id = ascii "e" ++ equals :: id from rfl,
      List.splitOn_append_cons_self_of_not_mem (by decide), List.splitOn_eq_singleton apart]
  have bytes : percentUnescape id = some id := by
    rw [percentUnescape, unescapeBytes_plain id fun b member => (unescaped b member).2.2]
    simp [stringWithUtf8, valid]
  have args : parseCgiParams lower (ascii "/v?e=" ++ id) = some [(ascii "e", id)] := by
    rw [parseCgiParams, drop, pairs]
    simp [enterPair, parts, bytes, same]
  rw [viewRequest, args]
  simp [split]

/-- The link of a mail opens it exactly if its recipient has no mark of a parameter, no doubled
underscore and none at its end. -/
theorem opens_iff_plain (lower : Bytes → Bytes) (same : lower (ascii "e") = ascii "e") (m : Mail)
    (produced : ∃ arg, m.recipient ∈ recipientsIn (stringWithUtf8 arg)) :
    Opens lower m ↔ Unescaped m.recipient ∧ plain underscore m.recipient = true := by
  obtain ⟨arg, member⟩ := produced
  have valid := joinedId_valid m (recipientsIn_valid arg member)
  rw [← joinedId_unescaped m, ← components_joinedId m]
  constructor
  · rintro ⟨href, linked, -, asks⟩
    rw [rowLink_shown] at linked
    obtain rfl := Option.some.inj linked
    obtain ⟨args, text, parsed, entered, split⟩ := viewRequest_mail asks
    obtain rfl := eq_joinedId m split
    unfold parseCgiParams at parsed
    rcases enterPair_value lower _ parsed entered with
      impossible | ⟨pair, inside, name, value, found⟩
    · cases impossible
    · exact ⟨whole_value _ inside found.1 found.2, split⟩
  · rintro ⟨unescaped, split⟩
    refine ⟨_, rowLink_shown m, ?_, viewRequest_joined lower same unescaped valid split⟩
    rfl

theorem opens_iff_plain_simple :
    Opens id (mailFor (ascii "a@b") (ascii "000001") (by decide) (by decide)) :=
  (opens_iff_plain id (by decide) (mailFor (ascii "a@b") (ascii "000001") (by decide) (by decide))
    ⟨ascii "TO:<a@b>\r\n", by decide⟩).mpr ⟨by decide +kernel, by decide⟩

/-- The address of a bounce: its link has two equals signs, and is not valid. -/
theorem bounce_unopened :
    ascii "b+c=d@e" ∈ recipientsIn (stringWithUtf8 (ascii "TO:<b+c=d@e>\r\n")) ∧
      ¬ Opens id (mailFor (ascii "b+c=d@e") (ascii "000001") (by decide) (by decide)) := by
  refine ⟨by decide, ?_⟩
  rintro ⟨href, linked, -, asks⟩
  rw [rowLink_shown] at linked
  obtain rfl := Option.some.inj linked
  exact absurd asks (by decide)

end Spamass.Web
