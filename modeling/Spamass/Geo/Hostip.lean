import Spamass.Emailz.ReadCommand
import Spamass.Geo.Reload
import Spamass.Occurrence

/-!
# The answer of hostip.info

`__geocode:handler:` reads a country and a city out of the lines of an answer, takes the
state off the city and the code off the country at the first separators it finds, and
falls back on the allocation of the address where no country is left.
-/
namespace Spamass.Geo

open Spamass.App Spamass.Emailz Spamass.Occurrence

/-! ### The parsing -/

/-- What is known of the place of an address. -/
structure Place where
  city : Option Bytes
  state : Option Bytes
  country : Option Bytes
  code : Option Bytes
  deriving DecidableEq, Repr

/-- The first half of a surrogate pair, in the three bytes a character of its number has. -/
def highSurrogate : Bytes → Bytes
  | [a, b, c, _] =>
    let bits := a.toNat % 8 * 0x40000 + b.toNat % 64 * 0x1000 + c.toNat % 64 * 64
    let high := 0xD800 + (bits - 0x10000) / 0x400
    [0xED, UInt8.ofNat (0x80 + high / 64 % 64), UInt8.ofNat (0x80 + high % 64)]
  | c => c

/-- `substringWithRange:` from the first of the characters on; `none` is a range exception. -/
def takeUnits : Nat → List Bytes → Option Bytes
  | 0, _ => some []
  | _ + 1, [] => none
  | length + 1, c :: rest =>
    if length + 1 < utf16Length c then some (highSurrogate c)
    else (takeUnits (length + 1 - utf16Length c) rest).map (c ++ ·)

/-- The block for a line of the answer. -/
def hostipLine (place : Place) (line : Bytes) : Place :=
  if utf16Length line = 0 then place
  else
    match separate (ascii ": ") line with
    | [label, value] =>
      if label = ascii "Country" then { place with country := some value }
      else if label = ascii "City" then { place with city := some value }
      else place
    | _ => place

/-- The lines of the answer, which may be no text. -/
def hostipLines (place : Place) (text : Option Bytes) : Place :=
  match text with
  | none => place
  | some text => (componentsInCharacters newlineSet text).foldl hostipLine place

/-- A value that does not begin like the one for an unknown place; `lower` is `lowercaseString`. -/
def known (lower : Bytes → Bytes) (unknown : Bytes) (value : Option Bytes) : Option Bytes :=
  value.filter fun value => !hasPrefix (lower value) unknown

/-- The city and the state: "Atlanta, GA". Every message to nil answers location 0, and then nil. -/
def splitCity (place : Place) : Place :=
  match place.city with
  | none => { place with state := none }
  | some city =>
    match cut (ascii ", ") city with
    | none => place
    | some (front, behind) => { place with city := some front, state := some behind }

/-- The country and its code: "United States (US)"; `none` is a range exception. -/
def splitCountry (place : Place) : Option Place :=
  match place.country with
  | none => some { place with code := none }
  | some country =>
    match cut (ascii " (") country with
    | none => some place
    | some (front, behind) =>
      (takeUnits 2 (characters behind)).map fun code =>
        { place with country := some front, code := some code }

/-- The values of the lines, without those of an unknown place. -/
def hostipValues (lower : Bytes → Bytes) (place : Place) (text : Option Bytes) : Place :=
  let read := hostipLines place text
  { read with
    city := known lower (ascii "(unknown city") read.city
    country := known lower (ascii "(unknown country") read.country }

/-- The parsing of the answer; `place` is what was there before. -/
def parseHostip (lower : Bytes → Bytes) (place : Place) (text : Option Bytes) : Option Place :=
  splitCountry (splitCity (hostipValues lower place text))

/-- `countryCodeForIPAddress:` where it returns, and `_countryNamesByCode`. -/
structure Countries where
  code : Bytes → Option Bytes
  names : Bytes → Option Bytes

/-- `countryNameForIPAddress:`. -/
def Countries.name (c : Countries) (ipaddr : Bytes) : Option Bytes :=
  match c.code ipaddr with
  | none => none
  | some code => if utf16Length code = 0 then none else c.names code

/-- The country of the allocation, where the answer has none. -/
def countryFallback (c : Countries) (ipaddr : Bytes) (place : Place) : Place :=
  if place.country.elim 0 utf16Length = 0 then
    { place with code := c.code ipaddr, country := c.name ipaddr }
  else place

/-- The place of an address, as the answer and the allocation tell it. -/
def locate (lower : Bytes → Bytes) (c : Countries) (ipaddr : Bytes) (place : Place)
    (text : Option Bytes) : Option Place :=
  (parseHostip lower place text).map (countryFallback c ipaddr)

/-! ### Answers -/

def comma : UInt8 := 44

/-- What stands behind the label of a line that has no further separator. -/
def valueOf (label line : Bytes) : Option Bytes :=
  let value := line.drop (label.length + 2)
  if label ++ ascii ": " <+: line ∧ ¬ascii ": " <:+: value then some value else none

/-- The value of the last line with the label, or what was there before. -/
def lastValue (label : Bytes) (before text : Option Bytes) : Option Bytes :=
  (((text.elim [] (componentsInCharacters newlineSet)).filterMap (valueOf label)).getLast?).or before

/-- An answer with a line for the country and one for the city; no other line has a value for
either. -/
structure HostipAnswer where
  name : Bytes
  code : Bytes
  city : Bytes
  state : Bytes
  text : Bytes
  letters : ∃ x y, code = [x, y] ∧ isLetter x = true ∧ isLetter y = true
  nameUnseparated : ¬ascii ": " <:+: name
  cityUnseparated : ¬ascii ": " <:+: city
  nameKnown : ¬ascii "(unknown" <+: name
  cityKnown : ¬ascii "(unknown" <+: city
  stateComma : comma ∉ state
  countryLine : ascii "Country: " ++ (name ++ ascii " (" ++ code ++ ascii ")") ∈
    componentsInCharacters newlineSet text
  cityLine : ascii "City: " ++ (city ++ ascii ", " ++ state) ∈
    componentsInCharacters newlineSet text
  others : ∀ line ∈ componentsInCharacters newlineSet text,
    line ≠ ascii "Country: " ++ (name ++ ascii " (" ++ code ++ ascii ")") →
      line ≠ ascii "City: " ++ (city ++ ascii ", " ++ state) →
        valueOf (ascii "Country") line = none ∧ valueOf (ascii "City") line = none

namespace HostipAnswer

/-- What stands behind the label of the line for the country. -/
def countryValue (a : HostipAnswer) : Bytes := a.name ++ ascii " (" ++ a.code ++ ascii ")"

def cityValue (a : HostipAnswer) : Bytes := a.city ++ ascii ", " ++ a.state

end HostipAnswer

/-! ### Lines -/

private theorem valueOf_some (label line value : Bytes) :
    valueOf label line = some value ↔
      line = label ++ (ascii ": " ++ value) ∧ ¬ascii ": " <:+: value := by
  unfold valueOf
  dsimp only
  rw [Option.ite_none_right_eq_some, Option.some.injEq]
  constructor
  · rintro ⟨⟨⟨rest, rfl⟩, single⟩, rfl⟩
    have behind : (label ++ ascii ": " ++ rest).drop (label.length + 2) = rest :=
      List.drop_left' (by rw [List.length_append]; rfl)
    rw [behind] at single ⊢
    exact ⟨List.append_assoc .., single⟩
  · rintro ⟨rfl, single⟩
    have behind : (label ++ (ascii ": " ++ value)).drop (label.length + 2) = value := by
      rw [← List.append_assoc]
      exact List.drop_left' (by rw [List.length_append]; rfl)
    rw [behind]
    exact ⟨⟨⟨value, List.append_assoc ..⟩, single⟩, rfl⟩

/-- A line separates into a label and a value where it has the label and one separator. -/
private theorem separate_label {label : Bytes} (plain : ¬ascii ": " <:+: label ++ [colon])
    (line value : Bytes) :
    separate (ascii ": ") line = [label, value] ↔ valueOf label line = some value := by
  rw [valueOf_some]
  exact separate_pair_iff (List.cons_ne_nil _ _) plain line value

private theorem country_plain : ¬ascii ": " <:+: ascii "Country" ++ [colon] := by decide

private theorem city_plain : ¬ascii ": " <:+: ascii "City" ++ [colon] := by decide

private theorem valueOf_filled {label line value : Bytes} (told : valueOf label line = some value) :
    utf16Length line ≠ 0 := by
  have parts : utf16Length line = utf16Length label + (2 + utf16Length value) := by
    rw [((valueOf_some label line value).mp told).1, utf16Length_append, utf16Length_append]
    rfl
  omega

private theorem valueOf_none {label line : Bytes} (plain : ¬ascii ": " <:+: label ++ [colon])
    (other : ∀ value, separate (ascii ": ") line ≠ [label, value]) : valueOf label line = none := by
  rw [Option.eq_none_iff_forall_ne_some]
  intro value told
  exact other value ((separate_label plain line value).mpr told)

private theorem valueOf_parted {label label' line value : Bytes}
    (plain : ¬ascii ": " <:+: label ++ [colon])
    (parts : separate (ascii ": ") line = [label', value]) (other : label' ≠ label) :
    valueOf label line = none :=
  valueOf_none plain fun _ parts' => other (List.cons.inj (parts.symm.trans parts')).1

/-- What a line makes of the country and of the city. -/
private theorem hostipLine_values (place : Place) (line : Bytes) :
    (hostipLine place line).country = (valueOf (ascii "Country") line).or place.country ∧
      (hostipLine place line).city = (valueOf (ascii "City") line).or place.city := by
  unfold hostipLine
  split
  next empty =>
    have missing : ∀ label, valueOf label line = none := fun label =>
      Option.eq_none_iff_forall_ne_some.mpr fun value told => valueOf_filled told empty
    rw [missing, missing]
    exact ⟨rfl, rfl⟩
  next filled =>
    split
    next label value parts =>
      split
      next named =>
        rw [named] at parts
        have city : valueOf (ascii "City") line = none := valueOf_parted city_plain parts (by decide)
        rw [(separate_label country_plain line value).mp parts, city]
        exact ⟨rfl, rfl⟩
      next unnamed =>
        have country : valueOf (ascii "Country") line = none :=
          valueOf_parted country_plain parts unnamed
        split
        next named =>
          rw [named] at parts
          rw [(separate_label city_plain line value).mp parts, country]
          exact ⟨rfl, rfl⟩
        next unnamed' =>
          have city : valueOf (ascii "City") line = none :=
            valueOf_parted city_plain parts unnamed'
          rw [country, city]
          exact ⟨rfl, rfl⟩
    next unpaired =>
      rw [valueOf_none country_plain fun value => unpaired _ value,
        valueOf_none city_plain fun value => unpaired _ value]
      exact ⟨rfl, rfl⟩

/-- A line that is told last stays. -/
theorem foldl_last {σ ι β : Type} {step : σ → ι → σ} {get : σ → Option β} {told : ι → Option β}
    (each : ∀ s line, get (step s line) = (told line).or (get s)) (s : σ) (lines : List ι) :
    get (lines.foldl step s) = ((lines.filterMap told).getLast?).or (get s) := by
  induction lines generalizing s with
  | nil => rfl
  | cons line lines ih =>
    rw [List.foldl_cons, ih, each, List.filterMap_cons]
    cases told line with
    | none => rfl
    | some value =>
      dsimp only
      rw [List.getLast?_cons, Option.some_or]
      cases (lines.filterMap told).getLast? <;> rfl

/-- The lines leave the last country and the last city they have. -/
private theorem hostipLines_values (place : Place) (text : Option Bytes) :
    (hostipLines place text).country = lastValue (ascii "Country") place.country text ∧
      (hostipLines place text).city = lastValue (ascii "City") place.city text := by
  cases text with
  | none => exact ⟨rfl, rfl⟩
  | some text =>
    exact ⟨foldl_last (fun place line => (hostipLine_values place line).1) place _,
      foldl_last (fun place line => (hostipLine_values place line).2) place _⟩

/-! ### Range exceptions -/

/-- Two characters behind the first parenthesis of the country that the text leaves. -/
def CodeWhole (lower : Bytes → Bytes) (before text : Option Bytes) : Prop :=
  ∀ value front behind, lastValue (ascii "Country") before text = some value →
    hasPrefix (lower value) (ascii "(unknown country") = false →
      cut (ascii " (") value = some (front, behind) → 2 ≤ utf16Length behind

private theorem characters_joined (text : Bytes) : (characters text).flatten = text := by
  induction text with
  | nil => rfl
  | cons b rest ih =>
    rw [characters.eq_def]
    dsimp only
    split
    next next_ rest' c cs here =>
      rw [here, List.flatten_cons] at ih
      split
      · exact congrArg (b :: ·) ih
      · exact congrArg (b :: ·) ih
    next => exact congrArg (b :: ·) ih

private theorem takeUnits_isSome (length : Nat) (cs : List Bytes) :
    (takeUnits length cs).isSome = true ↔ length ≤ utf16Length cs.flatten := by
  induction cs generalizing length with
  | nil =>
    cases length with
    | zero => exact iff_of_true rfl (Nat.zero_le _)
    | succ length => exact iff_of_false nofun (Nat.not_succ_le_zero _)
  | cons c rest ih =>
    cases length with
    | zero => exact iff_of_true rfl (Nat.zero_le _)
    | succ length =>
      rw [takeUnits, List.flatten_cons, utf16Length_append]
      split
      next half => exact iff_of_true rfl (by omega)
      next whole =>
        rw [Option.isSome_map, ih]
        omega

/-- What the values of the lines are. -/
private theorem hostipValues_values (lower : Bytes → Bytes) (place : Place) (text : Option Bytes) :
    (hostipValues lower place text).country = known lower (ascii "(unknown country")
        (lastValue (ascii "Country") place.country text) ∧
      (hostipValues lower place text).city = known lower (ascii "(unknown city")
        (lastValue (ascii "City") place.city text) := by
  obtain ⟨country, city⟩ := hostipLines_values place text
  rw [← country, ← city]
  exact ⟨rfl, rfl⟩

private theorem splitCity_country (place : Place) : (splitCity place).country = place.country := by
  unfold splitCity
  split
  · rfl
  · split <;> rfl

theorem known_some (lower : Bytes → Bytes) (unknown : Bytes) (value : Option Bytes) (kept : Bytes) :
    known lower unknown value = some kept ↔
      value = some kept ∧ hasPrefix (lower kept) unknown = false := by
  rw [known, Option.filter_eq_some_iff, Bool.not_eq_true']

private theorem splitCountry_isSome (place : Place) :
    (splitCountry place).isSome = true ↔ ∀ country front behind, place.country = some country →
      cut (ascii " (") country = some (front, behind) → 2 ≤ utf16Length behind := by
  unfold splitCountry
  cases place.country with
  | none => exact iff_of_true rfl nofun
  | some country =>
    dsimp only
    cases parts : cut (ascii " (") country with
    | none =>
      refine iff_of_true rfl fun country' _ _ same parts' => ?_
      rw [← Option.some.inj same, parts] at parts'
      cases parts'
    | some pair =>
      rw [Option.isSome_map, takeUnits_isSome, characters_joined]
      constructor
      · intro enough country' front behind same parts'
        rw [← Option.some.inj same, parts] at parts'
        rw [← (Prod.mk.inj (Option.some.inj parts')).2]
        exact enough
      · intro whole
        exact whole country pair.1 pair.2 rfl parts

/-- The parsing ends exactly where the country has its code behind the parenthesis. -/
private theorem parseHostip_isSome (lower : Bytes → Bytes) (place : Place) (text : Option Bytes) :
    (parseHostip lower place text).isSome = true ↔ CodeWhole lower place.country text := by
  rw [parseHostip, splitCountry_isSome, splitCity_country, (hostipValues_values lower place text).1]
  simp only [known_some, and_imp]
  rfl

/-! ### The place of an answer -/

/-- A label on one line only tells the value of this line. -/
private theorem lastValue_only {label value text : Bytes}
    (member : label ++ (ascii ": " ++ value) ∈ componentsInCharacters newlineSet text)
    (others : ∀ line ∈ componentsInCharacters newlineSet text,
      line ≠ label ++ (ascii ": " ++ value) → valueOf label line = none) (before : Option Bytes) :
    lastValue label before (some text) =
      if ascii ": " <:+: value then before else some value := by
  have told : ∀ value' ∈
      (componentsInCharacters newlineSet text).filterMap (valueOf label),
      valueOf label (label ++ (ascii ": " ++ value)) = some value' := by
    intro value' member'
    obtain ⟨line, here, found⟩ := List.mem_filterMap.mp member'
    by_cases same : line = label ++ (ascii ": " ++ value)
    · rw [← same, found]
    · rw [others line here same] at found
      cases found
  unfold lastValue
  rw [Option.elim_some]
  split
  next inside =>
    have missing : (componentsInCharacters newlineSet text).filterMap (valueOf label) = [] := by
      rw [List.eq_nil_iff_forall_not_mem]
      intro value' member'
      obtain ⟨same, single⟩ := (valueOf_some label _ value').mp (told value' member')
      rw [List.append_cancel_left_eq, List.append_cancel_left_eq] at same
      exact single (same ▸ inside)
    rw [missing]
    rfl
  next single =>
    have here : valueOf label (label ++ (ascii ": " ++ value)) = some value :=
      (valueOf_some label _ value).mpr ⟨rfl, single⟩
    have filled : (componentsInCharacters newlineSet text).filterMap (valueOf label) ≠ [] :=
      List.ne_nil_of_mem (List.mem_filterMap.mpr ⟨_, member, here⟩)
    rw [List.getLast?_eq_some_getLast filled, Option.some_or, ← here]
    exact (told _ (List.getLast_mem filled)).symm

theorem splitCity_cut {place : Place} {city front behind : Bytes} (has : place.city = some city)
    (parts : cut (ascii ", ") city = some (front, behind)) :
    splitCity place = { place with city := some front, state := some behind } := by
  simp only [splitCity, has, parts]

private theorem splitCountry_cut {place : Place} {country front behind : Bytes}
    (has : place.country = some country)
    (parts : cut (ascii " (") country = some (front, behind)) :
    splitCountry place = (takeUnits 2 (characters behind)).map fun code =>
      { place with country := some front, code := some code } := by
  simp only [splitCountry, has, parts]

/-- Two letters are two characters. -/
theorem takeUnits_letters {x y : UInt8} (letter : isLetter x = true) (letter' : isLetter y = true) :
    takeUnits 2 (characters [x, y, 41]) = some [x, y] := by
  have plain : ∀ z, isLetter z = true → isContinuation z = false ∧ ¬0xF0 ≤ z := by
    intro z letter
    simp only [isLetter, isContinuation, UInt8.le_iff_toNat_le, Bool.or_eq_true, Bool.and_eq_true,
      decide_eq_true_eq, Bool.and_eq_false_iff, decide_eq_false_iff_not] at letter ⊢
    simp only [UInt8.reduceToNat] at letter ⊢
    omega
  obtain ⟨alone, low⟩ := plain x letter
  obtain ⟨alone', low'⟩ := plain y letter'
  have chars : characters [x, y, 41] = [[x], [y], [41]] := by
    have closing : isContinuation 41 = false := rfl
    simp [characters, alone', closing]
  rw [chars]
  simp [takeUnits, utf16Length, alone, low, alone', low']

namespace HostipAnswer

/-- What the parsing of an answer needs to leave its values whole. -/
structure Plain (lower : Bytes → Bytes) (a : HostipAnswer) : Prop where
  named : utf16Length a.name ≠ 0
  nameColon : a.name.getLast? ≠ some colon
  nameParenthesis : ¬ascii " (" <:+: a.name
  cityComma : ¬ascii ", " <:+: a.city
  stateColon : ¬ascii ": " <:+: a.state
  countryKnown : hasPrefix (lower a.countryValue) (ascii "(unknown country") = false
  cityKnown : hasPrefix (lower a.cityValue) (ascii "(unknown city") = false

variable (a : HostipAnswer)

theorem countryValue_separated : ascii ": " <:+: a.countryValue ↔ a.name.getLast? = some colon := by
  obtain ⟨x, y, same, letter, letter'⟩ := a.letters
  have parts : a.countryValue = a.name ++ [space, 40, x, y, 41] := by
    rw [countryValue, same, List.append_assoc, List.append_assoc]
    rfl
  have mark : colon ≠ x := by
    rintro rfl
    cases letter
  have mark' : colon ≠ y := by
    rintro rfl
    cases letter'
  have inside : ¬[colon, space] <:+: [space, 40, x, y, 41] := by
    have blank : colon ≠ space := by decide
    have parenthesis : colon ≠ 40 ∧ colon ≠ 41 := by decide
    simp [List.infix_cons_iff, List.cons_prefix_cons, mark, mark', blank, parenthesis]
  have outside : ¬[colon, space] <:+: a.name := a.nameUnseparated
  rw [parts]
  refine (pair_infix_append colon space _ _).trans ?_
  simp [outside, inside]

private theorem cityValue_separated : ascii ": " <:+: a.cityValue ↔ ascii ": " <:+: a.state := by
  have outside : ¬[colon, space] <:+: a.city := a.cityUnseparated
  have parts : a.cityValue = a.city ++ ([comma, space] ++ a.state) := List.append_assoc ..
  rw [parts]
  refine (pair_infix_append colon space _ _).trans ?_
  rw [pair_infix_append colon space [comma, space] a.state]
  have inside : ¬[colon, space] <:+: [comma, space] := by decide
  have here : ¬(a.city.getLast? = some colon ∧ ([comma, space] ++ a.state).head? = some space) :=
    fun met => absurd (Option.some.inj met.2) (by decide)
  have here' : ¬([comma, space].getLast? = some colon ∧ a.state.head? = some space) :=
    fun met => absurd met.1 (by decide)
  simp only [outside, inside, here, here', false_or, or_false]
  rfl

private theorem lastCountry (before : Option Bytes) :
    lastValue (ascii "Country") before (some a.text) =
      if a.name.getLast? = some colon then before else some a.countryValue := by
  have others : ∀ line ∈ componentsInCharacters newlineSet a.text,
      line ≠ ascii "Country" ++ (ascii ": " ++ a.countryValue) →
        valueOf (ascii "Country") line = none := by
    intro line member different
    by_cases same : line = ascii "City: " ++ a.cityValue
    · rw [Option.eq_none_iff_forall_ne_some, same]
      intro value told
      have labels := ((valueOf_some _ _ _).mp told).1
      exact absurd (List.cons.inj (List.cons.inj labels).2).1 (by decide)
    · exact (a.others line member different same).1
  have here : ascii "Country" ++ (ascii ": " ++ a.countryValue) ∈
      componentsInCharacters newlineSet a.text := a.countryLine
  rw [lastValue_only here others before]
  exact if_congr a.countryValue_separated rfl rfl

private theorem lastCity (before : Option Bytes) :
    lastValue (ascii "City") before (some a.text) =
      if ascii ": " <:+: a.state then before else some a.cityValue := by
  have others : ∀ line ∈ componentsInCharacters newlineSet a.text,
      line ≠ ascii "City" ++ (ascii ": " ++ a.cityValue) →
        valueOf (ascii "City") line = none := by
    intro line member different
    by_cases same : line = ascii "Country: " ++ a.countryValue
    · rw [Option.eq_none_iff_forall_ne_some, same]
      intro value told
      have labels := ((valueOf_some _ _ _).mp told).1
      exact absurd (List.cons.inj (List.cons.inj labels).2).1 (by decide)
    · exact (a.others line member same different).2
  have here : ascii "City" ++ (ascii ": " ++ a.cityValue) ∈
      componentsInCharacters newlineSet a.text := a.cityLine
  rw [lastValue_only here others before]
  exact if_congr a.cityValue_separated rfl rfl

theorem countryValue_cut : ∃ first rest, cut (ascii " (") a.countryValue = some (first, rest) ∧
    (first = a.name → rest = a.code ++ ascii ")") ∧ (first = a.name ↔ ¬ascii " (" <:+: a.name) := by
  have parts : a.countryValue = a.name ++ (ascii " (" ++ (a.code ++ ascii ")")) := by
    rw [countryValue, List.append_assoc, List.append_assoc]
  rw [parts]
  exact cut_pair_iff (by decide) a.name (a.code ++ ascii ")")

private theorem cityValue_cut : ∃ first rest, cut (ascii ", ") a.cityValue = some (first, rest) ∧
    (first = a.city → rest = a.state) ∧ (first = a.city ↔ ¬ascii ", " <:+: a.city) := by
  have parts : a.cityValue = a.city ++ (ascii ", " ++ a.state) := List.append_assoc ..
  rw [parts]
  exact cut_pair_iff (by decide) a.city a.state

/-- The place that an answer tells. -/
def place : Place := ⟨some a.city, some a.state, some a.name, some a.code⟩

/-- A plain answer tells its place, whatever was there before. -/
private theorem locate_plain {lower : Bytes → Bytes} (plain : a.Plain lower) (c : Countries)
    (ipaddr : Bytes) (before : Place) :
    locate lower c ipaddr before (some a.text) = some a.place := by
  obtain ⟨country, city⟩ := hostipValues_values lower before (some a.text)
  rw [a.lastCountry, if_neg plain.nameColon,
    (known_some _ _ _ _).mpr ⟨rfl, plain.countryKnown⟩] at country
  rw [a.lastCity, if_neg plain.stateColon,
    (known_some _ _ _ _).mpr ⟨rfl, plain.cityKnown⟩] at city
  obtain ⟨front, behind, cityCut, whole, same⟩ := a.cityValue_cut
  obtain rfl := same.mpr plain.cityComma
  obtain rfl := whole rfl
  obtain ⟨front, behind, countryCut, whole, same⟩ := a.countryValue_cut
  obtain rfl := same.mpr plain.nameParenthesis
  obtain rfl := whole rfl
  obtain ⟨x, y, letters, letter, letter'⟩ := a.letters
  have code : takeUnits 2 (characters (a.code ++ ascii ")")) = some a.code := by
    rw [letters]
    exact takeUnits_letters letter letter'
  have parsed : parseHostip lower before (some a.text) = some a.place := by
    rw [parseHostip, splitCountry_cut ((splitCity_country _).trans country) countryCut, code,
      splitCity_cut city cityCut]
    rfl
  rw [locate, parsed, Option.map_some, countryFallback]
  exact congrArg some (if_neg plain.named)

end HostipAnswer

theorem splitCity_some {before : Place} {city : Bytes} (told : (splitCity before).city = some city) :
    ∃ value, before.city = some value ∧
      ∀ front behind, cut (ascii ", ") value = some (front, behind) → city = front := by
  cases has : before.city with
  | none =>
    rw [splitCity, has] at told
    cases told
  | some value =>
    refine ⟨value, rfl, fun front behind parts => ?_⟩
    rw [splitCity_cut has parts] at told
    exact (Option.some.inj told).symm

private theorem splitCountry_some {before place : Place} {country : Bytes}
    (told : splitCountry before = some place) (has : place.country = some country) :
    place.city = before.city ∧ ∃ value, before.country = some value ∧
      ∀ front behind, cut (ascii " (") value = some (front, behind) → country = front := by
  cases has' : before.country with
  | none =>
    rw [splitCountry, has'] at told
    rw [← Option.some.inj told] at has
    cases has
  | some value =>
    cases parts : cut (ascii " (") value with
    | none =>
      rw [splitCountry, has'] at told
      dsimp only at told
      rw [parts] at told
      rw [← Option.some.inj told]
      exact ⟨rfl, value, rfl, fun front behind parts' => nomatch parts.symm.trans parts'⟩
    | some pair =>
      rw [splitCountry_cut has' parts] at told
      obtain ⟨code, -, rfl⟩ := Option.map_eq_some_iff.mp told
      refine ⟨rfl, value, rfl, fun front behind parts' => ?_⟩
      rw [parts] at parts'
      rw [← (Prod.mk.inj (Option.some.inj parts')).1]
      exact (Option.some.inj has).symm

namespace HostipAnswer

variable (a : HostipAnswer)

/-- An answer that tells its place, where nothing else does, is plain. -/
private theorem plain_locate {lower : Bytes → Bytes} (c : Countries) (ipaddr : Bytes)
    (unallocated : c.code ipaddr = none)
    (told : locate lower c ipaddr ⟨none, none, none, none⟩ (some a.text) = some a.place) :
    a.Plain lower := by
  obtain ⟨parsed, parsing, fallback⟩ := Option.map_eq_some_iff.mp told
  have whole : parsed = a.place ∧ utf16Length a.name ≠ 0 := by
    unfold countryFallback at fallback
    split at fallback
    next =>
      have countries := congrArg Place.country fallback
      rw [Countries.name, unallocated] at countries
      cases countries
    next filled =>
      rw [fallback] at filled
      exact ⟨fallback, filled⟩
  obtain ⟨rfl, named⟩ := whole
  obtain ⟨sameCity, value, has, fronts⟩ := splitCountry_some parsing rfl
  obtain ⟨value', has', fronts'⟩ := splitCity_some sameCity.symm
  rw [splitCity_country, (hostipValues_values _ _ _).1, known_some, a.lastCountry,
    Option.ite_none_left_eq_some, Option.some.injEq] at has
  obtain ⟨⟨nameColon, rfl⟩, countryKnown⟩ := has
  rw [(hostipValues_values _ _ _).2, known_some, a.lastCity, Option.ite_none_left_eq_some,
    Option.some.injEq] at has'
  obtain ⟨⟨stateColon, rfl⟩, cityKnown⟩ := has'
  obtain ⟨first, rest, parts, -, unmarked⟩ := a.countryValue_cut
  obtain ⟨first', rest', parts', -, unmarked'⟩ := a.cityValue_cut
  exact {
    named
    nameColon
    nameParenthesis := unmarked.mp (fronts first rest parts).symm
    cityComma := unmarked'.mp (fronts' first' rest' parts').symm
    stateColon
    countryKnown
    cityKnown }

end HostipAnswer

/-! ### The two promises -/

/-- The parsing raises nothing exactly on the texts whose country has its code; it finds the values
of an answer, whatever was there before and wherever the address is, exactly if it is plain. -/
theorem hostip_exact (lower : Bytes → Bytes) :
    (∀ before text, (parseHostip lower before text).isSome = true ↔
      CodeWhole lower before.country text) ∧
    ∀ a : HostipAnswer, (∀ before c ipaddr,
      locate lower c ipaddr before (some a.text) = some a.place) ↔ a.Plain lower := by
  refine ⟨parseHostip_isSome lower, fun a => ⟨fun told => ?_, fun plain before c ipaddr => ?_⟩⟩
  · exact a.plain_locate ⟨fun _ => none, fun _ => none⟩ [] rfl (told _ _ _)
  · exact a.locate_plain plain c ipaddr before

/-- An answer whose country has a parenthesis of its own. -/
def congo : HostipAnswer where
  name := ascii "Congo (Kinshasa)"
  code := ascii "CD"
  city := ascii "Kinshasa"
  state := ascii "KN"
  text := ascii "Country: Congo (Kinshasa) (CD)\nCity: Kinshasa, KN"
  letters := ⟨67, 68, rfl, rfl, rfl⟩
  nameUnseparated := by decide
  cityUnseparated := by decide
  nameKnown := by decide
  cityKnown := by decide
  stateComma := by decide
  countryLine := by decide
  cityLine := by decide
  others := by decide

/-- A truncated answer raises a range exception; a name with a parenthesis loses it to the code. -/
theorem hostip_misread :
    parseHostip id ⟨none, none, none, none⟩ (some (ascii "Country: United States (U")) = none ∧
      locate id ⟨fun _ => none, fun _ => none⟩ [] ⟨none, none, none, none⟩ (some congo.text) =
        some ⟨some (ascii "Kinshasa"), some (ascii "KN"), some (ascii "Congo"),
          some (ascii "Ki")⟩ := by
  decide

end Spamass.Geo
