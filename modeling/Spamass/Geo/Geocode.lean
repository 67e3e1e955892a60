import Spamass.Geo.Hostip

/-!
# The cache of the geocoder

`__geocode:handler:` answers an address that has a cached latitude and longitude from the
six entries of its cache. Any other address it looks up, and caches what was found. A nil
string is cached as an empty one.
-/
namespace Spamass.Geo

open Spamass.App Spamass.Emailz Spamass.SortedStore

/-! ### The cache -/

inductive CacheField where
  | city
  | state
  | country
  | code
  | latitude
  | longitude
  deriving DecidableEq, Repr

def CacheField.all : List CacheField := [.city, .state, .country, .code, .latitude, .longitude]

def CacheField.suffix : CacheField → Bytes
  | .city => ascii "__city"
  | .state => ascii "__state"
  | .country => ascii "__country"
  | .code => ascii "__code"
  | .latitude => ascii "__latitude"
  | .longitude => ascii "__longitude"

def cacheKey (ipaddr : Bytes) (field : CacheField) : Bytes := ipaddr ++ field.suffix

/-- `SliceFromString`: nil and half a surrogate pair have no UTF-8 form. -/
def sliceFromString (string : Option Bytes) : Bytes :=
  match string with
  | none => []
  | some string => if utf8Valid string then string else []

/-- `setString:forKey:`, a put that succeeds. -/
def setString (db : Database) (string : Option Bytes) (key : Bytes) : Database :=
  db.put key (sliceFromString string)

/-- `stringForKey:`. -/
def stringForKey (db : Database) (key : Bytes) : Option Bytes := (db.get key).bind stringWithUtf8

/-- The type `double` with its zero, `stringValue` and `doubleValue`. -/
structure Doubles (δ : Type) where
  zero : δ
  text : δ → Bytes
  number : Bytes → δ
  survives : ∀ x, number (text x) = x
  readable : ∀ x, utf8Valid (text x) = true

/-! ### The answer of Google -/

/-- What `objectWithData:` makes of a document. -/
inductive Json (δ : Type) where
  | null
  | number (x : δ)
  | string (text : Bytes)
  | array (items : List (Json δ))
  | object (members : List (Bytes × Json δ))

section Google

variable {δ : Type}

/-- `objectForKey:`, or no such method. -/
def objectForKey (key : Bytes) : Option (Json δ) → Option (Option (Json δ))
  | none => some none
  | some (.object members) => some (members.lookup key)
  | some _ => none

/-- `[results objectAtIndex:0]` where `[results count]` is not 0, or no such method. -/
def firstResult : Option (Json δ) → Option (Option (Json δ))
  | none => some none
  | some (.array results) => some results.head?
  | some (.object []) => some none
  | some _ => none

variable (f : Doubles δ)

/-- `doubleValue`, or no such method. -/
def doubleValue : Option (Json δ) → Option δ
  | none => some f.zero
  | some (.number x) => some x
  | some (.string text) => some (f.number text)
  | some _ => none

/-- The latitude and the longitude of an answer, if it has a result. -/
def googleLocation (info : Option (Json δ)) : Option (Option (δ × δ)) := do
  match ← firstResult (← objectForKey (ascii "results") info) with
  | none => some none
  | some result =>
    let geometry ← objectForKey (ascii "geometry") (some result)
    let location ← objectForKey (ascii "location") geometry
    let latitude ← doubleValue f (← objectForKey (ascii "lat") location)
    let longitude ← doubleValue f (← objectForKey (ascii "lng") location)
    some (some (latitude, longitude))

end Google

/-! ### A call -/

/-- What a call asks: hostip.info for an address, the table of countries, and Google for a place. -/
structure Services (δ : Type) where
  hostip : Bytes → Option Bytes
  countries : Countries
  google : Bytes → Option (Option (Json δ))

/-- The string that Google is asked for. -/
def placeAddress (place : Place) : Bytes :=
  let part := fun (string : Option Bytes) (behind : Bytes) =>
    match string with
    | none => []
    | some string => if utf16Length string = 0 then [] else string ++ behind
  part place.city [space] ++ part place.state [space] ++ part place.country []

/-- How a call ends: with an exception, without an answer, or with one for the handler. -/
inductive Exit (δ : Type) where
  | raised
  | silent
  | handled (latitude longitude : δ) (place : Place)
  deriving DecidableEq

section Geocode

variable {δ : Type} (f : Doubles δ) (lower : Bytes → Bytes)

/-- The place in the cache. -/
def cachedPlace (db : Database) (ipaddr : Bytes) : Place where
  city := stringForKey db (cacheKey ipaddr .city)
  state := stringForKey db (cacheKey ipaddr .state)
  country := stringForKey db (cacheKey ipaddr .country)
  code := stringForKey db (cacheKey ipaddr .code)

/-- The location in the cache; without both numbers it is none. -/
def cachedLocation (db : Database) (ipaddr : Bytes) : Option (δ × δ) :=
  match stringForKey db (cacheKey ipaddr .latitude),
    stringForKey db (cacheKey ipaddr .longitude) with
  | some lat, some lon => some (f.number lat, f.number lon)
  | _, _ => none

/-- The string that a field is cached as. -/
def fieldString (place : Place) (location : δ × δ) : CacheField → Option Bytes
  | .city => place.city
  | .state => place.state
  | .country => place.country
  | .code => place.code
  | .latitude => some (f.text location.1)
  | .longitude => some (f.text location.2)

/-- The six entries of an address. -/
def cacheResults (db : Database) (ipaddr : Bytes) (place : Place) (location : δ × δ) : Database :=
  CacheField.all.foldl
    (fun db field => setString db (fieldString f place location field) (cacheKey ipaddr field)) db

/-- The part of a call behind the cache. -/
def lookUp (db : Database) (services : Services δ) (ipaddr : Bytes) : Database × Exit δ :=
  match services.hostip ipaddr with
  | none => (db, .silent)
  | some data =>
    match locate lower services.countries ipaddr (cachedPlace db ipaddr) (stringWithUtf8 data) with
    | none => (db, .raised)
    | some place =>
      if utf16Length (placeAddress place) = 0 then (db, .silent)
      else
        match services.google (placeAddress place) with
        | none => (db, .silent)
        | some info =>
          match googleLocation f info with
          | none => (db, .raised)
          | some none => (db, .silent)
          | some (some location) =>
            (cacheResults f db ipaddr place location, .handled location.1 location.2 place)

/-- `__geocode:handler:`. -/
def geocode (db : Database) (services : Services δ) (ipaddr : Bytes) : Database × Exit δ :=
  match cachedLocation f db ipaddr with
  | some location => (db, .handled location.1 location.2 (cachedPlace db ipaddr))
  | none => lookUp f lower db services ipaddr

/-- Calls in their order, each with its address and what the services say. -/
def geocodes (db : Database) (calls : List (Services δ × Bytes)) : Database :=
  calls.foldl (fun db call => (geocode f lower db call.1 call.2).1) db

end Geocode

/-! ### What a call finds -/

section Located

variable {δ : Type} (f : Doubles δ) (lower : Bytes → Bytes)

def jsonMember (key : Bytes) : Option (Json δ) → Option (Json δ)
  | some (.object members) => members.lookup key
  | _ => none

/-- A number, or a string for one. -/
def coordinate : Option (Json δ) → Option δ
  | some (.number x) => some x
  | some (.string text) => some (f.number text)
  | _ => none

/-- The location of the first result, if that has one. -/
def located (info : Option (Json δ)) : Option (δ × δ) :=
  match jsonMember (ascii "results") info with
  | some (.array (result :: _)) => do
    let location := jsonMember (ascii "location") (jsonMember (ascii "geometry") (some result))
    let latitude ← coordinate f (jsonMember (ascii "lat") location)
    let longitude ← coordinate f (jsonMember (ascii "lng") location)
    some (latitude, longitude)
  | _ => none

/-- The place and the answer of Google that a call without a cached location gets as far as. -/
def asked (db : Database) (services : Services δ) (ipaddr : Bytes) :
    Option (Place × Option (Json δ)) :=
  match services.hostip ipaddr with
  | none => none
  | some data =>
    match locate lower services.countries ipaddr (cachedPlace db ipaddr) (stringWithUtf8 data) with
    | none => none
    | some place =>
      if utf16Length (placeAddress place) = 0 then none
      else (services.google (placeAddress place)).map fun info => (place, info)

def Located (db : Database) (services : Services δ) (ipaddr : Bytes) : Prop :=
  ∃ place info location,
    asked lower db services ipaddr = some (place, info) ∧ located f info = some location

/-- Where the first call for an address finds a location, every later one ends like it, whatever
was looked up between them; where it finds none, its cache has none. -/
def CachedAlike (db : Database) (services : Services δ) (ipaddr : Bytes) : Prop :=
  (Located f lower db services ipaddr → ∀ calls services',
    (geocode f lower (geocodes f lower (geocode f lower db services ipaddr).1 calls)
      services' ipaddr).2 = (geocode f lower db services ipaddr).2) ∧
  (¬Located f lower db services ipaddr →
    cachedLocation f (geocode f lower db services ipaddr).1 ipaddr = none)

/-- City, state, country and code are there, and have a UTF-8 form. -/
def Place.Full (place : Place) : Prop :=
  ∀ string ∈ [place.city, place.state, place.country, place.code],
    ∃ text, string = some text ∧ utf8Valid text = true

/-- A place with a location is full; an answer without one has no result, or cannot be read. -/
def Cacheable (db : Database) (services : Services δ) (ipaddr : Bytes) : Prop :=
  ∀ place info, asked lower db services ipaddr = some (place, info) →
    ((located f info).isSome = true → place.Full) ∧
      (located f info = none → ∀ location, googleLocation f info ≠ some (some location))

end Located

/-! ### Keys and strings -/

private theorem CacheField.mem_all (field : CacheField) : field ∈ CacheField.all := by
  cases field <;> decide

private theorem suffix_apart : ∀ field ∈ CacheField.all, ∀ field' ∈ CacheField.all,
    field.suffix <:+ field'.suffix → field = field' := by
  decide

/-- No key is one for another address or another field. -/
private theorem cacheKey_inj {ipaddr ipaddr' : Bytes} {field field' : CacheField}
    (same : cacheKey ipaddr field = cacheKey ipaddr' field') : ipaddr = ipaddr' ∧ field = field' := by
  have ends : field.suffix <:+ cacheKey ipaddr field := List.suffix_append ..
  have ends' : field'.suffix <:+ cacheKey ipaddr field := same ▸ List.suffix_append ..
  have fields : field = field' := by
    rcases List.suffix_or_suffix_of_suffix ends ends' with inside | inside
    · exact suffix_apart field field.mem_all field' field'.mem_all inside
    · exact (suffix_apart field' field'.mem_all field field.mem_all inside).symm
  subst fields
  exact ⟨List.append_cancel_right same, rfl⟩

private theorem sliceFromString_valid (string : Option Bytes) :
    utf8Valid (sliceFromString string) = true := by
  unfold sliceFromString
  split
  · rfl
  · split
    next valid => exact valid
    · rfl

/-- A string stays through the cache if it is one and has a UTF-8 form. -/
private theorem slice_same_iff (string : Option Bytes) :
    some (sliceFromString string) = string ↔
      ∃ text, string = some text ∧ utf8Valid text = true := by
  constructor
  · intro same
    exact ⟨_, same.symm, sliceFromString_valid string⟩
  · rintro ⟨text, rfl, valid⟩
    rw [sliceFromString, if_pos valid]

section Cache

variable {δ : Type} (f : Doubles δ) (lower : Bytes → Bytes)

/-- The entries of an address are its fields. -/
theorem foldl_setString (value : CacheField → Option Bytes) (ipaddr : Bytes) (field : CacheField)
    (fields : List CacheField) (db : Database) :
    (fields.foldl (fun db field => setString db (value field) (cacheKey ipaddr field)) db).get
        (cacheKey ipaddr field) =
      if field ∈ fields then some (sliceFromString (value field))
      else db.get (cacheKey ipaddr field) := by
  induction fields generalizing db with
  | nil => rfl
  | cons first fields ih =>
    rw [List.foldl_cons, ih, setString]
    by_cases here : field = first
    · subst here
      rw [Store.get_put_same, if_pos (List.mem_cons_self ..), ite_self]
    · have apart : cacheKey ipaddr field ≠ cacheKey ipaddr first :=
        fun same => here (cacheKey_inj same).2
      rw [Store.get_put_other _ _ apart]
      simp only [List.mem_cons, here, false_or]

/-- The entries of other addresses stay. -/
private theorem foldl_setString_other (value : CacheField → Option Bytes) {ipaddr ipaddr' : Bytes}
    (apart : ipaddr' ≠ ipaddr) (field : CacheField) (fields : List CacheField) (db : Database) :
    (fields.foldl (fun db field => setString db (value field) (cacheKey ipaddr field)) db).get
        (cacheKey ipaddr' field) = db.get (cacheKey ipaddr' field) := by
  induction fields generalizing db with
  | nil => rfl
  | cons first fields ih =>
    rw [List.foldl_cons, ih, setString, Store.get_put_other]
    exact fun same => apart (cacheKey_inj same).1

theorem cacheResults_string (db : Database) (ipaddr : Bytes) (place : Place) (location : δ × δ)
    (field : CacheField) :
    stringForKey (cacheResults f db ipaddr place location) (cacheKey ipaddr field) =
      some (sliceFromString (fieldString f place location field)) := by
  rw [stringForKey, cacheResults, foldl_setString, if_pos field.mem_all, Option.bind_some,
    stringWithUtf8, if_pos (sliceFromString_valid _)]

/-- What is cached can be read back as a location. -/
private theorem cacheResults_location (db : Database) (ipaddr : Bytes) (place : Place)
    (location : δ × δ) :
    cachedLocation f (cacheResults f db ipaddr place location) ipaddr = some location := by
  simp only [cachedLocation, cacheResults_string, fieldString, sliceFromString, f.readable,
    if_true, f.survives]

private theorem cacheResults_place_iff (db : Database) (ipaddr : Bytes) (place : Place)
    (location : δ × δ) :
    cachedPlace (cacheResults f db ipaddr place location) ipaddr = place ↔ place.Full := by
  simp only [cachedPlace, cacheResults_string, fieldString, Place.Full, ← slice_same_iff]
  obtain ⟨city, state, country, code⟩ := place
  simp

/-! ### Calls -/

/-- How a call ends that asks for a location. -/
theorem lookUp_asked {db : Database} {services : Services δ} {ipaddr : Bytes} {place : Place}
    {info : Option (Json δ)} (found : asked lower db services ipaddr = some (place, info)) :
    (∃ location, googleLocation f info = some (some location) ∧
      lookUp f lower db services ipaddr =
        (cacheResults f db ipaddr place location, .handled location.1 location.2 place)) ∨
    (∀ location, googleLocation f info ≠ some (some location)) ∧
      (lookUp f lower db services ipaddr).1 = db := by
  unfold asked at found
  unfold lookUp
  split at found
  · cases found
  next data answer =>
    split at found
    · cases found
    next place' told =>
      split at found
      · cases found
      next filled =>
        obtain ⟨info', google, same⟩ := Option.map_eq_some_iff.mp found
        obtain ⟨rfl, rfl⟩ := Prod.mk.inj same
        rw [if_neg filled, google]
        dsimp only
        cases answer' : googleLocation f info' with
        | none => exact .inr ⟨nofun, rfl⟩
        | some result =>
          cases result with
          | none => exact .inr ⟨nofun, rfl⟩
          | some location => exact .inl ⟨location, rfl, rfl⟩

private theorem lookUp_unasked {db : Database} {services : Services δ} {ipaddr : Bytes}
    (found : asked lower db services ipaddr = none) :
    (lookUp f lower db services ipaddr).1 = db := by
  unfold asked at found
  unfold lookUp
  split at found
  · rfl
  next data answer =>
    split at found
    · rfl
    next place told =>
      split at found
      next empty => rw [if_pos empty]
      next filled =>
        rw [if_neg filled, Option.map_eq_none_iff.mp found]

/-- A call leaves the cache as it is, or it caches a location for an address without one. -/
private theorem geocode_cases (db : Database) (services : Services δ) (ipaddr : Bytes) :
    (geocode f lower db services ipaddr).1 = db ∨ cachedLocation f db ipaddr = none ∧
      ∃ place location,
        (geocode f lower db services ipaddr).1 = cacheResults f db ipaddr place location := by
  unfold geocode
  cases cached : cachedLocation f db ipaddr with
  | some location => exact .inl rfl
  | none =>
    cases found : asked lower db services ipaddr with
    | none => exact .inl (lookUp_unasked f lower found)
    | some parts =>
      rcases lookUp_asked f lower found with ⟨location, -, ends⟩ | ⟨-, kept⟩
      · exact .inr ⟨rfl, parts.1, location, congrArg Prod.fst ends⟩
      · exact .inl kept

/-- A call leaves the entries of an address with a location. -/
private theorem geocode_keeps {db : Database} {ipaddr : Bytes} {location : δ × δ}
    (cached : cachedLocation f db ipaddr = some location) (services : Services δ)
    (ipaddr' : Bytes) (field : CacheField) :
    (geocode f lower db services ipaddr').1.get (cacheKey ipaddr field) =
      db.get (cacheKey ipaddr field) := by
  rcases geocode_cases f lower db services ipaddr' with same | ⟨missed, place, location', ends⟩
  · rw [same]
  · have apart : ipaddr ≠ ipaddr' := by
      rintro rfl
      rw [cached] at missed
      cases missed
    rw [ends]
    exact foldl_setString_other _ apart field _ db

/-- Calls leave the place and the location of an address that has them. -/
theorem geocodes_keep {ipaddr : Bytes} {location : δ × δ} (calls : List (Services δ × Bytes))
    (db : Database) (cached : cachedLocation f db ipaddr = some location) :
    cachedLocation f (geocodes f lower db calls) ipaddr = some location ∧
      cachedPlace (geocodes f lower db calls) ipaddr = cachedPlace db ipaddr := by
  induction calls generalizing db with
  | nil => exact ⟨cached, rfl⟩
  | cons call calls ih =>
    have kept := geocode_keeps f lower cached call.1 call.2
    have cached' : cachedLocation f (geocode f lower db call.1 call.2).1 ipaddr = some location := by
      rw [← cached]
      simp only [cachedLocation, stringForKey, kept]
    obtain ⟨location_, place_⟩ := ih _ cached'
    refine ⟨location_, place_.trans ?_⟩
    simp only [cachedPlace, stringForKey, kept]

private theorem geocode_cached {db : Database} {ipaddr : Bytes} {location : δ × δ}
    (cached : cachedLocation f db ipaddr = some location) (services : Services δ) :
    geocode f lower db services ipaddr =
      (db, .handled location.1 location.2 (cachedPlace db ipaddr)) := by
  rw [geocode, cached]

/-! ### Locations -/

private theorem objectForKey_member {key : Bytes} {value : Option (Json δ)} {found : Json δ}
    (has : jsonMember key value = some found) : objectForKey key value = some (some found) := by
  cases value with
  | none => cases has
  | some value =>
    cases value with
    | object members => exact congrArg some has
    | null => cases has
    | number x => cases has
    | string text => cases has
    | array items => cases has

private theorem doubleValue_coordinate {value : Option (Json δ)} {x : δ}
    (has : coordinate f value = some x) : doubleValue f value = some x := by
  cases value with
  | none => cases has
  | some value =>
    cases value with
    | number x => exact has
    | string text => exact has
    | null => cases has
    | array items => cases has
    | object members => cases has

theorem coordinate_some {value : Option (Json δ)} {x : δ} (has : coordinate f value = some x) :
    ∃ found, value = some found := by
  cases value with
  | none => cases has
  | some found => exact ⟨found, rfl⟩

private theorem jsonMember_some {key : Bytes} {value : Option (Json δ)} {found : Json δ}
    (has : jsonMember key value = some found) : ∃ object, value = some object := by
  cases value with
  | none => cases has
  | some object => exact ⟨object, rfl⟩

/-- The reading of an answer finds the location that it has. -/
private theorem googleLocation_located {info : Option (Json δ)} {location : δ × δ}
    (has : located f info = some location) : googleLocation f info = some (some location) := by
  unfold located at has
  split at has
  next result rest results =>
    simp only [Option.bind_eq_bind, Option.bind_eq_some_iff, Option.some.injEq] at has
    obtain ⟨latitude, lat, longitude, lng, rfl⟩ := has
    -- each coordinate is below a location, and that below a geometry
    obtain ⟨latValue, latHere⟩ := coordinate_some f lat
    obtain ⟨lngValue, lngHere⟩ := coordinate_some f lng
    obtain ⟨locationValue, locationHere⟩ := jsonMember_some latHere
    obtain ⟨geometryValue, geometryHere⟩ := jsonMember_some locationHere
    rw [locationHere] at latHere lngHere
    rw [geometryHere] at locationHere
    rw [geometryHere, locationHere, latHere] at lat
    rw [geometryHere, locationHere, lngHere] at lng
    rw [googleLocation, objectForKey_member results]
    simp only [Option.bind_eq_bind, Option.bind_some, firstResult, List.head?_cons,
      objectForKey_member geometryHere, objectForKey_member locationHere,
      objectForKey_member latHere, objectForKey_member lngHere, doubleValue_coordinate f lat,
      doubleValue_coordinate f lng]
  · cases has

/-! ### The first call -/

section First

variable {db : Database} {services : Services δ} {ipaddr : Bytes} {place : Place}
  {info : Option (Json δ)} (found : asked lower db services ipaddr = some (place, info))
include found

private theorem located_iff :
    Located f lower db services ipaddr ↔ ∃ location, located f info = some location := by
  constructor
  · rintro ⟨place', info', location, found', has⟩
    rw [found] at found'
    obtain ⟨rfl, rfl⟩ := Prod.mk.inj (Option.some.inj found')
    exact ⟨location, has⟩
  · rintro ⟨location, has⟩
    exact ⟨place, info, location, found, has⟩

private theorem cacheable_iff :
    Cacheable f lower db services ipaddr ↔ ((located f info).isSome = true → place.Full) ∧
      (located f info = none → ∀ location, googleLocation f info ≠ some (some location)) := by
  refine ⟨fun cacheable => cacheable place info found, fun cached place' info' found' => ?_⟩
  rw [found] at found'
  obtain ⟨rfl, rfl⟩ := Prod.mk.inj (Option.some.inj found')
  exact cached

/-- A first call that caches a location is answered alike if that is one, and the place is full. -/
private theorem cachedAlike_filled {location : δ × δ}
    (google : googleLocation f info = some (some location))
    (ends : geocode f lower db services ipaddr =
      (cacheResults f db ipaddr place location, .handled location.1 location.2 place)) :
    CachedAlike f lower db services ipaddr ↔ Cacheable f lower db services ipaddr := by
  rw [cacheable_iff f lower found, CachedAlike, located_iff f lower found, ends]
  have cached := cacheResults_location f db ipaddr place location
  have full := cacheResults_place_iff f db ipaddr place location
  have later : ∀ calls services', (geocode f lower (geocodes f lower
      (cacheResults f db ipaddr place location) calls) services' ipaddr).2 =
        .handled location.1 location.2
          (cachedPlace (cacheResults f db ipaddr place location) ipaddr) := by
    intro calls services'
    obtain ⟨location_, place_⟩ := geocodes_keep f lower calls _ cached
    rw [geocode_cached f lower location_, place_]
  cases has : located f info with
  | none =>
    refine iff_of_false (fun alike => ?_) fun cacheable => cacheable.2 rfl location google
    have missing := alike.2 nofun
    rw [cached] at missing
    cases missing
  | some location' =>
    constructor
    · intro alike
      refine ⟨fun _ => full.mp ?_, nofun⟩
      have same := alike.1 ⟨location', rfl⟩ [] services
      rw [later] at same
      exact (Exit.handled.inj same).2.2
    · intro cacheable
      refine ⟨fun _ calls services' => ?_, fun unlocated => absurd ⟨location', rfl⟩ unlocated⟩
      rw [later, full.mpr (cacheable.1 rfl)]

/-- A first call that caches no location has found none. -/
private theorem cachedAlike_unfilled (miss : cachedLocation f db ipaddr = none)
    (google : ∀ location, googleLocation f info ≠ some (some location))
    (kept : (geocode f lower db services ipaddr).1 = db) :
    CachedAlike f lower db services ipaddr ∧ Cacheable f lower db services ipaddr := by
  have unlocated : located f info = none := by
    cases has : located f info with
    | none => rfl
    | some location => exact absurd (googleLocation_located f has) (google location)
  rw [cacheable_iff f lower found, CachedAlike, located_iff f lower found, kept, unlocated]
  exact ⟨⟨nofun, fun _ => miss⟩, nofun, fun _ => google⟩

end First

/-- A call that misses the cache is answered alike ever after exactly if it can be cached. -/
theorem cachedAlike_iff (db : Database) (services : Services δ) (ipaddr : Bytes)
    (miss : cachedLocation f db ipaddr = none) :
    CachedAlike f lower db services ipaddr ↔ Cacheable f lower db services ipaddr := by
  have first : geocode f lower db services ipaddr = lookUp f lower db services ipaddr := by
    rw [geocode, miss]
  cases found : asked lower db services ipaddr with
  | none =>
    have unlocated : ¬Located f lower db services ipaddr := by
      rintro ⟨place, info, location, found', -⟩
      rw [found] at found'
      cases found'
    refine iff_of_true ⟨fun has => absurd has unlocated, fun _ => ?_⟩ ?_
    · rw [first, lookUp_unasked f lower found]
      exact miss
    · intro place info found'
      rw [found] at found'
      cases found'
  | some parts =>
    rcases lookUp_asked f lower found with ⟨location, google, ends⟩ | ⟨google, kept⟩
    · exact cachedAlike_filled f lower found google (first.trans ends)
    · obtain ⟨alike, cacheable⟩ :=
        cachedAlike_unfilled f lower found miss google ((congrArg Prod.fst first).trans kept)
      exact iff_of_true alike cacheable

end Cache

/-- A double as its decimal numeral. -/
def numerals : Doubles { text : Bytes // utf8Valid text = true } where
  zero := ⟨ascii "0", rfl⟩
  text x := x.1
  number text := if valid : utf8Valid text = true then ⟨text, valid⟩ else ⟨ascii "0", rfl⟩
  survives x := dif_pos x.2
  readable x := x.2

/-- hostip.info tells this text, and Google this location of the only result. -/
def servicesOf (text : String) (location : Json { text : Bytes // utf8Valid text = true }) :
    Services { text : Bytes // utf8Valid text = true } where
  hostip _ := some (ascii text)
  countries := ⟨fun _ => none, fun _ => none⟩
  google _ := some (some (.object [(ascii "results", .array
    [.object [(ascii "geometry", .object [(ascii "location", location)])]])]))

def lund : Json { text : Bytes // utf8Valid text = true } :=
  .object [(ascii "lat", .number ⟨ascii "55.7", rfl⟩), (ascii "lng", .number ⟨ascii "13.2", rfl⟩)]

theorem cachedAlike_lund :
    cachedLocation numerals Store.empty (ascii "81.2.69.1") = none ∧
      (CachedAlike numerals id Store.empty
          (servicesOf "Country: Sweden (SE)\nCity: Lund, M" lund) (ascii "81.2.69.1") ↔
        Cacheable numerals id Store.empty
          (servicesOf "Country: Sweden (SE)\nCity: Lund, M" lund) (ascii "81.2.69.1")) :=
  ⟨rfl, cachedAlike_iff numerals id _ _ _ rfl⟩

/-- A state that was absent is empty later, and an empty location is cached as the numbers 0. -/
theorem geocode_unalike :
    (∃ services, ¬CachedAlike numerals id Store.empty services (ascii "81.2.69.1") ∧
      Located numerals id Store.empty services (ascii "81.2.69.1")) ∧
    ∃ services, ¬CachedAlike numerals id Store.empty services (ascii "81.2.69.1") ∧
      ¬Located numerals id Store.empty services (ascii "81.2.69.1") := by
  constructor
  · have found : Located numerals id Store.empty
        (servicesOf "Country: Sweden (SE)\nCity: Lund" lund) (ascii "81.2.69.1") :=
      ⟨_, _, _, rfl, rfl⟩
    refine ⟨_, fun alike => ?_, found⟩
    have same := alike.1 found []
      (servicesOf "Country: Sweden (SE)\nCity: Lund" lund)
    exact absurd same (by decide +kernel)
  · have unlocated : ¬Located numerals id Store.empty
        (servicesOf "Country: Sweden (SE)\nCity: Lund" (.object [])) (ascii "81.2.69.1") := by
      rw [located_iff numerals id rfl]
      exact nofun
    refine ⟨_, fun alike => ?_, unlocated⟩
    exact absurd (alike.2 unlocated) (by decide +kernel)

end Spamass.Geo
