import Mathlib.Logic.Function.Basic
import Spamass.App.Mail
import Spamass.Runs

/-!
# Markers on the map

OPEN starts a geocode job whose result sets a marker on the main thread, CLOSE starts a
block on a global queue that removes it. Nothing orders the two. Over every schedule the
marker is gone with its connection exactly if it is never set behind its removal.
-/
namespace Spamass.App

open Spamass.Emailz Spamass.Runs

/-! ### The map -/

section

-- a double
variable {δ : Type}

structure SMMapMarker (δ : Type) where
  mKey : Bytes
  mLatitude : δ
  mLongitude : δ
  mLabel : Bytes
  deriving DecidableEq, Repr

/-- What the geocoder hands to its handler. -/
structure GeocodedPlace (δ : Type) where
  latitude : δ
  longitude : δ
  city : Option Bytes
  country : Option Bytes
  deriving DecidableEq, Repr

/-- `mMarkers`. -/
abbrev Markers (δ : Type) := Bytes → Option (SMMapMarker δ)

/-- `unsetMarkerForKey:`. -/
def unsetMarkerForKey (markers : Markers δ) (key : Bytes) : Markers δ :=
  if utf16Length key = 0 then markers
  else
    match markers key with
    | none => markers
    | some _ => Function.update markers key none

/-- `setMarkerAtLatitude:longitude:withLabel:forKey:`. A marker that is there keeps its key. -/
def setMarker (markers : Markers δ) (latitude longitude : δ) (label key : Bytes) : Markers δ :=
  Function.update markers key
    (some ⟨((markers key).map SMMapMarker.mKey).getD key, latitude, longitude, label⟩)

/-- The format `%@ - %@`. -/
def markerLabel (city country : Option Bytes) : Bytes :=
  city.getD (ascii "(null)") ++ ascii " - " ++ country.getD (ascii "(null)")

/-- `geocode:handler:` starts a job. -/
def geocodes (ipaddr : Bytes) : Bool :=
  !(utf16Length ipaddr = 0 || hasPrefix ipaddr (ascii "10.") || hasPrefix ipaddr (ascii "192.168."))

/-! ### The jobs -/

/-- The way to the marker: the geocode job, then the block on the main thread. -/
inductive Setting (δ : Type) where
  | unstarted
  | geocoding
  | placing (place : GeocodedPlace δ)
  | finished
  deriving DecidableEq, Repr

/-- The block on the global queue. -/
inductive Removing where
  | unstarted
  | queued
  | finished
  deriving DecidableEq, Repr

structure Jobs (δ : Type) where
  setting : Setting δ
  removing : Removing
  deriving DecidableEq, Repr

/-- The OPEN and the CLOSE block of a connection, and the jobs they start. -/
inductive MarkerStep (ι δ : Type) where
  | opened (i : ι)
  /-- the geocode job ends, with a place for the handler or without -/
  | geocoded (i : ι) (place : Option (GeocodedPlace δ))
  | placed (i : ι)
  | closed (i : ι)
  | removed (i : ι)

def MarkerStep.connection {ι : Type} : MarkerStep ι δ → ι
  | .opened i => i
  | .geocoded i _ => i
  | .placed i => i
  | .closed i => i
  | .removed i => i

end

/-- A connection as the socket handler sees it. -/
structure Client where
  socketId : Bytes
  ipaddress : Bytes
  deriving DecidableEq, Repr

section

variable {ι δ : Type} [DecidableEq ι] (clients : ι → Client)

structure MapState (ι δ : Type) where
  mMarkers : Markers δ
  jobs : ι → Jobs δ

def MapState.start : MapState ι δ := ⟨fun _ => none, fun _ => ⟨.unstarted, .unstarted⟩⟩

def MapState.put (s : MapState ι δ) (i : ι) (jobs : Jobs δ) : MapState ι δ :=
  { s with jobs := Function.update s.jobs i jobs }

/-- One block or job. One that is not pending leaves the state as it is. -/
def MapState.step (s : MapState ι δ) (label : MarkerStep ι δ) : MapState ι δ :=
  let i := label.connection
  let jobs := s.jobs i
  match label, jobs.setting, jobs.removing with
  | .opened _, .unstarted, _ =>
    s.put i
      { jobs with setting := if geocodes (clients i).ipaddress then .geocoding else .finished }
  | .geocoded _ place, .geocoding, _ =>
    s.put i { jobs with setting := (place.map Setting.placing).getD .finished }
  | .placed _, .placing place, _ =>
    { s.put i { jobs with setting := .finished } with
      mMarkers := setMarker s.mMarkers place.latitude place.longitude
        (markerLabel place.city place.country) (clients i).socketId }
  -- the CLOSE block comes behind the OPEN block on the handler queue
  | .closed _, .unstarted, _ => s
  | .closed _, _, .unstarted => s.put i { jobs with removing := .queued }
  | .removed _, _, .queued =>
    { s.put i { jobs with removing := .finished } with
      mMarkers := unsetMarkerForKey s.mMarkers (clients i).socketId }
  | _, _, _ => s

/-! ### What is asked -/

/-- The connection has been closed. -/
def Jobs.isClosed (jobs : Jobs δ) : Bool :=
  match jobs.removing with
  | .unstarted => false
  | _ => true

def Jobs.isPending (jobs : Jobs δ) : Bool :=
  match jobs.setting, jobs.removing with
  | .geocoding, _ => true
  | .placing _, _ => true
  | _, .queued => true
  | _, _ => false

/-- A closed connection without a pending job has no marker. -/
def Cleared (s : MapState ι δ) : Prop :=
  ∀ i, (s.jobs i).isClosed = true → (s.jobs i).isPending = false →
    s.mMarkers (clients i).socketId = none

/-- A step leaves the markers of the other connections as they are. -/
def Separate (s : MapState ι δ) (label : MarkerStep ι δ) : Prop :=
  ∀ i, i ≠ label.connection → (s.step clients label).mMarkers (clients i).socketId =
    s.mMarkers (clients i).socketId

/-- A marker is set only while its removal is still to come, and a removal without a key finds no
marker. -/
def InOrder (s : MapState ι δ) : MarkerStep ι δ → Prop
  | .placed i => ∀ place, (s.jobs i).setting = .placing place → (s.jobs i).removing ≠ .finished
  | .removed i => (s.jobs i).removing = .queued → utf16Length (clients i).socketId ≠ 0 ∨
      s.mMarkers (clients i).socketId = none
  | _ => True

/-! ### One key -/

theorem unsetMarkerForKey_other (markers : Markers δ) (key other : Bytes) (ne : other ≠ key) :
    unsetMarkerForKey markers key other = markers other := by
  unfold unsetMarkerForKey
  split
  · rfl
  · cases markers key with
    | none => rfl
    | some marker => exact Function.update_of_ne ne ..

/-- Behind a removal the marker is there only if the key is empty and it was there before. -/
private theorem unsetMarkerForKey_same (markers : Markers δ) (key : Bytes) :
    unsetMarkerForKey markers key key = none ↔ utf16Length key ≠ 0 ∨ markers key = none := by
  unfold unsetMarkerForKey
  split
  next empty => simp [empty]
  next filled =>
    cases present : markers key with
    | none => simp [present]
    | some marker => simp [filled]

theorem setMarker_other (markers : Markers δ) (latitude longitude : δ) (label key other : Bytes)
    (ne : other ≠ key) : setMarker markers latitude longitude label key other = markers other :=
  Function.update_of_ne ne ..

private theorem setMarker_same (markers : Markers δ) (latitude longitude : δ) (label key : Bytes) :
    setMarker markers latitude longitude label key key ≠ none := by simp [setMarker]

@[simp] theorem MapState.put_markers (s : MapState ι δ) (i : ι) (jobs : Jobs δ) :
    (s.put i jobs).mMarkers = s.mMarkers := rfl

@[simp] theorem MapState.put_same (s : MapState ι δ) (i : ι) (jobs : Jobs δ) :
    (s.put i jobs).jobs i = jobs := Function.update_self ..

theorem MapState.put_other (s : MapState ι δ) (i other : ι) (jobs : Jobs δ) (ne : other ≠ i) :
    (s.put i jobs).jobs other = s.jobs other := Function.update_of_ne ne ..

/-! ### One step -/

/-- What a step does. Only the last two touch the map. -/
inductive Moved (s : MapState ι δ) : MarkerStep ι δ → MapState ι δ → Prop
  | idle (label : MarkerStep ι δ) (inOrder : InOrder clients s label) : Moved s label s
  | opened (i : ι) (setting : Setting δ) (before : (s.jobs i).setting = .unstarted) :
      Moved s (.opened i) (s.put i { s.jobs i with setting := setting })
  | geocoded (i : ι) (place : Option (GeocodedPlace δ)) (setting : Setting δ)
      (before : (s.jobs i).setting = .geocoding) (after : setting ≠ .unstarted) :
      Moved s (.geocoded i place) (s.put i { s.jobs i with setting := setting })
  | closed (i : ι) (started : (s.jobs i).setting ≠ .unstarted)
      (before : (s.jobs i).removing = .unstarted) :
      Moved s (.closed i) (s.put i { s.jobs i with removing := .queued })
  | placed (i : ι) (place : GeocodedPlace δ) (before : (s.jobs i).setting = .placing place) :
      Moved s (.placed i) { s.put i { s.jobs i with setting := .finished } with
        mMarkers := setMarker s.mMarkers place.latitude place.longitude
          (markerLabel place.city place.country) (clients i).socketId }
  | removed (i : ι) (before : (s.jobs i).removing = .queued) :
      Moved s (.removed i) { s.put i { s.jobs i with removing := .finished } with
        mMarkers := unsetMarkerForKey s.mMarkers (clients i).socketId }

private theorem step_moved (s : MapState ι δ) (label : MarkerStep ι δ) :
    Moved clients s label (s.step clients label) := by
  -- each job moves from the one setting its step waits for, and is idle in the others
  cases label with
  | opened i =>
    cases before : (s.jobs i).setting with
    | unstarted =>
      simp only [MapState.step, MarkerStep.connection, before]
      exact .opened i _ before
    | _ =>
      simp only [MapState.step, MarkerStep.connection, before]
      exact .idle _ trivial
  | geocoded i place =>
    cases before : (s.jobs i).setting with
    | geocoding =>
      simp only [MapState.step, MarkerStep.connection, before]
      exact .geocoded i place _ before (by cases place <;> simp)
    | _ =>
      simp only [MapState.step, MarkerStep.connection, before]
      exact .idle _ trivial
  | placed i =>
    cases before : (s.jobs i).setting with
    | placing place =>
      simp only [MapState.step, MarkerStep.connection, before]
      exact .placed i place before
    | _ =>
      simp only [MapState.step, MarkerStep.connection, before]
      exact .idle _ (by simp [InOrder, before])
  | closed i =>
    cases started : (s.jobs i).setting with
    | unstarted =>
      simp only [MapState.step, MarkerStep.connection, started]
      exact .idle _ trivial
    | _ =>
      cases before : (s.jobs i).removing with
      | unstarted =>
        simp only [MapState.step, MarkerStep.connection, started, before]
        have moved : Moved clients s (.closed i) (s.put i { s.jobs i with removing := .queued }) :=
          .closed i (by simp [started]) before
        simpa only [started] using moved
      | _ =>
        simp only [MapState.step, MarkerStep.connection, started, before]
        exact .idle _ trivial
  | removed i =>
    cases before : (s.jobs i).removing with
    | queued =>
      simp only [MapState.step, MarkerStep.connection, before]
      exact .removed i before
    | _ =>
      simp only [MapState.step, MarkerStep.connection, before]
      exact .idle _ (by simp [InOrder, before])

/-! ### Other connections -/

private theorem separate_step (distinct : Function.Injective fun i => (clients i).socketId)
    (s : MapState ι δ) (label : MarkerStep ι δ) : Separate clients s label := by
  intro other ne
  have moved := step_moved clients s label
  generalize s.step clients label = after at moved ⊢
  cases moved with
  | placed i place before => exact setMarker_other _ _ _ _ _ _ (distinct.ne ne)
  | removed i before => exact unsetMarkerForKey_other _ _ _ (distinct.ne ne)
  | _ => rfl

/-- The jobs of the other connections stay as they are, too. -/
private theorem step_jobs_other (s : MapState ι δ) (label : MarkerStep ι δ) (other : ι)
    (ne : other ≠ label.connection) : (s.step clients label).jobs other = s.jobs other := by
  have moved := step_moved clients s label
  generalize s.step clients label = after at moved ⊢
  cases moved with
  | idle => rfl
  | _ => exact MapState.put_other _ _ _ _ ne

/-! ### The invariant -/

/-- A marker is there only when its geocode job has ended, a removal only when it has begun. -/
structure Staged (s : MapState ι δ) : Prop where
  marker : ∀ i, s.mMarkers (clients i).socketId ≠ none → (s.jobs i).setting = .finished
  removal : ∀ i, (s.jobs i).removing ≠ .unstarted → (s.jobs i).setting ≠ .unstarted

omit [DecidableEq ι] in
private theorem staged_start : Staged clients (.start : MapState ι δ) :=
  ⟨fun _ marker => absurd rfl marker, fun _ removal => absurd rfl removal⟩

private theorem staged_step (distinct : Function.Injective fun i => (clients i).socketId)
    (s : MapState ι δ) (label : MarkerStep ι δ) (staged : Staged clients s) :
    Staged clients (s.step clients label) := by
  have separate := separate_step clients distinct s label
  have others := step_jobs_other clients s label
  have moved := step_moved clients s label
  constructor
  · intro i marker
    by_cases same : i = label.connection
    · subst same
      generalize s.step clients label = after at moved marker ⊢
      cases moved with
      | idle => exact staged.marker _ marker
      | placed i place before => simp [MarkerStep.connection]
      | closed i started before =>
        simp only [MarkerStep.connection, MapState.put_markers, MapState.put_same] at marker ⊢
        exact staged.marker i marker
      | removed i before =>
        simp only [MarkerStep.connection, MapState.put_same] at marker ⊢
        refine staged.marker i fun absent => marker ?_
        exact (unsetMarkerForKey_same _ _).mpr (Or.inr absent)
      -- the job is still to come, so there is no marker yet
      | opened i setting before =>
        have ended := staged.marker i marker
        rw [before] at ended
        cases ended
      | geocoded i place setting before =>
        have ended := staged.marker i marker
        rw [before] at ended
        cases ended
    · rw [separate i same] at marker
      rw [others i same]
      exact staged.marker i marker
  · intro i removal
    by_cases same : i = label.connection
    · subst same
      generalize s.step clients label = after at moved removal ⊢
      cases moved with
      | idle => exact staged.removal _ removal
      | opened i setting before =>
        simp only [MarkerStep.connection, MapState.put_same] at removal
        exact absurd before (staged.removal i removal)
      | geocoded i place setting before after => simpa [MarkerStep.connection] using after
      | closed i started before => simpa [MarkerStep.connection] using started
      | placed i place before => simp [MarkerStep.connection]
      | removed i before =>
        simp only [MarkerStep.connection, MapState.put_same]
        exact staged.removal i (by simp [before])
    · rw [others i same] at removal ⊢
      exact staged.removal i removal

/-! ### Closed connections -/

/-- `Cleared`, for one connection. -/
def ClearedAt (s : MapState ι δ) (i : ι) : Prop :=
  (s.jobs i).isClosed = true → (s.jobs i).isPending = false → s.mMarkers (clients i).socketId = none

theorem clearedAt_step (s : MapState ι δ) (label : MarkerStep ι δ) (staged : Staged clients s)
    (here : ClearedAt clients s label.connection) :
    ClearedAt clients (s.step clients label) label.connection ↔ InOrder clients s label := by
  have moved := step_moved clients s label
  generalize s.step clients label = after at moved ⊢
  -- before its job has ended a connection has no marker
  have unmarked : (s.jobs label.connection).setting ≠ .finished →
      s.mMarkers (clients label.connection).socketId = none := by
    intro early
    by_contra marker
    exact early (staged.marker _ marker)
  cases moved with
  | idle _ inOrder => exact iff_of_true here inOrder
  | opened i setting before =>
    exact iff_of_true (fun _ _ => unmarked (by simp [MarkerStep.connection, before])) trivial
  | geocoded i place setting before =>
    exact iff_of_true (fun _ _ => unmarked (by simp [MarkerStep.connection, before])) trivial
  | closed i started before =>
    refine iff_of_true ?_ trivial
    intro _ quiet
    simp [MarkerStep.connection, Jobs.isPending] at quiet
    split at quiet <;> simp_all
  | placed i place before =>
    have marker := setMarker_same s.mMarkers place.latitude place.longitude
      (markerLabel place.city place.country) (clients i).socketId
    cases removing : (s.jobs i).removing with
    | finished =>
      simp [ClearedAt, InOrder, MarkerStep.connection, Jobs.isClosed, Jobs.isPending, before,
        removing, marker]
    | _ =>
      simp [ClearedAt, InOrder, MarkerStep.connection, Jobs.isClosed, Jobs.isPending, removing]
  | removed i before =>
    have gone := unsetMarkerForKey_same s.mMarkers (clients i).socketId
    cases setting : (s.jobs i).setting with
    | unstarted => exact absurd setting (staged.removal i (by simp [before]))
    | finished =>
      simp [ClearedAt, InOrder, MarkerStep.connection, Jobs.isClosed, Jobs.isPending, setting,
        before, gone]
    | _ =>
      have absent := unmarked (by simp [MarkerStep.connection, setting])
      simp only [MarkerStep.connection] at absent
      simp [ClearedAt, InOrder, MarkerStep.connection, Jobs.isPending, setting, absent]

private theorem cleared_step (distinct : Function.Injective fun i => (clients i).socketId)
    (s : MapState ι δ) (label : MarkerStep ι δ) (staged : Staged clients s)
    (cleared : Cleared clients s) :
    Cleared clients (s.step clients label) ↔ InOrder clients s label := by
  have one := clearedAt_step clients s label staged (cleared _)
  refine ⟨fun after => one.mp (after _), fun inOrder i => ?_⟩
  by_cases same : i = label.connection
  · subst same
    exact one.mpr inOrder
  · rw [step_jobs_other clients s label i same, separate_step clients distinct s label i same]
    exact cleared i

/-! ### Every schedule -/

/-- Markers are gone with their connections, and no step touches a foreign one, exactly if no
marker is set behind its removal and no removal misses a marker for want of a key. -/
theorem cleared_iff_inOrder (distinct : Function.Injective fun i => (clients i).socketId)
    (labels : List (MarkerStep ι δ)) :
    (Always (MapState.step clients) (Cleared clients) .start labels ∧
        Each (MapState.step clients) (Separate clients) .start labels) ↔
      Each (MapState.step clients) (InOrder clients) .start labels := by
  have separate := each_always (MapState.step clients) labels
    (fun label _ s => separate_step clients distinct s label) .start
  rw [and_iff_left separate]
  exact always_iff_each (MapState.step clients) (staged_step clients distinct)
    (cleared_step clients distinct) (staged_start clients) (fun _ _ _ => rfl) labels

end

/-- One connection is located, then closed, while another comes and goes. -/
def twoClients : Bool → Client
  | false => ⟨ascii "a", ascii "1.2.3.4"⟩
  | true => ⟨ascii "b", ascii "10.0.0.1"⟩

def visits : List (MarkerStep Bool Int) :=
  [.opened false, .opened true, .geocoded false (some ⟨52, 13, none, none⟩), .closed true,
    .placed false, .removed true, .closed false, .removed false]

theorem cleared_iff_inOrder_visits :
    (Always (MapState.step twoClients) (Cleared twoClients) .start visits ∧
        Each (MapState.step twoClients) (Separate twoClients) .start visits) ↔
      Each (MapState.step twoClients) (InOrder twoClients) .start visits :=
  cleared_iff_inOrder twoClients (fun i j => by cases i <;> cases j <;> decide) visits

/-- A client that leaves before it has been located. -/
def hastyClient : Client := ⟨ascii "a", ascii "1.2.3.4"⟩

def departure : List (MarkerStep Unit Int) :=
  [.opened (), .closed (), .removed (), .geocoded () (some ⟨52, 13, none, none⟩), .placed ()]

/-- Its marker is on the map, and no job will remove it. -/
theorem departed_marked :
    ¬ Always (MapState.step fun _ => hastyClient) (Cleared fun _ => hastyClient) .start
      departure := by
  intro always
  have cleared := always_run _ always () rfl rfl
  exact absurd cleared (by decide)

end Spamass.App
