import Spamass.Emailz.HandleRead
import Spamass.Runs

/-!
# The TLS input callback

`emailz_sslsocket_read` takes encrypted input off `tmpdata` for the Security framework,
while the read handler appends to it. A data object is a list of regions: the copy walks
over them until nothing remains to be copied, and what is left is sliced off by offset.
-/
namespace Spamass.Emailz

open Spamass.Runs

/-! ### Data objects -/

/-- The regions behind the first bytes. -/
def regionsFrom : Nat → List Bytes → List Bytes
  | _, [] => []
  | offset, region :: regions =>
    if region.length ≤ offset then regionsFrom (offset - region.length) regions
    else region.drop offset :: regions

/-- The regions of the first bytes. -/
def regionsUpTo : Nat → List Bytes → List Bytes
  | _, [] => []
  | length, region :: regions =>
    if length = 0 then [] else region.take length :: regionsUpTo (length - region.length) regions

/-- `dispatch_data_create_subrange`. -/
def createSubrange (data : List Bytes) (offset length : Nat) : List Bytes :=
  regionsUpTo length (regionsFrom offset data)

/-- `socket->tmpdata` behind `emailz_sslsocket_read`, in its regions. -/
def tmpdataBehind (tmpdata : List Bytes) (requested : Nat) : List Bytes :=
  let available := tmpdata.flatten.length
  let returning := (sslsocketRead tmpdata requested).copied.length
  if available = 0 then tmpdata else createSubrange tmpdata returning (available - returning)

/-! ### The machine -/

/-- The encrypted input of a connection, with all that was appended to it and all that was copied
out of it. -/
structure SslInput where
  tmpdata : List Bytes
  appended : Bytes
  copied : Bytes
  deriving DecidableEq, Repr

inductive InputStep where
  /-- `dispatch_data_create_concat` in `emailz_socket_handle_read` -/
  | append (chunk : List Bytes)
  | read (requested : Nat)
  deriving DecidableEq, Repr

/-- `tmpdata` as `emailz_socket_start` creates it. -/
def SslInput.empty : SslInput := ⟨[], [], []⟩

def SslInput.step (i : SslInput) : InputStep → SslInput
  | .append chunk =>
    { i with tmpdata := i.tmpdata ++ chunk, appended := i.appended ++ chunk.flatten }
  | .read requested =>
    { i with
      tmpdata := tmpdataBehind i.tmpdata requested
      copied := i.copied ++ (sslsocketRead i.tmpdata requested).copied }

/-- Nothing is lost, repeated or put in another order. -/
def SslInput.Lossless (i : SslInput) : Prop := i.copied ++ i.tmpdata.flatten = i.appended

/-- What the framework is told of a read, and how much it gets. -/
structure Reports (tmpdata : List Bytes) (requested : Nat) (answer : SslsocketRead) : Prop where
  copied : answer.copied.length = min requested tmpdata.flatten.length
  datalen : answer.datalen = min requested tmpdata.flatten.length
  status : answer.status = if requested ≤ tmpdata.flatten.length then noErr else errSSLWouldBlock

/-! ### One read -/

private theorem regionsFrom_flatten (offset : Nat) (data : List Bytes) :
    (regionsFrom offset data).flatten = data.flatten.drop offset := by
  induction data generalizing offset with
  | nil => rw [regionsFrom, List.flatten_nil, List.drop_nil]
  | cons region regions ih =>
    rw [regionsFrom, List.flatten_cons]
    split
    next through => rw [ih, List.drop_append, List.drop_of_length_le through, List.nil_append]
    next inside =>
      rw [List.flatten_cons, List.drop_append_of_le_length (Nat.le_of_not_le inside)]

private theorem regionsUpTo_flatten (length : Nat) (data : List Bytes) :
    (regionsUpTo length data).flatten = data.flatten.take length := by
  induction data generalizing length with
  | nil => rw [regionsUpTo, List.flatten_nil, List.take_nil]
  | cons region regions ih =>
    rw [regionsUpTo, List.flatten_cons]
    split
    next missing => rw [missing, List.take_zero, List.flatten_nil]
    next present => rw [List.flatten_cons, ih, List.take_append]

private theorem createSubrange_flatten (data : List Bytes) (offset length : Nat) :
    (createSubrange data offset length).flatten = (data.flatten.drop offset).take length := by
  rw [createSubrange, regionsUpTo_flatten, regionsFrom_flatten]

/-- The walk over the regions copies the first bytes of the data, whatever its regions are. -/
private theorem copyRegions_take (remaining : Nat) (data : List Bytes) :
    copyRegions remaining data = data.flatten.take remaining := by
  induction data generalizing remaining with
  | nil => rw [copyRegions, List.flatten_nil, List.take_nil]
  | cons region regions ih =>
    rw [copyRegions, List.flatten_cons, List.take_append]
    split
    -- the block returns `remaining`: zero ends the walk
    next ended =>
      have whole : remaining ≤ region.length := by omega
      have nothing : remaining - region.length = 0 := by omega
      rw [Nat.min_eq_left whole, nothing, List.take_zero, List.append_nil]
    next left =>
      have through : region.length ≤ remaining := by omega
      rw [Nat.min_eq_right through, List.take_of_length_le (Nat.le_refl _),
        List.take_of_length_le through, ih]

private theorem sslsocketRead_copied (tmpdata : List Bytes) (requested : Nat) :
    (sslsocketRead tmpdata requested).copied = tmpdata.flatten.take requested := by
  unfold sslsocketRead
  dsimp only
  split
  next missing => rw [List.eq_nil_of_length_eq_zero missing, List.take_nil]
  next present =>
    split
    · exact copyRegions_take requested tmpdata
    · exact copyRegions_take requested tmpdata

theorem sslsocketRead_reports (tmpdata : List Bytes) (requested : Nat) (asks : 1 ≤ requested) :
    Reports tmpdata requested (sslsocketRead tmpdata requested) where
  copied := by rw [sslsocketRead_copied, List.length_take]
  datalen := by
    unfold sslsocketRead
    dsimp only
    split
    next missing => rw [missing, Nat.min_zero]
    next present =>
      split
      next beyond => exact (Nat.min_eq_right (Nat.le_of_lt beyond)).symm
      next within => exact (Nat.min_eq_left (Nat.le_of_not_lt within)).symm
  status := by
    unfold sslsocketRead
    dsimp only
    split
    next missing => rw [missing, if_neg (Nat.not_le_of_lt asks)]
    next present =>
      split
      next beyond => rw [if_neg (Nat.not_le_of_lt beyond)]
      next within => rw [if_pos (Nat.le_of_not_lt within)]

/-- What is left is what was not copied. -/
private theorem tmpdataBehind_flatten (tmpdata : List Bytes) (requested : Nat) :
    (tmpdataBehind tmpdata requested).flatten = tmpdata.flatten.drop requested := by
  unfold tmpdataBehind
  dsimp only
  split
  next missing => rw [List.eq_nil_of_length_eq_zero missing, List.drop_nil]
  next present =>
    have all : (tmpdata.flatten.drop requested).length ≤
        tmpdata.flatten.length - min requested tmpdata.flatten.length := by
      rw [List.length_drop]
      omega
    rw [createSubrange_flatten, sslsocketRead_copied, List.length_take]
    rcases Nat.le_total requested tmpdata.flatten.length with within | beyond
    · rw [Nat.min_eq_left within] at all ⊢
      exact List.take_of_length_le all
    · rw [Nat.min_eq_right beyond, List.drop_length, List.take_nil, List.drop_of_length_le beyond]

/-- The bytes that are left do not depend on the regions. -/
private theorem tmpdataBehind_eq (tmpdata : List Bytes) (requested : Nat) :
    (tmpdataBehind tmpdata requested).flatten = (sslsocketRead tmpdata requested).tmpdata := by
  rw [tmpdataBehind_flatten]
  unfold sslsocketRead
  dsimp only
  split
  next missing => rw [List.eq_nil_of_length_eq_zero missing, List.drop_nil]
  next present =>
    rw [copyRegions_take, List.length_take]
    rcases Nat.le_total requested tmpdata.flatten.length with within | beyond
    · rw [Nat.min_eq_left within]
      split <;> rfl
    · rw [Nat.min_eq_right beyond, List.drop_length, List.drop_of_length_le beyond]
      split <;> rfl

/-! ### Runs -/

private theorem lossless_step (i : SslInput) (label : InputStep) (lossless : i.Lossless) :
    (i.step label).Lossless := by
  unfold SslInput.Lossless at lossless ⊢
  cases label with
  | append chunk =>
    change i.copied ++ (i.tmpdata ++ chunk).flatten = i.appended ++ chunk.flatten
    rw [List.flatten_append, ← List.append_assoc, lossless]
  | read requested =>
    change i.copied ++ (sslsocketRead i.tmpdata requested).copied ++
      (tmpdataBehind i.tmpdata requested).flatten = i.appended
    rw [sslsocketRead_copied, tmpdataBehind_flatten, List.append_assoc, List.take_append_drop,
      lossless]

/-- The calls of the framework during a read of the socket are reads of this machine. -/
theorem serve_run (s : Socket) (call : SslCall) (i : SslInput)
    (same : i.tmpdata.flatten = s.tmpdata) :
    (s.serve call).tmpdata =
      (run SslInput.step i (call.requests.map InputStep.read)).tmpdata.flatten := by
  change call.requests.foldl (fun tmp n => (sslsocketRead [tmp] n).tmpdata) s.tmpdata = _
  rw [← same]
  clear same
  generalize call.requests = requests
  induction requests generalizing i with
  | nil => rfl
  | cons n requests ih =>
    rw [List.foldl_cons, List.map_cons, ← tmpdataBehind_eq, tmpdataBehind_flatten,
      List.flatten_singleton, ← tmpdataBehind_flatten]
    exact ih (i.step (.read n))

/-- Over every order of appended chunks and reads, the bytes come out as they went in, and every
read gets as much as there is of what it asked for and is told so. -/
theorem sslInput_lossless (steps : List InputStep) (asks : ∀ n, .read n ∈ steps → 1 ≤ n) :
    Always SslInput.step SslInput.Lossless SslInput.empty steps ∧
      Each SslInput.step (fun i label => ∀ n, label = .read n →
        Reports i.tmpdata n (sslsocketRead i.tmpdata n)) SslInput.empty steps := by
  have start : SslInput.empty.Lossless := rfl
  constructor
  · exact always_kept SslInput.step lossless_step start steps
  · apply each_always SslInput.step steps
    rintro label member i n rfl
    exact sslsocketRead_reports i.tmpdata n (asks n member)

/-- A request that ends inside of a region, and one for more than there is. -/
theorem sslInput_regions :
    Always SslInput.step SslInput.Lossless SslInput.empty
        [.append [ascii "ab", ascii "cde"], .read 3, .append [ascii "f"], .read 9] ∧
      Each SslInput.step (fun i label => ∀ n, label = .read n →
        Reports i.tmpdata n (sslsocketRead i.tmpdata n)) SslInput.empty
        [.append [ascii "ab", ascii "cde"], .read 3, .append [ascii "f"], .read 9] := by
  apply sslInput_lossless
  intro n member
  simp only [List.mem_cons, InputStep.read.injEq, List.not_mem_nil, or_false, false_or,
    reduceCtorEq] at member
  omega

end Spamass.Emailz
