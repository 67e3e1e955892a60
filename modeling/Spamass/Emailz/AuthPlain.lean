import Mathlib.Algebra.Group.Nat.Defs
import Spamass.Base64
import Spamass.Emailz.CommandLine
import Spamass.Emailz.Dialogue

/-!
# AUTH PLAIN

The argument of AUTH PLAIN is the base64 form of an authorization identity, a user name
and a password, parted by NUL. The decoder skips what is not in its alphabet, goes once
more round its loop for what follows the last full group, and the first byte it writes
is taken for the NUL behind an empty identity.
-/
namespace Spamass.Emailz

open Spamass.Framing Spamass.Base64

/-! ### The base64 form -/

def base64EncodeLookup : Bytes :=
  ascii "ABCDEFGHIJKLMNOPQRSTUVWXYZabcdefghijklmnopqrstuvwxyz0123456789+/"

def encodeChar (value : UInt8) : UInt8 := base64EncodeLookup.getD value.toNat 0

/-- `NewBase64Encode`, not separating lines. -/
def newBase64Encode : Bytes → Bytes
  | a :: b :: c :: rest =>
    encodeChar ((a &&& 0xFC) >>> 2) ::
      encodeChar (((a &&& 0x03) <<< 4) ||| ((b &&& 0xF0) >>> 4)) ::
      encodeChar (((b &&& 0x0F) <<< 2) ||| ((c &&& 0xC0) >>> 6)) ::
      encodeChar (c &&& 0x3F) :: newBase64Encode rest
  | [a, b] =>
    [encodeChar ((a &&& 0xFC) >>> 2), encodeChar (((a &&& 0x03) <<< 4) ||| ((b &&& 0xF0) >>> 4)),
      encodeChar ((b &&& 0x0F) <<< 2), 61]
  | [a] => [encodeChar ((a &&& 0xFC) >>> 2), encodeChar ((a &&& 0x03) <<< 4), 61, 61]
  | [] => []

/-- What a client authenticates with. -/
structure Credentials where
  authzid : Bytes
  authcid : Bytes
  passwd : Bytes
  free : 0 ∉ authzid ∧ 0 ∉ authcid ∧ 0 ∉ passwd
  named : authcid ≠ []

def Credentials.message (c : Credentials) : Bytes :=
  c.authzid ++ 0 :: (c.authcid ++ 0 :: c.passwd)

/-- The line with an initial response. -/
def authLine (x : Bytes) : Bytes := ascii "AUTH PLAIN " ++ (x ++ [cr, lf])

/-! ### What is asked of the server -/

/-- The calls of the auth handler. -/
def authCalls (log : List Event) : List (Bytes × Bytes) :=
  log.filterMap fun
    | .auth username password => some (username, password)
    | _ => none

/-- The index of a `char`, which has a sign. -/
def tableIndex (c : UInt8) : Int := if c < 128 then c.toNat else (c.toNat : Int) - 256

/-- The characters `NewBase64Decode` looks up, in order. -/
def base64Lookups (stray : UInt8 → UInt8) : Nat → Bytes → Bytes
  | 0, _ => []
  | _, [] => []
  | fuel + 1, input =>
    input.take (input.length - (base64Accumulate stray [] input).2.length) ++
      base64Lookups stray fuel (base64Accumulate stray [] input).2

/-- Credentials are handed over as they are, and the handler has the last word; what is none is
turned down. No access leaves the table or the buffer, and both strings end in the buffer. -/
structure PlainExact (env : Env) (s : Session) (handler : Bytes → Bytes → Bool) (x : Bytes) :
    Prop where
  granted : ∀ c : Credentials, x = newBase64Encode c.message →
    authCalls (handleLine env s (authLine x)).events = [(c.authcid, c.passwd)] ∧
      repliesOf (handleLine env s (authLine x)).events =
        [if handler c.authcid c.passwd then .authenticated else .authFailed]
  refused : (∀ c : Credentials, x ≠ newBase64Encode c.message) →
    authCalls (handleLine env s (authLine x)).events = [] ∧
      repliesOf (handleLine env s (authLine x)).events = [.authFailed]
  looked : ∀ c ∈ base64Lookups env.stray x.length x, 0 ≤ tableIndex c ∧ tableIndex c < 256
  written : ∀ write ∈ (newBase64Decode env.stray x).1, write.1.toNat < 150
  ended : ∀ username password, authPlain env.stray (authLine x) = some (username, password) →
    0 ∈ (decodeBuf (newBase64Decode env.stray x).1).drop 1 ∧
      0 ∈ (decodeBuf (newBase64Decode env.stray x).1).drop (1 + username.length + 1)

/-- The characters of the alphabet in a text. -/
def coded (x : Bytes) : Bytes := x.filter fun c => (base64DecodeLookup c).isSome

/-- Texts the decoder has less than three bytes for: up to three characters of the alphabet, or four
with something behind them; but at least one, if there is anything. -/
def Short (x : Bytes) : Prop :=
  x = [] ∨ (0 < (coded x).length ∧ (coded x).length < 4) ∨
    (coded x).length = 4 ∧ ∃ c ∈ x.getLast?, base64DecodeLookup c = none

/-- What the strings in the buffer are. -/
def Credentials.received (c : Credentials) : Bytes × Bytes :=
  match c.authzid with
  | [] => (c.authcid, c.passwd)
  | _ :: identity => (identity, c.authcid)

/-! ### The alphabet -/

theorem lookup_encode (v : UInt8) (small : v < 64) : base64DecodeLookup (encodeChar v) = some v := by
  revert v
  apply every_byte
  decide +kernel

private theorem encode_low (v : UInt8) (small : v < 64) : encodeChar v < 128 := by
  revert v
  apply every_byte
  decide +kernel

def standard : Alphabet where
  digit := encodeChar
  value := base64DecodeLookup
  pad := 61
  value_digit := lookup_encode
  value_pad := rfl

private theorem newBase64Encode_text (m : Bytes) : newBase64Encode m = standard.text m := by
  fun_induction newBase64Encode m with
  | case1 a b c rest ih =>
    rw [ih, Alphabet.text, Alphabet.text, sextets]
    have same : (3 - (a :: b :: c :: rest).length % 3) % 3 = (3 - rest.length % 3) % 3 := by
      simp only [List.length_cons]
      omega
    rw [same]
    rfl
  | case2 a b => rfl
  | case3 a => rfl
  | case4 => rfl

/-! ### The decoder -/

section Decoder

variable (stray : UInt8 → UInt8)

/-- What a character of the input is decoded to. -/
def charValue (c : UInt8) : Option UInt8 :=
  if c < 128 then base64DecodeLookup c else if stray c == 65 then none else some (stray c)

def values (input : Bytes) : List UInt8 := input.filterMap (charValue stray)

private theorem values_append (front back : Bytes) :
    values stray (front ++ back) = values stray front ++ values stray back :=
  List.filterMap_append

/-- The last group is full, and something follows it. -/
def Spent (input : Bytes) : Prop :=
  (values stray input).length % 4 = 0 ∧ ∃ c ∈ input.getLast?, charValue stray c = none

instance (input : Bytes) : Decidable (Spent stray input) :=
  inferInstanceAs (Decidable (_ ∧ _))

private theorem accumulate_skipped (accumulated : List UInt8) {c : UInt8} (input : Bytes)
    (skipped : charValue stray c = none) :
    base64Accumulate stray accumulated (c :: input) = base64Accumulate stray accumulated input := by
  rw [charValue] at skipped
  simp only [base64Accumulate, skipped]

private theorem accumulate_value (accumulated : List UInt8) {c value : UInt8} (input : Bytes)
    (here : charValue stray c = some value) :
    base64Accumulate stray accumulated (c :: input) =
      if accumulated.length + 1 = 4 then (accumulated ++ [value], input)
      else base64Accumulate stray (accumulated ++ [value]) input := by
  rw [charValue] at here
  simp only [base64Accumulate, here]

/-- A group is taken off the input, up to the character that fills it or to the end. -/
private theorem accumulate_takes (accumulated : List UInt8) (input : Bytes)
    (room : accumulated.length < 4) :
    ∃ taken rest, input = taken ++ rest ∧
      base64Accumulate stray accumulated input = (accumulated ++ values stray taken, rest) ∧
      ((accumulated.length + (values stray taken).length < 4 ∧ rest = []) ∨
        accumulated.length + (values stray taken).length = 4 ∧
          ∃ c ∈ taken.getLast?, charValue stray c ≠ none) := by
  induction input generalizing accumulated with
  | nil => exact ⟨[], [], rfl, by simp [base64Accumulate, values], Or.inl ⟨room, rfl⟩⟩
  | cons c input ih =>
    cases here : charValue stray c with
    | none =>
      -- the character is skipped
      obtain ⟨taken, rest, joined, found, ends⟩ := ih accumulated room
      have same : values stray (c :: taken) = values stray taken :=
        List.filterMap_cons_none here
      refine ⟨c :: taken, rest, by rw [joined]; rfl, ?_, ?_⟩
      · rw [accumulate_skipped stray accumulated input here, same]
        exact found
      · rw [same]
        rcases ends with short | ⟨full, last, ended, present⟩
        · exact Or.inl short
        · refine Or.inr ⟨full, last, ?_, present⟩
          rw [List.getLast?_cons, ended]
          rfl
    | some value =>
      by_cases full : accumulated.length + 1 = 4
      · have same : values stray [c] = [value] := by simp [values, here]
        refine ⟨[c], input, rfl, ?_, Or.inr ⟨?_, c, rfl, by simp [here]⟩⟩
        · rw [accumulate_value stray accumulated input here, same]
          exact if_pos full
        · rw [same]
          exact full
      · obtain ⟨taken, rest, joined, found, ends⟩ := ih (accumulated ++ [value])
          (by rw [List.length_append, List.length_singleton]; omega)
        have same : values stray (c :: taken) = value :: values stray taken :=
          List.filterMap_cons_some here
        rw [List.append_assoc, List.singleton_append, ← same] at found
        rw [List.length_append, List.length_singleton] at ends
        refine ⟨c :: taken, rest, by rw [joined]; rfl, ?_, ?_⟩
        · rw [accumulate_value stray accumulated input here]
          exact (if_neg full).trans found
        · rw [same, List.length_cons]
          rcases ends with ⟨short, missing⟩ | ⟨full', last, ended, present⟩
          · exact Or.inl ⟨by omega, missing⟩
          · refine Or.inr ⟨by omega, last, ?_, present⟩
            rw [List.getLast?_cons, ended]
            rfl

/-- Every character is looked up once. -/
private theorem base64Lookups_all (fuel : Nat) (input : Bytes) (enough : input.length ≤ fuel) :
    base64Lookups stray fuel input = input := by
  induction fuel generalizing input with
  | zero => exact (List.eq_nil_of_length_eq_zero (by omega)).symm
  | succ fuel ih =>
    cases input with
    | nil => rfl
    | cons c input =>
      obtain ⟨taken, rest, joined, found, ends⟩ :=
        accumulate_takes stray [] (c :: input) (by decide)
      have filled : taken ≠ [] := by
        rintro rfl
        rcases ends with ⟨-, rfl⟩ | ⟨missing, -⟩
        · cases joined
        · cases missing
      have present := List.length_pos_iff.mpr filled
      have sizes := congrArg List.length joined
      rw [List.length_append] at sizes
      simp only [base64Lookups, found]
      rw [ih rest (by omega), sizes, Nat.add_sub_cancel, joined, List.take_left]

private theorem base64Group_bytes (group : List UInt8) (small : group.length ≤ 4) :
    base64Group group = bytes group := by
  rcases group with _ | ⟨a, _ | ⟨b, _ | ⟨c, _ | ⟨d, _ | ⟨e, rest⟩⟩⟩⟩⟩
  · rfl
  · rfl
  · rfl
  · rfl
  · rfl
  · simp only [List.length_cons] at small
    omega

/-- A full group, and what follows it. -/
private theorem bytes_append (group rest : List UInt8) (full : group.length = 4) :
    bytes (group ++ rest) = bytes group ++ bytes rest ∧ (bytes group).length = 3 := by
  rcases group with _ | ⟨a, _ | ⟨b, _ | ⟨c, _ | ⟨d, _ | ⟨e, others⟩⟩⟩⟩⟩
  · cases full
  · cases full
  · cases full
  · cases full
  · exact ⟨rfl, rfl⟩
  · simp only [List.length_cons] at full
    omega

/-- Bytes written one behind the other. -/
def written : Bytes → UInt64 → List (UInt64 × UInt8)
  | [], _ => []
  | byte :: bytes, j => (j, byte) :: written bytes (j + 1)

private theorem written_append (front back : Bytes) (j : UInt64) :
    written (front ++ back) j = written front j ++ written back (j + UInt64.ofNat front.length) := by
  induction front generalizing j with
  | nil =>
    have missing : j + UInt64.ofNat 0 = j := UInt64.add_zero j
    rw [List.length_nil, missing]
    rfl
  | cons byte front ih =>
    have moved : j + 1 + UInt64.ofNat front.length = j + UInt64.ofNat (front.length + 1) := by
      rw [UInt64.ofNat_add, UInt64.add_assoc, UInt64.add_comm 1]
      rfl
    rw [List.cons_append, written, ih, moved]
    rfl

private theorem written_group (group : Bytes) (j : UInt64) (small : group.length ≤ 3) :
    group.zipIdx.map (fun (byte, k) => (j + UInt64.ofNat k, byte)) = written group j := by
  have zero : j + UInt64.ofNat 0 = j := UInt64.add_zero j
  have two : j + UInt64.ofNat 2 = j + 1 + 1 := (UInt64.add_assoc j 1 1).symm
  rcases group with _ | ⟨a, _ | ⟨b, _ | ⟨c, _ | ⟨d, rest⟩⟩⟩⟩
  · rfl
  · simp [written]
  · simp [written]
  · simp only [List.zipIdx_cons, List.zipIdx_nil, List.map_cons, List.map_nil, zero, written,
      Nat.zero_add, Nat.reduceAdd, two]
    rfl
  · simp only [List.length_cons] at small
    omega

private theorem spent_nil : ¬Spent stray [] := by
  rintro ⟨-, c, member, -⟩
  cases member

/-- What follows a full group decides. -/
private theorem spent_append (taken rest : Bytes) (full : (values stray taken).length = 4)
    (ended : ∃ c ∈ taken.getLast?, charValue stray c ≠ none) :
    Spent stray (taken ++ rest) ↔ Spent stray rest := by
  have sizes : (values stray (taken ++ rest)).length % 4 = (values stray rest).length % 4 := by
    rw [values_append, List.length_append, full]
    omega
  cases rest with
  | nil =>
    obtain ⟨c, last, present⟩ := ended
    refine iff_of_false ?_ (spent_nil stray)
    rintro ⟨-, c', last', missing⟩
    rw [List.append_nil] at last'
    obtain rfl := Option.mem_unique last last'
    exact present missing
  | cons c rest =>
    rw [Spent, Spent, sizes, List.getLast?_append_of_ne_nil _ (List.cons_ne_nil c rest)]

/-- A last group that is not full. -/
private theorem spent_short (input : Bytes) (filled : input ≠ [])
    (short : (values stray input).length < 4) :
    Spent stray input ↔ (values stray input).length = 0 := by
  constructor
  · rintro ⟨whole, -⟩
    omega
  · intro empty
    refine ⟨by rw [empty], input.getLast filled, List.getLast?_eq_some_getLast filled, ?_⟩
    have missing := List.filterMap_eq_nil_iff.mp (List.eq_nil_of_length_eq_zero empty)
    exact missing _ (List.getLast_mem filled)

theorem base64Loop_nil (fuel : Nat) (j : UInt64) : base64Loop stray fuel [] j = ([], j) := by
  cases fuel <;> rfl

/-- A last group moves `j` on by its bytes, and back if it has no character at all. -/
private theorem last_group (n : Nat) (short : n < 4) (j : UInt64) :
    j + (UInt64.ofNat n - 1) =
      j + UInt64.ofNat (n / 4 * 3 + (n % 4 - 1)) - if n = 0 then 1 else 0 := by
  have moved : UInt64.ofNat n - 1 =
      UInt64.ofNat (n / 4 * 3 + (n % 4 - 1)) - if n = 0 then 1 else 0 := by
    have all : ∀ n < 4, UInt64.ofNat n - 1 =
        UInt64.ofNat (n / 4 * 3 + (n % 4 - 1)) - if n = 0 then 1 else 0 := by decide
    exact all n short
  rw [moved, UInt64.sub_eq_add_neg, ← UInt64.add_assoc, ← UInt64.sub_eq_add_neg]

/-- One turn of the outer loop. -/
theorem base64Loop_step (fuel : Nat) {input taken rest : Bytes} (j : UInt64) (filled : input ≠ [])
    (found : base64Accumulate stray [] input = (values stray taken, rest))
    (most : (values stray taken).length ≤ 4) :
    base64Loop stray (fuel + 1) input j =
      (written (bytes (values stray taken)) j ++
        (base64Loop stray fuel rest (j + (UInt64.ofNat (values stray taken).length - 1))).1,
        (base64Loop stray fuel rest
          (j + (UInt64.ofNat (values stray taken).length - 1))).2) := by
  have three : (bytes (values stray taken)).length ≤ 3 := by
    rw [bytes_length]
    omega
  obtain ⟨c, others, rfl⟩ := List.exists_cons_of_ne_nil filled
  simp only [base64Loop, found]
  rw [base64Group_bytes _ most, written_group _ _ three]

/-- The decoder writes the bytes of the values, and gives their number, or one less. -/
private theorem base64Loop_values (fuel : Nat) (input : Bytes) (j : UInt64)
    (enough : input.length ≤ fuel) :
    base64Loop stray fuel input j =
      (written (bytes (values stray input)) j,
        j + UInt64.ofNat (bytes (values stray input)).length -
          if Spent stray input then 1 else 0) := by
  induction fuel generalizing input j with
  | zero =>
    obtain rfl := List.eq_nil_of_length_eq_zero (Nat.le_zero.mp enough)
    rw [base64Loop_nil, if_neg (spent_nil stray)]
    simp [values, bytes, written]
  | succ fuel ih =>
    by_cases empty : input = []
    · subst empty
      rw [base64Loop_nil, if_neg (spent_nil stray)]
      simp [values, bytes, written]
    obtain ⟨taken, rest, joined, found, ends⟩ := accumulate_takes stray [] input (by decide)
    rw [List.nil_append] at found
    rw [List.length_nil, Nat.zero_add] at ends
    rw [base64Loop_step stray fuel j empty found (by omega)]
    rcases ends with ⟨short, rfl⟩ | ⟨full, ended⟩
    · -- the input is at its end
      rw [List.append_nil] at joined
      subst joined
      rw [base64Loop_nil, List.append_nil, bytes_length, last_group _ short]
      simp only [spent_short stray input empty short]
    · have filled : taken ≠ [] := by
        rintro rfl
        cases full
      have present := List.length_pos_iff.mpr filled
      have split_ : values stray input = values stray taken ++ values stray rest := by
        rw [joined, values_append]
      obtain ⟨front, three⟩ := bytes_append _ (values stray rest) full
      have moved : j + (UInt64.ofNat 4 - 1) = j + UInt64.ofNat 3 := rfl
      have spent : Spent stray input ↔ Spent stray rest := by
        rw [joined]
        exact spent_append stray taken rest full ended
      rw [joined, List.length_append] at enough
      rw [ih rest _ (by omega), split_, front, written_append, List.length_append, three, full,
        moved, UInt64.ofNat_add, ← UInt64.add_assoc]
      simp only [spent]

end Decoder

/-! ### The buffer -/

private theorem set_front (front rest : Bytes) (old byte : UInt8) :
    (front ++ old :: rest).set front.length byte = front ++ byte :: rest := by
  induction front with
  | nil => rfl
  | cons b front ih => exact congrArg (b :: ·) ih

/-- Bytes written one behind the other fill the buffer from the front. -/
private theorem decodeBuf_written (out : Bytes) (small : out.length ≤ 150) :
    decodeBuf (written out 0) = out ++ List.replicate (150 - out.length) 0 := by
  have fills : ∀ (front back : Bytes) (room : Nat), front.length + back.length + room = 150 →
      (written back (UInt64.ofNat front.length)).foldl
          (fun buf write => buf.set write.1.toNat write.2)
          (front ++ List.replicate (back.length + room) 0) =
        front ++ back ++ List.replicate room 0 := by
    intro front back
    induction back generalizing front with
    | nil =>
      intro room size
      simp [written]
    | cons byte back ih =>
      intro room size
      rw [List.length_cons] at size ⊢
      have place : (UInt64.ofNat front.length).toNat = front.length := by
        rw [UInt64.toNat_ofNat']
        omega
      have next : UInt64.ofNat front.length + 1 = UInt64.ofNat (front ++ [byte]).length := by
        rw [List.length_append, UInt64.ofNat_add]
        rfl
      have zeros : List.replicate (back.length + 1 + room) (0 : UInt8) =
          0 :: List.replicate (back.length + room) 0 := by
        rw [← List.replicate_succ]
        congr 1
        omega
      have later := ih (front ++ [byte]) room (by
        rw [List.length_append, List.length_singleton]
        omega)
      rw [written, List.foldl_cons, place, zeros, set_front, next]
      rw [List.append_assoc, List.singleton_append] at later
      rw [later]
      simp
  have filled := fills [] out (150 - out.length) (by rw [List.length_nil]; omega)
  rw [List.nil_append, List.nil_append] at filled
  have whole : out.length + (150 - out.length) = 150 := by omega
  rw [whole] at filled
  exact filled

theorem written_index (out : Bytes) (j : UInt64) (k : Nat) (small : j.toNat + out.length ≤ k)
    (bound : k < 2 ^ 64) : ∀ write ∈ written out j, write.1.toNat < k := by
  induction out generalizing j with
  | nil => exact List.forall_mem_nil _
  | cons byte out ih =>
    rw [List.length_cons] at small
    have next : (j + 1).toNat = j.toNat + 1 := by
      rw [UInt64.toNat_add]
      have one : (1 : UInt64).toNat = 1 := rfl
      omega
    exact List.forall_mem_cons.mpr ⟨by simp only; omega, ih (j + 1) (by omega)⟩

/-! ### One line -/

section Line

variable (stray : UInt8 → UInt8) (x : Bytes)

/-- The bytes the input is decoded to. -/
def decodedBytes : Bytes := bytes (values stray x)

private theorem newBase64Decode_values : newBase64Decode stray x =
    (written (decodedBytes stray x) 0,
      UInt64.ofNat (decodedBytes stray x).length - if Spent stray x then 1 else 0) := by
  rw [newBase64Decode, base64Loop_values stray _ x 0 (Nat.le_refl _), UInt64.zero_add]
  rfl

private theorem decodedBytes_length : (decodedBytes stray x).length ≤ x.length / 4 * 3 + 2 := by
  have most : (values stray x).length ≤ x.length := List.length_filterMap_le _ _
  rw [decodedBytes, bytes_length]
  omega

private theorem authLine_length : (authLine x).length = x.length + 13 := by
  rw [authLine, List.length_append, List.length_append]
  have keyword : (ascii "AUTH PLAIN ").length = 11 := by decide
  simp only [keyword, List.length_cons, List.length_nil]
  omega

/-- The buffer behind the decoder. -/
def decodedBuf : Bytes := decodeBuf (newBase64Decode stray x).1

private theorem decodedBuf_eq (short : x.length < 137) :
    decodedBuf stray x =
      decodedBytes stray x ++ List.replicate (150 - (decodedBytes stray x).length) 0 := by
  have most := decodedBytes_length stray x
  rw [decodedBuf, newBase64Decode_values]
  exact decodeBuf_written _ (by omega)

private theorem drop_zeros (front : Bytes) (n k : Nat) :
    (front ++ List.replicate n 0).drop k =
      front.drop k ++ List.replicate (n - (k - front.length)) 0 := by
  rw [List.drop_append, List.drop_replicate]

private theorem cString_zeros (front : Bytes) (n : Nat) :
    (cString (front ++ List.replicate n 0)).length ≤ front.length := by
  by_cases ends : 0 ∈ front
  · rw [cString_append_of_mem front _ ends]
    exact (List.takeWhile_prefix _).length_le
  · have missing : cString (List.replicate n 0) = [] := by cases n <;> rfl
    rw [cString_append front _ ends, missing, List.append_nil]

/-- Both strings end in the buffer. -/
private theorem decodedBuf_ends (short : x.length < 137) :
    0 ∈ (decodedBuf stray x).drop 1 ∧
      0 ∈ (decodedBuf stray x).drop
        (1 + (cString ((decodedBuf stray x).drop 1)).length + 1) := by
  have most := decodedBytes_length stray x
  have zero : ∀ k < 150, 0 ∈ (decodedBuf stray x).drop k := by
    intro k inside
    rw [decodedBuf_eq stray x short, drop_zeros]
    exact List.mem_append_right _ (List.mem_replicate.mpr ⟨by omega, rfl⟩)
  have size : (cString ((decodedBuf stray x).drop 1)).length ≤ (decodedBytes stray x).length := by
    rw [decodedBuf_eq stray x short, drop_zeros]
    apply (cString_zeros _ _).trans
    rw [List.length_drop]
    omega
  exact ⟨zero 1 (by decide), zero _ (by omega)⟩

private theorem authPlain_line (short : x.length < 137) :
    authPlain stray (authLine x) =
      if x ≠ [] ∧ 3 ≤ (newBase64Decode stray x).2 then
        some (cString ((decodedBuf stray x).drop 1),
          cString ((decodedBuf stray x).drop
            (1 + (cString ((decodedBuf stray x).drop 1)).length + 1)))
      else none := by
  have size := authLine_length x
  have keyword : startsWith (authLine x) (ascii "AUTH PLAIN ") = true := by
    rw [startsWith, authLine, List.take_left, beq_self_eq_true]
  have input : ((authLine x).drop 11).take ((authLine x).length - 13) = x := by
    have behind : (authLine x).drop 11 = x ++ [cr, lf] := rfl
    rw [behind, size, Nat.add_sub_cancel, List.take_left]
  have fits : (authLine x).length < 150 := by omega
  have filled : 13 < (authLine x).length ↔ x ≠ [] := by
    rw [size, ← List.length_pos_iff]
    omega
  rw [authPlain, keyword, input, decide_eq_true fits, Bool.true_and, Bool.and_true]
  by_cases empty : x = []
  · rw [if_neg (by rw [decide_eq_true_eq, filled]; exact not_not_intro empty),
      if_neg fun both => both.1 empty]
  · rw [if_pos (decide_eq_true (filled.mpr empty))]
    simp only [ne_eq, empty, not_false_eq_true, true_and]
    rfl

/-- The table is read inside exactly if no character has its high bit set. -/
private theorem lookups_inside_iff :
    (∀ c ∈ base64Lookups stray x.length x, 0 ≤ tableIndex c ∧ tableIndex c < 256) ↔
      ∀ b ∈ x, b < 0x80 := by
  rw [base64Lookups_all stray _ _ (Nat.le_refl _)]
  refine forall₂_congr fun b _ => ?_
  have byte := b.toNat_lt
  unfold tableIndex
  split
  next low => exact iff_of_true (by omega) low
  next high => exact iff_of_false (by omega) high

private theorem writes_inside (short : x.length < 137) :
    ∀ write ∈ (newBase64Decode stray x).1, write.1.toNat < 150 := by
  have most := decodedBytes_length stray x
  have zero : (0 : UInt64).toNat = 0 := rfl
  rw [newBase64Decode_values]
  exact written_index _ _ _ (by omega) (by decide)

/-- The two strings that are passed on end in the buffer. -/
private theorem authPlain_ends (short : x.length < 137) {username password : Bytes}
    (decoded : authPlain stray (authLine x) = some (username, password)) :
    0 ∈ (decodedBuf stray x).drop 1 ∧ 0 ∈ (decodedBuf stray x).drop (1 + username.length + 1) := by
  rw [authPlain_line stray x short] at decoded
  split at decoded
  · obtain ⟨rfl, -⟩ := Prod.mk.inj (Option.some.inj decoded)
    exact decodedBuf_ends stray x short
  · cases decoded

section Low

variable (low : ∀ b ∈ x, b < 0x80)

include low

private theorem values_low : values stray x = x.filterMap base64DecodeLookup := by
  rw [values]
  apply List.filterMap_congr
  intro c member
  exact if_pos (low c member)

private theorem coded_length : (coded x).length = (values stray x).length := by
  rw [values_low stray x low, coded, List.length_filterMap_eq_countP, List.countP_eq_length_filter]

/-- What is too short is turned down, and nothing else. -/
private theorem accepted_iff (short : x.length < 137) :
    (x ≠ [] ∧ 3 ≤ (newBase64Decode stray x).2) ↔ ¬Short x := by
  have most := decodedBytes_length stray x
  have count := coded_length stray x low
  have spent : Spent stray x ↔ (coded x).length % 4 = 0 ∧
      ∃ c ∈ x.getLast?, base64DecodeLookup c = none := by
    rw [Spent, count]
    refine and_congr_right fun _ => exists_congr fun c => and_congr_right fun last => ?_
    rw [charValue, if_pos (low c (List.mem_of_getLast? last))]
  by_cases empty : x = []
  · exact iff_of_false (fun both => both.1 empty) (not_not_intro (Or.inl empty))
  have missing : (coded x).length = 0 → Spent stray x := by
    intro zero
    rw [count] at zero
    exact (spent_short stray x empty (by omega)).mpr zero
  have size : (decodedBytes stray x).length =
      (coded x).length / 4 * 3 + ((coded x).length % 4 - 1) := by
    rw [decodedBytes, bytes_length, count]
  have place : (UInt64.ofNat (decodedBytes stray x).length).toNat =
      (decodedBytes stray x).length := by
    rw [UInt64.toNat_ofNat']
    omega
  have three : (3 : UInt64).toNat = 3 := rfl
  have one : (1 : UInt64).toNat = 1 := rfl
  rw [newBase64Decode_values, and_iff_right empty, UInt64.le_iff_toNat_le, Short, three]
  by_cases behind : Spent stray x
  · obtain ⟨whole, last⟩ := spent.mp behind
    rw [if_pos behind, UInt64.toNat_sub, place, one, and_iff_left last]
    simp only [empty, false_or]
    omega
  · have last : ¬((coded x).length = 4 ∧ ∃ c ∈ x.getLast?, base64DecodeLookup c = none) := by
      rintro ⟨four, last⟩
      exact behind (spent.mpr ⟨by omega, last⟩)
    have present : (coded x).length ≠ 0 := fun zero => behind (missing zero)
    rw [if_neg behind, UInt64.sub_zero, place]
    simp only [empty, last, false_or, or_false]
    omega

private theorem authPlain_none_iff (short : x.length < 137) :
    authPlain stray (authLine x) = none ↔ Short x := by
  have accepted := accepted_iff stray x low short
  rw [authPlain_line stray x short]
  split
  next taken => exact iff_of_false nofun (accepted.mp taken)
  next turned => exact iff_of_true rfl (not_not.mp fun long => turned (accepted.mpr long))

end Low

end Line

/-! ### Encoded credentials -/

private theorem encoded_low (m : Bytes) : ∀ b ∈ newBase64Encode m, b < 0x80 := by
  intro b member
  rw [newBase64Encode_text, Alphabet.text] at member
  rcases List.mem_append.mp member with digit | padding
  · obtain ⟨v, member', rfl⟩ := List.mem_map.mp digit
    exact encode_low v (sextets_small m v member')
  · rw [List.eq_of_mem_replicate padding]
    decide

private theorem encoded_decoded (stray : UInt8 → UInt8) (m : Bytes) :
    decodedBytes stray (newBase64Encode m) = m := by
  rw [decodedBytes, values_low stray _ (encoded_low m), newBase64Encode_text]
  exact (congrArg bytes (standard.text_values m)).trans (bytes_sextets m)

/-- Three bytes are four characters, and nothing is behind them. -/
private theorem encoded_long (m : Bytes) (three : 3 ≤ m.length) : ¬Short (newBase64Encode m) := by
  have count : (coded (newBase64Encode m)).length = m.length + (m.length + 2) / 3 := by
    rw [coded_length (fun _ => 65) _ (encoded_low m), values_low _ _ (encoded_low m),
      newBase64Encode_text, ← sextets_length]
    exact congrArg List.length (standard.text_values m)
  rintro (empty | ⟨-, small⟩ | ⟨four, c, last, missing⟩)
  · rw [empty] at count
    simp only [coded, List.filter_nil, List.length_nil] at count
    omega
  · omega
  · have whole := standard.text_last m (by rw [sextets_length]; omega)
    rw [newBase64Encode_text, whole, List.getLast?_map] at last
    obtain ⟨v, final, rfl⟩ := Option.map_eq_some_iff.mp last
    have present := lookup_encode v (sextets_small m v (List.mem_of_getLast? final))
    rw [show standard.digit v = encodeChar v from rfl, present] at missing
    cases missing

theorem cString_nul (text rest : Bytes) (free : 0 ∉ text) : cString (text ++ 0 :: rest) = text := by
  rw [cString_append text _ free]
  exact List.append_nil text

/-- The strings in the buffer: the first byte is dropped whatever it is. -/
theorem Credentials.strings (c : Credentials) (zeros : Bytes) :
    cString ((c.message ++ 0 :: zeros).drop 1) = c.received.1 ∧
      cString ((c.message ++ 0 :: zeros).drop (1 + c.received.1.length + 1)) =
        c.received.2 := by
  obtain ⟨authzid, authcid, passwd, ⟨free, free', free''⟩, named⟩ := c
  cases authzid with
  | nil =>
    have whole : (0 :: (authcid ++ 0 :: passwd)) ++ 0 :: zeros =
        0 :: (authcid ++ 0 :: (passwd ++ 0 :: zeros)) := by simp
    have behind : (0 :: (authcid ++ 0 :: (passwd ++ 0 :: zeros))).drop (1 + authcid.length + 1) =
        passwd ++ 0 :: zeros := by
      have sum : 1 + authcid.length + 1 = authcid.length + 1 + 1 := by omega
      rw [sum, List.drop_succ_cons, ← List.drop_drop, List.drop_left]
      rfl
    simp only [Credentials.message, Credentials.received, List.nil_append, whole, behind]
    exact ⟨cString_nul authcid _ free', cString_nul passwd zeros free''⟩
  | cons b identity =>
    have free_ : 0 ∉ identity := fun member => free (List.mem_cons_of_mem b member)
    have whole : (b :: identity ++ 0 :: (authcid ++ 0 :: passwd)) ++ 0 :: zeros =
        b :: (identity ++ 0 :: (authcid ++ 0 :: (passwd ++ 0 :: zeros))) := by simp
    have behind : (b :: (identity ++ 0 :: (authcid ++ 0 :: (passwd ++ 0 :: zeros)))).drop
        (1 + identity.length + 1) = authcid ++ 0 :: (passwd ++ 0 :: zeros) := by
      have sum : 1 + identity.length + 1 = identity.length + 1 + 1 := by omega
      rw [sum, List.drop_succ_cons, ← List.drop_drop, List.drop_left]
      rfl
    simp only [Credentials.message, Credentials.received, whole, behind]
    exact ⟨cString_nul identity _ free_, cString_nul authcid _ free'⟩

private theorem Credentials.received_iff (c : Credentials) :
    c.received = (c.authcid, c.passwd) ↔
      c.authzid = [] ∨ c.authzid.drop 1 = c.authcid ∧ c.authcid = c.passwd := by
  obtain ⟨authzid, authcid, passwd, free, named⟩ := c
  cases authzid with
  | nil => exact iff_of_true rfl (Or.inl rfl)
  | cons b identity => simp [Credentials.received]

/-- What the handler is called with for credentials. -/
private theorem authPlain_credentials (stray : UInt8 → UInt8) (c : Credentials)
    (short : (newBase64Encode c.message).length < 137) :
    authPlain stray (authLine (newBase64Encode c.message)) = some c.received := by
  have three : 3 ≤ c.message.length := by
    have filled := List.length_pos_iff.mpr c.named
    rw [Credentials.message, List.length_append, List.length_cons, List.length_append,
      List.length_cons]
    omega
  have accepted := (accepted_iff stray _ (encoded_low c.message) short).mpr
    (encoded_long c.message three)
  have most := decodedBytes_length stray (newBase64Encode c.message)
  have buffer := decodedBuf_eq stray _ short
  rw [encoded_decoded] at most buffer
  obtain ⟨room, left⟩ : ∃ room, 150 - c.message.length = room + 1 :=
    ⟨149 - c.message.length, by omega⟩
  rw [left, List.replicate_succ] at buffer
  obtain ⟨username, password⟩ := c.strings (List.replicate room 0)
  rw [authPlain_line stray _ short, if_pos accepted, buffer, username, password]

/-! ### The answer -/

section Answer

variable (env : Env) (s : Session) (handler : Bytes → Bytes → Bool)
  (secure : s.isSecure = true) (authenticates : s.authHandler = some handler)
  (queue : s.handlerQueue = true)

include secure authenticates queue

private theorem handleAuth_answer (line : Bytes) :
    authCalls (handleAuth env s line).2 = (authPlain env.stray line).toList ∧
      repliesOf (handleAuth env s line).2 =
        [match authPlain env.stray line with
          | none => .authFailed
          | some (username, password) =>
            if handler username password then .authenticated else .authFailed] := by
  rw [handleAuth, if_pos secure]
  cases authPlain env.stray line with
  | none =>
    obtain ⟨completion, sent, reply⟩ := socketHandleWrite_spec s .authFailed none
    dsimp only
    rw [reply]
    exact ⟨rfl, rfl⟩
  | some pair =>
    obtain ⟨username, password⟩ := pair
    obtain ⟨completion, sent, reply⟩ := socketHandleWrite_spec s
      (if handler username password then .authenticated else .authFailed) none
    dsimp only
    rw [authenticates, queue]
    dsimp only
    rw [reply]
    exact ⟨rfl, rfl⟩

/-- The handler is called with what is decoded, if anything is. -/
private theorem handleLine_auth (x : Bytes) (command : s.state ≠ .data) :
    authCalls (handleLine env s (authLine x)).events =
        (authPlain env.stray (authLine x)).toList ∧
      repliesOf (handleLine env s (authLine x)).events =
        [match authPlain env.stray (authLine x) with
          | none => .authFailed
          | some (username, password) =>
            if handler username password then .authenticated else .authFailed] := by
  have word : lineCommand (authLine x) = some .auth := rfl
  have events : (handleLine env s (authLine x)).events =
      .line (authLine x) :: (smtpCallback s .auth (argument (authLine x)) ++
        (handleAuth env { s with state := .auth } (authLine x)).2) := by
    simp only [handleLine, command, if_false, handleCommandLine, word, respond]
  -- neither the line nor the smtp handler counts
  have noted : ∀ log, authCalls (.line (authLine x) ::
        (smtpCallback s .auth (argument (authLine x)) ++ log)) = authCalls log ∧
      repliesOf (.line (authLine x) ::
        (smtpCallback s .auth (argument (authLine x)) ++ log)) = repliesOf log := by
    intro log
    unfold smtpCallback
    split
    · exact ⟨rfl, rfl⟩
    · exact ⟨rfl, rfl⟩
  rw [events, (noted _).1, (noted _).2]
  exact handleAuth_answer env { s with state := .auth } handler secure authenticates queue _

/-- AUTH PLAIN is decoded exactly if no byte has its high bit set, an authorization identity is
empty or reads like the rest behind its first byte, and what is no credentials is too short. -/
theorem plainExact_iff (x : Bytes) (command : s.state ≠ .data)
    (short : (authLine x).length < 150) :
    PlainExact env s handler x ↔
      (∀ b ∈ x, b < 0x80) ∧
        (∀ c : Credentials, x = newBase64Encode c.message →
          c.authzid = [] ∨ c.authzid.drop 1 = c.authcid ∧ c.authcid = c.passwd) ∧
        ((∀ c : Credentials, x ≠ newBase64Encode c.message) → Short x) := by
  rw [authLine_length] at short
  have size : x.length < 137 := by omega
  obtain ⟨calls, replies⟩ := handleLine_auth env s handler secure authenticates queue x command
  constructor
  · intro exact_
    have low := (lookups_inside_iff env.stray x).mp exact_.looked
    refine ⟨low, ?_, ?_⟩
    · rintro c rfl
      obtain ⟨called, -⟩ := exact_.granted c rfl
      rw [calls, authPlain_credentials env.stray c size] at called
      exact c.received_iff.mp (List.singleton_inj.mp called)
    · intro missing
      obtain ⟨called, -⟩ := exact_.refused missing
      rw [calls, Option.toList_eq_nil_iff] at called
      exact (authPlain_none_iff env.stray x low size).mp called
  · rintro ⟨low, identity, turned⟩
    refine ⟨?_, ?_, (lookups_inside_iff env.stray x).mpr low, writes_inside env.stray x size,
      fun _ _ => authPlain_ends env.stray x size⟩
    · rintro c rfl
      rw [calls, replies, authPlain_credentials env.stray c size,
        c.received_iff.mpr (identity c rfl)]
      exact ⟨rfl, rfl⟩
    · intro missing
      have refused := (authPlain_none_iff env.stray x low size).mpr (turned missing)
      rw [calls, replies, refused]
      exact ⟨rfl, rfl⟩

end Answer

/-- A handler that knows one user. -/
def knowsB (username _password : Bytes) : Bool := username == ascii "b"

/-- A session over TLS. -/
def secureSession : Session :=
  { (Socket.started 3 0 false ⟨false, 0, some knowsB, false, true⟩).toSession with isSecure := true }

/-- Without an authorization identity. -/
theorem plainExact_unnamed :
    PlainExact Env.granted secureSession knowsB (newBase64Encode (ascii "\x00b\x00c")) := by
  apply (plainExact_iff Env.granted secureSession knowsB rfl rfl rfl _ (by decide)
    (by decide)).mpr
  refine ⟨encoded_low _, ?_, ?_⟩
  · intro c same
    have decoded := congrArg (decodedBytes fun _ => 65) same
    rw [encoded_decoded, encoded_decoded, Credentials.message] at decoded
    cases authzid : c.authzid with
    | nil => exact Or.inl rfl
    | cons b identity =>
      rw [authzid] at decoded
      have zero : (0 : UInt8) = b := (List.cons.inj decoded).1
      exact absurd (authzid ▸ zero ▸ List.mem_cons_self ..) c.free.1
  · intro missing
    have free : 0 ∉ ([] : Bytes) ∧ 0 ∉ ascii "b" ∧ 0 ∉ ascii "c" := by decide
    exact absurd rfl (missing ⟨[], ascii "b", ascii "c", free, by decide⟩)

/-- With one, the user name is taken for the password; and padding alone is handed over as two
empty strings. -/
theorem authzid_shifts :
    ¬PlainExact Env.granted secureSession knowsB (newBase64Encode (ascii "a\x00b\x00c")) ∧
      authCalls (handleLine Env.granted secureSession
        (authLine (newBase64Encode (ascii "a\x00b\x00c")))).events = [([], ascii "b")] ∧
      authCalls (handleLine Env.granted secureSession (authLine (ascii "===="))).events =
        [([], [])] := by
  have called : authCalls (handleLine Env.granted secureSession
      (authLine (newBase64Encode (ascii "a\x00b\x00c")))).events = [([], ascii "b")] := by
    decide +kernel
  refine ⟨?_, called, by decide +kernel⟩
  intro exact_
  have free : 0 ∉ ascii "a" ∧ 0 ∉ ascii "b" ∧ 0 ∉ ascii "c" := by decide
  obtain ⟨called', -⟩ := exact_.granted ⟨ascii "a", ascii "b", ascii "c", free, by decide⟩ rfl
  rw [called] at called'
  have names : [([] : Bytes)] = [ascii "b"] := congrArg (List.map Prod.fst) called'
  exact absurd names (by decide)

end Spamass.Emailz
