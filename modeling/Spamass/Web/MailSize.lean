import Mathlib.Algebra.GroupWithZero.Nat
import Spamass.App.HeaderRun
import Spamass.Emailz.EndOfMail
import Spamass.Web.Encoding

/-!
# The size of a mail

Three counters go along with the data of a mail: libEmailz adds up the lengths of the
lines, the application keeps the bytes, and adds up the lengths of the strings it makes
of them. The last one counts characters, and is what the search page shows as bytes.
-/
namespace Spamass.Web

open Spamass.Emailz Spamass.App Spamass.Framing Spamass.Runs

/-- Lines that the data handler gets, all of them with `done` false, from the beginning of a data
segment on. -/
structure OnePhase (env : Env) (s : Session) (chunks : List Bytes) : Prop where
  mail : s.phase = .mail 0
  installed : s.dataHandler = true
  queue : s.handlerQueue = true
  delivered : (runAll (handleLine env) s chunks).2.filter Event.outward =
    chunks.map (Event.data · false)

/-- What `dataSize` grows by. -/
def units (data : Bytes) : Nat := ((stringWithUtf8 data).map utf16Length).getD 0

/-- After each chunk the three counters agree, and the size that is stored is that of the file, and
is read back as it was. -/
structure SizesAgree (lower : Bytes → Bytes) (env : Env) (s : Session) (socket : SMSocket)
    (email : SMEmail) (chunks : List Bytes) : Prop where
  counters : ∀ n, ∃ last, handleDatas lower { socket with email := some email } (chunks.take n) =
      some { socket with email := some last } ∧ last.dataSize = last.data.length ∧
    last.data.length = (runAll (handleLine env) s (chunks.take n)).1.emailSize
  stored : ∀ last, handleDatas lower { socket with email := some email } chunks =
      some { socket with email := some last } →
    ∀ name value path contents, last.dbprefix = some name →
      .put (name ++ ascii "size") value ∈ (handleEmail { socket with email := some last }).2 →
      .file path contents ∈ (handleEmail { socket with email := some last }).2 →
        value = decimal contents.length ∧
          ∀ found, (enterField found (ascii "size") value).dataSize = contents.length

/-! ### Delivered lines -/

/-- A line that was delivered with `done` false is mail within the limit. -/
theorem delivered_lines (env : Env) (s : Session) (chunks : List Bytes) (mail : s.state = .data)
    (installed : s.dataHandler = true) (queue : s.handlerQueue = true)
    (small : s.emailSize ≤ maxIndataSize)
    (delivered : (runAll (handleLine env) s chunks).2.filter Event.outward =
      chunks.map (Event.data · false)) :
    endOfMail ∉ chunks ∧ s.emailSize + chunks.flatten.length ≤ maxIndataSize := by
  induction chunks generalizing s with
  | nil => exact ⟨List.not_mem_nil, small⟩
  | cons line lines ih =>
    rw [runAll, List.filter_append, List.map_cons] at delivered
    by_cases last : line = endOfMail
    · obtain ⟨completion, sent, ended⟩ := handleLine_end env s mail installed queue
      rw [last, ended] at delivered
      have first : some (Event.data [] true) = some (.data endOfMail false) :=
        congrArg List.head? delivered
      cases first
    rcases Nat.lt_or_ge maxIndataSize (s.emailSize + line.length) with large | fits
    · rw [handleLine_overrun env s line mail installed queue last large] at delivered
      have first : some (Event.data line true) = some (.data line false) :=
        congrArg List.head? delivered
      cases first
    · have taken := handleLine_mail env s line mail installed queue last fits
      rw [taken] at delivered
      simp only [List.filter_cons, outward_line, outward_data, if_true, Bool.false_eq_true, if_false,
        List.filter_nil, List.cons_append, List.nil_append, List.cons.injEq, true_and] at delivered
      obtain ⟨other, within⟩ := ih { s with emailSize := s.emailSize + line.length } mail installed
        queue fits delivered
      rw [List.mem_cons, not_or, List.flatten_cons, List.length_append]
      exact ⟨⟨Ne.symm last, other⟩, by simp only at within; omega⟩

/-- libEmailz has counted the bytes of the lines. -/
theorem OnePhase.emailSize {env : Env} {s : Session} {chunks : List Bytes}
    (phase : OnePhase env s chunks) (n : Nat) :
    (runAll (handleLine env) s (chunks.take n)).1.emailSize = (chunks.take n).flatten.length ∧
      chunks.flatten.length ≤ maxIndataSize := by
  obtain ⟨mail, count⟩ := (phase_mail_iff s 0).mp phase.mail
  obtain ⟨other, within⟩ := delivered_lines env s chunks mail phase.installed phase.queue
    (by omega) phase.delivered
  have whole : chunks.flatten.length =
      (chunks.take n).flatten.length + (chunks.drop n).flatten.length := by
    rw [← List.length_append, ← List.flatten_append, List.take_append_drop]
  have other' : endOfMail ∉ chunks.take n := fun member => other (List.mem_of_mem_take member)
  obtain ⟨runs, -⟩ := runAll_mail env s (chunks.take n) mail phase.installed phase.queue other'
    (by omega)
  rw [runs]
  refine ⟨?_, by omega⟩
  dsimp only
  omega

/-! ### Characters -/

private theorem receives_size {lower : Bytes → Bytes} {email last : SMEmail} {chunks : List Bytes}
    (received : chunks.foldlM (SMEmail.receive lower) email = some last) :
    last.dataSize = email.dataSize + (chunks.map units).sum := by
  induction chunks generalizing email with
  | nil =>
    obtain rfl := Option.some.inj received
    rfl
  | cons data chunks ih =>
    rw [List.foldlM_cons] at received
    obtain ⟨next, first, later⟩ := Option.bind_eq_some_iff.mp received
    obtain ⟨h, -, rfl⟩ := Option.map_eq_some_iff.mp first
    rw [ih later, List.map_cons, List.sum_cons, ← Nat.add_assoc]
    rfl

/-- A chunk counts for its bytes exactly if it is ASCII. -/
private theorem units_iff (data : Bytes) :
    units data ≤ data.length ∧ (units data = data.length ↔ Ascii data) := by
  unfold units stringWithUtf8
  cases valid : utf8Valid data with
  | true =>
    rw [if_pos rfl, Option.map_some, Option.getD_some]
    have sized := sized_of_valid data valid
    have fits := fits_iff_ascii data valid
    rw [Sized] at sized
    rw [Fits] at fits
    refine ⟨sized, ?_⟩
    rw [← fits]
    omega
  | false =>
    rw [if_neg Bool.false_ne_true, Option.map_none, Option.getD_none]
    refine ⟨Nat.zero_le _, iff_of_false ?_ ?_⟩
    · intro empty
      rw [List.length_eq_zero_iff.mp empty.symm] at valid
      cases valid
    · intro ascii_
      rw [utf8Valid_ascii data ascii_] at valid
      cases valid

/-- The sums agree where their terms do. -/
private theorem units_sum (chunks : List Bytes) :
    (chunks.map units).sum ≤ chunks.flatten.length ∧
      ((chunks.map units).sum = chunks.flatten.length ↔ ∀ data ∈ chunks, Ascii data) := by
  induction chunks with
  | nil => exact ⟨Nat.le_refl _, iff_of_true rfl (List.forall_mem_nil _)⟩
  | cons data chunks ih =>
    obtain ⟨below, exact_⟩ := units_iff data
    obtain ⟨below', exact'⟩ := ih
    rw [List.map_cons, List.sum_cons, List.flatten_cons, List.length_append, List.forall_mem_cons,
      ← exact_, ← exact']
    omega

private theorem ascii_readable {email : SMEmail} {data : Bytes} (ascii_ : Ascii data) :
    Readable email data := by
  intro _ invalid
  rw [utf8Valid_ascii data ascii_] at invalid
  cases invalid

private theorem ascii_received (lower : Bytes → Bytes) (email : SMEmail) {chunks : List Bytes}
    (ascii_ : ∀ data ∈ chunks, Ascii data) :
    ∃ last, chunks.foldlM (SMEmail.receive lower) email = some last := by
  have readable : Each (staying (SMEmail.receive lower)) Readable email chunks :=
    each_always _ chunks (fun data member _ => ascii_readable (ascii_ data member)) email
  exact Option.isSome_iff_exists.mp
    ((foldlM_isSome_iff _ (receive_isSome lower) email chunks).mpr readable)

/-- Lines of ASCII are taken, and count as their bytes. -/
private theorem ascii_counted (lower : Bytes → Bytes) (socket : SMSocket) {email : SMEmail}
    {chunks : List Bytes} (empty : email.data = []) (uncounted : email.dataSize = 0)
    (ascii_ : ∀ data ∈ chunks, Ascii data) :
    ∃ last, handleDatas lower { socket with email := some email } chunks =
        some { socket with email := some last } ∧
      last.data = chunks.flatten ∧ last.dataSize = chunks.flatten.length := by
  obtain ⟨last, received⟩ := ascii_received lower email ascii_
  have data := receives_data received
  have size := receives_size received
  rw [empty, List.nil_append] at data
  rw [uncounted, Nat.zero_add, (units_sum chunks).2.mpr ascii_] at size
  exact ⟨last, handleDatas_some.mpr received, data, size⟩

/-! ### What is stored -/

/-- The keys of a mail differ in their last letters. -/
private theorem stored_size {email : SMEmail} {first name value : Bytes}
    (put : .put (name ++ ascii "size") value ∈ storeEmail email first name) :
    value = decimal email.dataSize := by
  unfold storeEmail at put
  simp only [List.mem_append, List.mem_cons, List.not_mem_nil, or_false, Write.put.injEq] at put
  rcases put with (⟨other, -⟩ | ⟨other, -⟩ | ⟨-, same⟩ | ⟨other, -⟩) | file
  · cases List.append_cancel_left other
  · cases List.append_cancel_left other
  · exact same
  · have ends := congrArg List.getLast? other
    simp [sentinel, ascii] at ends
  · split at file <;> simp at file

/-- A size is read back as it was stored. -/
private theorem size_read (found : SMEmail) (size : Nat) (fits : size < 0x8000000000000000) :
    (enterField found (ascii "size") (decimal size)).dataSize = size := by
  have read : (enterField found (ascii "size") (decimal size)).dataSize =
      (integerValue (decimal size) % 0x10000000000000000).toNat := rfl
  rw [read, integerValue_decimal _ fits]
  omega

/-- Over the lines of one data segment the counters agree, and the size that is stored is the size
of the file, exactly if every line is ASCII. -/
theorem sizesAgree_iff_ascii (lower : Bytes → Bytes) (env : Env) (s : Session) (socket : SMSocket)
    (email : SMEmail) (chunks : List Bytes) (phase : OnePhase env s chunks)
    (empty : email.data = []) (uncounted : email.dataSize = 0) :
    SizesAgree lower env s socket email chunks ↔ ∀ data ∈ chunks, Ascii data := by
  constructor
  · intro agree
    -- after the last chunk nothing has been lost
    obtain ⟨last, done, size, -⟩ := agree.counters chunks.length
    rw [List.take_length, handleDatas_some] at done
    rw [receives_size done, receives_data done, empty, uncounted, Nat.zero_add,
      List.nil_append] at size
    exact (units_sum chunks).2.mp size
  · intro ascii_
    constructor
    · intro n
      have part : ∀ data ∈ chunks.take n, Ascii data :=
        fun data member => ascii_ data (List.mem_of_mem_take member)
      obtain ⟨last, done, data, size⟩ := ascii_counted lower socket empty uncounted part
      refine ⟨last, done, by rw [data, size], ?_⟩
      rw [data, (phase.emailSize n).1]
    · intro last done name value path contents named put file
      obtain ⟨first, put'⟩ := handleEmail_stored named put
      obtain ⟨-, -, held⟩ := handleEmail_file.mp file
      obtain ⟨last', done', data, size⟩ := ascii_counted lower socket empty uncounted ascii_
      rw [handleDatas_some] at done done'
      obtain rfl := Option.some.inj (done.symm.trans done')
      have within := (phase.emailSize 0).2
      rw [stored_size put', held, data, size]
      exact ⟨rfl, fun found => size_read found _ (lt_of_le_of_lt within (by decide))⟩

/-- The mail of a fresh socket in its data segment. -/
def someSession : Session := { (Socket.started 1 0 false appHandlers).toSession with state := .data }

/-- An ASCII header. -/
theorem sizesAgree_ascii :
    SizesAgree id Env.granted someSession (SMSocket.init []) (SMEmail.init [] [] none)
      [ascii "a: b\r\n"] := by
  have phase : OnePhase Env.granted someSession [ascii "a: b\r\n"] :=
    ⟨rfl, rfl, rfl, by decide +kernel⟩
  exact (sizesAgree_iff_ascii id Env.granted someSession (SMSocket.init [])
    (SMEmail.init [] [] none) [ascii "a: b\r\n"] phase rfl rfl).mpr (by decide +kernel)

/-- A letter of two bytes counts as one. -/
theorem sizes_differ :
    OnePhase Env.granted someSession [[0xC3, 0xA9, cr, lf]] ∧
      (handleDatas id { SMSocket.init [] with email := some (SMEmail.init [] [] none) }
        [[0xC3, 0xA9, cr, lf]]).map (fun socket =>
          socket.email.map fun email => (email.dataSize, email.data.length)) =
        some (some (3, 4)) := by
  refine ⟨⟨rfl, rfl, rfl, ?_⟩, ?_⟩
  all_goals decide +kernel

end Spamass.Web
