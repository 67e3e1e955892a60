import Mathlib.Data.List.Lex
import Mathlib.Data.List.Sort

/-!
# Sorted stores

A map with ordered keys, kept as its entries in the order of their keys. A scan
seeks the first entry at or above a key and walks down from there. Keys may be words:
words of one length are compared before whatever follows them.
-/
namespace Spamass.SortedStore

/-- Entries in the strict order of their keys. -/
structure Store (κ ν : Type) [LinearOrder κ] where
  entries : List (κ × ν)
  sorted : entries.Pairwise fun e e' => e.1 < e'.1

section Writes

variable {κ ν : Type}

/-- An entry that is written, and whose key is not written again. -/
def LastWrite (writes : List (κ × ν)) (e : κ × ν) : Prop :=
  ∃ before after, writes = before ++ e :: after ∧ ∀ write ∈ after, write.1 ≠ e.1

theorem lastWrite_cons (write : κ × ν) (writes : List (κ × ν)) (e : κ × ν) :
    LastWrite (write :: writes) e ↔
      LastWrite writes e ∨ e = write ∧ ∀ later ∈ writes, later.1 ≠ e.1 := by
  constructor
  · rintro ⟨before, after, split, last⟩
    rcases before with _ | ⟨first, before⟩
    · obtain ⟨rfl, rfl⟩ := List.cons.inj split
      exact .inr ⟨rfl, last⟩
    · obtain ⟨-, rfl⟩ := List.cons.inj split
      exact .inl ⟨before, after, rfl, last⟩
  · rintro (⟨before, after, rfl, last⟩ | ⟨rfl, last⟩)
    · exact ⟨write :: before, after, rfl, last⟩
    · exact ⟨[], writes, rfl, last⟩

theorem LastWrite.mem {writes : List (κ × ν)} {e : κ × ν} (last : LastWrite writes e) :
    e ∈ writes := by
  obtain ⟨before, after, rfl, -⟩ := last
  exact List.mem_append_right _ (List.mem_cons_self ..)

end Writes

section Store

variable {κ ν : Type} [LinearOrder κ]

def Store.empty : Store κ ν := ⟨[], .nil⟩

def Store.put (s : Store κ ν) (key : κ) (value : ν) : Store κ ν where
  entries := s.entries.filter (fun e => e.1 < key) ++
    (key, value) :: s.entries.filter (fun e => key < e.1)
  sorted := by
    rw [List.pairwise_append, List.pairwise_cons]
    refine ⟨s.sorted.filter _, ⟨?_, s.sorted.filter _⟩, ?_⟩
    · intro e member
      exact of_decide_eq_true (List.mem_filter.mp member).2
    · intro e member e' member'
      have below : e.1 < key := of_decide_eq_true (List.mem_filter.mp member).2
      rcases List.mem_cons.mp member' with rfl | above
      · exact below
      · exact below.trans (of_decide_eq_true (List.mem_filter.mp above).2)

/-- The writes in their order. -/
def Store.puts (s : Store κ ν) (writes : List (κ × ν)) : Store κ ν :=
  writes.foldl (fun s write => s.put write.1 write.2) s

/-- The entries before the first one at or above a key, nearest first, if there is one. -/
def Store.seek (s : Store κ ν) (key : κ) : Option (List (κ × ν)) :=
  if s.entries.any (fun e => key ≤ e.1) then
    some (s.entries.filter fun e => e.1 < key).reverse
  else none

theorem Store.mem_put (s : Store κ ν) (key : κ) (value : ν) (e : κ × ν) :
    e ∈ (s.put key value).entries ↔ e = (key, value) ∨ (e ∈ s.entries ∧ e.1 ≠ key) := by
  have apart : e.1 ≠ key ↔ e.1 < key ∨ key < e.1 := ne_iff_lt_or_gt
  simp only [Store.put, List.mem_append, List.mem_cons, List.mem_filter, decide_eq_true_eq, apart]
  tauto

theorem Store.mem_puts (s : Store κ ν) (writes : List (κ × ν)) {e : κ × ν}
    (member : e ∈ (s.puts writes).entries) : e ∈ writes ∨ e ∈ s.entries := by
  induction writes generalizing s with
  | nil => exact .inr member
  | cons write writes ih =>
    rcases ih (s.put write.1 write.2) member with later | before
    · exact .inl (.tail _ later)
    · rcases (s.mem_put _ _ _).mp before with rfl | ⟨old, -⟩
      · exact .inl (.head _)
      · exact .inr old

/-- A key stays, though its value may change. -/
theorem Store.puts_keeps (s : Store κ ν) (writes : List (κ × ν)) {e : κ × ν}
    (member : e ∈ s.entries) : ∃ value, (e.1, value) ∈ (s.puts writes).entries := by
  induction writes generalizing s e with
  | nil => exact ⟨e.2, member⟩
  | cons write writes ih =>
    by_cases same : e.1 = write.1
    · rw [same]
      exact ih (s.put write.1 write.2) ((s.mem_put _ _ _).mpr (.inl rfl))
    · exact ih (s.put write.1 write.2) ((s.mem_put _ _ _).mpr (.inr ⟨member, same⟩))

theorem Store.puts_key (s : Store κ ν) (writes : List (κ × ν)) {write : κ × ν}
    (member : write ∈ writes) : ∃ value, (write.1, value) ∈ (s.puts writes).entries := by
  induction writes generalizing s with
  | nil => cases member
  | cons first writes ih =>
    rcases List.mem_cons.mp member with rfl | later
    · exact (s.put write.1 write.2).puts_keeps writes ((s.mem_put _ _ _).mpr (.inl rfl))
    · exact ih (s.put first.1 first.2) later

/-- A store holds the last write of each key, and what was not written at all. -/
theorem Store.mem_puts_iff (s : Store κ ν) (writes : List (κ × ν)) (e : κ × ν) :
    e ∈ (s.puts writes).entries ↔
      LastWrite writes e ∨ e ∈ s.entries ∧ ∀ write ∈ writes, write.1 ≠ e.1 := by
  induction writes generalizing s with
  | nil =>
    have missing : ¬LastWrite [] e := fun last => List.not_mem_nil last.mem
    simp [Store.puts, missing]
  | cons write writes ih =>
    have unfolded : s.puts (write :: writes) = (s.put write.1 write.2).puts writes := rfl
    rw [unfolded, ih, Store.mem_put, lastWrite_cons, List.forall_mem_cons, ne_comm (a := e.1)]
    constructor
    · rintro (last | ⟨rfl | ⟨old, apart⟩, later⟩)
      · exact .inl (.inl last)
      · exact .inl (.inr ⟨rfl, later⟩)
      · exact .inr ⟨old, apart, later⟩
    · rintro ((last | ⟨rfl, later⟩) | ⟨old, apart, later⟩)
      · exact .inl last
      · exact .inr ⟨.inl rfl, later⟩
      · exact .inr ⟨.inr ⟨old, apart⟩, later⟩

def Store.get (s : Store κ ν) (key : κ) : Option ν :=
  (s.entries.find? fun e => e.1 = key).map Prod.snd

theorem find_sorted {entries : List (κ × ν)} (sorted : entries.Pairwise fun e e' => e.1 < e'.1)
    {e : κ × ν} (member : e ∈ entries) : entries.find? (fun e' => e'.1 = e.1) = some e := by
  induction entries with
  | nil => cases member
  | cons first entries ih =>
    obtain ⟨least, sorted⟩ := List.pairwise_cons.mp sorted
    rw [List.find?_cons]
    rcases List.mem_cons.mp member with rfl | later
    · simp
    · simp [(least e later).ne, ih sorted later]

theorem Store.get_of_mem (s : Store κ ν) {e : κ × ν} (member : e ∈ s.entries) :
    s.get e.1 = some e.2 := by
  rw [Store.get, find_sorted s.sorted member, Option.map_some]

theorem Store.get_some_iff (s : Store κ ν) (key : κ) (value : ν) :
    s.get key = some value ↔ (key, value) ∈ s.entries := by
  refine ⟨fun found => ?_, s.get_of_mem⟩
  obtain ⟨e, here, rfl⟩ := Option.map_eq_some_iff.mp found
  have same := List.find?_some here
  rw [← of_decide_eq_true same]
  exact List.mem_of_find?_eq_some here

theorem Store.get_put_same (s : Store κ ν) (key : κ) (value : ν) :
    (s.put key value).get key = some value := by
  rw [Store.get_some_iff, Store.mem_put]
  exact .inl rfl

theorem Store.get_put_other (s : Store κ ν) {key key' : κ} (value : ν) (apart : key' ≠ key) :
    (s.put key value).get key' = s.get key' := by
  refine Option.ext fun value' => ?_
  rw [Store.get_some_iff, Store.get_some_iff, Store.mem_put]
  simp [apart]

theorem Store.seek_none (s : Store κ ν) (key : κ) :
    s.seek key = none ↔ ∀ e ∈ s.entries, e.1 < key := by
  unfold Store.seek
  split
  next present =>
    obtain ⟨e, member, above⟩ := List.any_eq_true.mp present
    refine iff_of_false nofun fun all => ?_
    exact absurd (all e member) (not_lt.mpr (of_decide_eq_true above))
  next missing =>
    refine iff_of_true rfl fun e member => ?_
    by_contra above
    exact missing (List.any_eq_true.mpr ⟨e, member, decide_eq_true (not_lt.mp above)⟩)

theorem Store.seek_some (s : Store κ ν) {key : κ} {scan : List (κ × ν)}
    (found : s.seek key = some scan) :
    scan.Pairwise (fun e e' => e'.1 < e.1) ∧ ∀ e, e ∈ scan ↔ e ∈ s.entries ∧ e.1 < key := by
  unfold Store.seek at found
  split at found
  next present =>
    obtain rfl := Option.some.inj found
    constructor
    · exact List.pairwise_reverse.mpr (s.sorted.filter _)
    · intro e
      rw [List.mem_reverse, List.mem_filter, decide_eq_true_eq]
  next missing => cases found

/-- What a scan takes while a test holds: the entries that pass with all above them. -/
theorem mem_takeWhile_iff {scan : List (κ × ν)} (p : κ × ν → Bool)
    (sorted : scan.Pairwise fun e e' => e'.1 < e.1) (e : κ × ν) :
    e ∈ scan.takeWhile p ↔ e ∈ scan ∧ ∀ e' ∈ scan, e.1 ≤ e'.1 → p e' = true := by
  induction scan with
  | nil => simp
  | cons first scan ih =>
    obtain ⟨least, sorted'⟩ := List.pairwise_cons.mp sorted
    rw [List.takeWhile_cons]
    -- a test that fails at the greatest entry takes none
    by_cases passes : p first = true
    · rw [if_pos passes, List.mem_cons, ih sorted', List.mem_cons]
      constructor
      · rintro (rfl | ⟨member, all⟩)
        · refine ⟨.inl rfl, fun e' member' above => ?_⟩
          rcases List.mem_cons.mp member' with rfl | below
          · exact passes
          · exact absurd (least e' below) (not_lt.mpr above)
        · refine ⟨.inr member, fun e' member' above => ?_⟩
          rcases List.mem_cons.mp member' with rfl | below
          · exact passes
          · exact all e' below above
      · rintro ⟨rfl | member, all⟩
        · exact .inl rfl
        · exact .inr ⟨member, fun e' member' above => all e' (.tail _ member') above⟩
    · rw [if_neg passes]
      refine iff_of_false (List.not_mem_nil) ?_
      rintro ⟨member, all⟩
      apply passes
      apply all first (.head _)
      rcases List.mem_cons.mp member with rfl | below
      · exact le_rfl
      · exact (least e below).le

/-- Two scans of the same entries are the same. -/
theorem scan_unique {scan scan' : List (κ × ν)} (sorted : scan.Pairwise fun e e' => e'.1 < e.1)
    (sorted' : scan'.Pairwise fun e e' => e'.1 < e.1) (same : ∀ e, e ∈ scan ↔ e ∈ scan') :
    scan = scan' := by
  have irrefl : Std.Irrefl fun e e' : κ × ν => e'.1 < e.1 := ⟨fun e => lt_irrefl e.1⟩
  have antisymm : Std.Antisymm fun e e' : κ × ν => e'.1 < e.1 :=
    ⟨fun _ _ below above => absurd below (not_lt.mpr above.le)⟩
  exact sorted.eq_of_mem_iff sorted' same

end Store

/-! ### Words -/

section Words

variable {α : Type} [LinearOrder α]

theorem append_lt_append_iff (front back back' : List α) :
    front ++ back < front ++ back' ↔ back < back' := by
  induction front with
  | nil => rfl
  | cons a front ih => rw [List.cons_append, List.cons_append, List.cons_lt_cons_self, ih]

/-- Of two words of one length, the order is the order of what they begin. -/
theorem append_lt_of_lt {word word' : List α} (same : word.length = word'.length)
    (before : word < word') (back back' : List α) : word ++ back < word' ++ back' := by
  induction word generalizing word' with
  | nil =>
    cases word' with
    | nil => exact absurd before (lt_irrefl _)
    | cons b word' => cases same
  | cons a word ih =>
    cases word' with
    | nil => cases same
    | cons b word' =>
      rw [List.cons_append, List.cons_append]
      rcases List.cons_lt_cons_iff.mp before with less | ⟨rfl, rest⟩
      · exact List.cons_lt_cons_iff.mpr (.inl less)
      · exact List.cons_lt_cons_iff.mpr (.inr ⟨rfl, ih (Nat.succ.inj same) rest⟩)

/-- A lesser word begins a greater one, or keeps below it whatever follows them. -/
theorem prefix_or_append_lt {word word' : List α} (before : word < word') :
    word <+: word' ∨ ∀ back back', word ++ back < word' ++ back' := by
  induction word generalizing word' with
  | nil => exact .inl (List.nil_prefix)
  | cons a word ih =>
    cases word' with
    | nil => cases before
    | cons b word' =>
      rcases List.cons_lt_cons_iff.mp before with less | ⟨rfl, rest⟩
      · exact .inr fun _ _ => List.cons_lt_cons_iff.mpr (.inl less)
      · rcases ih rest with begins | below
        · exact .inl (List.cons_prefix_cons.mpr ⟨rfl, begins⟩)
        · exact .inr fun back back' => List.cons_lt_cons_iff.mpr (.inr ⟨rfl, below back back'⟩)

end Words

end Spamass.SortedStore
