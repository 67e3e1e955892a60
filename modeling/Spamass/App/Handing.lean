import Spamass.App.Inbox

/-!
# Handing the mails over

`emailsForAddress:withBlock:` with a block whose answers may depend on all it was given
before. What the database holds for an address is a list of mails, gathered from
neighbouring keys; the scan hands them over one behind the other, and the mail that the
block refuses while the scan goes on is handed over once more.
-/
namespace Spamass.App

open Spamass.Emailz Spamass.SortedStore Spamass.Separated

/-- Each mail is handed over once, none follows a refusal, and nil is handed over at the end. -/
structure Delivered (handler : Handler) (calls : List (Option SMEmail)) : Prop where
  once : ((calls.filterMap id).map SMEmail.id).Nodup
  stops : ∀ before email after, calls = before ++ some email :: after →
    handler (before.filterMap id) email = false → ∀ later ∈ after, later = none
  final : ∃ emails : List SMEmail, calls = emails.map some ++ [none]

/-! ### What the database holds -/

/-- A key of the address, taken apart, and its value. -/
structure Record where
  socketId : Bytes
  serial : Bytes
  field : Bytes
  value : Bytes
  deriving DecidableEq, Repr

def readRecord (address : Bytes) (entry : Bytes × Bytes) : Option Record :=
  match components entry.1 with
  | [partAddress, partSocket, partSerial, partField] =>
    if partAddress = address ∧ hasPrefix entry.1 address then
      some ⟨partSocket, partSerial, partField, entry.2⟩
    else none
  | _ => none

/-- The records of the address below its sentinel, up to the first key that is none. -/
def records (address : Bytes) : List (Bytes × Bytes) → List Record
  | [] => []
  | entry :: scan =>
    match readRecord address entry with
    | none => []
    | some record => record :: records address scan

def Record.isOf (email : SMEmail) (record : Record) : Bool :=
  decide (email.socketId = record.socketId ∧ email.serial = record.serial)

def Record.begin (address : Bytes) (record : Record) : SMEmail :=
  enterField (foundEmail address record.socketId record.serial) record.field record.value

def Record.enter (email : SMEmail) (record : Record) : SMEmail :=
  enterField email record.field record.value

/-- Neighbouring records of one mail are gathered. -/
def gather (address : Bytes) : List Record → List SMEmail
  | [] => []
  | first :: rest =>
    (rest.takeWhile (Record.isOf (first.begin address))).foldl Record.enter (first.begin address) ::
      gather address (rest.dropWhile (Record.isOf (first.begin address)))
termination_by records => records.length
decreasing_by
  simp only [List.length_cons]
  exact Nat.lt_succ_of_le (List.length_dropWhile_le _ _)

/-- The mails the database holds for an address, in the order of the scan. -/
def inboxOf (address : Bytes) (db : Database) : List SMEmail :=
  match db.seek (sentinel address) with
  | none => []
  | some scan => gather address (records address scan)

/-- The block accepts every mail but the last one, whatever it says to that. -/
def GoesOn (handler : Handler) (emails : List SMEmail) : Prop :=
  ∀ front email rest, emails = front ++ email :: rest → rest ≠ [] → handler front email = true

/-! ### The loop on records -/

section Loop

variable (handler : Handler) (address : Bytes)

theorem handLoop_cons (handed : List SMEmail) (email : Option SMEmail) (entry : Bytes × Bytes)
    (scan : List (Bytes × Bytes)) :
    handLoop handler address handed email (entry :: scan) =
      match readRecord address entry with
      | none => (handed, email)
      | some record =>
        match email with
        | none => handLoop handler address handed (some (record.begin address)) scan
        | some email =>
          if record.isOf email then
            handLoop handler address handed (some (record.enter email)) scan
          else if handler handed email then
            handLoop handler address (handed ++ [email]) (some (record.begin address)) scan
          else (handed ++ [email], some email) := by
  obtain ⟨key, value⟩ := entry
  rw [handLoop.eq_def]
  dsimp only [readRecord]
  -- the key is taken apart only where it begins with the address
  cases begins : hasPrefix key address with
  | false =>
    simp only [Bool.not_false, if_true, Bool.false_eq_true, and_false, if_false]
    split
    next never =>
      split at never <;> rfl
    next record present =>
      split at present <;> cases present
  | true =>
    simp only [Bool.not_true, Bool.false_eq_true, if_false, and_true]
    generalize components key = parts
    -- only a key of four parts is read further
    rcases parts with _ | ⟨partAddress, _ | ⟨partSocket, _ | ⟨partSerial, _ | ⟨partField,
      _ | ⟨more, rest⟩⟩⟩⟩⟩
    · rfl
    · rfl
    · rfl
    · rfl
    · by_cases same : partAddress = address
      · subst same
        simp only [ne_eq, not_true_eq_false, if_false, if_true]
        cases email with
        | none => rfl
        | some email => simp only [Record.isOf, decide_eq_true_eq, Record.enter, Record.begin]
      · simp [same]
    · rfl

/-- Handing over a list of mails, with what is in hand in the end. -/
def hand : List SMEmail → List SMEmail → List SMEmail × Option SMEmail
  | handed, [] => (handed, none)
  | handed, [email] => (handed, some email)
  | handed, email :: next :: rest =>
    if handler handed email then hand (handed ++ [email]) (next :: rest)
    else (handed ++ [email], some email)

/-- The mails still to come: the one in hand with the records that belong to it, and those behind. -/
def pending (email : Option SMEmail) (rest : List Record) : List SMEmail :=
  match email with
  | none => gather address rest
  | some email =>
    (rest.takeWhile (Record.isOf email)).foldl Record.enter email ::
      gather address (rest.dropWhile (Record.isOf email))

private theorem enterField_isOf (email : SMEmail) (field value : Bytes) :
    Record.isOf (enterField email field value) = Record.isOf email := by
  funext record
  unfold enterField
  split_ifs <;> rfl

private theorem begin_isOf (record : Record) : record.isOf (record.begin address) = true := by
  rw [Record.begin, enterField_isOf]
  simp [Record.isOf, foundEmail, SMEmail.init]

private theorem pending_none (first : Record) (rest : List Record) :
    pending address none (first :: rest) = pending address (some (first.begin address)) rest := by
  rw [pending, gather]
  rfl

private theorem pending_same (email : SMEmail) (first : Record) (rest : List Record)
    (same : first.isOf email = true) :
    pending address (some email) (first :: rest) = pending address (some (first.enter email)) rest := by
  simp only [pending, List.takeWhile_cons, List.dropWhile_cons, same, if_true, List.foldl_cons,
    Record.enter, enterField_isOf]

private theorem pending_other (email : SMEmail) (first : Record) (rest : List Record)
    (other : ¬first.isOf email = true) :
    pending address (some email) (first :: rest) =
      email :: pending address (some (first.begin address)) rest := by
  rw [← pending_none]
  simp [pending, other]

/-- The loop hands over what is pending. -/
private theorem handLoop_hand (handed : List SMEmail) (email : Option SMEmail)
    (scan : List (Bytes × Bytes)) :
    handLoop handler address handed email scan =
      hand handler handed (pending address email (records address scan)) := by
  induction scan generalizing handed email with
  | nil =>
    cases email with
    | none => simp [handLoop, records, pending, gather, hand]
    | some email => simp [handLoop, records, pending, gather, hand]
  | cons entry scan ih =>
    rw [handLoop_cons, records]
    cases readRecord address entry with
    | none =>
      cases email with
      | none => simp [pending, gather, hand]
      | some email => simp [pending, gather, hand]
    | some record =>
      dsimp only
      cases email with
      | none => rw [pending_none, ih]
      | some email =>
        dsimp only
        split
        next same => rw [pending_same address email record _ same, ih]
        next other =>
          rw [pending_other address email record _ other, ih]
          -- a mail is still to come: the one in hand is handed over before it
          rfl

/-- All mails that were handed over, the one left in hand last. -/
def handedOver (handed emails : List SMEmail) : List SMEmail :=
  (hand handler handed emails).1 ++ (hand handler handed emails).2.toList

/-- While the block goes on each mail is handed over once; the one it refuses comes again. -/
private theorem handedOver_cases (handed emails : List SMEmail) :
    handedOver handler handed emails = handed ++ emails ∨
      ∃ front email rest, emails = front ++ email :: rest ∧ rest ≠ [] ∧
        handler (handed ++ front) email = false ∧
        handedOver handler handed emails = handed ++ front ++ [email, email] := by
  -- on the mails to come: what was handed over is only appended to
  induction emails generalizing handed with
  | nil => exact Or.inl (by simp [handedOver, hand])
  | cons email rest ih =>
    cases rest with
    | nil => exact Or.inl (by simp [handedOver, hand])
    | cons next rest =>
      cases accepts : handler handed email with
      | false =>
        right
        exact ⟨[], email, next :: rest, rfl, nofun, by simpa using accepts,
          by simp [handedOver, hand, accepts]⟩
      | true =>
        have step : handedOver handler handed (email :: next :: rest) =
            handedOver handler (handed ++ [email]) (next :: rest) := by
          simp [handedOver, hand, accepts]
        rw [step]
        rcases ih (handed ++ [email]) with all | ⟨front, last, behind, cut, more, refuses, again⟩
        · left
          rw [all, List.append_assoc]
          rfl
        · right
          refine ⟨email :: front, last, behind, by rw [cut]; rfl, more, ?_, ?_⟩
          · simpa using refuses
          · rw [again]
            simp

/-- The calls of the block, from what the database holds. -/
private theorem emailsForAddressWith_eq (db : Database) :
    emailsForAddressWith handler address db =
      (handedOver handler [] (inboxOf address db)).map some ++ [none] := by
  unfold emailsForAddressWith inboxOf
  cases db.seek (sentinel address) with
  | none => rfl
  | some scan =>
    dsimp only
    rw [handLoop_hand]
    rfl

end Loop

/-! ### Each mail is gathered once -/

section Ids

variable (address : Bytes)

/-- What the keys of a mail begin with. -/
def frontOf (mail : Bytes × Bytes) : Bytes := fieldKey address mail.1 mail.2 []

def Record.id (record : Record) : Bytes × Bytes := (record.socketId, record.serial)

private theorem isOf_iff (email : SMEmail) (record : Record) :
    record.isOf email = true ↔ email.id = record.id := by
  simp [Record.isOf, SMEmail.id, Record.id]

/-- A record's key is its front and its field, and whatever has the front is split like it. -/
private theorem readRecord_front {entry : Bytes × Bytes} {record : Record}
    (read : readRecord address entry = some record) :
    entry.1 = frontOf address record.id ++ record.field ∧
      ∀ rest, components (frontOf address record.id ++ rest) =
        [address, record.socketId, record.serial] ++ components rest := by
  unfold readRecord at read
  split at read
  next partAddress partSocket partSerial partField split_ =>
    split at read
    next own =>
      obtain rfl := Option.some.inj read
      obtain ⟨rfl, -⟩ := own
      -- three parts are taken off the key, one after the other
      obtain ⟨plain_, behind, key, others⟩ := parts_first _ split_ nofun
      obtain ⟨plain', behind', rfl, others'⟩ := parts_first _ others nofun
      obtain ⟨plain'', behind'', rfl, others''⟩ := parts_first _ others' nofun
      obtain rfl := eq_of_parts_one _ others''
      have front : ∀ rest, frontOf partAddress (partSocket, partSerial) ++ rest =
          partAddress ++ underscore :: underscore :: (partSocket ++ underscore :: underscore ::
            (partSerial ++ underscore :: underscore :: rest)) := by
        intro rest
        simp [frontOf, fieldKey_eq]
      refine ⟨by rw [key]; exact (front _).symm, fun rest => ?_⟩
      rw [Record.id, front, components, parts_append _ _ _ (plain_ends _ _ plain_),
        parts_append _ _ _ (plain_ends _ _ plain'), parts_append _ _ _ (plain_ends _ _ plain''),
        parts_plain _ _ plain_, parts_plain _ _ plain', parts_plain _ _ plain'']
      rfl
    · cases read
  · cases read

/-- A key with the front of a mail is one of its records. -/
private theorem id_of_front {entry entry' : Bytes × Bytes} {record record' : Record}
    (read : readRecord address entry = some record)
    (read' : readRecord address entry' = some record')
    (begins : frontOf address record.id <+: frontOf address record'.id) :
    record.id = record'.id := by
  obtain ⟨-, splits⟩ := readRecord_front address read
  obtain ⟨-, splits'⟩ := readRecord_front address read'
  obtain ⟨rest, same⟩ := begins
  have parts_ := splits (rest ++ [])
  rw [← List.append_assoc, same, splits' []] at parts_
  simp only [List.cons_append, List.nil_append, List.cons.injEq, true_and] at parts_
  simp only [Record.id, Prod.mk.injEq]
  exact ⟨parts_.1.symm, parts_.2.1.symm⟩

/-- Of two records the one behind belongs to the same mail, or its front lies below. -/
def Behind (record record' : Record) : Prop :=
  record.id = record'.id ∨ frontOf address record'.id < frontOf address record.id

private theorem behind_of_lt {entry entry' : Bytes × Bytes} {record record' : Record}
    (read : readRecord address entry = some record)
    (read' : readRecord address entry' = some record') (below : entry'.1 < entry.1) :
    Behind address record record' := by
  have key := (readRecord_front address read).1
  have key' := (readRecord_front address read').1
  rcases lt_trichotomy (frontOf address record.id) (frontOf address record'.id) with
    less | same | greater
  · rcases prefix_or_append_lt less with begins | apart
    · exact Or.inl (id_of_front address read read' begins)
    · have above := apart record.field record'.field
      rw [← key, ← key'] at above
      exact absurd above (not_lt.mpr below.le)
  · exact Or.inl (id_of_front address read read' (same ▸ List.prefix_refl _))
  · exact Or.inr greater

private theorem mem_records {scan : List (Bytes × Bytes)} {record : Record}
    (member : record ∈ records address scan) :
    ∃ entry ∈ scan, readRecord address entry = some record := by
  induction scan with
  | nil => cases member
  | cons entry scan ih =>
    rw [records] at member
    cases read : readRecord address entry with
    | none => rw [read] at member; cases member
    | some first =>
      rw [read] at member
      rcases List.mem_cons.mp member with rfl | later
      · exact ⟨entry, List.mem_cons_self .., read⟩
      · obtain ⟨entry', member', read'⟩ := ih later
        exact ⟨entry', List.mem_cons_of_mem _ member', read'⟩

private theorem records_behind (scan : List (Bytes × Bytes))
    (sorted : scan.Pairwise fun entry entry' => entry'.1 < entry.1) :
    (records address scan).Pairwise (Behind address) := by
  induction scan with
  | nil => exact List.Pairwise.nil
  | cons entry scan ih =>
    obtain ⟨below, sorted'⟩ := List.pairwise_cons.mp sorted
    rw [records]
    cases read : readRecord address entry with
    | none => exact List.Pairwise.nil
    | some first =>
      apply List.pairwise_cons.mpr
      refine ⟨fun record member => ?_, ih sorted'⟩
      obtain ⟨entry', member', read'⟩ := mem_records address member
      exact behind_of_lt address read read' (below entry' member')

theorem enter_id (email : SMEmail) (record : Record) : (record.enter email).id = email.id := by
  unfold Record.enter enterField
  split_ifs <;> rfl

private theorem begin_id (record : Record) : (record.begin address).id = record.id :=
  (isOf_iff _ record).mp (begin_isOf address record)

private theorem gathered_id (email : SMEmail) (rest : List Record) :
    (rest.foldl Record.enter email).id = email.id := by
  induction rest generalizing email with
  | nil => rfl
  | cons record rest ih => rw [List.foldl_cons, ih, enter_id]

/-- Behind the records of a mail come those of mails below it. -/
private theorem dropped_below (first : Record) (rest : List Record)
    (behind : ∀ record ∈ rest, Behind address first record)
    (sorted : rest.Pairwise (Behind address)) (record : Record)
    (member : record ∈ rest.dropWhile (Record.isOf (first.begin address))) :
    frontOf address record.id < frontOf address first.id := by
  have head := List.head?_dropWhile_not (Record.isOf (first.begin address)) rest
  have suffix := List.dropWhile_suffix (Record.isOf (first.begin address)) (l := rest)
  have sorted' := sorted.sublist suffix.sublist
  cases dropped : rest.dropWhile (Record.isOf (first.begin address)) with
  | nil =>
    rw [dropped] at member
    cases member
  | cons next later =>
    rw [dropped] at head member suffix sorted'
    -- the next record is of another mail
    have other : first.id ≠ next.id := by
      intro same
      have own : next.isOf (first.begin address) = true := by rw [isOf_iff, begin_id, same]
      rw [List.head?_cons] at head
      exact absurd own (by simpa using head)
    have below : frontOf address next.id < frontOf address first.id :=
      (behind next (suffix.subset (List.mem_cons_self ..))).resolve_left other
    rcases List.mem_cons.mp member with rfl | further
    · exact below
    · rcases (List.pairwise_cons.mp sorted').1 record further with same | less
      · rwa [← same]
      · exact less.trans below

private theorem gather_ids (rest : List Record) (sorted : rest.Pairwise (Behind address)) :
    ((gather address rest).map SMEmail.id).Pairwise
        (fun mail mail' => frontOf address mail' < frontOf address mail) ∧
      ∀ mail ∈ (gather address rest).map SMEmail.id, ∃ record ∈ rest, record.id = mail := by
  -- a mail takes its own records away, and what is left has smaller fronts
  induction size : rest.length using Nat.strongRecOn generalizing rest with
  | _ n ih =>
    cases rest with
    | nil =>
      rw [gather]
      exact ⟨List.Pairwise.nil, nofun⟩
    | cons first rest =>
      obtain ⟨behind, sorted'⟩ := List.pairwise_cons.mp sorted
      have suffix := List.dropWhile_suffix (Record.isOf (first.begin address)) (l := rest)
      obtain ⟨descends, own⟩ := ih _
        (by rw [← size]; exact Nat.lt_succ_of_le suffix.length_le) _
        (sorted'.sublist suffix.sublist) rfl
      rw [gather, List.map_cons, gathered_id, begin_id]
      constructor
      · apply List.pairwise_cons.mpr
        refine ⟨fun mail member => ?_, descends⟩
        obtain ⟨record, member', rfl⟩ := own mail member
        exact dropped_below address first rest behind sorted' record member'
      · intro mail member
        rcases List.mem_cons.mp member with rfl | later
        · exact ⟨first, List.mem_cons_self .., rfl⟩
        · obtain ⟨record, member', same⟩ := own mail later
          exact ⟨record, List.mem_cons_of_mem _ (suffix.subset member'), same⟩

/-- The database holds each mail once. -/
private theorem inboxOf_nodup (db : Database) : ((inboxOf address db).map SMEmail.id).Nodup := by
  unfold inboxOf
  cases found : db.seek (sentinel address) with
  | none => exact List.nodup_nil
  | some scan =>
    have sorted := (db.seek_some found).1
    refine (gather_ids address _ (records_behind address scan sorted)).1.imp ?_
    intro mail mail' below same
    rw [same] at below
    exact lt_irrefl _ below

end Ids

theorem handed_split (emails : List SMEmail) (before : List (Option SMEmail)) (email : SMEmail)
    (after : List (Option SMEmail)) (split : emails.map some ++ [none] = before ++ some email :: after) :
    ∃ front rest, emails = front ++ email :: rest ∧ before = front.map some ∧
      after = rest.map some ++ [none] := by
  induction emails generalizing before with
  | nil =>
    cases before with
    | nil => cases (List.cons.inj split).1
    | cons first before => simp at split
  | cons first emails ih =>
    cases before with
    | nil =>
      obtain ⟨same, rest⟩ := List.cons.inj split
      obtain rfl := Option.some.inj same
      exact ⟨[], emails, rfl, rfl, rest.symm⟩
    | cons _ before =>
      obtain ⟨rfl, later⟩ := List.cons.inj split
      obtain ⟨front, rest, rfl, rfl, behind⟩ := ih before later
      exact ⟨first :: front, rest, rfl, rfl, behind⟩

private theorem handed_mails (emails : List SMEmail) :
    (emails.map some ++ [none]).filterMap id = emails := by
  simp [List.filterMap_append, List.filterMap_map]

/-- Two mails of x, each with its size. -/
def twoMails : Database :=
  Store.empty.puts [
    (fieldKey (ascii "x") (ascii "20130101000000000-001.002.003.004-00025") (ascii "000001")
      (ascii "size"), ascii "1"),
    (fieldKey (ascii "x") (ascii "20130101000000000-001.002.003.004-00025") (ascii "000002")
      (ascii "size"), ascii "1"),
    (sentinel (ascii "x"), ascii "1")]

end Spamass.App
