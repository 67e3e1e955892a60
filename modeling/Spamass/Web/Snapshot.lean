import Spamass.Web.SearchPage

/-!
# Searches while mails are stored

The handler queue stores one mail after another, each with five writes, while searches
read snapshots of the database on a concurrent queue. Over every schedule a search
hands over whole mails only, if each snapshot it takes has all of the mails it reads, and
no mail is handed over before its file is there.
-/
namespace Spamass.Web

open Spamass.Emailz Spamass.App Spamass.SortedStore Spamass.Separated Spamass.Runs

/-! ### The machine -/

/-- A socket as `handleEmailWithSocket:` finds it, with a mail or without. A mail that has no
recipient raises before it writes anything. -/
structure MailEnd where
  socket : SMSocket
  mail : Option Mail
  others : List Bytes
  holds : socket.email = mail.map fun m => { m.email with recipients := m.recipient :: others }

def MailEnd.writes (e : MailEnd) : List Write := (handleEmail e.socket).2

section

variable {ι : Type} [DecidableEq ι]

structure Sharing (ι : Type) where
  -- the handler queue, as the writes that are still to come
  writes : List Write
  mDb : Database
  -- the paths of the files
  files : List Bytes
  -- the calls each search has still to make
  searches : ι → List (Option SMEmail)

inductive SharingStep (ι : Type) where
  | write
  /-- a search takes its snapshot -/
  | search (i : ι) (address : Bytes)
  /-- a search calls its handler -/
  | hand (i : ι) (goesOn : Bool)

def Sharing.start (ends : List MailEnd) : Sharing ι where
  writes := ends.flatMap MailEnd.writes
  mDb := .empty
  files := []
  searches := fun _ => []

def Sharing.write (s : Sharing ι) : Sharing ι :=
  match s.writes with
  | [] => s
  | .put key value :: writes => { s with writes := writes, mDb := s.mDb.put key value }
  | .file path _ :: writes => { s with writes := writes, files := path :: s.files }

def Sharing.step (s : Sharing ι) : SharingStep ι → Sharing ι
  | .write => s.write
  | .search i address =>
    match s.searches i with
    | [] =>
      -- what the loop will call is settled once it has its iterator
      let calls := emailsForAddress (fun _ => true) address s.mDb
      { s with searches := Function.update s.searches i calls }
    | _ :: _ => s
  | .hand i goesOn =>
    match s.searches i with
    | [] => s
    | found :: left =>
      let calls := if goesOn then left else refused found left
      { s with searches := Function.update s.searches i calls }

/-! ### What is asked -/

/-- A mail that is handed over is one that was stored, with its sender, its size and its subject,
and its file is there. -/
def HandsWhole (mails : List Mail) (s : Sharing ι) : SharingStep ι → Prop
  | .hand i _ => ∀ found left, s.searches i = some found :: left →
      (∃ m ∈ mails, Shows found m) ∧
        ∃ path ∈ s.files, pathWithSocketId found.socketId found.serial = some path
  | _ => True

/-- A key that a search reads: one of the address, as all keys from it up to the sentinel. -/
def Reached (db : Database) (address key : Bytes) : Prop :=
  (∃ e ∈ db.entries, e.1 = key) ∧ key < sentinel address ∧
    ∀ e ∈ db.entries, key ≤ e.1 → e.1 < sentinel address → isRecord address e.1 = true

instance (db : Database) (address key : Bytes) : Decidable (Reached db address key) :=
  inferInstanceAs (Decidable (_ ∧ _ ∧ _))

/-- A search reads nothing, or only mails of its address with all their fields. -/
def Settled (mails : List Mail) (db : Database) (address : Bytes) : Prop :=
  (∀ e ∈ db.entries, e.1 < sentinel address) ∨
    ∀ e ∈ db.entries, Reached db address e.1 → ∃ m ∈ mails, m.recipient = address ∧
      e.1 ∈ m.keys ∧ ∀ field ∈ mailFields,
        Reached db address (fieldKey address m.email.socketId m.email.serial field)

instance (mails : List Mail) (db : Database) (address : Bytes) :
    Decidable (Settled mails db address) :=
  inferInstanceAs (Decidable (_ ∨ _))

/-- Snapshots are settled, and the file of a mail that is handed over is not still to come. -/
def InTime (mails : List Mail) (s : Sharing ι) : SharingStep ι → Prop
  | .write => True
  | .search i address => s.searches i = [] → Settled mails s.mDb address
  | .hand i _ => ∀ found left, s.searches i = some found :: left → ∀ path contents,
      pathWithSocketId found.socketId found.serial = some path → .file path contents ∉ s.writes

end

/-! ### A settled snapshot -/

section Snapshot

variable {mails : List Mail} {db : Database} {address : Bytes}

/-- The entries are those of the mails, but for what is stored without a mail. -/
def StoredFrom (mails : List Mail) (db : Database) : Prop :=
  ∀ e ∈ db.entries, e.1 = [] ∨ ∃ m ∈ mails, e ∈ m.entries

private theorem mem_read_iff_reached {scan : List (Bytes × Bytes)}
    (found : db.seek (sentinel address) = some scan) (e : Bytes × Bytes) :
    (e ∈ scan.takeWhile fun e => isRecord address e.1) ↔
      e ∈ db.entries ∧ Reached db address e.1 := by
  obtain ⟨sorted, entries⟩ := Store.seek_some _ found
  rw [mem_takeWhile_iff (fun e => isRecord address e.1) sorted]
  constructor
  · rintro ⟨member, above⟩
    obtain ⟨stored, below⟩ := (entries e).mp member
    refine ⟨stored, ⟨e, stored, rfl⟩, below, ?_⟩
    exact fun e' stored' from_ below' => above e' ((entries e').mpr ⟨stored', below'⟩) from_
  · rintro ⟨stored, -, below, above⟩
    refine ⟨(entries e).mpr ⟨stored, below⟩, ?_⟩
    intro e' member from_
    obtain ⟨stored', below'⟩ := (entries e').mp member
    exact above e' stored' from_ below'

/-- A reached entry under a key of a mail of the address is what that mail has stored. -/
private theorem reached_entry (distinct : mails.Pairwise fun m m' => m.id ≠ m'.id)
    (from_ : StoredFrom mails db) {e : Bytes × Bytes} {m : Mail} (stored : e ∈ db.entries)
    (reached : Reached db address e.1) (member : m ∈ mails) (own : m.recipient = address)
    (key_ : e.1 ∈ m.keys) : plain underscore address = true ∧ e ∈ m.records := by
  subst own
  obtain ⟨-, below, above⟩ := reached
  have record := above e stored le_rfl below
  obtain ⟨socketId, serial, field, read⟩ := (isRecord_iff _ _).mp record
  have plain_ := (parts_first underscore read nofun).1
  refine ⟨plain_, ?_⟩
  rcases (m.mem_keys e.1).mp key_ with ⟨name, name_, same⟩ | same
  · have other : m.id ≠ sentinelId := by
      rw [same] at below
      exact (m.lt_sentinel_iff name).mp below
    -- no other mail has stored under this key
    rcases from_ e stored with empty | ⟨m', member', written⟩
    · rw [empty] at record
      cases record
    · have own_ := m.components_fieldKey plain_ name (field_unmarked name_)
      rw [← same] at own_
      have recipient := m.recipient_of_read m' (key_of written) own_
      have ids := m.id_of_key rfl recipient plain_ key_ (key_of written) below
      obtain rfl := mail_unique mails distinct member member' ids
      exact (m.mem_records_iff other e).mpr ⟨written, below⟩
  · rw [same] at below
    exact absurd below (lt_irrefl _)

/-- A field of a mail of the address that is reached is there as it was stored. -/
private theorem reached_field (distinct : mails.Pairwise fun m m' => m.id ≠ m'.id)
    (from_ : StoredFrom mails db) {m : Mail} (member : m ∈ mails) (own : m.recipient = address)
    {field : Bytes} (name : field ∈ mailFields)
    (reached : Reached db address (fieldKey address m.email.socketId m.email.serial field)) :
    plain underscore address = true ∧ ∃ value,
      (fieldKey address m.email.socketId m.email.serial field, value) ∈ db.entries ∧
        (fieldKey address m.email.socketId m.email.serial field, value) ∈ m.records := by
  obtain ⟨e, stored, same⟩ := reached.1
  have key_ : e.1 ∈ m.keys := (m.mem_keys _).mpr (.inl ⟨field, name, by rw [same, own]⟩)
  rw [← same] at reached ⊢
  obtain ⟨plain_, record⟩ := reached_entry distinct from_ stored reached member own key_
  exact ⟨plain_, e.2, stored, record⟩

/-- From a settled snapshot a search hands over mails as they were stored. -/
private theorem delivered_settled (distinct : mails.Pairwise fun m m' => m.id ≠ m'.id)
    (from_ : StoredFrom mails db) (settled : Settled mails db address) :
    ∃ inbox : List Mail, (∀ m ∈ inbox, m ∈ mails) ∧
      delivered db address = inbox.map Mail.shown := by
  rw [delivered]
  cases found : db.seek (sentinel address) with
  | none => exact ⟨[], by simp, rfl⟩
  | some scan =>
    have apart : ¬ ∀ e ∈ db.entries, e.1 < sentinel address := by
      intro below
      rw [(db.seek_none _).mpr below] at found
      cases found
    have settled := settled.resolve_left apart
    -- the mails the scan reads, in its order
    let read : List Mail := mails.filter fun m => ∀ field ∈ mailFields,
      Reached db address (fieldKey address m.email.socketId m.email.serial field)
    obtain ⟨inbox, perm, order⟩ := sorted_inbox read address (distinct.filter _)
    have members : ∀ m, m ∈ inbox ↔ m ∈ mails ∧ m.recipient = address ∧ ∀ field ∈ mailFields,
        Reached db address (fieldKey address m.email.socketId m.email.serial field) := by
      intro m
      rw [perm.mem_iff, List.mem_filter, List.mem_filter, decide_eq_true_eq, decide_eq_true_eq,
        and_assoc, and_comm (a := m.recipient = address)]
    refine ⟨inbox, fun m member => ((members m).mp member).1, ?_⟩
    apply foundMails_records (Store.seek_some _ found).1 order
    · exact fun m member => ((members m).mp member).2.1
    · intro m member
      obtain ⟨stored, own, all⟩ := (members m).mp member
      have subject : ascii "subject" ∈ mailFields := List.mem_cons_self ..
      exact (reached_field distinct from_ stored own subject (all _ subject)).1
    · intro e
      rw [mem_read_iff_reached found]
      constructor
      · rintro ⟨stored, reached⟩
        obtain ⟨m, member, own, key_, all⟩ := settled e stored reached
        exact ⟨m, (members m).mpr ⟨member, own, all⟩,
          (reached_entry distinct from_ stored reached member own key_).2⟩
      · rintro ⟨m, member, record⟩
        obtain ⟨stored, own, all⟩ := (members m).mp member
        obtain ⟨field, name, same⟩ := m.record_field record
        rw [own] at same
        -- the mail has one entry under the key, and it is the one in the snapshot
        obtain ⟨-, value, there, record'⟩ :=
          reached_field distinct from_ stored own name (all field name)
        have one := m.entry_unique (m.record_entry record) (m.record_entry record') same
        rw [← one] at there
        exact ⟨there, same ▸ all field name⟩

end Snapshot

/-! ### The writes of a mail -/

private theorem MailEnd.writes_mail (e : MailEnd) {m : Mail} (present : e.mail = some m) :
    e.writes = (handleEmail m.socket).2 := by
  have first : m.email.recipients.head? = some m.recipient := by rw [m.addressed]; rfl
  have holds := e.holds
  rw [present, Option.map_some] at holds
  simp only [MailEnd.writes, handleEmail, holds, Mail.socket, SMEmail.dbprefix, first,
    List.head?_cons, Option.map_some]
  rfl

/-- What is put without a mail goes under the empty key. -/
theorem MailEnd.put_mem (e : MailEnd) {key value : Bytes} (write : .put key value ∈ e.writes) :
    key = [] ∨ ∃ m, e.mail = some m ∧ (key, value) ∈ m.entries := by
  cases mail : e.mail with
  | none =>
    have holds := e.holds
    rw [mail, Option.map_none] at holds
    simp only [MailEnd.writes, handleEmail, holds, List.mem_cons, List.not_mem_nil,
      Write.put.injEq] at write
    left
    tauto
  | some m =>
    rw [e.writes_mail mail] at write
    exact .inr ⟨m, rfl, List.mem_filterMap.mpr ⟨_, write, rfl⟩⟩

private theorem MailEnd.file_mem (e : MailEnd) {m : Mail} (present : e.mail = some m) {path : Bytes}
    (named : pathWithSocketId m.email.socketId m.email.serial = some path) :
    .file path m.email.data ∈ e.writes := by
  have first : m.email.recipients.head? = some m.recipient := by rw [m.addressed]; rfl
  rw [e.writes_mail present]
  simp [handleEmail, Mail.socket, SMEmail.dbprefix, first, storeEmail, named]

/-- Every mail has a file name. -/
private theorem path_some (m : Mail) :
    ∃ path, pathWithSocketId m.email.socketId m.email.serial = some path :=
  pathWithSocketId_some m.socketId m.serial

/-! ### One step -/

section

variable {ι : Type} [DecidableEq ι] {mails : List Mail}

/-- What is written is of the mails, every mail has its file or gets it, and what searches have
still to hand over was stored. -/
structure SharingSound (mails : List Mail) (s : Sharing ι) : Prop where
  coming : ∀ key value, .put key value ∈ s.writes → key = [] ∨ ∃ m ∈ mails, (key, value) ∈ m.entries
  stored : StoredFrom mails s.mDb
  filed : ∀ m ∈ mails, ∀ path, pathWithSocketId m.email.socketId m.email.serial = some path →
    path ∈ s.files ∨ ∃ contents, .file path contents ∈ s.writes
  shown : ∀ i found, some found ∈ s.searches i → ∃ m ∈ mails, Shows found m

omit [DecidableEq ι] in
theorem sound_start (ends : List MailEnd) :
    SharingSound (ends.filterMap MailEnd.mail) (.start ends : Sharing ι) := by
  constructor
  · intro key value write
    obtain ⟨e, member, write⟩ := List.mem_flatMap.mp write
    rcases e.put_mem write with empty | ⟨m, present, entry⟩
    · exact .inl empty
    · exact .inr ⟨m, List.mem_filterMap.mpr ⟨e, member, present⟩, entry⟩
  · rintro e ⟨⟩
  · intro m member path named
    obtain ⟨e, member, present⟩ := List.mem_filterMap.mp member
    exact .inr ⟨_, List.mem_flatMap.mpr ⟨e, member, e.file_mem present named⟩⟩
  · rintro i found ⟨⟩

omit [DecidableEq ι] in
private theorem sound_write (s : Sharing ι) (sound : SharingSound mails s) :
    SharingSound mails s.write := by
  unfold Sharing.write
  split
  · exact sound
  -- the write moves from those to come into the database
  next key value writes split =>
    constructor
    · intro key' value' write
      exact sound.coming key' value' (split ▸ List.mem_cons_of_mem _ write)
    · intro e member
      rcases (s.mDb.mem_put _ _ _).mp member with rfl | ⟨old, -⟩
      · exact sound.coming key value (split ▸ List.mem_cons_self ..)
      · exact sound.stored e old
    · intro m member path named
      rcases sound.filed m member path named with there | ⟨contents, write⟩
      · exact .inl there
      · rw [split] at write
        exact .inr ⟨contents, (List.mem_cons.mp write).resolve_left nofun⟩
    · exact sound.shown
  next path contents writes split =>
    constructor
    · intro key' value' write
      exact sound.coming key' value' (split ▸ List.mem_cons_of_mem _ write)
    · exact sound.stored
    · intro m member path' named
      rcases sound.filed m member path' named with there | ⟨contents', write⟩
      · exact .inl (List.mem_cons_of_mem _ there)
      · rw [split] at write
        rcases List.mem_cons.mp write with same | later
        · obtain ⟨rfl, -⟩ := Write.file.inj same
          exact .inl (List.mem_cons_self ..)
        · exact .inr ⟨contents', later⟩
    · exact sound.shown

/-- Only the calls of one search are new. -/
private theorem sound_searches (s : Sharing ι) (sound : SharingSound mails s) (i : ι)
    (calls : List (Option SMEmail))
    (shown : ∀ found, some found ∈ calls → ∃ m ∈ mails, Shows found m) :
    SharingSound mails { s with searches := Function.update s.searches i calls } := by
  refine ⟨sound.coming, sound.stored, sound.filed, ?_⟩
  intro i' found member
  by_cases same : i' = i
  · rw [same] at member
    simp only [Function.update_self] at member
    exact shown found member
  · simp only [Function.update_of_ne same] at member
    exact sound.shown i' found member

theorem refused_mem {found : Option SMEmail} {left : List (Option SMEmail)} {email : SMEmail}
    (member : some email ∈ refused found left) : some email ∈ found :: left := by
  unfold refused at member
  split at member
  · exact List.mem_cons_of_mem _ member
  · rcases List.mem_cons.mp member with same | last
    · exact same ▸ List.mem_cons_self ..
    · cases List.mem_singleton.mp last

theorem sound_step (distinct : mails.Pairwise fun m m' => m.id ≠ m'.id) (s : Sharing ι)
    (label : SharingStep ι) (sound : SharingSound mails s) (inTime : InTime mails s label) :
    SharingSound mails (s.step label) := by
  cases label with
  | write => exact sound_write s sound
  | search i address =>
    simp only [Sharing.step]
    split
    next idle =>
      apply sound_searches s sound
      intro found member
      -- the snapshot is taken while the mails of the address are settled
      obtain ⟨inbox, stored, given⟩ := delivered_settled distinct sound.stored (inTime idle)
      rw [emailsForAddress_delivered, given] at member
      simp only [List.mem_append, List.mem_map, List.mem_singleton] at member
      rcases member with ⟨_, ⟨m, inside, rfl⟩, same⟩ | last
      · obtain rfl := Option.some.inj same
        exact ⟨m, stored m inside, m.shows⟩
      · cases last
    · exact sound
  | hand i goesOn =>
    simp only [Sharing.step]
    split
    · exact sound
    next found left calls =>
      apply sound_searches s sound
      intro email member
      apply sound.shown i email
      rw [calls]
      split at member
      · exact List.mem_cons_of_mem _ member
      · exact refused_mem member

omit [DecidableEq ι] in
private theorem whole_step (s : Sharing ι) (label : SharingStep ι) (sound : SharingSound mails s)
    (inTime : InTime mails s label) : HandsWhole mails s label := by
  cases label with
  | hand i goesOn =>
    intro found left calls
    obtain ⟨m, member, shows_⟩ := sound.shown i found (calls ▸ List.mem_cons_self ..)
    refine ⟨⟨m, member, shows_⟩, ?_⟩
    obtain ⟨path, named⟩ := path_some m
    obtain ⟨socketId, serial⟩ := Prod.mk.inj shows_.1
    rw [socketId, serial]
    -- its file was written, or else it is still to come
    rcases sound.filed m member path named with there | ⟨contents, write⟩
    · exact ⟨path, there, named⟩
    · rw [← socketId, ← serial] at named
      exact absurd write (inTime found left calls path contents named)
  | _ => trivial

/-! ### Every schedule -/

/-- Searches hand over whole mails in every run in which the snapshots are settled and no mail is
handed over before its file is written. -/
theorem whole_of_inTime (ends : List MailEnd)
    (distinct : (ends.filterMap MailEnd.mail).Pairwise fun m m' => m.id ≠ m'.id)
    (labels : List (SharingStep ι))
    (inTime : Each Sharing.step (InTime (ends.filterMap MailEnd.mail)) (.start ends) labels) :
    Each Sharing.step (HandsWhole (ends.filterMap MailEnd.mail)) (.start ends) labels := by
  apply each_under Sharing.step _ (sound_start ends) inTime
  intro s label sound met
  exact ⟨sound_step distinct s label sound met, whole_step s label sound met⟩

end

def mailEnd (m : Mail) : MailEnd where
  socket := m.socket
  mail := some m
  others := []
  holds := by rw [Option.map_some, ← m.addressed]; rfl

private theorem serial_first : wellFormed serialShape (ascii "000001") = true := by decide

private theorem serial_second : wellFormed serialShape (ascii "000003") = true := by decide

/-- Two mails for `x`. -/
def twoEnds : List MailEnd :=
  [mailEnd (mailFor (ascii "x") (ascii "000001") named_x serial_first),
    mailEnd (mailFor (ascii "x") (ascii "000003") named_x serial_second)]

/-- A search behind both. -/
theorem whole_of_inTime_behind :
    Each Sharing.step (HandsWhole (twoEnds.filterMap MailEnd.mail)) (.start twoEnds)
      (List.replicate 10 .write ++ [.search () (ascii "x"), .hand () true, .hand () true]) := by
  apply whole_of_inTime twoEnds (by decide)
  rw [each_append]
  constructor
  · apply each_always
    intro label member s
    rw [(List.mem_replicate.mp member).2]
    trivial
  · refine ⟨fun _ => by decide +kernel, ?_, ?_, trivial⟩
    -- nothing is left to be written
    all_goals
      intro found left calls path contents named write
      exact absurd (List.ne_nil_of_mem write) (by decide +kernel)

/-- A search that takes its snapshot when the second has only its subject. -/
def halfway : List (SharingStep Unit) :=
  List.replicate 6 .write ++ [.search () (ascii "x")]

theorem half_handed :
    ¬ Each Sharing.step (HandsWhole (twoEnds.filterMap MailEnd.mail)) (.start twoEnds)
      (halfway ++ [.hand () true]) := by
  rw [each_append]
  rintro ⟨-, whole, -⟩
  have calls : (run Sharing.step (.start twoEnds) halfway).searches () =
      some (opened (ascii "x") (ascii "20120807120000000-001.002.003.004-00025") (ascii "000003")
        (ascii "subject") []) ::
          ((run Sharing.step (.start twoEnds) halfway).searches ()).tail := by
    decide +kernel
  obtain ⟨m, -, shows_⟩ := (whole _ _ calls).1
  exact absurd shows_.2.2.2.1 nofun

end Spamass.Web
