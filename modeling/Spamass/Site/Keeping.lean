import Spamass.App.Serials
import Spamass.Site.Outcome

/-!
# What was written stays

Every mail has a name of its own, over all connections, and its keys and its file are made
of that name. So no later mail writes where an earlier one has written, in whatever order
the connections take their turns, and what a mail has written is there in every later state
and for every later search.
-/
namespace Spamass.Site

open Spamass.Emailz Spamass.App Spamass.Http Spamass.SortedStore Spamass.Separated Spamass.Runs

/-! ### Writes -/

/-- The second of two writes leaves what the first has written. -/
def Spares : Write → Write → Prop
  | .put key value, .put key' value' => key = key' → value = value'
  | .file path contents, .file path' contents' => path = path' → contents = contents'
  | _, _ => True

def Disk.Holds (d : Disk) : Write → Prop
  | .put key value => (key, value) ∈ d.mDb.entries
  | .file path contents => d.files path = some contents

private theorem Disk.holds_write (d : Disk) (write : Write) : (d.write write).Holds write := by
  cases write with
  | put key value => exact (d.mDb.mem_put key value _).mpr (.inl rfl)
  | file path contents => exact Function.update_self ..

theorem Disk.Holds.write {d : Disk} {write later : Write} (holds : d.Holds write)
    (spares : Spares write later) : (d.write later).Holds write := by
  cases write with
  | put key value =>
    cases later with
    | put key' value' =>
      refine (d.mDb.mem_put key' value' _).mpr ?_
      by_cases same : key = key'
      · left
        rw [same, spares same]
      · exact .inr ⟨holds, same⟩
    | file path contents => exact holds
  | file path contents =>
    cases later with
    | put key value => exact holds
    | file path' contents' =>
      by_cases same : path = path'
      · subst same
        rw [spares rfl]
        exact Function.update_self ..
      · exact (Function.update_of_ne same ..).trans holds

/-- A write is there as long as all that come later spare it. -/
private theorem Disk.holds_after (before : List Write) (write : Write) (later : List Write)
    (spares : ∀ write' ∈ later, Spares write write') :
    (Disk.after (before ++ write :: later)).Holds write := by
  induction later using List.reverseRecOn with
  | nil =>
    rw [Disk.after_snoc]
    exact holds_write ..
  | append_singleton later last ih =>
    have split : before ++ write :: (later ++ [last]) = (before ++ write :: later) ++ [last] := by
      rw [List.append_assoc, List.cons_append]
    rw [split, Disk.after_snoc]
    refine (ih fun write' member => spares write' ?_).write (spares last ?_)
    · exact List.mem_append_left _ member
    · exact List.mem_append_right _ (List.mem_singleton_self last)

/-! ### Keys -/

/-- What stands behind the last mark. -/
private theorem split_last {α : Type} [DecidableEq α] {mark : α} {front front' back back' : List α}
    (unmarked_ : unmarked mark back = true) (unmarked' : unmarked mark back' = true)
    (same : front ++ mark :: back = front' ++ mark :: back') : front = front' ∧ back = back' := by
  have absent : ∀ {text : List α}, unmarked mark text = true → mark ∉ text := by
    intro text unmarked member
    exact absurd (List.all_eq_true.mp unmarked mark member) (by simp)
  rcases List.append_eq_append_iff.mp same with ⟨more, rfl, rest⟩ | ⟨more, rfl, rest⟩
  · cases more with
    | nil => exact ⟨(List.append_nil _).symm, (List.cons.inj rest).2⟩
    | cons first more =>
      obtain ⟨-, rfl⟩ := List.cons.inj rest
      exact absurd (List.mem_append_right _ (List.mem_cons_self ..)) (absent unmarked_)
  · cases more with
    | nil => exact ⟨List.append_nil _, (List.cons.inj rest).2.symm⟩
    | cons first more =>
      obtain ⟨-, rfl⟩ := List.cons.inj rest
      exact absurd (List.mem_append_right _ (List.mem_cons_self ..)) (absent unmarked')

private theorem split_separator {front front' back back' : Bytes}
    (unmarked_ : unmarked underscore back = true) (unmarked' : unmarked underscore back' = true)
    (same : front ++ separator ++ back = front' ++ separator ++ back') :
    front = front' ∧ back = back' := by
  have joined : ∀ front back : Bytes,
      front ++ separator ++ back = (front ++ [underscore]) ++ underscore :: back := by
    intro front back
    rw [List.append_assoc, List.append_assoc]
    rfl
  rw [joined, joined] at same
  obtain ⟨fronts, backs⟩ := split_last unmarked_ unmarked' same
  exact ⟨List.append_cancel_right fronts, backs⟩

/-- A mail is named by its connection and its count there. -/
structure Named (email : SMEmail) : Prop where
  socketId : wellFormed socketIdShape email.socketId = true
  serial : ∃ n, email.serial = decimal6 n

private theorem decimal6_digit (n : Nat) : ∀ b ∈ decimal6 n, isDigit b = true := by
  intro b member
  rcases List.mem_append.mp member with zero | digit
  · rw [List.eq_of_mem_replicate zero]
    rfl
  · exact isDigit_decimal n b digit

private theorem unmarked_digits {text : Bytes} (digits : ∀ b ∈ text, isDigit b = true) :
    unmarked underscore text = true := by
  refine List.all_eq_true.mpr fun b member => bne_iff_ne.mpr ?_
  rintro rfl
  exact absurd (digits _ member) (by decide)

theorem decimal6_value (n : Nat) : (decimal6 n).foldl (fun n b => 10 * n + digitValue b) 0 = n := by
  have zeros : ∀ width : Nat,
      (List.replicate width (48 : UInt8)).foldl (fun n b => 10 * n + digitValue b) 0 = 0 := by
    intro width
    induction width with
    | zero => rfl
    | succ width ih => exact ih
  rw [decimal6, List.foldl_append, zeros, number_decimal]

private theorem decimal6_injective : Function.Injective decimal6 := by
  intro m n same
  rw [← decimal6_value m, same, decimal6_value]

namespace Named

variable {email email' : SMEmail}

private theorem serial_digits (named : Named email) : ∀ b ∈ email.serial, isDigit b = true := by
  obtain ⟨n, serial⟩ := named.serial
  rw [serial]
  exact decimal6_digit n

theorem serial_unmarked (named : Named email) : unmarked underscore email.serial = true :=
  unmarked_digits named.serial_digits

private theorem socketId_length (named : Named email) : email.socketId.length = 39 :=
  ((wellFormed_iff _ _).mp named.socketId).1

theorem socketId_unmarked (named : Named email) : unmarked underscore email.socketId = true :=
  passes_unmarked socketIdShape _ (by decide) named.socketId_length
    ((wellFormed_iff _ _).mp named.socketId).2

/-- The key of a field tells whose it is, and which. -/
theorem fieldKey_inj (named : Named email) (named' : Named email') {first first' field field' : Bytes}
    (member : field ∈ mailFields) (member' : field' ∈ mailFields)
    (same : fieldKey first email.socketId email.serial field =
      fieldKey first' email'.socketId email'.serial field') :
    email.id = email'.id ∧ field = field' := by
  obtain ⟨fronts, field_⟩ := split_separator (field_unmarked member) (field_unmarked member') same
  obtain ⟨fronts, serial⟩ := split_separator named.serial_unmarked named'.serial_unmarked fronts
  obtain ⟨-, socketId⟩ := split_separator named.socketId_unmarked named'.socketId_unmarked fronts
  exact ⟨Prod.ext socketId serial, field_⟩

theorem fieldKey_sentinel {first first' socketId serial field : Bytes} (member : field ∈ mailFields) :
    fieldKey first socketId serial field ≠ sentinel first' := by
  intro same
  have last : unmarked underscore (ascii "999999") = true := by decide
  have joined : sentinel first' =
      (first' ++ ascii "__99999999999999999-999.999.999.999-99999") ++ separator ++
        ascii "999999" := by
    rw [List.append_assoc, List.append_assoc]
    rfl
  rw [joined] at same
  obtain ⟨-, rfl⟩ := split_separator (field_unmarked member) last same
  exact absurd member (by decide)

/-- The path of a file tells whose it is. -/
private theorem path_inj (named : Named email) (named' : Named email') {path : Bytes}
    (found : email.path = some path) (found' : email'.path = some path) : email.id = email'.id := by
  have parts : ∀ {email : SMEmail}, Named email → email.path = some path →
      email.serial.length = 6 ∧ ∃ front,
        front ++ email.socketId ++ separator ++ email.serial ++ ascii ".email" = path := by
    intro email named found
    unfold SMEmail.path pathWithSocketId at found
    split at found
    · cases found
    next lengths =>
      split at found
      · refine ⟨?_, _, Option.some.inj found⟩
        rw [← utf16Length_digits _ named.serial_digits]
        exact not_not.mp fun other => lengths (.inr other)
      · cases found
  obtain ⟨length, front, joined⟩ := parts named found
  obtain ⟨length', front', joined'⟩ := parts named' found'
  have same := List.append_cancel_right (joined.trans joined'.symm)
  obtain ⟨same, serial⟩ := List.append_inj' same (length.trans length'.symm)
  obtain ⟨-, socketId⟩ := List.append_inj' (List.append_cancel_right same)
    (named.socketId_length.trans named'.socketId_length.symm)
  exact Prod.ext socketId serial

end Named

/-! ### What a mail writes -/

def textOf (email : SMEmail) (field : Bytes) : Bytes :=
  if field = ascii "subject" then subjectText (email.headers.lookup (ascii "subject"))
  else if field = ascii "sender" then email.sender.getD []
  else decimal email.dataSize

/-- The writes of a mail: its fields under its keys, the mark of the inbox, and its file. -/
inductive MailWrite (email : SMEmail) : Write → Prop
  | field (first field : Bytes) (member : field ∈ mailFields) :
    MailWrite email (.put (fieldKey first email.socketId email.serial field) (textOf email field))
  | mark (first : Bytes) : MailWrite email (.put (sentinel first) (ascii "1"))
  | file (path : Bytes) (found : email.path = some path) : MailWrite email (.file path email.data)

private theorem storeEmail_writes {email : SMEmail} {first : Bytes} {write : Write}
    (member : write ∈ storeEmail email first
      (first ++ separator ++ email.socketId ++ separator ++ email.serial ++ separator)) :
    MailWrite email write := by
  rcases List.mem_append.mp member with entry | file
  · simp only [List.mem_cons, List.not_mem_nil, or_false] at entry
    rcases entry with rfl | rfl | rfl | rfl
    · exact .field first (ascii "subject") (by decide)
    · exact .field first (ascii "sender") (by decide)
    · exact .field first (ascii "size") (by decide)
    · exact .mark first
  · cases found : pathWithSocketId email.socketId email.serial with
    | none =>
      rw [found] at file
      cases file
    | some path =>
      rw [found] at file
      rw [List.mem_singleton.mp file]
      exact .file path found

/-- What an event writes belongs to the mail that it completes, or has no key. -/
private theorem appStep_writes {lower : Bytes → Bytes} {app : Option SMSocket} {event : Event}
    {write : Write} (member : write ∈ (appStep lower app event).2) :
    (∃ value, write = .put [] value) ∨
      ∃ email, completed app event = some email ∧ MailWrite email write := by
  cases app with
  | none => cases member
  | some socket =>
    cases event with
    | smtp command arg => cases command <;> cases member
    | data payload done =>
      cases done with
      | false => cases member
      | true =>
        have written : write ∈ (handleEmail socket).2 := member
        unfold handleEmail at written
        cases hand : socket.email with
        | none =>
          rw [hand] at written
          simp only [List.mem_cons, List.not_mem_nil, or_false] at written
          rcases written with rfl | rfl | rfl | rfl <;> exact .inl ⟨_, rfl⟩
        | some email =>
          rw [hand] at written
          cases first : email.recipients.head? with
          | none =>
            simp only [first] at written
            cases written
          | some recipient =>
            have named : email.dbprefix = some (recipient ++ separator ++ email.socketId ++
                separator ++ email.serial ++ separator) := by
              rw [SMEmail.dbprefix, first]
              rfl
            simp only [first, named] at written
            refine .inr ⟨email, ?_, storeEmail_writes written⟩
            simp [completed, handleEmail, hand, first, named]
    | _ => cases member

theorem MailWrite.keyed {email : SMEmail} {value : Bytes} : ¬MailWrite email (.put [] value) := by
  intro written
  generalize same : Write.put [] value = write at written
  cases written with
  | field first field _ =>
    have empty := congrArg List.length (Write.put.inj same).1
    simp [fieldKey, separator, ascii] at empty
  | mark first =>
    have empty := congrArg List.length (Write.put.inj same).1
    simp [sentinel, ascii] at empty
  | file path _ => cases same

/-- Mails of different names write apart, and one mail writes nothing twice. -/
private theorem MailWrite.spares {email email' : SMEmail} {write write' : Write}
    (written : MailWrite email write) (written' : MailWrite email' write')
    (named : Named email) (named' : Named email') (apart : email.id = email'.id → email = email') :
    Spares write write' := by
  cases written with
  | field first field member =>
    cases written' with
    | field first' field' member' =>
      intro same
      obtain ⟨ids, rfl⟩ := named.fieldKey_inj named' member member' same
      rw [apart ids]
    | mark first' => exact fun same => absurd same (Named.fieldKey_sentinel member)
    | file path found => trivial
  | mark first =>
    cases written' with
    | field first' field' member' => exact fun same => absurd same.symm (Named.fieldKey_sentinel member')
    | mark first' => exact fun _ => rfl
    | file path found => trivial
  | file path found =>
    cases written' with
    | field first' field' member' => trivial
    | mark first' => trivial
    | file path' found' =>
      intro same
      rw [apart (named.path_inj named' found (same ▸ found'))]

/-! ### Names -/

section

variable {lower : Bytes → Bytes} {name : Nat → Bytes}

/-- The mail that a call completes. -/
def mailOf (lower : Bytes → Bytes) (name : Nat → Bytes) (earlier : List (Nat × Event))
    (call : Nat × Event) : Option SMEmail :=
  completed (appRun lower (some (SMSocket.init (name call.1))) (eventsOf call.1 earlier)) call.2

private theorem seen_append {β : Type} (look : Option SMSocket → Event → Option β)
    (app : Option SMSocket) (log log' : List Event) :
    seen look lower app (log ++ log') =
      seen look lower app log ++ seen look lower (appRun lower app log) log' := by
  induction log generalizing app with
  | nil => rfl
  | cons event log ih =>
    rw [List.cons_append, seen, ih, ← List.append_assoc]
    rfl

variable (lower name) in
/-- The mails of a connection have its name, and counts that ascend. -/
private theorem mails_numbered (id : Nat) (log : List Event) :
    ∃ counts : List Nat, counts.Pairwise (· < ·) ∧
      (seen completed lower (some (SMSocket.init (name id))) log).map SMEmail.id =
        counts.map fun n => (name id, decimal6 n) := by
  obtain ⟨given, done, numbers⟩ := log_numbers lower (name id) log (SMSocket.init (name id)) none
    ⟨rfl, rfl⟩
  exact ⟨done, numbers.ascending.sublist numbers.among, numbers.mails⟩

private theorem eventsOf_append (id : Nat) (xs ys : List (Nat × Event)) :
    eventsOf id (xs ++ ys) = eventsOf id xs ++ eventsOf id ys :=
  List.filterMap_append

private theorem mailOf_seen {earlier : List (Nat × Event)} {call : Nat × Event} {email : SMEmail}
    (ends : mailOf lower name earlier call = some email) :
    seen completed lower (some (SMSocket.init (name call.1)))
        (eventsOf call.1 (earlier ++ [call])) =
      seen completed lower (some (SMSocket.init (name call.1))) (eventsOf call.1 earlier) ++
        [email] := by
  have own : eventsOf call.1 (earlier ++ [call]) = eventsOf call.1 earlier ++ [call.2] := by
    rw [eventsOf_snoc, if_pos rfl]
  have completes : completed (appRun lower (some (SMSocket.init (name call.1)))
      (eventsOf call.1 earlier)) call.2 = some email := ends
  rw [own, seen_append, seen, completes]
  rfl

private theorem mailOf_named {earlier : List (Nat × Event)} {call : Nat × Event} {email : SMEmail}
    (shape : wellFormed socketIdShape (name call.1) = true)
    (ends : mailOf lower name earlier call = some email) :
    email.socketId = name call.1 ∧ Named email := by
  obtain ⟨counts, -, mails⟩ := mails_numbered lower name call.1
    (eventsOf call.1 (earlier ++ [call]))
  rw [mailOf_seen ends] at mails
  have member : email.id ∈ counts.map fun n => (name call.1, decimal6 n) := by
    rw [← mails]
    exact List.mem_map_of_mem (List.mem_append_right _ (List.mem_singleton_self email))
  obtain ⟨n, -, same⟩ := List.mem_map.mp member
  obtain ⟨socketId, serial⟩ := Prod.mk.inj same
  exact ⟨socketId.symm, socketId ▸ shape, n, serial.symm⟩

/-- No two mails have one name. -/
private theorem mailOf_apart {earlier mid : List (Nat × Event)} {call call' : Nat × Event}
    (shape : wellFormed socketIdShape (name call.1) = true)
    (shape' : wellFormed socketIdShape (name call'.1) = true)
    (apart : name call.1 = name call'.1 → call.1 = call'.1) {email email' : SMEmail}
    (ends : mailOf lower name earlier call = some email)
    (ends' : mailOf lower name (earlier ++ call :: mid) call' = some email') :
    email.id ≠ email'.id := by
  intro same
  obtain ⟨socketId, -⟩ := mailOf_named shape ends
  obtain ⟨socketId', -⟩ := mailOf_named shape' ends'
  have ids : call.1 = call'.1 :=
    apart (socketId.symm.trans ((congrArg Prod.fst same).trans socketId'))
  -- both are among the mails of one connection, whose counts ascend
  obtain ⟨counts, ascending, mails⟩ := mails_numbered lower name call'.1
    (eventsOf call'.1 ((earlier ++ call :: mid) ++ [call']))
  rw [mailOf_seen ends', ← ids] at mails
  rw [← List.singleton_append, ← List.append_assoc, eventsOf_append, seen_append,
    mailOf_seen ends] at mails
  have differ : (counts.map fun n => (name call.1, decimal6 n)).Pairwise (· ≠ ·) := by
    rw [List.pairwise_map]
    exact ascending.imp fun less pair => less.ne (decimal6_injective (Prod.mk.inj pair).2)
  rw [← mails, List.map_append, List.map_append, List.map_append, List.pairwise_append] at differ
  exact differ.2.2 _ (List.mem_append_left _ (List.mem_append_right _ (List.mem_singleton_self _))) _
    (List.mem_singleton_self _) same

/-! ### Every run -/

/-- Connections that make calls have proper names, each its own. -/
structure ProperNames (name : Nat → Bytes) (calls : List (Nat × Event)) : Prop where
  shapes : ∀ call ∈ calls, wellFormed socketIdShape (name call.1) = true
  apart : ∀ call ∈ calls, ∀ call' ∈ calls, name call.1 = name call'.1 → call.1 = call'.1

private theorem mem_writesFrom {earlier calls : List (Nat × Event)} {write : Write}
    (member : write ∈ writesFrom lower name earlier calls) :
    ∃ mid call later, calls = mid ++ call :: later ∧
      write ∈ callWrites lower name (earlier ++ mid) call := by
  induction calls generalizing earlier with
  | nil => cases member
  | cons call calls ih =>
    rcases List.mem_append.mp member with here | behind
    · exact ⟨[], call, calls, rfl, (List.append_nil earlier).symm ▸ here⟩
    · obtain ⟨mid, call', later, rfl, member'⟩ := ih behind
      refine ⟨call :: mid, call', later, rfl, ?_⟩
      rw [List.append_cons]
      exact member'

/-- What comes behind the writes of a mail spares them. -/
private theorem later_spares {earlier later : List (Nat × Event)} {call : Nat × Event}
    (names : ProperNames name (earlier ++ call :: later)) {email : SMEmail}
    (ends : mailOf lower name earlier call = some email) {write write' : Write}
    (written : MailWrite email write)
    (written' : write' ∈ callWrites lower name earlier call ++
      writesFrom lower name (earlier ++ [call]) later) :
    Spares write write' := by
  have here : call ∈ earlier ++ call :: later := List.mem_append_right _ (List.mem_cons_self ..)
  obtain ⟨-, named⟩ := mailOf_named (names.shapes call here) ends
  have unkeyed : ∀ value, Spares write (.put [] value) := by
    intro value
    cases write with
    | put key value' =>
      rintro rfl
      exact absurd written MailWrite.keyed
    | file path contents => trivial
  rcases List.mem_append.mp written' with own | other
  · rcases appStep_writes own with ⟨value, rfl⟩ | ⟨email', ends', mail⟩
    · exact unkeyed value
    · obtain rfl := Option.some.inj (ends'.symm.trans ends)
      exact written.spares mail named named fun _ => rfl
  · obtain ⟨mid, call', last, rfl, member⟩ := mem_writesFrom other
    rcases appStep_writes member with ⟨value, rfl⟩ | ⟨email', ends', mail⟩
    · exact unkeyed value
    · have behind : mailOf lower name (earlier ++ call :: mid) call' = some email' := by
        rw [List.append_cons]
        exact ends'
      have there : call' ∈ earlier ++ call :: (mid ++ call' :: last) := by simp
      have shape := names.shapes call' there
      obtain ⟨-, named'⟩ := mailOf_named shape behind
      have apart := mailOf_apart (names.shapes call here) shape (names.apart call here call' there)
        ends behind
      exact written.spares mail named named' fun same => absurd same apart

end

section

variable {μ : Type} (messages : Messages μ) (lower : Bytes → Bytes) (env : Nat → Env)
  (name : Nat → Bytes)

/-- What a mail has written under its first recipient and into its file. -/
structure Disk.Keeps (d : Disk) (email : SMEmail) (first : Bytes) : Prop where
  field : ∀ field ∈ mailFields,
    (fieldKey first email.socketId email.serial field, textOf email field) ∈ d.mDb.entries
  mark : (sentinel first, ascii "1") ∈ d.mDb.entries
  file : ∀ path, email.path = some path → d.files path = some email.data

private theorem Disk.keeps_of_holds {d : Disk} {email : SMEmail} {first : Bytes}
    (holds : ∀ write ∈ storeEmail email first
      (first ++ separator ++ email.socketId ++ separator ++ email.serial ++ separator),
      d.Holds write) : d.Keeps email first := by
  refine ⟨fun field member => ?_, ?_, fun path found => ?_⟩
  · simp only [mailFields, List.mem_cons, List.not_mem_nil, or_false] at member
    rcases member with rfl | rfl | rfl
    · exact holds (.put _ _) (List.mem_append_left _ (.head _))
    · exact holds (.put _ _) (List.mem_append_left _ (.tail _ (.head _)))
    · exact holds (.put _ _) (List.mem_append_left _ (.tail _ (.tail _ (.head _))))
  · exact holds (.put _ _) (List.mem_append_left _ (.tail _ (.tail _ (.tail _ (.head _)))))
  · refine holds (.file path email.data) (List.mem_append_right _ ?_)
    have path_ : pathWithSocketId email.socketId email.serial = some path := found
    rw [path_]
    exact List.mem_singleton_self _

/-- A mail is completed with a first recipient, under whom it is stored. -/
private theorem callWrites_mail {lower : Bytes → Bytes} {name : Nat → Bytes}
    {earlier : List (Nat × Event)} {call : Nat × Event} {email : SMEmail}
    (ends : mailOf lower name earlier call = some email) :
    ∃ first, email.recipients.head? = some first ∧
      callWrites lower name earlier call = storeEmail email first
        (first ++ separator ++ email.socketId ++ separator ++ email.serial ++ separator) := by
  unfold callWrites
  unfold mailOf completed at ends
  generalize appRun lower (some (SMSocket.init (name call.1))) (eventsOf call.1 earlier) = app
    at ends ⊢
  generalize call.2 = event at ends ⊢
  split at ends
  · obtain ⟨socket, rfl, here⟩ := Option.bind_eq_some_iff.mp ends
    split at here
    next lives =>
      cases first : email.recipients.head? with
      | none => simp [handleEmail, here, first] at lives
      | some recipient =>
        refine ⟨recipient, rfl, ?_⟩
        simp [appStep, appCall, handleEmail, here, SMEmail.dbprefix, first]
    · cases here
  · cases ends

/-- What the end of a mail has written is not overwritten by any mail of any connection: every
front of the writes that includes it keeps it, so the disk does, and so does every snapshot that a
search takes from then on. -/
theorem mails_kept (labels : List Label)
    (names : ProperNames name (reached messages lower env name labels).calls)
    {earlier later : List (Nat × Event)} {call : Nat × Event} {email : SMEmail}
    (calls : (reached messages lower env name labels).calls = earlier ++ call :: later)
    (ends : mailOf lower name earlier call = some email) {front : List Write}
    (made : front <+: (reached messages lower env name labels).made)
    (spent : writesOf lower name (earlier ++ [call]) <+: front) :
    ∃ first, email.recipients.head? = some first ∧ (Disk.after front).Keeps email first := by
  have mailed : Mailed lower name (reached messages lower env name labels) :=
    mailed_run (mailed_start messages lower name) labels
  have written := made.trans (List.prefix_append _ (reached messages lower env name labels).writes)
  have whole : writesOf lower name (earlier ++ call :: later) =
      writesOf lower name (earlier ++ [call]) ++ writesFrom lower name (earlier ++ [call]) later := by
    rw [List.append_cons]
    exact writesFrom_append [] (earlier ++ [call]) later
  obtain ⟨more, rfl⟩ := spent
  rw [calls] at names
  rw [mailed.writes, calls, whole, List.prefix_append_right_inj] at written
  obtain ⟨first, recipient, stores⟩ := callWrites_mail ends
  refine ⟨first, recipient, Disk.keeps_of_holds fun write member => ?_⟩
  obtain ⟨before, after, stored⟩ := List.append_of_mem member
  have split : writesOf lower name (earlier ++ [call]) ++ more =
      (writesOf lower name earlier ++ before) ++ write :: (after ++ more) := by
    rw [writesOf_snoc, stores, stored]
    simp only [List.append_assoc, List.cons_append]
  rw [split]
  refine Disk.holds_after _ _ _ fun write' behind => ?_
  have among : write' ∈ callWrites lower name earlier call ++
      writesFrom lower name (earlier ++ [call]) later := by
    rcases List.mem_append.mp behind with own | other
    · rw [stores, stored]
      exact List.mem_append_left _ (List.mem_append_right _ (List.mem_cons_of_mem _ own))
    · exact List.mem_append_right _ (written.subset other)
  exact later_spares names ends (storeEmail_writes member) among

end

/-! ### Two deliveries -/

/-- The delivery, and the same mail once more on the same connection. -/
def deliveries : List Label := delivery ++ delivery.drop 2

/-- The calls of the delivery before its last. -/
def begun : List (Nat × Event) :=
  [(0, .smtp .mail (ascii "FROM:<a@b>\r\n")), (0, .smtp .rcpt (ascii "TO:<c@d>\r\n")),
    (0, .data (ascii "Subject: hi\r\n") false), (0, .data (ascii "\r\n") false)]

def deliveredMail : SMEmail where
  headers := [(ascii "Subject", .one (ascii "hi"))]
  lastHeader := some (ascii "Subject")
  isInHeaders := false
  sender := some (ascii "a@b")
  recipients := [ascii "c@d"]
  socketId := someName
  serial := ascii "000001"
  dataSize := 15
  data := ascii "Subject: hi\r\n\r\n"

private theorem deliveries_calls :
    (reached lineMessages id granted oneName deliveries).calls =
        begun ++ (0, .data [] true) :: (begun ++ [(0, .data [] true)]) ∧
      mailOf id oneName begun (0, .data [] true) = some deliveredMail ∧
      writesOf id oneName (begun ++ [(0, .data [] true)]) <+:
        (reached lineMessages id granted oneName deliveries).made ∧
      (reached lineMessages id granted oneName deliveries).made.length = 10 := by
  decide +kernel

private theorem deliveries_names :
    ProperNames oneName (reached lineMessages id granted oneName deliveries).calls := by
  have own : ∀ call ∈ begun ++ (0, .data [] true) :: (begun ++ [(0, Event.data [] true)]),
      call.1 = 0 := by decide
  rw [deliveries_calls.1]
  refine ⟨fun _ _ => someName_wellFormed, fun call member call' member' _ => ?_⟩
  rw [own call member, own call' member']

/-- The first mail is there when the second one has been written as well. -/
theorem mails_kept_delivery :
    (reached lineMessages id granted oneName deliveries).made.length = 10 ∧
      ∃ first, deliveredMail.recipients.head? = some first ∧
        (Disk.after (reached lineMessages id granted oneName deliveries).made).Keeps deliveredMail
          first := by
  obtain ⟨calls, ends, spent, count⟩ := deliveries_calls
  exact ⟨count, mails_kept lineMessages id granted oneName deliveries deliveries_names calls ends
    (List.prefix_refl _) spent⟩

end Spamass.Site
