import Spamass.App.Inbox
import Spamass.App.Decimals
import Spamass.App.Delivery

/-!
# Serials

`setEmail:` counts the mails of a connection, and also the times there is none any more.
`handleFrom:` prints the count as the serial of the new mail, in six digits or more; the
file and the keys of the mail are named by it.
-/
namespace Spamass.App

open Spamass.Emailz Spamass.Runs

/-- `pathForEmail:mkdir:`. -/
def SMEmail.path (email : SMEmail) : Option Bytes := pathWithSocketId email.socketId email.serial

/-- The serial that `handleFrom:` assigns in this event. -/
def assigned (app : Option SMSocket) : Event → Option Bytes
  | .smtp .mail arg =>
    app.bind fun socket => (handleFrom (stringWithUtf8 arg) socket).email.map SMEmail.serial
  | _ => none

/-- The mail that is completed in this event. -/
def completed (app : Option SMSocket) : Event → Option SMEmail
  | .data _ true =>
    app.bind fun socket => if (handleEmail socket).1.isSome then socket.email else none
  | _ => none

/-- What is seen in the events of a log, in their order. -/
def seen {β : Type} (look : Option SMSocket → Event → Option β) (lower : Bytes → Bytes) :
    Option SMSocket → List Event → List β
  | _, [] => []
  | app, event :: log =>
    (look app event).toList ++ seen look lower (appStep lower app event).1 log

/-- Serials of six digits in ascending order, and for each mail a path and keys of its own. -/
structure OwnSlots (serials : List Bytes) (mails : List SMEmail) : Prop where
  sixDigits : ∀ serial ∈ serials, wellFormed serialShape serial = true
  ascending : serials.Pairwise (· < ·)
  paths : ∀ email ∈ mails, email.path ≠ none
  apart : mails.Pairwise fun email email' =>
    email.path ≠ email'.path ∧ email.dbprefix ≠ email'.dbprefix

/-- A MAIL comes while the next count has six digits. -/
def InWidth (app : Option SMSocket) : Event → Prop
  | .smtp .mail _ => ∀ socket, app = some socket → socket.emailCount < 999999
  | _ => True

/-! ### One event -/

/-- What an event does to the count and to the names of the mail in hand. -/
inductive Counted (socket : SMSocket) : Option SMSocket → Option Bytes → Option SMEmail → Prop
  | mail (email : SMEmail) (serial : email.serial = decimal6 (socket.emailCount + 1))
    (name : email.socketId = socket.socketId) :
    Counted socket (some (socket.setEmail (some email))) (some email.serial) none
  | done : Counted socket (some (socket.setEmail none)) none socket.email
  | kept (socket' : SMSocket) (name : socket'.socketId = socket.socketId)
    (count : socket'.emailCount = socket.emailCount)
    (names : socket'.email.map SMEmail.id = socket.email.map SMEmail.id) :
    Counted socket (some socket') none none
  | raised : Counted socket none none none

private theorem appStep_counted (lower : Bytes → Bytes) (socket : SMSocket) (event : Event) :
    Counted socket (appStep lower (some socket) event).1 (assigned (some socket) event)
      (completed (some socket) event) := by
  cases event with
  | smtp command arg =>
    cases command with
    | mail => exact .mail _ rfl rfl
    | rcpt =>
      refine .kept _ rfl rfl ?_
      rw [handleRcpt, Option.map_map]
      rfl
    | _ => exact .kept _ rfl rfl rfl
  | data payload done =>
    cases done with
    | false =>
      simp only [appStep, appCall, handleData, assigned, completed]
      cases hand : socket.email with
      | none => exact .kept _ rfl rfl rfl
      | some email =>
        dsimp only
        cases readHeader lower email.toHeaderState (stringWithUtf8 payload) with
        | none => exact .raised
        | some h =>
          refine .kept _ rfl rfl ?_
          rw [hand]
          rfl
    | true =>
      -- the end of a mail clears the hand, or raises before that
      have ended : (handleEmail socket).1 = some (socket.setEmail none) ∨
          (handleEmail socket).1 = none := by
        unfold handleEmail
        split
        · exact Or.inl rfl
        · split
          · exact Or.inl rfl
          · exact Or.inr rfl
      simp only [appStep, appCall, assigned, completed, Option.bind_some]
      rcases ended with done | raised
      · rw [done]
        exact .done
      · rw [raised]
        exact .raised
  | _ => exact .kept _ rfl rfl rfl

/-! ### A whole connection -/

/-- The mail in hand has a name of the connection. -/
structure InHand (socketId : Bytes) (socket : SMSocket) (hand : Option Nat) : Prop where
  name : socket.socketId = socketId
  names : socket.email.map SMEmail.id = hand.map fun n => (socketId, decimal6 n)

/-- The serials and the completed mails of a log, as counts. -/
structure Numbers (socketId : Bytes) (count : Nat) (hand : Option Nat) (serials : List Bytes)
    (mails : List SMEmail) (inWidth : Prop) (given done : List Nat) : Prop where
  serials : serials = given.map decimal6
  mails : mails.map SMEmail.id = done.map fun n => (socketId, decimal6 n)
  ascending : given.Pairwise (· < ·)
  later : ∀ n ∈ given, count < n
  among : done.Sublist (hand.toList ++ given)
  width : inWidth ↔ ∀ n ∈ given, n ≤ 999999

private theorem seen_raised (lower : Bytes → Bytes) (log : List Event) :
    seen assigned lower none log = [] ∧ seen completed lower none log = [] ∧
      Each (fun app event => (appStep lower app event).1) InWidth none log := by
  induction log with
  | nil => exact ⟨rfl, rfl, trivial⟩
  | cons event log ih =>
    obtain ⟨serials, mails, each⟩ := ih
    have nothing : assigned none event = none ∧ completed none event = none := by
      cases event with
      | smtp command arg => cases command <;> exact ⟨rfl, rfl⟩
      | data payload done => cases done <;> exact ⟨rfl, rfl⟩
      | _ => exact ⟨rfl, rfl⟩
    have within : InWidth none event := by
      unfold InWidth
      split
      · exact nofun
      · trivial
    refine ⟨?_, ?_, within, each⟩
    · rw [seen, nothing.1]
      exact serials
    · rw [seen, nothing.2]
      exact mails

private theorem inWidth_iff (socket : SMSocket) (event : Event) :
    InWidth (some socket) event ↔
      ∀ serial, assigned (some socket) event = some serial → socket.emailCount < 999999 := by
  unfold InWidth
  split
  next arg =>
    constructor
    · intro within _ _
      exact within socket rfl
    · rintro within _ ⟨⟩
      exact within _ rfl
  next other =>
    refine iff_of_true trivial ?_
    intro serial present
    unfold assigned at present
    split at present
    next arg => exact absurd rfl (other arg)
    · cases present

/-- A new mail takes the next count. -/
private theorem Numbers.assign {socketId : Bytes} {count : Nat} {serials : List Bytes}
    {mails : List SMEmail} {inWidth first : Prop} {given done : List Nat}
    (numbers : Numbers socketId (count + 1) (some (count + 1)) serials mails inWidth given done)
    (width : first ↔ count + 1 ≤ 999999) (hand : Option Nat) :
    Numbers socketId count hand (decimal6 (count + 1) :: serials) mails (first ∧ inWidth)
      ((count + 1) :: given) done := by
  have later : ∀ n ∈ given, count + 1 < n := numbers.later
  refine ⟨?_, numbers.mails, ?_, ?_, ?_, ?_⟩
  · rw [numbers.serials, List.map_cons]
  · exact List.pairwise_cons.mpr ⟨later, numbers.ascending⟩
  · intro n member
    rcases List.mem_cons.mp member with rfl | behind
    · exact Nat.lt_succ_self _
    · exact (Nat.lt_succ_self count).trans (later n behind)
  · exact numbers.among.trans (List.sublist_append_right _ _)
  · rw [numbers.width, width, List.forall_mem_cons]

/-- The end of a mail completes the one in hand, if there is one, and takes a count as well. -/
theorem Numbers.complete {socketId : Bytes} {count : Nat} {hand : Option Nat}
    {serials : List Bytes} {email : Option SMEmail} {mails : List SMEmail} {inWidth : Prop}
    {given done : List Nat}
    (numbers : Numbers socketId (count + 1) none serials mails inWidth given done)
    (names : email.map SMEmail.id = hand.map fun n => (socketId, decimal6 n)) :
    Numbers socketId count hand serials (email.toList ++ mails) inWidth given
      (hand.toList ++ done) := by
  refine ⟨numbers.serials, ?_, numbers.ascending, ?_, ?_, numbers.width⟩
  · rw [List.map_append, List.map_append, numbers.mails, ← Option.toList_map, ← Option.toList_map,
      names]
  · intro n member
    exact (Nat.lt_succ_self count).trans (numbers.later n member)
  · exact (List.Sublist.refl _).append numbers.among

theorem log_numbers (lower : Bytes → Bytes) (socketId : Bytes) (log : List Event)
    (socket : SMSocket) (hand : Option Nat) (inHand : InHand socketId socket hand) :
    ∃ given done, Numbers socketId socket.emailCount hand (seen assigned lower (some socket) log)
      (seen completed lower (some socket) log)
      (Each (fun app event => (appStep lower app event).1) InWidth (some socket) log) given done := by
  -- on the log: the count goes up by one wherever a serial is assigned or a mail is completed
  induction log generalizing socket hand with
  | nil =>
    exact ⟨[], [], rfl, rfl, List.Pairwise.nil, List.forall_mem_nil _, List.nil_sublist _,
      iff_of_true trivial (List.forall_mem_nil _)⟩
  | cons event log ih =>
    have counted := appStep_counted lower socket event
    have width := inWidth_iff socket event
    simp only [seen, Each]
    generalize (appStep lower (some socket) event).1 = after at counted ⊢
    generalize assigned (some socket) event = serial at counted width ⊢
    generalize completed (some socket) event = mail at counted ⊢
    generalize InWidth (some socket) event = within at width ⊢
    have unassigned : serial = none → within := by
      rintro rfl
      rw [width]
      intro _ other
      cases other
    cases counted with
    | mail email serial name =>
      have next : InHand socketId (socket.setEmail (some email)) (some (socket.emailCount + 1)) := by
        refine ⟨inHand.name, ?_⟩
        rw [← inHand.name, ← name, Option.map_some, ← serial]
        rfl
      have here : within ↔ socket.emailCount + 1 ≤ 999999 := by
        rw [width]
        constructor
        · intro all
          exact all _ rfl
        · intro le _ _
          exact le
      obtain ⟨given, done, numbers⟩ := ih _ _ next
      rw [serial]
      exact ⟨_, done, numbers.assign here hand⟩
    | done =>
      have next : InHand socketId (socket.setEmail none) none := ⟨inHand.name, rfl⟩
      obtain ⟨given, done, numbers⟩ := ih _ _ next
      rw [and_iff_right (unassigned rfl)]
      exact ⟨given, _, numbers.complete inHand.names⟩
    | kept socket' name count names =>
      have next : InHand socketId socket' hand :=
        ⟨name.trans inHand.name, names.trans inHand.names⟩
      obtain ⟨given, done, numbers⟩ := ih _ _ next
      rw [count] at numbers
      rw [and_iff_right (unassigned rfl)]
      exact ⟨given, done, numbers⟩
    | raised =>
      obtain ⟨serials, mails, each⟩ := seen_raised lower log
      refine ⟨[], [], ?_, ?_, List.Pairwise.nil, List.forall_mem_nil _, List.nil_sublist _, ?_⟩
      · rw [serials]
        rfl
      · rw [mails]
        rfl
      · exact iff_of_true ⟨unassigned rfl, each⟩ (List.forall_mem_nil _)

/-! ### Slots -/

theorem serial_wellFormed (n : Nat) : wellFormed serialShape (decimal6 n) = true ↔ n ≤ 999999 := by
  have length := decimal6_length n
  rw [wellFormed_iff]
  constructor
  · rintro ⟨six, -⟩
    have fits := length.mp six
    omega
  · intro fits
    refine ⟨length.mpr (by omega), ?_⟩
    rw [decimal6_digits (by omega)]
    exact passes_digits 6 n

theorem serial_lt {m n : Nat} (less : m < n) (fits : n ≤ 999999) : decimal6 m < decimal6 n := by
  rw [decimal6_digits (by omega), decimal6_digits (by omega)]
  exact (digits_lt_iff (by omega) (by omega)).mpr less

/-- Mails with different serials of one length share neither path nor keys. -/
private theorem slots_differ {email email' : SMEmail} (same : email.socketId = email'.socketId)
    (length : email.serial.length = email'.serial.length) (other : email.serial ≠ email'.serial)
    (path : email.path ≠ none) (keys : email.dbprefix ≠ none) :
    email.path ≠ email'.path ∧ email.dbprefix ≠ email'.dbprefix := by
  constructor
  · intro paths
    obtain ⟨there, found⟩ := Option.ne_none_iff_exists'.mp path
    have found' : email'.path = some there := paths.symm.trans found
    unfold SMEmail.path at found found'
    rw [← same] at found'
    exact other (pathWithSocketId_serial found found')
  · intro prefixes
    obtain ⟨front, found⟩ := Option.ne_none_iff_exists'.mp keys
    have found' : email'.dbprefix = some front := prefixes.symm.trans found
    obtain ⟨first, -, rfl⟩ := Option.map_eq_some_iff.mp found
    obtain ⟨first', -, joined⟩ := Option.map_eq_some_iff.mp found'
    -- the serials stand at one place from the end
    have ends := List.append_inj' joined rfl
    exact other (List.append_inj' ends.1 length.symm).2.symm

theorem mem_seen {β : Type} {look : Option SMSocket → Event → Option β} {lower : Bytes → Bytes}
    {app : Option SMSocket} {log : List Event} {b : β} (member : b ∈ seen look lower app log) :
    ∃ app' event, look app' event = some b := by
  induction log generalizing app with
  | nil => cases member
  | cons event log ih =>
    rcases List.mem_append.mp member with here | later
    · exact ⟨app, event, Option.mem_toList.mp here⟩
    · exact ih later

/-- A mail is completed only with a recipient. -/
private theorem dbprefix_completed {app : Option SMSocket} {event : Event} {email : SMEmail}
    (ends : completed app event = some email) : email.dbprefix ≠ none := by
  unfold completed at ends
  split at ends
  · obtain ⟨socket, rfl, here⟩ := Option.bind_eq_some_iff.mp ends
    split at here
    next lives =>
      intro missing
      unfold handleEmail at lives
      rw [here] at lives
      simp [missing] at lives
    · cases here
  · cases ends

/-- Serials of six digits ascend as the counts do. -/
private theorem serials_ascending {counts : List Nat} (fits : ∀ n ∈ counts, n ≤ 999999)
    (ascending : counts.Pairwise (· < ·)) : (counts.map decimal6).Pairwise (· < ·) := by
  rw [List.pairwise_map]
  exact ascending.imp_of_mem fun _ member less => serial_lt less (fits _ member)

/-- A completed mail has the name of the connection, and a serial of six digits. -/
theorem Numbers.named {socketId : Bytes} {count : Nat} {hand : Option Nat} {serials : List Bytes}
    {mails : List SMEmail} {inWidth : Prop} {given done : List Nat}
    (numbers : Numbers socketId count hand serials mails inWidth given done)
    (fits : ∀ n ∈ done, n ≤ 999999) {email : SMEmail} (member : email ∈ mails) :
    email.socketId = socketId ∧ wellFormed serialShape email.serial = true := by
  have named : email.id ∈ done.map fun n => (socketId, decimal6 n) := by
    rw [← numbers.mails]
    exact List.mem_map_of_mem member
  obtain ⟨n, count, same⟩ := List.mem_map.mp named
  obtain ⟨name, serial⟩ := Prod.mk.inj same
  rw [← name, ← serial]
  exact ⟨rfl, (serial_wellFormed n).mpr (fits n count)⟩

/-- On a connection with a proper name every mail gets a slot of its own exactly if no MAIL comes
after the counter has used up six digits. -/
theorem slots_iff_inWidth (lower : Bytes → Bytes) (socketId : Bytes)
    (named : wellFormed socketIdShape socketId = true) (log : List Event) :
    OwnSlots (seen assigned lower (some (SMSocket.init socketId)) log)
        (seen completed lower (some (SMSocket.init socketId)) log) ↔
      Each (fun app event => (appStep lower app event).1) InWidth
        (some (SMSocket.init socketId)) log := by
  have start : InHand socketId (SMSocket.init socketId) none := ⟨rfl, rfl⟩
  obtain ⟨given, done, numbers⟩ := log_numbers lower socketId log _ none start
  rw [numbers.width]
  have among : done.Sublist given := numbers.among
  constructor
  · intro slots n member
    have serial := slots.sixDigits (decimal6 n)
    rw [numbers.serials] at serial
    exact (serial_wellFormed n).mp (serial (List.mem_map_of_mem member))
  · intro width
    have fits : ∀ n ∈ done, n ≤ 999999 := fun n count => width n (among.subset count)
    have names : ∀ email ∈ seen completed lower (some (SMSocket.init socketId)) log,
        email.socketId = socketId ∧ wellFormed serialShape email.serial = true :=
      fun _ member => numbers.named fits member
    have paths : ∀ email ∈ seen completed lower (some (SMSocket.init socketId)) log,
        email.path ≠ none := by
      intro email member missing
      obtain ⟨name, serial⟩ := names email member
      obtain ⟨path, found⟩ := pathWithSocketId_some (name ▸ named) serial
      rw [SMEmail.path, found] at missing
      cases missing
    refine ⟨?_, ?_, paths, ?_⟩
    · rw [numbers.serials]
      intro serial member
      obtain ⟨n, count, rfl⟩ := List.mem_map.mp member
      exact (serial_wellFormed n).mpr (width n count)
    · rw [numbers.serials]
      exact serials_ascending width numbers.ascending
    · have serials : (seen completed lower (some (SMSocket.init socketId)) log).map
          SMEmail.serial = done.map decimal6 := by
        have projected := congrArg (List.map Prod.snd) numbers.mails
        rw [List.map_map, List.map_map] at projected
        exact projected
      have apart := serials_ascending fits (numbers.ascending.sublist among)
      rw [← serials, List.pairwise_map] at apart
      refine apart.imp_of_mem fun {email email'} member member' less => ?_
      obtain ⟨name, serial⟩ := names email member
      obtain ⟨name', serial'⟩ := names email' member'
      obtain ⟨app, event, ends⟩ := mem_seen member
      -- the names are the same and the serials of one length: paths and keys differ there
      apply slots_differ (name.trans name'.symm) _ less.ne (paths email member)
        (dbprefix_completed ends)
      rw [((wellFormed_iff _ _).mp serial).1, ((wellFormed_iff _ _).mp serial').1]

/-! ### The millionth mail -/

def someName : Bytes := ascii "20130101000000000-001.002.003.004-00025"

theorem someName_wellFormed : wellFormed socketIdShape someName = true := by decide +kernel

/-- That many MAIL commands, and a recipient and the end of a mail for the last of them. -/
def manyMails (n : Nat) : List Event :=
  List.replicate n (.smtp .mail (ascii "FROM:<a@b>")) ++
    [.smtp .rcpt (ascii "TO:<c@d>"), .data [] true]

def mailNumber (n : Nat) : SMEmail :=
  { SMEmail.init someName (decimal6 n) (some (ascii "a@b")) with recipients := [ascii "c@d"] }

theorem slots_iff_inWidth_one :
    OwnSlots (seen assigned id (some (SMSocket.init someName)) (manyMails 1))
        (seen completed id (some (SMSocket.init someName)) (manyMails 1)) ↔
      Each (fun app event => (appStep id app event).1) InWidth (some (SMSocket.init someName))
        (manyMails 1) :=
  slots_iff_inWidth id someName someName_wellFormed (manyMails 1)

private theorem manyMails_completed (n count : Nat) (email : Option SMEmail) :
    seen completed id (some ⟨someName, email, count⟩) (manyMails (n + 1)) =
      [mailNumber (count + n + 1)] := by
  induction n generalizing count email with
  | zero => rfl
  | succ n ih =>
    have next := ih (count + 1) (some (SMEmail.init someName (decimal6 (count + 1))
      (some (ascii "a@b"))))
    rw [Nat.add_right_comm count 1 n] at next
    exact next

/-- The millionth mail of a connection has no path. -/
theorem millionth_lost :
    (seen completed id (some (SMSocket.init someName)) (manyMails 1000000)).map SMEmail.path =
        [none] ∧
      ¬OwnSlots (seen assigned id (some (SMSocket.init someName)) (manyMails 1000000))
        (seen completed id (some (SMSocket.init someName)) (manyMails 1000000)) := by
  have mails := manyMails_completed 999999 0 none
  have lost : (mailNumber 1000000).path = none := by decide +kernel
  refine ⟨?_, fun slots => ?_⟩
  · rw [SMSocket.init, mails, List.map_singleton]
    exact congrArg (fun path => [path]) lost
  · refine slots.paths (mailNumber 1000000) ?_ lost
    rw [SMSocket.init, mails]
    exact List.mem_singleton_self _

end Spamass.App
