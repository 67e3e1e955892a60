import Spamass.App.Serials
import Spamass.Site.Pages

/-!
# What a run of the application comes to

Over every order of the steps: what is on the disk was written by the calls that were made,
and those of a connection are what its lines owe. A page is the one of its request, from
the files and the database that some front of these writes has made.
-/
namespace Spamass.Site

open Spamass.Emailz Spamass.App Spamass.Web Spamass.Chunked Spamass.Http Spamass.SortedStore
  Spamass.Runs

section

variable {μ : Type} {messages : Messages μ} {lower : Bytes → Bytes} {env : Nat → Env}
  {name : Nat → Bytes} {s : Server μ}

/-! ### The mails -/

private theorem mailed_step (mailed : Mailed lower name s) (label : Label) :
    Mailed lower name (s.step messages lower env name label) := by
  unfold Server.step
  by_cases crashed : s.crashed = true
  · rw [if_pos crashed]
    exact mailed
  · have running : s.crashed = false := Bool.eq_false_iff.mpr crashed
    rw [if_neg crashed]
    have leaves : ∀ w (label : HTTPConnection.Label), Mailed lower name
        (s.webStep messages lower w label) :=
      fun w label => mailed.leaves rfl rfl rfl rfl rfl rfl fun _ => running
    cases label with
    | mail label =>
      cases label with
      | run =>
        dsimp only
        split
        next idle => exact mailed.runNext running idle
        · exact mailed
      | accept => exact mailed.mail _ nofun
      | read => exact mailed.mail _ nofun
      | stop => exact mailed.mail _ nofun
      | cleanup => exact mailed.mail _ nofun
      | destroy => exact mailed.mail _ nofun
    | write => exact mailed.write
    | received w data => exact leaves w _
    | wrote w => exact leaves w _
    | hangUp w => exact leaves w _
    | run w snapshot texts date => exact mailed.leaves rfl rfl rfl rfl rfl rfl fun _ => running
    | begin w id =>
      dsimp only
      split
      · exact mailed.leaves rfl rfl rfl rfl rfl rfl fun _ => running
      · exact mailed
    | call w id =>
      dsimp only
      split
      · exact leaves w _
      · exact mailed

theorem mailed_run (mailed : Mailed lower name s) (labels : List Label) :
    Mailed lower name (run (Server.step messages lower env name) s labels) := by
  induction labels generalizing s with
  | nil => exact mailed
  | cons label labels ih => exact ih (mailed_step mailed label)

/-! ### The pages -/

/-- What a web connection has replied stays. -/
private theorem step_replied (s : Server μ) (label : Label) (w : Nat) :
    (s.web w).replies <+: ((s.step messages lower env name label).web w).replies := by
  have one : ∀ w' (label : HTTPConnection.Label),
      (s.web w).replies <+: ((s.webStep messages lower w' label).web w).replies := by
    intro w' label
    show _ <+: (Function.update s.web w' _ w).replies
    by_cases same : w = w'
    · subst same
      rw [Function.update_self]
      exact HTTPConnection.step_replies (s.web w) label
    · rw [Function.update_of_ne same]
  have leaves : ∀ {s' : Server μ}, LeavesConnection s s' w → (s.web w).replies <+: (s'.web w).replies :=
    fun leaves => leaves.web ▸ List.prefix_refl _
  unfold Server.step
  split
  · exact List.prefix_refl _
  cases label with
  | mail label =>
    cases label with
    | run =>
      dsimp only
      split
      · exact leaves (runNext_leaves s w)
      · exact List.prefix_refl _
    | accept => exact List.prefix_refl _
    | read => exact List.prefix_refl _
    | stop => exact List.prefix_refl _
    | cleanup => exact List.prefix_refl _
    | destroy => exact List.prefix_refl _
  | write => exact leaves (write_leaves s w)
  | received w' data => exact one w' _
  | wrote w' => exact one w' _
  | hangUp w' => exact one w' _
  | run w' snapshot texts date => exact one w' _
  | begin w' id =>
    dsimp only
    split <;> exact List.prefix_refl _
  | call w' id =>
    dsimp only
    split
    · exact one w' _
    · exact List.prefix_refl _

private theorem run_replied (s : Server μ) (labels : List Label) (w : Nat) :
    (s.web w).replies <+:
      ((run (Server.step messages lower env name) s labels).web w).replies := by
  induction labels generalizing s with
  | nil => exact List.prefix_refl _
  | cons label labels ih => exact (step_replied s label w).trans (ih _)

private theorem sound_run {w : Nat} (sound : ServerSound messages lower name s w) (labels : List Label)
    (fitsPage : ∀ reply ∈ ((run (Server.step messages lower env name) s labels).web w).replies,
      reply.FitsPage) :
    ServerSound messages lower name (run (Server.step messages lower env name) s labels) w := by
  induction labels generalizing s with
  | nil => exact sound
  | cons label labels ih =>
    refine ih (sound_step sound label fun reply member => fitsPage reply ?_) fitsPage
    exact (run_replied (s.step messages lower env name label) labels w).subset member

/-- Of the database only a search looks, and a search has always something to call. -/
private theorem searchOf_same {now now' : Instant} {uri : Bytes} {response : SearchResponse}
    (same : (HTTPConnection.searchOf lower now uri response).calls = [] ∨ now.mDb = now'.mDb) :
    HTTPConnection.searchOf lower now' uri response =
      HTTPConnection.searchOf lower now uri response := by
  rcases same with missing | same
  · unfold HTTPConnection.searchOf at missing ⊢
    dsimp only at missing
    split at missing
    · rfl
    next address _ =>
      split at missing
      next unnamed => simp only [if_pos unnamed]
      next named =>
        rw [emailsForAddress_delivered] at missing
        exact absurd missing (by simp)
  · unfold HTTPConnection.searchOf
    rw [same]

theorem pageOf_searched {now : Instant} {uri : Bytes} {response : SearchResponse} {mDb : Database}
    (made : responseWithPath lower now.files now.texts uri = .value response)
    (same : (HTTPConnection.searchOf lower now uri response).calls = [] ∨ now.mDb = mDb) :
    pageOf lower now.files now.texts mDb uri =
      some (searched (HTTPConnection.searchOf lower now uri response)).response.dataBuffer := by
  unfold pageOf
  rw [made]
  dsimp only
  rw [searchOf_same same]

end

section

variable {μ : Type} (messages : Messages μ) (lower : Bytes → Bytes) (env : Nat → Env)
  (name : Nat → Bytes)

/-- The whole of a run of the application. -/
abbrev reached (labels : List Label) : Server μ :=
  run (Server.step messages lower env name) (Server.start messages) labels

/-- What is on the disk was written by the calls that were made, in their order, and the calls of a
mail connection are what its lines owe since it has its handlers. -/
theorem written_by_lines (labels : List Label) :
    (reached messages lower env name labels).disk =
        Disk.after (reached messages lower env name labels).made ∧
      (reached messages lower env name labels).made ++
          (reached messages lower env name labels).writes =
        writesOf lower name (reached messages lower env name labels).calls ∧
      (∀ id c, (reached messages lower env name labels).world.connections id = some c →
        eventsOf id (reached messages lower env name labels).calls <+:
          owed (Phase.command.after (linesOf c.early)) (linesOf c.late)) ∧
      ∀ id, (reached messages lower env name labels).world.connections id = none →
        eventsOf id (reached messages lower env name labels).calls = [] := by
  have mailed : Mailed lower name (reached messages lower env name labels) :=
    mailed_run (mailed_start messages lower name) labels
  refine ⟨mailed.disk, mailed.writes, fun id c here => ?_, mailed.unborn⟩
  rw [← (mailed.tied id c here).calls, ← (mailed.books id c here).accounts, List.append_assoc]
  exact List.prefix_append ..

/-- A page that is read as a whole is the one of its request, from the files and the database that
some front of the writes has made. -/
theorem pages_of_writes (labels : List Label) (w : Nat)
    (fitsPage : ∀ reply ∈ ((reached messages lower env name labels).web w).replies, reply.FitsPage)
    (running : ((reached messages lower env name labels).web w).crashed = false)
    {past later : List Http.Reply} {head : Bytes} {id : Nat} {start : Serving}
    (split : ((reached messages lower env name labels).web w).replies =
      past ++ .page head id start :: later)
    (spent : later ≠ [] ∨
      (((reached messages lower env name labels).web w).responses id).response.isDone = true) :
    ∃ asked now m asked', ∃ early front : List Write, ∃ rest text : Bytes,
      ((reached messages lower env name labels).heard w).asked =
          asked ++ .request now m :: asked' ∧
        asked.length = past.length ∧
        early <+: front ∧ front <+: (reached messages lower env name labels).made ∧
        pageOf lower (Disk.after early).files now.texts (Disk.after front).mDb
          (messages.requestURI m) = some text ∧
        ((reached messages lower env name labels).web w).wire =
          past.flatMap (Reply.bytes ((reached messages lower env name labels).web w).responses) ++
            (head ++ rest) ∧
        decode rest = some (text,
          later.flatMap (Reply.bytes ((reached messages lower env name labels).web w).responses)) := by
  have sound : ServerSound messages lower name (reached messages lower env name labels) w :=
    sound_run (sound_start w) labels fitsPage
  generalize reached messages lower env name labels = s at sound fitsPage running split spent ⊢
  have served := sound.served
  obtain ⟨rest, wire, read⟩ := served.orderly.page split spent
  have sourced := served.sourced running
  rw [split] at sourced
  have fronts := List.forall₂_take_append _ _ _ sourced
  have backs := List.forall₂_drop_append _ _ _ sourced
  obtain ⟨ask, asked', source, -, asks⟩ := List.forall₂_cons_right_iff.mp backs
  obtain ⟨reply, -, snapshot, ⟨early, before, files, later_⟩, waiting⟩ := source head id start rfl
  obtain ⟨-, now, m, response, rfl, made, rfl⟩ := replyTo_page reply
  have done := served.orderly.done split spent
  have member : .page head id (HTTPConnection.searchOf lower now (messages.requestURI m) response) ∈
      (s.web w).replies := by
    rw [split]
    exact List.mem_append_right _ (List.mem_cons_self ..)
  obtain ⟨frontSent, -⟩ := served.orderly.sound _ member
  have shown : ∃ front, early <+: front ∧ front <+: s.made ∧
      ((HTTPConnection.searchOf lower now (messages.requestURI m) response).calls = [] ∨
        now.mDb = (Disk.after front).mDb) := by
    cases begun : s.begun w id with
    | true =>
      obtain ⟨front, more, made_, seen⟩ := later_ begun
      exact ⟨front, more, made_, .inr (snapshot.trans seen)⟩
    | false => exact ⟨early, List.prefix_refl _, before,
        .inl ((waiting begun).symm.trans (frontSent.calls_done done))⟩
  obtain ⟨front, more, made_, same⟩ := shown
  have page := pageOf_searched made same
  have now_files : now.files = (Disk.after early).files := files
  rw [now_files] at page
  refine ⟨(s.heard w).asked.take past.length, now, m, asked', early, front, rest, _, ?_,
    fronts.length_eq, more, made_, page, wire, read⟩
  rw [← asks]
  exact (List.take_append_drop past.length _).symm

end

/-! ### A mail, and a visit that looks for it -/

def conversation : Bytes :=
  ascii "MAIL FROM:<a@b>\r\nRCPT TO:<c@d>\r\nDATA\r\nSubject: hi\r\n\r\n.\r\n"

/-- A connection is accepted, its calls are made, and its mail is written. -/
def delivery : List Label :=
  [.mail (.accept 3 1344297600000 false true), .mail .run,
    .mail (.read 0 ⟨false, some (plainRead conversation), false, 1344297600000, 1344297600000⟩)] ++
  List.replicate 5 (.mail .run) ++ List.replicate 5 .write

def granted (_ : Nat) : Env := .granted

def oneName (_ : Nat) : Bytes := someName

def noTexts : MainTexts := ⟨[], [], [], []⟩

def block : Label := .run 0 .empty noTexts []

/-- A search for the recipient, which begins once the mail is written. -/
def lookup : List Label :=
  [.received 0 (ascii "GET /s?e=c@d HTTP/1.1\r\n"), block, .received 0 newline,
    .run 0 (reached lineMessages id granted oneName delivery).disk.mDb noTexts [], .begin 0 0,
    .call 0 0, .call 0 0] ++
  List.replicate 8 block ++ List.replicate 12 (.wrote 0) ++ List.replicate 12 block

private theorem lookup_page :
    ((reached lineMessages id granted oneName (delivery ++ lookup)).web 0).replies =
        [] ++ .page (pageHead lineMessages ⟨fun _ => none, noTexts, .empty, []⟩) 0
          (Serving.start (reached lineMessages id granted oneName delivery).disk.mDb
            (ascii "c@d")) :: [] ∧
      ((reached lineMessages id granted oneName (delivery ++ lookup)).web 0).crashed = false ∧
      (((reached lineMessages id granted oneName (delivery ++ lookup)).web 0).responses
        0).response.isDone = true := by
  decide +kernel

private theorem lookup_fitsPage :
    ∀ reply ∈ ((reached lineMessages id granted oneName (delivery ++ lookup)).web 0).replies,
      reply.FitsPage := by
  rw [lookup_page.1]
  decide +kernel

theorem pages_of_writes_lookup :
    ∃ asked now m asked', ∃ early front : List Write, ∃ rest text : Bytes,
      ((reached lineMessages id granted oneName (delivery ++ lookup)).heard 0).asked =
          asked ++ .request now m :: asked' ∧
        asked.length = 0 ∧ early <+: front ∧
        front <+: (reached lineMessages id granted oneName (delivery ++ lookup)).made ∧
        pageOf id (Disk.after early).files now.texts (Disk.after front).mDb
          (lineMessages.requestURI m) = some text ∧
        ((reached lineMessages id granted oneName (delivery ++ lookup)).web 0).wire =
          pageHead lineMessages ⟨fun _ => none, noTexts, .empty, []⟩ ++ rest ∧
        decode rest = some (text, []) := by
  have page := pages_of_writes lineMessages id granted oneName (delivery ++ lookup) 0 lookup_fitsPage
    lookup_page.2.1 lookup_page.1 (.inr lookup_page.2.2)
  simp only [List.length_nil, List.flatMap_nil, List.nil_append] at page
  exact page

end Spamass.Site
