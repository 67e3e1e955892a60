import Spamass.Http.Exchange

/-!
# What a client gets

Over every run of a connection whose searches find what fits on a page: each request is
answered, in their order; a client that reads the body of a page gets the page and is then
at the next head; and a connection that has nothing left to do has sent all it had to and
reads the next request.
-/
namespace Spamass.Http

open Spamass.Emailz Spamass.App Spamass.Web Spamass.Chunked Spamass.Runs HTTPConnection

section

variable {μ : Type} (messages : Messages μ) (lower : Bytes → Bytes)

/-! ### Lines -/

def Block.line : Block → Option Bytes
  | .didReadData data => some data
  | _ => none

/-- The line that the socket reads in a step. -/
def read (c : HTTPConnection μ) : HTTPConnection.Label → List Bytes
  | .received data => if c.crashed then [] else if c.connected && c.reading then [data] else []
  | _ => []

/-- The lines that the socket reads in a run. -/
def readBy : HTTPConnection μ → List HTTPConnection.Label → List Bytes
  | _, [] => []
  | c, label :: labels => read c label ++ readBy (c.step messages lower label) labels

/-- What was written, and what waits to be. -/
def HTTPConnection.wire (c : HTTPConnection μ) : Bytes :=
  c.written ++ (c.writeQueue.map Prod.snd).flatten

/-- The whole of a run. -/
abbrev after (labels : List HTTPConnection.Label) : HTTPConnection μ :=
  run (step messages lower) (HTTPConnection.start messages) labels

variable {messages lower} {c : HTTPConnection μ}

private theorem disconnect_lines (c : HTTPConnection μ) :
    c.disconnect.blocks.filterMap Block.line = c.blocks.filterMap Block.line := by
  unfold HTTPConnection.disconnect
  split
  · rw [List.filterMap_append]
    exact List.append_nil _
  · rfl

private theorem sendChunk_blocks (c : HTTPConnection μ) (id available : Nat) :
    (c.sendChunk id available).blocks = c.blocks := by
  by_cases nothing : nextData (c.responses id).response available = []
  · rw [sendChunk_nothing nothing]
  · exact (sendChunk_sent nothing).blocks

theorem sendResponseHeadersAndBody_blocks (c : HTTPConnection μ) (now : Instant) (method : Bytes)
    (id : Nat) : (c.sendResponseHeadersAndBody messages now method id).blocks = c.blocks := by
  unfold sendResponseHeadersAndBody
  dsimp only
  split
  · rfl
  · rw [sendChunk_blocks]
    rfl

variable (messages lower) in
private theorem doneSendingResponse_lines (c : HTTPConnection μ) (tag : Tag) :
    (c.doneSendingResponse messages lower tag).blocks.filterMap Block.line =
      c.blocks.filterMap Block.line := by
  unfold doneSendingResponse
  dsimp only
  obtain ⟨-, -, -, responses, same⟩ :=
    connectionDidClose_same { c with responseDataSizes := c.responseDataSizes.tail }
  rw [same]
  split
  · rw [disconnect_lines]
    rfl
  split
  · rw [disconnect_lines]
    rfl
  · rfl

/-- No block that runs puts a line into the queue. -/
private theorem runBlock_lines (c : HTTPConnection μ) (now : Instant) (block : Block) :
    (c.runBlock messages lower now block).blocks.filterMap Block.line =
      c.blocks.filterMap Block.line := by
  cases block with
  | socketDidDisconnect =>
    obtain ⟨-, -, -, responses, same⟩ := connectionDidClose_same c
    rw [runBlock, die, same]
  | responseHasAvailableData sender =>
    rw [runBlock, responseHasAvailableData]
    split
    · rfl
    split
    · rw [sendResponseHeadersAndBody_blocks]
    · rw [(continue_same c).2.1]
  | didWriteData tag =>
    cases tag with
    | partialResponseHeader => rfl
    | chunkedResponseHeader => rfl
    | chunkedResponseBody => rfl
    | chunkedResponseFooter =>
      rw [runBlock, didWriteData, (continue_same c).2.1]
    | response => exact doneSendingResponse_lines messages lower c .response
    | finalResponse => exact doneSendingResponse_lines messages lower c .finalResponse
  | didReadData data =>
    rw [runBlock, didReadData]
    split
    · rfl
    · dsimp only
      split
      · split
        · exact disconnect_lines _
        · rfl
      split
      · rfl
      split
      · rfl
      unfold replyToHTTPRequest
      dsimp only
      split
      · rfl
      split
      · rfl
      split
      · rfl
      split
      · rfl
      · rw [sendResponseHeadersAndBody_blocks]
        rfl

private theorem call_lines (c : HTTPConnection μ) (id : Nat) :
    (c.call id).blocks.filterMap Block.line = c.blocks.filterMap Block.line := by
  cases calls : (c.responses id).calls with
  | nil => rw [call_nothing calls]
  | cons found left =>
    cases called : searchCallback (c.responses id).response found with
    | none => rw [call_crash calls called]
    | some answer =>
      obtain ⟨response, goesOn⟩ := answer
      rw [call_answer calls called, List.filterMap_append]
      cases goesOn <;> exact List.append_nil _

variable (messages lower) in
/-- A line that is read waits behind the others; what is handled is the first of them. -/
private theorem read_step (c : HTTPConnection μ) (label : HTTPConnection.Label) :
    c.blocks.filterMap Block.line ++ read c label =
      (handled c label).toList.map Prod.snd ++
        (c.step messages lower label).blocks.filterMap Block.line := by
  unfold handled HTTPConnection.step
  cases crashed : c.crashed with
  | true =>
    rw [if_pos rfl, if_pos rfl]
    have missing : read c label = [] := by
      cases label <;> first | rfl | exact if_pos crashed
    rw [missing, List.append_nil]
    rfl
  | false =>
    rw [if_neg Bool.false_ne_true, if_neg Bool.false_ne_true]
    cases label with
    | received data =>
      rw [read, crashed, if_neg Bool.false_ne_true]
      dsimp only
      split
      · rw [List.filterMap_append]
        rfl
      · exact List.append_nil _
    | wrote =>
      dsimp only
      split
      · rw [List.filterMap_append]
        rfl
      · exact List.append_nil _
    | hangUp =>
      rw [disconnect_lines]
      exact List.append_nil _
    | call id =>
      rw [call_lines]
      exact List.append_nil _
    | run now =>
      dsimp only
      cases blocks : c.blocks with
      | nil =>
        dsimp only
        rw [blocks]
        rfl
      | cons block rest =>
        dsimp only
        rw [runBlock_lines]
        show _ ++ [] = _
        rw [List.append_nil]
        cases block <;> rfl

variable (messages lower) in
/-- The lines that were read are handled in their order, or still wait. -/
private theorem readBy_lines (c : HTTPConnection μ) (labels : List HTTPConnection.Label) :
    c.blocks.filterMap Block.line ++ readBy messages lower c labels =
      (lines messages lower c labels).map Prod.snd ++
        (run (step messages lower) c labels).blocks.filterMap Block.line := by
  induction labels generalizing c with
  | nil => exact List.append_nil _
  | cons label labels ih =>
    rw [readBy, ← List.append_assoc, read_step messages lower,
      List.append_assoc, ih, ← List.append_assoc, ← List.map_append, ← lines]
    rfl

/-! ### What holds in every state -/

namespace HTTPConnection

/-- In front of the last reply all are whole. -/
theorem Orderly.earlier (orderly : c.Orderly) :
    ∀ reply ∈ c.replies.dropLast, reply.SentWhole c.responses := by
  rcases orderly.phase with ⟨-, reading | finishing | ⟨id, sending⟩⟩ | ended
  · exact fun reply member => reading.whole reply (List.mem_of_mem_dropLast member)
  · exact fun reply member => finishing.whole reply (List.mem_of_mem_dropLast member)
  · obtain ⟨past, head, start, replies, earlier⟩ := sending.last
    rw [replies, List.dropLast_concat]
    exact fun reply member => (earlier reply member).2
  · exact ended.whole

/-- A page is done before the next reply. -/
theorem Orderly.done (orderly : c.Orderly) {past later : List Reply} {head : Bytes} {id : Nat}
    {start : Serving} (split : c.replies = past ++ .page head id start :: later)
    (spent : later ≠ [] ∨ (c.responses id).response.isDone = true) :
    (c.responses id).response.isDone = true := by
  rcases spent with more | done
  · refine Orderly.earlier orderly (.page head id start) ?_
    rw [split, List.dropLast_append_of_ne_nil (List.cons_ne_nil _ _),
      List.dropLast_cons_of_ne_nil more]
    exact List.mem_append_right _ (List.mem_cons_self ..)
  · exact done

/-- The page of a reply that is whole, read from where its head ends. -/
theorem Orderly.page (orderly : c.Orderly) {past later : List Reply} {head : Bytes} {id : Nat}
    {start : Serving} (split : c.replies = past ++ .page head id start :: later)
    (spent : later ≠ [] ∨ (c.responses id).response.isDone = true) :
    ∃ rest, c.wire = past.flatMap (Reply.bytes c.responses) ++ (head ++ rest) ∧
      decode rest = some ((searched start).response.dataBuffer,
        later.flatMap (Reply.bytes c.responses)) := by
  have member : .page head id start ∈ c.replies := by
    rw [split]
    exact List.mem_append_right _ (List.mem_cons_self ..)
  obtain ⟨frontSent, follows⟩ := orderly.sound _ member
  have done := orderly.done split spent
  refine ⟨(c.responses id).sent.flatMap chunkBytes ++ later.flatMap (Reply.bytes c.responses), ?_, ?_⟩
  · rw [HTTPConnection.wire, orderly.wire, split, List.flatMap_append, List.flatMap_cons, Reply.bytes,
      List.append_assoc]
  · rw [frontSent.whole done, follows.whole frontSent done]

theorem Orderly.waiting (orderly : c.Orderly) : (c.blocks.filterMap Block.line).length ≤ 1 := by
  have counted : (c.blocks.filterMap Block.line).length = c.blocks.countP Block.isLine := by
    rw [List.length_filterMap_eq_countP]
    refine List.countP_congr fun block _ => ?_
    cases block <;> simp [Block.line, Block.isLine]
  rw [counted]
  rcases orderly.phase with ⟨-, reading | finishing | ⟨id, sending⟩⟩ | ended
  · have reads := reading.reads
    rw [HTTPConnection.reads] at reads
    omega
  · rw [(reads_zero finishing.reads).1]
    exact Nat.zero_le _
  · rw [(reads_zero sending.reads).1]
    exact Nat.zero_le _
  · rw [ended.lines]
    exact Nat.zero_le _

/-- A connection with nothing left to do. -/
structure Idle (c : HTTPConnection μ) : Prop where
  connected : c.connected = true
  running : c.crashed = false
  blocks : c.blocks = []
  written : c.writeQueue = []
  searched : ∀ id, (c.responses id).calls = []

theorem Orderly.idle (orderly : c.Orderly) (idle : Idle c) :
    c.reading = true ∧ ∀ reply ∈ c.replies, reply.SentWhole c.responses := by
  have pending : c.pending = [] := by
    rw [HTTPConnection.pending, idle.blocks, idle.written]
    rfl
  rcases orderly.phase with ⟨-, reading | finishing | ⟨id, sending⟩⟩ | ended
  · refine ⟨?_, reading.whole⟩
    rcases reading.reads with one | ⟨-, gone | crashed⟩
    · rw [HTTPConnection.reads, idle.blocks] at one
      by_contra missing
      rw [if_neg missing] at one
      cases one
    · rw [idle.connected] at gone
      cases gone
    · rw [idle.running] at crashed
      cases crashed
  · rcases finishing.pending with last | last
    · rw [pending] at last
      cases last
    · rw [pending] at last
      cases last
  · -- nobody would send what is unread, so all is read, and the search has ended the page
    have read : ¬(c.responses id).response.theOffset < (c.responses id).response.dataBuffer.length := by
      intro more
      rcases sending.unread more with footer | available
      · rw [pending] at footer
        cases footer
      · rw [idle.blocks] at available
        cases available
    have frontSent := orderly.toPosted.current sending.toStreaming
    have ended := frontSent.ends sending.linked (idle.searched id)
    rcases sending.closing with ⟨-, open_⟩ | ⟨front, -, present⟩
    · rw [SearchResponse.isDone, ended, Bool.true_and, decide_eq_false_iff_not] at open_
      omega
    · rw [pending] at present
      exact absurd present.symm (by simp)
  · have gone := ended.gone
    rw [idle.connected] at gone
    cases gone

theorem Orderly.bounded (orderly : c.Orderly) (connected : c.connected = true) :
    c.bodies.sum ≤ readChunkSize := by
  have empty : (∀ write ∈ c.writeQueue, write.1 ≠ .chunkedResponseBody) →
      c.bodies.sum ≤ readChunkSize := by
    intro other
    have missing : c.bodies = [] := by
      rw [bodies, List.map_eq_nil_iff, List.filter_eq_nil_iff]
      intro write member
      rw [beq_iff_eq]
      exact other write member
    rw [missing]
    exact Nat.zero_le _
  rcases orderly.phase with ⟨-, reading | finishing | ⟨id, sending⟩⟩ | ended
  · apply empty
    rw [reading.tags.2]
    exact List.forall_mem_nil _
  · apply empty
    intro write member
    have tag : write.1 ∈ c.pending :=
      List.mem_append_right _ (List.mem_map_of_mem member)
    rcases finishing.pending with last | last
    · rw [last] at tag
      rw [List.mem_singleton.mp tag]
      decide
    · rw [last] at tag
      rw [List.mem_singleton.mp tag]
      decide
  · obtain ⟨front, sizes⟩ := sending.queued
    have room := sending.room
    rw [writeQueueSize, ← sizes, List.sum_append] at room
    omega
  · have gone := ended.gone
    rw [connected] at gone
    cases gone

end HTTPConnection

/-! ### Searches -/

/-- A page is the reply to a request that has one, under its own number. -/
theorem replyTo_page {messages : Messages μ} {lower : Bytes → Bytes} {number id : Nat} {ask : Ask μ}
    {head : Bytes} {start : Serving}
    (reply : replyTo messages lower number ask = some (.page head id start)) :
    number = id ∧ ∃ now m response, ask = .request now m ∧
      responseWithPath lower now.files now.texts (messages.requestURI m) = .value response ∧
      start = searchOf lower now (messages.requestURI m) response := by
  cases ask with
  | invalid now => cases Option.some.inj reply
  | request now m =>
    rw [replyTo] at reply
    dsimp only at reply
    split at reply
    · cases Option.some.inj reply
    split at reply
    · cases Option.some.inj reply
    split at reply
    · cases Option.some.inj reply
    split at reply
    · cases Option.some.inj reply
    split at reply
    · cases reply
    next response made =>
      split at reply
      · cases Option.some.inj reply
      · obtain ⟨-, rfl, rfl⟩ := Reply.page.inj (Option.some.inj reply)
        exact ⟨rfl, now, m, response, rfl, made, rfl⟩

/-! ### What holds in every run -/

private theorem orderly_after (labels : List HTTPConnection.Label)
    (fitsPage : ∀ reply ∈ (after messages lower labels).replies, reply.FitsPage) :
    (after messages lower labels).Orderly ∧
      Heard messages lower
        ((lines messages lower (HTTPConnection.start messages) labels).foldl (Hearing.hear messages)
          (.start messages))
        (after messages lower labels) :=
  orderly_run _ orderly_start heard_start labels fitsPage

end

section

variable {μ : Type} (messages : Messages μ) (lower : Bytes → Bytes) (labels : List HTTPConnection.Label)
  (fitsPage : ∀ reply ∈ (after messages lower labels).replies, reply.FitsPage)

include fitsPage

/-- The lines the socket reads are handled in their order, at most one of them waits, and all
that the handled lines ask is answered, one reply for each request. -/
theorem requests_answered :
    (∃ waiting : List Bytes, waiting.length ≤ 1 ∧
      readBy messages lower (HTTPConnection.start messages) labels =
        (lines messages lower (HTTPConnection.start messages) labels).map Prod.snd ++ waiting) ∧
    ((after messages lower labels).crashed = false →
      List.Forall₂ (Answers messages lower)
        (asks messages (lines messages lower (HTTPConnection.start messages) labels))
        (after messages lower labels).replies) := by
  obtain ⟨orderly, heard⟩ := orderly_after labels fitsPage
  have read := readBy_lines messages lower (HTTPConnection.start messages) labels
  exact ⟨⟨_, orderly.waiting, read⟩, heard.replied⟩

/-- What stands on the wire behind the head of a page reads as the page that its search makes by
itself, and then as the replies behind it. -/
theorem pages_read {past later : List Reply} {head : Bytes} {id : Nat} {start : Serving}
    (split : (after messages lower labels).replies = past ++ .page head id start :: later)
    (spent : later ≠ [] ∨ ((after messages lower labels).responses id).response.isDone = true) :
    ∃ rest, (after messages lower labels).wire =
        past.flatMap (Reply.bytes (after messages lower labels).responses) ++ (head ++ rest) ∧
      decode rest = some ((searched start).response.dataBuffer,
        later.flatMap (Reply.bytes (after messages lower labels).responses)) :=
  (orderly_after labels fitsPage).1.page split spent

/-- A connection with nothing left to do has written all replies as a whole, and reads the next
request. -/
theorem idle_reads (idle : Idle (after messages lower labels)) :
    (after messages lower labels).reading = true ∧
      (after messages lower labels).written = (after messages lower labels).replies.flatMap
        (Reply.bytes (after messages lower labels).responses) ∧
      ∀ reply ∈ (after messages lower labels).replies,
        reply.SentWhole (after messages lower labels).responses := by
  obtain ⟨orderly, -⟩ := orderly_after labels fitsPage
  obtain ⟨reading, whole⟩ := orderly.idle idle
  have wire := orderly.wire
  rw [idle.written] at wire
  exact ⟨reading, (List.append_nil _).symm.trans wire, whole⟩

/-- However fast a search is, no more than one chunk size of its page waits to be written. -/
theorem queue_bounded (connected : (after messages lower labels).connected = true) :
    (after messages lower labels).bodies.sum ≤ readChunkSize :=
  (orderly_after labels fitsPage).1.bounded connected

end

/-! ### A visit -/

section

/-- Requests as the lines they consist of. -/
def lineMessages : Messages (List Bytes) where
  initEmptyRequest := []
  appendData m line :=
    if m = [] ∧ (componentsInSet (· == 32) line).length ≠ 3 then none else some (m ++ [line])
  isHeaderComplete m := m.getLast? = some newline
  version m := ((componentsInSet (· == 32) (m.headD [])).getD 2 []).dropLast.dropLast
  method m := (componentsInSet (· == 32) (m.headD [])).headD []
  requestURI m := (componentsInSet (· == 32) (m.headD [])).getD 1 []
  headerField m name :=
    (m.find? (hasPrefix · (name ++ ascii ": "))).map fun line =>
      (line.drop (name.length + 2)).dropLast.dropLast
  messageData head :=
    ascii "HTTP/1.1 " ++ decimal head.status ++ newline ++
      head.fields.flatMap (fun field => field.1 ++ ascii ": " ++ field.2 ++ newline) ++ newline

/-- A mail for c@d. -/
def stored : Database :=
  let socketId := ascii "20130101000000000-001.002.003.004-00025"
  let serial := ascii "000001"
  SortedStore.Store.empty.puts [
    (fieldKey (ascii "c@d") socketId serial (ascii "subject"), ascii "hi"),
    (fieldKey (ascii "c@d") socketId serial (ascii "sender"), ascii "a@b"),
    (fieldKey (ascii "c@d") socketId serial (ascii "size"), ascii "5"),
    (sentinel (ascii "c@d"), ascii "1")]

def now : Instant := ⟨fun _ => none, ⟨[], [], [], []⟩, stored, ascii "now"⟩

/-- A search that finds the mail, and then one for no address: it is refused on a page of its
own. -/
def visit : List HTTPConnection.Label :=
  [.received (ascii "GET /s?e=c@d HTTP/1.1\r\n"), .run now, .received newline, .run now,
    .call 0, .call 0, .run now, .run now] ++
  List.replicate 7 .wrote ++ List.replicate 7 (.run now) ++
  [.received (ascii "GET /s?e= HTTP/1.1\r\n"), .run now, .received newline, .run now] ++
  List.replicate 4 .wrote ++ List.replicate 4 (.run now)

instance : DecidablePred Reply.FitsPage
  | .error _ => inferInstanceAs (Decidable True)
  | .bare _ start => inferInstanceAs (Decidable (start.calls = []))
  | .page _ _ start => inferInstanceAs (Decidable (start.calls.length ≤ 11))

/-- The reply to the second request. -/
def secondReply : Reply :=
  .page (pageHead lineMessages now) 1 ⟨⟨true, invalidPage, 0, true, 0, 0⟩, [], []⟩

private theorem visit_replies :
    (after lineMessages id visit).replies =
        [] ++ .page (pageHead lineMessages now) 0 (Serving.start stored (ascii "c@d")) ::
          [secondReply] ∧
      [secondReply].flatMap (Reply.bytes (after lineMessages id visit).responses) =
        pageHead lineMessages now ++ body [invalidPage] := by
  decide +kernel

private theorem visit_end :
    (after lineMessages id visit).connected = true ∧
      (after lineMessages id visit).crashed = false ∧
      (after lineMessages id visit).blocks = [] ∧
      (after lineMessages id visit).writeQueue = [] ∧
      ((after lineMessages id visit).responses 0).calls = [] ∧
      ((after lineMessages id visit).responses 1).calls = [] ∧
      (after lineMessages id visit).count = 2 := by
  decide +kernel

private theorem visit_fitsPage : ∀ reply ∈ (after lineMessages id visit).replies, reply.FitsPage := by
  rw [visit_replies.1]
  decide +kernel

theorem requests_answered_visit :
    List.Forall₂ (Answers lineMessages id)
      (asks lineMessages (lines lineMessages id (HTTPConnection.start lineMessages) visit))
      (after lineMessages id visit).replies :=
  (requests_answered lineMessages id visit visit_fitsPage).2 visit_end.2.1

/-- The page of the search is read, and what is left is the second reply. -/
theorem pages_read_visit :
    ∃ rest, (after lineMessages id visit).wire = pageHead lineMessages now ++ rest ∧
      decode rest = some ((searched (Serving.start stored (ascii "c@d"))).response.dataBuffer,
        pageHead lineMessages now ++ body [invalidPage]) := by
  obtain ⟨rest, wire, read⟩ :=
    pages_read lineMessages id visit visit_fitsPage visit_replies.1 (.inl (List.cons_ne_nil _ _))
  rw [visit_replies.2] at read
  exact ⟨rest, wire, read⟩

private theorem visit_idle : Idle (after lineMessages id visit) := by
  obtain ⟨connected, running, blocks, written, first, second, count⟩ := visit_end
  refine ⟨connected, running, blocks, written, fun n => ?_⟩
  match n with
  | 0 => exact first
  | 1 => exact second
  | n + 2 => exact (orderly_after visit visit_fitsPage).1.unborn (n + 2) (by rw [count]; omega)

theorem idle_reads_visit :
    (after lineMessages id visit).reading = true ∧
      (after lineMessages id visit).written = (after lineMessages id visit).replies.flatMap
        (Reply.bytes (after lineMessages id visit).responses) ∧
      ∀ reply ∈ (after lineMessages id visit).replies,
        reply.SentWhole (after lineMessages id visit).responses :=
  idle_reads lineMessages id visit visit_fitsPage visit_idle

/-- In the middle of the visit, with two chunks of the page in the queue. -/
theorem queue_bounded_visit :
    (after lineMessages id (visit.take 7)).bodies.length = 2 ∧
      (after lineMessages id (visit.take 7)).bodies.sum ≤ readChunkSize :=
  ⟨by decide +kernel,
    queue_bounded lineMessages id (visit.take 7) (by decide +kernel) (by decide +kernel)⟩

end

end Spamass.Http
