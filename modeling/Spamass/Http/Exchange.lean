import Spamass.Http.Wire

/-!
# Requests and their replies

The lines that a connection has handled make its requests. Every request has its reply, in
their order. What stands on the wire behind the head of a page reads back as the page that
its search makes by itself, and what comes behind it is the next reply. A connection with
nothing to do has sent all of its replies and reads the next request.
-/
namespace Spamass.Http

open Spamass.Emailz Spamass.App Spamass.Web Spamass.Chunked Spamass.Runs

section

variable {μ : Type} (messages : Messages μ) (lower : Bytes → Bytes)

/-! ### What is asked -/

/-- What is asked of the connection, and when. -/
inductive Ask (μ : Type) where
  | invalid (now : Instant)
  | request (now : Instant) (m : μ)

def Ask.now : Ask μ → Instant
  | .invalid now => now
  | .request now _ => now

/-- What the lines of a connection ask. -/
structure Hearing (μ : Type) where
  asked : List (Ask μ)
  -- the request whose lines come in, and how many have; none once no more are handled
  current : Option (μ × Nat)

def Hearing.start : Hearing μ := ⟨[], some (messages.initEmptyRequest, 0)⟩

def Hearing.hear (h : Hearing μ) (line : Instant × Bytes) : Hearing μ :=
  match h.current with
  | none => h
  | some (m, numHeaderLines) =>
    match messages.appendData m line.2 with
    | none => ⟨h.asked ++ [.invalid line.1], none⟩
    | some m =>
      if messages.isHeaderComplete m then
        ⟨h.asked ++ [.request line.1 m], some (messages.initEmptyRequest, 0)⟩
      else if maxHeaderLines < numHeaderLines + 1 then { h with current := none }
      else { h with current := some (m, numHeaderLines + 1) }

/-- What the lines ask, one after another. -/
def asks (lines : List (Instant × Bytes)) : List (Ask μ) :=
  (lines.foldl (Hearing.hear messages) (.start messages)).asked

/-! ### What is replied -/

def errorReply (now : Instant) (status : Nat) (fields : List (Bytes × Bytes)) : Reply :=
  .error (messages.messageData
    ⟨status, (ascii "Content-Length", ascii "0") :: fields ++ HTTPConnection.standardFields now⟩)

def closeField : List (Bytes × Bytes) := [(ascii "Connection", ascii "close")]

def pageHead (now : Instant) : Bytes :=
  messages.messageData
    ⟨200, (ascii "Transfer-Encoding", ascii "chunked") :: HTTPConnection.standardFields now⟩

/-- The reply to what is asked; `none` where an exception ends the application. -/
def replyTo (id : Nat) : Ask μ → Option Reply
  | .invalid now => some (errorReply messages now 400 closeField)
  | .request now m =>
    let uri := messages.requestURI m
    if !HTTPConnection.bodyAllowed messages lower m then
      some (errorReply messages now 400 closeField)
    else if !HTTPConnection.supportsMethod (messages.method m) then
      some (errorReply messages now 405 closeField)
    else if messages.version m ≠ ascii "HTTP/1.1" ∧ messages.version m ≠ ascii "HTTP/1.0" then
      some (errorReply messages now 505 [])
    else if HTTPConnection.isWebSocketRequest messages lower m ∨ uri = ascii "/favicon.ico" then
      some (errorReply messages now 404 [])
    else
      match responseWithPath lower now.files now.texts uri with
      | .undefined => none
      | .value response =>
        let start := HTTPConnection.searchOf lower now uri response
        if messages.method m = ascii "HEAD" then some (.bare (pageHead messages now) start)
        else some (.page (pageHead messages now) id start)

def Answers (ask : Ask μ) (reply : Reply) : Prop := ∃ id, replyTo messages lower id ask = some reply

/-! ### What is handled -/

/-- The line that a step handles. -/
def handled (c : HTTPConnection μ) (label : HTTPConnection.Label) : Option (Instant × Bytes) :=
  if c.crashed then none
  else
    match label, c.blocks with
    | .run now, .didReadData data :: _ => some (now, data)
    | _, _ => none

/-- The lines that a run handles. -/
def lines : HTTPConnection μ → List HTTPConnection.Label → List (Instant × Bytes)
  | _, [] => []
  | c, label :: labels => (handled c label).toList ++ lines (c.step messages lower label) labels

/-! ### A line -/

/-- The connection has replied to all that was asked, and knows what is being asked. -/
structure Heard (h : Hearing μ) (c : HTTPConnection μ) : Prop where
  replied : c.crashed = false → List.Forall₂ (Answers messages lower) h.asked c.replies
  -- a line belongs to the request that is read
  line : c.reads ≠ 0 → ∃ m, c.request = some m ∧ h.current = some (m, c.numHeaderLines)
  -- once a reply is done the next request begins
  between : c.httpResponse ≠ none ∨ .response ∈ c.pending →
    h.current = some (messages.initEmptyRequest, 0)

namespace HTTPConnection

variable {messages lower} {c : HTTPConnection μ} {now : Instant}

/-- What a step leaves as it was that neither handles a line nor ends a reply. -/
structure LeavesRequests (c c' : HTTPConnection μ) : Prop where
  reads : c'.reads = c.reads
  request : c'.request = c.request
  lines : c'.numHeaderLines = c.numHeaderLines
  replies : c'.replies = c.replies
  running : c'.crashed = false → c.crashed = false
  between : c'.httpResponse ≠ none ∨ .response ∈ c'.pending →
    c.httpResponse ≠ none ∨ .response ∈ c.pending

theorem LeavesRequests.heard {h : Hearing μ} {c' : HTTPConnection μ} (leaves : LeavesRequests c c')
    (heard : Heard messages lower h c) : Heard messages lower h c' := by
  refine ⟨fun running => ?_, fun more => ?_, fun open_ => heard.between (leaves.between open_)⟩
  · rw [leaves.replies]
    exact heard.replied (leaves.running running)
  · rw [leaves.request, leaves.lines]
    exact heard.line (leaves.reads ▸ more)

theorem disconnect_leaves (c : HTTPConnection μ) : LeavesRequests c c.disconnect := by
  obtain ⟨tags, lines, -⟩ := disconnect_blocks c
  obtain ⟨-, replies, current, queue, -, reading⟩ := disconnect_same c
  refine ⟨?_, ?_, ?_, replies, ?_, ?_⟩
  · rw [HTTPConnection.reads, lines, reading, HTTPConnection.reads]
  · unfold HTTPConnection.disconnect
    split <;> rfl
  · unfold HTTPConnection.disconnect
    split <;> rfl
  · unfold HTTPConnection.disconnect
    split <;> exact id
  · rw [current, HTTPConnection.pending, tags, queue, ← HTTPConnection.pending]
    exact id

theorem sendChunk_responses (c : HTTPConnection μ) (id available : Nat) :
    (c.sendChunk id available).count = c.count ∧
      (c.sendChunk id available).responses =
        Function.update c.responses id ((c.responses id).send available) := by
  unfold sendChunk
  dsimp only
  split
  · exact ⟨rfl, rfl⟩
  · split <;> exact ⟨rfl, rfl⟩

/-- What is sent of a response leaves its search alone. -/
theorem sendChunk_calls (c : HTTPConnection μ) (id id' available : Nat) :
    ((c.sendChunk id available).responses id').calls = (c.responses id').calls := by
  rw [(sendChunk_responses c id available).2]
  by_cases same : id' = id
  · subst same
    rw [Function.update_self]
    obtain ⟨-, -, -, calls, -⟩ := send_spec (c.responses id') available
    exact calls
  · rw [Function.update_of_ne same]

private theorem sendChunk_frame (c : HTTPConnection μ) (id available : Nat) :
    (c.sendChunk id available).reads = c.reads ∧
      (c.sendChunk id available).crashed = c.crashed ∧
      (c.sendChunk id available).request = c.request ∧
      (c.sendChunk id available).numHeaderLines = c.numHeaderLines ∧
      (c.sendChunk id available).httpResponse = c.httpResponse := by
  unfold sendChunk
  dsimp only
  split
  · exact ⟨rfl, rfl, rfl, rfl, rfl⟩
  · split <;> exact ⟨rfl, rfl, rfl, rfl, rfl⟩

/-- A page has the next number, and its search is as it was made. -/
def PageOf (c c' : HTTPConnection μ) (reply : Reply) : Prop :=
  ∀ head id start, reply = .page head id start →
    id = c.count ∧ c'.count = c.count + 1 ∧ (c'.responses id).calls = start.calls

theorem page_error (c c' : HTTPConnection μ) (bytes : Bytes) : PageOf c c' (.error bytes) := by
  intro head id start shape
  cases shape

private theorem page_bare (c c' : HTTPConnection μ) (head : Bytes) (start : Serving) :
    PageOf c c' (.bare head start) := by
  intro head' id start' shape
  cases shape

variable (messages lower now) in
/-- A request has its reply, or ends the application. -/
theorem replied_request (m : μ) :
    let c' := if !bodyAllowed messages lower m then c.handleInvalidRequest messages now
      else if !supportsMethod (messages.method m) then c.handleUnknownMethod messages now
      else c.replyToHTTPRequest messages lower now m
    c'.reads = c.reads ∧
      (replyTo messages lower c.count (.request now m) = none ∧ c'.crashed = true ∧
          c'.replies = c.replies ∨
        ∃ reply, replyTo messages lower c.count (.request now m) = some reply ∧
          c'.replies = c.replies ++ [reply] ∧ c'.crashed = c.crashed ∧ PageOf c c' reply) := by
  intro c'
  have refused : ∀ status fields tag,
      (c.refuse messages now status fields tag).reads = c.reads ∧
        ∃ reply, some (errorReply messages now status fields) = some reply ∧
          (c.refuse messages now status fields tag).replies = c.replies ++ [reply] ∧
          (c.refuse messages now status fields tag).crashed = c.crashed ∧
          PageOf c (c.refuse messages now status fields tag) reply :=
    fun status fields tag => ⟨rfl, errorReply messages now status fields, rfl, rfl, rfl,
      page_error _ _ _⟩
  rw [replyTo]
  by_cases allowed : (!bodyAllowed messages lower m) = true
  · have same : c' = c.handleInvalidRequest messages now := if_pos allowed
    rw [same, if_pos allowed]
    exact (refused 400 closeField .finalResponse).imp_right .inr
  by_cases supported : (!supportsMethod (messages.method m)) = true
  · have same : c' = c.handleUnknownMethod messages now := (if_neg allowed).trans (if_pos supported)
    rw [same, if_neg allowed, if_pos supported]
    exact (refused 405 closeField .finalResponse).imp_right .inr
  have same : c' = c.replyToHTTPRequest messages lower now m :=
    (if_neg allowed).trans (if_neg supported)
  rw [same, if_neg allowed, if_neg supported, replyToHTTPRequest]
  dsimp only
  by_cases version : messages.version m ≠ ascii "HTTP/1.1" ∧ messages.version m ≠ ascii "HTTP/1.0"
  · rw [if_pos version, if_pos version]
    exact (refused 505 [] .response).imp_right .inr
  rw [if_neg version, if_neg version]
  by_cases socket : isWebSocketRequest messages lower m = true
  · rw [if_pos socket, if_pos (Or.inl socket)]
    exact (refused 404 [] .response).imp_right .inr
  by_cases icon : messages.requestURI m = ascii "/favicon.ico"
  · rw [if_neg socket, if_pos icon, if_pos (Or.inr icon)]
    exact (refused 404 [] .response).imp_right .inr
  rw [if_neg socket, if_neg icon, if_neg (not_or.mpr ⟨socket, icon⟩)]
  cases responseWithPath lower now.files now.texts (messages.requestURI m) with
  | undefined => exact ⟨rfl, .inl ⟨rfl, rfl, rfl⟩⟩
  | value response =>
    dsimp only
    generalize searchOf lower now (messages.requestURI m) response = start
    have first : (c.respondWith start).responses c.count = start := respondWith_self c start
    rw [sendResponseHeadersAndBody, first]
    by_cases bare : messages.method m = ascii "HEAD"
    · rw [if_pos bare, if_pos bare]
      exact ⟨rfl, .inr ⟨_, rfl, rfl, rfl, page_bare _ _ _ _⟩⟩
    · rw [if_neg bare, if_neg bare]
      have posted : ((c.respondWith start).headersSent.post (pageHead messages now)
          .partialResponseHeader (.page (pageHead messages now) c.count start)).responses c.count =
            start := first
      generalize sent : ((c.respondWith start).headersSent.post (pageHead messages now)
        .partialResponseHeader (.page (pageHead messages now) c.count start)) = p at posted
      obtain ⟨reads, crashed, -⟩ := sendChunk_frame p c.count readChunkSize
      obtain ⟨count, -⟩ := sendChunk_responses p c.count readChunkSize
      have calls := sendChunk_calls p c.count c.count readChunkSize
      rw [posted] at calls
      have replies := sendChunk_replies p c.count readChunkSize
      subst sent
      refine ⟨reads, .inr ⟨_, rfl, replies, crashed, fun head id start' page => ?_⟩⟩
      obtain ⟨-, rfl, rfl⟩ := Reply.page.inj page
      exact ⟨rfl, count, calls⟩

/-- A line is handled: the connection replies to what it completes. -/
private theorem heard_line {h : Hearing μ} {data : Bytes} {rest : List Block}
    (heard : Heard messages lower h c) (orderly : c.Orderly)
    (blocks : c.blocks = .didReadData data :: rest) :
    Heard messages lower (h.hear messages (now, data))
      (HTTPConnection.didReadData messages lower { c with blocks := rest } now data) := by
  have ready := orderly.line blocks
  have present : c.reads ≠ 0 := by
    rw [HTTPConnection.reads, blocks, List.countP_cons_of_pos (by rfl)]
    omega
  obtain ⟨m, request, current⟩ := heard.line present
  have missing := reads_zero ready.reads
  have replied := heard.replied
  have append : ∀ (ask : Ask μ) {c' : HTTPConnection μ} {reply : Reply},
      Answers messages lower ask reply → c'.replies = c.replies ++ [reply] →
      (c'.crashed = false → c.crashed = false) → c'.crashed = false →
      List.Forall₂ (Answers messages lower) (h.asked ++ [ask]) c'.replies := by
    intro ask c' reply answers replies running still
    rw [replies]
    exact List.rel_append (replied (running still)) (.cons answers .nil)
  rw [Hearing.hear, current]
  dsimp only
  rw [HTTPConnection.didReadData]
  dsimp only
  rw [request, Option.bind_some]
  cases read : messages.appendData m data with
  | none =>
    -- the connection closes behind its error
    dsimp only
    have pending : HTTPConnection.pending (HTTPConnection.handleInvalidRequest messages
        { c with blocks := rest } now) = [.finalResponse] := ready.toFree.post_pending ..
    refine ⟨append (.invalid now) ⟨0, rfl⟩ rfl id, ?_, ?_⟩
    · exact fun more => absurd ready.reads more
    · rintro (other | last)
      · exact absurd ready.idle other
      · have final : Tag.response ∈ [Tag.finalResponse] := by
          rw [← pending]
          exact last
        exact absurd final (by decide)
  | some m' =>
    dsimp only
    cases complete : messages.isHeaderComplete m' with
    | false =>
      rw [if_neg Bool.false_ne_true, Bool.not_false, if_pos rfl]
      have leaves : ¬(c.httpResponse ≠ none ∨
          .response ∈ HTTPConnection.pending { c with blocks := rest }) := by
        rw [ready.pending]
        rintro (current | last)
        · exact current ready.idle
        · cases last
      by_cases many : maxHeaderLines < c.numHeaderLines + 1
      · rw [if_pos many, if_pos many]
        have still := disconnect_leaves { c with
          blocks := rest, request := some m', numHeaderLines := c.numHeaderLines + 1 }
        refine ⟨fun running => ?_, fun more => absurd (still.reads.trans ready.reads) more,
          fun other => absurd (still.between other) leaves⟩
        rw [still.replies]
        exact replied (still.running running)
      · rw [if_neg many, if_neg many]
        exact ⟨replied, fun _ => ⟨m', rfl, rfl⟩, fun other => absurd other leaves⟩
    | true =>
      rw [if_pos rfl, Bool.not_true, if_neg Bool.false_ne_true]
      obtain ⟨reads, answer⟩ := replied_request messages lower now
        (c := { c with blocks := rest, request := some m' }) m'
      refine ⟨?_, fun more => absurd (reads.trans ready.reads) more, fun _ => rfl⟩
      rcases answer with ⟨-, crashed, -⟩ | ⟨reply, answers, replies, same, -⟩
      · rw [crashed]
        exact fun running => absurd running.symm Bool.false_ne_true
      · exact append (.request now m') ⟨_, answers⟩ replies fun running => same.symm.trans running

/-! ### A step -/

/-- A write that ends a reply is the only one that is pending. -/
theorem Orderly.outer (orderly : c.Orderly) {tag : Tag} {rest : List Block}
    (blocks : c.blocks = .didWriteData tag :: rest) (outer : tag.inner = false) :
    HTTPConnection.pending { c with blocks := rest } = [] ∧
      HTTPConnection.reads { c with blocks := rest } = 0 := by
  have pending := pending_told blocks
  rcases orderly.phase with ⟨-, reading | finishing | ⟨id, sending⟩⟩ | ended
  · rw [reading.pending] at pending
    cases pending
  · refine ⟨?_, reads_told blocks finishing.reads⟩
    rcases finishing.pending with last | last
    · rw [last] at pending
      exact (List.cons.inj pending).2.symm
    · rw [last] at pending
      exact (List.cons.inj pending).2.symm
  · refine ⟨?_, reads_told blocks sending.reads⟩
    rcases sending.told blocks with ⟨-, spent, -⟩ | ⟨inner, -⟩
    · exact spent
    · rw [inner] at outer
      cases outer
  · have told := ended.told
    rw [blocks] at told
    cases told

/-- What becomes of a connection whose reply is done. -/
theorem doneSendingResponse_cases (messages : Messages μ) (lower : Bytes → Bytes)
    (c : HTTPConnection μ) (tag : Tag) :
    let c' := c.doneSendingResponse messages lower tag
    c'.replies = c.replies ∧ c'.crashed = c.crashed ∧ c'.httpResponse = none ∧
      c'.pending = c.pending ∧
      (c'.reads = c.reads ∨ tag ≠ .finalResponse ∧
        c'.request = some messages.initEmptyRequest ∧ c'.numHeaderLines = 0) := by
  intro c'
  let c₁ : HTTPConnection μ := { c with responseDataSizes := c.responseDataSizes.tail }
  obtain ⟨-, -, -, responses, same⟩ := connectionDidClose_same c₁
  let closed : HTTPConnection μ := finishResponse { c₁ with responses := responses }
  have still := disconnect_leaves closed
  have gone : closed.disconnect.replies = c.replies ∧ closed.disconnect.crashed = c.crashed ∧
      closed.disconnect.httpResponse = none ∧ closed.disconnect.pending = c.pending ∧
      closed.disconnect.reads = c.reads := by
    obtain ⟨tags, -, -⟩ := disconnect_blocks closed
    obtain ⟨-, replies, current, queue, -, -⟩ := disconnect_same closed
    refine ⟨replies, ?_, current, ?_, still.reads⟩
    · unfold HTTPConnection.disconnect
      split <;> rfl
    · rw [HTTPConnection.pending, tags, queue]
      rfl
  have shape : c' = if tag = .finalResponse then closed.disconnect
      else if (c.request.map (shouldDie messages lower)).getD false then closed.disconnect
      else { closed with
        request := some messages.initEmptyRequest
        numHeaderLines := 0
        sentResponseHeaders := false }.readDataToData := by
    show c.doneSendingResponse messages lower tag = _
    rw [doneSendingResponse]
    dsimp only
    show (if tag = .finalResponse then c₁.connectionDidClose.finishResponse.disconnect
      else if (c₁.connectionDidClose.request.map (shouldDie messages lower)).getD false then
        c₁.connectionDidClose.finishResponse.disconnect
      else _) = _
    rw [same]
  obtain ⟨replies, crashed, current, pending, reads⟩ := gone
  rw [shape]
  split
  · exact ⟨replies, crashed, current, pending, .inl reads⟩
  next other =>
    split
    · exact ⟨replies, crashed, current, pending, .inl reads⟩
    · exact ⟨rfl, rfl, rfl, rfl, .inr ⟨other, rfl, rfl⟩⟩

private theorem heard_done {h : Hearing μ} {tag : Tag} {rest : List Block}
    (heard : Heard messages lower h c) (orderly : c.Orderly)
    (blocks : c.blocks = .didWriteData tag :: rest) (outer : tag.inner = false)
    (tags : tag ≠ .finalResponse → tag = .response) :
    Heard messages lower h
      (doneSendingResponse messages lower { c with blocks := rest } tag) := by
  obtain ⟨spent, missing⟩ := orderly.outer blocks outer
  obtain ⟨replies, crashed, idle, pending, reads⟩ :=
    doneSendingResponse_cases messages lower { c with blocks := rest } tag
  refine ⟨fun running => ?_, fun more => ?_, fun open_ => ?_⟩
  · rw [replies]
    exact heard.replied (crashed.symm.trans running)
  · rcases reads with same | ⟨other, request, lines⟩
    · exact absurd (same.trans missing) more
    · have told : .response ∈ c.pending := by
        rw [pending_told blocks, tags other]
        exact List.mem_cons_self ..
      rw [request, lines]
      exact ⟨_, rfl, heard.between (.inr told)⟩
  · rw [idle, pending, spent] at open_
    exact absurd open_ (by simp)

theorem continue_leaves (c : HTTPConnection μ) :
    LeavesRequests c c.continueSendingStandardResponseBody := by
  unfold continueSendingStandardResponseBody
  split
  · exact ⟨rfl, rfl, rfl, rfl, id, id⟩
  split
  · exact ⟨rfl, rfl, rfl, rfl, id, id⟩
  next id_ current =>
    obtain ⟨reads, crashed, request, lines, -⟩ :=
      sendChunk_frame c id_ (readChunkSize - c.writeQueueSize)
    refine ⟨reads, request, lines, sendChunk_replies .., fun running => crashed.symm.trans running,
      fun _ => .inl ?_⟩
    rw [current]
    nofun

theorem LeavesRequests.trans {c' c'' : HTTPConnection μ} (first : LeavesRequests c c')
    (second : LeavesRequests c' c'') : LeavesRequests c c'' :=
  ⟨second.reads.trans first.reads, second.request.trans first.request,
    second.lines.trans first.lines, second.replies.trans first.replies,
    fun running => first.running (second.running running),
    fun open_ => first.between (second.between open_)⟩

/-- The queue takes its first block, which is no line. -/
private theorem rest_leaves {block : Block} {rest : List Block} (blocks : c.blocks = block :: rest)
    (other : block.isLine = false) : LeavesRequests c { c with blocks := rest } := by
  refine ⟨?_, rfl, rfl, rfl, id, ?_⟩
  · rw [HTTPConnection.reads, HTTPConnection.reads, blocks,
      List.countP_cons_of_neg (by rw [other]; exact Bool.false_ne_true)]
  · rintro (current | pending)
    · exact .inl current
    · refine .inr ?_
      have later : Tag.response ∈ rest.filterMap Block.tag ++ c.writeQueue.map Prod.fst := pending
      rw [HTTPConnection.pending, blocks, List.filterMap_cons]
      cases block.tag with
      | none => exact later
      | some tag => exact List.mem_cons_of_mem _ later

theorem available_leaves (orderly : c.Orderly) {sender : Nat} {rest : List Block}
    (blocks : c.blocks = .responseHasAvailableData sender :: rest) :
    LeavesRequests c (responseHasAvailableData messages { c with blocks := rest } now sender) := by
  have first := rest_leaves blocks rfl
  rw [responseHasAvailableData]
  split
  · exact first
  next current =>
    -- the response that is sent has its head on the wire
    have own : c.httpResponse = some sender := not_not.mp current
    have headed : c.sentResponseHeaders = true := by
      rcases orderly.phase with ⟨-, reading | finishing | ⟨id, sending⟩⟩ | ended
      · have idle := reading.idle
        rw [own] at idle
        cases idle
      · have silent := (finishing.silent sender own).2
        rw [blocks] at silent
        exact absurd (List.mem_cons_self ..) silent
      · exact sending.headed
      · have idle := ended.idle
        rw [own] at idle
        cases idle
    have sends : ¬(!({ c with blocks := rest } : HTTPConnection μ).sentResponseHeaders) = true := by
      show ¬(!c.sentResponseHeaders) = true
      rw [headed]
      exact Bool.false_ne_true
    rw [if_neg sends]
    exact first.trans (continue_leaves _)

theorem die_leaves (c : HTTPConnection μ) : LeavesRequests c c.die := by
  obtain ⟨-, -, -, responses, same⟩ := connectionDidClose_same c
  rw [die, same]
  exact ⟨rfl, rfl, rfl, rfl, id, fun open_ => .inr (open_.resolve_left fun other => other rfl)⟩

theorem call_leaves (c : HTTPConnection μ) (id_ : Nat) : LeavesRequests c (c.call id_) := by
  cases calls : (c.responses id_).calls with
  | nil =>
    rw [call_nothing calls]
    exact ⟨rfl, rfl, rfl, rfl, id, id⟩
  | cons found left =>
    cases called : searchCallback (c.responses id_).response found with
    | none =>
      rw [call_crash calls called]
      exact ⟨rfl, rfl, rfl, rfl, nofun, id⟩
    | some answer =>
      obtain ⟨response, goesOn⟩ := answer
      rw [call_answer calls called]
      cases goesOn with
      | true =>
        refine ⟨?_, rfl, rfl, rfl, id, ?_⟩
        · show (c.blocks ++ [Block.responseHasAvailableData id_]).countP Block.isLine + _ = c.reads
          rw [List.countP_append]
          rfl
        · show _ ∨ Tag.response ∈ (c.blocks ++ [Block.responseHasAvailableData id_]).filterMap
            Block.tag ++ c.writeQueue.map Prod.fst → _
          rw [List.filterMap_append]
          show _ ∨ Tag.response ∈ c.blocks.filterMap Block.tag ++ [] ++ _ → _
          rw [List.append_nil]
          exact id
      | false =>
        rw [if_neg Bool.false_ne_true, List.append_nil]
        exact ⟨rfl, rfl, rfl, rfl, id, id⟩

private theorem received_leaves (asked : c.reading = true) (data : Bytes) :
    LeavesRequests c { c with reading := false, blocks := c.blocks ++ [.didReadData data] } := by
  refine ⟨?_, rfl, rfl, rfl, id, ?_⟩
  · show (c.blocks ++ [Block.didReadData data]).countP Block.isLine + 0 = c.reads
    rw [List.countP_append, HTTPConnection.reads, asked]
    rfl
  · show _ ∨ Tag.response ∈ (c.blocks ++ [Block.didReadData data]).filterMap Block.tag ++ _ → _
    rw [List.filterMap_append]
    show _ ∨ Tag.response ∈ c.blocks.filterMap Block.tag ++ [] ++ c.writeQueue.map Prod.fst → _
    rw [List.append_nil]
    exact id

private theorem wrote_leaves {tag : Tag} {data : Bytes} {queue : List (Tag × Bytes)}
    (queued : c.writeQueue = (tag, data) :: queue) :
    LeavesRequests c { c with
      writeQueue := queue
      written := c.written ++ data
      blocks := c.blocks ++ [.didWriteData tag] } := by
  refine ⟨?_, rfl, rfl, rfl, id, ?_⟩
  · show (c.blocks ++ [Block.didWriteData tag]).countP Block.isLine + _ = c.reads
    rw [List.countP_append]
    rfl
  · show c.httpResponse ≠ none ∨ Tag.response ∈
      (c.blocks ++ [Block.didWriteData tag]).filterMap Block.tag ++ queue.map Prod.fst → _
    rw [HTTPConnection.pending, queued, List.filterMap_append, List.map_cons, List.append_assoc]
    exact id

/-- A step handles a line, and replies to what it asks, or leaves what was asked as it is. -/
theorem heard_step {h : Hearing μ} (heard : Heard messages lower h c) (orderly : c.Orderly)
    (label : Label) :
    Heard messages lower ((handled c label).toList.foldl (Hearing.hear messages) h)
      (c.step messages lower label) := by
  unfold HTTPConnection.step handled
  by_cases crashed : c.crashed = true
  · rw [if_pos crashed, if_pos crashed]
    exact heard
  rw [if_neg crashed, if_neg crashed]
  cases label with
  | received data =>
    dsimp only
    split
    next both =>
      rw [Bool.and_eq_true] at both
      exact (received_leaves both.2 data).heard heard
    · exact heard
  | wrote =>
    dsimp only
    split
    next tag data queue connected queued =>
      exact (wrote_leaves queued).heard heard
    · exact heard
  | hangUp => exact (disconnect_leaves c).heard heard
  | call id => exact (call_leaves c id).heard heard
  | run now =>
    dsimp only
    cases blocks : c.blocks with
    | nil => exact heard
    | cons block rest =>
      dsimp only
      cases block with
      | didReadData data => exact heard_line heard orderly blocks
      | responseHasAvailableData sender => exact (available_leaves orderly blocks).heard heard
      | socketDidDisconnect => exact ((rest_leaves blocks rfl).trans (die_leaves _)).heard heard
      | didWriteData tag =>
        have first := rest_leaves blocks rfl
        cases tag with
        | partialResponseHeader => exact first.heard heard
        | chunkedResponseHeader => exact first.heard heard
        | chunkedResponseBody =>
          have shorter : LeavesRequests c { c with
              blocks := rest, responseDataSizes := c.responseDataSizes.tail } :=
            ⟨first.reads, rfl, rfl, rfl, id, first.between⟩
          exact shorter.heard heard
        | chunkedResponseFooter => exact (first.trans (continue_leaves _)).heard heard
        | response => exact heard_done heard orderly blocks rfl fun _ => rfl
        | finalResponse => exact heard_done heard orderly blocks rfl fun other => absurd rfl other

/-! ### Runs -/

/-- A reply is not taken back. -/
private theorem post_replies (c : HTTPConnection μ) (head : Bytes) (tag : Tag) (reply : Reply) :
    c.replies <+: (c.post head tag reply).replies := List.prefix_append ..

theorem sendResponseHeadersAndBody_replies (c : HTTPConnection μ) (method : Bytes) (id : Nat) :
    c.replies <+: (c.sendResponseHeadersAndBody messages now method id).replies := by
  unfold sendResponseHeadersAndBody
  dsimp only
  split
  · exact post_replies c.headersSent ..
  · rw [sendChunk_replies]
    exact post_replies c.headersSent ..

private theorem didReadData_replies (c : HTTPConnection μ) (data : Bytes) :
    c.replies <+: (c.didReadData messages lower now data).replies := by
  have refused : ∀ status fields tag, c.replies <+: (c.refuse messages now status fields tag).replies :=
    fun status fields tag => post_replies ..
  unfold didReadData
  split
  · exact refused 400 closeField .finalResponse
  next m _ =>
    dsimp only
    split
    · split
      · rw [(disconnect_leaves _).replies]
      · exact List.prefix_refl _
    split
    · exact refused 400 closeField .finalResponse
    split
    · exact refused 405 closeField .finalResponse
    unfold replyToHTTPRequest
    dsimp only
    split
    · exact refused 505 [] .response
    split
    · exact refused 404 [] .response
    split
    · exact refused 404 [] .response
    split
    · exact List.prefix_refl _
    next response _ =>
      exact sendResponseHeadersAndBody_replies (HTTPConnection.respondWith { c with request := some m }
        (searchOf lower now (messages.requestURI m) response)) ..

theorem step_replies (c : HTTPConnection μ) (label : Label) :
    c.replies <+: (c.step messages lower label).replies := by
  have same : ∀ {c' : HTTPConnection μ}, c'.replies = c.replies → c.replies <+: c'.replies :=
    fun replies => replies ▸ List.prefix_refl _
  unfold HTTPConnection.step
  split
  · exact List.prefix_refl _
  cases label with
  | received data =>
    dsimp only
    split <;> exact List.prefix_refl _
  | wrote =>
    dsimp only
    split <;> exact List.prefix_refl _
  | hangUp => exact same (disconnect_leaves c).replies
  | call id => exact same (call_leaves c id).replies
  | run now =>
    dsimp only
    split
    · exact List.prefix_refl _
    next block rest _ =>
      cases block with
      | didReadData data => exact didReadData_replies { c with blocks := rest } data
      | socketDidDisconnect => exact same (die_leaves { c with blocks := rest }).replies
      | responseHasAvailableData sender =>
        show c.replies <+: (responseHasAvailableData messages { c with blocks := rest } now
          sender).replies
        unfold responseHasAvailableData
        split
        · exact List.prefix_refl _
        split
        · exact sendResponseHeadersAndBody_replies { c with blocks := rest } ..
        · exact same (continue_leaves { c with blocks := rest }).replies
      | didWriteData tag =>
        have done := (doneSendingResponse_cases messages lower { c with blocks := rest } tag).1
        cases tag with
        | partialResponseHeader => exact List.prefix_refl _
        | chunkedResponseHeader => exact List.prefix_refl _
        | chunkedResponseBody => exact List.prefix_refl _
        | chunkedResponseFooter => exact same (continue_leaves { c with blocks := rest }).replies
        | response => exact same done
        | finalResponse => exact same done

variable (messages lower) in
private theorem run_replies (c : HTTPConnection μ) (labels : List Label) :
    c.replies <+: (run (step messages lower) c labels).replies := by
  induction labels generalizing c with
  | nil => exact List.prefix_refl _
  | cons label labels ih => exact (step_replies c label).trans (ih _)

theorem orderly_start : (start messages).Orderly := by
  refine ⟨⟨rfl, nofun, nofun, nofun, fun _ _ => rfl⟩, .inl ⟨?_, .inl ⟨⟨rfl, rfl, nofun⟩, ?_, rfl⟩⟩⟩
  · exact nofun
  · exact .inl rfl

theorem heard_start : Heard messages lower (.start messages) (start messages) := by
  refine ⟨fun _ => .nil, fun _ => ⟨_, rfl, rfl⟩, ?_⟩
  rintro (current | pending)
  · exact absurd rfl current
  · cases pending

/-- Over every run whose searches find what fits on a page. -/
theorem orderly_run (c : HTTPConnection μ) {h : Hearing μ} (orderly : c.Orderly)
    (heard : Heard messages lower h c) (labels : List Label)
    (fitsPage : ∀ reply ∈ (run (step messages lower) c labels).replies, reply.FitsPage) :
    (run (step messages lower) c labels).Orderly ∧
      Heard messages lower ((lines messages lower c labels).foldl (Hearing.hear messages) h)
        (run (step messages lower) c labels) := by
  induction labels generalizing c h with
  | nil => exact ⟨orderly, heard⟩
  | cons label labels ih =>
    have later := run_replies messages lower (c.step messages lower label) labels
    have next := orderly.step messages lower label fun reply member => fitsPage reply (later.subset member)
    have run_ := ih (c.step messages lower label) next (heard_step heard orderly label) fitsPage
    rw [lines, List.foldl_append]
    exact run_

end HTTPConnection

end

end Spamass.Http
