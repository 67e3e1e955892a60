import Spamass.Http.Body

/-!
# One response after another

A connection reads, or has a last write to finish, or sends the chunks of one response. In
each of these phases it is known which writes are still to be told of; so no line is read in
the middle of a response, no response begins before the one in front of it is closed, and
there is always somebody left who sends what is still unread.
-/
namespace Spamass.Http

open Spamass.Emailz Spamass.App Spamass.Web Spamass.Chunked Spamass.Runs

/-! ### Replies -/

/-- What a reply has put on the wire so far. -/
def Reply.bytes (responses : Nat → Serving) : Reply → Bytes
  | .error head => head
  | .bare head _ => head
  | .page head id _ => head ++ (responses id).sent.flatMap chunkBytes

/-- A search that finds at most ten mails, and none at all for a request of the head alone. -/
def Reply.FitsPage : Reply → Prop
  | .error _ => True
  | .bare _ start => start.calls = []
  | .page _ _ start => start.calls.length ≤ 11

def Reply.Sound (responses : Nat → Serving) : Reply → Prop
  | .page _ id start => FrontSent (responses id) ∧ ServedFrom start (responses id)
  | _ => True

/-- The reply is on its way as a whole. -/
def Reply.SentWhole (responses : Nat → Serving) : Reply → Prop
  | .page _ id _ => (responses id).response.isDone = true
  | _ => True

def Reply.Below (count : Nat) : Reply → Prop
  | .page _ id _ => id < count
  | _ => True

section Changes

variable {responses responses' : Nat → Serving}

/-- A response that sends nothing leaves the wire as it is. -/
theorem bytes_update (id : Nat) {s : Serving} (sent : s.sent = (responses id).sent) (reply : Reply) :
    reply.bytes (Function.update responses id s) = reply.bytes responses := by
  cases reply with
  | error head => rfl
  | bare head start => rfl
  | page head id' start =>
    rw [Reply.bytes, Reply.bytes]
    by_cases same : id' = id
    · subst same
      rw [Function.update_self, sent]
    · rw [Function.update_of_ne same]

variable (responses) in
/-- Replies to the responses below a number do not see what becomes of the others. -/
private theorem below_update {count id : Nat} (above : count ≤ id) (s : Serving) {reply : Reply}
    (below : reply.Below count) :
    reply.bytes (Function.update responses id s) = reply.bytes responses ∧
      (reply.Sound (Function.update responses id s) ↔ reply.Sound responses) ∧
      (reply.SentWhole (Function.update responses id s) ↔ reply.SentWhole responses) := by
  cases reply with
  | error head => exact ⟨rfl, Iff.rfl, Iff.rfl⟩
  | bare head start => exact ⟨rfl, Iff.rfl, Iff.rfl⟩
  | page head id' start =>
    have other : id' ≠ id := by
      have less : id' < count := below
      omega
    simp only [Reply.bytes, Reply.Sound, Reply.SentWhole, Function.update_of_ne other, true_and,
      iff_self]

theorem Reply.Below.mono {count count' : Nat} (more : count ≤ count') {reply : Reply}
    (below : reply.Below count) : reply.Below count' := by
  cases reply with
  | error head => trivial
  | bare head start => trivial
  | page head id start => exact Nat.lt_of_lt_of_le below more

end Changes

/-! ### Phases -/

def Block.tag : Block → Option Tag
  | .didWriteData tag => some tag
  | _ => none

def Block.isLine : Block → Bool
  | .didReadData _ => true
  | _ => false

def Tag.inner : Tag → Bool
  | .response => false
  | .finalResponse => false
  | _ => true

section

variable {μ : Type}

namespace HTTPConnection

/-- The tags of the writes the connection has not yet been told of. -/
def pending (c : HTTPConnection μ) : List Tag :=
  c.blocks.filterMap Block.tag ++ c.writeQueue.map Prod.fst

/-- The lines that are read or wait to be handled. -/
def reads (c : HTTPConnection μ) : Nat := c.blocks.countP Block.isLine + if c.reading then 1 else 0

/-- The lengths of the data in the queue of the socket. -/
def bodies (c : HTTPConnection μ) : List Nat :=
  (c.writeQueue.filter fun write => write.1 == .chunkedResponseBody).map fun write =>
    write.2.length

/-- What was written and what is queued is the replies, one after another. -/
structure Posted (c : HTTPConnection μ) : Prop where
  wire : c.written ++ (c.writeQueue.map Prod.snd).flatten =
    c.replies.flatMap (Reply.bytes c.responses)
  sound : ∀ reply ∈ c.replies, reply.Sound c.responses
  below : ∀ reply ∈ c.replies, reply.Below c.count
  senders : ∀ sender, .responseHasAvailableData sender ∈ c.blocks → sender < c.count
  unborn : ∀ id, c.count ≤ id → (c.responses id).calls = []

/-- Nothing is under way: every reply is on the wire. -/
structure Free (c : HTTPConnection μ) : Prop where
  pending : c.pending = []
  sizes : c.responseDataSizes = []
  whole : ∀ reply ∈ c.replies, reply.SentWhole c.responses

structure Reading (c : HTTPConnection μ) : Prop extends Free c where
  reads : c.reads = 1 ∨ c.reads = 0 ∧ (c.connected = false ∨ c.crashed = true)
  idle : c.httpResponse = none

/-- A reply without chunks is being written. -/
structure Finishing (c : HTTPConnection μ) : Prop where
  pending : c.pending = [.response] ∨ c.pending = [.finalResponse]
  reads : c.reads = 0
  sizes : c.responseDataSizes = []
  silent : ∀ id, c.httpResponse = some id →
    (c.responses id).calls = [] ∧ .responseHasAvailableData id ∉ c.blocks
  whole : ∀ reply ∈ c.replies, reply.SentWhole c.responses

/-- The chunks of a response are being written. -/
structure Streaming (c : HTTPConnection μ) (id : Nat) : Prop where
  current : c.httpResponse = some id
  headed : c.sentResponseHeaders = true
  linked : (c.responses id).response.connection = true
  reads : c.reads = 0
  last : ∃ past head start, c.replies = past ++ [.page head id start] ∧
    ∀ reply ∈ past, reply.Below id ∧ reply.SentWhole c.responses
  sizes : c.pending.count .chunkedResponseBody = c.responseDataSizes.length
  queued : c.bodies <:+ c.responseDataSizes
  room : c.writeQueueSize ≤ readChunkSize

/-- The last of the pending writes goes on with the response, or ends it. -/
def Closing (c : HTTPConnection μ) (id : Nat) : Prop :=
  (c.pending = [] ∧ (c.responses id).response.isDone = false) ∨
    ∃ front, (∀ tag ∈ front, tag.inner = true) ∧ c.pending = front ++
      [if (c.responses id).response.isDone then .response else .chunkedResponseFooter]

structure Sending (c : HTTPConnection μ) (id : Nat) : Prop extends Streaming c id where
  closing : c.Closing id
  -- somebody will send what is not read yet
  unread : (c.responses id).response.theOffset < (c.responses id).response.dataBuffer.length →
    .chunkedResponseFooter ∈ c.pending ∨ .responseHasAvailableData id ∈ c.blocks

/-- The socket is gone, and nothing is left that could reply. -/
structure Ended (c : HTTPConnection μ) : Prop where
  gone : c.connected = false
  told : c.blocks.filterMap Block.tag = []
  lines : c.blocks.countP Block.isLine = 0
  idle : c.httpResponse = none
  whole : ∀ reply ∈ c.replies.dropLast, reply.SentWhole c.responses

/-- Nothing of the socket comes behind the news that it is gone. -/
def Linked (c : HTTPConnection μ) : Prop :=
  if c.connected = true then .socketDidDisconnect ∉ c.blocks
  else ∃ before after, c.blocks = before ++ .socketDidDisconnect :: after ∧
    .socketDidDisconnect ∉ before ∧ after.filterMap Block.tag = [] ∧ after.countP Block.isLine = 0

def Phase (c : HTTPConnection μ) : Prop :=
  c.Linked ∧ (c.Reading ∨ c.Finishing ∨ ∃ id, c.Sending id) ∨ c.Ended

structure Orderly (c : HTTPConnection μ) : Prop extends Posted c where
  phase : c.Phase

/-! ### Chunks -/

section Chunks

variable {c : HTTPConnection μ} {id available : Nat}

theorem sendChunk_nothing (nothing : nextData (c.responses id).response available = []) :
    c.sendChunk id available = c := by
  have same := Function.update_eq_self id c.responses
  rw [sendChunk, readDataOfLength_eq, send_nothing nothing, same]
  exact if_pos nothing

/-- The write behind the data of a chunk. -/
def behindData (r : SearchResponse) : Tag × Bytes :=
  if r.isDone then (.response, chunkedTransferFooter) else (.chunkedResponseFooter, newline)

/-- What a chunk of some data does to the connection. -/
structure Sent (c : HTTPConnection μ) (id available : Nat) (c' : HTTPConnection μ) : Prop where
  responses : c'.responses = Function.update c.responses id ((c.responses id).send available)
  sizes : c'.responseDataSizes =
    c.responseDataSizes ++ [(nextData (c.responses id).response available).length]
  queue : c'.writeQueue = c.writeQueue ++
    [(.chunkedResponseHeader, sizeLine (nextData (c.responses id).response available).length),
      (.chunkedResponseBody, nextData (c.responses id).response available),
      behindData (advanced (c.responses id).response available)]
  replies : c'.replies = c.replies
  blocks : c'.blocks = c.blocks
  count : c'.count = c.count
  written : c'.written = c.written
  current : c'.httpResponse = c.httpResponse
  headed : c'.sentResponseHeaders = c.sentResponseHeaders
  reading : c'.reading = c.reading
  connected : c'.connected = c.connected

theorem sendChunk_sent (more : nextData (c.responses id).response available ≠ []) :
    Sent c id available (c.sendChunk id available) := by
  rw [sendChunk, readDataOfLength_eq]
  dsimp only
  rw [if_neg more]
  cases done : (advanced (c.responses id).response available).isDone with
  | true => constructor <;> simp [writeData, behindData, done]
  | false => constructor <;> simp [writeData, behindData, done]

theorem sendChunk_replies (c : HTTPConnection μ) (id available : Nat) :
    (c.sendChunk id available).replies = c.replies := by
  by_cases nothing : nextData (c.responses id).response available = []
  · rw [sendChunk_nothing nothing]
  · exact (sendChunk_sent nothing).replies

/-- The bytes of a chunk are those of the three writes. -/
private theorem send_bytes {s : Serving} (more : nextData s.response available ≠ []) :
    (s.send available).sent.flatMap chunkBytes =
      s.sent.flatMap chunkBytes ++ (sizeLine (nextData s.response available).length ++
        (nextData s.response available ++ (behindData (advanced s.response available)).2)) := by
  have ends : newline ++ chunk [] = chunkedTransferFooter := by decide
  rw [send_more more, List.flatMap_append, List.flatMap_cons, behindData]
  cases (advanced s.response available).isDone with
  | true => simp [chunkBytes, chunk, ← ends]
  | false => simp [chunkBytes, chunk]

/-- The replies in front of the response that is sent do not see it. -/
theorem Streaming.past (streaming : c.Streaming id) (s : Serving) :
    ∃ past head start, c.replies = past ++ [.page head id start] ∧ ∀ reply ∈ past,
      reply.Below id ∧ reply.SentWhole (Function.update c.responses id s) ∧
        reply.bytes (Function.update c.responses id s) = reply.bytes c.responses ∧
        (reply.Sound (Function.update c.responses id s) ↔ reply.Sound c.responses) := by
  obtain ⟨past, head, start, replies, earlier⟩ := streaming.last
  refine ⟨past, head, start, replies, fun reply member => ?_⟩
  obtain ⟨below, whole⟩ := earlier reply member
  obtain ⟨bytes, sound, same⟩ := below_update c.responses (Nat.le_refl id) s below
  exact ⟨below, same.mpr whole, bytes, sound⟩

private theorem Posted.born (posted : c.Posted) (streaming : c.Streaming id) : id < c.count := by
  obtain ⟨past, head, start, replies, -⟩ := streaming.last
  exact posted.below (.page head id start) (by rw [replies]; simp)

theorem Posted.current (posted : c.Posted) (streaming : c.Streaming id) :
    FrontSent (c.responses id) := by
  obtain ⟨past, head, start, replies, -⟩ := streaming.last
  exact (posted.sound (.page head id start) (by rw [replies]; simp)).1

theorem Posted.chunk {c' : HTTPConnection μ} (posted : c.Posted) (streaming : c.Streaming id)
    (more : nextData (c.responses id).response available ≠ []) (sent : Sent c id available c') :
    c'.Posted := by
  obtain ⟨past, head, start, replies, earlier⟩ :=
    streaming.past ((c.responses id).send available)
  have born := posted.born streaming
  have wire := posted.wire
  have sound := posted.sound
  rw [replies] at wire sound
  refine ⟨?_, ?_, ?_, ?_, ?_⟩
  · have front : past.flatMap (Reply.bytes c'.responses) = past.flatMap (Reply.bytes c.responses) := by
      rw [sent.responses]
      exact List.flatMap_congr fun reply member => (earlier reply member).2.2.1
    rw [List.flatMap_append, List.flatMap_singleton, Reply.bytes] at wire
    rw [sent.written, sent.queue, sent.replies, replies, List.flatMap_append, front,
      List.flatMap_singleton, Reply.bytes, sent.responses, Function.update_self, send_bytes more,
      List.map_append, List.flatten_append, ← List.append_assoc, wire]
    simp
  · intro reply member
    rw [sent.replies, replies] at member
    rw [sent.responses]
    rcases List.mem_append.mp member with before | here
    · exact ((earlier reply before).2.2.2).mpr (sound reply (List.mem_append_left _ before))
    · obtain ⟨frontSent, follows⟩ := sound (.page head id start) (by simp)
      rw [List.mem_singleton.mp here, Reply.Sound, Function.update_self]
      have linked : ((c.responses id).send available).response.connection = true := by
        rw [send_more more]
        exact streaming.linked
      exact ⟨honest_send frontSent available,
        follows_step follows streaming.linked (.send available) linked⟩
  · rw [sent.replies, sent.count]
    exact posted.below
  · rw [sent.blocks, sent.count]
    exact posted.senders
  · rw [sent.count, sent.responses]
    intro id' unborn
    rw [Function.update_of_ne (by omega)]
    exact posted.unborn id' unborn

/-- The next data of a response, as a whole chunk behind what is queued. -/
theorem Streaming.chunk {c' : HTTPConnection μ} (streaming : c.Streaming id)
    (inner : ∀ tag ∈ c.pending, tag.inner = true)
    (room : available ≤ readChunkSize - c.writeQueueSize)
    (more : nextData (c.responses id).response available ≠ []) (sent : Sent c id available c') :
    c'.Sending id := by
  obtain ⟨past, head, start, replies, earlier⟩ :=
    streaming.past ((c.responses id).send available)
  have moved : (c'.responses id).response = advanced (c.responses id).response available := by
    rw [sent.responses, Function.update_self, send_more more]
  have tags : c'.pending = c.pending ++ [.chunkedResponseHeader, .chunkedResponseBody,
      if (c'.responses id).response.isDone then .response else .chunkedResponseFooter] := by
    rw [pending, sent.blocks, sent.queue, moved, List.map_append, ← List.append_assoc, ← pending,
      behindData]
    split <;> rfl
  have within : (nextData (c.responses id).response available).length ≤ available := by
    rw [nextData, List.length_take]
    exact Nat.min_le_left ..
  refine ⟨⟨?_, ?_, ?_, ?_, ?_, ?_, ?_, ?_⟩, ?_, ?_⟩
  · rw [sent.current]
    exact streaming.current
  · rw [sent.headed]
    exact streaming.headed
  · rw [moved]
    exact streaming.linked
  · rw [HTTPConnection.reads, sent.blocks, sent.reading]
    exact streaming.reads
  · refine ⟨past, head, start, by rw [sent.replies, replies], fun reply member => ?_⟩
    obtain ⟨below, whole, -⟩ := earlier reply member
    rw [sent.responses]
    exact ⟨below, whole⟩
  · have one : [Tag.chunkedResponseHeader, .chunkedResponseBody,
        if (c'.responses id).response.isDone then .response else .chunkedResponseFooter].count
          .chunkedResponseBody = 1 := by
      split <;> rfl
    rw [tags, List.count_append, one, streaming.sizes, sent.sizes, List.length_append]
    rfl
  · have queue : c'.bodies = c.bodies ++ [(nextData (c.responses id).response available).length] := by
      rw [bodies, sent.queue, List.filter_append, List.map_append, ← bodies, behindData]
      split <;> rfl
    obtain ⟨front, sizes⟩ := streaming.queued
    rw [queue, sent.sizes, ← sizes]
    exact ⟨front, (List.append_assoc ..).symm⟩
  · have before := streaming.room
    rw [writeQueueSize, sent.sizes, List.sum_append, ← writeQueueSize, List.sum_singleton]
    omega
  · refine .inr ⟨c.pending ++ [.chunkedResponseHeader, .chunkedResponseBody], ?_, ?_⟩
    · intro tag member
      rcases List.mem_append.mp member with before | here
      · exact inner tag before
      · simp only [List.mem_cons, List.not_mem_nil, or_false] at here
        rcases here with rfl | rfl <;> rfl
    · rw [tags, List.append_assoc]
      rfl
  · intro unread
    have open_ : (c'.responses id).response.isDone = false := by
      rw [SearchResponse.isDone, decide_eq_false (by omega), Bool.and_false]
    rw [tags, open_]
    exact .inl (by simp)

/-- `continueSendingStandardResponseBody` leaves nothing unread without somebody who will send it. -/
private theorem Streaming.continue_ (posted : c.Posted) (streaming : c.Streaming id)
    (closing : c.Closing id) :
    c.continueSendingStandardResponseBody.Posted ∧
      c.continueSendingStandardResponseBody.Sending id := by
  have frontSent := posted.current streaming
  -- nothing is read where the queue is full, or all is read
  have waits : ((c.responses id).response.theOffset < (c.responses id).response.dataBuffer.length →
      .chunkedResponseFooter ∈ c.pending) → c.Posted ∧ c.Sending id :=
    fun footer => ⟨posted, streaming, closing, fun unread => .inl (footer unread)⟩
  rw [continueSendingStandardResponseBody]
  split
  next full =>
    refine waits fun unread => ?_
    have open_ : (c.responses id).response.isDone = false := by
      rw [SearchResponse.isDone, decide_eq_false (by omega), Bool.and_false]
    rcases closing with ⟨missing, -⟩ | ⟨front, -, pending⟩
    · have sizes := streaming.sizes
      rw [missing, List.count_nil] at sizes
      rw [writeQueueSize, List.eq_nil_of_length_eq_zero sizes.symm] at full
      exact absurd full (by decide)
    · rw [pending, open_]
      simp
  next room =>
    rw [streaming.current]
    dsimp only
    have present : 0 < readChunkSize - c.writeQueueSize := by omega
    by_cases all : nextData (c.responses id).response (readChunkSize - c.writeQueueSize) = []
    · rw [sendChunk_nothing all]
      refine waits fun unread => ?_
      have spent := (nextData_nil_iff _ present).mp all
      omega
    · have open_ := isDone_of_nextData all
      have inner : ∀ tag ∈ c.pending, tag.inner = true := by
        rcases closing with ⟨missing, -⟩ | ⟨front, inner, pending⟩
        · rw [missing]
          exact List.forall_mem_nil _
        · rw [pending, open_]
          intro tag member
          rcases List.mem_append.mp member with before | last
          · exact inner tag before
          · rw [List.mem_singleton.mp last]
            rfl
      have sent := sendChunk_sent all
      exact ⟨posted.chunk streaming all sent,
        streaming.chunk inner (Nat.le_refl _) all sent⟩

end Chunks

/-! ### The queue of blocks -/

section Queue

variable {c : HTTPConnection μ}

theorem Posted.blocks (posted : c.Posted) {blocks : List Block}
    (senders : ∀ sender, .responseHasAvailableData sender ∈ blocks → sender < c.count) :
    Posted { c with blocks := blocks } :=
  ⟨posted.wire, posted.sound, posted.below, senders, posted.unborn⟩

theorem Posted.rest (posted : c.Posted) {block : Block} {rest : List Block}
    (blocks : c.blocks = block :: rest) : Posted { c with blocks := rest } := by
  apply posted.blocks
  intro sender member
  apply posted.senders
  rw [blocks]
  exact List.mem_cons_of_mem _ member

theorem Linked.rest (linked : c.Linked) {block : Block} {rest : List Block}
    (blocks : c.blocks = block :: rest) (other : block ≠ .socketDidDisconnect) :
    Linked { c with blocks := rest } := by
  unfold Linked at linked ⊢
  rw [blocks] at linked
  split
  next connected =>
    rw [if_pos connected] at linked
    exact fun member => linked (List.mem_cons_of_mem _ member)
  next gone =>
    rw [if_neg gone] at linked
    obtain ⟨before, after, split, apart, tags, lines⟩ := linked
    cases before with
    | nil => exact absurd (List.cons.inj split).1 other
    | cons first before =>
      exact ⟨before, after, (List.cons.inj split).2,
        fun member => apart (List.mem_cons_of_mem _ member), tags, lines⟩

/-- Once the news comes that the socket is gone, nothing of the socket is behind it. -/
theorem Linked.gone (linked : c.Linked) {rest : List Block}
    (blocks : c.blocks = .socketDidDisconnect :: rest) :
    c.connected = false ∧ rest.filterMap Block.tag = [] ∧ rest.countP Block.isLine = 0 := by
  unfold Linked at linked
  rw [blocks] at linked
  split at linked
  next => exact absurd (List.mem_cons_self ..) linked
  next gone =>
    obtain ⟨before, after, split, apart, tags, lines⟩ := linked
    cases before with
    | nil =>
      rw [(List.cons.inj split).2]
      exact ⟨by simpa using gone, tags, lines⟩
    | cons first before =>
      rw [(List.cons.inj split).1] at apart
      exact absurd (List.mem_cons_self ..) apart

/-- A block of a socket that is there, or of a response. -/
theorem Linked.push (linked : c.Linked) (block : Block) (other : block ≠ .socketDidDisconnect)
    (there : c.connected = true ∨ block.tag = none ∧ block.isLine = false) :
    Linked { c with blocks := c.blocks ++ [block] } := by
  unfold Linked at linked ⊢
  split
  next connected =>
    rw [if_pos connected] at linked
    intro member
    rcases List.mem_append.mp member with before | here
    · exact linked before
    · exact other (List.mem_singleton.mp here).symm
  next gone =>
    rw [if_neg gone] at linked
    obtain ⟨before, after, split, apart, tags, lines⟩ := linked
    obtain ⟨untagged, unread⟩ := there.resolve_left gone
    refine ⟨before, after ++ [block], ?_, apart, ?_, ?_⟩
    · show c.blocks ++ [block] = _
      rw [split, List.append_assoc]
      rfl
    · rw [List.filterMap_append, tags, List.filterMap_cons, untagged]
      rfl
    · rw [List.countP_append, lines, List.countP_singleton, unread]
      rfl

theorem Linked.disconnect (linked : c.Linked) : c.disconnect.Linked := by
  cases connected : c.connected with
  | false =>
    rw [HTTPConnection.disconnect, connected]
    exact linked
  | true =>
    unfold Linked at linked
    rw [if_pos connected] at linked
    rw [HTTPConnection.disconnect, if_pos connected]
    exact ⟨c.blocks, [], rfl, linked, rfl, rfl⟩

theorem Posted.disconnect (posted : c.Posted) : c.disconnect.Posted := by
  unfold HTTPConnection.disconnect
  split
  · refine ⟨posted.wire, posted.sound, posted.below, fun sender member => ?_, posted.unborn⟩
    rcases List.mem_append.mp member with before | here
    · exact posted.senders sender before
    · exact absurd (List.mem_singleton.mp here) nofun
  · exact posted

theorem disconnect_blocks (c : HTTPConnection μ) :
    c.disconnect.blocks.filterMap Block.tag = c.blocks.filterMap Block.tag ∧
      c.disconnect.blocks.countP Block.isLine = c.blocks.countP Block.isLine ∧
      c.disconnect.connected = false := by
  unfold HTTPConnection.disconnect
  split
  · refine ⟨?_, ?_, rfl⟩
    · rw [List.filterMap_append]
      exact List.append_nil _
    · rw [List.countP_append]
      rfl
  next gone => exact ⟨rfl, rfl, by simpa using gone⟩

theorem disconnect_same (c : HTTPConnection μ) :
    c.disconnect.responses = c.responses ∧ c.disconnect.replies = c.replies ∧
      c.disconnect.httpResponse = c.httpResponse ∧ c.disconnect.writeQueue = c.writeQueue ∧
      c.disconnect.responseDataSizes = c.responseDataSizes ∧ c.disconnect.reading = c.reading := by
  unfold HTTPConnection.disconnect
  split <;> exact ⟨rfl, rfl, rfl, rfl, rfl, rfl⟩

end Queue

/-! ### The end of a response -/

section Ends

variable {c : HTTPConnection μ}

/-- A response whose connection is closed sends what it did, and is as whole as it was. -/
private theorem closed_reply (responses : Nat → Serving) (id : Nat) (reply : Reply) :
    let closed : Serving :=
      { responses id with response := { (responses id).response with connection := false } }
    reply.bytes (Function.update responses id closed) = reply.bytes responses ∧
      (reply.Sound responses → reply.Sound (Function.update responses id closed)) ∧
      (reply.SentWhole responses → reply.SentWhole (Function.update responses id closed)) := by
  intro closed
  refine ⟨bytes_update (s := closed) id rfl reply, ?_, ?_⟩
  · cases reply with
    | error head => exact fun _ => trivial
    | bare head start => exact fun _ => trivial
    | page head id' start =>
      by_cases same : id' = id
      · subst same
        rintro ⟨⟨sent, within, calls, -⟩, labels, log, response, left⟩
        show FrontSent _ ∧ ServedFrom start _
        rw [Function.update_self]
        exact ⟨⟨sent, within, calls, nofun⟩, labels, log, response,
          fun spent => left (.inr (spent.resolve_left Bool.false_ne_true))⟩
      · rw [Reply.Sound, Reply.Sound, Function.update_of_ne same]
        exact fun sound => sound
  · cases reply with
    | error head => exact fun _ => trivial
    | bare head start => exact fun _ => trivial
    | page head id' start =>
      by_cases same : id' = id
      · subst same
        rw [Reply.SentWhole, Reply.SentWhole, Function.update_self]
        exact fun whole => whole
      · rw [Reply.SentWhole, Reply.SentWhole, Function.update_of_ne same]
        exact fun whole => whole

/-- What a connection that closes its response keeps. -/
theorem connectionDidClose_same (c : HTTPConnection μ) :
    (c.Posted → c.connectionDidClose.Posted) ∧
      ((∀ reply ∈ c.replies, reply.SentWhole c.responses) →
        ∀ reply ∈ c.replies, reply.SentWhole c.connectionDidClose.responses) ∧
      ((∀ reply ∈ c.replies.dropLast, reply.SentWhole c.responses) →
        ∀ reply ∈ c.replies.dropLast, reply.SentWhole c.connectionDidClose.responses) ∧
      ∃ responses, c.connectionDidClose = { c with responses := responses } := by
  unfold connectionDidClose
  split
  · exact ⟨fun posted => posted, fun whole => whole, fun whole => whole, c.responses, rfl⟩
  next id current =>
    have closed := closed_reply c.responses id
    refine ⟨fun posted => ⟨?_, ?_, posted.below, posted.senders, ?_⟩, ?_, ?_, _, rfl⟩
    · show c.written ++ (c.writeQueue.map Prod.snd).flatten = c.replies.flatMap _
      rw [posted.wire]
      exact List.flatMap_congr fun reply _ => (closed reply).1.symm
    · exact fun reply member => (closed reply).2.1 (posted.sound reply member)
    · intro id' unborn
      show (Function.update c.responses id _ id').calls = []
      by_cases same : id' = id
      · rw [same, Function.update_self, ← same]
        exact posted.unborn id' unborn
      · rw [Function.update_of_ne same]
        exact posted.unborn id' unborn
    · exact fun whole reply member => (closed reply).2.2 (whole reply member)
    · exact fun whole reply member => (closed reply).2.2 (whole reply member)

theorem Free.tags (free : c.Free) : c.blocks.filterMap Block.tag = [] ∧ c.writeQueue = [] := by
  have both := List.append_eq_nil_iff.mp free.pending
  exact ⟨both.1, List.map_eq_nil_iff.mp both.2⟩

theorem reads_zero (missing : c.reads = 0) :
    c.blocks.countP Block.isLine = 0 ∧ c.reading = false := by
  have both := Nat.add_eq_zero_iff.mp missing
  refine ⟨both.1, ?_⟩
  cases reading : c.reading with
  | false => rfl
  | true =>
    rw [reading] at both
    exact absurd both.2 (by decide)

/-- The connection is given up where nothing is under way. -/
theorem Posted.ended (posted : c.Posted) (tags : c.blocks.filterMap Block.tag = [])
    (missing : c.blocks.countP Block.isLine = 0) (idle : c.httpResponse = none)
    (whole : ∀ reply ∈ c.replies, reply.SentWhole c.responses) : c.disconnect.Orderly := by
  obtain ⟨tags', lines', gone⟩ := disconnect_blocks c
  obtain ⟨responses, replies, current, -⟩ := disconnect_same c
  refine ⟨posted.disconnect, .inr ⟨gone, tags'.trans tags, lines'.trans missing,
    current.trans idle, ?_⟩⟩
  rw [responses, replies]
  exact fun reply member => whole reply (List.mem_of_mem_dropLast member)

/-- Once its last write is done the reply is over. -/
theorem Posted.done (messages : Messages μ) (lower : Bytes → Bytes) (posted : c.Posted)
    (linked : c.Linked) (pending : c.pending = []) (sizes : c.responseDataSizes.tail = [])
    (reads : c.reads = 0) (whole : ∀ reply ∈ c.replies, reply.SentWhole c.responses) (tag : Tag) :
    (c.doneSendingResponse messages lower tag).Orderly := by
  let c₁ : HTTPConnection μ := { c with responseDataSizes := c.responseDataSizes.tail }
  have posted₁ : c₁.Posted :=
    ⟨posted.wire, posted.sound, posted.below, posted.senders, posted.unborn⟩
  obtain ⟨closed, wholes, -, responses, same⟩ := connectionDidClose_same c₁
  have posted₂ := closed posted₁
  have whole₂ := wholes whole
  have missing := reads_zero reads
  have tags := (List.append_eq_nil_iff.mp pending).1
  rw [doneSendingResponse]
  dsimp only
  show (if tag = .finalResponse then c₁.connectionDidClose.finishResponse.disconnect
    else if _ then c₁.connectionDidClose.finishResponse.disconnect else _).Orderly
  rw [same] at posted₂ whole₂ ⊢
  have finished : HTTPConnection.Posted (finishResponse { c₁ with responses := responses }) :=
    ⟨posted₂.wire, posted₂.sound, posted₂.below, posted₂.senders, posted₂.unborn⟩
  have spent := finished.ended tags missing.1 rfl whole₂
  split
  · exact spent
  split
  · exact spent
  · refine ⟨⟨finished.wire, finished.sound, finished.below, finished.senders, finished.unborn⟩,
      .inl ⟨linked, .inl ⟨⟨pending, sizes, whole₂⟩, .inl ?_, rfl⟩⟩⟩
    show c.blocks.countP Block.isLine + 1 = 1
    rw [missing.1]

end Ends

/-! ### Replies to a request -/

section Requests

variable {c : HTTPConnection μ} (messages : Messages μ) (lower : Bytes → Bytes) (now : Instant)

/-- A request has come in, and nothing is under way. -/
structure Ready (c : HTTPConnection μ) : Prop extends Free c where
  posted : c.Posted
  linked : c.Linked
  reads : c.reads = 0
  idle : c.httpResponse = none

/-- The head of a reply is queued. -/
theorem Posted.post (posted : c.Posted) (reply : Reply) (head : Bytes)
    (bytes : reply.bytes c.responses = head) (sound : reply.Sound c.responses)
    (below : reply.Below c.count) (tag : Tag) : (c.post head tag reply).Posted := by
  refine ⟨?_, ?_, ?_, posted.senders, posted.unborn⟩
  · show c.written ++ ((c.writeQueue ++ [(tag, head)]).map Prod.snd).flatten =
      (c.replies ++ [reply]).flatMap (Reply.bytes c.responses)
    rw [List.map_append, List.flatten_append, ← List.append_assoc, posted.wire,
      List.flatMap_append, List.flatMap_singleton, bytes]
    simp
  · intro reply' member
    rcases List.mem_append.mp member with before | here
    · exact posted.sound reply' before
    · rw [List.mem_singleton.mp here]
      exact sound
  · intro reply' member
    rcases List.mem_append.mp member with before | here
    · exact posted.below reply' before
    · rw [List.mem_singleton.mp here]
      exact below

theorem Free.post_pending (free : c.Free) (head : Bytes) (tag : Tag) (reply : Reply) :
    (c.post head tag reply).pending = [tag] := by
  show c.blocks.filterMap Block.tag ++ (c.writeQueue ++ [(tag, head)]).map Prod.fst = [tag]
  rw [free.tags.1, free.tags.2]
  rfl

/-- A reply without chunks, once its head is queued. -/
theorem Free.post (free : c.Free) (reads : c.reads = 0)
    (silent : ∀ id, c.httpResponse = some id →
      (c.responses id).calls = [] ∧ .responseHasAvailableData id ∉ c.blocks)
    (reply : Reply) (whole : reply.SentWhole c.responses) (head : Bytes) {tag : Tag}
    (last : tag = .response ∨ tag = .finalResponse) : (c.post head tag reply).Finishing := by
  have pending := free.post_pending head tag reply
  refine ⟨?_, reads, free.sizes, silent, ?_⟩
  · rw [pending]
    rcases last with rfl | rfl
    · exact .inl rfl
    · exact .inr rfl
  · intro reply' member
    rcases List.mem_append.mp member with before | here
    · exact free.whole reply' before
    · rw [List.mem_singleton.mp here]
      exact whole

theorem Ready.refuse (ready : c.Ready) (status : Nat) (fields : List (Bytes × Bytes)) {tag : Tag}
    (last : tag = .response ∨ tag = .finalResponse) :
    (c.refuse messages now status fields tag).Orderly := by
  have silent : ∀ id, c.httpResponse = some id →
      (c.responses id).calls = [] ∧ .responseHasAvailableData id ∉ c.blocks := by
    rw [ready.idle]
    nofun
  rw [HTTPConnection.refuse]
  generalize messages.messageData _ = head
  have posted := ready.posted.post (.error head) head rfl trivial trivial tag
  have finishing := ready.toFree.post ready.reads silent (.error head) trivial head last
  exact ⟨posted, .inl ⟨ready.linked, .inr (.inl finishing)⟩⟩

/-- A new response, which no reply has seen yet. -/
theorem Ready.respondWith (ready : c.Ready) (s : Serving) :
    (c.respondWith s).headersSent.Posted ∧ (c.respondWith s).headersSent.Free := by
  have others : ∀ reply ∈ c.replies, _ := fun reply member =>
    below_update c.responses (Nat.le_refl c.count) s (ready.posted.below reply member)
  refine ⟨⟨?_, ?_, ?_, ?_, ?_⟩, ready.pending, ready.sizes, ?_⟩
  · show c.written ++ (c.writeQueue.map Prod.snd).flatten = c.replies.flatMap _
    rw [ready.posted.wire]
    exact List.flatMap_congr fun reply member => (others reply member).1.symm
  · exact fun reply member => ((others reply member).2.1).mpr (ready.posted.sound reply member)
  · exact fun reply member => (ready.posted.below reply member).mono (Nat.le_succ _)
  · exact fun sender member => Nat.lt_succ_of_lt (ready.posted.senders sender member)
  · intro id unborn
    have above : c.count + 1 ≤ id := unborn
    show (Function.update c.responses c.count s id).calls = []
    rw [Function.update_of_ne (by omega)]
    exact ready.posted.unborn id (by omega)
  · exact fun reply member => ((others reply member).2.2).mpr (ready.whole reply member)

theorem respondWith_self (c : HTTPConnection μ) (s : Serving) :
    (c.respondWith s).headersSent.responses c.count = s := Function.update_self ..

/-- The head of a page is queued, and the first chunk is to be read. -/
theorem Ready.streaming (ready : c.Ready) (s : Serving) (linked : s.response.connection = true)
    (head : Bytes) :
    ((c.respondWith s).headersSent.post head .partialResponseHeader
      (.page head c.count s)).Streaming c.count := by
  obtain ⟨-, free⟩ := ready.respondWith s
  have pending := free.post_pending head .partialResponseHeader (.page head c.count s)
  refine ⟨rfl, rfl, ?_, ready.reads, ⟨c.replies, head, s, rfl, ?_⟩, ?_, ?_, ?_⟩
  · show ((c.respondWith s).headersSent.responses c.count).response.connection = true
    rw [respondWith_self]
    exact linked
  · exact fun reply member => ⟨ready.posted.below reply member, free.whole reply member⟩
  · rw [pending]
    show 0 = c.responseDataSizes.length
    rw [ready.sizes]
    rfl
  · show ((c.writeQueue ++ [(Tag.partialResponseHeader, head)]).filter _).map _ <:+ _
    rw [ready.tags.2]
    exact List.nil_suffix
  · show c.responseDataSizes.sum ≤ readChunkSize
    rw [ready.sizes]
    exact Nat.zero_le _

theorem Ready.respond (ready : c.Ready) {uri : Bytes} {response : SearchResponse}
    (made : responseWithPath lower now.files now.texts uri = .value response) (method : Bytes)
    (fitsPage : ∀ reply ∈ ((c.respondWith (searchOf lower now uri response)).sendResponseHeadersAndBody
      messages now method c.count).replies, reply.FitsPage) :
    ((c.respondWith (searchOf lower now uri response)).sendResponseHeadersAndBody messages now method
      c.count).Orderly := by
  obtain ⟨linked, offset, filled, -, -⟩ := searchOf_begins made
  have first : (searchOf lower now uri response).response = response := rfl
  have unsent : (searchOf lower now uri response).sent = [] := rfl
  have frontSent := honest_start made
  generalize searchOf lower now uri response = s at *
  have self := respondWith_self c s
  obtain ⟨posted, free⟩ := ready.respondWith s
  have start : (c.respondWith s).responses c.count = s := self
  rw [sendResponseHeadersAndBody, start] at fitsPage ⊢
  generalize messages.messageData _ = head at fitsPage ⊢
  split
  next bare =>
    rw [if_pos bare] at fitsPage
    have empty : s.calls = [] := fitsPage (.bare head s) (List.mem_append_right _ (by simp))
    have silent : ∀ id, some c.count = some id →
        ((c.respondWith s).headersSent.responses id).calls = [] ∧
          .responseHasAvailableData id ∉ c.blocks := by
      intro id current
      obtain rfl := Option.some.inj current
      rw [self]
      exact ⟨empty, fun member => absurd (ready.posted.senders _ member) (Nat.lt_irrefl _)⟩
    have finishing := free.post ready.reads silent (.bare head s) trivial head (.inl rfl)
    have posted' := posted.post (.bare head s) head rfl trivial trivial .response
    exact ⟨posted', .inl ⟨ready.linked, .inr (.inl finishing)⟩⟩
  next other =>
    rw [if_neg other, sendChunk_replies] at fitsPage
    have few : s.calls.length ≤ 11 :=
      fitsPage (.page head c.count s) (List.mem_append_right _ (by simp))
    have streaming := ready.streaming s (by rw [first]; exact linked) head
    have posted' := posted.post (.page head c.count s) head
      (by rw [Reply.bytes, self, unsent]; exact List.append_nil _)
      (by rw [Reply.Sound, self]; exact ⟨frontSent few, follows_refl (by rw [first]; exact linked)⟩)
      (Nat.lt_succ_self _) .partialResponseHeader
    have pending := free.post_pending head .partialResponseHeader (.page head c.count s)
    have more : nextData (((c.respondWith s).headersSent.post head .partialResponseHeader
        (.page head c.count s)).responses c.count).response readChunkSize ≠ [] := by
      show nextData ((c.respondWith s).headersSent.responses c.count).response readChunkSize ≠ []
      rw [self, first, ne_eq, nextData_nil_iff _ (by decide), offset]
      have long := List.length_pos_iff.mpr filled
      omega
    have inner : ∀ tag ∈ ((c.respondWith s).headersSent.post head .partialResponseHeader
        (.page head c.count s)).pending, tag.inner = true := by
      rw [pending]
      intro tag member
      rw [List.mem_singleton.mp member]
      rfl
    have room : readChunkSize ≤ readChunkSize - c.responseDataSizes.sum := by
      rw [ready.sizes]
      exact Nat.le_refl _
    have sent := sendChunk_sent more
    have still : ((c.respondWith s).headersSent.post head .partialResponseHeader
        (.page head c.count s)).sendChunk c.count readChunkSize |>.Linked := by
      unfold HTTPConnection.Linked
      rw [sent.connected, sent.blocks]
      exact ready.linked
    exact ⟨posted'.chunk streaming more sent,
      .inl ⟨still, .inr (.inr ⟨c.count, streaming.chunk inner room more sent⟩)⟩⟩

theorem Ready.reply (ready : c.Ready) (m : μ)
    (fitsPage : ∀ reply ∈ (c.replyToHTTPRequest messages lower now m).replies, reply.FitsPage) :
    (c.replyToHTTPRequest messages lower now m).Orderly := by
  unfold replyToHTTPRequest at fitsPage ⊢
  dsimp only at fitsPage ⊢
  split
  · exact ready.refuse messages now 505 [] (.inl rfl)
  next served =>
    rw [if_neg served] at fitsPage
    split
    · exact ready.refuse messages now 404 [] (.inl rfl)
    next plain =>
      rw [if_neg plain] at fitsPage
      split
      · exact ready.refuse messages now 404 [] (.inl rfl)
      next other =>
        rw [if_neg other] at fitsPage
        split
        next =>
          -- the application ends, and the connection with it
          have posted : HTTPConnection.Posted { c with crashed := true } :=
            ⟨ready.posted.wire, ready.posted.sound, ready.posted.below, ready.posted.senders,
              ready.posted.unborn⟩
          exact ⟨posted, .inl ⟨ready.linked, .inl ⟨⟨ready.pending, ready.sizes, ready.whole⟩,
            .inr ⟨ready.reads, .inr rfl⟩, ready.idle⟩⟩⟩
        next response made =>
          rw [made] at fitsPage
          exact ready.respond messages lower now made (messages.method m) fitsPage

theorem Ready.line (ready : c.Ready) (data : Bytes)
    (fitsPage : ∀ reply ∈ (c.didReadData messages lower now data).replies, reply.FitsPage) :
    (c.didReadData messages lower now data).Orderly := by
  have invalid := ready.refuse messages now 400 [(ascii "Connection", ascii "close")]
    (.inr rfl)
  unfold didReadData at fitsPage ⊢
  split
  · exact invalid
  next m read =>
    rw [read] at fitsPage
    have ready₁ : HTTPConnection.Ready { c with request := some m } :=
      ⟨⟨ready.pending, ready.sizes, ready.whole⟩, ⟨ready.posted.wire, ready.posted.sound,
        ready.posted.below, ready.posted.senders, ready.posted.unborn⟩, ready.linked, ready.reads,
        ready.idle⟩
    dsimp only at fitsPage ⊢
    split
    · have posted : HTTPConnection.Posted
          { c with request := some m, numHeaderLines := c.numHeaderLines + 1 } :=
        ⟨ready.posted.wire, ready.posted.sound, ready.posted.below, ready.posted.senders,
          ready.posted.unborn⟩
      have missing := reads_zero ready.reads
      split
      · exact posted.ended ready.tags.1 missing.1 ready.idle ready.whole
      · refine ⟨⟨posted.wire, posted.sound, posted.below, posted.senders, posted.unborn⟩,
          .inl ⟨ready.linked, .inl ⟨⟨ready.pending, ready.sizes, ready.whole⟩, .inl ?_,
            ready.idle⟩⟩⟩
        show c.blocks.countP Block.isLine + 1 = 1
        rw [missing.1]
    next complete =>
      rw [if_neg complete] at fitsPage
      split
      · exact ready₁.refuse messages now 400 [(ascii "Connection", ascii "close")] (.inr rfl)
      next allowed =>
        rw [if_neg allowed] at fitsPage
        split
        · exact ready₁.refuse messages now 405 [(ascii "Connection", ascii "close")] (.inr rfl)
        next supported =>
          rw [if_neg supported] at fitsPage
          exact ready₁.reply messages lower now m fitsPage

end Requests

/-! ### Steps -/

section Steps

variable {c : HTTPConnection μ} (messages : Messages μ) (lower : Bytes → Bytes) (now : Instant)

/-- The connection is given up by its socket. -/
theorem Orderly.gone (orderly : c.Orderly) {rest : List Block}
    (blocks : c.blocks = .socketDidDisconnect :: rest) :
    (HTTPConnection.die { c with blocks := rest }).Orderly := by
  have posted := orderly.toPosted.rest blocks
  obtain ⟨closed, -, past, responses, same⟩ := connectionDidClose_same { c with blocks := rest }
  have posted₁ := closed posted
  rw [die]
  have spent : c.connected = false ∧ rest.filterMap Block.tag = [] ∧
      rest.countP Block.isLine = 0 ∧ ∀ reply ∈ c.replies.dropLast, reply.SentWhole c.responses := by
    rcases orderly.phase with ⟨linked, phase⟩ | ended
    · obtain ⟨gone, tags, lines⟩ := linked.gone blocks
      refine ⟨gone, tags, lines, ?_⟩
      rcases phase with reading | finishing | ⟨id, sending⟩
      · exact fun reply member => reading.whole reply (List.mem_of_mem_dropLast member)
      · exact fun reply member => finishing.whole reply (List.mem_of_mem_dropLast member)
      · obtain ⟨past, head, start, replies, earlier⟩ := sending.last
        rw [replies, List.dropLast_concat]
        exact fun reply member => (earlier reply member).2
    · have told := ended.told
      have lines := ended.lines
      rw [blocks] at told lines
      rw [List.countP_cons_of_neg (by simp [Block.isLine])] at lines
      exact ⟨ended.gone, told, lines, ended.whole⟩
  obtain ⟨gone, tags, lines, whole⟩ := spent
  have whole₁ := past whole
  rw [same] at posted₁ whole₁ ⊢
  exact ⟨⟨posted₁.wire, posted₁.sound, posted₁.below, posted₁.senders, posted₁.unborn⟩,
    .inr ⟨gone, tags, lines, rfl, whole₁⟩⟩

/-- A line comes in where the connection reads. -/
theorem Orderly.line (orderly : c.Orderly) {data : Bytes} {rest : List Block}
    (blocks : c.blocks = .didReadData data :: rest) : HTTPConnection.Ready { c with blocks := rest } := by
  have present : c.blocks.countP Block.isLine = rest.countP Block.isLine + 1 := by
    rw [blocks, List.countP_cons_of_pos (by rfl)]
  rcases orderly.phase with ⟨linked, reading | finishing | ⟨id, sending⟩⟩ | ended
  · have pending := reading.pending
    have reads := reading.reads
    have whole := reading.whole
    rw [HTTPConnection.pending, blocks] at pending
    rw [HTTPConnection.reads, present] at reads
    refine ⟨⟨pending, reading.sizes, whole⟩, orderly.toPosted.rest blocks,
      linked.rest blocks nofun, ?_, reading.idle⟩
    show rest.countP Block.isLine + (if c.reading then 1 else 0) = 0
    omega
  · have reads := (reads_zero finishing.reads).1
    omega
  · have reads := (reads_zero sending.reads).1
    omega
  · have lines := ended.lines
    omega

/-- `continueSendingStandardResponseBody` only reads, and queues what it read. -/
theorem continue_same (c : HTTPConnection μ) :
    c.continueSendingStandardResponseBody.connected = c.connected ∧
      c.continueSendingStandardResponseBody.blocks = c.blocks ∧
      c.continueSendingStandardResponseBody.replies = c.replies := by
  unfold continueSendingStandardResponseBody
  split
  · exact ⟨rfl, rfl, rfl⟩
  split
  · exact ⟨rfl, rfl, rfl⟩
  next id _ =>
    by_cases nothing : nextData (c.responses id).response (readChunkSize - c.writeQueueSize) = []
    · rw [sendChunk_nothing nothing]
      exact ⟨rfl, rfl, rfl⟩
    · have sent := sendChunk_sent nothing
      exact ⟨sent.connected, sent.blocks, sent.replies⟩

theorem Linked.continue_ (linked : c.Linked) : c.continueSendingStandardResponseBody.Linked := by
  obtain ⟨connected, blocks, -⟩ := continue_same c
  unfold Linked at linked ⊢
  rw [connected, blocks]
  exact linked

section Told

variable {id : Nat} {tag : Tag} {rest : List Block}

theorem pending_told (blocks : c.blocks = .didWriteData tag :: rest) :
    c.pending = tag :: HTTPConnection.pending { c with blocks := rest } := by
  rw [HTTPConnection.pending, blocks]
  rfl

theorem reads_told (blocks : c.blocks = .didWriteData tag :: rest) (reads : c.reads = 0) :
    HTTPConnection.reads { c with blocks := rest } = 0 := by
  rw [HTTPConnection.reads, blocks, List.countP_cons_of_neg (by simp [Block.isLine])] at reads
  exact reads

/-- The response ends with the only write that is pending, and goes on with any other. -/
theorem Sending.told (sending : c.Sending id) (blocks : c.blocks = .didWriteData tag :: rest) :
    (tag = .response ∧ HTTPConnection.pending { c with blocks := rest } = [] ∧
        (c.responses id).response.isDone = true) ∨
      tag.inner = true ∧ HTTPConnection.Closing { c with blocks := rest } id := by
  have pending := pending_told blocks
  rcases sending.closing with ⟨missing, -⟩ | ⟨front, inner, tags⟩
  · rw [missing] at pending
    cases pending
  rw [pending] at tags
  cases front with
  | cons first front =>
    obtain ⟨same, later⟩ := List.cons.inj tags
    refine .inr ⟨?_, .inr ⟨front, fun tag member => inner tag (List.mem_cons_of_mem _ member), later⟩⟩
    rw [same]
    exact inner first (List.mem_cons_self ..)
  | nil =>
    obtain ⟨which, spent⟩ := List.cons.inj tags
    cases done : (c.responses id).response.isDone with
    | true =>
      rw [done, if_pos rfl] at which
      exact .inl ⟨which, spent, rfl⟩
    | false =>
      rw [done, if_neg Bool.false_ne_true] at which
      rw [which]
      exact .inr ⟨rfl, .inl ⟨spent, done⟩⟩

/-- Somebody will still send what is unread, if the connection was told of another write. -/
theorem Sending.unread_told (sending : c.Sending id) (blocks : c.blocks = .didWriteData tag :: rest)
    (other : tag ≠ .chunkedResponseFooter)
    (more : (c.responses id).response.theOffset < (c.responses id).response.dataBuffer.length) :
    .chunkedResponseFooter ∈ HTTPConnection.pending { c with blocks := rest } ∨
      .responseHasAvailableData id ∈ rest := by
  rcases sending.unread more with footer | available
  · rw [pending_told blocks] at footer
    exact .inl ((List.mem_cons.mp footer).resolve_left fun same => other same.symm)
  · rw [blocks] at available
    exact .inr ((List.mem_cons.mp available).resolve_left nofun)

private theorem Sending.streaming_told (sending : c.Sending id)
    (blocks : c.blocks = .didWriteData tag :: rest) (other : tag ≠ .chunkedResponseBody) :
    HTTPConnection.Streaming { c with blocks := rest } id := by
  have sizes := sending.sizes
  rw [pending_told blocks, List.count_cons_of_ne other] at sizes
  exact ⟨sending.current, sending.headed, sending.linked, reads_told blocks sending.reads,
    sending.last, sizes, sending.queued, sending.room⟩

/-- A body is written: there is room for as much in the queue. -/
private theorem Sending.body_told (sending : c.Sending id)
    (blocks : c.blocks = .didWriteData .chunkedResponseBody :: rest) :
    HTTPConnection.Streaming
      { c with blocks := rest, responseDataSizes := c.responseDataSizes.tail } id := by
  have sizes := sending.sizes
  rw [pending_told blocks, List.count_cons_self] at sizes
  obtain ⟨size, later, split⟩ : ∃ size later, c.responseDataSizes = size :: later := by
    cases split : c.responseDataSizes with
    | nil =>
      rw [split] at sizes
      cases sizes
    | cons size later => exact ⟨size, later, rfl⟩
  have queued := sending.queued
  have room := sending.room
  rw [split] at sizes queued
  rw [writeQueueSize, split, List.sum_cons] at room
  have few : c.bodies.length ≤ later.length := by
    have counted : c.bodies.length = (c.writeQueue.map Prod.fst).count .chunkedResponseBody := by
      rw [bodies, List.length_map, List.count, List.countP_map, List.countP_eq_length_filter]
      rfl
    have inside : (c.writeQueue.map Prod.fst).count .chunkedResponseBody ≤
        (HTTPConnection.pending { c with blocks := rest }).count .chunkedResponseBody := by
      rw [HTTPConnection.pending, List.count_append]
      exact Nat.le_add_left ..
    rw [counted]
    exact Nat.le_trans inside (Nat.le_of_eq (Nat.succ.inj sizes))
  refine ⟨sending.current, sending.headed, sending.linked, reads_told blocks sending.reads,
    sending.last, ?_, ?_, ?_⟩
  · show (HTTPConnection.pending { c with blocks := rest }).count _ = c.responseDataSizes.tail.length
    rw [split, List.tail_cons]
    exact Nat.succ.inj sizes
  · show c.bodies <:+ c.responseDataSizes.tail
    rw [split, List.tail_cons]
    rcases List.suffix_cons_iff.mp queued with whole | shorter
    · rw [whole, List.length_cons] at few
      omega
    · exact shorter
  · show c.responseDataSizes.tail.sum ≤ readChunkSize
    rw [split, List.tail_cons]
    omega

/-- The connection is told of a write while it sends a response. -/
private theorem Sending.didWrite (posted : c.Posted) (linked : c.Linked) (sending : c.Sending id)
    (blocks : c.blocks = .didWriteData tag :: rest) :
    (didWriteData messages lower { c with blocks := rest } tag).Orderly := by
  have posted₁ := posted.rest blocks
  have linked₁ := linked.rest blocks nofun
  rcases sending.told blocks with ⟨rfl, spent, done⟩ | ⟨inner, closing⟩
  · obtain ⟨past, head, start, replies, earlier⟩ := sending.last
    have sizes := sending.sizes
    rw [pending_told blocks, spent] at sizes
    have whole : ∀ reply ∈ c.replies, reply.SentWhole c.responses := by
      rw [replies]
      intro reply member
      rcases List.mem_append.mp member with before | here
      · exact (earlier reply before).2
      · rw [List.mem_singleton.mp here]
        exact done
    have missing : c.responseDataSizes.tail = [] := by
      rw [List.eq_nil_of_length_eq_zero sizes.symm]
      rfl
    exact posted₁.done messages lower linked₁ spent missing (reads_told blocks sending.reads) whole
      .response
  · have steady : tag ≠ .chunkedResponseBody → tag ≠ .chunkedResponseFooter →
        HTTPConnection.Orderly { c with blocks := rest } :=
      fun body footer => ⟨posted₁, .inl ⟨linked₁, .inr (.inr ⟨id, sending.streaming_told blocks body,
        closing, sending.unread_told blocks footer⟩)⟩⟩
    cases tag with
    | response => cases inner
    | finalResponse => cases inner
    | partialResponseHeader => exact steady nofun nofun
    | chunkedResponseHeader => exact steady nofun nofun
    | chunkedResponseFooter =>
      obtain ⟨posted₂, sending₂⟩ :=
        (sending.streaming_told blocks nofun).continue_ posted₁ closing
      exact ⟨posted₂, .inl ⟨linked₁.continue_, .inr (.inr ⟨id, sending₂⟩)⟩⟩
    | chunkedResponseBody =>
      have streaming := sending.body_told blocks
      exact ⟨⟨posted₁.wire, posted₁.sound, posted₁.below, posted₁.senders, posted₁.unborn⟩,
        .inl ⟨linked₁, .inr (.inr ⟨id, streaming, closing, sending.unread_told blocks nofun⟩)⟩⟩

/-- The connection is told of a write, in whatever phase it is. -/
theorem Orderly.didWrite (orderly : c.Orderly) (blocks : c.blocks = .didWriteData tag :: rest) :
    (didWriteData messages lower { c with blocks := rest } tag).Orderly := by
  have pending := pending_told blocks
  rcases orderly.phase with ⟨linked, reading | finishing | ⟨id, sending⟩⟩ | ended
  · rw [reading.pending] at pending
    cases pending
  · have sizes : c.responseDataSizes.tail = [] := by
      rw [finishing.sizes]
      rfl
    have reads := reads_told blocks finishing.reads
    have posted := orderly.toPosted.rest blocks
    have linked₁ := linked.rest blocks nofun
    rcases finishing.pending with last | last
    · rw [last] at pending
      obtain ⟨rfl, spent⟩ := List.cons.inj pending
      exact posted.done messages lower linked₁ spent.symm sizes reads finishing.whole .response
    · rw [last] at pending
      obtain ⟨rfl, spent⟩ := List.cons.inj pending
      exact posted.done messages lower linked₁ spent.symm sizes reads finishing.whole .finalResponse
  · exact sending.didWrite messages lower orderly.toPosted linked blocks
  · have told := ended.told
    rw [blocks] at told
    cases told

end Told

/-- A response has more to send, or had. -/
theorem Orderly.available (orderly : c.Orderly) {sender : Nat} {rest : List Block}
    (blocks : c.blocks = .responseHasAvailableData sender :: rest) :
    (responseHasAvailableData messages { c with blocks := rest } now sender).Orderly := by
  have posted := orderly.toPosted.rest blocks
  have pending : c.pending = HTTPConnection.pending { c with blocks := rest } := by
    rw [HTTPConnection.pending, blocks]
    rfl
  have reads : c.reads = HTTPConnection.reads { c with blocks := rest } := by
    rw [HTTPConnection.reads, blocks, List.countP_cons_of_neg (by simp [Block.isLine])]
    rfl
  rcases orderly.phase with ⟨linked, phase⟩ | ended
  · have linked₁ := linked.rest blocks nofun
    rcases phase with reading | finishing | ⟨id, sending⟩
    · have idle : ({ c with blocks := rest } : HTTPConnection μ).httpResponse ≠ some sender := by
        show c.httpResponse ≠ some sender
        rw [reading.idle]
        nofun
      rw [responseHasAvailableData, if_pos idle]
      exact ⟨posted, .inl ⟨linked₁, .inl ⟨⟨pending.symm.trans reading.pending, reading.sizes,
        reading.whole⟩, reads ▸ reading.reads, reading.idle⟩⟩⟩
    · have other : ({ c with blocks := rest } : HTTPConnection μ).httpResponse ≠ some sender := by
        intro current
        have silent := (finishing.silent sender current).2
        rw [blocks] at silent
        exact silent (List.mem_cons_self ..)
      rw [responseHasAvailableData, if_pos other]
      refine ⟨posted, .inl ⟨linked₁, .inr (.inl ⟨pending ▸ finishing.pending, reads ▸ finishing.reads,
        finishing.sizes, fun id current => ?_, finishing.whole⟩)⟩⟩
      obtain ⟨missing, silent⟩ := finishing.silent id current
      rw [blocks] at silent
      exact ⟨missing, fun member => silent (List.mem_cons_of_mem _ member)⟩
    · have streaming : HTTPConnection.Streaming { c with blocks := rest } id :=
        ⟨sending.current, sending.headed, sending.linked, reads ▸ sending.reads, sending.last,
          pending ▸ sending.sizes, sending.queued, sending.room⟩
      have closing : HTTPConnection.Closing { c with blocks := rest } id := by
        rcases sending.closing with ⟨missing, open_⟩ | ⟨front, inner, tags⟩
        · exact .inl ⟨pending.symm.trans missing, open_⟩
        · exact .inr ⟨front, inner, pending.symm.trans tags⟩
      by_cases own : sender = id
      · have current : ¬({ c with blocks := rest } : HTTPConnection μ).httpResponse ≠ some sender := by
          rw [own]
          exact not_not_intro sending.current
        have headed : ¬(!({ c with blocks := rest } : HTTPConnection μ).sentResponseHeaders) = true := by
          show ¬(!c.sentResponseHeaders) = true
          rw [sending.headed]
          exact Bool.false_ne_true
        rw [responseHasAvailableData, if_neg current, if_neg headed]
        obtain ⟨posted₂, sending₂⟩ := streaming.continue_ posted closing
        exact ⟨posted₂, .inl ⟨linked₁.continue_, .inr (.inr ⟨id, sending₂⟩)⟩⟩
      · have other : ({ c with blocks := rest } : HTTPConnection μ).httpResponse ≠ some sender := by
          show c.httpResponse ≠ some sender
          rw [sending.current]
          exact fun same => own (Option.some.inj same).symm
        rw [responseHasAvailableData, if_pos other]
        refine ⟨posted, .inl ⟨linked₁, .inr (.inr ⟨id, streaming, closing, fun more => ?_⟩)⟩⟩
        rcases sending.unread more with footer | available
        · exact .inl (pending ▸ footer)
        · rw [blocks] at available
          refine .inr ((List.mem_cons.mp available).resolve_left fun same => own ?_)
          exact (Block.responseHasAvailableData.inj same).symm
  · have idle : ({ c with blocks := rest } : HTTPConnection μ).httpResponse ≠ some sender := by
      show c.httpResponse ≠ some sender
      rw [ended.idle]
      nofun
    have told := ended.told
    have lines := ended.lines
    rw [blocks] at told lines
    rw [List.countP_cons_of_neg (by simp [Block.isLine])] at lines
    rw [responseHasAvailableData, if_pos idle]
    exact ⟨posted, .inr ⟨ended.gone, told, lines, ended.idle, ended.whole⟩⟩

/-- The queue runs a block. -/
theorem Orderly.runBlock (orderly : c.Orderly) {block : Block} {rest : List Block}
    (blocks : c.blocks = block :: rest)
    (fitsPage : ∀ reply ∈ (HTTPConnection.runBlock messages lower { c with blocks := rest } now
      block).replies, reply.FitsPage) :
    (HTTPConnection.runBlock messages lower { c with blocks := rest } now block).Orderly := by
  cases block with
  | didReadData data => exact (orderly.line blocks).line messages lower now data fitsPage
  | didWriteData tag => exact orderly.didWrite messages lower blocks
  | responseHasAvailableData sender => exact orderly.available messages now blocks
  | socketDidDisconnect => exact orderly.gone blocks

/-- A line is read where one is asked for. -/
theorem Orderly.received (orderly : c.Orderly) (connected : c.connected = true)
    (asked : c.reading = true) (data : Bytes) :
    HTTPConnection.Orderly
      { c with reading := false, blocks := c.blocks ++ [.didReadData data] } := by
  have more : 1 ≤ c.reads := by
    rw [HTTPConnection.reads, asked]
    exact Nat.le_add_left ..
  rcases orderly.phase with ⟨linked, reading | finishing | ⟨id, sending⟩⟩ | ended
  · have one : c.reads = 1 := reading.reads.resolve_right fun missing => by omega
    have lines : c.blocks.countP Block.isLine = 0 := by
      rw [HTTPConnection.reads, asked] at one
      exact Nat.succ.inj one
    have pushed := linked.push (.didReadData data) nofun (.inl connected)
    refine ⟨⟨orderly.wire, orderly.sound, orderly.below, fun sender member => ?_, orderly.unborn⟩,
      .inl ⟨pushed, .inl ⟨⟨?_, reading.sizes, reading.whole⟩, .inl ?_, reading.idle⟩⟩⟩
    · rcases List.mem_append.mp member with before | here
      · exact orderly.senders sender before
      · exact absurd (List.mem_singleton.mp here) nofun
    · have tags := reading.tags
      show (c.blocks ++ [Block.didReadData data]).filterMap Block.tag ++ c.writeQueue.map Prod.fst = []
      rw [List.filterMap_append, tags.1, tags.2]
      rfl
    · show (c.blocks ++ [Block.didReadData data]).countP Block.isLine + 0 = 1
      rw [List.countP_append, lines]
      rfl
  · have missing := finishing.reads
    omega
  · have missing := sending.reads
    omega
  · have gone := ended.gone
    rw [connected] at gone
    cases gone

/-- The first write of the queue is done. -/
theorem Orderly.wrote (orderly : c.Orderly) (connected : c.connected = true) {tag : Tag}
    {data : Bytes} {queue : List (Tag × Bytes)} (queued : c.writeQueue = (tag, data) :: queue) :
    HTTPConnection.Orderly
      { c with
        writeQueue := queue
        written := c.written ++ data
        blocks := c.blocks ++ [.didWriteData tag] } := by
  have pending : HTTPConnection.pending { c with
      writeQueue := queue
      written := c.written ++ data
      blocks := c.blocks ++ [.didWriteData tag] } = c.pending := by
    show (c.blocks ++ [Block.didWriteData tag]).filterMap Block.tag ++ queue.map Prod.fst = c.pending
    rw [HTTPConnection.pending, queued, List.filterMap_append, List.map_cons, List.append_assoc]
    rfl
  have reads : HTTPConnection.reads { c with
      writeQueue := queue
      written := c.written ++ data
      blocks := c.blocks ++ [.didWriteData tag] } = c.reads := by
    show (c.blocks ++ [Block.didWriteData tag]).countP Block.isLine + _ = c.reads
    rw [List.countP_append]
    rfl
  have posted : HTTPConnection.Posted { c with
      writeQueue := queue
      written := c.written ++ data
      blocks := c.blocks ++ [.didWriteData tag] } := by
    refine ⟨?_, orderly.sound, orderly.below, fun sender member => ?_, orderly.unborn⟩
    · have wire := orderly.wire
      rw [queued, List.map_cons, List.flatten_cons, ← List.append_assoc] at wire
      exact wire
    · rcases List.mem_append.mp member with before | here
      · exact orderly.senders sender before
      · exact absurd (List.mem_singleton.mp here) nofun
  refine ⟨posted, ?_⟩
  rcases orderly.phase with ⟨linked, phase⟩ | ended
  · have pushed := linked.push (.didWriteData tag) nofun (.inl connected)
    refine .inl ⟨pushed, ?_⟩
    rcases phase with reading | finishing | ⟨id, sending⟩
    · have empty := reading.tags.2
      rw [queued] at empty
      cases empty
    · refine .inr (.inl ⟨pending ▸ finishing.pending, reads ▸ finishing.reads, finishing.sizes,
        fun id current => ?_, finishing.whole⟩)
      obtain ⟨missing, silent⟩ := finishing.silent id current
      refine ⟨missing, fun member => ?_⟩
      rcases List.mem_append.mp member with before | here
      · exact silent before
      · exact absurd (List.mem_singleton.mp here) nofun
    · refine .inr (.inr ⟨id, ⟨sending.current, sending.headed, sending.linked,
        reads ▸ sending.reads, sending.last, pending ▸ sending.sizes, ?_, sending.room⟩, ?_,
        fun more => ?_⟩)
      · refine List.IsSuffix.trans ?_ sending.queued
        show (queue.filter _).map _ <:+ c.bodies
        rw [bodies, queued, List.filter_cons]
        split
        · exact List.suffix_cons ..
        · exact List.suffix_refl _
      · rcases sending.closing with ⟨missing, open_⟩ | ⟨front, inner, tags⟩
        · exact .inl ⟨pending.trans missing, open_⟩
        · exact .inr ⟨front, inner, pending.trans tags⟩
      · rcases sending.unread more with footer | available
        · exact .inl (pending.symm ▸ footer)
        · exact .inr (List.mem_append_left _ available)
  · have gone := ended.gone
    rw [connected] at gone
    cases gone

private theorem mem_disconnect (c : HTTPConnection μ) (sender : Nat) :
    .responseHasAvailableData sender ∈ c.disconnect.blocks ↔
      .responseHasAvailableData sender ∈ c.blocks := by
  unfold HTTPConnection.disconnect
  split
  · simp
  · exact Iff.rfl

theorem Orderly.disconnect (orderly : c.Orderly) : c.disconnect.Orderly := by
  obtain ⟨tags, lines, gone⟩ := disconnect_blocks c
  obtain ⟨responses, replies, current, queue, sizes, reading_⟩ := disconnect_same c
  have pending : c.disconnect.pending = c.pending := by
    rw [HTTPConnection.pending, tags, queue, HTTPConnection.pending]
  have reads : c.disconnect.reads = c.reads := by
    rw [HTTPConnection.reads, lines, reading_, HTTPConnection.reads]
  have headed : c.disconnect.sentResponseHeaders = c.sentResponseHeaders := by
    unfold HTTPConnection.disconnect
    split <;> rfl
  refine ⟨orderly.toPosted.disconnect, ?_⟩
  rcases orderly.phase with ⟨linked, phase⟩ | ended
  · refine .inl ⟨linked.disconnect, ?_⟩
    rcases phase with reading | finishing | ⟨id, sending⟩
    · refine .inl ⟨⟨pending.trans reading.pending, sizes.trans reading.sizes, ?_⟩, ?_,
        current.trans reading.idle⟩
      · rw [responses, replies]
        exact reading.whole
      · rw [reads]
        exact reading.reads.imp_right fun missing => ⟨missing.1, .inl gone⟩
    · refine .inr (.inl ⟨pending ▸ finishing.pending, reads.trans finishing.reads,
        sizes.trans finishing.sizes, ?_, ?_⟩)
      · intro id here
        rw [responses, mem_disconnect]
        exact finishing.silent id (current.symm.trans here)
      · rw [responses, replies]
        exact finishing.whole
    · refine .inr (.inr ⟨id, ⟨current.trans sending.current, headed.trans sending.headed, ?_,
        reads.trans sending.reads, ?_, ?_, ?_, ?_⟩, ?_, ?_⟩)
      · rw [responses]
        exact sending.linked
      · rw [responses, replies]
        exact sending.last
      · rw [pending, sizes]
        exact sending.sizes
      · rw [bodies, queue, sizes]
        exact sending.queued
      · rw [writeQueueSize, sizes]
        exact sending.room
      · rw [Closing, responses, pending]
        exact sending.closing
      · rw [responses, pending, mem_disconnect]
        exact sending.unread
  · have same : c.disconnect = c := by
      rw [HTTPConnection.disconnect, ended.gone]
      exact if_neg Bool.false_ne_true
    rw [same]
    exact .inr ended

/-- A reply that is whole has no search that still calls. -/
private theorem whole_called {responses : Nat → Serving} {id : Nat} {s : Serving}
    (calls : (responses id).calls ≠ []) {reply : Reply} (sound : reply.Sound responses)
    (whole : reply.SentWhole responses) : reply.SentWhole (Function.update responses id s) := by
  cases reply with
  | error head => trivial
  | bare head start => trivial
  | page head id' start =>
    have other : id' ≠ id := by
      rintro rfl
      exact calls (sound.1.calls_done whole)
    rw [Reply.SentWhole, Function.update_of_ne other]
    exact whole

/-- A response after a call of its block. -/
theorem Posted.called (posted : c.Posted) {id : Nat} {found : Option SMEmail}
    {left : List (Option SMEmail)} (calls : (c.responses id).calls = found :: left)
    {response : SearchResponse} {goesOn : Bool}
    (called : searchCallback (c.responses id).response found = some (response, goesOn))
    (blocks : List Block)
    (senders : ∀ sender, .responseHasAvailableData sender ∈ blocks → sender < c.count) :
    HTTPConnection.Posted
      { c with
        responses := Function.update c.responses id (c.responses id).call
        blocks := blocks } := by
  have log : (c.responses id).call.sent = (c.responses id).sent := by
    rw [Serving.call, calls]
    simp only [called]
  refine ⟨?_, ?_, posted.below, senders, ?_⟩
  · show c.written ++ (c.writeQueue.map Prod.snd).flatten = c.replies.flatMap _
    rw [posted.wire]
    exact List.flatMap_congr fun reply _ => (bytes_update id log reply).symm
  · intro reply member
    have sound := posted.sound reply member
    cases reply with
    | error head => trivial
    | bare head start => trivial
    | page head id' start =>
      by_cases same : id' = id
      · subst same
        obtain ⟨frontSent, follows⟩ := sound
        show FrontSent (Function.update c.responses id' _ id') ∧
          ServedFrom start (Function.update c.responses id' _ id')
        rw [Function.update_self]
        have returns : ∀ found' left', (c.responses id').calls = found' :: left' →
            searchCallback (c.responses id').response found' ≠ none := by
          intro found' left' calls'
          obtain ⟨rfl, -⟩ := List.cons.inj (calls.symm.trans calls')
          rw [called]
          exact Option.some_ne_none _
        refine ⟨honest_call frontSent returns, ?_⟩
        obtain ⟨-, response_, connection, -, open_, -⟩ := call_open frontSent calls called
        cases linked : (c.responses id').response.connection with
        | true =>
          refine follows_step follows linked .call ?_
          show (c.responses id').call.response.connection = true
          rw [response_, connection, linked]
        | false =>
          -- the block looks at the connection first
          obtain ⟨labels, sent, same, -⟩ := follows
          have answer : searchCallback (c.responses id').response found =
              some ((c.responses id').response, false) := by
            simp [searchCallback, linked]
          rw [answer] at called
          obtain ⟨rfl, -⟩ := Prod.mk.inj (Option.some.inj called)
          refine ⟨labels, log.trans sent, by rw [response_]; exact same, ?_⟩
          rw [response_, linked, open_]
          exact fun spent => absurd spent (by simp)
      · rw [Reply.Sound] at sound ⊢
        show FrontSent (Function.update c.responses id _ id') ∧
          ServedFrom start (Function.update c.responses id _ id')
        rw [Function.update_of_ne same]
        exact sound
  · intro id' unborn
    show (Function.update c.responses id _ id').calls = []
    have other : id' ≠ id := by
      rintro rfl
      rw [posted.unborn id' unborn] at calls
      cases calls
    rw [Function.update_of_ne other]
    exact posted.unborn id' unborn

/-- What a call of the block of a response leaves as it was, but for the news that there is more. -/
theorem Phase.called (orderly : c.Orderly) {id : Nat} {found : Option SMEmail}
    {left : List (Option SMEmail)} (calls : (c.responses id).calls = found :: left)
    {response : SearchResponse} {goesOn : Bool}
    (called : searchCallback (c.responses id).response found = some (response, goesOn)) :
    HTTPConnection.Phase
      { c with
        responses := Function.update c.responses id (c.responses id).call
        blocks := c.blocks ++ if goesOn then [.responseHasAvailableData id] else [] } := by
  have present : (c.responses id).calls ≠ [] := by
    rw [calls]
    exact List.cons_ne_nil _ _
  have whole : ∀ reply ∈ c.replies, reply.SentWhole c.responses →
      reply.SentWhole (Function.update c.responses id (c.responses id).call) :=
    fun reply member => whole_called present (orderly.sound reply member)
  generalize news : (if goesOn then [Block.responseHasAvailableData id] else []) = more
  have quiet : more.filterMap Block.tag = [] ∧ more.countP Block.isLine = 0 := by
    rw [← news]
    split <;> exact ⟨rfl, rfl⟩
  have tags : (c.blocks ++ more).filterMap Block.tag = c.blocks.filterMap Block.tag := by
    rw [List.filterMap_append, quiet.1, List.append_nil]
  have lines : (c.blocks ++ more).countP Block.isLine = c.blocks.countP Block.isLine := by
    rw [List.countP_append, quiet.2, Nat.add_zero]
  have pending : HTTPConnection.pending { c with
      responses := Function.update c.responses id (c.responses id).call
      blocks := c.blocks ++ more } = c.pending := by
    show (c.blocks ++ more).filterMap Block.tag ++ _ = _
    rw [tags, HTTPConnection.pending]
  have reads : HTTPConnection.reads { c with
      responses := Function.update c.responses id (c.responses id).call
      blocks := c.blocks ++ more } = c.reads := by
    show (c.blocks ++ more).countP Block.isLine + _ = _
    rw [lines, HTTPConnection.reads]
  rcases orderly.phase with ⟨linked, phase⟩ | ended
  · have linked' : HTTPConnection.Linked { c with
        responses := Function.update c.responses id (c.responses id).call
        blocks := c.blocks ++ more } := by
      cases goesOn with
      | true =>
        rw [← news]
        exact linked.push (.responseHasAvailableData id) nofun (.inr ⟨rfl, rfl⟩)
      | false =>
        have missing : more = [] := news.symm
        rw [missing, List.append_nil]
        exact linked
    refine .inl ⟨linked', ?_⟩
    rcases phase with reading | finishing | ⟨current, sending⟩
    · exact .inl ⟨⟨pending.trans reading.pending, reading.sizes,
        fun reply member => whole reply member (reading.whole reply member)⟩,
        reads ▸ reading.reads, reading.idle⟩
    · refine .inr (.inl ⟨pending ▸ finishing.pending, reads.trans finishing.reads, finishing.sizes,
        fun current here => ?_,
        fun reply member => whole reply member (finishing.whole reply member)⟩)
      obtain ⟨missing, silent⟩ := finishing.silent current here
      have other : current ≠ id := by
        rintro rfl
        exact present missing
      refine ⟨?_, fun member => ?_⟩
      · show (Function.update c.responses id _ current).calls = []
        rw [Function.update_of_ne other]
        exact missing
      · rcases List.mem_append.mp member with before | here
        · exact silent before
        · rw [← news] at here
          split at here
          · exact other (Block.responseHasAvailableData.inj (List.mem_singleton.mp here))
          · cases here
    · have frontSent := orderly.toPosted.current sending.toStreaming
      obtain ⟨past, head, start, replies, earlier⟩ := sending.last
      -- what the call does to the response that is sent
      have kept : ((Function.update c.responses id (c.responses id).call) current).response.connection
            = (c.responses current).response.connection ∧
          ((Function.update c.responses id (c.responses id).call) current).response.isDone
            = (c.responses current).response.isDone ∧
          (((Function.update c.responses id (c.responses id).call) current).response.theOffset <
              ((Function.update c.responses id (c.responses id).call) current).response.dataBuffer.length →
            .responseHasAvailableData current ∈ more ∨
              (c.responses current).response.theOffset <
                (c.responses current).response.dataBuffer.length) := by
        by_cases same : current = id
        · subst same
          obtain ⟨-, moved, connection, offset, open_, buffer⟩ := call_open frontSent calls called
          have before : (c.responses current).response.isDone = false := by
            cases done : (c.responses current).response.isDone with
            | false => rfl
            | true => exact absurd (frontSent.calls_done done) present
          rw [Function.update_self, moved]
          refine ⟨connection, open_.trans before.symm, fun unread => ?_⟩
          cases goesOn with
          | true =>
            rw [← news]
            exact .inl (List.mem_singleton.mpr rfl)
          | false =>
            rw [offset, buffer rfl] at unread
            exact .inr unread
        · rw [Function.update_of_ne same]
          exact ⟨rfl, rfl, .inr⟩
      obtain ⟨connection, done, unread⟩ := kept
      refine .inr (.inr ⟨current, ⟨sending.current, sending.headed, connection.trans sending.linked,
        reads.trans sending.reads, ⟨past, head, start, replies, fun reply member => ?_⟩,
        pending ▸ sending.sizes, sending.queued, sending.room⟩, ?_, fun more_ => ?_⟩)
      · obtain ⟨below, spent⟩ := earlier reply member
        exact ⟨below, whole reply (by rw [replies]; exact List.mem_append_left _ member) spent⟩
      · rcases sending.closing with ⟨missing, open_⟩ | ⟨front, inner, closing⟩
        · exact .inl ⟨pending.trans missing, done.trans open_⟩
        · refine .inr ⟨front, inner, pending.trans ?_⟩
          show c.pending = front ++ [if ((Function.update c.responses id (c.responses id).call)
            current).response.isDone then _ else _]
          rw [done]
          exact closing
      · rcases unread more_ with here | before
        · exact .inr (List.mem_append_right _ here)
        · rcases sending.unread before with footer | available
          · exact .inl (pending.symm ▸ footer)
          · exact .inr (List.mem_append_left _ available)
  · exact .inr ⟨ended.gone, tags.trans ended.told, lines.trans ended.lines, ended.idle,
      fun reply member => whole reply (List.mem_of_mem_dropLast member) (ended.whole reply member)⟩

theorem call_nothing {id : Nat} (calls : (c.responses id).calls = []) : c.call id = c := by
  rw [HTTPConnection.call]
  dsimp only
  rw [calls]

theorem call_crash {id : Nat} {found : Option SMEmail} {left : List (Option SMEmail)}
    (calls : (c.responses id).calls = found :: left)
    (called : searchCallback (c.responses id).response found = none) :
    c.call id = { c with crashed := true } := by
  rw [HTTPConnection.call]
  dsimp only
  rw [calls]
  dsimp only
  rw [called]

theorem call_answer {id : Nat} {found : Option SMEmail} {left : List (Option SMEmail)}
    (calls : (c.responses id).calls = found :: left) {response : SearchResponse} {goesOn : Bool}
    (called : searchCallback (c.responses id).response found = some (response, goesOn)) :
    c.call id =
      { c with
        responses := Function.update c.responses id (c.responses id).call
        blocks := c.blocks ++ if goesOn then [.responseHasAvailableData id] else [] } := by
  rw [HTTPConnection.call]
  dsimp only
  rw [calls]
  dsimp only
  rw [called]
  cases goesOn with
  | true => rfl
  | false =>
    rw [if_neg Bool.false_ne_true, List.append_nil]
    rfl

/-- The search of a response calls its block. -/
theorem Orderly.call (orderly : c.Orderly) (id : Nat) : (c.call id).Orderly := by
  cases calls : (c.responses id).calls with
  | nil =>
    rw [call_nothing calls]
    exact orderly
  | cons found left =>
    cases called : searchCallback (c.responses id).response found with
    | none =>
      -- the application ends, and the connection with it
      rw [call_crash calls called]
      refine ⟨⟨orderly.wire, orderly.sound, orderly.below, orderly.senders, orderly.unborn⟩, ?_⟩
      rcases orderly.phase with ⟨linked, reading | finishing | ⟨current, sending⟩⟩ | ended
      · exact .inl ⟨linked, .inl ⟨⟨reading.pending, reading.sizes, reading.whole⟩,
          reading.reads.imp_right fun missing => ⟨missing.1, .inr rfl⟩, reading.idle⟩⟩
      · exact .inl ⟨linked, .inr (.inl ⟨finishing.pending, finishing.reads, finishing.sizes,
          finishing.silent, finishing.whole⟩)⟩
      · exact .inl ⟨linked, .inr (.inr ⟨current, ⟨sending.current, sending.headed, sending.linked,
          sending.reads, sending.last, sending.sizes, sending.queued, sending.room⟩,
          sending.closing, sending.unread⟩)⟩
      · exact .inr ⟨ended.gone, ended.told, ended.lines, ended.idle, ended.whole⟩
    | some answer =>
      obtain ⟨response, goesOn⟩ := answer
      have born : id < c.count := by
        by_contra unborn
        rw [orderly.unborn id (Nat.le_of_not_lt unborn)] at calls
        cases calls
      rw [call_answer calls called]
      refine ⟨orderly.toPosted.called calls called _ fun sender member => ?_,
        Phase.called orderly calls called⟩
      rcases List.mem_append.mp member with before | here
      · exact orderly.senders sender before
      · split at here
        · rw [Block.responseHasAvailableData.inj (List.mem_singleton.mp here)]
          exact born
        · cases here

theorem Orderly.step (orderly : c.Orderly) (label : Label)
    (fitsPage : ∀ reply ∈ (c.step messages lower label).replies, reply.FitsPage) :
    (c.step messages lower label).Orderly := by
  unfold HTTPConnection.step at fitsPage ⊢
  split
  · exact orderly
  next running =>
    rw [if_neg running] at fitsPage
    cases label with
    | received data =>
      dsimp only
      split
      next both =>
        rw [Bool.and_eq_true] at both
        exact orderly.received both.1 both.2 data
      · exact orderly
    | wrote =>
      dsimp only
      split
      next tag data queue connected queued => exact orderly.wrote connected queued
      · exact orderly
    | hangUp => exact orderly.disconnect
    | call id => exact orderly.call id
    | run now =>
      dsimp only at fitsPage ⊢
      split
      · exact orderly
      next block rest blocks =>
        rw [blocks] at fitsPage
        exact orderly.runBlock messages lower now blocks fitsPage

end Steps

end HTTPConnection

end

end Spamass.Http
