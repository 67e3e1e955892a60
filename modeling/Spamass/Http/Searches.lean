import Spamass.Http.Exchange

/-!
# The searches of a connection

A page enters the wire only as the reply to a request, with a search of its own. No step but
a call of its block takes a call from a search.
-/
namespace Spamass.Http

open Spamass.Emailz Spamass.App Spamass.Web Spamass.Chunked Spamass.Runs

namespace HTTPConnection

section

variable {μ : Type} {messages : Messages μ} {lower : Bytes → Bytes} {c : HTTPConnection μ}
  {now : Instant}

/-! ### Calls -/

/-- The searches that are there keep their calls. -/
structure Undisturbed (c c' : HTTPConnection μ) : Prop where
  count : c.count ≤ c'.count
  calls : ∀ id < c.count, (c'.responses id).calls = (c.responses id).calls

theorem Undisturbed.trans {c' c'' : HTTPConnection μ} (first : Undisturbed c c')
    (second : Undisturbed c' c'') : Undisturbed c c'' :=
  ⟨Nat.le_trans first.count second.count, fun id below =>
    (second.calls id (Nat.lt_of_lt_of_le below first.count)).trans (first.calls id below)⟩

private theorem undisturbed_same {c' : HTTPConnection μ} (count : c'.count = c.count)
    (responses : c'.responses = c.responses) : Undisturbed c c' :=
  ⟨Nat.le_of_eq count.symm, fun id _ => by rw [responses]⟩

private theorem sendChunk_undisturbed (c : HTTPConnection μ) (id available : Nat) :
    Undisturbed c (c.sendChunk id available) :=
  ⟨Nat.le_of_eq (sendChunk_responses c id available).1.symm, fun id' _ =>
    sendChunk_calls c id id' available⟩

private theorem disconnect_undisturbed (c : HTTPConnection μ) : Undisturbed c c.disconnect := by
  unfold HTTPConnection.disconnect
  split <;> exact undisturbed_same rfl rfl

private theorem connectionDidClose_undisturbed (c : HTTPConnection μ) :
    Undisturbed c c.connectionDidClose := by
  unfold connectionDidClose
  split
  · exact undisturbed_same rfl rfl
  next id _ =>
    refine ⟨Nat.le_refl _, fun id' _ => ?_⟩
    dsimp only
    by_cases same : id' = id
    · subst same
      rw [Function.update_self]
    · rw [Function.update_of_ne same]

variable (messages lower) in
private theorem doneSendingResponse_undisturbed (c : HTTPConnection μ) (tag : Tag) :
    Undisturbed c (c.doneSendingResponse messages lower tag) := by
  have closed := connectionDidClose_undisturbed
    { c with responseDataSizes := c.responseDataSizes.tail }
  have finished : Undisturbed c (connectionDidClose
      { c with responseDataSizes := c.responseDataSizes.tail }).finishResponse :=
    ⟨closed.count, closed.calls⟩
  unfold doneSendingResponse
  dsimp only
  split
  · exact finished.trans (disconnect_undisturbed _)
  split
  · exact finished.trans (disconnect_undisturbed _)
  · exact ⟨finished.count, finished.calls⟩

private theorem continue_undisturbed (c : HTTPConnection μ) :
    Undisturbed c c.continueSendingStandardResponseBody := by
  unfold continueSendingStandardResponseBody
  split
  · exact undisturbed_same rfl rfl
  split
  · exact undisturbed_same rfl rfl
  · exact sendChunk_undisturbed c _ _

variable (messages now) in
theorem sendResponseHeadersAndBody_undisturbed (c : HTTPConnection μ) (method : Bytes) (id : Nat) :
    Undisturbed c (c.sendResponseHeadersAndBody messages now method id) := by
  unfold sendResponseHeadersAndBody
  dsimp only
  split
  · exact undisturbed_same rfl rfl
  · have sent := sendChunk_undisturbed (c.headersSent.post (pageHead messages now)
      .partialResponseHeader (.page (pageHead messages now) id (c.responses id))) id readChunkSize
    exact ⟨sent.count, sent.calls⟩

private theorem respondWith_undisturbed (c : HTTPConnection μ) (s : Serving) :
    Undisturbed c (c.respondWith s) := by
  refine ⟨Nat.le_succ _, fun id below => ?_⟩
  show (Function.update c.responses c.count s id).calls = _
  rw [Function.update_of_ne (Nat.ne_of_lt below)]

private theorem didReadData_undisturbed (c : HTTPConnection μ) (data : Bytes) :
    Undisturbed c (c.didReadData messages lower now data) := by
  unfold didReadData
  split
  · exact undisturbed_same rfl rfl
  next m _ =>
    dsimp only
    split
    · split
      · have gone := disconnect_undisturbed
          { c with request := some m, numHeaderLines := c.numHeaderLines + 1 }
        exact ⟨gone.count, gone.calls⟩
      · exact undisturbed_same rfl rfl
    split
    · exact undisturbed_same rfl rfl
    split
    · exact undisturbed_same rfl rfl
    unfold replyToHTTPRequest
    dsimp only
    split
    · exact undisturbed_same rfl rfl
    split
    · exact undisturbed_same rfl rfl
    split
    · exact undisturbed_same rfl rfl
    split
    · exact undisturbed_same rfl rfl
    next response _ =>
      have first := respondWith_undisturbed { c with request := some m }
        (searchOf lower now (messages.requestURI m) response)
      have sent := first.trans
        (sendResponseHeadersAndBody_undisturbed messages now
          (HTTPConnection.respondWith { c with request := some m }
            (searchOf lower now (messages.requestURI m) response)) (messages.method m) c.count)
      exact ⟨sent.count, sent.calls⟩

variable (messages lower now) in
private theorem runBlock_undisturbed (c : HTTPConnection μ) (block : Block) :
    Undisturbed c (c.runBlock messages lower now block) := by
  cases block with
  | didReadData data => exact didReadData_undisturbed c data
  | socketDidDisconnect =>
    have closed := connectionDidClose_undisturbed c
    exact ⟨closed.count, closed.calls⟩
  | responseHasAvailableData sender =>
    rw [runBlock, responseHasAvailableData]
    split
    · exact undisturbed_same rfl rfl
    split
    · exact sendResponseHeadersAndBody_undisturbed messages now c _ sender
    · exact continue_undisturbed c
  | didWriteData tag =>
    cases tag with
    | partialResponseHeader => exact undisturbed_same rfl rfl
    | chunkedResponseHeader => exact undisturbed_same rfl rfl
    | chunkedResponseBody => exact undisturbed_same rfl rfl
    | chunkedResponseFooter => exact continue_undisturbed c
    | response => exact doneSendingResponse_undisturbed messages lower c .response
    | finalResponse => exact doneSendingResponse_undisturbed messages lower c .finalResponse

variable (messages lower) in
/-- A step that calls no search. -/
theorem step_undisturbed (c : HTTPConnection μ) (label : Label)
    (other : ∀ id, label ≠ .call id) : Undisturbed c (c.step messages lower label) := by
  unfold HTTPConnection.step
  split
  · exact undisturbed_same rfl rfl
  cases label with
  | received data =>
    dsimp only
    split <;> exact undisturbed_same rfl rfl
  | wrote =>
    dsimp only
    split <;> exact undisturbed_same rfl rfl
  | hangUp => exact disconnect_undisturbed c
  | call id => exact absurd rfl (other id)
  | run now =>
    dsimp only
    split
    · exact undisturbed_same rfl rfl
    next block rest _ =>
      have ran := runBlock_undisturbed messages lower now { c with blocks := rest } block
      exact ⟨ran.count, ran.calls⟩

/-- A call takes its call from its own search. -/
theorem call_others (c : HTTPConnection μ) (id : Nat) :
    (c.call id).count = c.count ∧
      ∀ id', id' ≠ id → (c.call id).responses id' = c.responses id' := by
  cases calls : (c.responses id).calls with
  | nil =>
    rw [call_nothing calls]
    exact ⟨rfl, fun _ _ => rfl⟩
  | cons found left =>
    cases called : searchCallback (c.responses id).response found with
    | none =>
      rw [call_crash calls called]
      exact ⟨rfl, fun _ _ => rfl⟩
    | some answer =>
      obtain ⟨response, goesOn⟩ := answer
      rw [call_answer calls called]
      exact ⟨rfl, fun id' other => Function.update_of_ne other ..⟩

/-! ### Pages -/

/-- What a step puts behind the replies: none, or the one to a request that has just come in. A page
has a search of its own. -/
def Asked (messages : Messages μ) (lower : Bytes → Bytes) (c : HTTPConnection μ) (label : Label)
    (c' : HTTPConnection μ) : Prop :=
  c'.replies = c.replies ∨ ∃ now ask reply, label = .run now ∧ ask.now = now ∧
    replyTo messages lower c.count ask = some reply ∧ c'.replies = c.replies ++ [reply] ∧
    PageOf c c' reply

private theorem asked_line (c : HTTPConnection μ) (rest : List Block) (data : Bytes) :
    Asked messages lower c (.run now)
      (HTTPConnection.didReadData messages lower { c with blocks := rest } now data) := by
  rw [HTTPConnection.didReadData]
  dsimp only
  cases read : c.request.bind fun m => messages.appendData m data with
  | none => exact .inr ⟨now, .invalid now, _, rfl, rfl, rfl, rfl, page_error _ _ _⟩
  | some m =>
    dsimp only
    cases messages.isHeaderComplete m with
    | false =>
      left
      rw [Bool.not_false, if_pos rfl]
      split
      · exact (disconnect_leaves _).replies
      · rfl
    | true =>
      rw [Bool.not_true, if_neg Bool.false_ne_true]
      obtain ⟨-, ⟨-, -, same⟩ | ⟨reply, answers, replies, -, page⟩⟩ :=
        replied_request messages lower now (c := { c with blocks := rest, request := some m }) m
      · exact .inl same
      · exact .inr ⟨now, .request now m, reply, rfl, rfl, answers, replies, page⟩

variable (messages lower) in
theorem step_asked (orderly : c.Orderly) (label : Label) :
    Asked messages lower c label (c.step messages lower label) := by
  unfold HTTPConnection.step
  split
  · exact .inl rfl
  cases label with
  | received data =>
    dsimp only
    split <;> exact .inl rfl
  | wrote =>
    dsimp only
    split <;> exact .inl rfl
  | hangUp => exact .inl (disconnect_leaves c).replies
  | call id => exact .inl (call_leaves c id).replies
  | run now =>
    dsimp only
    cases blocks : c.blocks with
    | nil => exact .inl rfl
    | cons block rest =>
      dsimp only
      cases block with
      | didReadData data => exact asked_line c rest data
      | responseHasAvailableData sender => exact .inl (available_leaves orderly blocks).replies
      | socketDidDisconnect => exact .inl (die_leaves { c with blocks := rest }).replies
      | didWriteData tag =>
        left
        have done := (doneSendingResponse_cases messages lower { c with blocks := rest } tag).1
        cases tag with
        | partialResponseHeader => rfl
        | chunkedResponseHeader => rfl
        | chunkedResponseBody => rfl
        | chunkedResponseFooter => exact (continue_leaves { c with blocks := rest }).replies
        | response => exact done
        | finalResponse => exact done

end

end HTTPConnection

end Spamass.Http
