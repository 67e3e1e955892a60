import Spamass.Http.Connection
import Spamass.Runs

/-!
# The body of a response

What the connection reads of a response it sends as the next chunk, and the last one it
closes. While a search finds at most ten mails nothing is appended to its page behind the
footer: the chunks sent are those of the front of the page, and the body is closed exactly
if they are all of it.
-/
namespace Spamass.Http

open Spamass.Emailz Spamass.App Spamass.Web Spamass.Chunked Spamass.Runs

/-! ### Reading -/

/-- What `readDataOfLength:` returns. -/
def nextData (r : SearchResponse) (length : Nat) : Bytes :=
  (r.dataBuffer.drop r.theOffset).take length

/-- The response behind the next data. -/
def advanced (r : SearchResponse) (length : Nat) : SearchResponse :=
  { r with theOffset := r.theOffset + (nextData r length).length }

theorem readDataOfLength_eq (r : SearchResponse) (length : Nat) :
    r.readDataOfLength length = (advanced r length, nextData r length) := by
  unfold SearchResponse.readDataOfLength
  split
  next all =>
    have nothing : nextData r length = [] := by rw [nextData, List.drop_of_length_le all, List.take_nil]
    rw [advanced, nothing]
    rfl
  next more =>
    have size : min length (r.dataBuffer.length - r.theOffset) = (nextData r length).length := by
      rw [nextData, List.length_take, List.length_drop]
    have data : (r.dataBuffer.drop r.theOffset).take
        (min length (r.dataBuffer.length - r.theOffset)) = nextData r length := by
      rw [nextData, ← List.length_drop, ← List.take_eq_take_min]
    dsimp only
    rw [data, size, advanced]

theorem nextData_nil_iff (r : SearchResponse) {length : Nat} (room : 0 < length) :
    nextData r length = [] ↔ r.dataBuffer.length ≤ r.theOffset := by
  rw [nextData, List.take_eq_nil_iff, List.drop_eq_nil_iff]
  omega

/-- Where there is more to read the response is not done. -/
theorem isDone_of_nextData {r : SearchResponse} {length : Nat} (more : nextData r length ≠ []) :
    r.isDone = false := by
  have inside : ¬r.dataBuffer.length ≤ r.theOffset := by
    intro all
    exact more (by rw [nextData, List.drop_of_length_le all, List.take_nil])
  rw [SearchResponse.isDone, decide_eq_false inside, Bool.and_false]

theorem send_nothing {s : Serving} {available : Nat}
    (nothing : nextData s.response available = []) : s.send available = s := by
  have same : advanced s.response available = s.response := by
    rw [advanced, nothing]
    rfl
  rw [Serving.send, readDataOfLength_eq]
  dsimp only
  rw [if_pos nothing, same]

theorem send_more {s : Serving} {available : Nat} (more : nextData s.response available ≠ []) :
    s.send available =
      { s with
        response := advanced s.response available
        sent := s.sent ++ .data (nextData s.response available) ::
          (if (advanced s.response available).isDone then [.terminator] else []) } := by
  rw [Serving.send, readDataOfLength_eq]
  dsimp only
  rw [if_neg more]

/-! ### What was sent -/

/-- A chunk as it goes over the wire. -/
def chunkBytes : Chunk → Bytes
  | .data bytes => chunk bytes
  | .terminator => chunk []

/-- The chunks sent are the front of the page, in pieces; the last one has closed it. While calls
are to come the page is open, and there is room for their mails. -/
structure FrontSent (s : Serving) : Prop where
  sent : ∃ pieces : List Bytes, (∀ piece ∈ pieces, piece ≠ []) ∧
    s.sent = pieces.map .data ++ (if s.response.isDone then [.terminator] else []) ∧
    pieces.flatten = s.response.dataBuffer.take s.response.theOffset
  within : s.response.theOffset ≤ s.response.dataBuffer.length
  calls : s.calls = [] ∨ s.response.mIsDone = false ∧ ∃ emails : List SMEmail,
    s.calls = emails.map some ++ [none] ∧ s.response.emailCount + emails.length ≤ 10
  ends : s.response.connection = true → s.calls = [] → s.response.mIsDone = true

/-- A response that is done is sent as a whole. -/
theorem FrontSent.whole {s : Serving} (frontSent : FrontSent s) (done : s.response.isDone = true)
    (rest : Bytes) :
    decode (s.sent.flatMap chunkBytes ++ rest) = some (s.response.dataBuffer, rest) := by
  obtain ⟨pieces, filled, sent, flat⟩ := frontSent.sent
  have all : s.response.dataBuffer.length ≤ s.response.theOffset := by
    rw [SearchResponse.isDone, Bool.and_eq_true, decide_eq_true_eq] at done
    exact done.2
  have wire : s.sent.flatMap chunkBytes = body pieces := by
    rw [sent, if_pos done, List.flatMap_append, List.flatMap_map, body]
    rfl
  rw [wire, decode_body pieces rest filled, flat, List.take_of_length_le all]

theorem FrontSent.calls_done {s : Serving} (frontSent : FrontSent s) (done : s.response.isDone = true) :
    s.calls = [] := by
  rcases frontSent.calls with missing | ⟨underway, -⟩
  · exact missing
  · rw [SearchResponse.isDone, underway] at done
    cases done

theorem honest_send {s : Serving} (frontSent : FrontSent s) (available : Nat) :
    FrontSent (s.send available) := by
  by_cases nothing : nextData s.response available = []
  · rwa [send_nothing nothing]
  · obtain ⟨⟨pieces, filled, sent, flat⟩, within, calls, ends⟩ := frontSent
    rw [isDone_of_nextData nothing, if_neg Bool.false_ne_true, List.append_nil] at sent
    rw [send_more nothing]
    refine ⟨⟨pieces ++ [nextData s.response available], ?_, ?_, ?_⟩, ?_, calls, ends⟩
    · intro piece member
      rcases List.mem_append.mp member with front | last
      · exact filled piece front
      · rwa [List.mem_singleton.mp last]
    · rw [sent, List.map_append, List.append_assoc]
      rfl
    · have next : nextData s.response available =
          (s.response.dataBuffer.drop s.response.theOffset).take
            (nextData s.response available).length := by
        rw [nextData, List.length_take, ← List.take_eq_take_min]
      rw [List.flatten_append, flat, List.flatten_singleton, advanced, List.take_add, ← next]
    · rw [advanced, nextData, List.length_take, List.length_drop]
      dsimp only
      omega

/-- Text is appended to a page that is open: what was sent is still its front. -/
theorem sent_appended {s : Serving} (frontSent : FrontSent s) (underway : s.response.mIsDone = false)
    {r : SearchResponse} (text : Bytes) (buffer : r.dataBuffer = s.response.dataBuffer ++ text)
    (offset : r.theOffset = s.response.theOffset) (open_ : r.isDone = false) :
    (∃ pieces : List Bytes, (∀ piece ∈ pieces, piece ≠ []) ∧
      s.sent = pieces.map .data ++ (if r.isDone then [.terminator] else []) ∧
      pieces.flatten = r.dataBuffer.take r.theOffset) ∧ r.theOffset ≤ r.dataBuffer.length := by
  obtain ⟨⟨pieces, filled, sent, flat⟩, within, -, -⟩ := frontSent
  have before : s.response.isDone = false := by rw [SearchResponse.isDone, underway, Bool.false_and]
  rw [before] at sent
  refine ⟨⟨pieces, filled, ?_, ?_⟩, ?_⟩
  · rw [open_]
    exact sent
  · rw [buffer, offset, List.take_append_of_le_length within, flat]
  · rw [buffer, offset, List.length_append]
    omega

private theorem clip_pageFooter_ne_nil : clip pageFooter ≠ [] := by decide

private theorem finish_isDone (r : SearchResponse) (within : r.theOffset ≤ r.dataBuffer.length)
    (count : Nat) : SearchResponse.isDone { r.finish with emailCount := count } = false := by
  have footer := List.length_pos_iff.mpr clip_pageFooter_ne_nil
  simp only [SearchResponse.isDone, SearchResponse.finish, List.length_append, Bool.true_and,
    decide_eq_false_iff_not]
  omega

/-- The calls behind a refusal still fit on the page. -/
private theorem refused_room (email : SMEmail) (emails : List SMEmail) (count : Nat)
    (room : count + (emails.length + 1) ≤ 10 + 1) :
    ∃ left : List SMEmail,
      refused (some email) (emails.map some ++ [none]) = left.map some ++ [none] ∧
        count + left.length ≤ 10 := by
  cases emails with
  | nil =>
    refine ⟨[], rfl, ?_⟩
    simp only [List.length_nil] at room ⊢
    omega
  | cons next later =>
    refine ⟨[email], ?_, ?_⟩
    · simp [refused]
    · simp only [List.length_cons, List.length_nil] at room ⊢
      omega

theorem honest_call {s : Serving} (frontSent : FrontSent s)
    (returns : ∀ found left, s.calls = found :: left → searchCallback s.response found ≠ none) :
    FrontSent s.call := by
  rcases frontSent.calls with missing | ⟨underway, emails, calls, room⟩
  · have same : s.call = s := by rw [Serving.call, missing]
    rwa [same]
  cases connection : s.response.connection with
  | false =>
    -- the block looks at the connection first
    have called : ∀ found, searchCallback s.response found = some (s.response, false) := by
      intro found
      simp [searchCallback, connection]
    have unlinked : s.response.connection = true → False := by
      rw [connection]
      exact Bool.false_ne_true
    cases emails with
    | nil =>
      have step : s.call = { s with calls := [] } := by
        rw [Serving.call, calls]
        simp [called, refused]
      rw [step]
      exact ⟨frontSent.sent, frontSent.within, .inl rfl, fun linked => (unlinked linked).elim⟩
    | cons email emails =>
      have step : s.call = { s with calls := refused (some email) (emails.map some ++ [none]) } := by
        rw [Serving.call, calls]
        simp [called]
      have fits : s.response.emailCount + (emails.length + 1) ≤ 10 := room
      obtain ⟨left, again, fits⟩ := refused_room email emails s.response.emailCount (by omega)
      rw [step, again]
      exact ⟨frontSent.sent, frontSent.within, .inr ⟨underway, left, rfl, fits⟩,
        fun linked => (unlinked linked).elim⟩
  | true =>
    cases emails with
    | nil =>
      obtain ⟨count, -, step⟩ := call_finish calls connection (Or.inl rfl)
      have open_ := finish_isDone s.response frontSent.within count
      obtain ⟨sent, within⟩ := sent_appended frontSent underway (clip pageFooter)
        (r := { s.response.finish with emailCount := count }) rfl rfl open_
      rw [step]
      exact ⟨sent, within, .inl rfl, fun _ _ => rfl⟩
    | cons email emails =>
      have few : ¬10 ≤ s.response.emailCount := by
        simp only [List.length_cons] at room
        omega
      have counted : s.response.emailCount + 1 + emails.length ≤ 10 := by
        simp only [List.length_cons] at room
        omega
      have found := returns (some email) _ calls
      cases called : searchCallback s.response (some email) with
      | none => exact absurd called found
      | some answer =>
        obtain ⟨response, goesOn⟩ := answer
        have kept : response.mIsDone = false ∧ response.emailCount = s.response.emailCount + 1 ∧
            response.theOffset = s.response.theOffset ∧
            ∃ text, response.dataBuffer = s.response.dataBuffer ++ text := by
          unfold searchCallback at called
          rw [connection] at called
          simp only [Bool.not_true, Bool.false_eq_true, if_false, if_neg few] at called
          split at called
          next date addr port =>
            obtain ⟨row, -, made⟩ := Option.map_eq_some_iff.mp called
            obtain ⟨rfl, -⟩ := Prod.mk.inj made
            exact ⟨underway, rfl, rfl, clip row, rfl⟩
          next =>
            obtain ⟨rfl, -⟩ := Prod.mk.inj (Option.some.inj called)
            exact ⟨underway, rfl, rfl, [], (List.append_nil _).symm⟩
        obtain ⟨running, count, offset, text, buffer⟩ := kept
        have open_ : response.isDone = false := by
          rw [SearchResponse.isDone, running, Bool.false_and]
        obtain ⟨sent, within⟩ := sent_appended frontSent underway text buffer offset open_
        have step : s.call = { s with
            response := response
            calls := if goesOn then emails.map some ++ [none]
              else refused (some email) (emails.map some ++ [none]) } := by
          rw [Serving.call, calls]
          simp only [List.map_cons, List.cons_append, called]
        have left : ∃ left : List SMEmail, s.call.calls = left.map some ++ [none] ∧
            response.emailCount + left.length ≤ 10 := by
          rw [step, count]
          cases goesOn with
          | true => exact ⟨emails, rfl, counted⟩
          | false => exact refused_room email emails (s.response.emailCount + 1) (by omega)
        obtain ⟨left, shape, fits⟩ := left
        have same : s.call.response = response := by rw [step]
        have log : s.call.sent = s.sent := by rw [step]
        refine ⟨?_, ?_, .inr ⟨?_, left, shape, ?_⟩, ?_⟩
        · rw [same, log]
          exact sent
        · rw [same]
          exact within
        · rw [same]
          exact running
        · rw [same]
          exact fits
        · intro _ spent
          rw [shape] at spent
          exact absurd spent (by simp)

/-- A call leaves the page open and its connection alone, and appends to the page only if it goes
on. -/
theorem call_open {s : Serving} (frontSent : FrontSent s) {found : Option SMEmail}
    {left : List (Option SMEmail)} (calls : s.calls = found :: left) {response : SearchResponse}
    {goesOn : Bool} (called : searchCallback s.response found = some (response, goesOn)) :
    s.call.sent = s.sent ∧ s.call.response = response ∧
      response.connection = s.response.connection ∧ response.theOffset = s.response.theOffset ∧
      response.isDone = false ∧
      (goesOn = false → response.dataBuffer = s.response.dataBuffer) := by
  have step : s.call.sent = s.sent ∧ s.call.response = response := by
    rw [Serving.call, calls]
    simp only [called, and_self]
  have underway : s.response.mIsDone = false := by
    rcases frontSent.calls with missing | ⟨underway, -⟩
    · rw [missing] at calls
      cases calls
    · exact underway
  have open_ : s.response.isDone = false := by rw [SearchResponse.isDone, underway, Bool.false_and]
  have goes : ∀ {p : Prop}, true = false → p := fun stops => absurd stops.symm Bool.false_ne_true
  refine ⟨step.1, step.2, ?_⟩
  unfold searchCallback at called
  split at called
  · obtain ⟨rfl, -⟩ := Prod.mk.inj (Option.some.inj called)
    exact ⟨rfl, rfl, open_, fun _ => rfl⟩
  split at called
  · obtain ⟨rfl, rfl⟩ := Prod.mk.inj (Option.some.inj called)
    exact ⟨rfl, rfl, finish_isDone s.response frontSent.within s.response.emailCount, goes⟩
  next email =>
    dsimp only at called
    split at called
    · obtain ⟨rfl, rfl⟩ := Prod.mk.inj (Option.some.inj called)
      exact ⟨rfl, rfl, finish_isDone s.response frontSent.within (s.response.emailCount + 1), goes⟩
    split at called
    next date addr port =>
      obtain ⟨row, -, made⟩ := Option.map_eq_some_iff.mp called
      obtain ⟨rfl, rfl⟩ := Prod.mk.inj made
      exact ⟨rfl, rfl, by rw [SearchResponse.isDone, underway, Bool.false_and], goes⟩
    next =>
      obtain ⟨rfl, -⟩ := Prod.mk.inj (Option.some.inj called)
      exact ⟨rfl, rfl, by rw [SearchResponse.isDone, underway, Bool.false_and], fun _ => rfl⟩

/-! ### The start -/

private theorem clip_ne_nil {text rest : Bytes} {b : UInt8} (begins : text = b :: rest)
    (single : isContinuation b = false) : clip text ≠ [] := by
  have long : utf16Length (b :: rest) ≠ 0 := by
    rw [utf16Length_cons, single, if_neg Bool.false_ne_true]
    split_ifs <;> omega
  rw [clip, begins, ne_eq, List.take_eq_nil_iff]
  rintro (short | empty)
  · exact long short
  · cases empty

theorem pageHeader_begins (address : Bytes) : ∃ rest, pageHeader address = 60 :: rest := ⟨_, rfl⟩

private theorem invalidPage_begins : ∃ rest, invalidPage = 60 :: rest := ⟨_, rfl⟩

private theorem viewText_begins {lower : Bytes → Bytes} {files : Bytes → Option Bytes}
    {filePath text : Bytes} (made : viewText lower files filePath = some text) :
    ∃ rest, text = 60 :: rest := by
  have invalid : ∀ message, ∃ rest, invalidView message = 60 :: rest := fun message => ⟨_, rfl⟩
  unfold viewText at made
  split at made
  · cases made
  · rw [← Option.some.inj made]
    exact invalid _
  · split at made
    · rw [← Option.some.inj made]
      exact invalid _
    · split at made
      · rw [← Option.some.inj made]
        exact invalid _
      · obtain ⟨data, -, page⟩ := Option.map_eq_some_iff.mp made
        rw [← page]
        exact ⟨_, rfl⟩

/-- A response that was just made: a page that is whole, or the head of one and a search. -/
theorem searchOf_begins {lower : Bytes → Bytes} {now : Instant} {uri : Bytes}
    {response : SearchResponse}
    (made : responseWithPath lower now.files now.texts uri = .value response) :
    response.connection = true ∧ response.theOffset = 0 ∧ response.dataBuffer ≠ [] ∧
      response.emailCount = 0 ∧
      (response.mIsDone = true ∧ (HTTPConnection.searchOf lower now uri response).calls = [] ∨
        response.mIsDone = false ∧ ∃ emails : List SMEmail,
          (HTTPConnection.searchOf lower now uri response).calls = emails.map some ++ [none]) := by
  unfold responseWithPath at made
  have unsearched : responsePage uri ≠ .search →
      (HTTPConnection.searchOf lower now uri response).calls = [] := by
    intro other
    have nothing : searchedAddress lower uri = none := if_neg other
    rw [HTTPConnection.searchOf, nothing]
  cases page : responsePage uri with
  | main =>
    rw [page] at made
    obtain rfl := Returned.value.inj made
    refine ⟨rfl, rfl, ?_, rfl, .inl ⟨rfl, unsearched (by rw [page]; nofun)⟩⟩
    obtain ⟨rest, begins⟩ : ∃ rest, mainPage now.texts = 60 :: rest := ⟨_, rfl⟩
    rw [mainResponse, begins]
    exact List.cons_ne_nil _ _
  | view =>
    rw [page] at made
    dsimp only at made
    cases text : viewText lower now.files uri with
    | none =>
      rw [text] at made
      cases made
    | some text_ =>
      rw [text] at made
      obtain rfl := Returned.value.inj made
      obtain ⟨rest, begins⟩ := viewText_begins text
      exact ⟨rfl, rfl, clip_ne_nil begins (by decide), rfl,
        .inl ⟨rfl, unsearched (by rw [page]; nofun)⟩⟩
  | search =>
    rw [page] at made
    dsimp only at made
    cases searched : searchedAddress lower uri with
    | none =>
      rw [searched] at made
      cases made
    | some address =>
      rw [searched] at made
      obtain rfl := Returned.value.inj made
      rw [HTTPConnection.searchOf, searched]
      dsimp only
      rw [searchResponse]
      by_cases empty : utf16Length address = 0
      · obtain ⟨rest, begins⟩ := invalidPage_begins
        have filled := clip_ne_nil begins (by decide)
        rw [if_pos empty, if_pos empty]
        exact ⟨rfl, rfl, filled, rfl, .inl ⟨rfl, rfl⟩⟩
      · obtain ⟨rest, begins⟩ := pageHeader_begins address
        have filled := clip_ne_nil begins (by decide)
        rw [if_neg empty, if_neg empty]
        dsimp only
        have calls := emailsForAddress_delivered now.mDb address
        exact ⟨rfl, rfl, filled, rfl, .inr ⟨rfl, delivered now.mDb address, calls⟩⟩

theorem honest_start {lower : Bytes → Bytes} {now : Instant} {uri : Bytes}
    {response : SearchResponse}
    (made : responseWithPath lower now.files now.texts uri = .value response)
    (few : (HTTPConnection.searchOf lower now uri response).calls.length ≤ 11) :
    FrontSent (HTTPConnection.searchOf lower now uri response) := by
  obtain ⟨-, offset, filled, count, calls⟩ := searchOf_begins made
  have open_ : response.isDone = false := by
    have long := List.length_pos_iff.mpr filled
    rw [SearchResponse.isDone, offset, decide_eq_false (by omega), Bool.and_false]
  refine ⟨⟨[], List.forall_mem_nil _, ?_, ?_⟩, ?_, ?_, ?_⟩
  · show [] = [] ++ if response.isDone then [Chunk.terminator] else []
    rw [open_]
    rfl
  · show [] = response.dataBuffer.take response.theOffset
    rw [offset, List.take_zero]
  · show response.theOffset ≤ response.dataBuffer.length
    omega
  · rcases calls with ⟨-, missing⟩ | ⟨underway, emails, shape⟩
    · exact .inl missing
    · refine .inr ⟨underway, emails, shape, ?_⟩
      rw [shape, List.length_append, List.length_map, List.length_singleton] at few
      show response.emailCount + emails.length ≤ 10
      omega
  · intro _ spent
    rcases calls with ⟨done, -⟩ | ⟨-, emails, shape⟩
    · exact done
    · rw [spent] at shape
      exact absurd shape (by simp)

/-! ### What was asked for -/

/-- The response is one that calls and reads make of the first, until its connection is closed. -/
def ServedFrom (start s : Serving) : Prop :=
  ∃ labels : List PageStep, s.sent = (run Serving.step start labels).sent ∧
    { s.response with connection := true } = (run Serving.step start labels).response ∧
    (s.response.connection = true ∨ s.response.isDone = true →
      s.calls = (run Serving.step start labels).calls)

theorem follows_refl {start : Serving} (linked : start.response.connection = true) :
    ServedFrom start start := by
  refine ⟨[], rfl, ?_, fun _ => rfl⟩
  show { start.response with connection := true } = start.response
  rw [← linked]

/-- As long as the response has its connection a step of it is a step of the run. -/
theorem follows_step {start s : Serving} (follows : ServedFrom start s)
    (linked : s.response.connection = true) (label : PageStep)
    (keeps : (s.step label).response.connection = true) : ServedFrom start (s.step label) := by
  obtain ⟨labels, sent, response, calls⟩ := follows
  have same : s = run Serving.step start labels := by
    rw [← linked] at response
    have whole : (⟨s.response, s.calls, s.sent⟩ : Serving) =
        ⟨(run Serving.step start labels).response, (run Serving.step start labels).calls,
          (run Serving.step start labels).sent⟩ := by
      rw [← response, ← sent, ← calls (.inl linked)]
    exact whole
  have later : run Serving.step start (labels ++ [label]) = s.step label := by
    rw [run_append, ← same]
    rfl
  refine ⟨labels ++ [label], ?_, ?_, fun _ => ?_⟩
  · rw [later]
  · rw [later, ← keeps]
  · rw [later]

/-! ### The search by itself -/

def calling : Nat → Serving → Serving
  | 0, s => s
  | n + 1, s => calling n s.call

/-- The response once its search has run, with nothing sent meanwhile. -/
def searched (s : Serving) : Serving := calling s.calls.length s

/-- A response but for what is sent of it. -/
def unsent (s : Serving) : SearchResponse × List (Option SMEmail) :=
  ({ s.response with theOffset := 0 }, s.calls)

/-- The block does not look at what was sent. -/
private theorem searchCallback_offset (r : SearchResponse) (offset : Nat) (found : Option SMEmail) :
    searchCallback { r with theOffset := offset } found =
      (searchCallback r found).map fun answer =>
        ({ answer.1 with theOffset := offset }, answer.2) := by
  unfold searchCallback
  split
  · rfl
  split
  · rfl
  dsimp only
  split
  · rfl
  split
  · rw [Option.map_map]
    rfl
  · rfl

theorem unsent_call {s t : Serving} (same : unsent s = unsent t) : unsent s.call = unsent t.call := by
  obtain ⟨response, calls⟩ := Prod.mk.inj same
  rw [Serving.call, Serving.call, ← calls]
  cases s.calls with
  | nil => exact same
  | cons found left =>
    have left_ := searchCallback_offset s.response 0 found
    have right := searchCallback_offset t.response 0 found
    rw [response] at left_
    rw [left_] at right
    dsimp only
    cases called : searchCallback s.response found with
    | none =>
      rw [called] at right
      rw [Option.map_eq_none_iff.mp right.symm]
      exact congrArg (fun response => (response, [])) response
    | some answer =>
      rw [called, Option.map_some] at right
      obtain ⟨answer', called', same'⟩ := Option.map_eq_some_iff.mp right.symm
      rw [called']
      obtain ⟨first, second⟩ := Prod.mk.inj same'
      refine Prod.ext first.symm ?_
      show (if answer.2 then left else refused found left) =
        if answer'.2 then left else refused found left
      rw [second]

theorem unsent_send (s : Serving) (available : Nat) : unsent (s.send available) = unsent s := by
  obtain ⟨offset, -, response, calls, -⟩ := send_spec s available
  rw [unsent, response, calls]
  rfl

private theorem unsent_calling {s t : Serving} (n : Nat) (same : unsent s = unsent t) :
    unsent (calling n s) = unsent (calling n t) := by
  induction n generalizing s t with
  | zero => exact same
  | succ n ih => exact ih (unsent_call same)

theorem call_over {s : Serving} (spent : s.calls = []) : s.call = s := by rw [Serving.call, spent]

private theorem calling_over {s : Serving} (spent : s.calls = []) (n : Nat) : calling n s = s := by
  induction n with
  | zero => rfl
  | succ n ih => rw [calling, call_over spent, ih]

/-- A call is one call fewer to come. -/
private theorem call_fewer {s : Serving} (present : s.calls ≠ []) :
    s.call.calls.length < s.calls.length := by
  rw [Serving.call]
  cases calls : s.calls with
  | nil => exact absurd calls present
  | cons found left =>
    dsimp only
    cases searchCallback s.response found with
    | none => exact Nat.succ_pos _
    | some answer =>
      dsimp only
      split
      · exact Nat.lt_succ_self _
      · rw [refused]
        split
        · exact Nat.lt_succ_self _
        · rw [List.length_cons, List.length_cons, List.length_cons, List.length_nil]
          omega

/-- Calls that are enough end the search. -/
private theorem calling_enough {s : Serving} {n : Nat} (enough : s.calls.length ≤ n) :
    calling n s = searched s := by
  induction n using Nat.strongRecOn generalizing s with
  | ind n ih =>
    by_cases spent : s.calls = []
    · rw [searched, calling_over spent, calling_over spent]
    · have fewer := call_fewer spent
      obtain ⟨k, size⟩ : ∃ k, s.calls.length = k + 1 :=
        Nat.exists_eq_succ_of_ne_zero (by omega)
      obtain ⟨m, rfl⟩ : ∃ m, n = m + 1 := Nat.exists_eq_succ_of_ne_zero (by omega)
      rw [searched, size, calling, calling, ih m (by omega) (by omega)]
      by_cases all : k = m
      · rw [all, ih m (by omega) (by omega)]
      · rw [ih k (by omega) (by omega)]

private theorem searched_call (s : Serving) : searched s.call = searched s := by
  by_cases spent : s.calls = []
  · rw [call_over spent]
  · have fewer := call_fewer spent
    obtain ⟨k, size⟩ : ∃ k, s.calls.length = k + 1 := Nat.exists_eq_succ_of_ne_zero (by omega)
    rw [← calling_enough (s := s.call) (n := k) (by omega)]
    show calling (k + 1) s = searched s
    rw [searched, size]

/-- Whatever is sent meanwhile, the search makes the page that it makes by itself. -/
private theorem run_searched (start : Serving) (labels : List PageStep)
    (spent : (run Serving.step start labels).calls = []) :
    (run Serving.step start labels).response.dataBuffer = (searched start).response.dataBuffer := by
  have whole : unsent (run Serving.step start labels) = unsent (searched start) := by
    induction labels generalizing start with
    | nil =>
      have missing : start.calls = [] := spent
      rw [searched, calling_over missing]
      rfl
    | cons label labels ih =>
      have later := ih (start.step label) spent
      cases label with
      | call => exact later.trans (congrArg unsent (searched_call start))
      | send available =>
        have same := unsent_send start available
        have calls : (start.send available).calls = start.calls := congrArg Prod.snd same
        refine later.trans ?_
        show unsent (searched (start.send available)) = unsent (searched start)
        rw [searched, searched, calls]
        exact unsent_calling _ same
  exact congrArg (fun parts => SearchResponse.dataBuffer parts.1) whole

/-- A response that is sent as a whole is the page its search makes. -/
theorem ServedFrom.whole {start s : Serving} (follows : ServedFrom start s) (frontSent : FrontSent s)
    (done : s.response.isDone = true) :
    s.response.dataBuffer = (searched start).response.dataBuffer := by
  obtain ⟨labels, -, response, calls⟩ := follows
  have spent := calls (.inr done)
  rw [frontSent.calls_done done] at spent
  have page := run_searched start labels spent.symm
  rw [← response] at page
  exact page

end Spamass.Http
