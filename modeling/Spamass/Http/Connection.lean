import Mathlib.Algebra.GroupWithZero.Nat
import Mathlib.Logic.Function.Basic
import Spamass.Chunked
import Spamass.Web.Answers

/-!
# Connections of the web server

`HTTPConnection` reads requests line by line and replies to one after another. Everything it
does runs in blocks on its queue: the socket hands it a line or tells it that a write is
done, and a response tells it that there is more to send. The search behind a page runs
elsewhere, and may go on when its page is long sent. A step is a whole event: a call of the
search's block and a block of the queue do not overlap here.
-/
namespace Spamass.Http

open Spamass.Emailz Spamass.App Spamass.Web Spamass.Chunked

/-! ### Messages -/

/-- The first line and the fields of a response. -/
structure Head where
  status : Nat
  fields : List (Bytes × Bytes)

/-- What Foundation knows of messages: it reads a request line by line, and writes a head. -/
structure Messages (μ : Type) where
  initEmptyRequest : μ
  -- `none` for a line that is not part of a request
  appendData : μ → Bytes → Option μ
  isHeaderComplete : μ → Bool
  version : μ → Bytes
  method : μ → Bytes
  requestURI : μ → Bytes
  headerField : μ → Bytes → Option Bytes
  messageData : Head → Bytes

def isSpace (b : UInt8) : Bool := b == 32 || (9 ≤ b && b ≤ 13)

/-- `parseString:intoUInt64:`, by `strtoull`: white space and a sign in front, and nothing asked
of what comes behind the digits. -/
def parseUInt64 (text : Bytes) : Option Nat :=
  let read (rest : Bytes) : Option Nat :=
    let number := rest.takeWhile isDigit
    let value := number.foldl (fun n b => n * 10 + (b.toNat - 48)) 0
    if number = [] ∨ 2 ^ 64 ≤ value then none else some value
  match text.dropWhile isSpace with
  | 43 :: rest => read rest
  | 45 :: rest => (read rest).map fun value => (2 ^ 64 - value) % 2 ^ 64
  | rest => read rest

/-! ### The connection -/

/-- `READ_CHUNKSIZE`. -/
def readChunkSize : Nat := 1024 * 512

/-- `MAX_HEADER_LINES`. -/
def maxHeaderLines : Nat := 100

/-- The tags of the writes. -/
inductive Tag where
  | partialResponseHeader
  | chunkedResponseHeader
  | chunkedResponseBody
  | chunkedResponseFooter
  | response
  | finalResponse
  deriving DecidableEq, Repr

/-- A block on the queue of the connection. -/
inductive Block where
  | didReadData (data : Bytes)
  | didWriteData (tag : Tag)
  | responseHasAvailableData (sender : Nat)
  | socketDidDisconnect
  deriving DecidableEq, Repr

/-- What a request was answered with: an error, a head alone, or a head and the chunks of a
response, which was this when it was made. -/
inductive Reply where
  | error (head : Bytes)
  | bare (head : Bytes) (start : Serving)
  | page (head : Bytes) (id : Nat) (start : Serving)
  deriving DecidableEq, Repr

structure HTTPConnection (μ : Type) where
  request : Option μ
  numHeaderLines : Nat
  sentResponseHeaders : Bool
  responseDataSizes : List Nat
  httpResponse : Option Nat
  -- the responses made so far
  responses : Nat → Serving
  count : Nat
  -- the blocks of the queue
  blocks : List Block
  -- the socket: a disconnected one neither reads nor writes
  connected : Bool
  reading : Bool
  writeQueue : List (Tag × Bytes)
  written : Bytes
  -- an exception has ended the application
  crashed : Bool
  -- the replies, in their order
  replies : List Reply

/-- What a block finds around it. The database is the snapshot that a search begun by the block
takes. -/
structure Instant where
  files : Bytes → Option Bytes
  texts : MainTexts
  mDb : Database
  date : Bytes

section

variable {μ : Type} (messages : Messages μ) (lower : Bytes → Bytes)

/-- `initWithAsyncSocket:configuration:` and `startReadingRequest`. -/
def HTTPConnection.start : HTTPConnection μ where
  request := some messages.initEmptyRequest
  numHeaderLines := 0
  sentResponseHeaders := false
  responseDataSizes := []
  httpResponse := none
  responses := fun _ => ⟨⟨false, [], 0, false, 0, 0⟩, [], []⟩
  count := 0
  blocks := []
  connected := true
  reading := true
  writeQueue := []
  written := []
  crashed := false
  replies := []

namespace HTTPConnection

variable (c : HTTPConnection μ)

/-! ### The socket -/

def writeData (data : Bytes) (tag : Tag) : HTTPConnection μ :=
  { c with writeQueue := c.writeQueue ++ [(tag, data)] }

/-- `readDataToData:` up to the end of a line. -/
def readDataToData : HTTPConnection μ := { c with reading := true }

def disconnect : HTTPConnection μ :=
  if c.connected then
    { c with connected := false, blocks := c.blocks ++ [.socketDidDisconnect] }
  else c

/-! ### Replies -/

/-- The fields `preprocessResponse:` and `preprocessErrorResponse:` add; no response of the
application has headers of its own. -/
def standardFields (now : Instant) : List (Bytes × Bytes) :=
  [(ascii "Date", now.date), (ascii "Accept-Ranges", ascii "bytes")]

/-- The head of a reply is queued. -/
def post (head : Bytes) (tag : Tag) (reply : Reply) : HTTPConnection μ :=
  { c.writeData head tag with replies := c.replies ++ [reply] }

/-- An error without a body. -/
def refuse (now : Instant) (status : Nat) (fields : List (Bytes × Bytes)) (tag : Tag) :
    HTTPConnection μ :=
  let head := messages.messageData
    ⟨status, (ascii "Content-Length", ascii "0") :: fields ++ standardFields now⟩
  c.post head tag (.error head)

def handleVersionNotSupported (now : Instant) : HTTPConnection μ :=
  c.refuse messages now 505 [] .response

def handleInvalidRequest (now : Instant) : HTTPConnection μ :=
  c.refuse messages now 400 [(ascii "Connection", ascii "close")] .finalResponse

def handleUnknownMethod (now : Instant) : HTTPConnection μ :=
  c.refuse messages now 405 [(ascii "Connection", ascii "close")] .finalResponse

def handleResourceNotFound (now : Instant) : HTTPConnection μ :=
  c.refuse messages now 404 [] .response

def writeQueueSize : Nat := c.responseDataSizes.sum

/-- `chunkedTransferFooter`. -/
def chunkedTransferFooter : Bytes := ascii "\r\n0\r\n\r\n"

def headersSent : HTTPConnection μ := { c with sentResponseHeaders := true }

/-- The next data of a response, as one chunk. Both `sendResponseHeadersAndBody` and
`continueSendingStandardResponseBody` send it in this way. -/
def sendChunk (id : Nat) (available : Nat) : HTTPConnection μ :=
  let read := (c.responses id).response.readDataOfLength available
  let c := { c with responses := Function.update c.responses id ((c.responses id).send available) }
  if read.2 = [] then c
  else
    let c := { c with responseDataSizes := c.responseDataSizes ++ [read.2.length] }
    let c := c.writeData (sizeLine read.2.length) .chunkedResponseHeader
    let c := c.writeData read.2 .chunkedResponseBody
    if read.1.isDone then c.writeData chunkedTransferFooter .response
    else c.writeData newline .chunkedResponseFooter

/-- `sendResponseHeadersAndBody` of a response of the application, which is chunked: there are no
ranges, and its length is not known. -/
def sendResponseHeadersAndBody (now : Instant) (method : Bytes) (id : Nat) : HTTPConnection μ :=
  let head := messages.messageData
    ⟨200, (ascii "Transfer-Encoding", ascii "chunked") :: standardFields now⟩
  let start := c.responses id
  let c := c.headersSent
  if method = ascii "HEAD" then c.post head .response (.bare head start)
  else (c.post head .partialResponseHeader (.page head id start)).sendChunk id readChunkSize

/-- `continueSendingStandardResponseBody`. -/
def continueSendingStandardResponseBody : HTTPConnection μ :=
  if readChunkSize ≤ c.writeQueueSize then c
  else
    match c.httpResponse with
    | none => c
    | some id => c.sendChunk id (readChunkSize - c.writeQueueSize)

/-- The connection has a new response. -/
def respondWith (s : Serving) : HTTPConnection μ :=
  { c with
    httpResponse := some c.count
    responses := Function.update c.responses c.count s
    count := c.count + 1 }

/-- The search of a new response, with the calls of its block still to come. -/
def searchOf (now : Instant) (uri : Bytes) (response : SearchResponse) : Serving where
  response := response
  calls :=
    match searchedAddress lower uri with
    | none => []
    | some address =>
      if utf16Length address = 0 then [] else emailsForAddress (fun _ => true) address now.mDb
  sent := []

def isWebSocketRequest (m : μ) : Bool :=
  match messages.headerField m (ascii "Upgrade"), messages.headerField m (ascii "Connection") with
  | some upgrade, some connection =>
    decide (lower upgrade = lower (ascii "WebSocket")) &&
      decide (lower (ascii "Upgrade") <:+: lower connection)
  | _, _ => false

/-- `replyToHTTPRequest`. No resource is protected by a password, and none is a web socket. -/
def replyToHTTPRequest (now : Instant) (m : μ) : HTTPConnection μ :=
  let uri := messages.requestURI m
  if messages.version m ≠ ascii "HTTP/1.1" ∧ messages.version m ≠ ascii "HTTP/1.0" then
    c.handleVersionNotSupported messages now
  else if isWebSocketRequest messages lower m then c.handleResourceNotFound messages now
  else if uri = ascii "/favicon.ico" then c.handleResourceNotFound messages now
  else
    match responseWithPath lower now.files now.texts uri with
    | .undefined => { c with crashed := true }
    | .value response =>
      (c.respondWith (searchOf lower now uri response)).sendResponseHeadersAndBody messages now
        (messages.method m) c.count

/-! ### Requests -/

/-- `expectsRequestBodyFromMethod:atPath:`. -/
def expectsRequestBody (method : Bytes) : Bool := method = ascii "POST" ∨ method = ascii "PUT"

/-- `supportsMethod:atPath:`. -/
def supportsMethod (method : Bytes) : Bool := method = ascii "GET" ∨ method = ascii "HEAD"

/-- The length of the body that the head of a request announces is one it may have. -/
def bodyAllowed (m : μ) : Bool :=
  let transferEncoding := messages.headerField m (ascii "Transfer-Encoding")
  let contentLength := (messages.headerField m (ascii "Content-Length")).map parseUInt64
  if expectsRequestBody (messages.method m) then
    if transferEncoding.map lower = some (lower (ascii "Chunked")) then true
    else
      match contentLength with
      | some (some _) => true
      | _ => false
  else
    match contentLength with
    | none => true
    | some length => length = some 0

/-- `socket:didReadData:withTag:` of a line of a header. A method that is supported has no body. -/
def didReadData (now : Instant) (data : Bytes) : HTTPConnection μ :=
  match c.request.bind fun m => messages.appendData m data with
  | none => c.handleInvalidRequest messages now
  | some m =>
    let c := { c with request := some m }
    if !messages.isHeaderComplete m then
      let c := { c with numHeaderLines := c.numHeaderLines + 1 }
      if maxHeaderLines < c.numHeaderLines then c.disconnect else c.readDataToData
    else if !bodyAllowed messages lower m then c.handleInvalidRequest messages now
    else if !supportsMethod (messages.method m) then c.handleUnknownMethod messages now
    else c.replyToHTTPRequest messages lower now m

/-! ### Writes -/

/-- `shouldDie`. -/
def shouldDie (m : μ) : Bool :=
  let connection := messages.headerField m (ascii "Connection")
  if messages.version m = ascii "HTTP/1.1" then
    connection.map lower = some (lower (ascii "close"))
  else if messages.version m = ascii "HTTP/1.0" then
    connection.map lower ≠ some (lower (ascii "Keep-Alive"))
  else false

/-- `connectionDidClose` of the response that is sent. -/
def connectionDidClose : HTTPConnection μ :=
  match c.httpResponse with
  | none => c
  | some id =>
    let s := c.responses id
    let closed := { s with response := { s.response with connection := false } }
    { c with responses := Function.update c.responses id closed }

def finishResponse : HTTPConnection μ := { c with request := none, httpResponse := none }

/-- The end of a response. -/
def doneSendingResponse (tag : Tag) : HTTPConnection μ :=
  let c := { c with responseDataSizes := c.responseDataSizes.tail }.connectionDidClose
  if tag = .finalResponse then c.finishResponse.disconnect
  else if (c.request.map (shouldDie messages lower)).getD false then c.finishResponse.disconnect
  else
    { c.finishResponse with
      request := some messages.initEmptyRequest
      numHeaderLines := 0
      sentResponseHeaders := false }.readDataToData

/-- `socket:didWriteDataWithTag:`. -/
def didWriteData : Tag → HTTPConnection μ
  | .chunkedResponseBody => { c with responseDataSizes := c.responseDataSizes.tail }
  | .chunkedResponseFooter => c.continueSendingStandardResponseBody
  | .partialResponseHeader => c
  | .chunkedResponseHeader => c
  | .response => c.doneSendingResponse messages lower .response
  | .finalResponse => c.doneSendingResponse messages lower .finalResponse

/-- The block `responseHasAvailableData:` dispatches. -/
def responseHasAvailableData (now : Instant) (sender : Nat) : HTTPConnection μ :=
  if c.httpResponse ≠ some sender then c
  else if !c.sentResponseHeaders then
    c.sendResponseHeadersAndBody messages now ((c.request.map messages.method).getD []) sender
  else c.continueSendingStandardResponseBody

/-- `socketDidDisconnect:withError:` and `die`. -/
def die : HTTPConnection μ := { c.connectionDidClose with httpResponse := none }

/-! ### The machine -/

def runBlock (now : Instant) : Block → HTTPConnection μ
  | .didReadData data => c.didReadData messages lower now data
  | .didWriteData tag => c.didWriteData messages lower tag
  | .responseHasAvailableData sender => c.responseHasAvailableData messages now sender
  | .socketDidDisconnect => c.die

/-- The search behind a response calls its block. -/
def call (id : Nat) : HTTPConnection μ :=
  let s := c.responses id
  match s.calls with
  | [] => c
  | found :: _ =>
    match searchCallback s.response found with
    | none => { c with crashed := true }
    | some (_, goesOn) =>
      let c := { c with responses := Function.update c.responses id s.call }
      -- the block tells the connection before it answers that it wants more
      if goesOn then { c with blocks := c.blocks ++ [.responseHasAvailableData id] } else c

inductive Label where
  /-- the socket has read a line -/
  | received (data : Bytes)
  /-- the socket has written what is first in its queue -/
  | wrote
  /-- the peer hangs up, or a read or write takes too long -/
  | hangUp
  /-- the search of a response calls its block -/
  | call (id : Nat)
  /-- the queue runs its next block -/
  | run (now : Instant)

def step (c : HTTPConnection μ) (label : Label) : HTTPConnection μ :=
  if c.crashed then c
  else
    match label with
    | .received data =>
      if c.connected && c.reading then
        { c with reading := false, blocks := c.blocks ++ [.didReadData data] }
      else c
    | .wrote =>
      match c.connected, c.writeQueue with
      | true, (tag, data) :: queue =>
        { c with
          writeQueue := queue
          written := c.written ++ data
          blocks := c.blocks ++ [.didWriteData tag] }
      | _, _ => c
    | .hangUp => c.disconnect
    | .call id => c.call id
    | .run now =>
      match c.blocks with
      | [] => c
      | block :: blocks => { c with blocks := blocks }.runBlock messages lower now block

end HTTPConnection

end

end Spamass.Http
