import Spamass.Emailz.ReadLine
import Spamass.Emailz.ReadCommand

/-!
# emailz_socket_handle_read

One call of the read function on a socket: the transport half (plaintext append,
or handshake and `SSLRead`), then the loop that takes lines off the buffer and
handles each as mail data or as a command. The Security framework is outside the
repository: its answers are given with the input.
-/
namespace Spamass.Emailz

open Spamass.Framing

/-! ### Writing -/

/-- `emailz_socket_handle_write` of a literal. The TLS branch hands the text to
`SSLWrite`, whose channel write completes with the handler of `emailz_sslsocket_write`. -/
def socketHandleWrite (s : Session) (reply : Reply) (handler : Option Completion) :
    Session × List Event :=
  if s.sslcontext.isSome then (s, [.reply reply .stopOnError])
  else
    ({ s with
        outbytes := s.outbytes + reply.text.length
        bytesSent := s.bytesSent + reply.text.length },
      [.reply reply (handler.getD .stopOnError)])

/-! ### Setting up TLS -/

/-- What the Security calls of one `emailz_socket_setup_ssl` return. -/
structure SetupAnswers where
  newContext : OSStatus
  setIOFuncs : OSStatus
  setProtocolVersionEnabled : OSStatus
  setConnection : OSStatus
  setAllowsExpiredCerts : OSStatus
  setEnableCertVerify : OSStatus
  setAllowsAnyRoot : OSStatus
  setCertificate : OSStatus
  setPeerID : OSStatus
  handshake : OSStatus

/-- The calls between the creation of the context and the handshake, in order. -/
def SetupAnswers.configuration (a : SetupAnswers) : List OSStatus :=
  [a.setIOFuncs, a.setProtocolVersionEnabled, a.setConnection, a.setAllowsExpiredCerts,
    a.setEnableCertVerify, a.setAllowsAnyRoot, a.setCertificate, a.setPeerID]

/-- `emailz_socket_setup_ssl`. Each failing call returns at once, the context left as it is. -/
def socketSetupSsl (answers : Nat → SetupAnswers) (s : Session) : Session × List Event :=
  let a := answers s.setups
  let called := { s with setups := s.setups + 1 }
  if a.newContext ≠ noErr then (called, [])
  else
    let made := { called with sslcontext := some s.setups }
    if a.configuration.any (· ≠ noErr) then (made, [.newContext s.setups])
    else
      let started := { made with isHandshaking := true }
      if a.handshake ≠ noErr ∧ a.handshake ≠ errSSLWouldBlock then (started, [.newContext s.setups])
      else if a.handshake = noErr then
        ({ started with isHandshaking := false }, [.newContext s.setups])
      else (started, [.newContext s.setups])

/-! ### Handling a line -/

/-- The environment of a connection: the Security framework, and the memory that
precedes the base64 table. -/
structure Env where
  setup : Nat → SetupAnswers
  stray : UInt8 → UInt8

/-- Every call succeeds, and the handshake waits for the client. -/
def SetupAnswers.granted : SetupAnswers where
  newContext := noErr
  setIOFuncs := noErr
  setProtocolVersionEnabled := noErr
  setConnection := noErr
  setAllowsExpiredCerts := noErr
  setEnableCertVerify := noErr
  setAllowsAnyRoot := noErr
  setCertificate := noErr
  setPeerID := noErr
  handshake := errSSLWouldBlock

def Env.granted : Env := ⟨fun _ => SetupAnswers.granted, fun _ => 65⟩

/-- The `AUTH` case of the reply switch. -/
def handleAuth (env : Env) (s : Session) (line : Bytes) : Session × List Event :=
  if s.isSecure then
    match authPlain env.stray line with
    | none => socketHandleWrite s .authFailed none
    | some (username, password) =>
      match s.authHandler, s.handlerQueue with
      | some handler, true =>
        let written := socketHandleWrite s
          (if handler username password then .authenticated else .authFailed) none
        (written.1, .auth username password :: written.2)
      | _, _ => socketHandleWrite s .authenticated none
  else socketHandleWrite s .unsupported none

/-- The reply switch. -/
def respond (env : Env) (s : Session) (line : Bytes) : Command → Session × List Event
  | .helo => socketHandleWrite s .helo none
  | .ehlo => socketHandleWrite s (if s.isSecure then .ehloSecure else .ehlo) none
  | .mail => socketHandleWrite s .ok none
  | .rcpt => socketHandleWrite s .recipientOk none
  | .data => socketHandleWrite { s with emailSize := 0 } .enterMail none
  | .quit => socketHandleWrite s .closing (some .stopWhenWritten)
  | .rset => socketHandleWrite s .ok none
  | .noop => socketHandleWrite s .ok none
  | .help => socketHandleWrite s .help none
  | .vrfy => socketHandleWrite s .vrfy none
  | .auth => handleAuth env s line
  | .starttls =>
    if s.isSecure then socketHandleWrite s .unsupported none
    else
      let written := socketHandleWrite s .readyTls none
      let setup := socketSetupSsl env.setup written.1
      (setup.1, written.2 ++ setup.2)
  | .none => socketHandleWrite s .unsupported none

/-- The line that ends the data segment. -/
def endOfMail : Bytes := [dot, cr, lf]

/-- The data handler call, when a handler and its queue are set. -/
def dataCallback (s : Session) (payload : Bytes) (done : Bool) : List Event :=
  if s.dataHandler && s.handlerQueue then [.data payload done] else []

/-- The smtp handler call, when a handler and its queue are set and the mask has the command. -/
def smtpCallback (s : Session) (command : Command) (arg : Bytes) : List Event :=
  if s.smtpHandler && s.handlerQueue && (command.bit &&& s.smtpHandlerMask != 0) then
    [.smtp command arg]
  else []

/-- A line inside the data segment. -/
def handleMailLine (s : Session) (line : Bytes) : Step Session Event :=
  if line = endOfMail then
    let written := socketHandleWrite { s with state := .none } .accepted none
    ⟨written.1, dataCallback s [] true ++ written.2, false⟩
  else
    let counted := { s with emailSize := s.emailSize + line.length }
    if maxIndataSize < counted.emailSize then
      ⟨(socketStop counted).1, dataCallback s line true ++ (socketStop counted).2, true⟩
    else ⟨counted, dataCallback s line false, false⟩

/-- A line outside the data segment. -/
def handleCommandLine (env : Env) (s : Session) (line : Bytes) : Step Session Event :=
  match lineCommand line with
  | none => ⟨s, [], true⟩
  | some command =>
    let noted := { s with state := command }
    let responded := respond env noted line command
    ⟨responded.1, smtpCallback s command (argument line) ++ responded.2, false⟩

/-- The body of the line loop; the line itself is noted in the log. -/
def handleLine (env : Env) (s : Session) (line : Bytes) : Step Session Event :=
  let handled := if s.state = .data then handleMailLine s line else handleCommandLine env s line
  ⟨handled.state, .line line :: handled.events, handled.breaks⟩

/-- The line loop. Every line has a byte at least, so the length of the buffer is fuel enough. -/
def lineLoop (env : Env) : Nat → Socket → Socket × List Event
  | 0, s => (s, [])
  | fuel + 1, s =>
    if s.indata.length = 0 then (s, [])
    else
      match socketReadLine s.indata with
      | none => (s, [])
      | some (line, rest) =>
        let handled := handleLine env s.toSession line
        let next := { s with toSession := handled.state, indata := rest }
        if handled.breaks then (next, handled.events)
        else ((lineLoop env fuel next).1, handled.events ++ (lineLoop env fuel next).2)

/-! ### Input -/

/-- `emailz_socket_record`: `short` is the number of bytes an incomplete `fwrite` wrote. -/
def socketRecord (s : Socket) (data : Bytes) (short : Option Nat) : Socket :=
  if s.recording then
    match short with
    | none => { s with recorded := s.recorded ++ data }
    | some n => { s with recorded := s.recorded ++ data.take n, record := false }
  else s

/-- Status, copied bytes and remaining input of `emailz_sslsocket_read`. -/
structure SslsocketRead where
  status : OSStatus
  datalen : Nat
  copied : Bytes
  tmpdata : Bytes

/-- `dispatch_data_apply` with the copying block of `emailz_sslsocket_read`. -/
def copyRegions : Nat → List Bytes → Bytes
  | _, [] => []
  | remaining, region :: regions =>
    let size := min remaining region.length
    if remaining - size = 0 then region.take size
    else region.take size ++ copyRegions (remaining - size) regions

/-- `emailz_sslsocket_read`. -/
def sslsocketRead (tmpdata : List Bytes) (requested : Nat) : SslsocketRead :=
  let available := tmpdata.flatten.length
  if available = 0 then ⟨errSSLWouldBlock, 0, [], tmpdata.flatten⟩
  else
    let copied := copyRegions requested tmpdata
    let left := tmpdata.flatten.drop copied.length
    if available < requested then ⟨errSSLWouldBlock, available, copied, left⟩
    else ⟨noErr, requested, copied, left⟩

/-- A Security call that may read encrypted input: its status and the lengths it asks for. -/
structure SslCall where
  status : OSStatus
  requests : List Nat

/-- One `SSLRead` into the 1000 bytes of `buffer`. -/
structure SslRead extends SslCall where
  decrypted : Bytes
  fits : decrypted.length ≤ 1000
  short : Option Nat

/-- One call of the read handler's `data`, and how the Security framework answers meanwhile.
Behind the listed answers `SSLRead` would block. -/
structure Arrival where
  data : Bytes
  short : Option Nat
  handshake : SslCall
  sslReads : List SslRead

/-- The framework reads encrypted input through `emailz_sslsocket_read`. -/
def Socket.serve (s : Socket) (call : SslCall) : Socket :=
  { s with tmpdata := call.requests.foldl (fun tmp n => (sslsocketRead [tmp] n).tmpdata) s.tmpdata }

def Socket.append (s : Socket) (data : Bytes) (short : Option Nat) : Socket :=
  { socketRecord s data short with indata := s.indata ++ data }

def Socket.stopped (s : Socket) : Socket := { s with toSession := (socketStop s.toSession).1 }

/-- The `SSLRead` loop. A graceful close and an error both stop the socket; the lines
buffered so far are handled all the same. -/
def sslReadLoop (s : Socket) : List SslRead → Socket × List Event
  | [] => (s, [])
  | answer :: answers =>
    let served := s.serve answer.toSslCall
    if answer.status ≠ noErr ∧ answer.status ≠ errSSLWouldBlock then
      (served.stopped, (socketStop served.toSession).2)
    else if answer.decrypted.length = 0 then (served, [])
    else sslReadLoop (served.append answer.decrypted answer.short) answers

/-- The transport half of `emailz_socket_handle_read`; `false` when it returns early. -/
def receive (s : Socket) (arrival : Arrival) : Socket × List Event × Bool :=
  match s.sslcontext with
  | none => (s.append arrival.data arrival.short, [], true)
  | some _ =>
    let queued := { s with tmpdata := s.tmpdata ++ arrival.data }
    if s.isHandshaking then
      let served := queued.serve arrival.handshake
      if arrival.handshake.status = errSSLWouldBlock then (served, [], false)
      else if arrival.handshake.status ≠ noErr then
        (served.stopped, (socketStop served.toSession).2, false)
      else
        let secured := { served with isHandshaking := false, isSecure := true }
        ((sslReadLoop secured arrival.sslReads).1, (sslReadLoop secured arrival.sslReads).2, true)
    else ((sslReadLoop queued arrival.sslReads).1, (sslReadLoop queued arrival.sslReads).2, true)

/-- `emailz_socket_handle_read`. -/
def socketHandleRead (env : Env) (s : Socket) (arrival : Arrival) : Socket × List Event :=
  let received := receive s arrival
  if received.2.2 then
    let looped := lineLoop env received.1.indata.length received.1
    (looped.1, received.2.1 ++ looped.2)
  else (received.1, received.2.1)

/-- Reads fed one after another. -/
def handleReads (env : Env) : Socket → List Arrival → Socket × List Event
  | s, [] => (s, [])
  | s, arrival :: arrivals =>
    ((handleReads env (socketHandleRead env s arrival).1 arrivals).1,
      (socketHandleRead env s arrival).2 ++
        (handleReads env (socketHandleRead env s arrival).1 arrivals).2)

/-- Reads as the channel's read handler passes them on: none once the socket was stopped. -/
def handleOpenReads (env : Env) : Socket → List Arrival → Socket × List Event
  | s, [] => (s, [])
  | s, arrival :: arrivals =>
    if s.stop then (s, [])
    else
      ((handleOpenReads env (socketHandleRead env s arrival).1 arrivals).1,
        (socketHandleRead env s arrival).2 ++
          (handleOpenReads env (socketHandleRead env s arrival).1 arrivals).2)

/-- A read of plaintext that is recorded whole. -/
def plainRead (data : Bytes) : Arrival := ⟨data, none, ⟨noErr, []⟩, []⟩

@[simp] theorem plainRead_data (data : Bytes) : (plainRead data).data = data := rfl

end Spamass.Emailz
