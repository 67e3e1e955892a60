import Mathlib.Data.List.Basic

/-!
# The socket of libEmailz

Constants, commands, replies and the `emailz_socket_s` record of `emailz.h`, with
the observable effects of processing input. Handlers are blocks of the
application: the record says which are installed, and a log says which calls
were queued for them.
-/
namespace Spamass.Emailz

abbrev Bytes := List UInt8

/-- The bytes of an ASCII literal. -/
def ascii (text : String) : Bytes := text.toList.map fun c => UInt8.ofNat c.toNat

def maxLineSize : Nat := 32000
def maxCmndSize : Nat := 50
def maxIndataSize : Nat := 1048576
def socketTimeout : UInt64 := 120000

def cr : UInt8 := 13
def lf : UInt8 := 10
def space : UInt8 := 32
def colon : UInt8 := 58
def dot : UInt8 := 46

inductive Command where
  | none | helo | ehlo | mail | rcpt | data | quit | rset | noop | help | vrfy | auth | starttls
  deriving DecidableEq, Repr

/-- The bit of a command in a handler mask. -/
def Command.bit : Command → UInt64
  | .none => 0
  | .helo => (1 : UInt64) <<< 1
  | .ehlo => (1 : UInt64) <<< 2
  | .mail => (1 : UInt64) <<< 3
  | .rcpt => (1 : UInt64) <<< 4
  | .data => (1 : UInt64) <<< 5
  | .quit => (1 : UInt64) <<< 6
  | .rset => (1 : UInt64) <<< 7
  | .noop => (1 : UInt64) <<< 8
  | .help => (1 : UInt64) <<< 9
  | .vrfy => (1 : UInt64) <<< 10
  | .auth => (1 : UInt64) <<< 11
  | .starttls => (1 : UInt64) <<< 12

inductive Reply where
  | greeting | helo | ehlo | ehloSecure | ok | recipientOk | enterMail | accepted | closing
  | help | vrfy | authenticated | authFailed | readyTls | unsupported
  deriving DecidableEq, Repr

/-- What the server writes. -/
def Reply.text : Reply → Bytes
  | .greeting => ascii "220 mail.spamass.net ESMTP\r\n"
  | .helo => ascii "250 mail.spamass.net\r\n"
  | .ehlo =>
    ascii "250-mail.spamass.net in the house\r\n" ++
    ascii "250-SIZE 12345678\r\n" ++
    ascii "250-8BITMIME\r\n" ++
    ascii "250-STARTTLS\r\n" ++
    ascii "250 ENHANCEDSTATUSCODES\r\n"
  | .ehloSecure =>
    ascii "250-mail.spamass.net in the house\r\n" ++
    ascii "250-SIZE 12345678\r\n" ++
    ascii "250-8BITMIME\r\n" ++
    ascii "250-AUTH PLAIN\r\n" ++
    ascii "250 ENHANCEDSTATUSCODES\r\n"
  | .ok => ascii "250 Ok\r\n"
  | .recipientOk => ascii "250 Recipient ok\r\n"
  | .enterMail => ascii "354 Enter mail, end with \".\" on a line by itself\r\n"
  | .accepted => ascii "250 AAA14672 Message accepted for delivery\r\n"
  | .closing => ascii "221 closing connection\r\n"
  | .help =>
    ascii "214-2.3.0 Available commands:\r\n" ++
    ascii "214-2.3.0\r\n" ++
    ascii "214-2.3.0 HELO, EHLO, MAIL FROM, RCPT TO, DATA\r\n" ++
    ascii "214-2.3.0 QUIT, RSET, NOOP, HELP, VRFY, STARTTLS\r\n" ++
    ascii "214 2.3.0\r\n"
  | .vrfy => ascii "252 2.1.5 It doesn't hurt to try\r\n"
  | .authenticated => ascii "235 You are good to go\r\n"
  | .authFailed => ascii "535 Authentication failed; restarting authentication process\r\n"
  | .readyTls => ascii "220 Ready to start TLS\r\n"
  | .unsupported => ascii "502 Unsupported command\r\n"

theorem Reply.text_pos (reply : Reply) : 0 < reply.text.length := by
  cases reply <;> exact List.length_pos_iff.mpr (List.cons_ne_nil _ _)

/-- Status codes of the Security framework. -/
abbrev OSStatus := Int

def noErr : OSStatus := 0
def errSSLWouldBlock : OSStatus := -9803

/-- The handler a channel write completes with. -/
inductive Completion where
  | stopOnError
  | stopWhenWritten
  deriving DecidableEq, Repr

/-- Whether the completion stops the connection, given the outcome of the write. -/
def Completion.stops : Completion → Bool → Bool
  | .stopOnError, error => error
  | .stopWhenWritten, _ => true

inductive Event where
  /-- `emailz_socket_read_line` put this line into `socket->line` -/
  | line (bytes : Bytes)
  | smtp (command : Command) (arg : Bytes)
  | data (payload : Bytes) (done : Bool)
  | auth (username password : Bytes)
  | reply (reply : Reply) (completion : Completion)
  /-- `SSLNewContext` succeeded in the given call of `emailz_socket_setup_ssl` -/
  | newContext (setup : Nat)
  | stop
  deriving DecidableEq, Repr

/-- The user settings of a socket. -/
structure Handlers where
  smtpHandler : Bool
  smtpHandlerMask : UInt64
  authHandler : Option (Bytes → Bytes → Bool)
  dataHandler : Bool
  handlerQueue : Bool

/-- The crypto fields of a socket. -/
structure Crypto where
  -- the context, named by the call of `emailz_socket_setup_ssl` that made it
  sslcontext : Option Nat
  isHandshaking : Bool
  isSecure : Bool
  -- how often `emailz_socket_setup_ssl` ran
  setups : Nat
  deriving DecidableEq, Repr

/-- The part of `emailz_socket_s` that handling a line may read or write. -/
structure Session extends Handlers, Crypto where
  outbytes : Nat
  -- `emailz->bytes_sent`, as far as this socket raises it
  bytesSent : Nat
  state : Command
  emailSize : Nat
  socketfd : Int
  stop : Bool

/-- `emailz_socket_s`: the session and the input side. -/
structure Socket extends Session where
  -- decrypted input not yet taken as a line
  indata : Bytes
  -- encrypted input not yet read by the Security framework
  tmpdata : Bytes
  inbytes : Nat
  -- `emailz->bytes_rcvd`, as far as this socket raises it
  bytesRcvd : Nat
  lastReadTime : UInt64
  -- recording was opened and no write to the file failed
  record : Bool
  -- what is in the record file
  recorded : Bytes

/-- `emailz_socket_create` followed by a successful `emailz_socket_start`. -/
def Socket.fresh (socketfd : Int) (now : UInt64) (record : Bool) : Socket where
  smtpHandler := false
  smtpHandlerMask := 0
  authHandler := none
  dataHandler := false
  handlerQueue := true
  outbytes := 0
  bytesSent := 0
  state := .none
  emailSize := 0
  socketfd := socketfd
  stop := false
  sslcontext := none
  isHandshaking := false
  isSecure := false
  setups := 0
  indata := []
  tmpdata := []
  inbytes := 0
  bytesRcvd := 0
  lastReadTime := now
  record := record
  recorded := []

/-- `emailz_socket_set_smtp_handler` with a handler. -/
def Handlers.setSmtpHandler (h : Handlers) (mask : UInt64) : Handlers :=
  { h with smtpHandler := true, smtpHandlerMask := mask }

/-- `emailz_socket_set_data_handler` with a handler. -/
def Handlers.setDataHandler (h : Handlers) : Handlers := { h with dataHandler := true }

/-- A started socket on which the application has installed its handlers. -/
def Socket.started (socketfd : Int) (now : UInt64) (record : Bool) (handlers : Handlers) : Socket :=
  { Socket.fresh socketfd now record with toHandlers := handlers }

/-- `emailz_socket_stop`. Later reads are ignored. -/
def socketStop (s : Session) : Session × List Event :=
  ({ s with stop := true, socketfd := 0 }, [.stop])

/-- `socket->record` is set: stopping the socket closes the file. -/
def Socket.recording (s : Socket) : Bool := s.record && !s.stop

end Spamass.Emailz
