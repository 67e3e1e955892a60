import Spamass.Emailz.Socket

/-! `emailz_socket_read_command`, the keyword comparison, and the AUTH argument. -/
namespace Spamass.Emailz

def isLetter (c : UInt8) : Bool := (65 ≤ c && c ≤ 90) || (97 ≤ c && c ≤ 122)

def toupper (c : UInt8) : UInt8 := if 97 ≤ c && c ≤ 122 then c - 32 else c

/-- `cmnd` and `lineoff` after `emailz_socket_read_command`; `cmndlen` is the length of `cmnd`. -/
structure ParsedCommand where
  cmnd : Bytes
  lineoff : Nat
  deriving DecidableEq, Repr

/-- The command word of a line, and the offset handed on as the start of the argument.
The offset counts the word and the separators, not the leading spaces. -/
def socketReadCommand (line : Bytes) : ParsedCommand :=
  let unspaced := line.dropWhile (· == space)
  let word := (unspaced.takeWhile isLetter).take (maxCmndSize - 1)
  let arg := (unspaced.drop word.length).takeWhile fun c => c == colon || c == space
  ⟨word.map toupper, word.length + arg.length⟩

def startsWith (text keyword : Bytes) : Bool := text.take keyword.length == keyword

/-- The chain of `strncmp` calls: only the keyword's own length is compared. -/
def commandOf (cmnd : Bytes) : Command :=
  if startsWith cmnd (ascii "HELO") then .helo
  else if startsWith cmnd (ascii "EHLO") then .ehlo
  else if startsWith cmnd (ascii "MAIL") then .mail
  else if startsWith cmnd (ascii "RCPT") then .rcpt
  else if startsWith cmnd (ascii "DATA") then .data
  else if startsWith cmnd (ascii "QUIT") then .quit
  else if startsWith cmnd (ascii "RSET") then .rset
  else if startsWith cmnd (ascii "NOOP") then .noop
  else if startsWith cmnd (ascii "HELP") then .help
  else if startsWith cmnd (ascii "VRFY") then .vrfy
  else if startsWith cmnd (ascii "AUTH") then .auth
  else if startsWith cmnd (ascii "STARTTLS") then .starttls
  else .none

/-- The C string at an address: the bytes up to the first NUL. -/
def cString (memory : Bytes) : Bytes := memory.takeWhile (· != 0)

/-- The memory from `line` on. The terminator of a line that fills the buffer falls
on `cmnd[0]`, where the command word is written next. -/
def lineMemory (line cmnd : Bytes) : Bytes :=
  if line.length < maxLineSize then line ++ [0] else line ++ cmnd ++ [0]

/-- The argument copied for the smtp handler. -/
def argument (line : Bytes) : Bytes :=
  cString ((lineMemory line (socketReadCommand line).cmnd).drop (socketReadCommand line).lineoff)

/-- The command a line is dispatched as; `none` when no command word can be parsed. -/
def lineCommand (line : Bytes) : Option Command :=
  if (socketReadCommand line).cmnd.length = 0 then none
  else some (commandOf (socketReadCommand line).cmnd)

example : lineCommand (ascii "  mail from:<a@b.c>\r\n") = some .mail := by decide
example : argument (ascii "RCPT TO:<a@b.c>\r\n") = ascii "TO:<a@b.c>\r\n" := by decide
example : lineCommand (ascii "1\r\n") = none := by decide

/-- `base64DecodeLookup`; `none` is the `xx` of the table. -/
def base64DecodeLookup (c : UInt8) : Option UInt8 :=
  if c == 43 then some 62
  else if c == 47 then some 63
  else if 48 ≤ c && c ≤ 57 then some (c + 4)
  else if 65 ≤ c && c ≤ 90 then some (c - 65)
  else if 97 ≤ c && c ≤ 122 then some (c - 71)
  else none

/-- The inner loop of `NewBase64Decode`: up to four decoded characters, and the input behind them.
A `char` from 128 on is a negative index; `stray` is the byte found in front of the table. -/
def base64Accumulate (stray : UInt8 → UInt8) : List UInt8 → Bytes → List UInt8 × Bytes
  | accumulated, [] => (accumulated, [])
  | accumulated, c :: rest =>
    let decode := if c < 128 then base64DecodeLookup c
      else if stray c == 65 then none else some (stray c)
    match decode with
    | none => base64Accumulate stray accumulated rest
    | some value =>
      if accumulated.length + 1 = 4 then (accumulated ++ [value], rest)
      else base64Accumulate stray (accumulated ++ [value]) rest

/-- The bytes one group of accumulated characters writes, from `outputBuffer[j]` on. -/
def base64Group : List UInt8 → Bytes
  | [a, b] => [(a <<< 2) ||| (b >>> 4)]
  | [a, b, c] => [(a <<< 2) ||| (b >>> 4), (b <<< 4) ||| (c >>> 2)]
  | [a, b, c, d] => [(a <<< 2) ||| (b >>> 4), (b <<< 4) ||| (c >>> 2), (c <<< 6) ||| d]
  | _ => []

/-- The outer loop: the writes as pairs of index and byte, and the final `j`, a `size_t`. -/
def base64Loop (stray : UInt8 → UInt8) : Nat → Bytes → UInt64 → List (UInt64 × UInt8) × UInt64
  | 0, _, j => ([], j)
  | _, [], j => ([], j)
  | fuel + 1, input, j =>
    let group := (base64Accumulate stray [] input).1
    let writes := (base64Group group).zipIdx.map fun (byte, k) => (j + UInt64.ofNat k, byte)
    let later := base64Loop stray fuel (base64Accumulate stray [] input).2
      (j + (UInt64.ofNat group.length - 1))
    (writes ++ later.1, later.2)

/-- `NewBase64Decode`: the writes to the output buffer and the output length. -/
def newBase64Decode (stray : UInt8 → UInt8) (input : Bytes) : List (UInt64 × UInt8) × UInt64 :=
  base64Loop stray input.length input 0

/-- `decodeBuf` after the writes that fall inside it. -/
def decodeBuf (writes : List (UInt64 × UInt8)) : Bytes :=
  writes.foldl (fun buf write => buf.set write.1.toNat write.2) (List.replicate 150 0)

/-- The credentials of an `AUTH PLAIN` line, when the decoder reports three bytes or more. -/
def authPlain (stray : UInt8 → UInt8) (line : Bytes) : Option (Bytes × Bytes) :=
  if startsWith line (ascii "AUTH PLAIN ") && decide (13 < line.length) && decide (line.length < 150)
  then
    let decoded := newBase64Decode stray ((line.drop 11).take (line.length - 13))
    if 3 ≤ decoded.2 then
      let user := cString ((decodeBuf decoded.1).drop 1)
      some (user, cString ((decodeBuf decoded.1).drop (1 + user.length + 1)))
    else none
  else none

example : authPlain (fun _ => 65) (ascii "AUTH PLAIN AGFiAGNk\r\n") =
    some (ascii "ab", ascii "cd") := by decide

end Spamass.Emailz
