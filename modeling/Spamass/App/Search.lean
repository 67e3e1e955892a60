import Spamass.App.Mail
import Spamass.SortedStore
import Spamass.Separated

/-!
# The search of an inbox

`emailsForAddress:withBlock:` on the email database, a sorted store of strings: the
scan seeks the key above all mails of an address and walks down, putting the mails
together from their fields.
-/
namespace Spamass.App

open Spamass.Emailz Spamass.SortedStore Spamass.Separated

/-- Bytes in their unsigned order, the order of LevelDB's keys. -/
instance byteOrder : LinearOrder UInt8 where
  le_refl := UInt8.le_refl
  le_trans _ _ _ := UInt8.le_trans
  le_antisymm _ _ := UInt8.le_antisymm
  le_total := UInt8.le_total
  lt_iff_le_not_ge a b := by
    rw [UInt8.lt_iff_toNat_lt, UInt8.le_iff_toNat_le, UInt8.le_iff_toNat_le]
    omega
  toDecidableLE := inferInstance
  toDecidableLT := inferInstance
  toDecidableEq := inferInstance

/-- `mDb`; a missing value was stored as the empty string. -/
abbrev Database := Store Bytes Bytes

def underscore : UInt8 := 95

/-- `componentsSeparatedByString:` for "__". -/
def components (string : Bytes) : List Bytes := parts underscore string

def digitValue (b : UInt8) : Nat := b.toNat - 48

/-- `integerValue`: white space, a sign and digits, clamped to 64 bits. -/
def integerValue (string : Bytes) : Int :=
  let text := string.dropWhile fun b => b == 9 || b == 32
  let signed := text.head? = some 43 ∨ text.head? = some 45
  let digits := (if signed then text.drop 1 else text).takeWhile isDigit
  let number := digits.foldl (fun n b => 10 * n + digitValue b) 0
  if text.head? = some 45 then max (-0x8000000000000000) (-(number : Int))
  else min 0x7FFFFFFFFFFFFFFF number

/-! ### The scan -/

/-- The object for the first field of a mail. -/
def foundEmail (partAddress partSocket partSerial : Bytes) : SMEmail :=
  { SMEmail.init partSocket partSerial none with
    isInHeaders := false
    recipients := [partAddress] }

/-- A field goes into the object; `dataSize` is unsigned. -/
def enterField (email : SMEmail) (partField value : Bytes) : SMEmail :=
  if partField = ascii "sender" then { email with sender := some value }
  else if partField = ascii "size" then
    { email with dataSize := (integerValue value % 0x10000000000000000).toNat }
  else { email with headers := setObject email.headers partField (.one value) }

/-- A block's answer to a mail, by the mails it was given before, the first one first. -/
abbrev Handler := List SMEmail → SMEmail → Bool

section Scan

variable (handler : Handler) (address : Bytes)

/-- The `while` loop: the mails handed over, and the one in hand when the loop is left. -/
def handLoop : List SMEmail → Option SMEmail → List (Bytes × Bytes) →
    List SMEmail × Option SMEmail
  | handed, email, [] => (handed, email)
  | handed, email, (key, value) :: scan =>
    if !hasPrefix key address then (handed, email)
    else
      match components key with
      | [partAddress, partSocket, partSerial, partField] =>
        if partAddress ≠ address then (handed, email)
        else
          let opened := enterField (foundEmail partAddress partSocket partSerial) partField value
          match email with
          | none => handLoop handed (some opened) scan
          | some email =>
            if email.socketId = partSocket ∧ email.serial = partSerial then
              handLoop handed (some (enterField email partField value)) scan
            else if handler handed email then handLoop (handed ++ [email]) (some opened) scan
            -- the loop is left with the refused mail still in hand
            else (handed ++ [email], some email)
      -- "invalid key!"
      | _ => (handed, email)

/-- `emailsForAddress:withBlock:`, as the calls of the block. -/
def emailsForAddressWith (db : Database) : List (Option SMEmail) :=
  match db.seek (sentinel address) with
  | none => [none]
  | some scan =>
    ((handLoop handler address [] none scan).1 ++
      (handLoop handler address [] none scan).2.toList).map some ++ [none]

end Scan

section Plain

variable (handler : SMEmail → Bool) (address : Bytes)

/-- The loop with a block that answers by the mail alone. -/
def searchLoop : Option SMEmail → List (Bytes × Bytes) → List SMEmail × Option SMEmail :=
  handLoop (fun _ => handler) address []

/-- The calls of such a block. -/
def emailsForAddress (db : Database) : List (Option SMEmail) :=
  emailsForAddressWith (fun _ => handler) address db

end Plain

/-! ### Stored mails -/

def wellFormed (shape : List (UInt8 → Bool)) (text : Bytes) : Bool :=
  text.length == shape.length && passes shape text

/-- A mail for one recipient, as `handleEmailWithSocket:` finds it. -/
structure Mail where
  email : SMEmail
  recipient : Bytes
  addressed : email.recipients = [recipient]
  address : recipient ≠ [] ∧ recipient.all (fun b => !emailSplitSet b) = true
  socketId : wellFormed socketIdShape email.socketId = true
  serial : wellFormed serialShape email.serial = true
  counted : email.dataSize < 0x8000000000000000

/-- The socket when the mail ends. -/
def Mail.socket (m : Mail) : SMSocket :=
  { SMSocket.init m.email.socketId with email := some m.email }

def Mail.entries (m : Mail) : List (Bytes × Bytes) :=
  (handleEmail m.socket).2.filterMap Write.entry

/-- The database after the mails. -/
def databaseOf (mails : List Mail) : Database := Store.empty.puts (mails.flatMap Mail.entries)

def SMEmail.id (email : SMEmail) : Bytes × Bytes := (email.socketId, email.serial)

def Mail.id (m : Mail) : Bytes × Bytes := (m.email.socketId, m.email.serial)

/-- The order of the results. -/
def Mail.Above (m m' : Mail) : Prop :=
  m'.email.socketId < m.email.socketId ∨
    m'.email.socketId = m.email.socketId ∧ m'.email.serial < m.email.serial

/-- What was stored: the subject, the sender and the size. -/
def Mail.stored (m : Mail) : Bytes × Bytes × Nat :=
  (subjectText (m.email.headers.lookup (ascii "subject")), m.email.sender.getD [], m.email.dataSize)

/-- The handler is given the mail. -/
def Shows (found : SMEmail) (m : Mail) : Prop :=
  (found.socketId, found.serial) = m.id ∧ found.recipients = [m.recipient] ∧
    found.headers.lookup (ascii "subject") = some (.one m.stored.1) ∧
    found.sender = some m.stored.2.1 ∧ found.dataSize = m.stored.2.2

/-- The handler is called with the mails of an inbox in descending order, and then with nil. -/
def Finds (mails : List Mail) (address : Bytes) (calls : List (Option SMEmail)) : Prop :=
  ∃ inbox found, List.Perm inbox (mails.filter fun m => m.recipient = address) ∧
    inbox.Pairwise Mail.Above ∧ List.Forall₂ Shows found inbox ∧ calls = found.map some ++ [none]

/-- A key that is read as one of the address. -/
def isRecord (address key : Bytes) : Bool :=
  match components key with
  | [partAddress, _, _, _] => partAddress == address
  | _ => false

def Mail.keys (m : Mail) : List Bytes := m.entries.map Prod.fst

/-- The mail of the sentinel. -/
def sentinelId : Bytes × Bytes :=
  (ascii "99999999999999999-999.999.999.999-99999", ascii "999999")

/-- The keys of the mails of an address can be read back, and lie below its sentinel. -/
def Legible (mails : List Mail) (address : Bytes) : Prop :=
  ∀ m ∈ mails, m.recipient = address → plain underscore address = true ∧ m.id ≠ sentinelId

/-- No key of another inbox below the sentinel is in the way: each is below the mails of the
address, and the greatest is not read as one of them. -/
def Unhidden (mails : List Mail) (address : Bytes) : Prop :=
  ∀ other ∈ mails, other.recipient ≠ address → ∀ key ∈ other.keys, key < sentinel address →
    (∀ m ∈ mails, m.recipient = address → ∀ own ∈ m.keys, key < own) ∧
      ((∀ other' ∈ mails, other'.recipient ≠ address → ∀ key' ∈ other'.keys,
        key' < sentinel address → key' ≤ key) → isRecord address key = false)

/-- The search of an address gives its mails: nothing is stored at or above its sentinel, or its
mails are legible and unhidden. -/
def Searchable (mails : List Mail) (address : Bytes) : Prop :=
  (∀ m ∈ mails, ∀ key ∈ m.keys, key < sentinel address) ∨
    (Legible mails address ∧ Unhidden mails address)

end Spamass.App
