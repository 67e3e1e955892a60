import Spamass.App.RecordName
import Spamass.Web.SearchPage

/-!
# Columns of a row

The page of a search reads the name of a socket back by position: date, address and port.
What the columns denote is what was written, and that is not the connection's own data:
the hour is one too late, and the port is in the order of the network.
-/
namespace Spamass.Web

open Spamass.Emailz Spamass.App Spamass.Calendar Spamass.FixedWidth
open Spamass.Geo (ntohl)

/-- What a row shows of a socket id. -/
structure Columns where
  date : Bytes
  addr : Bytes
  port : Bytes
  deriving DecidableEq, Repr

/-- The columns of a row; none if the row is not built. -/
def columns (socketId : Bytes) : Option Columns :=
  match componentsInSet (· == dash) socketId with
  | [date, addr, port] => (dateText date).map fun day => ⟨day, addr, port⟩
  | _ => none

private theorem columns_of_parts {socketId date addr port : Bytes}
    (parts : componentsInSet (· == dash) socketId = [date, addr, port]) :
    columns socketId = (dateText date).map fun day => ⟨day, addr, port⟩ := by
  rw [columns, parts]

/-- The columns end a row. -/
theorem pageRow_columns {count : Nat} {email : SMEmail} {date addr port row : Bytes}
    (parts : componentsInSet (· == dash) email.socketId = [date, addr, port])
    (built : pageRow count email date addr port = some row) :
    ∃ shown, columns email.socketId = some shown ∧
      ascii "<td><code>" ++ shown.date ++ ascii "</code></td>" ++ ascii "<td><code>" ++ shown.addr ++
        ascii ":" ++ shown.port ++ ascii "</code></td>" ++ ascii "</tr>\r\n" <:+ row := by
  simp only [pageRow, Option.bind_eq_bind, Option.bind_eq_some_iff] at built
  obtain ⟨day, dated, name, -, sender, -, recipient, -, titled⟩ := built
  refine ⟨⟨day, addr, port⟩, by rw [columns_of_parts parts, dated, Option.map_some], ?_⟩
  split at titled
  · rw [← Option.some.inj titled]
    refine ⟨?front, ?_⟩
    rotate_left
    · repeat rw [← List.append_assoc]
  · cases titled

/-! ### What the columns denote -/

/-- A decimal number. -/
def value (text : Bytes) : Nat := readWord 10 (fun b => b.toNat - 48) text

def dateMark (b : UInt8) : Bool := b == dash || b == space || b == colon

/-- Year, month, day, hour, minute and second of a date column. -/
def dateFields (column : Bytes) : List Nat := (componentsInSet dateMark column).map value

/-- The numbers of an address column. -/
def addressFields (column : Bytes) : List Nat := (componentsInSet (· == dot) column).map value

/-- The columns are the connection's own: its time as `gmtime` gives it, the address of the peer
and the port of the peer. -/
structure Own (e : Endpoint) (shown : Columns) : Prop where
  date : dateFields shown.date =
    [1900 + e.date.tmYear, 1 + e.date.tmMon, e.date.tmMday, e.date.tmHour, e.date.tmMin,
      e.date.tmSec]
  addr : addressFields shown.addr = octets (ntohl e.sAddr)
  port : value shown.port = (ntohs e.sinPort).toNat

theorem value_digits {width n : Nat} (fits : n < 10 ^ width) : value (digits width n) = n := by
  refine readWord_fixedWidth 10 digitByte _ ?_ (by decide) fits
  intro d digit
  rw [digitByte_toNat digit, Nat.add_sub_cancel_left]

/-- No digit is one of the marks. -/
private theorem digits_apart {set : UInt8 → Bool} (missing : ∀ b, set b = true → isDigit b = false)
    (width n : Nat) : ∀ b ∈ digits width n, set b = false := by
  intro b member
  by_contra marks
  have not_ := missing b (by simpa using marks)
  rw [isDigit_digits width n b member] at not_
  cases not_

private theorem digit_not_date (b : UInt8) (marks : dateMark b = true) : isDigit b = false := by
  simp only [dateMark, Bool.or_eq_true, beq_iff_eq] at marks
  rcases marks with (rfl | rfl) | rfl <;> rfl

private theorem digit_not_dot (b : UInt8) (marks : (b == dot) = true) : isDigit b = false := by
  rw [beq_iff_eq.mp marks]
  rfl

/-- The words of a name, between its dashes. -/
private theorem name_parts (e : Endpoint) : componentsInSet (· == dash) e.name =
    [digits 4 (1900 + e.date.tmYear) ++ (digits 2 (1 + e.date.tmMon) ++ (digits 2 e.date.tmMday ++
        (digits 2 (1 + e.date.tmHour) ++ (digits 2 e.date.tmMin ++ (digits 2 e.date.tmSec ++
          digits 3 (e.connectTime.toNat % 1000)))))),
      digits 3 ((0xFF : UInt32) &&& (ntohl e.sAddr >>> 24)).toNat ++
        dot :: (digits 3 ((0xFF : UInt32) &&& (ntohl e.sAddr >>> 16)).toNat ++
        dot :: (digits 3 ((0xFF : UInt32) &&& (ntohl e.sAddr >>> 8)).toNat ++
        dot :: digits 3 ((0xFF : UInt32) &&& ntohl e.sAddr).toNat)),
      digits 5 e.sinPort.toNat] := by
  have apart : ∀ width n, ∀ b ∈ digits width n, b ≠ dash := by
    intro width n b member same
    have digit := isDigit_digits width n b member
    rw [same] at digit
    cases digit
  have dotted : dot ≠ dash := by decide
  -- the words of the layout, gathered between the two dashes
  have whole : e.name =
      (digits 4 (1900 + e.date.tmYear) ++ (digits 2 (1 + e.date.tmMon) ++ (digits 2 e.date.tmMday ++
        (digits 2 (1 + e.date.tmHour) ++ (digits 2 e.date.tmMin ++ (digits 2 e.date.tmSec ++
          digits 3 (e.connectTime.toNat % 1000))))))) ++
      dash :: ((digits 3 ((0xFF : UInt32) &&& (ntohl e.sAddr >>> 24)).toNat ++
        dot :: (digits 3 ((0xFF : UInt32) &&& (ntohl e.sAddr >>> 16)).toNat ++
        dot :: (digits 3 ((0xFF : UInt32) &&& (ntohl e.sAddr >>> 8)).toNat ++
        dot :: digits 3 ((0xFF : UInt32) &&& ntohl e.sAddr).toNat))) ++
      dash :: digits 5 e.sinPort.toNat) := by
    simp only [Endpoint.name, Endpoint.numbers, octets_eq, layout, fixedWords, digits, dash, dot,
      List.cons_append, List.nil_append, List.append_nil, List.append_assoc]
  rw [whole]
  apply components_dashes
  · simp only [List.forall_mem_append]
    exact ⟨apart _ _, apart _ _, apart _ _, apart _ _, apart _ _, apart _ _, apart _ _⟩
  · simp only [List.forall_mem_append, List.forall_mem_cons]
    exact ⟨apart _ _, dotted, apart _ _, dotted, apart _ _, dotted, apart _ _⟩
  · exact apart _ _

/-- The column shows the fields of the date one by one. -/
private theorem dateText_digits (year month mday hour minute second millis : Nat) :
    dateText (digits 4 year ++ (digits 2 month ++ (digits 2 mday ++ (digits 2 hour ++
      (digits 2 minute ++ (digits 2 second ++ digits 3 millis)))))) =
    some (digits 4 year ++ dash :: (digits 2 month ++ dash :: (digits 2 mday ++ space ::
      (digits 2 hour ++ colon :: (digits 2 minute ++ colon :: digits 2 second))))) := by
  have all : ∀ b ∈ digits 4 year ++ (digits 2 month ++ (digits 2 mday ++ (digits 2 hour ++
      (digits 2 minute ++ (digits 2 second ++ digits 3 millis))))), isDigit b = true := by
    simp only [List.forall_mem_append]
    exact ⟨isDigit_digits _ _, isDigit_digits _ _, isDigit_digits _ _, isDigit_digits _ _,
      isDigit_digits _ _, isDigit_digits _ _, isDigit_digits _ _⟩
  have marks : ascii "-" = [dash] ∧ ascii " " = [space] ∧ ascii ":" = [colon] := by decide
  obtain ⟨hyphen, blank, colon_⟩ := marks
  rw [dateText, utf16Length_digits _ all]
  simp [List.drop_append, digits_length, List.drop_of_length_le, hyphen, blank,
    colon_]

/-- The columns denote what was written: an hour more than it was, and the port as it came from
the network. -/
private theorem columns_name (e : Endpoint) (soon : e.year < 10000) :
    ∃ shown, columns e.name = some shown ∧
      dateFields shown.date =
        [1900 + e.date.tmYear, 1 + e.date.tmMon, e.date.tmMday, 1 + e.date.tmHour, e.date.tmMin,
          e.date.tmSec] ∧
      addressFields shown.addr = octets (ntohl e.sAddr) ∧ value shown.port = e.sinPort.toNat := by
  have fits := numbers_fitting e soon
  simp only [Fitting, Endpoint.numbers, octets_eq, layout, List.cons_append, List.nil_append,
    List.forall₂_cons, List.forall₂_nil_left_iff, and_true] at fits
  obtain ⟨year, month, mday, hour, minute, second, -, first, second_, third, fourth, port⟩ := fits
  have date := digits_apart digit_not_date
  have addr := digits_apart digit_not_dot
  have found := columns_of_parts (name_parts e)
  rw [dateText_digits, Option.map_some] at found
  -- each column is split at its own marks
  refine ⟨_, found, ?_, ?_, ?_⟩
  · rw [dateFields, components_cons dash _ (date _ _) rfl, components_cons dash _ (date _ _) rfl,
      components_cons space _ (date _ _) rfl, components_cons colon _ (date _ _) rfl,
      components_cons colon _ (date _ _) rfl, components_one (date _ _)]
    simp only [List.map_cons, List.map_nil, value_digits year, value_digits month,
      value_digits mday, value_digits hour, value_digits minute, value_digits second]
  · rw [addressFields, components_cons dot _ (addr _ _) rfl, components_cons dot _ (addr _ _) rfl,
      components_cons dot _ (addr _ _) rfl, components_one (addr _ _), octets_eq]
    simp only [List.map_cons, List.map_nil, value_digits first, value_digits second_,
      value_digits third, value_digits fourth]
  · exact value_digits port

/-- The port alone is right where its two bytes are the same. -/
theorem columns_port (e : Endpoint) (soon : e.year < 10000) :
    ∃ shown, columns e.name = some shown ∧
      (value shown.port = (ntohs e.sinPort).toNat ↔ ntohs e.sinPort = e.sinPort) := by
  obtain ⟨shown, found, -, -, port⟩ := columns_name e soon
  refine ⟨shown, found, ?_⟩
  rw [port, ← UInt16.toNat_inj]
  exact eq_comm

/-- What a row shows of the name of a connection is never the connection's own data. -/
theorem recordName_not_own (e : Endpoint) (soon : e.year < 10000) :
    ∃ name shown, e.recordName = some name ∧ columns name = some shown ∧ ¬ Own e shown := by
  obtain ⟨shown, found, date, -, -⟩ := columns_name e soon
  refine ⟨e.name, shown, recordName_eq e soon, found, fun own => ?_⟩
  have hours := date.symm.trans own.date
  simp only [List.cons.injEq] at hours
  omega

/-- At midnight. -/
theorem recordName_not_own_midnight :
    ∃ name shown, Endpoint.recordName ⟨0, 0x0100007F, 0x1900⟩ = some name ∧
      columns name = some shown ∧ ¬ Own ⟨0, 0x0100007F, 0x1900⟩ shown :=
  recordName_not_own ⟨0, 0x0100007F, 0x1900⟩ (by decide)

/-- A connection at midnight is shown at one o'clock, and its port 25 as 6400. -/
theorem midnight_at_one :
    ∃ shown, (Endpoint.recordName ⟨0, 0x0100007F, 0x1900⟩).bind columns = some shown ∧
      shown.date = ascii "1970-01-01 01:00:00" ∧ shown.port = ascii "06400" ∧
      ¬ Own ⟨0, 0x0100007F, 0x1900⟩ shown := by
  refine ⟨⟨ascii "1970-01-01 01:00:00", ascii "127.000.000.001", ascii "06400"⟩,
    by decide +kernel, rfl, rfl, ?_⟩
  intro own
  have port := own.port
  revert port
  decide +kernel

end Spamass.Web
