import Spamass.Emailz.Socket
import Spamass.Framing

/-!
# emailz_socket_read_line

The line scanner walks the regions of the input buffer byte by byte with two
flags and stops at a line end or at the size of the line buffer. It is proved to
be a framer of the concatenated buffer: the regions do not matter, and the line
it returns does not depend on the bytes behind it.
-/
namespace Spamass.Emailz

open Spamass.Framing

/-- The variables the scanning block shares: what was copied to `line`, and the flags. -/
structure Scan where
  line : Bytes
  foundCr : Bool
  foundLf : Bool
  deriving DecidableEq, Repr

def Scan.start : Scan := ⟨[], false, false⟩

/-- One byte of the inner loop. -/
def Scan.push (scan : Scan) (byte : UInt8) : Scan :=
  if !scan.foundCr && byte == cr then ⟨scan.line ++ [byte], true, scan.foundLf⟩
  else if scan.foundCr && byte == lf then ⟨scan.line ++ [byte], scan.foundCr, true⟩
  else if scan.foundCr && byte != lf then ⟨scan.line ++ [byte], false, scan.foundLf⟩
  else ⟨scan.line ++ [byte], scan.foundCr, scan.foundLf⟩

/-- The two tests that end the scan. -/
def Scan.stops (scan : Scan) : Bool :=
  (scan.foundCr && scan.foundLf) || decide (maxLineSize ≤ scan.line.length)

/-- The inner loop over one region; `false` when the block returned false. -/
def scanRegion : Scan → Bytes → Scan × Bool
  | scan, [] => (scan, true)
  | scan, byte :: rest =>
    if (scan.push byte).stops then (scan.push byte, false) else scanRegion (scan.push byte) rest

/-- `dispatch_data_apply` over the regions of the buffer. -/
def scanRegions : Scan → List Bytes → Scan
  | scan, [] => scan
  | scan, region :: regions =>
    if (scanRegion scan region).2 then scanRegions (scanRegion scan region).1 regions
    else (scanRegion scan region).1

/-- `emailz_socket_read_line`: the line and the buffer behind it. -/
def socketReadLineRegions (regions : List Bytes) : Option (Bytes × Bytes) :=
  let scan := scanRegions Scan.start regions
  if (scan.foundCr && scan.foundLf) || scan.line.length == maxLineSize then
    some (scan.line, regions.flatten.drop scan.line.length)
  else none

/-- `emailz_socket_read_line` on a buffer of one region. -/
def socketReadLine (indata : Bytes) : Option (Bytes × Bytes) := socketReadLineRegions [indata]

@[simp] theorem Scan.push_line (scan : Scan) (byte : UInt8) :
    (scan.push byte).line = scan.line ++ [byte] := by
  unfold Scan.push
  split_ifs <;> rfl

private theorem scanRegion_append (scan : Scan) (s t : Bytes) :
    scanRegion scan (s ++ t) =
      if (scanRegion scan s).2 then scanRegion (scanRegion scan s).1 t else scanRegion scan s := by
  induction s generalizing scan with
  | nil => simp [scanRegion]
  | cons byte s ih =>
    simp only [List.cons_append, scanRegion]
    split
    · simp
    · exact ih _

/-- The division of the buffer into regions does not matter. -/
private theorem scanRegions_flatten (scan : Scan) (regions : List Bytes) :
    scanRegions scan regions = (scanRegion scan regions.flatten).1 := by
  induction regions generalizing scan with
  | nil => rfl
  | cons region regions ih =>
    simp only [scanRegions, List.flatten_cons, scanRegion_append, ih]
    split <;> rfl

/-- The scan copies a prefix of the region, all of it when it runs through. -/
private theorem scanRegion_copies (scan : Scan) (s : Bytes) :
    ∃ copied left, s = copied ++ left ∧ (scanRegion scan s).1.line = scan.line ++ copied ∧
      scanRegion scan copied = scanRegion scan s ∧
      ((scanRegion scan s).2 = false → copied ≠ []) := by
  induction s generalizing scan with
  | nil => exact ⟨[], [], rfl, by simp [scanRegion], rfl, by simp [scanRegion]⟩
  | cons byte s ih =>
    cases stopped : (scan.push byte).stops with
    | true =>
      exact ⟨[byte], s, rfl, by simp [scanRegion, stopped], by simp [scanRegion, stopped], by simp⟩
    | false =>
      obtain ⟨copied, left, joined, line, again, -⟩ := ih (scan.push byte)
      refine ⟨byte :: copied, left, by simp [joined], ?_, ?_, by simp⟩
      · simp [scanRegion, stopped, line]
      · simp [scanRegion, stopped, again]

/-- The scan runs through exactly when no stopping test fired. -/
theorem scanRegion_stops (scan : Scan) (s : Bytes) (running : scan.stops = false) :
    (scanRegion scan s).1.stops = !(scanRegion scan s).2 := by
  induction s generalizing scan with
  | nil => simpa [scanRegion] using running
  | cons byte s ih =>
    simp only [scanRegion]
    split
    next stopped => simpa using stopped
    next running' => exact ih _ (by simpa using running')

/-- A stopped scan never holds more than a full line buffer. -/
theorem scanRegion_bounded (scan : Scan) (s : Bytes) (bounded : scan.line.length < maxLineSize) :
    (scanRegion scan s).1.line.length ≤ maxLineSize := by
  induction s generalizing scan with
  | nil => exact Nat.le_of_lt bounded
  | cons byte s ih =>
    simp only [scanRegion]
    split
    · simp only [Scan.push_line, List.length_append, List.length_singleton]
      omega
    next running =>
      apply ih
      simp only [Scan.stops, Bool.or_eq_true, decide_eq_true_eq, not_or, Nat.not_le] at running
      exact running.2

theorem scanStart_stops : Scan.start.stops = false := by decide

/-- The test made after the scan agrees with the ones made inside it. -/
private theorem socketReadLineRegions_eq (regions : List Bytes) :
    socketReadLineRegions regions =
      if (scanRegion Scan.start regions.flatten).2 then none
      else some ((scanRegion Scan.start regions.flatten).1.line,
        regions.flatten.drop (scanRegion Scan.start regions.flatten).1.line.length) := by
  have stops := scanRegion_stops Scan.start regions.flatten scanStart_stops
  have bounded := scanRegion_bounded Scan.start regions.flatten (by decide)
  simp only [socketReadLineRegions, scanRegions_flatten]
  have tests : ((scanRegion Scan.start regions.flatten).1.line.length == maxLineSize) =
      decide (maxLineSize ≤ (scanRegion Scan.start regions.flatten).1.line.length) := by
    rw [Bool.eq_iff_iff, beq_iff_eq, decide_eq_true_eq]
    omega
  rw [tests, ← Scan.stops, stops]
  cases (scanRegion Scan.start regions.flatten).2 <;> rfl

/-- What `emailz_socket_read_line` returns depends on the bytes of the buffer only. -/
theorem socketReadLineRegions_flatten (regions : List Bytes) :
    socketReadLineRegions regions = socketReadLine regions.flatten := by
  rw [socketReadLine, socketReadLineRegions_eq, socketReadLineRegions_eq, List.flatten_singleton]

theorem socketReadLine_eq (indata : Bytes) :
    socketReadLine indata =
      if (scanRegion Scan.start indata).2 then none
      else some ((scanRegion Scan.start indata).1.line,
        indata.drop (scanRegion Scan.start indata).1.line.length) := by
  rw [socketReadLine, socketReadLineRegions_eq, List.flatten_singleton]

/-- A returned line is what the stopped scan copied. -/
theorem socketReadLine_some {indata line rest : Bytes} :
    socketReadLine indata = some (line, rest) ↔
      (scanRegion Scan.start indata).2 = false ∧ (scanRegion Scan.start indata).1.line = line ∧
        line ++ rest = indata := by
  obtain ⟨copied, left, joined, copies, -, -⟩ := scanRegion_copies Scan.start indata
  rw [socketReadLine_eq, copies, show Scan.start.line = [] from rfl, List.nil_append]
  cases (scanRegion Scan.start indata).2 with
  | true => simp
  | false =>
    subst joined
    simp only [Bool.false_eq_true, if_false, List.drop_left, Option.some.injEq, Prod.mk.injEq,
      true_and]
    constructor
    · rintro ⟨rfl, rfl⟩; exact ⟨rfl, rfl⟩
    · rintro ⟨rfl, same⟩; exact ⟨rfl, (List.append_cancel_left same).symm⟩

theorem socketReadLine_length {indata line rest : Bytes}
    (read : socketReadLine indata = some (line, rest)) : line.length ≤ maxLineSize := by
  obtain ⟨-, rfl, -⟩ := socketReadLine_some.mp read
  exact scanRegion_bounded Scan.start indata (by decide)

/-- A scan that runs through has copied the region. -/
theorem scanRegion_through (scan : Scan) (s : Bytes) (through : (scanRegion scan s).2 = true) :
    (scanRegion scan s).1.line = scan.line ++ s := by
  induction s generalizing scan with
  | nil => simp [scanRegion]
  | cons byte s ih =>
    simp only [scanRegion] at through ⊢
    split at through
    · cases through
    next running =>
      rw [if_neg running, ih _ through]
      simp

/-- Where no line can be read, the buffer is smaller than a line may be. -/
theorem socketReadLine_none {indata : Bytes} (missing : socketReadLine indata = none) :
    indata.length < maxLineSize := by
  rw [socketReadLine_eq] at missing
  split at missing
  next through =>
    have stops := scanRegion_stops Scan.start indata scanStart_stops
    have copied := scanRegion_through Scan.start indata through
    rw [through] at stops
    simp only [Scan.stops, Bool.not_true, Bool.or_eq_false_iff, decide_eq_false_iff_not,
      Nat.not_le] at stops
    rw [copied] at stops
    exact stops.2
  · cases missing

/-- `emailz_socket_read_line` as a framer of the byte stream. -/
def lineFramer : Framer UInt8 where
  cut := socketReadLine
  joins read := (socketReadLine_some.mp read).2.2
  nonempty := by
    intro indata line rest read
    obtain ⟨stopped, rfl, -⟩ := socketReadLine_some.mp read
    obtain ⟨copied, left, -, copies, -, present⟩ := scanRegion_copies Scan.start indata
    rw [copies]
    simpa [Scan.start] using present stopped
  decides := by
    intro indata line rest t read
    obtain ⟨stopped, rfl, joined⟩ := socketReadLine_some.mp read
    obtain ⟨copied, left, -, copies, again, -⟩ := scanRegion_copies Scan.start indata
    have whole : (scanRegion Scan.start indata).1.line = copied := by
      simpa [Scan.start] using copies
    rw [whole, socketReadLine_some, scanRegion_append, again, stopped]
    exact ⟨stopped, whole, rfl⟩

end Spamass.Emailz
