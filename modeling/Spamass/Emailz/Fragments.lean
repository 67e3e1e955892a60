import Mathlib.Data.List.Induction
import Spamass.Emailz.ReadLine

/-!
# Fragments

What `emailz_socket_read_line` returns, said of the bytes alone: it goes up to the
first LF that an odd number of CRs stand in front of, and holds at most a full line
buffer. A CR pairs with the CR behind it, so CR CR LF is no line end.
-/
namespace Spamass.Emailz

open Spamass.Framing

def trailingCrs (bytes : Bytes) : Nat := (bytes.reverse.takeWhile (· == cr)).length

/-- The bytes end in a LF behind an odd number of CRs. -/
def LineEnd (bytes : Bytes) : Prop :=
  ∃ front, bytes = front ++ [lf] ∧ trailingCrs front % 2 = 1

/-- A line of the stream, as the line buffer receives it. -/
structure Fragment (stream line : Bytes) : Prop where
  inside : line <+: stream
  bounded : line.length ≤ maxLineSize
  ends : LineEnd line ∨ line.length = maxLineSize
  first : ∀ front, front <+: line → LineEnd front → front = line

/-- The positions at which the stream is cut. -/
inductive FragmentStart (stream : Bytes) : Nat → Prop
  | first : FragmentStart stream 0
  | next {k : Nat} {line : Bytes} (start : FragmentStart stream k)
      (fragment : Fragment (stream.drop k) line) : FragmentStart stream (k + line.length)

theorem trailingCrs_push (bytes : Bytes) (byte : UInt8) :
    trailingCrs (bytes ++ [byte]) = if byte == cr then trailingCrs bytes + 1 else 0 := by
  simp only [trailingCrs, List.reverse_append, List.reverse_singleton, List.singleton_append,
    List.takeWhile_cons]
  split <;> simp

theorem lineEnd_push (bytes : Bytes) (byte : UInt8) :
    LineEnd (bytes ++ [byte]) ↔ byte = lf ∧ trailingCrs bytes % 2 = 1 := by
  constructor
  · rintro ⟨front, same, odd⟩
    obtain ⟨rfl, last⟩ := List.append_inj' same rfl
    exact ⟨by simpa using last, odd⟩
  · rintro ⟨rfl, odd⟩
    exact ⟨bytes, rfl, odd⟩

private theorem lineEnd_nil : ¬LineEnd [] := by
  rintro ⟨front, same, -⟩
  simp at same

/-- A fragment is determined by the stream. -/
theorem Fragment.unique {stream a b : Bytes} (left : Fragment stream a)
    (right : Fragment stream b) : a = b := by
  have shorter : ∀ {a b : Bytes}, Fragment stream a → Fragment stream b →
      a.length ≤ b.length → a = b := by
    intro a b left right le
    have inside : a <+: b := List.prefix_of_prefix_length_le left.inside right.inside le
    rcases left.ends with ended | full
    · exact right.first a inside ended
    · apply inside.eq_of_length_le
      rw [full]
      exact right.bounded
  rcases Nat.le_total a.length b.length with le | le
  · exact shorter left right le
  · exact (shorter right left le).symm

/-! ### The scanner -/

/-- The scanner's variables after the bytes of an unfinished line. -/
def Scan.of (bytes : Bytes) : Scan := ⟨bytes, decide (trailingCrs bytes % 2 = 1), false⟩

private theorem scan_push_ended (bytes : Bytes) (byte : UInt8) (ended : LineEnd (bytes ++ [byte])) :
    ((Scan.of bytes).push byte).foundCr = true ∧ ((Scan.of bytes).push byte).foundLf = true := by
  obtain ⟨rfl, odd⟩ := (lineEnd_push bytes byte).mp ended
  simp [Scan.of, Scan.push, odd]

private theorem scan_push (bytes : Bytes) (byte : UInt8) (running : ¬LineEnd (bytes ++ [byte])) :
    (Scan.of bytes).push byte = Scan.of (bytes ++ [byte]) := by
  rw [lineEnd_push, not_and] at running
  simp only [Scan.of, Scan.push, trailingCrs_push]
  by_cases odd : trailingCrs bytes % 2 = 1
  · have other : byte ≠ lf := fun same => running same odd
    -- the pair is complete: a second CR ends it as any other byte does
    by_cases second : byte = cr
    · have even : (trailingCrs bytes + 1) % 2 ≠ 1 := by omega
      have apart : (cr == lf) = false := by decide
      simp [odd, second, even, apart, bne]
    · simp [odd, other, second]
  · by_cases first : byte = cr
    · have even : (trailingCrs bytes + 1) % 2 = 1 := by omega
      simp [odd, first, even]
    · simp [odd, first]

private theorem scan_stops (bytes : Bytes) (byte : UInt8) :
    ((Scan.of bytes).push byte).stops = true ↔
      LineEnd (bytes ++ [byte]) ∨ maxLineSize ≤ (bytes ++ [byte]).length := by
  by_cases ended : LineEnd (bytes ++ [byte])
  · obtain ⟨cr_, lf_⟩ := scan_push_ended bytes byte ended
    simp [Scan.stops, cr_, lf_, ended]
  · rw [scan_push bytes byte ended]
    simp [Scan.stops, Scan.of, ended]

/-- A scan that goes on from the unfinished line `bytes` stops at the end of its first
fragment, or meets none. -/
theorem scanRegion_fragment (bytes s : Bytes) (short : bytes.length < maxLineSize) :
    if (scanRegion (Scan.of bytes) s).2 then
      (∀ front, front <+: s → front ≠ [] → ¬LineEnd (bytes ++ front)) ∧
        (bytes ++ s).length < maxLineSize
    else
      ∃ copied rest, s = copied ++ rest ∧
        (scanRegion (Scan.of bytes) s).1.line = bytes ++ copied ∧
        (bytes ++ copied).length ≤ maxLineSize ∧
        (LineEnd (bytes ++ copied) ∨ (bytes ++ copied).length = maxLineSize) ∧
        ∀ front, front <+: copied → front ≠ [] → LineEnd (bytes ++ front) → front = copied := by
  induction s generalizing bytes with
  | nil =>
    simp only [scanRegion, if_true, List.append_nil, short, and_true, List.prefix_nil]
    exact fun front empty filled => absurd empty filled
  | cons byte s ih =>
    -- this byte ends the fragment, or the scan goes on with one byte more behind it
    by_cases stops : ((Scan.of bytes).push byte).stops = true
    · simp only [scanRegion, stops, if_true, Bool.false_eq_true, if_false]
      have room : (bytes ++ [byte]).length ≤ maxLineSize := by
        rw [List.length_append, List.length_singleton]
        omega
      refine ⟨[byte], s, rfl, by simp [Scan.of], room, ?_, ?_⟩
      · rcases (scan_stops bytes byte).mp stops with ended | full
        · exact Or.inl ended
        · exact Or.inr (Nat.le_antisymm room full)
      · intro front inside filled _
        cases front with
        | nil => exact absurd rfl filled
        | cons first front =>
          obtain ⟨rfl, rest⟩ := List.cons_prefix_cons.mp inside
          rw [List.prefix_nil.mp rest]
    · have running := stops
      rw [scan_stops, not_or, Nat.not_le] at running
      -- the state of the scan is the one after the longer front
      have later := ih (bytes ++ [byte]) running.2
      have step : scanRegion (Scan.of bytes) (byte :: s) =
          scanRegion (Scan.of (bytes ++ [byte])) s := by
        rw [← scan_push bytes byte running.1]
        simp [scanRegion, stops]
      rw [step]
      split
      next through =>
        rw [if_pos through] at later
        refine ⟨?_, by simpa using later.2⟩
        intro front inside filled
        cases front with
        | nil => exact absurd rfl filled
        | cons first front =>
          obtain ⟨rfl, rest⟩ := List.cons_prefix_cons.mp inside
          by_cases empty : front = []
          · subst empty
            exact running.1
          · simpa using later.1 front rest empty
      next stopped =>
        rw [if_neg stopped] at later
        obtain ⟨copied, rest, rfl, line, bounded, ends, first⟩ := later
        refine ⟨byte :: copied, rest, rfl, ?_, ?_, ?_, ?_⟩
        · simpa using line
        · simpa using bounded
        · simpa using ends
        · intro front inside filled ended
          cases front with
          | nil => exact absurd rfl filled
          | cons head front =>
            obtain ⟨rfl, tail⟩ := List.cons_prefix_cons.mp inside
            by_cases empty : front = []
            · subst empty
              exact absurd ended running.1
            · rw [first front tail empty (by simpa using ended)]

/-- `emailz_socket_read_line` returns the first fragment of the buffer. -/
theorem socketReadLine_fragment {indata line rest : Bytes} :
    socketReadLine indata = some (line, rest) ↔ Fragment indata line ∧ line ++ rest = indata := by
  have scans := scanRegion_fragment [] indata (by decide)
  have start : Scan.of [] = Scan.start := by decide
  rw [start] at scans
  simp only [List.nil_append] at scans
  rw [socketReadLine_some]
  cases through : (scanRegion Scan.start indata).2 with
  -- the scan ran through: neither a line end nor a full line is in the buffer
  | true =>
    rw [through, if_pos rfl] at scans
    simp only [Bool.true_eq_false, false_and, false_iff, not_and]
    intro fragment _
    rcases fragment.ends with ended | full
    · refine scans.1 line fragment.inside ?_ ended
      rintro rfl
      exact lineEnd_nil ended
    · have le := fragment.inside.length_le
      have below := scans.2
      omega
  -- the scan stopped, and what it copied is the one fragment of the buffer
  | false =>
    rw [through, if_neg Bool.false_ne_true] at scans
    obtain ⟨copied, left, rfl, copies, bounded, ends, first⟩ := scans
    have fragment : Fragment (copied ++ left) copied := by
      refine ⟨List.prefix_append _ _, bounded, ends, ?_⟩
      intro front inside ended
      apply first front inside _ ended
      rintro rfl
      exact lineEnd_nil ended
    rw [copies]
    simp only [true_and]
    constructor
    · rintro ⟨rfl, joined⟩
      exact ⟨fragment, joined⟩
    · rintro ⟨other, joined⟩
      exact ⟨fragment.unique other, joined⟩

private theorem trailingCrs_free (bytes : Bytes) (free : cr ∉ bytes) : trailingCrs bytes = 0 := by
  rw [← List.mem_reverse] at free
  unfold trailingCrs
  cases last : bytes.reverse with
  | nil => rfl
  | cons b rest =>
    have other : b ≠ cr := by
      rintro rfl
      exact free (last ▸ List.mem_cons_self ..)
    simp [other]

/-- A line with CRLF at its end and neither of them before it is cut as it is. -/
theorem socketReadLine_line (text : Bytes) (crs : cr ∉ text) (lfs : lf ∉ text)
    (short : (text ++ [cr, lf]).length ≤ maxLineSize) :
    socketReadLine (text ++ [cr, lf]) = some (text ++ [cr, lf], []) := by
  have split_ : text ++ [cr, lf] = (text ++ [cr]) ++ [lf] := by simp
  refine socketReadLine_fragment.mpr ⟨⟨List.prefix_rfl, short, Or.inl ?_, ?_⟩, List.append_nil _⟩
  · rw [split_, lineEnd_push, trailingCrs_push, trailingCrs_free text crs]
    exact ⟨rfl, rfl⟩
  · intro front inside ended
    rw [split_, List.prefix_concat_iff] at inside
    rcases inside with rfl | inside
    · rw [split_]
    · -- the LF of an earlier end would be in the text
      obtain ⟨body, rfl, -⟩ := ended
      have member := inside.subset (List.mem_append_right body (List.mem_singleton_self lf))
      rcases List.mem_append.mp member with text' | last
      · exact absurd text' lfs
      · exact absurd (List.mem_singleton.mp last) (by decide)

/-- The stream is cut where its pieces meet. -/
theorem fragmentStart_iff (stream : Bytes) (k : Nat) :
    FragmentStart stream k ↔
      ∃ taken left, (lineFramer.pieces stream).1 = taken ++ left ∧ k = taken.flatten.length := by
  constructor
  · intro start
    induction start with
    | first => exact ⟨[], _, rfl, rfl⟩
    | @next k line start fragment ih =>
      obtain ⟨taken, left, cuts, rfl⟩ := ih
      have tail := lineFramer.pieces_tail stream taken left cuts
      have joined := lineFramer.pieces_flatten stream
      rw [cuts, List.flatten_append, List.append_assoc] at joined
      rw [← joined, List.drop_left] at fragment
      obtain ⟨rest, same⟩ := fragment.inside
      -- the next fragment is the next piece the framer cuts off
      have cut : lineFramer.cut (left.flatten ++ (lineFramer.pieces stream).2) =
          some (line, rest) :=
        socketReadLine_fragment.mpr ⟨fragment, same⟩
      rw [lineFramer.pieces_some cut, Prod.mk.injEq] at tail
      exact ⟨taken ++ [line], _, by rw [cuts, ← tail.1, List.append_assoc]; rfl, by simp⟩
  · rintro ⟨taken, left, cuts, rfl⟩
    induction taken using List.reverseRecOn generalizing left with
    | nil => exact .first
    | append_singleton taken line ih =>
      rw [List.append_assoc] at cuts
      -- from the last piece taken back to the beginning of the stream
      have start := ih _ cuts
      have tail := lineFramer.pieces_tail stream taken _ cuts
      have joined := lineFramer.pieces_flatten stream
      have cut := lineFramer.pieces_cut _ line left (congrArg Prod.fst tail)
      have fragment := (socketReadLine_fragment.mp cut).1
      rw [cuts, List.flatten_append, List.append_assoc] at joined
      have here : Fragment (stream.drop (taken.flatten.length)) line := by
        rw [← joined, List.drop_left]
        exact fragment
      simpa using start.next here

end Spamass.Emailz
