import Mathlib.Data.List.Flatten
import Spamass.App.HeaderRun
import Spamass.Stripped
import Spamass.Web.Encoding

/-!
# The subject of a folded header

A header field may be folded: its value goes on in lines that begin with a space or a
tab. The application trims every line by itself, collects the pieces where it also
collects repeated headers, and joins them without anything in between.
-/
namespace Spamass.Web

open Spamass.Emailz Spamass.App Spamass.Runs Spamass.Stripped

/-! ### Header blocks -/

/-- A header field of UTF-8 lines: the text in front of the colon, the text behind it in the same
line, and the texts of the lines that continue it. -/
structure Field where
  name : Bytes
  value : Bytes
  folds : List Bytes
  named : colon ∉ name
  flush : startsIn whitespace name = false
  folded : ∀ fold ∈ folds, fold.head? = some space ∨ fold.head? = some 0x09
  valid : utf8Valid (name ++ colon :: (value ++ folds.flatten)) = true

def Field.pieces (f : Field) : List Bytes := f.value :: f.folds

/-- The value of the field. -/
def Field.text (f : Field) : Bytes := f.value ++ f.folds.flatten

/-- The field in one line. -/
def Field.unfolded (f : Field) : Field where
  name := f.name
  value := f.text
  folds := []
  named := f.named
  flush := f.flush
  folded := List.forall_mem_nil _
  valid := (congrArg (fun text => utf8Valid (f.name ++ colon :: text))
    (List.append_nil f.text)).trans f.valid

def Field.lines (f : Field) : List Bytes :=
  (f.name ++ colon :: (f.value ++ [cr, lf])) :: f.folds.map (· ++ [cr, lf])

/-- The key the header gets, and what is collected for it. -/
def Field.key (lower : Bytes → Bytes) (f : Field) : Bytes := lower (trimming whitespace f.name)

def Field.values (f : Field) : List Bytes := f.pieces.map (trimming whitespaceAndNewline)

/-- Characters that trimming takes off. -/
def Blanks (text : Bytes) : Prop := Blank whitespaceAndNewline.contains (characters text)

/-- No fold stands between two characters of the value that are not white space. -/
def Field.Outer (f : Field) : Prop :=
  ∀ left right, f.pieces = left ++ right → Blanks left.flatten ∨ Blanks right.flatten

/-- The subject that is stored with a mail. -/
def StoresSubject (socket : SMSocket) (email : SMEmail) (text : Bytes) : Prop :=
  ∃ name, email.dbprefix = some name ∧
    ∀ value, .put (name ++ ascii "subject") value ∈
      (handleEmail { socket with email := some email }).2 ↔ value = text

/-- A mail with a folded subject and the mail with the same subject in one line are stored with the
same subject, the trimmed value, and have the same other headers. -/
def FoldedAlike (lower : Bytes → Bytes) (socket : SMSocket) (email : SMEmail)
    (before : List Field) (subject : Field) (after : List Field) (rest : List Bytes) : Prop :=
  ∃ folded plain,
    handleDatas lower { socket with email := some email }
        ((before ++ subject :: after).flatMap Field.lines ++ rest) =
      some { socket with email := some folded } ∧
    handleDatas lower { socket with email := some email }
        ((before ++ subject.unfolded :: after).flatMap Field.lines ++ rest) =
      some { socket with email := some plain } ∧
    StoresSubject socket folded (trimming whitespaceAndNewline subject.text) ∧
    StoresSubject socket plain (trimming whitespaceAndNewline subject.text) ∧
    ∀ name, name ≠ ascii "subject" → folded.headers.lookup name = plain.headers.lookup name

/-! ### Characters -/

private theorem characters_cons (b : UInt8) (rest : Bytes) :
    ∃ c cs, characters (b :: rest) = (b :: c) :: cs := by
  rw [characters.eq_def]
  dsimp only
  split
  · split
    · exact ⟨_, _, rfl⟩
    · exact ⟨[], _, rfl⟩
  · exact ⟨[], _, rfl⟩

private theorem characters_nonempty (text : Bytes) : ∀ c ∈ characters text, c ≠ [] := by
  induction text with
  | nil => exact List.forall_mem_nil _
  | cons b rest ih =>
    rw [characters.eq_def]
    dsimp only
    split
    next next_ rest' c cs here =>
      rw [here, List.forall_mem_cons] at ih
      split
      · exact List.forall_mem_cons.mpr ⟨List.cons_ne_nil _ _, ih.2⟩
      · exact List.forall_mem_cons.mpr ⟨List.cons_ne_nil _ _, List.forall_mem_cons.mpr ih⟩
    next => exact List.forall_mem_cons.mpr ⟨List.cons_ne_nil _ _, ih⟩

private theorem characters_step {b next : UInt8} {rest c : Bytes} {cs : List Bytes}
    (here : characters (next :: rest) = c :: cs) :
    characters (b :: next :: rest) =
      if isContinuation next then (b :: c) :: cs else [b] :: c :: cs := by
  rw [characters.eq_def]
  simp [here]

/-- No character reaches beyond the place where a string begins. -/
private theorem characters_append (front back : Bytes)
    (begins : ∀ b, back.head? = some b → isContinuation b = false) :
    characters (front ++ back) = characters front ++ characters back := by
  induction front with
  | nil => rfl
  | cons b front ih =>
    cases front with
    | nil =>
      cases back with
      | nil => rfl
      | cons next back =>
        obtain ⟨c, cs, first⟩ := characters_cons next back
        rw [List.singleton_append, characters_step first, begins next rfl, first]
        rfl
    | cons next front =>
      obtain ⟨c, cs, first⟩ := characters_cons next front
      have joined : characters (next :: (front ++ back)) =
          (next :: c) :: (cs ++ characters back) := by
        rw [← List.cons_append, ih, first]
        rfl
      rw [List.cons_append, List.cons_append, characters_step joined, characters_step first]
      split <;> rfl

private theorem lead_begins : ∀ n : Fin 256, isContinuation (UInt8.ofFin n) = true →
    utf8Lead (UInt8.ofFin n) = none := by
  decide +kernel

/-- A string does not begin within a character. -/
private theorem valid_begins {text : Bytes} (valid : utf8Valid text = true) :
    ∀ b, text.head? = some b → isContinuation b = false := by
  intro b first
  cases text with
  | nil => cases first
  | cons b' rest =>
    obtain rfl := Option.some.inj first
    rw [utf8Valid, utf8From_lead] at valid
    cases continues : isContinuation b' with
    | false => rfl
    | true =>
      have missing : utf8Lead b' = none := lead_begins b'.toFin continues
      rw [missing] at valid
      cases valid

private theorem trimming_strip (set : List Bytes) (text : Bytes) :
    trimming set text = (strip set.contains (characters text)).flatten := rfl

/-- The line end goes with what is trimmed. -/
private theorem trimming_line (text : Bytes) :
    trimming whitespaceAndNewline (text ++ [cr, lf]) = trimming whitespaceAndNewline text := by
  have blank : ∀ c ∈ characters [cr, lf], whitespaceAndNewline.contains c = true := by decide
  have begins : ∀ b, [cr, lf].head? = some b → isContinuation b = false := by
    rintro b ⟨⟩
    rfl
  rw [trimming_strip, characters_append text _ begins, strip_append_blank _ blank]
  rfl

private theorem characters_ascii {b : UInt8} {rest : Bytes} (low : b < 0x80)
    (valid : utf8Valid (b :: rest) = true) : characters (b :: rest) = [b] :: characters rest := by
  rw [utf8Valid_low rest low] at valid
  exact characters_append [b] rest (valid_begins valid)

/-! ### Lines -/

/-- The line end does not hurt. -/
private theorem valid_line {text : Bytes} (valid : utf8Valid text = true) :
    utf8Valid (text ++ [cr, lf]) = true := by
  have ends : utf8Valid [cr, lf] = true := by decide
  exact utf8From_append valid ends

theorem blank_low {fold : Bytes} (folded : fold.head? = some space ∨ fold.head? = some 0x09) :
    ∃ b rest, fold = b :: rest ∧ b < 0x80 ∧ whitespace.contains [b] = true := by
  cases fold with
  | nil => simp at folded
  | cons b rest =>
    rw [List.head?_cons, Option.some.injEq, Option.some.injEq] at folded
    refine ⟨b, rest, rfl, ?_⟩
    rcases folded with rfl | rfl
    · exact ⟨by decide, by decide⟩
    · exact ⟨by decide, by decide⟩

/-- Texts that go on with a blank are strings where they are one together. -/
private theorem valid_pieces (value : Bytes) (folds : List Bytes)
    (folded : ∀ fold ∈ folds, fold.head? = some space ∨ fold.head? = some 0x09)
    (valid : utf8Valid (value ++ folds.flatten) = true) :
    ∀ piece ∈ value :: folds, utf8Valid piece = true := by
  induction folds generalizing value with
  | nil => simpa using valid
  | cons fold folds ih =>
    obtain ⟨here, later⟩ := List.forall_mem_cons.mp folded
    obtain ⟨b, rest, rfl, low, -⟩ := blank_low here
    rw [List.flatten_cons, List.cons_append] at valid
    obtain ⟨first, behind⟩ := utf8From_front le_rfl low valid
    have next : utf8Valid ((b :: rest) ++ folds.flatten) = true := by
      rw [List.cons_append, utf8Valid_low _ low]
      exact behind
    exact List.forall_mem_cons.mpr ⟨first, ih (b :: rest) later next⟩

private theorem Field.valid_pieces (f : Field) : ∀ piece ∈ f.pieces, utf8Valid piece = true := by
  have colon_ : colon < 0x80 := by decide
  exact Web.valid_pieces f.value f.folds f.folded (utf8From_front le_rfl colon_ f.valid).2

private theorem Field.valid_first (f : Field) :
    utf8Valid (f.name ++ colon :: (f.value ++ [cr, lf])) = true := by
  have colon_ : colon < 0x80 := by decide
  have name := (utf8From_front le_rfl colon_ f.valid).1
  have value := f.valid_pieces f.value (List.mem_cons_self ..)
  apply utf8From_append name
  rw [utf8Valid_low _ colon_]
  exact valid_line value

private theorem splitAtColon_name (name value : Bytes) (free : colon ∉ name) :
    splitAtColon (name ++ colon :: value) = some (name, value) := by
  have present : (name ++ colon :: value).contains colon = true := by simp
  have apart : ∀ b ∈ name, (b != colon) = true := by
    intro b member
    rw [bne_iff_ne]
    rintro rfl
    exact free member
  rw [splitAtColon, if_pos present, List.takeWhile_append_of_pos apart,
    List.dropWhile_append_of_pos apart]
  simp

/-- A field does not begin like a line that continues one. -/
theorem Field.flush_line (f : Field) (rest : Bytes) (valid : utf8Valid (colon :: rest) = true) :
    startsIn whitespace (f.name ++ colon :: rest) = false := by
  have flush := f.flush
  unfold startsIn at flush ⊢
  rw [characters_append f.name _ (valid_begins valid)]
  cases chars : characters f.name with
  | nil =>
    rw [List.nil_append, characters_ascii (by decide) valid]
    rfl
  | cons c cs =>
    rw [chars] at flush
    exact flush

/-! ### Collecting -/

/-- What `headers` has for a name, the values that came for it in order. -/
def headerOf : List Bytes → Option Header
  | [] => none
  | [value] => some (.one value)
  | values => some (.many values)

def Holds (headers : List (Bytes × Header)) (table : Bytes → List Bytes) : Prop :=
  ∀ name, headers.lookup name = headerOf (table name)

private theorem subjectText_collected (values : List Bytes) :
    subjectText (headerOf values) = values.flatten := by
  match values with
  | [] => rfl
  | [value] => exact (List.append_nil value).symm
  | _ :: _ :: _ => rfl

theorem lookup_filter (headers : List (Bytes × Header)) {key name : Bytes} (apart : name ≠ key) :
    (headers.filter fun entry => entry.1 != key).lookup name = headers.lookup name := by
  induction headers with
  | nil => rfl
  | cons entry headers ih =>
    obtain ⟨key', header⟩ := entry
    by_cases same : key' = key
    · have other : (name == key') = false := by
        rw [beq_eq_false_iff_ne, same]
        exact apart
      rw [List.filter_cons_of_neg (by simp [same]), List.lookup_cons, other, ih]
    · have kept : ((key', header).1 != key) = true := bne_iff_ne.mpr same
      rw [List.filter_cons, if_pos kept, List.lookup_cons, List.lookup_cons, ih]

theorem lookup_setObject (headers : List (Bytes × Header)) (key name : Bytes) (header : Header) :
    (setObject headers key header).lookup name =
      if name = key then some header else headers.lookup name := by
  rw [setObject, List.lookup_cons]
  split
  next same => rw [if_pos (beq_iff_eq.mp same)]
  next other =>
    have apart := beq_eq_false_iff_ne.mp other
    rw [if_neg apart, lookup_filter headers apart]

private theorem holds_enter {headers : List (Bytes × Header)} {table : Bytes → List Bytes}
    (holds : Holds headers table) (key value : Bytes) :
    ∃ headers', enterHeader headers (some key) (some value) = some headers' ∧
      Holds headers' fun name => table name ++ if name = key then [value] else [] := by
  have set_ : ∀ header, some header = headerOf (table key ++ [value]) →
      Holds (setObject headers key header) fun name =>
        table name ++ if name = key then [value] else [] := by
    intro header same name
    dsimp only
    rw [lookup_setObject]
    by_cases here : name = key
    · rw [if_pos here, if_pos here, here, same]
    · rw [if_neg here, if_neg here, List.append_nil, holds name]
  have here := holds key
  unfold enterHeader
  dsimp only
  rcases values : table key with _ | ⟨first, _ | ⟨second, others⟩⟩
  · rw [values] at here set_
    rw [here]
    exact ⟨_, rfl, set_ _ rfl⟩
  · rw [values] at here set_
    rw [here]
    exact ⟨_, rfl, set_ _ rfl⟩
  · rw [values] at here set_
    rw [here]
    exact ⟨_, rfl, set_ _ rfl⟩

/-! ### Reading -/

/-- Headers are being read, and these values have come. -/
structure Reads (h : HeaderState) (table : Bytes → List Bytes) : Prop where
  reading : h.isInHeaders = true
  holds : Holds h.headers table

/-- Values that come one after another for a name. -/
theorem Reads.joined {h : HeaderState} {table : Bytes → List Bytes} {key : Bytes}
    {first later : List Bytes}
    (reads : Reads h fun name => (table name ++ if name = key then first else []) ++
      if name = key then later else []) :
    Reads h fun name => table name ++ if name = key then first ++ later else [] := by
  have same : ∀ name, (table name ++ if name = key then first else []) ++
      (if name = key then later else []) =
        table name ++ if name = key then first ++ later else [] := by
    intro name
    split
    · exact List.append_assoc _ _ _
    · rw [List.append_nil, List.append_nil]
  exact ⟨reads.reading, fun name => (reads.holds name).trans (congrArg headerOf (same name))⟩

/-- A line that has a value for a name. -/
theorem readHeader_value {lower : Bytes → Bytes} {h : HeaderState} {table : Bytes → List Bytes}
    {line key value : Bytes} (reads : Reads h table) (filled : line ≠ [cr, lf])
    (field : headerField lower h.lastHeader (some line) = some (some key, some value)) :
    ∃ h', readHeader lower h (some line) = some h' ∧ h'.lastHeader = some key ∧
      Reads h' fun name => table name ++
        if name = key then [trimming whitespaceAndNewline value] else [] := by
  obtain ⟨headers, entered, holds⟩ :=
    holds_enter reads.holds key (trimming whitespaceAndNewline value)
  refine ⟨{ h with headers := headers, lastHeader := some key }, ?_, rfl, reads.reading, holds⟩
  rw [readHeader, reads.reading, Bool.not_true, if_neg Bool.false_ne_true,
    if_neg fun same => filled (Option.some.inj same), field]
  dsimp only
  rw [Option.map_some, entered]
  rfl

/-- The first line of a field. -/
private theorem Field.read_first (f : Field) (lower : Bytes → Bytes) {h : HeaderState}
    {table : Bytes → List Bytes} (reads : Reads h table) :
    ∃ h', readHeader lower h (some (f.name ++ colon :: (f.value ++ [cr, lf]))) = some h' ∧
      h'.lastHeader = some (f.key lower) ∧
      Reads h' fun name => table name ++
        if name = f.key lower then [trimming whitespaceAndNewline f.value] else [] := by
  rw [← trimming_line f.value]
  apply readHeader_value reads
  · intro same
    have member : colon ∈ [cr, lf] := by
      rw [← same]
      simp
    exact absurd member (by decide)
  · have colon_ : colon < 0x80 := by decide
    have split_ := splitAtColon_name f.name (f.value ++ [cr, lf]) f.named
    have behind : utf8Valid (colon :: (f.value ++ [cr, lf])) = true := by
      rw [utf8Valid_low _ colon_]
      exact valid_line (f.valid_pieces f.value (List.mem_cons_self ..))
    have flush := f.flush_line _ behind
    unfold headerField
    cases h.lastHeader with
    | none =>
      dsimp only
      rw [split_]
      rfl
    | some name =>
      dsimp only
      rw [flush, if_neg Bool.false_ne_true, split_]
      rfl

/-- A line that continues a field. -/
private theorem read_fold (lower : Bytes → Bytes) {h : HeaderState} {table : Bytes → List Bytes}
    {key fold : Bytes} (reads : Reads h table) (last : h.lastHeader = some key)
    (folded : fold.head? = some space ∨ fold.head? = some 0x09) (valid : utf8Valid fold = true) :
    ∃ h', readHeader lower h (some (fold ++ [cr, lf])) = some h' ∧ h'.lastHeader = some key ∧
      Reads h' fun name => table name ++
        if name = key then [trimming whitespaceAndNewline fold] else [] := by
  rw [← trimming_line fold]
  obtain ⟨b, rest, rfl, low, blank⟩ := blank_low folded
  apply readHeader_value reads
  · intro same
    have other : b ≠ cr := by
      rintro rfl
      rw [List.head?_cons, Option.some.injEq, Option.some.injEq] at folded
      exact absurd folded (by decide)
    exact other (List.cons.inj same).1
  · have begins : startsIn whitespace (b :: rest ++ [cr, lf]) = true := by
      have line := valid_line valid
      rw [List.cons_append] at line ⊢
      rw [startsIn, characters_ascii low line]
      exact blank
    unfold headerField
    rw [last]
    dsimp only
    rw [if_pos begins]

private theorem read_folds (lower : Bytes → Bytes) {h : HeaderState} {table : Bytes → List Bytes}
    {key : Bytes} {folds : List Bytes} (reads : Reads h table) (last : h.lastHeader = some key)
    (folded : ∀ fold ∈ folds, fold.head? = some space ∨ fold.head? = some 0x09)
    (valid : ∀ fold ∈ folds, utf8Valid fold = true) :
    ∃ h', (folds.map (· ++ [cr, lf])).foldlM
        (fun h line => readHeader lower h (stringWithUtf8 line)) h = some h' ∧
      h'.lastHeader = some key ∧
      Reads h' fun name => table name ++
        if name = key then folds.map (trimming whitespaceAndNewline) else [] := by
  induction folds generalizing h table with
  | nil => exact ⟨h, rfl, last, by simpa using reads⟩
  | cons fold folds ih =>
    obtain ⟨folded, folded'⟩ := List.forall_mem_cons.mp folded
    obtain ⟨valid, valid'⟩ := List.forall_mem_cons.mp valid
    obtain ⟨next, first, last', reads'⟩ := read_fold lower reads last folded valid
    obtain ⟨final, later, last'', reads''⟩ := ih reads' last' folded' valid'
    refine ⟨final, ?_, last'', reads''.joined⟩
    rw [List.map_cons, List.foldlM_cons, stringWithUtf8, if_pos (valid_line valid), first]
    exact later

/-- The values of the fields with a name, in order. -/
def valuesOf (lower : Bytes → Bytes) (fields : List Field) (name : Bytes) : List Bytes :=
  fields.flatMap fun f => if name = f.key lower then f.values else []

theorem Field.read (f : Field) (lower : Bytes → Bytes) {h : HeaderState}
    {table : Bytes → List Bytes} (reads : Reads h table) :
    ∃ h', f.lines.foldlM (fun h line => readHeader lower h (stringWithUtf8 line)) h = some h' ∧
      Reads h' fun name => table name ++ if name = f.key lower then f.values else [] := by
  obtain ⟨next, first, last, reads'⟩ := f.read_first lower reads
  obtain ⟨final, later, -, reads''⟩ := read_folds lower reads' last f.folded
    fun fold member => f.valid_pieces fold (List.mem_cons_of_mem _ member)
  refine ⟨final, ?_, reads''.joined⟩
  rw [Field.lines, List.foldlM_cons, stringWithUtf8, if_pos f.valid_first, first]
  exact later

/-- A header block leaves what its fields say, in order. -/
private theorem read_block (lower : Bytes → Bytes) (fields : List Field) {h : HeaderState}
    {table : Bytes → List Bytes} (reads : Reads h table) :
    ∃ h', (fields.flatMap Field.lines).foldlM
        (fun h line => readHeader lower h (stringWithUtf8 line)) h = some h' ∧
      Reads h' fun name => table name ++ valuesOf lower fields name := by
  induction fields generalizing h table with
  | nil => exact ⟨h, rfl, by simpa [valuesOf] using reads⟩
  | cons f fields ih =>
    obtain ⟨next, first, reads'⟩ := f.read lower reads
    obtain ⟨final, later, reads''⟩ := ih reads'
    refine ⟨final, ?_, ?_⟩
    · rw [List.flatMap_cons, List.foldlM_append, first]
      exact later
    · simpa [valuesOf] using reads''

/-- What follows the block changes no header. -/
private theorem read_rest (lower : Bytes → Bytes) {h : HeaderState} {rest : List Bytes}
    (ends : ∀ line, rest.head? = some line → line = [cr, lf]) :
    ∃ h', rest.foldlM (fun h line => readHeader lower h (stringWithUtf8 line)) h = some h' ∧
      h'.headers = h.headers := by
  have quiet : ∀ (body : List Bytes) (h : HeaderState), h.isInHeaders = false →
      body.foldlM (fun h line => readHeader lower h (stringWithUtf8 line)) h = some h := by
    intro body h outside
    induction body with
    | nil => rfl
    | cons line body ih =>
      have same : readHeader lower h (stringWithUtf8 line) = some h := by
        rw [readHeader, outside, Bool.not_false, if_pos rfl]
      rw [List.foldlM_cons, same]
      exact ih
  cases rest with
  | nil => exact ⟨h, rfl, rfl⟩
  | cons line body =>
    have empty := ends line rfl
    subst empty
    cases reading : h.isInHeaders with
    | false => exact ⟨h, quiet _ h reading, rfl⟩
    | true =>
      have ended : readHeader lower h (stringWithUtf8 [cr, lf]) =
          some { h with isInHeaders := false } := by
        have string : stringWithUtf8 [cr, lf] = some [cr, lf] := by decide
        rw [readHeader, reading, string, Bool.not_true, if_neg Bool.false_ne_true, if_pos rfl]
      refine ⟨{ h with isInHeaders := false }, ?_, rfl⟩
      rw [List.foldlM_cons, ended]
      exact quiet body _ rfl

/-- A mail that begins with a header block has the headers of the block. -/
private theorem handleDatas_block (lower : Bytes → Bytes) (socket : SMSocket) (email : SMEmail)
    (fields : List Field) (rest : List Bytes) (fresh : email.toHeaderState = ⟨[], none, true⟩)
    (ends : ∀ line, rest.head? = some line → line = [cr, lf]) :
    ∃ last, handleDatas lower { socket with email := some email }
        (fields.flatMap Field.lines ++ rest) = some { socket with email := some last } ∧
      last.recipients = email.recipients ∧ Holds last.headers (valuesOf lower fields) := by
  have start : Reads email.toHeaderState fun _ => [] := by
    rw [fresh]
    exact ⟨rfl, fun _ => rfl⟩
  obtain ⟨h, block, reads⟩ := read_block lower fields start
  obtain ⟨h', body, same⟩ := read_rest lower (h := h) ends
  have run : (fields.flatMap Field.lines ++ rest).foldlM
      (fun h line => readHeader lower h (stringWithUtf8 line)) email.toHeaderState = some h' := by
    rw [List.foldlM_append, block]
    exact body
  rw [← receives_headers] at run
  obtain ⟨last, received, headers⟩ := Option.map_eq_some_iff.mp run
  refine ⟨last, ?_, (receives_kept received).2.2, ?_⟩
  · rw [handleDatas_some, received]
  · intro name
    have held := reads.holds name
    rw [List.nil_append, ← same] at held
    rw [← held, ← headers]

/-! ### Joining -/

/-- The characters of texts that are strings. -/
theorem characters_flatten (texts : List Bytes) (valid : ∀ text ∈ texts, utf8Valid text = true) :
    utf8Valid texts.flatten = true ∧ characters texts.flatten = (texts.map characters).flatten := by
  induction texts with
  | nil => exact ⟨by decide, rfl⟩
  | cons text texts ih =>
    obtain ⟨here, later⟩ := List.forall_mem_cons.mp valid
    obtain ⟨behind, chars⟩ := ih later
    rw [List.flatten_cons, List.map_cons, List.flatten_cons,
      characters_append text _ (valid_begins behind), chars]
    exact ⟨utf8From_append here behind, rfl⟩

/-- Leaving elements out makes a list of bytes shorter. -/
theorem flatten_sublist {xs ys : List Bytes} (part : xs.Sublist ys) (filled : ∀ y ∈ ys, y ≠ [])
    (same : xs.flatten = ys.flatten) : xs = ys := by
  have sizes : xs.flatten.length = ys.flatten.length := congrArg List.length same
  clear same
  induction part with
  | slnil => rfl
  | cons y part ih =>
    exfalso
    have present := List.length_pos_iff.mpr (filled y (List.mem_cons_self ..))
    have most := part.flatten.length_le
    rw [List.flatten_cons, List.length_append] at sizes
    omega
  | cons_cons y part ih =>
    rw [List.flatten_cons, List.flatten_cons, List.length_append, List.length_append] at sizes
    rw [ih (fun later member => filled later (List.mem_cons_of_mem _ member)) (by omega)]

/-- The trimmed pieces make up the trimmed value exactly if the field is folded outside of it. -/
private theorem Field.values_flatten (f : Field) :
    f.values.flatten = trimming whitespaceAndNewline f.text ↔ f.Outer := by
  have chars := fun pieces : List Bytes => fun part : pieces <:+: f.pieces =>
    (characters_flatten pieces fun piece member =>
      f.valid_pieces piece (part.subset member)).2
  -- the pieces as characters
  have whole : trimming whitespaceAndNewline f.text =
      (strip whitespaceAndNewline.contains (f.pieces.map characters).flatten).flatten := by
    rw [trimming_strip, ← chars f.pieces List.infix_rfl]
    rfl
  have parts : f.values.flatten =
      ((f.pieces.map characters).map (strip whitespaceAndNewline.contains)).flatten.flatten := by
    rw [Field.values, List.map_map, List.flatten_flatten, List.map_map]
    rfl
  have led : ∀ part ∈ (f.pieces.map characters).tail, ∃ c, part.head? = some c ∧
      whitespaceAndNewline.contains c = true := by
    intro part member
    obtain ⟨fold, member', rfl⟩ := List.mem_map.mp member
    have valid := f.valid_pieces fold (List.mem_cons_of_mem _ member')
    obtain ⟨b, rest, rfl, low, blank⟩ := blank_low (f.folded fold member')
    refine ⟨[b], by rw [characters_ascii low valid]; rfl, ?_⟩
    rw [List.contains_iff_mem] at blank ⊢
    exact List.mem_append_left _ blank
  have cuts := strips_iff whitespaceAndNewline.contains (f.pieces.map characters) led
  rw [whole, parts]
  constructor
  · intro same left right split_
    have lists := flatten_sublist (strips_sublist _ _) ?_ same
    · have outer := cuts.mp lists (left.map characters) (right.map characters)
        (by rw [split_, List.map_append])
      rw [Blanks, Blanks, chars left ⟨[], right, by rw [split_]; rfl⟩,
        chars right ⟨left, [], by rw [split_, List.append_nil]⟩]
      exact outer
    · intro c member
      obtain ⟨front, back, joined, -, -, -⟩ :=
        strip_parts whitespaceAndNewline.contains (f.pieces.map characters).flatten
      rw [← chars f.pieces List.infix_rfl] at joined member
      apply characters_nonempty f.pieces.flatten c
      rw [joined]
      exact List.mem_append_left _ (List.mem_append_right _ member)
  · intro outer
    apply congrArg List.flatten
    apply cuts.mpr
    intro left right split_
    obtain ⟨left', right', split_', rfl, rfl⟩ := List.map_eq_append_iff.mp split_
    rw [← chars left' ⟨[], right', by rw [split_']; rfl⟩,
      ← chars right' ⟨left', [], by rw [split_', List.append_nil]⟩]
    exact outer left' right' split_'

private theorem valuesOf_own {lower : Bytes → Bytes} {before after : List Field} {own : Field}
    {name : Bytes} (key : own.key lower = name)
    (only : ∀ f ∈ before ++ after, f.key lower ≠ name) :
    valuesOf lower (before ++ own :: after) name = own.values := by
  have missing : ∀ fields : List Field, (∀ f ∈ fields, f.key lower ≠ name) →
      valuesOf lower fields name = [] := by
    intro fields others
    rw [valuesOf, List.flatMap_eq_nil_iff]
    exact fun f member => if_neg (Ne.symm (others f member))
  have split_ : valuesOf lower (before ++ own :: after) name =
      valuesOf lower before name ++ (own.values ++ valuesOf lower after name) := by
    rw [valuesOf, List.flatMap_append, List.flatMap_cons, if_pos key.symm]
    rfl
  rw [split_, missing before fun f member => only f (List.mem_append_left _ member),
    missing after fun f member => only f (List.mem_append_right _ member), List.append_nil,
    List.nil_append]

private theorem valuesOf_other {lower : Bytes → Bytes} {before after : List Field} {own : Field}
    {name : Bytes} (key : own.key lower ≠ name) :
    valuesOf lower (before ++ own :: after) name = valuesOf lower (before ++ after) name := by
  rw [valuesOf, valuesOf, List.flatMap_append, List.flatMap_append, List.flatMap_cons,
    if_neg (Ne.symm key), List.nil_append]

private theorem storesSubject_iff (socket : SMSocket) (email : SMEmail) (text : Bytes)
    (addressed : email.recipients ≠ []) :
    StoresSubject socket email text ↔
      subjectText (email.headers.lookup (ascii "subject")) = text := by
  obtain ⟨name, named, written⟩ := handleEmail_subject socket email addressed
  constructor
  · rintro ⟨name', named', written'⟩
    obtain rfl := Option.some.inj (named.symm.trans named')
    exact (written' _).mp ((written _).mpr rfl)
  · rintro rfl
    exact ⟨name, named, written⟩

section Storing

variable (lower : Bytes → Bytes) (socket : SMSocket) (email : SMEmail) (before : List Field)
  (subject : Field) (after : List Field) (rest : List Bytes)
  (fresh : email.toHeaderState = ⟨[], none, true⟩) (addressed : email.recipients ≠ [])
  (key : subject.key lower = ascii "subject")
  (only : ∀ f ∈ before ++ after, f.key lower ≠ ascii "subject")
  (ends : ∀ line, rest.head? = some line → line = [cr, lf])

include fresh addressed key only ends

/-- What counts is what the trimmed pieces make up. -/
private theorem foldedAlike_values :
    FoldedAlike lower socket email before subject after rest ↔
      subject.values.flatten = trimming whitespaceAndNewline subject.text := by
  obtain ⟨folded, ran, recipients, held⟩ := handleDatas_block lower socket email
    (before ++ subject :: after) rest fresh ends
  obtain ⟨plain, ran', recipients', held'⟩ := handleDatas_block lower socket email
    (before ++ subject.unfolded :: after) rest fresh ends
  have key' : subject.unfolded.key lower = ascii "subject" := key
  have stored := storesSubject_iff socket folded (trimming whitespaceAndNewline subject.text)
    (by rwa [recipients])
  have stored' := storesSubject_iff socket plain (trimming whitespaceAndNewline subject.text)
    (by rwa [recipients'])
  rw [held, subjectText_collected, valuesOf_own key only] at stored
  rw [held', subjectText_collected, valuesOf_own key' only] at stored'
  constructor
  · rintro ⟨folded', plain', done, -, subject_, -, -⟩
    rw [handleDatas_some] at ran done
    obtain rfl := Option.some.inj (ran.symm.trans done)
    exact stored.mp subject_
  · intro same
    refine ⟨folded, plain, ran, ran', stored.mpr same, stored'.mpr ?_, ?_⟩
    · exact List.append_nil _
    · intro name other
      have apart : subject.key lower ≠ name := key ▸ Ne.symm other
      have apart' : subject.unfolded.key lower ≠ name := apart
      rw [held, held', valuesOf_other apart, valuesOf_other apart']

/-- A folded subject is stored like one in a single line, and the other headers with it, exactly if
no fold stands within the trimmed value. -/
theorem foldedAlike_iff_outer :
    FoldedAlike lower socket email before subject after rest ↔ subject.Outer :=
  (foldedAlike_values lower socket email before subject after rest fresh addressed key only
    ends).trans subject.values_flatten

end Storing

/-- A mail for one recipient, before its first line. -/
def addressedEmail : SMEmail := { SMEmail.init [] [] none with recipients := [ascii "r"] }

/-- A fold in front of the value does no harm. -/
theorem foldedAlike_front :
    ∃ f : Field, f.lines = [ascii "subject:\r\n", ascii " b\r\n"] ∧
      FoldedAlike id (SMSocket.init []) addressedEmail [] f [] [] := by
  refine ⟨⟨ascii "subject", [], [ascii " b"], by decide, by decide, by decide, by decide⟩,
    by decide, ?_⟩
  apply (foldedAlike_iff_outer id (SMSocket.init []) addressedEmail [] _ [] [] rfl (by decide)
    (by decide) (List.forall_mem_nil _) nofun).mpr
  intro left right split_
  rcases left with _ | ⟨first, _ | ⟨second, left⟩⟩
  · exact Or.inl nofun
  · obtain ⟨rfl, -⟩ := List.cons.inj split_
    exact Or.inl nofun
  · -- both pieces are in front, and nothing is behind
    have rest := (List.cons.inj (List.cons.inj split_).2).2
    obtain ⟨-, rfl⟩ := List.append_eq_nil_iff.mp rest.symm
    exact Or.inr nofun

/-- "a b" becomes "ab". -/
theorem fold_lost :
    ∃ f : Field, f.lines = [ascii "subject: a\r\n", ascii " b\r\n"] ∧
      f.key id = ascii "subject" ∧ f.values.flatten = ascii "ab" ∧
      trimming whitespaceAndNewline f.text = ascii "a b" ∧
      ¬FoldedAlike id (SMSocket.init []) addressedEmail [] f [] [] := by
  refine ⟨⟨ascii "subject", ascii " a", [ascii " b"], by decide, by decide, by decide, by decide⟩,
    by decide, by decide, by decide, by decide, ?_⟩
  rw [foldedAlike_values id (SMSocket.init []) addressedEmail [] _ [] [] rfl (by decide)
    (by decide) (List.forall_mem_nil _) nofun]
  decide

end Spamass.Web
