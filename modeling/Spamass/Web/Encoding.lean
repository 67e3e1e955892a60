import Spamass.Web.Links

/-!
# Encoded pages

Both pages of the application append the UTF-8 bytes of a text, but as many of them as
the text has UTF-16 units. This module follows the texts a response builds, the buffer
and the data read from it, and says for which requests nothing of a text is lost: those
whose texts are ASCII.
-/
namespace Spamass.Web

open Spamass.Emailz Spamass.App Spamass.SortedStore Spamass.Separated Spamass.Runs

/-! ### Requests -/

/-- The text of `HTTPEmailViewResponse` for a mail. -/
def viewPage (address text : Bytes) : Bytes :=
  ascii "<html><head><title>" ++ address ++ ascii "</title></head><body>" ++
    ascii "<table border=1 cellspacing=0 cellspacing=0><tr><td>" ++
    ascii "<table border=0 cellpadding=3 cellspacing=10><tr><td><pre>" ++ text ++
    ascii "</pre></td></tr></table>\r\n" ++ ascii "</td></tr></table>\r\n" ++
    ascii "</body></html>\r\n"

def invalidView (reason : Bytes) : Bytes :=
  ascii "<html><head><title>Hello.</title></head><body>" ++ reason ++ ascii "</body></html>\r\n"

/-- What `HTTPEmailViewResponse` builds; `files` is `dataWithContentsOfFile:`, and `none` is an
exception. -/
def viewText (lower : Bytes → Bytes) (files : Bytes → Option Bytes) (filePath : Bytes) :
    Option Bytes :=
  match viewRequest lower filePath with
  | .raised => none
  | .invalid => some (invalidView (ascii "Not a valid request. [101]"))
  | .mail address _ _ path =>
    match path.bind files with
    | none => some (invalidView (ascii "Not a valid request. [102]"))
    | some data =>
      if data.length = 0 then some (invalidView (ascii "Not a valid request. [102]"))
      else (stringWithUtf8 data).map (viewPage address)

def viewResponse (text : Bytes) : SearchResponse := ⟨true, clip text, 0, true, 0, 0⟩

/-- The texts the block of the search builds in a call. -/
def outputOf (r : SearchResponse) (found : Option SMEmail) : List Bytes :=
  if !r.connection then []
  else
    match found with
    | none => [pageFooter]
    | some email =>
      if 10 ≤ r.emailCount then [pageFooter]
      else
        match componentsInSet (· == dash) email.socketId with
        | [date, addr, port] => (pageRow (r.mResultCount + 1) email date addr port).toList
        | _ => []

def Serving.output (s : Serving) : PageStep → List Bytes
  | .call =>
    match s.calls with
    | [] => []
    | found :: _ => outputOf s.response found
  | .send _ => []

/-- A response that is being sent, and the texts it was built of. -/
structure Served where
  serving : Serving
  built : List Bytes

def Served.step (p : Served) (label : PageStep) : Served :=
  ⟨p.serving.step label, p.built ++ p.serving.output label⟩

inductive Request where
  /-- an address, and the mails the scan calls the block with -/
  | search (address : Bytes) (emails : List SMEmail)
  | view (filePath : Bytes)

/-- The response that is sent; none if an exception was caught. -/
def Request.start (lower : Bytes → Bytes) (files : Bytes → Option Bytes) : Request → Option Served
  | .search address emails =>
    some ⟨⟨searchResponse address,
        if utf16Length address = 0 then [] else emails.map some ++ [none], []⟩,
      [if utf16Length address = 0 then invalidPage else pageHeader address]⟩
  | .view filePath =>
    (viewText lower files filePath).map fun text => ⟨⟨viewResponse text, [], []⟩, [text]⟩

/-- All data that was returned by `readDataOfLength:`. -/
def Serving.data (s : Serving) : Bytes :=
  s.sent.flatMap fun chunk =>
    match chunk with
    | .data bytes => bytes
    | .terminator => []

/-- The closing tags of every page. -/
def closingTags : Bytes := ascii "</body></html>\r\n"

/-- The buffer holds the texts that were built, what was read of it is what they begin with, and
when all is read that is the whole page with its closing tags. -/
structure Entire (p : Served) : Prop where
  buffer : p.serving.response.dataBuffer = p.built.flatten
  read : p.serving.data = p.built.flatten.take p.serving.response.theOffset
  closed : p.serving.response.isDone = true →
    p.serving.data = p.built.flatten ∧ closingTags <:+ p.serving.data

/-! ### Which texts -/

def Ascii (text : Bytes) : Prop := ∀ b ∈ text, b < 0x80

instance (text : Bytes) : Decidable (Ascii text) :=
  List.decidableBAll (fun b => b < 0x80) text

/-- The texts of a mail that go into its row. -/
def rowTexts (email : SMEmail) : Option (List Bytes) := do
  let recipient ← email.recipients.head?
  let sender ← email.sender
  let subject ← match email.headers.lookup (ascii "subject") with
    | some (.one subject) => some subject
    | _ => none
  some [recipient, sender, subject]

/-- A row is built of ASCII texts. -/
def AsciiStep (p : Served) : PageStep → Prop
  | .call => ∀ email left, p.serving.calls = some email :: left →
    p.serving.response.emailCount < 10 → ∀ texts, rowTexts email = some texts →
      ∀ text ∈ texts, Ascii text
  | .send _ => True

/-- The address of a search is ASCII, and so are the address and the mail of a view. -/
def Request.AsciiStart (lower : Bytes → Bytes) (files : Bytes → Option Bytes) : Request → Prop
  | .search address _ => Ascii address
  | .view filePath => ∀ address socketId serial path data,
    viewRequest lower filePath = .mail address socketId serial path →
      path.bind files = some data → data.length ≠ 0 → Ascii address ∧ Ascii data

/-- A mail with the names of the application, and with Unicode texts. -/
structure Unicode (email : SMEmail) : Prop where
  socketId : wellFormed socketIdShape email.socketId = true
  serial : wellFormed serialShape email.serial = true
  recipients : ∀ recipient ∈ email.recipients, utf8Valid recipient = true
  sender : ∀ sender, email.sender = some sender → utf8Valid sender = true
  subject : ∀ subject, email.headers.lookup (ascii "subject") = some (.one subject) →
    utf8Valid subject = true

def Request.Unicode : Request → Prop
  | .search address emails => utf8Valid address = true ∧ ∀ email ∈ emails, Web.Unicode email
  | .view _ => True

/-! ### Texts -/

/-- A text has at most as many characters as bytes. -/
def Sized (text : Bytes) : Prop := utf16Length text ≤ text.length

private theorem utf8Lead_bounds {b : UInt8} {need : Nat} {lo hi : UInt8}
    (lead : utf8Lead b = some (need, lo, hi)) :
    hi ≤ 0xBF ∧ (b < 0x80 ∧ need = 0 ∨ 0xC2 ≤ b ∧ 1 ≤ need ∧ (0xF0 ≤ b → 3 ≤ need)) := by
  have bounds : ∀ {least most : UInt8}, (decide (least ≤ b) && decide (b ≤ most)) = true →
      least ≤ b ∧ b ≤ most := by
    intro least most within
    simpa using within
  unfold utf8Lead at lead
  -- one case for each row of the table of lead bytes
  split_ifs at lead with single two e0 ed three f0 four f4
  all_goals obtain ⟨rfl, -, rfl⟩ := lead
  · exact ⟨le_rfl, Or.inl ⟨single, rfl⟩⟩
  · obtain ⟨from_, to_⟩ := bounds two
    refine ⟨le_rfl, Or.inr ⟨from_, le_rfl, fun wide => ?_⟩⟩
    exact absurd (wide.trans to_) (by decide)
  · rw [beq_iff_eq.mp e0]
    decide
  · rw [beq_iff_eq.mp ed]
    decide
  · obtain ⟨from_, to_⟩ := bounds three
    refine ⟨le_rfl, Or.inr ⟨le_trans (by decide) from_, by decide, fun wide => ?_⟩⟩
    exact absurd (wide.trans to_) (by decide)
  · rw [beq_iff_eq.mp f0]
    decide
  · exact ⟨le_rfl, Or.inr ⟨le_trans (by decide) (bounds four).1, by decide, fun _ => le_rfl⟩⟩
  · rw [beq_iff_eq.mp f4]
    decide

/-- The bytes that are still missing of a character come on top of the units. -/
private theorem utf8From_sized (need : Nat) (lo hi : UInt8) (text : Bytes) (low : 0x80 ≤ lo)
    (high : hi ≤ 0xBF) (valid : utf8From need lo hi text = true) :
    utf16Length text + need ≤ text.length := by
  -- on the text: what a lead byte still needs is a debt the continuations pay
  induction text generalizing need lo hi with
  | nil =>
    cases need with
    | zero => exact Nat.le_refl _
    | succ need => cases valid
  | cons b text ih =>
    rw [utf16Length_cons, List.length_cons]
    cases need with
    | zero =>
      rw [utf8From_lead] at valid
      split at valid
      next need lo' hi' lead =>
        obtain ⟨high', begins⟩ := utf8Lead_bounds lead
        have later := ih need lo' hi' (utf8Lead_low lead) high' valid
        rcases begins with ⟨single, rfl⟩ | ⟨-, more, four⟩
        · have narrow : ¬0xF0 ≤ b := not_le.mpr (single.trans (by decide))
          rw [if_neg narrow]
          split_ifs <;> omega
        · split_ifs with continues wide
          · omega
          · have three := four wide
            omega
          · omega
      · cases valid
    | succ need =>
      rw [utf8From, Bool.and_eq_true, Bool.and_eq_true, decide_eq_true_eq, decide_eq_true_eq] at valid
      obtain ⟨⟨from_, to_⟩, rest⟩ := valid
      have continues : isContinuation b = true := by
        simp [isContinuation, low.trans from_, to_.trans high]
      have later := ih need 0x80 0xBF le_rfl le_rfl rest
      rw [continues, if_pos rfl]
      omega

theorem sized_of_valid (text : Bytes) (valid : utf8Valid text = true) : Sized text :=
  utf8From_sized 0 0x80 0xBF text le_rfl le_rfl valid

private theorem fits_of_ascii (text : Bytes) (ascii_ : Ascii text) : Fits text :=
  (utf16Length_ascii text ascii_).ge

/-- A string has a character for each byte exactly if it is ASCII. -/
theorem fits_iff_ascii (text : Bytes) (valid : utf8Valid text = true) :
    Fits text ↔ Ascii text := by
  refine ⟨?_, fits_of_ascii text⟩
  induction text with
  | nil => exact fun _ => nofun
  | cons b text ih =>
    intro fits
    rw [Fits, utf16Length_cons, List.length_cons] at fits
    rw [utf8Valid, utf8From_lead] at valid
    split at valid
    next need lo hi lead =>
      obtain ⟨high, begins⟩ := utf8Lead_bounds lead
      have sized := utf8From_sized need lo hi text (utf8Lead_low lead) high valid
      rcases begins with ⟨single, rfl⟩ | ⟨-, more, four⟩
      · rw [utf8From_start] at valid
        have rest : Ascii text := by
          apply ih valid
          have narrow : ¬0xF0 ≤ b := not_le.mpr (single.trans (by decide))
          rw [if_neg narrow] at fits
          rw [Fits]
          split_ifs at fits <;> omega
        intro b' member
        rcases List.mem_cons.mp member with rfl | later
        · exact single
        · exact rest b' later
      · -- a longer character has more bytes than units
        split_ifs at fits with continues wide
        · omega
        · have three := four wide
          omega
        · omega
    · cases valid

/-- A text made of strings has a character for each byte exactly if they have. -/
private theorem fits_flatten (texts : List Bytes) (sized : ∀ text ∈ texts, Sized text) :
    Fits texts.flatten ↔ ∀ text ∈ texts, Fits text := by
  have both : Sized texts.flatten ∧ (Fits texts.flatten ↔ ∀ text ∈ texts, Fits text) := by
    induction texts with
    | nil => exact ⟨Nat.le_refl _, iff_of_true (Nat.le_refl _) nofun⟩
    | cons text texts ih =>
      obtain ⟨rest, fits⟩ := ih fun later member => sized later (List.mem_cons_of_mem _ member)
      have first := sized text (List.mem_cons_self ..)
      rw [List.forall_mem_cons, ← fits]
      unfold Sized Fits at *
      rw [List.flatten_cons, utf16Length_append, List.length_append]
      omega
  exact both.2

/-- A string in front of an ASCII character, and the string behind it. -/
theorem utf8From_front {need : Nat} {lo hi b : UInt8} {front back : Bytes} (low : 0x80 ≤ lo)
    (single : b < 0x80) (valid : utf8From need lo hi (front ++ b :: back) = true) :
    utf8From need lo hi front = true ∧ utf8Valid back = true := by
  induction front generalizing need lo hi with
  | nil =>
    cases need with
    -- no character is under way: the ASCII byte begins one
    | zero =>
      rw [List.nil_append, utf8From_lead, utf8Lead, if_pos single] at valid
      exact ⟨by simp [utf8From], valid⟩
    | succ need =>
      simp only [List.nil_append, utf8From, Bool.and_eq_true, decide_eq_true_eq] at valid
      exact absurd (low.trans valid.1.1) (not_le.mpr single)
  | cons first front ih =>
    cases need with
    | zero =>
      rw [List.cons_append, utf8From_lead] at valid
      rw [utf8From_lead]
      split at valid
      next need lo hi lead => exact ih (utf8Lead_low lead) valid
      · cases valid
    | succ need =>
      simp only [List.cons_append, utf8From, Bool.and_eq_true] at valid ⊢
      obtain ⟨rest, behind⟩ := ih le_rfl valid.2
      exact ⟨⟨valid.1, rest⟩, behind⟩

/-! ### One call -/

/-- A call appends what it builds, cut off. -/
private theorem searchCallback_output (r : SearchResponse) (found : Option SMEmail) :
    match searchCallback r found with
    | none => outputOf r found = []
    | some (r', _) => r'.dataBuffer = r.dataBuffer ++ ((outputOf r found).map clip).flatten ∧
        r'.theOffset = r.theOffset ∧ r'.connection = r.connection := by
  unfold searchCallback outputOf
  cases connection : r.connection with
  | false => simp [connection]
  | true =>
    cases found with
    | none => simp [SearchResponse.finish, connection]
    | some email =>
      by_cases many : 10 ≤ r.emailCount
      · simp [many, SearchResponse.finish]
      · simp only [Bool.not_true, Bool.false_eq_true, if_false, if_neg many]
        -- only a socket id of three words makes a row
        rcases componentsInSet (· == dash) email.socketId with
          _ | ⟨date, _ | ⟨addr, _ | ⟨port, _ | ⟨_, _⟩⟩⟩⟩
        · simp
        · simp
        · simp
        · dsimp only
          cases row : pageRow (r.mResultCount + 1) email date addr port with
          | none => simp
          | some text => simp
        · simp

/-- What the row of a mail is made of, in its order. -/
def rowPieces (count : Nat) (email : SMEmail) (name sender recipient subject day addr port : Bytes) :
    List Bytes :=
  [ascii "<tr bgcolor=\"", if count % 2 = 1 then ascii "Azure" else ascii "White", ascii "\">",
    ascii "<td align=right><a href=\"v?e=", name, ascii "\">", integerText count,
    ascii "</a></td>", ascii "<td>", sender, ascii "</td>", ascii "<td>", recipient,
    ascii "</td>", ascii "<td>", subject, ascii "</td>", ascii "<td align=right>",
    integerText email.dataSize, ascii "</td>", ascii "<td><code>", day, ascii "</code></td>",
    ascii "<td><code>", addr, ascii ":", port, ascii "</code></td>", ascii "</tr>\r\n"]

private theorem pageRow_pieces {count : Nat} {email : SMEmail} {date addr port row : Bytes}
    (built : pageRow count email date addr port = some row) :
    ∃ day name sender recipient subject, dateText date = some day ∧ emailId email = some name ∧
      email.sender = some sender ∧ email.recipients.head? = some recipient ∧
      email.headers.lookup (ascii "subject") = some (.one subject) ∧
      row = (rowPieces count email name sender recipient subject day addr port).flatten := by
  simp only [pageRow, Option.bind_eq_bind, Option.bind_eq_some_iff] at built
  obtain ⟨day, dated, name, named, sender, from_, recipient, to_, titled⟩ := built
  split at titled
  next subject here =>
    refine ⟨day, name, sender, recipient, subject, dated, named, from_, to_, here, ?_⟩
    rw [← Option.some.inj titled]
    simp [rowPieces]
  · cases titled

theorem Ascii.append {text text' : Bytes} (front : Ascii text) (back : Ascii text') :
    Ascii (text ++ text') := by
  intro b member
  rcases List.mem_append.mp member with left | right
  · exact front b left
  · exact back b right

private theorem ascii_integerText (n : Nat) : Ascii (integerText n) := by
  have digit : ∀ n, ∀ b ∈ decimal n, b < 0x80 := fun n b member =>
    (digit_le b (isDigit_decimal n b member)).trans_lt (by decide)
  unfold integerText
  split
  · exact digit n
  · intro b member
    rcases List.mem_cons.mp member with rfl | later
    · decide
    · exact digit _ b later

theorem ascii_dateText {date day : Bytes} (ascii_ : Ascii date) (dated : dateText date = some day) :
    Ascii day := by
  have part : ∀ start count, ∀ b ∈ (date.drop start).take count, b < 0x80 := fun start count b member =>
    ascii_ b (List.mem_of_mem_drop (List.mem_of_mem_take member))
  unfold dateText at dated
  dsimp only at dated
  split at dated
  · cases dated
  · obtain rfl := Option.some.inj dated
    have dash_ : Ascii (ascii "-") := by decide
    have colon : Ascii (ascii ":") := by decide
    have blank : Ascii (ascii " ") := by decide
    exact (((((((((Ascii.append (part 0 4) dash_).append (part 4 2)).append dash_).append
      (part 6 2)).append blank).append (part 8 2)).append colon).append (part 10 2)).append
        colon).append (part 12 2)

/-- The other pieces of a row are ASCII. -/
private theorem rowPieces_ascii (count : Nat) (email : SMEmail)
    (name sender recipient subject day addr port : Bytes) :
    ∀ piece ∈ rowPieces count email name sender recipient subject day addr port,
      piece ∈ [name, sender, recipient, subject, day, addr, port] ∨ Ascii piece := by
  have color : Ascii (if count % 2 = 1 then ascii "Azure" else ascii "White") := by
    split <;> decide
  simp only [rowPieces, List.forall_mem_cons, List.not_mem_nil, false_implies, implies_true,
    and_true]
  repeat' apply And.intro
  all_goals
    first
    | exact Or.inr color
    | exact Or.inr (ascii_integerText _)
    | right; decide
    | left; simp only [List.mem_cons, true_or, or_true]

theorem ascii_socketId {socketId : Bytes} (named : wellFormed socketIdShape socketId = true) :
    Ascii socketId := by
  obtain ⟨length, shape⟩ := (wellFormed_iff _ _).mp named
  exact passes_each (· < 0x80) socketIdShape _ socketIdShape_low length shape

private theorem ascii_serial {serial : Bytes} (numbered : wellFormed serialShape serial = true) :
    Ascii serial := by
  obtain ⟨length, shape⟩ := (wellFormed_iff _ _).mp numbered
  exact passes_each (· < 0x80) serialShape _ serialShape_low length shape

/-- What holds of ASCII texts holds of all pieces, if it does of the seven texts. -/
theorem rowPieces_all {P : Bytes → Prop} (plain_ : ∀ piece, Ascii piece → P piece) (count : Nat)
    (email : SMEmail) (name sender recipient subject day addr port : Bytes) :
    (∀ piece ∈ rowPieces count email name sender recipient subject day addr port, P piece) ↔
      ∀ piece ∈ [name, sender, recipient, subject, day, addr, port], P piece := by
  constructor
  · intro all piece member
    apply all
    simp only [List.mem_cons, List.not_mem_nil, or_false] at member
    rcases member with rfl | rfl | rfl | rfl | rfl | rfl | rfl <;> simp [rowPieces]
  · intro all piece member
    rcases rowPieces_ascii count email name sender recipient subject day addr port piece member with
      text | ascii_
    · exact all piece text
    · exact plain_ piece ascii_

/-- A row is not cut off exactly if its three texts are ASCII. -/
private theorem rowPieces_fit (count : Nat) {email : SMEmail} (unicode : Unicode email)
    {name sender recipient subject day : Bytes}
    (dated : dateText (email.socketId.take 17) = some day) (named : emailId email = some name)
    (from_ : email.sender = some sender) (to_ : email.recipients.head? = some recipient)
    (titled : email.headers.lookup (ascii "subject") = some (.one subject)) :
    Fits (rowPieces count email name sender recipient subject day
        ((email.socketId.drop 18).take 15) (email.socketId.drop 34)).flatten ↔
      ∀ text ∈ [recipient, sender, subject], Ascii text := by
  have socketId := ascii_socketId unicode.socketId
  have serial := ascii_serial unicode.serial
  have recipient_ := unicode.recipients recipient (List.mem_of_head? to_)
  have sender_ := unicode.sender sender from_
  have subject_ := unicode.subject subject titled
  have day_ : Ascii day :=
    ascii_dateText (fun b member => socketId b (List.mem_of_mem_take member)) dated
  have addr : Ascii ((email.socketId.drop 18).take 15) := fun b member =>
    socketId b (List.mem_of_mem_drop (List.mem_of_mem_take member))
  have port : Ascii (email.socketId.drop 34) := fun b member =>
    socketId b (List.mem_of_mem_drop member)
  -- the name is the recipient with an ASCII tail
  obtain ⟨first, first_, rfl⟩ := Option.map_eq_some_iff.mp named
  obtain rfl : first = recipient := Option.some.inj (first_.symm.trans to_)
  have tail : Ascii (separator ++ email.socketId ++ separator ++ email.serial) := by
    have mark : Ascii separator := by decide
    exact ((mark.append socketId).append mark).append serial
  have joined : first ++ separator ++ email.socketId ++ separator ++ email.serial =
      first ++ (separator ++ email.socketId ++ separator ++ email.serial) := by simp
  rw [joined]
  have name_ := utf8From_append recipient_ (utf8Valid_ascii _ tail)
  have sized : ∀ text, Ascii text → Sized text := fun text ascii_ =>
    (utf16Length_ascii text ascii_).le
  rw [fits_flatten, rowPieces_all fits_of_ascii]
  · simp only [List.forall_mem_cons, List.not_mem_nil, false_implies, implies_true, and_true]
    rw [← fits_iff_ascii first recipient_, ← fits_iff_ascii sender sender_,
      ← fits_iff_ascii subject subject_]
    constructor
    · rintro ⟨-, senderFits, recipientFits, subjectFits, -⟩
      exact ⟨recipientFits, senderFits, subjectFits⟩
    · rintro ⟨recipientFits, senderFits, subjectFits⟩
      have recipientAscii := (fits_iff_ascii first recipient_).mp recipientFits
      exact ⟨fits_of_ascii _ (recipientAscii.append tail), senderFits, recipientFits, subjectFits,
        fits_of_ascii _ day_, fits_of_ascii _ addr, fits_of_ascii _ port⟩
  · rw [rowPieces_all sized]
    simp only [List.forall_mem_cons, List.not_mem_nil, false_implies, implies_true, and_true]
    exact ⟨sized_of_valid _ name_, sized_of_valid _ sender_, sized_of_valid _ recipient_,
      sized_of_valid _ subject_, sized _ day_, sized _ addr, sized _ port⟩

private theorem rowTexts_some (email : SMEmail) (texts : List Bytes) :
    rowTexts email = some texts ↔
      ∃ recipient sender subject, email.recipients.head? = some recipient ∧
        email.sender = some sender ∧
        email.headers.lookup (ascii "subject") = some (.one subject) ∧
        texts = [recipient, sender, subject] := by
  unfold rowTexts
  cases email.recipients.head? with
  | none => simp
  | some recipient =>
    cases email.sender with
    | none => simp
    | some sender =>
      cases email.headers.lookup (ascii "subject") with
      | none => simp
      | some header =>
        cases header with
        | one subject => simp [eq_comm]
        | many subjects => simp

/-- A row is built whenever its texts are there, and is whole exactly if they are ASCII. -/
private theorem output_row (count : Nat) {email : SMEmail} (unicode : Unicode email) :
    (∀ text ∈ (pageRow count email (email.socketId.take 17) ((email.socketId.drop 18).take 15)
        (email.socketId.drop 34)).toList, Fits text) ↔
      ∀ texts, rowTexts email = some texts → ∀ text ∈ texts, Ascii text := by
  cases built : pageRow count email (email.socketId.take 17) ((email.socketId.drop 18).take 15)
      (email.socketId.drop 34) with
  | none =>
    refine iff_of_true nofun ?_
    intro texts there
    obtain ⟨recipient, sender, subject, to_, from_, titled, -⟩ := (rowTexts_some email texts).mp there
    -- all that a row needs is there, so that it would have been built
    have displayable : Displayable email := ⟨unicode.socketId, by simp [from_], ⟨subject, titled⟩⟩
    have addressed : email.recipients ≠ [] := by
      intro empty
      simp [empty] at to_
    rw [pageRow_some count email displayable addressed] at built
    cases built
  | some row =>
    obtain ⟨day, name, sender, recipient, subject, dated, named, from_, to_, titled, rfl⟩ :=
      pageRow_pieces built
    have fits := rowPieces_fit count unicode dated named from_ to_ titled
    have texts := (rowTexts_some email [recipient, sender, subject]).mpr
      ⟨recipient, sender, subject, to_, from_, titled, rfl⟩
    simp only [Option.toList_some, List.forall_mem_singleton, fits, texts, Option.some.injEq]
    constructor
    · rintro all _ rfl
      exact all
    · intro all
      exact all _ rfl

/-! ### The run -/

/-- What holds of every response that is being sent. -/
structure Assembled (p : Served) : Prop where
  buffer : p.serving.response.dataBuffer = (p.built.map clip).flatten
  data : p.serving.data = p.serving.response.dataBuffer.take p.serving.response.theOffset
  offset : p.serving.response.theOffset ≤ p.serving.response.dataBuffer.length
  connection : p.serving.response.connection = true
  calls : p.serving.calls = [] ∨ ∃ emails : List SMEmail,
    p.serving.calls = emails.map some ++ [none] ∧ ∀ email ∈ emails, Unicode email
  closed : p.serving.response.mIsDone = true → closingTags <:+ p.built.flatten ∧
    (p.serving.calls = [] ∨ 10 ≤ p.serving.response.emailCount)

/-- Cut off or not shows in the length. -/
private theorem clipped_flatten (texts : List Bytes) :
    (texts.map clip).flatten.length ≤ texts.flatten.length ∧
      ((texts.map clip).flatten = texts.flatten ↔ ∀ text ∈ texts, Fits text) := by
  induction texts with
  | nil => exact ⟨Nat.le_refl _, iff_of_true rfl nofun⟩
  | cons text texts ih =>
    obtain ⟨shorter, whole⟩ := ih
    have first := clip_length_le text
    rw [List.map_cons, List.flatten_cons, List.flatten_cons, List.length_append,
      List.length_append, List.forall_mem_cons]
    refine ⟨Nat.add_le_add first shorter, ?_⟩
    constructor
    · intro same
      have length := congrArg List.length same
      rw [List.length_append, List.length_append] at length
      have fits : Fits text := fits_of_clip (by omega)
      rw [clip_fits fits] at same
      exact ⟨fits, whole.mp (List.append_cancel_left same)⟩
    · rintro ⟨fits, later⟩
      rw [clip_fits fits, whole.mpr later]

private theorem entire_iff {p : Served} (assembled : Assembled p) :
    Entire p ↔ ∀ text ∈ p.built, Fits text := by
  rw [← (clipped_flatten p.built).2, ← assembled.buffer]
  constructor
  · intro entire
    exact entire.buffer
  · intro whole
    have data := assembled.data
    rw [whole] at data
    refine ⟨whole, data, ?_⟩
    intro done
    simp only [SearchResponse.isDone, Bool.and_eq_true, decide_eq_true_eq] at done
    rw [List.take_of_length_le (whole ▸ done.2)] at data
    rw [data]
    exact ⟨rfl, (assembled.closed done.1).1⟩

private theorem send_eq (s : Serving) (available : Nat) :
    s.send available =
      if (s.response.readDataOfLength available).2 = [] then
        { s with response := (s.response.readDataOfLength available).1 }
      else
        { s with
          response := (s.response.readDataOfLength available).1
          sent := s.sent ++ .data (s.response.readDataOfLength available).2 ::
            (if (s.response.readDataOfLength available).1.isDone then [.terminator] else []) } :=
  rfl

theorem send_calls (s : Serving) (available : Nat) : (s.send available).calls = s.calls := by
  rw [send_eq]
  split <;> rfl

/-- A read returns the data behind the offset, and moves it. -/
private theorem send_data (s : Serving) (available : Nat)
    (inside : s.response.theOffset ≤ s.response.dataBuffer.length)
    (data : s.data = s.response.dataBuffer.take s.response.theOffset) :
    ∃ offset, (s.send available).response = { s.response with theOffset := offset } ∧
      offset ≤ s.response.dataBuffer.length ∧
      (s.send available).data = s.response.dataBuffer.take offset ∧
      (s.send available).calls = s.calls := by
  -- a read returns what lies between the two offsets, or nothing
  have reads : ∃ offset, (s.response.readDataOfLength available).1 =
        { s.response with theOffset := offset } ∧ offset ≤ s.response.dataBuffer.length ∧
      s.data ++ (s.response.readDataOfLength available).2 = s.response.dataBuffer.take offset := by
    unfold SearchResponse.readDataOfLength
    split
    next all =>
      exact ⟨s.response.theOffset, rfl, inside, by rw [data, List.append_nil]⟩
    next more =>
      refine ⟨_, rfl, ?_, ?_⟩
      · omega
      · rw [data, List.take_add]
  obtain ⟨offset, response, within, read⟩ := reads
  refine ⟨offset, ?_, within, ?_, ?_⟩
  · rw [send_eq]
    split <;> exact response
  · rw [← read, send_eq]
    split
    next nothing =>
      rw [nothing, List.append_nil]
      rfl
    next present =>
      have missing : (if (s.response.readDataOfLength available).1.isDone then [Chunk.terminator]
          else []).flatMap (fun chunk =>
            match chunk with
            | .data bytes => bytes
            | .terminator => []) = [] := by
        split <;> rfl
      simp only [Serving.data, List.flatMap_append, List.flatMap_cons, missing, List.append_nil]
  · exact send_calls s available

private theorem assembled_send {p : Served} (assembled : Assembled p) (available : Nat) :
    Assembled (p.step (.send available)) := by
  obtain ⟨buffer, data, inside, connection, calls, closed⟩ := assembled
  obtain ⟨offset, response, within, read, same⟩ := send_data p.serving available inside data
  have built : (p.step (.send available)).built = p.built := List.append_nil _
  have serving : (p.step (.send available)).serving = p.serving.send available := rfl
  constructor <;> rw [serving]
  · rw [response, built]
    exact buffer
  · rw [read, response]
  · rw [response]
    exact within
  · rw [response]
    exact connection
  · rw [same]
    exact calls
  · rw [response, same, built]
    exact closed

private theorem fits_footer : Fits pageFooter := fits_of_ascii pageFooter (by decide)

private theorem closingTags_footer : closingTags <:+ pageFooter := by
  refine ⟨ascii "</td></tr></table>\r\n</table>", ?_⟩
  decide +kernel

/-- A call of the block, or none, appends what it builds, cut off. -/
private theorem call_appends (s : Serving) :
    s.call.response.dataBuffer = s.response.dataBuffer ++ ((s.output .call).map clip).flatten ∧
      s.call.response.theOffset = s.response.theOffset ∧
      s.call.response.connection = s.response.connection ∧ s.call.sent = s.sent := by
  cases calls : s.calls with
  | nil => simp [Serving.call, Serving.output, calls]
  | cons found left =>
    have appends := searchCallback_output s.response found
    cases called : searchCallback s.response found with
    | none =>
      rw [called] at appends
      simp [Serving.call, Serving.output, calls, called, show outputOf s.response found = [] from
        appends]
    | some next =>
      obtain ⟨response, goesOn⟩ := next
      rw [called] at appends
      simp only [Serving.call, Serving.output, calls, called]
      exact ⟨appends.1, appends.2.1, appends.2.2, trivial⟩

/-- The buffer and the offset after a call. -/
private theorem assembled_appends {p : Served} (assembled : Assembled p) :
    let q := p.step .call
    q.serving.response.dataBuffer = (q.built.map clip).flatten ∧
      q.serving.data = q.serving.response.dataBuffer.take q.serving.response.theOffset ∧
      q.serving.response.theOffset ≤ q.serving.response.dataBuffer.length ∧
      q.serving.response.connection = true := by
  obtain ⟨buffer, data, inside, connection, -, -⟩ := assembled
  obtain ⟨appends, offset, same, sent⟩ := call_appends p.serving
  have built : (p.step .call).built = p.built ++ p.serving.output .call := rfl
  have serving : (p.step .call).serving = p.serving.call := rfl
  have data' : p.serving.call.data = p.serving.data := by
    rw [Serving.data, sent]
    rfl
  dsimp only
  rw [serving, built, data', appends, offset, same]
  refine ⟨?_, ?_, ?_, connection⟩
  · rw [buffer, List.map_append, List.flatten_append]
  · rw [data]
    exact (List.take_append_of_le_length inside).symm
  · rw [List.length_append]
    exact inside.trans (Nat.le_add_right _ _)

/-- A call that appends the footer. -/
private theorem assembled_finish {p : Served} (assembled : Assembled p) {found : Option SMEmail}
    {left : List (Option SMEmail)} (calls : p.serving.calls = found :: left)
    (last : found = none ∨ 10 ≤ p.serving.response.emailCount)
    (behind : left = [] ∨ 10 ≤ p.serving.response.emailCount)
    (later : left = [] ∨ ∃ emails : List SMEmail, left = emails.map some ++ [none] ∧
      ∀ email ∈ emails, Unicode email) :
    Assembled (p.step .call) ∧ p.serving.output .call = [pageFooter] := by
  obtain ⟨buffer, data, inside, connection⟩ := assembled_appends assembled
  obtain ⟨count, more, step⟩ := call_finish calls assembled.connection last
  have output : p.serving.output .call = [pageFooter] := by
    simp only [Serving.output, calls, outputOf, assembled.connection, Bool.not_true,
      Bool.false_eq_true, if_false]
    rcases last with rfl | many
    · rfl
    · cases found with
      | none => rfl
      | some email => exact if_pos many
  have serving : (p.step .call).serving =
      { p.serving with
        response := { p.serving.response.finish with emailCount := count }, calls := left } := step
  have built : (p.step .call).built = p.built ++ [pageFooter] := by
    rw [Served.step, output]
  refine ⟨⟨buffer, data, inside, connection, ?_, ?_⟩, output⟩
  · rw [serving]
    exact later
  · rw [serving, built]
    intro _
    refine ⟨?_, ?_⟩
    · rw [List.flatten_append]
      exact closingTags_footer.trans (by simp)
    · rcases behind with last | many
      · exact Or.inl last
      · exact Or.inr (many.trans more)

/-- A call that appends the row of a mail, or raises. -/
private theorem assembled_row {p : Served} (assembled : Assembled p) {email : SMEmail}
    {rest : List SMEmail} (calls : p.serving.calls = (email :: rest).map some ++ [none])
    (few : p.serving.response.emailCount < 10) (unicode : ∀ e ∈ email :: rest, Unicode e) :
    Assembled (p.step .call) ∧ p.serving.output .call =
      (pageRow (p.serving.response.mResultCount + 1) email (email.socketId.take 17)
        ((email.socketId.drop 18).take 15) (email.socketId.drop 34)).toList := by
  obtain ⟨buffer, data, inside, connection⟩ := assembled_appends assembled
  have room : ¬10 ≤ p.serving.response.emailCount := Nat.not_le.mpr few
  have parts_ := socketId_parts email.socketId (unicode email (List.mem_cons_self ..)).socketId
  rw [List.map_cons, List.cons_append] at calls
  -- a page that is done has no calls, or ten mails
  have underway : p.serving.response.mIsDone = false := by
    by_contra done
    rcases (assembled.closed (by simpa using done)).2 with over_ | many
    · rw [calls] at over_
      cases over_
    · exact room many
  have output : p.serving.output .call =
      (pageRow (p.serving.response.mResultCount + 1) email (email.socketId.take 17)
        ((email.socketId.drop 18).take 15) (email.socketId.drop 34)).toList := by
    simp only [Serving.output, calls, outputOf, assembled.connection, Bool.not_true,
      Bool.false_eq_true, if_false, if_neg room, parts_]
  have serving : (p.step .call).serving = p.serving.call := rfl
  have called : p.serving.call.response.mIsDone = false ∧
      (p.serving.call.calls = [] ∨ p.serving.call.calls = rest.map some ++ [none]) := by
    simp only [Serving.call, calls, searchCallback, assembled.connection, Bool.not_true,
      Bool.false_eq_true, if_false, if_neg room, parts_]
    cases pageRow (p.serving.response.mResultCount + 1) email (email.socketId.take 17)
      ((email.socketId.drop 18).take 15) (email.socketId.drop 34) with
    | none => exact ⟨underway, Or.inl rfl⟩
    | some row => exact ⟨underway, Or.inr rfl⟩
  refine ⟨⟨buffer, data, inside, connection, ?_, ?_⟩, output⟩ <;> rw [serving]
  · rcases called.2 with missing | left
    · exact Or.inl missing
    · exact Or.inr ⟨rest, left, fun e member => unicode e (List.mem_cons_of_mem _ member)⟩
  · intro done
    rw [called.1] at done
    cases done

private theorem assembled_call {p : Served} (assembled : Assembled p) :
    Assembled (p.step .call) ∧
      ((∀ text ∈ p.serving.output .call, Fits text) ↔ AsciiStep p .call) := by
  have footer : ∀ text ∈ [pageFooter], Fits text := by
    rw [List.forall_mem_singleton]
    exact fits_footer
  rcases assembled.calls with missing | ⟨emails, calls, unicode⟩
  · -- nothing is called any more
    have same : p.step .call = p := by
      simp [Served.step, Serving.step, Serving.call, Serving.output, missing]
    have silent : p.serving.output .call = [] := by simp [Serving.output, missing]
    rw [same, silent]
    refine ⟨assembled, iff_of_true (List.forall_mem_nil _) ?_⟩
    intro email left calls
    rw [missing] at calls
    cases calls
  · cases emails with
    | nil =>
      obtain ⟨after, output⟩ := assembled_finish assembled calls (Or.inl rfl) (Or.inl rfl)
        (Or.inl rfl)
      rw [output]
      refine ⟨after, iff_of_true footer ?_⟩
      intro email left other
      rw [calls] at other
      cases other
    | cons email rest =>
      have later := fun e (member : e ∈ rest) => unicode e (List.mem_cons_of_mem _ member)
      by_cases many : 10 ≤ p.serving.response.emailCount
      · obtain ⟨after, output⟩ := assembled_finish assembled calls (Or.inr many) (Or.inr many)
          (Or.inr ⟨rest, rfl, later⟩)
        rw [output]
        refine ⟨after, iff_of_true footer ?_⟩
        intro _ _ _ few
        omega
      · have few : p.serving.response.emailCount < 10 := Nat.not_le.mp many
        obtain ⟨after, output⟩ := assembled_row assembled calls few unicode
        rw [output, output_row _ (unicode email (List.mem_cons_self ..))]
        refine ⟨after, ?_⟩
        constructor
        · intro all email' left same _
          rw [calls] at same
          obtain ⟨here, -⟩ := List.cons.inj same
          obtain rfl := Option.some.inj here
          exact all
        · intro all
          exact all email _ calls few

/-- One step keeps a response assembled, and keeps it entire exactly if the texts are ASCII. -/
private theorem step_entire {p : Served} (assembled : Assembled p) (label : PageStep) :
    Assembled (p.step label) ∧ (Entire p → (Entire (p.step label) ↔ AsciiStep p label)) := by
  have kept : Assembled (p.step label) ∧
      ((∀ text ∈ p.serving.output label, Fits text) ↔ AsciiStep p label) := by
    cases label with
    | call => exact assembled_call assembled
    | send available => exact ⟨assembled_send assembled available, iff_of_true nofun trivial⟩
  refine ⟨kept.1, fun entire => ?_⟩
  have before := (entire_iff assembled).mp entire
  rw [entire_iff kept.1, ← kept.2]
  have built : (p.step label).built = p.built ++ p.serving.output label := rfl
  rw [built, List.forall_mem_append]
  exact and_iff_right before

/-! ### The start -/

theorem units_zero (text : Bytes) (valid : utf8Valid text = true) (missing : utf16Length text = 0) :
    text = [] := by
  cases text with
  | nil => rfl
  | cons b text =>
    rw [utf8Valid, utf8From_lead] at valid
    split at valid
    next need lo hi lead =>
      -- no text begins with a continuation
      have leads : isContinuation b = false := by
        rcases (utf8Lead_bounds lead).2 with ⟨single, -⟩ | ⟨longer, -⟩
        · simp [isContinuation, not_le.mpr single]
        · have above : ¬b ≤ 0xBF := not_le.mpr (lt_of_lt_of_le (by decide) longer)
          simp [isContinuation, above]
      rw [utf16Length_cons, leads, if_neg Bool.false_ne_true] at missing
      split at missing <;> omega
    · cases valid

private theorem fits_strings (texts : List Bytes) (valid : ∀ text ∈ texts, utf8Valid text = true) :
    Fits texts.flatten ↔ ∀ text ∈ texts, Ascii text := by
  rw [fits_flatten texts fun text member => sized_of_valid text (valid text member)]
  exact forall₂_congr fun text member => fits_iff_ascii text (valid text member)

/-- A string between two ASCII texts. -/
private theorem fits_between (front text back : Bytes) (front_ : Ascii front) (back_ : Ascii back)
    (valid : utf8Valid text = true) : Fits (front ++ text ++ back) ↔ Ascii text := by
  have strings := fits_strings [front, text, back] (by
    simp [utf8Valid_ascii front front_, utf8Valid_ascii back back_, valid])
  simpa [front_, back_] using strings

private theorem fits_header (address : Bytes) (valid : utf8Valid address = true) :
    Fits (pageHeader address) ↔ Ascii address := by
  have back : Ascii (ascii "</title></head><body>" ++
      (ascii "<table border=1 cellspacing=0 cellspacing=0><tr><td>" ++
      (ascii "<table border=0 cellpadding=3 cellspacing=10><tr>" ++ (ascii "<td>&nbsp;</td>" ++
      (ascii "<td>Sender</td>" ++ (ascii "<td>Recipient</td>" ++ (ascii "<td>Subject</td>" ++
      (ascii "<td>Size (bytes)</td>" ++ (ascii "<td>Date (GMT)</td>" ++
      (ascii "<td>Remote</td>" ++ ascii "</tr>\r\n")))))))))) := by
    repeat' apply Ascii.append
    all_goals decide
  rw [← fits_between (ascii "<html><head><title>") address _ (by decide) back valid]
  simp only [pageHeader, List.append_assoc]

private theorem fits_viewPage (address text : Bytes) (valid : utf8Valid address = true)
    (valid' : utf8Valid text = true) :
    Fits (viewPage address text) ↔ Ascii address ∧ Ascii text := by
  have middle : Ascii (ascii "</title></head><body>" ++
      (ascii "<table border=1 cellspacing=0 cellspacing=0><tr><td>" ++
      ascii "<table border=0 cellpadding=3 cellspacing=10><tr><td><pre>")) := by
    repeat' apply Ascii.append
    all_goals decide
  -- both texts stand between two ASCII ones
  have strings := fits_between (ascii "<html><head><title>")
    (address ++ (ascii "</title></head><body>" ++
      (ascii "<table border=1 cellspacing=0 cellspacing=0><tr><td>" ++
      ascii "<table border=0 cellpadding=3 cellspacing=10><tr><td><pre>")) ++ text)
    (ascii "</pre></td></tr></table>\r\n" ++ (ascii "</td></tr></table>\r\n" ++
      ascii "</body></html>\r\n")) (by decide) (by decide)
    (utf8From_append (utf8From_append valid (utf8Valid_ascii _ middle)) valid')
  have whole : viewPage address text = ascii "<html><head><title>" ++
      (address ++ (ascii "</title></head><body>" ++
        (ascii "<table border=1 cellspacing=0 cellspacing=0><tr><td>" ++
        ascii "<table border=0 cellpadding=3 cellspacing=10><tr><td><pre>")) ++ text) ++
      (ascii "</pre></td></tr></table>\r\n" ++ (ascii "</td></tr></table>\r\n" ++
        ascii "</body></html>\r\n")) := by
    simp only [viewPage, List.append_assoc]
  rw [whole, strings]
  constructor
  · intro all
    exact ⟨fun b member => all b (by simp [member]), fun b member => all b (by simp [member])⟩
  · rintro ⟨address_, text_⟩
    exact (address_.append middle).append text_

private theorem parse_valid {lower : Bytes → Bytes} {filePath : Bytes} {args : List (Bytes × Bytes)}
    (parsed : parseCgiParams lower filePath = some args) :
    ∀ entry ∈ args, utf8Valid entry.2 = true := by
  have all : ∀ (pairs : List Bytes) (before after : List (Bytes × Bytes)),
      (∀ entry ∈ before, utf8Valid entry.2 = true) →
      pairs.foldlM (enterPair lower) before = some after →
      ∀ entry ∈ after, utf8Valid entry.2 = true := by
    intro pairs
    induction pairs with
    | nil =>
      intro before after valid same
      obtain rfl := Option.some.inj same
      exact valid
    | cons pair pairs ih =>
      intro before after valid parsed
      obtain ⟨next, entered, later⟩ := Option.bind_eq_some_iff.mp parsed
      refine ih next after ?_ later
      unfold enterPair at entered
      split at entered
      next name value =>
        -- a value that is entered was made a string
        obtain ⟨text, unescaped, rfl⟩ := Option.map_eq_some_iff.mp entered
        obtain ⟨bytes, -, string⟩ := Option.bind_eq_some_iff.mp unescaped
        intro entry member
        rcases List.mem_cons.mp member with rfl | old
        · obtain ⟨ok, rfl⟩ := stringWithUtf8_some string
          exact ok
        · exact valid entry (List.mem_of_mem_filter old)
      · obtain rfl := Option.some.inj entered
        exact valid
  exact all _ [] args nofun parsed

/-- The address a view shows is a string. -/
private theorem viewRequest_valid {lower : Bytes → Bytes} {filePath address socketId serial : Bytes}
    {path : Option Bytes} (view : viewRequest lower filePath = .mail address socketId serial path) :
    utf8Valid address = true := by
  unfold viewRequest at view
  split at view
  · cases view
  next args parsed =>
    split at view
    next address' socketId' serial' split_ =>
      cases view
      obtain ⟨text, found, parts_⟩ := Option.map_eq_some_iff.mp split_
      have valid : utf8Valid text = true := by
        obtain ⟨before, after, rfl, -⟩ := List.lookup_eq_some_iff.mp found
        exact parse_valid parsed (ascii "e", text) (by simp)
      obtain ⟨-, rest, rfl, -⟩ := parts_first underscore parts_ nofun
      exact (utf8From_front le_rfl (by decide) valid).1
    · cases view

/-- A response of one text, with nothing called. -/
private theorem assembled_text (text : Bytes) (done : Bool) (calls : List (Option SMEmail))
    (behind : calls = [] ∨ ∃ emails : List SMEmail, calls = emails.map some ++ [none] ∧
      ∀ email ∈ emails, Unicode email)
    (ends : done = true → closingTags <:+ text ∧ calls = []) :
    Assembled ⟨⟨⟨true, clip text, 0, done, 0, 0⟩, calls, []⟩, [text]⟩ where
  buffer := by simp
  data := rfl
  offset := Nat.zero_le _
  connection := rfl
  calls := behind
  closed := by
    intro finished
    obtain ⟨tags, missing⟩ := ends finished
    exact ⟨by simpa using tags, Or.inl missing⟩

theorem ascii_invalidView (reason : Bytes) (ascii_ : Ascii reason) : Ascii (invalidView reason) := by
  unfold invalidView
  refine Ascii.append (Ascii.append ?_ ascii_) ?_
  all_goals decide

/-- Of a mail, the address and the data of its file have to be ASCII. -/
theorem asciiStart_mail {lower : Bytes → Bytes} {files : Bytes → Option Bytes} {filePath : Bytes}
    {address socketId serial : Bytes} {path : Option Bytes}
    (view : viewRequest lower filePath = .mail address socketId serial path) :
    (Request.view filePath).AsciiStart lower files ↔
      ∀ data, path.bind files = some data → data.length ≠ 0 → Ascii address ∧ Ascii data := by
  constructor
  · intro all data
    exact all address socketId serial path data view
  · intro all address' socketId' serial' path' data same
    rw [view] at same
    cases same
    exact all data

/-- The text of a view ends with the closing tags, and is whole exactly if what it shows is
ASCII. -/
theorem viewText_fits {lower : Bytes → Bytes} {files : Bytes → Option Bytes} {filePath text : Bytes}
    (built : viewText lower files filePath = some text) :
    closingTags <:+ text ∧ (Fits text ↔ (Request.view filePath).AsciiStart lower files) := by
  have invalid : ∀ reason, Ascii reason →
      closingTags <:+ invalidView reason ∧ Fits (invalidView reason) := fun reason ascii_ =>
    ⟨⟨_, rfl⟩, fits_of_ascii _ (ascii_invalidView reason ascii_)⟩
  unfold viewText at built
  cases view : viewRequest lower filePath with
  | raised =>
    rw [view] at built
    cases built
  | invalid =>
    rw [view] at built
    obtain rfl := Option.some.inj built
    obtain ⟨tags, fits⟩ := invalid (ascii "Not a valid request. [101]") (by decide)
    refine ⟨tags, iff_of_true fits ?_⟩
    intro address socketId serial path data other
    rw [view] at other
    cases other
  | mail address socketId serial path =>
    rw [view] at built
    obtain ⟨tags, fits⟩ := invalid (ascii "Not a valid request. [102]") (by decide)
    rw [asciiStart_mail view]
    dsimp only at built
    cases found : path.bind files with
    | none =>
      rw [found] at built
      obtain rfl := Option.some.inj built
      exact ⟨tags, iff_of_true fits nofun⟩
    | some data =>
      rw [found] at built
      simp only [Option.some.injEq, forall_eq']
      dsimp only at built
      split at built
      next nothing =>
        obtain rfl := Option.some.inj built
        exact ⟨tags, iff_of_true fits fun present => absurd nothing present⟩
      next present =>
        obtain ⟨shown, string, rfl⟩ := Option.map_eq_some_iff.mp built
        -- only the page of a mail has texts of the request in it
        obtain ⟨valid, rfl⟩ := stringWithUtf8_some string
        rw [fits_viewPage address data (viewRequest_valid view) valid]
        exact ⟨⟨_, rfl⟩, fun both _ => both, fun all => all present⟩

theorem start_assembled {lower : Bytes → Bytes} {files : Bytes → Option Bytes} {request : Request}
    {start : Served} (unicode : request.Unicode) (opens : request.start lower files = some start) :
    Assembled start ∧ (Entire start ↔ request.AsciiStart lower files) := by
  cases request with
  | search address emails =>
    obtain ⟨valid, mails⟩ := unicode
    obtain rfl := Option.some.inj opens
    -- without an address the page is built at once
    by_cases nothing : utf16Length address = 0
    · have tags : closingTags <:+ invalidPage := ⟨_, rfl⟩
      have assembled := assembled_text invalidPage true [] (Or.inl rfl) fun _ => ⟨tags, rfl⟩
      simp only [searchResponse, nothing, if_true]
      refine ⟨assembled, ?_⟩
      rw [entire_iff assembled, units_zero address valid nothing]
      have fits : Fits invalidPage := fits_of_ascii invalidPage (by decide)
      exact iff_of_true (List.forall_mem_singleton.mpr fits) (List.forall_mem_nil _)
    · have assembled := assembled_text (pageHeader address) false (emails.map some ++ [none])
        (Or.inr ⟨emails, rfl, mails⟩) fun done => absurd done Bool.false_ne_true
      simp only [searchResponse, nothing, if_false]
      refine ⟨assembled, ?_⟩
      rw [entire_iff assembled, List.forall_mem_singleton]
      exact fits_header address valid
  | view filePath =>
    obtain ⟨text, built, rfl⟩ := Option.map_eq_some_iff.mp opens
    obtain ⟨tags, fits⟩ := viewText_fits built
    have assembled := assembled_text text true [] (Or.inl rfl) fun _ => ⟨tags, rfl⟩
    refine ⟨assembled, ?_⟩
    rw [← fits, ← List.forall_mem_singleton (p := Fits)]
    exact entire_iff assembled

/-- A response stays entire, however it is called and read, exactly if the texts it is built of
are ASCII. -/
theorem entire_iff_ascii (lower : Bytes → Bytes) (files : Bytes → Option Bytes) (request : Request)
    (start : Served) (unicode : request.Unicode) (opens : request.start lower files = some start)
    (steps : List PageStep) :
    Always Served.step Entire start steps ↔
      request.AsciiStart lower files ∧ Each Served.step AsciiStep start steps := by
  obtain ⟨assembled, entire⟩ := start_assembled unicode opens
  have keeps : ∀ p label, Assembled p → Assembled (p.step label) := fun p label kept =>
    (step_entire kept label).1
  have exactly : ∀ p label, Assembled p → Entire p → (Entire (p.step label) ↔ AsciiStep p label) :=
    fun p label kept => (step_entire kept label).2
  constructor
  · intro always
    have here := always_start Served.step always
    exact ⟨entire.mp here, (always_iff_each Served.step keeps exactly assembled here steps).mp always⟩
  · rintro ⟨ascii_, each⟩
    have here := entire.mpr ascii_
    exact (always_iff_each Served.step keeps exactly assembled here steps).mpr each

/-- A mail for `a`. -/
def greeting : SMEmail :=
  { SMEmail.init (ascii "20120807120000000-001.002.003.004-00025") (ascii "000001")
      (some (ascii "b")) with
    recipients := [ascii "a"]
    headers := [(ascii "subject", .one (ascii "hi"))] }

private theorem greeting_unicode : Unicode greeting where
  socketId := rfl
  serial := rfl
  recipients := List.forall_mem_singleton.mpr rfl
  sender := by
    rintro sender ⟨⟩
    rfl
  subject := by
    rintro subject ⟨⟩
    rfl

/-- The search for `a` that gives the mail. -/
def greeted : Served :=
  ⟨⟨searchResponse (ascii "a"), [some greeting, none], []⟩, [pageHeader (ascii "a")]⟩

private theorem greeted_calls :
    (greeted.step (.send 100)).serving.calls = [some greeting, none] ∧
      (((greeted.step (.send 100)).step .call).step (.send 100)).serving.calls = [none] := by
  decide +kernel

/-- The page is read while its row is made, and behind it. -/
theorem entire_iff_ascii_row :
    Always Served.step Entire greeted [.send 100, .call, .send 100, .call, .send 900] := by
  have unicode : (Request.search (ascii "a") [greeting]).Unicode :=
    ⟨by decide, List.forall_mem_singleton.mpr greeting_unicode⟩
  have address : (Request.search (ascii "a") [greeting]).AsciiStart id fun _ => none :=
    (by decide : Ascii (ascii "a"))
  have row : AsciiStep (greeted.step (.send 100)) .call := by
    intro email left found _ texts read
    rw [greeted_calls.1] at found
    obtain rfl := Option.some.inj (List.cons.inj found).1
    obtain rfl := Option.some.inj read
    decide +kernel
  have last : AsciiStep (((greeted.step (.send 100)).step .call).step (.send 100)) .call := by
    intro email left found
    rw [greeted_calls.2] at found
    cases (List.cons.inj found).1
  exact (entire_iff_ascii id (fun _ => none) _ greeted unicode rfl
    [.send 100, .call, .send 100, .call, .send 900]).mpr
    ⟨address, trivial, row, trivial, last, trivial, trivial⟩

/-- The header for an address of one letter `ü` loses its last byte. -/
theorem header_cut : utf8Valid [0xC3, 0xBC] = true ∧
    ¬ Always Served.step Entire
      ⟨⟨searchResponse [0xC3, 0xBC], [none], []⟩, [pageHeader [0xC3, 0xBC]]⟩ [.call, .send 1000] := by
  refine ⟨by decide, ?_⟩
  intro always
  have buffer := (always_start Served.step always).buffer
  have shorter := congrArg List.length buffer
  revert shorter
  decide +kernel

end Spamass.Web
