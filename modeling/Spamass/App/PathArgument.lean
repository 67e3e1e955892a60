import Spamass.App.Mail
import Spamass.Emailz.ReadCommand

/-!
# MAIL and RCPT arguments

An argument is cut at the characters a path does not have, and the first piece that is
not empty, or each of them, is taken for a path. The brackets are not looked at, so that
what is taken depends on everything else in the argument.
-/
namespace Spamass.App

open Spamass.Emailz

def lessThan : UInt8 := 60
def greaterThan : UInt8 := 62

/-- The argument of MAIL or RCPT, as a client writes it: the keyword in any case, spaces, a path
in angle brackets, and parameters with a space or more in front of each. -/
structure PathArgument (keyword : Bytes) where
  word : Bytes
  anyCase : word.map toupper = keyword
  spaces : Nat
  path : Bytes
  plain : ∀ b ∈ path, emailSplitSet b = false
  -- the spaces besides the first one, and the parameter
  parameters : List (Nat × Bytes)
  separate : ∀ entry ∈ parameters, entry.2 ≠ [] ∧ ∀ b ∈ entry.2, b ≠ space ∧ b ≠ cr ∧ b ≠ lf

def parametersText (parameters : List (Nat × Bytes)) : Bytes :=
  parameters.flatMap fun entry => List.replicate (entry.1 + 1) space ++ entry.2

/-- What follows the keyword. -/
def PathArgument.rest {keyword : Bytes} (a : PathArgument keyword) : Bytes :=
  List.replicate a.spaces space ++
    lessThan :: (a.path ++ greaterThan :: (parametersText a.parameters ++ [cr, lf]))

def PathArgument.text {keyword : Bytes} (a : PathArgument keyword) : Bytes := a.word ++ a.rest

/-- All parameters are made of brackets and commas. -/
def PathArgument.Bare {keyword : Bytes} (a : PathArgument keyword) : Prop :=
  ∀ entry ∈ a.parameters, ∀ b ∈ entry.2, emailSplitSet b = true

/-! ### Pieces -/

/-- A text that begins with a separator, or is empty. -/
def Separated (text : Bytes) : Prop := ∀ b ∈ text.head?, emailSplitSet b = true

theorem addresses_mark (front back : Bytes) {mark : UInt8} (separator : emailSplitSet mark = true) :
    addresses (front ++ mark :: back) = addresses front ++ addresses back := by
  rw [addresses, componentsInSet, List.splitOnP_append_cons front back separator, List.filter_append]
  rfl

private theorem addresses_nil : addresses [] = [] := rfl

theorem addresses_skip (back : Bytes) {mark : UInt8} (separator : emailSplitSet mark = true) :
    addresses (mark :: back) = addresses back := addresses_mark [] back separator

private theorem addresses_append (front back : Bytes) (separated : Separated back) :
    addresses (front ++ back) = addresses front ++ addresses back := by
  cases back with
  | nil => simp [addresses_nil]
  | cons mark back =>
    have separator := separated mark rfl
    rw [addresses_mark front back separator, addresses_skip back separator]

private theorem addresses_plain (part : Bytes) (plain : ∀ b ∈ part, emailSplitSet b = false) :
    addresses part = if part = [] then [] else [part] := by
  rw [addresses, components_one plain]
  cases part <;> simp

private theorem addresses_spaces (count : Nat) (back : Bytes) :
    addresses (List.replicate count space ++ back) = addresses back := by
  induction count with
  | zero => rfl
  | succ count ih =>
    rw [List.replicate_succ, List.cons_append, addresses_skip _ (by decide), ih]

/-- A text without pieces is made of separators. -/
private theorem addresses_eq_nil (text : Bytes) :
    addresses text = [] ↔ ∀ b ∈ text, emailSplitSet b = true := by
  induction text with
  | nil => exact iff_of_true rfl (List.forall_mem_nil _)
  | cons b text ih =>
    rw [List.forall_mem_cons]
    by_cases separator : emailSplitSet b = true
    · rw [addresses_skip text separator, ih]
      exact (and_iff_right separator).symm
    · refine iff_of_false ?_ fun both => separator both.1
      rw [addresses, componentsInSet, List.splitOnP_cons_eq_if_modifyHead, if_neg separator]
      -- the first piece has the byte in it
      obtain ⟨first, others, split_⟩ := List.exists_cons_of_ne_nil
        (List.splitOnP_ne_nil emailSplitSet text)
      rw [split_]
      simp

private theorem parametersText_separated (parameters : List (Nat × Bytes)) :
    Separated (parametersText parameters ++ [cr, lf]) := by
  intro b member
  cases parameters with
  | nil =>
    obtain rfl := Option.some.inj member
    decide
  | cons entry parameters =>
    obtain rfl := Option.some.inj member
    decide

private theorem addresses_parameters (parameters : List (Nat × Bytes)) :
    addresses (parametersText parameters ++ [cr, lf]) =
      parameters.flatMap fun entry => addresses entry.2 := by
  induction parameters with
  | nil => decide
  | cons entry parameters ih =>
    have text : parametersText (entry :: parameters) ++ [cr, lf] =
        List.replicate (entry.1 + 1) space ++
          (entry.2 ++ (parametersText parameters ++ [cr, lf])) := by
      simp [parametersText]
    rw [text, addresses_spaces, addresses_append _ _ (parametersText_separated parameters), ih,
      List.flatMap_cons]

section Argument

variable {keyword : Bytes} (a : PathArgument keyword)

private theorem PathArgument.rest_separated : Separated a.rest := by
  intro b member
  unfold PathArgument.rest at member
  cases spaces : a.spaces with
  | zero =>
    rw [spaces] at member
    obtain rfl := Option.some.inj member
    decide
  | succ count =>
    rw [spaces] at member
    obtain rfl := Option.some.inj member
    decide

/-- The pieces behind the keyword: the path, and those of the parameters. -/
private theorem PathArgument.addresses_rest :
    addresses a.rest = (if a.path = [] then [] else [a.path]) ++
      a.parameters.flatMap fun entry => addresses entry.2 := by
  rw [PathArgument.rest, addresses_spaces, addresses_skip _ (by decide),
    addresses_mark a.path _ (by decide), addresses_plain a.path a.plain, addresses_parameters]

private theorem PathArgument.bare_iff :
    (a.parameters.flatMap fun entry => addresses entry.2) = [] ↔ a.Bare := by
  rw [List.flatMap_eq_nil_iff, PathArgument.Bare]
  exact forall₂_congr fun entry _ => addresses_eq_nil entry.2

/-- A separator is no letter. -/
theorem toupper_separator {b : UInt8} (separator : emailSplitSet b = true) : toupper b = b := by
  have each : ∀ n : Fin 256, emailSplitSet (UInt8.ofFin n) = true →
      toupper (UInt8.ofFin n) = UInt8.ofFin n := by
    decide +kernel
  exact each b.toFin separator

private theorem PathArgument.word_plain (whole : ∀ b ∈ keyword, emailSplitSet b = false) :
    ∀ b ∈ a.word, emailSplitSet b = false := by
  intro b member
  by_contra separator
  rw [Bool.not_eq_false] at separator
  have upper : toupper b ∈ keyword := a.anyCase ▸ List.mem_map_of_mem member
  rw [toupper_separator separator] at upper
  rw [whole b upper] at separator
  cases separator

/-- The keyword is dropped if it was sent in upper case. -/
private theorem PathArgument.behind_text (present : keyword ≠ []) :
    behind keyword a.text = if a.word = keyword then a.rest else a.text := by
  have length := congrArg List.length a.anyCase
  rw [List.length_map] at length
  have starts : hasPrefix a.text keyword = true ↔ a.word = keyword := by
    rw [hasPrefix, Bool.and_eq_true, List.isPrefixOf_iff_prefix, PathArgument.text]
    constructor
    · rintro ⟨-, rest, same⟩
      exact (List.append_inj same length.symm).1.symm
    · intro same
      rw [same]
      exact ⟨by simpa using present, List.prefix_append _ _⟩
  unfold behind
  simp only [starts]
  split
  next same => rw [PathArgument.text, same, List.drop_left]
  · rfl

/-- The pieces of the argument, as both handlers see them. -/
private theorem PathArgument.addresses_behind (present : keyword ≠ [])
    (whole : ∀ b ∈ keyword, emailSplitSet b = false) :
    addresses (behind keyword a.text) = (if a.word = keyword then [] else [a.word]) ++
      addresses a.rest := by
  rw [a.behind_text present]
  split
  · rfl
  · have filled : a.word ≠ [] := by
      intro empty
      have upper := a.anyCase
      rw [empty] at upper
      exact present upper.symm
    rw [PathArgument.text, addresses_append _ _ a.rest_separated,
      addresses_plain _ (a.word_plain whole), if_neg filled]

end Argument

/-! ### The handlers -/

/-- The sender after `handleFrom:withSocket:`. -/
def senderAfter (arg : Bytes) (socket : SMSocket) : Option Bytes :=
  (handleFrom (some arg) socket).email.bind SMEmail.sender

def recipientList (socket : SMSocket) : Option (List Bytes) := socket.email.map SMEmail.recipients

private theorem senderAfter_eq (a : PathArgument (ascii "FROM:")) (socket : SMSocket) :
    senderAfter a.text socket =
      ((if a.word = ascii "FROM:" then [] else [a.word]) ++ addresses a.rest).head? := by
  rw [← a.addresses_behind (by decide) (by decide +kernel)]
  rfl

private theorem recipientsAfter_eq (a : PathArgument (ascii "TO:")) (socket : SMSocket) :
    recipientList (handleRcpt (some a.text) socket) = (recipientList socket).map fun recipients =>
      recipients ++ ((if a.word = ascii "TO:" then [] else [a.word]) ++ addresses a.rest) := by
  rw [← a.addresses_behind (by decide) (by decide +kernel)]
  simp only [recipientList, handleRcpt, recipientsIn, Option.map_map]
  rfl

/-- The sender is the path exactly if MAIL came with its keyword in upper case and a path, or
nothing else to take for one; the one recipient is the path exactly if RCPT came to a mail, with
its keyword in upper case and without parameters to take for recipients. -/
theorem paths_iff (socket : SMSocket) :
    (∀ a : PathArgument (ascii "FROM:"),
      (senderAfter a.text socket = if a.path = [] then none else some a.path) ↔
        if a.word = ascii "FROM:" then a.path ≠ [] ∨ a.Bare else a.path = a.word) ∧
    ∀ a : PathArgument (ascii "TO:"), a.path ≠ [] →
      ((∃ recipients, recipientList socket = some recipients ∧
          recipientList (handleRcpt (some a.text) socket) = some (recipients ++ [a.path])) ↔
        socket.email.isSome = true ∧ a.word = ascii "TO:" ∧ a.Bare) := by
  constructor
  · intro a
    rw [senderAfter_eq, a.addresses_rest, ← a.bare_iff]
    by_cases upper : a.word = ascii "FROM:"
    · rw [if_pos upper, if_pos upper, List.nil_append]
      by_cases empty : a.path = []
      · simp [empty]
      · simp [empty]
    · have filled : a.word ≠ [] := by
        intro missing
        have upper := a.anyCase
        rw [missing] at upper
        cases upper
      rw [if_neg upper, if_neg upper]
      by_cases empty : a.path = []
      · simp [empty, filled.symm]
      · simp [empty, eq_comm]
  · intro a present
    rw [recipientsAfter_eq, a.addresses_rest, if_neg present, ← a.bare_iff]
    cases email : socket.email with
    | none => simp [recipientList, email]
    | some before =>
      by_cases upper : a.word = ascii "TO:"
      · simp [recipientList, email, upper]
      · simp [recipientList, email, upper]

/-- The size of a mail with a null sender is taken for its sender, and a keyword in lower case for
a recipient. -/
theorem paths_mistaken :
    (∃ a : PathArgument (ascii "FROM:"), a.text = ascii "FROM:<> SIZE=10\r\n" ∧ a.path = [] ∧
      senderAfter a.text (SMSocket.init []) = some (ascii "SIZE=10")) ∧
    ∃ a : PathArgument (ascii "TO:"), a.text = ascii "to:<a@b.c>\r\n" ∧ a.path = ascii "a@b.c" ∧
      recipientList (handleRcpt (some a.text) (handleFrom none (SMSocket.init []))) =
        some [ascii "to:", ascii "a@b.c"] := by
  constructor
  · refine ⟨⟨ascii "FROM:", rfl, 0, [], List.forall_mem_nil _, [(0, ascii "SIZE=10")], ?_⟩, ?_⟩
    all_goals decide +kernel
  · refine ⟨⟨ascii "to:", rfl, 0, ascii "a@b.c", ?_, [], List.forall_mem_nil _⟩, ?_⟩
    all_goals decide +kernel

end Spamass.App
