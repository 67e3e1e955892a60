import Mathlib.Data.List.Basic

/-!
# Runs of a labelled machine

A machine takes one step per label. A property may be asked of every state a run
reaches, or of every step it takes; when each step keeps the property exactly if it
meets a condition, the two agree over whole runs.
-/
namespace Spamass.Runs

section Machine

variable {σ α : Type} (step : σ → α → σ)

def run (s : σ) (labels : List α) : σ := labels.foldl step s

/-- The property holds in every state the run goes through. -/
def Always (holds : σ → Prop) : σ → List α → Prop
  | s, [] => holds s
  | s, label :: labels => holds s ∧ Always holds (step s label) labels

/-- Every step of the run meets the condition in the state it starts from. -/
def Each (meets : σ → α → Prop) : σ → List α → Prop
  | _, [] => True
  | s, label :: labels => meets s label ∧ Each meets (step s label) labels

theorem each_append (meets : σ → α → Prop) (s : σ) (xs ys : List α) :
    Each step meets s (xs ++ ys) ↔
      Each step meets s xs ∧ Each step meets (run step s xs) ys := by
  induction xs generalizing s with
  | nil => exact ⟨fun later => ⟨trivial, later⟩, And.right⟩
  | cons label xs ih =>
    rw [List.cons_append, Each, Each, ih, and_assoc]
    rfl

theorem run_append (s : σ) (xs ys : List α) :
    run step s (xs ++ ys) = run step (run step s xs) ys := List.foldl_append

/-- Labels that meet the condition in every state. -/
theorem each_always {meets : σ → α → Prop} (labels : List α)
    (met : ∀ label ∈ labels, ∀ s, meets s label) (s : σ) : Each step meets s labels := by
  induction labels generalizing s with
  | nil => trivial
  | cons label labels ih =>
    exact ⟨met label (List.mem_cons_self ..) s,
      ih (fun later member => met later (List.mem_cons_of_mem _ member)) _⟩

theorem each_iff_forall {meets : α → Prop} (s : σ) (labels : List α) :
    Each step (fun _ label => meets label) s labels ↔ ∀ label ∈ labels, meets label := by
  induction labels generalizing s with
  | nil => exact iff_of_true trivial (List.forall_mem_nil _)
  | cons label labels ih => rw [Each, ih, List.forall_mem_cons]

theorem always_start {holds : σ → Prop} {s : σ} {labels : List α}
    (always : Always step holds s labels) : holds s := by
  cases labels with
  | nil => exact always
  | cons label labels => exact always.1

/-- A property that every step keeps holds throughout. -/
theorem always_kept {holds : σ → Prop} (keeps : ∀ s label, holds s → holds (step s label)) {s : σ}
    (start : holds s) (labels : List α) : Always step holds s labels := by
  induction labels generalizing s with
  | nil => exact start
  | cons label labels ih => exact ⟨start, ih (keeps s label start)⟩

/-- A property that the steps keep which meet a condition holds throughout a run of such steps. -/
theorem always_under {holds : σ → Prop} {condition : σ → α → Prop}
    (keeps : ∀ s label, holds s → condition s label → holds (step s label)) {s : σ}
    (start : holds s) {labels : List α} (each : Each step condition s labels) :
    Always step holds s labels := by
  induction labels generalizing s with
  | nil => exact start
  | cons label labels ih => exact ⟨start, ih (keeps s label start each.1) each.2⟩

theorem each_congr {left right : σ → α → Prop} (agree : ∀ s label, left s label ↔ right s label)
    (s : σ) (labels : List α) : Each step left s labels ↔ Each step right s labels := by
  induction labels generalizing s with
  | nil => exact Iff.rfl
  | cons label labels ih => exact and_congr (agree s label) (ih (step s label))

/-- Where the steps that meet a condition keep an invariant, what they meet under it they meet in
every run that meets the condition. -/
theorem each_under {inv : σ → Prop} {condition meets : σ → α → Prop}
    (keeps : ∀ s label, inv s → condition s label → inv (step s label) ∧ meets s label) {s : σ}
    (start : inv s) {labels : List α} (each : Each step condition s labels) :
    Each step meets s labels := by
  induction labels generalizing s with
  | nil => trivial
  | cons label labels ih =>
    have one := keeps s label start each.1
    exact ⟨one.2, ih one.1 each.2⟩

/-- Steps that keep an invariant and meet a condition under it meet it throughout. -/
theorem each_kept {inv : σ → Prop} {meets : σ → α → Prop}
    (keeps : ∀ s label, inv s → inv (step s label) ∧ meets s label) {s : σ} (start : inv s)
    (labels : List α) : Each step meets s labels := by
  have free : Each step (fun _ _ => True) s labels :=
    each_always step labels (fun _ _ _ => trivial) s
  exact each_under step (fun s label holds _ => keeps s label holds) start free

theorem always_run {holds : σ → Prop} {s : σ} {labels : List α}
    (always : Always step holds s labels) : holds (run step s labels) := by
  induction labels generalizing s with
  | nil => exact always
  | cons label labels ih => exact ih always.2

theorem always_mono {holds weaker : σ → Prop} (implies : ∀ s, holds s → weaker s) {s : σ}
    {labels : List α} (always : Always step holds s labels) : Always step weaker s labels := by
  induction labels generalizing s with
  | nil => exact implies s always
  | cons label labels ih => exact ⟨implies s always.1, ih always.2⟩

/-- Under an invariant, a property that each step keeps exactly on a condition holds throughout
exactly if every step meets the condition. -/
theorem always_iff_each {inv holds : σ → Prop} {meets : σ → α → Prop}
    (keeps : ∀ s label, inv s → inv (step s label))
    (exactly : ∀ s label, inv s → holds s → (holds (step s label) ↔ meets s label)) {s : σ}
    (start : inv s) (here : holds s) (labels : List α) :
    Always step holds s labels ↔ Each step meets s labels := by
  induction labels generalizing s with
  | nil => exact iff_of_true here trivial
  | cons label labels ih =>
    have one := exactly s label start here
    constructor
    · rintro ⟨-, later⟩
      have there := always_start step later
      exact ⟨one.mp there, (ih (keeps s label start) there).mp later⟩
    · rintro ⟨met, later⟩
      have there := one.mpr met
      exact ⟨here, (ih (keeps s label start) there).mpr later⟩

/-- Properties that agree under an invariant agree throughout. -/
theorem always_congr {inv left right : σ → Prop}
    (keeps : ∀ s label, inv s → inv (step s label))
    (agree : ∀ s, inv s → (left s ↔ right s)) {s : σ} (start : inv s) (labels : List α) :
    Always step left s labels ↔ Always step right s labels := by
  induction labels generalizing s with
  | nil => exact agree s start
  | cons label labels ih => exact and_congr (agree s start) (ih (keeps s label start))

end Machine

section Failing

variable {σ α : Type} (step : σ → α → Option σ)

/-- A step that may fail, continued where it does by staying. -/
def staying (s : σ) (label : α) : σ := (step s label).getD s

/-- A run of steps that may fail succeeds exactly if every step does. -/
theorem foldlM_isSome_iff {succeeds : σ → α → Prop}
    (one : ∀ s label, (step s label).isSome = true ↔ succeeds s label) (s : σ) (labels : List α) :
    (labels.foldlM step s).isSome = true ↔ Each (staying step) succeeds s labels := by
  induction labels generalizing s with
  | nil => exact iff_of_true rfl trivial
  | cons label labels ih =>
    rw [List.foldlM_cons, Each, ← one s label]
    cases next : step s label with
    | none => exact iff_of_false nofun fun both => nomatch both.1
    | some t =>
      have stays : staying step s label = t := by rw [staying, next, Option.getD_some]
      rw [stays]
      exact (ih t).trans (and_iff_right rfl).symm

end Failing

end Spamass.Runs
