import Mathlib

/-!
# Runs

The runs of a system whose steps need not be possible in every state, what holds throughout a
run or before each of its steps, and the induction over runs.
-/

namespace Relational

variable {σ α : Type*} (step : σ → α → Option σ)

/-- Take the steps one after another, where each is possible. -/
def runSteps (actions : List α) (s : σ) : Option σ := actions.foldlM step s

/-- Every state of the run, the first and the last included, satisfies `P`. -/
def Throughout (P : σ → Prop) (actions : List α) (s : σ) : Prop :=
  ∀ before after s', actions = before ++ after → runSteps step before s = some s' → P s'

/-- Before each step of the run its state and the step satisfy `P`. -/
def BeforeEach (P : σ → α → Prop) (actions : List α) (s : σ) : Prop :=
  ∀ before a after s', actions = before ++ a :: after → runSteps step before s = some s' → P s' a

variable {step} {actions : List α} {s s' : σ} {a : α}

@[simp] lemma runSteps_nil : runSteps step [] s = some s := rfl

lemma runSteps_cons : runSteps step (a :: actions) s = (step s a).bind fun s' => runSteps step actions s' := rfl

lemma runSteps_append (before after : List α) :
    runSteps step (before ++ after) s = (runSteps step before s).bind fun s' => runSteps step after s' :=
  List.foldlM_append

lemma BeforeEach.of_throughout {P : σ → Prop} (h : Throughout step P actions s) :
    BeforeEach step (fun s _ => P s) actions s :=
  fun before a after s' hsplit hrun => h before (a :: after) s' hsplit hrun

lemma BeforeEach.head {P : σ → α → Prop} (h : BeforeEach step P (a :: actions) s) : P s a :=
  h [] a actions s rfl rfl

lemma BeforeEach.tail {P : σ → α → Prop} (h : BeforeEach step P (a :: actions) s) (hstep : step s a = some s') :
    BeforeEach step P actions s' := by
  intro before b after s'' hsplit hrun
  apply h (a :: before) b after s''
  · rw [hsplit, List.cons_append]
  · rw [runSteps_cons, hstep]
    exact hrun

lemma BeforeEach.nil {P : σ → α → Prop} : BeforeEach step P [] s := by
  intro before a after s' hsplit
  simp at hsplit

lemma BeforeEach.cons {P : σ → α → Prop} (hs : P s a)
    (h : ∀ s', step s a = some s' → BeforeEach step P actions s') : BeforeEach step P (a :: actions) s := by
  intro before b after s'' hsplit hrun
  cases before with
  | nil =>
    obtain ⟨rfl, -⟩ := List.cons.inj hsplit
    obtain rfl := Option.some.inj hrun
    exact hs
  | cons c before =>
    obtain ⟨rfl, hrest⟩ := List.cons.inj hsplit
    rw [runSteps_cons] at hrun
    obtain ⟨s', hstep, hrun⟩ := Option.bind_eq_some_iff.mp hrun
    exact h s' hstep before b after s'' hrest hrun

/-- What a step keeps under a condition, a run keeps whose steps all meet the condition. -/
theorem invariant_of_beforeEach {P : σ → α → Prop} {I : σ → Prop}
    (hstep : ∀ s a s', I s → P s a → step s a = some s' → I s') (h : BeforeEach step P actions s) (hs : I s)
    (hrun : runSteps step actions s = some s') : I s' := by
  induction actions generalizing s with
  | nil =>
    obtain rfl := Option.some.inj hrun
    exact hs
  | cons a actions ih =>
    rw [runSteps_cons] at hrun
    obtain ⟨s₁, hs₁, hrun⟩ := Option.bind_eq_some_iff.mp hrun
    exact ih (h.tail hs₁) (hstep s a s₁ hs h.head hs₁) hrun

/-- What every step keeps, every run keeps. -/
theorem invariant_of_run {I : σ → Prop} (hstep : ∀ s a s', I s → step s a = some s' → I s') (hs : I s)
    (hrun : runSteps step actions s = some s') : I s' :=
  invariant_of_beforeEach (P := fun _ _ => True) (fun s a s' h _ => hstep s a s' h) (fun _ _ _ _ _ _ => trivial) hs hrun

end Relational
