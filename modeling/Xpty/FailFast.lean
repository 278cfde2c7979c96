import Mathlib.Data.List.Basic

/- Programs that are a sequence of steps, each of which edits the state and then
   succeeds or fails, and that stop at the first failure. Over any state and error
   type: what such a program returns, and which of its steps have left their mark on
   the state when it does. -/
namespace FailFast

variable {σ ε : Type}

structure Step (σ ε : Type) where
  edit : σ → σ
  result : Except ε Unit

/-- A step that leaves the state as it is. -/
def call (result : Except ε Unit) : Step σ ε := { edit := id, result }

/-- A step that cannot fail. -/
def update (edit : σ → σ) : Step σ ε := { edit, result := .ok () }

def Step.perform (step : Step σ ε) : EStateM ε σ Unit := do
  modify step.edit
  match step.result with
  | .ok () => pure ()
  | .error e => throw e

def performAll : List (Step σ ε) → EStateM ε σ Unit
  | [] => pure ()
  | step :: steps => do
    step.perform
    performAll steps

def Step.failure (step : Step σ ε) : Option ε :=
  match step.result with
  | .ok () => none
  | .error e => some e

/-- The error of the first step that fails. -/
def failure (steps : List (Step σ ε)) : Option ε := steps.findSome? Step.failure

/-- The steps that are performed: those up to the first that fails. -/
def performed : List (Step σ ε) → List (Step σ ε)
  | [] => []
  | step :: steps =>
    match step.result with
    | .ok () => step :: performed steps
    | .error _ => [step]

/-- The state after the edits of all the steps. -/
def edits (steps : List (Step σ ε)) (st : σ) : σ := steps.foldl (fun st step => step.edit st) st

theorem performAll_append : ∀ (as bs : List (Step σ ε)),
    performAll (as ++ bs) = do performAll as; performAll bs
  | [], bs => by simp [performAll]
  | a :: as, bs => by simp [performAll, performAll_append as bs]

theorem perform_update (edit : σ → σ) : (update edit : Step σ ε).perform = modify edit := by
  simp [update, Step.perform]

/-- What the program does: it leaves the edits of the steps it performed, and its
result is the first failure. -/
theorem run_performAll : ∀ (steps : List (Step σ ε)) (st : σ), (performAll steps).run st =
    match failure steps with
    | none => .ok () (edits (performed steps) st)
    | some e => .error e (edits (performed steps) st)
  | [], st => rfl
  | step :: steps, st => by
    have ih := run_performAll steps (step.edit st)
    simp only [performAll, Step.perform, EStateM.run_bind, EStateM.run_modify, failure,
      List.findSome?_cons, Step.failure, performed]
    cases h : step.result with
    | ok u => exact ih
    | error e => rfl

theorem failure_eq_none {steps : List (Step σ ε)} :
    failure steps = none ↔ ∀ step ∈ steps, step.result = .ok () := by
  simp only [failure, List.findSome?_eq_none_iff]
  refine forall₂_congr fun step _ => ?_
  cases h : step.result with
  | ok u => exact iff_of_true (by rw [Step.failure, h]) rfl
  | error e => simp [Step.failure, h]

/-- What follows steps that all succeed is performed. -/
theorem performed_append_of_ok : ∀ {as bs : List (Step σ ε)}, (∀ step ∈ as, step.result = .ok ()) →
    performed (as ++ bs) = as ++ performed bs
  | [], _, _ => rfl
  | a :: as, bs, h => by
    rw [List.cons_append, performed, h a (by simp),
      performed_append_of_ok fun s hs => h s (by simp [hs]), List.cons_append]

/-- What follows a step that fails is not. -/
theorem performed_append_of_failed : ∀ {as bs : List (Step σ ε)},
    (∃ step ∈ as, step.result ≠ .ok ()) → performed (as ++ bs) = performed as
  | a :: as, bs, ⟨step, hmem, hfail⟩ => by
    simp only [List.cons_append, performed]
    cases h : a.result with
    | error e => rfl
    | ok u =>
      have htail : step ∈ as := by
        rcases List.mem_cons.mp hmem with rfl | htail
        · exact absurd h hfail
        · exact htail
      dsimp only
      rw [performed_append_of_failed ⟨step, htail, hfail⟩]

theorem mem_of_mem_performed : ∀ {steps : List (Step σ ε)} {step : Step σ ε},
    step ∈ performed steps → step ∈ steps
  | s :: steps, step, h => by
    rw [performed] at h
    cases hs : s.result with
    | error e => simp_all
    | ok u =>
      rw [hs] at h
      rcases List.mem_cons.mp h with rfl | h
      · exact List.mem_cons_self
      · exact List.mem_cons_of_mem _ (mem_of_mem_performed h)

/-- A property that a step keeps under a condition of its own, and that no step
establishes, is left after the edits exactly when it held before and all conditions do. -/
theorem edits_iff {P : σ → Prop} {K : Step σ ε → Prop} : ∀ {steps : List (Step σ ε)} {st : σ},
    (∀ step ∈ steps, ∀ st, P (step.edit st) ↔ P st ∧ K step) →
    (P (edits steps st) ↔ P st ∧ ∀ step ∈ steps, K step)
  | [], st, _ => by simp [edits]
  | step :: steps, st, h => by
    have ih : P (edits steps (step.edit st)) ↔ P (step.edit st) ∧ ∀ s ∈ steps, K s :=
      edits_iff fun s hs => h s (List.mem_cons_of_mem _ hs)
    rw [edits, List.foldl_cons, ← edits, ih, h step (by simp), List.forall_mem_cons, and_assoc]

end FailFast
