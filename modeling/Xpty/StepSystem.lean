import Mathlib.Data.List.Basic

/- Deterministic step systems and their runs, over any state and action types.
   An action that is not enabled has no successor, so a run is a list of actions
   each of which was enabled where it was taken. `Along P` says that every action
   of a run was taken in a state where `P` holds of it: it is how a result is
   stated that holds only of the runs whose steps all meet a condition. `Lockstep`
   compares two runs of the same actions. -/
namespace StepSystem

variable {S A : Type} (step : S → A → Option S)

/-- The state after the actions, or `none` where one of them is not enabled. -/
def run : S → List A → Option S
  | s, [] => some s
  | s, a :: as =>
    match step s a with
    | none => none
    | some t => run t as

/-- Every action is taken in a state where `P` holds of it. -/
def Along (P : S → A → Prop) : S → List A → Prop
  | _, [] => True
  | s, a :: as =>
    P s a ∧ match step s a with
      | none => True
      | some t => Along P t as

instance {P : S → A → Prop} [∀ s a, Decidable (P s a)] :
    ∀ (as : List A) (s : S), Decidable (Along step P s as)
  | [], _ => isTrue trivial
  | a :: as, s =>
    match h : step s a with
    | none => decidable_of_iff (P s a) (by simp [Along, h])
    | some t =>
      have := instDecidableAlong (P := P) as t
      decidable_of_iff (P s a ∧ Along step P t as) (by simp [Along, h])

/-- Two runs of the same actions that stop at the same one, or that both reach the end
in states that `R` relates. -/
def Lockstep (R : S → S → Prop) : S → S → List A → Prop
  | s, t, [] => R s t
  | s, t, a :: as =>
    match step s a, step t a with
    | some s', some t' => Lockstep R s' t' as
    | none, none => True
    | _, _ => False

variable {step}

@[simp] theorem run_nil (s : S) : run step s [] = some s := rfl

theorem run_step (s : S) (a : A) (as : List A) :
    run step s (a :: as) = (step s a).bind fun t => run step t as := by
  show (match step s a with
    | none => none
    | some t => run step t as) = _
  cases step s a with
  | none => rfl
  | some t => rfl

theorem run_cons {s u : S} {a : A} {as : List A} :
    run step s (a :: as) = some u ↔ ∃ t, step s a = some t ∧ run step t as = some u := by
  rw [run_step, Option.bind_eq_some_iff]

theorem along_cons {P : S → A → Prop} {s t : S} {a : A} {as : List A} (h : step s a = some t) :
    Along step P s (a :: as) ↔ P s a ∧ Along step P t as := by
  show (P s a ∧ match step s a with
    | none => True
    | some t => Along step P t as) ↔ _
  rw [h]

theorem lockstep_cons {R : S → S → Prop} {s t : S} {a : A} {as : List A} :
    Lockstep step R s t (a :: as) ↔
      Option.Rel (fun s' t' => Lockstep step R s' t' as) (step s a) (step t a) := by
  show (match step s a, step t a with
    | some s', some t' => Lockstep step R s' t' as
    | none, none => True
    | _, _ => False) ↔ _
  cases step s a with
  | none =>
    cases step t a with
    | none => exact iff_of_true trivial .none
    | some t' => exact iff_of_false id nofun
  | some s' =>
    cases step t a with
    | none => exact iff_of_false id nofun
    | some t' =>
      refine ⟨fun h => .some h, ?_⟩
      intro h
      cases h with
      | some h => exact h

theorem run_append {s : S} (as bs : List A) :
    run step s (as ++ bs) = (run step s as).bind fun t => run step t bs := by
  induction as generalizing s with
  | nil => rfl
  | cons a as ih =>
    rw [List.cons_append, run_step, run_step, Option.bind_assoc]
    exact congrArg _ (funext fun t => ih)

theorem run_append_eq_some {s u : S} {as bs : List A} : run step s (as ++ bs) = some u ↔
    ∃ t, run step s as = some t ∧ run step t bs = some u := by
  rw [run_append, Option.bind_eq_some_iff]

/-- Along a run that reaches its end, a condition on actions alone is one on all of them. -/
theorem along_mem {Q : A → Prop} : ∀ {as : List A} {s u : S}, run step s as = some u →
    (Along step (fun _ a => Q a) s as ↔ ∀ a ∈ as, Q a)
  | [], _, _, _ => by simp [Along]
  | a :: as, s, _, h => by
    obtain ⟨t, ht, hu⟩ := run_cons.mp h
    rw [along_cons ht, along_mem hu, List.forall_mem_cons]

/-- What holds along a run holds along its continuation. -/
theorem Along.of_append {P : S → A → Prop} {t : S} {bs : List A} : ∀ {as : List A} {s : S},
    run step s as = some t → Along step P s (as ++ bs) → Along step P t bs
  | [], _, h, ha => by
    rw [run_nil, Option.some.injEq] at h
    exact h ▸ ha
  | a :: as, s, h, ha => by
    obtain ⟨u, hu, ht⟩ := run_cons.mp h
    exact Along.of_append ht ((along_cons hu).mp ha).2

/-- A condition on actions alone holds along a run of such actions. -/
theorem Along.and_mem {P : S → A → Prop} {Q : A → Prop} :
    ∀ {as : List A} {s : S}, (∀ a ∈ as, Q a) → Along step P s as →
      Along step (fun s a => Q a ∧ P s a) s as
  | [], _, _, _ => trivial
  | a :: as, s, hq, hp => by
    refine ⟨⟨hq a (by simp), hp.1⟩, ?_⟩
    cases h : step s a with
    | none => trivial
    | some t =>
      exact Along.and_mem (fun b hb => hq b (by simp [hb])) ((along_cons h).mp hp).2

/-- The step rule: an invariant kept by every step holds after every run. -/
theorem run_keeps {Inv : S → Prop} (keep : ∀ s a t, Inv s → step s a = some t → Inv t) :
    ∀ (as : List A) {s u : S}, Inv s → run step s as = some u → Inv u
  | [], _, _, hs, hr => by
    rw [run_nil, Option.some.injEq] at hr
    exact hr ▸ hs
  | a :: as, s, _, hs, hr => by
    obtain ⟨t, ht, hu⟩ := run_cons.mp hr
    exact run_keeps keep as (keep s a t hs ht) hu

/-- Conditions that agree on the steps that can be taken hold along the same runs. -/
theorem along_congr {Inv : S → Prop} {P Q : S → A → Prop}
    (keep : ∀ s a t, Inv s → step s a = some t → Inv t)
    (same : ∀ s a t, Inv s → step s a = some t → (P s a ↔ Q s a)) :
    ∀ (as : List A) {s u : S}, Inv s → run step s as = some u →
      (Along step P s as ↔ Along step Q s as)
  | [], _, _, _, _ => Iff.rfl
  | a :: as, s, _, hs, hr => by
    obtain ⟨t, ht, hu⟩ := run_cons.mp hr
    rw [along_cons ht, along_cons ht, same s a t hs ht,
      along_congr keep same as (keep s a t hs ht) hu]

/-- The step rule for runs under a condition: an invariant kept by every step
that meets `P` holds after every run whose steps all meet `P`. -/
theorem run_along {Inv : S → Prop} {P : S → A → Prop}
    (keep : ∀ s a t, Inv s → P s a → step s a = some t → Inv t) :
    ∀ (as : List A) {s u : S}, Inv s → Along step P s as → run step s as = some u → Inv u
  | [], _, _, hs, _, hr => by
    rw [run_nil, Option.some.injEq] at hr
    exact hr ▸ hs
  | a :: as, s, _, hs, ha, hr => by
    obtain ⟨t, ht, hu⟩ := run_cons.mp hr
    exact run_along keep as (keep s a t hs ha.1 ht) ((along_cons ht).mp ha).2 hu

/-- What an invariant gives of every step holds along a run. -/
theorem along_of_run_along {Inv : S → Prop} {P Q : S → A → Prop}
    (keep : ∀ s a t, Inv s → P s a → step s a = some t → Inv t)
    (gives : ∀ s a t, Inv s → P s a → step s a = some t → Q s a) :
    ∀ (as : List A) {s u : S}, Inv s → Along step P s as → run step s as = some u →
      Along step Q s as
  | [], _, _, _, _, _ => trivial
  | a :: as, s, _, hs, ha, hr => by
    obtain ⟨t, ht, hu⟩ := run_cons.mp hr
    rw [along_cons ht]
    exact ⟨gives s a t hs ha.1 ht,
      along_of_run_along keep gives as (keep s a t hs ha.1 ht) ((along_cons ht).mp ha).2 hu⟩

/-- The ranking rule: where every step under the condition lowers the rank, a run under it
has no more steps than the rank that it begins with. -/
theorem length_add_rank_le {Inv : S → Prop} {P : S → A → Prop} {rank : S → Nat}
    (keep : ∀ s a t, Inv s → P s a → step s a = some t → Inv t)
    (lower : ∀ s a t, Inv s → P s a → step s a = some t → rank t < rank s) :
    ∀ (as : List A) {s u : S}, Inv s → Along step P s as → run step s as = some u →
      as.length + rank u ≤ rank s
  | [], _, _, _, _, hr => by
    rw [run_nil, Option.some.injEq] at hr
    rw [← hr]
    exact Nat.le_of_eq (Nat.zero_add _)
  | a :: as, s, _, hs, ha, hr => by
    obtain ⟨t, ht, hu⟩ := run_cons.mp hr
    have hrest := length_add_rank_le keep lower as (keep s a t hs ha.1 ht) ((along_cons ht).mp ha).2 hu
    have hfirst := lower s a t hs ha.1 ht
    rw [List.length_cons]
    omega

/-- The exact rule: where a step ends well precisely when it began well and met
`P`, a run ends well precisely when it began well and all its steps met `P`. -/
theorem along_iff_end {Inv Good : S → Prop} {P : S → A → Prop}
    (keep : ∀ s a t, Inv s → step s a = some t → Inv t)
    (exact : ∀ s a t, Inv s → step s a = some t → (Good t ↔ Good s ∧ P s a)) :
    ∀ (as : List A) {s u : S}, Inv s → run step s as = some u →
      (Good u ↔ Good s ∧ Along step P s as)
  | [], _, _, _, hr => by
    rw [run_nil, Option.some.injEq] at hr
    simp [hr, Along]
  | a :: as, s, _, hs, hr => by
    obtain ⟨t, ht, hu⟩ := run_cons.mp hr
    rw [along_iff_end keep exact as (keep s a t hs ht) hu, exact s a t hs ht, along_cons ht,
      and_assoc]

/-- The rule for two runs: where related states enable the same actions, with related
outcomes, runs from related states are in lockstep. -/
theorem lockstep_of_step {R : S → S → Prop}
    (same : ∀ s t a, R s t → Option.Rel R (step s a) (step t a)) :
    ∀ (as : List A) {s t : S}, R s t → Lockstep step R s t as
  | [], _, _, h => h
  | a :: as, s, t, h => by
    rw [lockstep_cons]
    have hstep := same s t a h
    generalize step s a = next, step t a = next' at hstep ⊢
    cases hstep with
    | none => exact .none
    | some h => exact .some (lockstep_of_step same as h)

end StepSystem
