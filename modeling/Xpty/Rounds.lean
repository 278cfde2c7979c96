import Mathlib.Data.List.Basic

/- Loops of which every round returns a result or goes on from a new state, over any
   state and result type. `run` is the loop within a number of rounds, with the states
   that its rounds began in; a loop that returns within some number of rounds does the
   same within any larger one (`run_mono`). `run_countdown` is the rule for the end of a
   loop: an invariant that counts the rounds still to come. A loop that asks until there
   is an answer returns the first one (`run_ask`). -/
namespace Rounds

variable {S R : Type}

/-- At most `n` rounds from `s`: the states they began in and what the last one
returned, or `none` where none of them returned. -/
def run (round : S → S ⊕ R) : Nat → S → Option (List S × R)
  | 0, _ => none
  | n + 1, s =>
    match round s with
    | .inr r => some ([s], r)
    | .inl t => (run round n t).map fun out => (s :: out.1, out.2)

variable {round : S → S ⊕ R}

/-- The first round returns, or it goes on and the rest returns. -/
theorem run_succ {n : Nat} {s : S} {visited : List S} {r : R} :
    run round (n + 1) s = some (visited, r) ↔
      (round s = .inr r ∧ visited = [s]) ∨
      ∃ t rest, round s = .inl t ∧ run round n t = some (rest, r) ∧ visited = s :: rest := by
  rw [run]
  cases h : round s with
  | inr r' => simp [and_comm, eq_comm]
  | inl t =>
    simp only [Option.map_eq_some_iff, Prod.exists, Prod.mk.injEq, reduceCtorEq, false_and,
      false_or, Sum.inl.injEq]
    refine ⟨?_, ?_⟩
    · intro h
      obtain ⟨rest, _, hrun, rfl, rfl⟩ := h
      exact ⟨t, rest, rfl, hrun, rfl⟩
    · intro h
      obtain ⟨t, rest, rfl, hrun, rfl⟩ := h
      exact ⟨rest, r, hrun, rfl, rfl⟩

/-- More rounds than it takes change nothing. -/
theorem run_mono : ∀ {n m : Nat} {s : S} {visited : List S} {r : R},
    run round n s = some (visited, r) → n ≤ m → run round m s = some (visited, r)
  | n + 1, m + 1, s, visited, r, h, hm => by
    rw [run_succ] at h ⊢
    rcases h with h | ⟨t, rest, ht, hrest, hv⟩
    · exact .inl h
    · exact .inr ⟨t, rest, ht, run_mono hrest (Nat.le_of_succ_le_succ hm), hv⟩

theorem length_le : ∀ {n : Nat} {s : S} {visited : List S} {r : R},
    run round n s = some (visited, r) → visited.length ≤ n
  | n + 1, s, visited, r, h => by
    rcases run_succ.mp h with ⟨_, rfl⟩ | ⟨t, rest, _, hrest, rfl⟩
    · exact Nat.le_add_left 1 n
    · exact Nat.succ_le_succ (length_le hrest)

/-- An invariant kept from round to round holds where every round begins. -/
theorem run_keeps {Inv : S → Prop} (keep : ∀ s t, Inv s → round s = .inl t → Inv t) :
    ∀ {n : Nat} {s : S} {visited : List S} {r : R}, Inv s →
      run round n s = some (visited, r) → ∀ t ∈ visited, Inv t
  | n + 1, s, visited, r, hs, h => by
    rcases run_succ.mp h with ⟨_, rfl⟩ | ⟨u, rest, hu, hrest, rfl⟩
    · exact List.forall_mem_singleton.mpr hs
    · exact List.forall_mem_cons.mpr ⟨hs, run_keeps keep (keep s u hs hu) hrest⟩

/-- The result is what some round returned. -/
theorem run_returned : ∀ {n : Nat} {s : S} {visited : List S} {r : R},
    run round n s = some (visited, r) → ∃ t ∈ visited, round t = .inr r
  | n + 1, s, visited, r, h => by
    rcases run_succ.mp h with ⟨hr, rfl⟩ | ⟨u, rest, _, hrest, rfl⟩
    · exact ⟨s, List.mem_singleton_self s, hr⟩
    · obtain ⟨t, ht, hr⟩ := run_returned hrest
      exact ⟨t, List.mem_cons_of_mem s ht, hr⟩

/-- The countdown rule: where `Inv n` allows `n` more rounds, the loop returns. -/
theorem run_countdown (Inv : Nat → S → Prop) (last : ∀ s t, Inv 0 s → round s ≠ .inl t)
    (next : ∀ n s t, Inv (n + 1) s → round s = .inl t → Inv n t) (n : Nat) {s : S} (hs : Inv n s) :
    ∃ visited r, run round (n + 1) s = some (visited, r) := by
  induction n generalizing s with
  | zero =>
    cases h : round s with
    | inr r => exact ⟨_, r, run_succ.mpr (.inl ⟨h, rfl⟩)⟩
    | inl t => exact absurd h (last s t hs)
  | succ n ih =>
    cases h : round s with
    | inr r => exact ⟨_, r, run_succ.mpr (.inl ⟨h, rfl⟩)⟩
    | inl t =>
      obtain ⟨visited, r, hrun⟩ := ih (next n s t hs h)
      exact ⟨_, r, run_succ.mpr (.inr ⟨t, visited, h, hrun, rfl⟩)⟩

/-! Loops that ask until there is an answer. -/

/-- The round that asks for the `n`-th time. -/
def ask (answer : Nat → Option R) (n : Nat) : Nat ⊕ R :=
  match answer n with
  | none => .inl (n + 1)
  | some r => .inr r

/-- Such a loop returns the first answer. -/
theorem run_ask {answer : Nat → Option R} {r : R} : ∀ {m n : Nat},
    (∃ visited, run (ask answer) m n = some (visited, r)) ↔
      ∃ k < m, answer (n + k) = some r ∧ ∀ j < k, answer (n + j) = none
  | 0, n => by simp [run]
  | m + 1, n => by
    simp only [run_succ, ask]
    cases ha : answer n with
    | some r' =>
      refine ⟨?_, ?_⟩
      · intro h
        obtain ⟨visited, ⟨hr, -⟩ | ⟨t, rest, ht, -⟩⟩ := h
        · cases hr
          exact ⟨0, m.succ_pos, ha, nofun⟩
        · cases ht
      · intro h
        obtain ⟨k, -, hk, hbefore⟩ := h
        cases k with
        | zero => exact ⟨_, .inl ⟨congrArg _ (Option.some.inj (ha.symm.trans hk)), rfl⟩⟩
        | succ k => cases ha.symm.trans (hbefore 0 k.succ_pos)
    | none =>
      -- the first answer comes later
      have ih := @run_ask answer r m (n + 1)
      have hshift : ∀ k, n + 1 + k = n + (k + 1) := fun k => Nat.add_right_comm n 1 k
      refine ⟨?_, ?_⟩
      · intro h
        obtain ⟨visited, ⟨hr, -⟩ | ⟨t, rest, ht, hrest, -⟩⟩ := h
        · cases hr
        · cases ht
          obtain ⟨k, hk, hr, hbefore⟩ := ih.mp ⟨rest, hrest⟩
          refine ⟨k + 1, Nat.succ_lt_succ hk, hshift k ▸ hr, fun j hj => ?_⟩
          cases j with
          | zero => exact ha
          | succ j => exact hshift j ▸ hbefore j (Nat.lt_of_succ_lt_succ hj)
      · intro h
        obtain ⟨k, hk, hr, hbefore⟩ := h
        cases k with
        | zero => cases ha.symm.trans hr
        | succ k =>
          obtain ⟨rest, hrest⟩ := ih.mpr ⟨k, Nat.lt_of_succ_lt_succ hk, (hshift k).symm ▸ hr,
            fun j hj => (hshift j).symm ▸ hbefore (j + 1) (Nat.succ_lt_succ hj)⟩
          exact ⟨_, .inr ⟨n + 1, rest, rfl, hrest, rfl⟩⟩

end Rounds
