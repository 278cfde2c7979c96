import Xpty.WinFuture

/- What a failed system call leaves of the `Future` of a `WinChild`. `poll` sets
   `wait_started` before it duplicates the handle and starts the thread, and nothing resets
   it, so a duplication that fails, or a wait that fails while the process runs, leaves a
   child that no later poll gives another waiter: `failed_call_disarms`. While neither
   fails, a poll that returns `Pending` before the process has ended has a waiter that is
   still to take its waker: `pending_is_armed`.

   Here `GetExitCodeProcess` may fail, and the exit code may be any. -/
namespace Xpty.WinFuture

variable {W : Type}

/-- A waiter thread that has not taken the waker. -/
def WaiterPc.onGuard : WaiterPc W → Bool
  | .waiting | .returned => true
  | _ => false

/-- A poll returns `Pending` while the process runs only with a waiter on guard. -/
def PendingArmed (s : State W) : Action W → Prop
  | .ret => s.exitCode = none → s.waiter.onGuard = true
  | _ => True

instance (s : State W) : DecidablePred (PendingArmed s)
  | .ret => inferInstanceAs (Decidable (s.exitCode = none → s.waiter.onGuard = true))
  | .exit _ | .poll .. | .store | .swap | .start _ | .wait _ | .take | .wake | .finish =>
    isTrue trivial

/-- Neither the duplication of the handle nor the wait fails while the process runs. -/
def KeepsWaiter (s : State W) : Action W → Prop
  | .start tryClone => tryClone = .ok () ∨ s.exitCode ≠ none
  | .wait failed => failed = false ∨ s.exitCode ≠ none
  | _ => True

theorem isOk_iff {tryClone : Except Errno Unit} : tryClone.isOk = true ↔ tryClone = .ok () := by
  cases tryClone with
  | ok u => exact iff_of_true rfl rfl
  | error e => exact iff_of_false Bool.false_ne_true nofun

instance (s : State W) : DecidablePred (KeepsWaiter s)
  | .start tryClone =>
    decidable_of_iff (tryClone.isOk = true ∨ s.exitCode ≠ none) (or_congr_left isOk_iff)
  | .wait failed => inferInstanceAs (Decidable (failed = false ∨ s.exitCode ≠ none))
  | .exit _ | .poll .. | .store | .swap | .ret | .take | .wake | .finish => isTrue trivial

/-- The flag says that there is a waiter, or that the poll under way starts one, and while the
process runs the waiter waits. -/
structure Guarded (s : State W) : Prop where
  notStarted : s.waitStarted = false → s.waiter = .absent ∧ ∀ w, s.poll ≠ .starting w
  started : s.waitStarted = true → s.waiter ≠ .absent ∨ ∃ w, s.poll = .starting w
  starting : ∀ w, s.poll = .starting w → s.waiter = .absent
  returning : ∀ w, s.poll = .returning w → s.waiter ≠ .absent
  waits : s.exitCode = none → s.waiter = .absent ∨ s.waiter = .waiting

theorem Guarded.hasStarted {s : State W} (hg : Guarded s)
    (h : ¬ (s.waiter = .absent ∧ ∀ w, s.poll ≠ .starting w)) : s.waitStarted = true := by
  rw [← Bool.not_eq_false]
  exact fun hs => h (hg.notStarted hs)

theorem guarded_init : Guarded (init W) := by
  refine ⟨?_, ?_, ?_, ?_, ?_⟩ <;> simp [init]

section
variable {s t : State W}

/-- The poll moves on, from no start and neither to one nor to a return. -/
theorem Guarded.poll (hg : Guarded s) {pc : PollPc W} {waker : Option W} {woken : List W}
    (hs : ∀ w, s.poll ≠ .starting w) (hr : ∀ w, pc ≠ .returning w ∧ pc ≠ .starting w) :
    Guarded { s with poll := pc, waker, woken } where
  notStarted h := ⟨(hg.notStarted h).1, fun w => (hr w).2⟩
  started h := by
    obtain ha | ⟨w, hw⟩ := hg.started h
    · exact .inl ha
    · exact absurd hw (hs w)
  starting w hp := absurd hp (hr w).2
  returning w hp := absurd hp (hr w).1
  waits := hg.waits

/-- The waiter moves on from its place. -/
theorem Guarded.waiter (hg : Guarded s) {pc : WaiterPc W} {waker : Option W} {woken : List W}
    (hs : s.waiter ≠ .absent) (hpc : pc ≠ .absent)
    (hw : s.exitCode = none → pc = .waiting) :
    Guarded { s with waiter := pc, waker, woken } where
  notStarted h := absurd (hg.notStarted h).1 hs
  started _ := .inl hpc
  starting w hp := absurd (hg.starting w hp) hs
  returning _ _ := hpc
  waits h := .inr (hw h)

/-- The waiter leaves its loop only when the process has ended. -/
theorem Guarded.exited (hg : Guarded s) (ha : s.waiter ≠ .absent) (hw : s.waiter ≠ .waiting) :
    s.exitCode ≠ none := by
  intro h
  obtain h | h := hg.waits h
  · exact ha h
  · exact hw h

theorem guarded_step {a : Action W} (hg : Guarded s) (hk : KeepsWaiter s a)
    (hclone : ∀ e, a ≠ .start (.error e)) (h : step s a = some t) : Guarded t := by
  cases a with
  | exit code =>
    obtain ⟨-, rfl⟩ := step_exit.mp h
    exact ⟨hg.notStarted, hg.started, hg.starting, hg.returning, nofun⟩
  | poll w call =>
    obtain ⟨hidle, rfl⟩ := step_poll.mp h
    obtain ⟨pc, hpc, hr⟩ := pollStep_cases s w call
    rw [hpc]
    refine hg.poll (fun v hv => ?_) hr
    rw [hv] at hidle
    cases hidle
  | store =>
    obtain ⟨w, hp, -, rfl⟩ := step_store.mp h
    exact hg.poll (by simp [hp]) (by simp)
  | swap =>
    obtain ⟨w, hp, rfl⟩ := step_swap.mp h
    cases hw : s.waitStarted with
    | true =>
      have hstarted := (hg.started hw).resolve_right (by simp [hp])
      exact ⟨nofun, fun _ => .inl hstarted, nofun, fun _ _ => hstarted, hg.waits⟩
    | false =>
      exact ⟨nofun, fun _ => .inr ⟨w, rfl⟩, fun _ _ => (hg.notStarted hw).1, nofun, hg.waits⟩
  | start tryClone =>
    cases tryClone with
    | error e => exact absurd rfl (hclone e)
    | ok u =>
      obtain ⟨w, hp, rfl⟩ := step_start.mp h
      exact ⟨fun hs => absurd hp ((hg.notStarted hs).2 w), fun _ => .inl nofun, nofun,
        fun _ _ => nofun, fun _ => .inr rfl⟩
  | ret =>
    obtain ⟨w, hp, rfl⟩ := step_ret.mp h
    exact hg.poll (by simp [hp]) (by simp)
  | wait failed =>
    obtain ⟨hw, rfl⟩ := step_wait.mp h
    refine hg.waiter (by simp [hw]) (by split <;> simp) fun hx => ?_
    have hfailed : failed = false := hk.resolve_right (not_not_intro hx)
    simp [hfailed, hx]
  | take =>
    obtain ⟨hw, rfl⟩ := step_take.mp h
    exact hg.waiter (by simp [hw]) nofun fun hx => absurd hx (hg.exited (by simp [hw]) (by simp [hw]))
  | wake =>
    obtain ⟨w, hw, rfl⟩ := step_wake.mp h
    exact hg.waiter (by simp [hw]) nofun fun hx => absurd hx (hg.exited (by simp [hw]) (by simp [hw]))
  | finish =>
    obtain ⟨w, hw, rfl⟩ := step_finish.mp h
    exact hg.waiter (by simp [hw]) nofun fun hx => absurd hx (hg.exited (by simp [hw]) (by simp [hw]))

theorem running_of_step {a : Action W} (h : step s a = some t) (hx : t.exitCode = none) :
    s.exitCode = none := by
  cases hs : s.exitCode with
  | none => rfl
  | some code =>
    rw [exitCode_step hs h] at hx
    cases hx

/-- While the process runs, the flag stays guarded. -/
theorem guarded_running {a : Action W} (hg : s.exitCode = none → Guarded s) (hk : KeepsWaiter s a)
    (h : step s a = some t) (hx : t.exitCode = none) : Guarded t := by
  have hrunning := running_of_step h hx
  refine guarded_step (hg hrunning) hk (fun e he => ?_) h
  rw [he] at hk
  obtain hok | hexited := hk
  · cases hok
  · exact hexited hrunning

/-- A poll about to return `Pending` while the process runs has a waiter on guard. -/
theorem pendingArmed {a : Action W} (hg : s.exitCode = none → Guarded s) (h : step s a = some t) :
    PendingArmed s a := by
  cases a with
  | ret =>
    intro hx
    obtain ⟨w, hp, -⟩ := step_ret.mp h
    rw [((hg hx).waits hx).resolve_left ((hg hx).returning w hp)]
    rfl
  | _ => trivial

end

/-- In every run in which no duplication and no wait fails while the process runs, a poll that
returns `Pending` before the process has ended has a waiter on guard. -/
theorem pending_is_armed (as : List (Action W)) (s : State W)
    (hr : StepSystem.run step (init W) as = some s)
    (hk : StepSystem.Along step KeepsWaiter (init W) as) :
    StepSystem.Along step PendingArmed (init W) as :=
  @StepSystem.along_of_run_along _ _ step (fun s => s.exitCode = none → Guarded s) _ _
    (fun _ _ _ hg hk h => guarded_running hg hk h) (fun _ _ _ hg _ h => pendingArmed hg h) as
    (init W) s (fun _ => guarded_init) hk hr

/-- The second poll is made with the flag set, its waiter waiting. -/
def pollTwice : List (Action Nat) :=
  [.poll 1 (.error 6), .poll 1 (.ok ()), .store, .swap, .start (.ok ()), .wait false, .ret,
   .poll 2 (.ok ()), .store, .swap, .ret, .exit 259, .wait true, .take, .wake, .finish]

theorem pending_is_armed_twice : StepSystem.Along step PendingArmed (init Nat) pollTwice :=
  pending_is_armed pollTwice _ rfl (by decide)

/-! After a failed call. -/

/-- From a state with the flag set and no waiter that will take a waker. -/
structure Disarmed (s : State W) : Prop where
  started : s.waitStarted = true
  running : s.exitCode = none
  unguarded : s.waiter.onGuard = false
  unlocked : s.waiter.holdsLock = false
  notStarting : ∀ w, s.poll ≠ .starting w

/-- The calls left to be made before a poll returns `Pending`. -/
def PollPc.rest (w : W) : PollPc W → List (Action W)
  | .checked _ => [.store, .swap, .ret]
  | .stored _ => [.swap, .ret]
  | .returning _ => [.ret]
  | _ => [.poll w (.ok ()), .store, .swap, .ret]

theorem Disarmed.rest {s : State W} (hd : Disarmed s) (w : W) :
    (∀ b ∈ s.poll.rest w, b.Succeeds) ∧ (∃ u, StepSystem.run step s (s.poll.rest w) = some u) ∧
      ¬ StepSystem.Along step PendingArmed s (s.poll.rest w) := by
  obtain ⟨exitCode, waker, waitStarted, poll, waiter, woken⟩ := s
  obtain ⟨rfl, rfl, hguard, hlock, hstart⟩ := hd
  cases poll with
  | starting v => exact absurd rfl (hstart v)
  | _ =>
    refine ⟨by simp [PollPc.rest, Action.Succeeds], ?_, ?_⟩ <;>
      simp_all [PollPc.rest, StepSystem.run, StepSystem.Along, step, PollPc.idle, pollStep, isComplete,
        getExitCodeProcess, PendingArmed]

/-- A waiter that leaves its loop while the process runs takes the waker and ends. -/
theorem disarmed_of_returned {s : State W} (hw : s.waiter = .returned) (hs : s.waitStarted = true)
    (hx : s.exitCode = none) (hp : ∀ w, s.poll ≠ .starting w) :
    ∃ u, StepSystem.run step s [.take, .wake, .finish] = some u ∧ Disarmed u := by
  cases hk : s.waker with
  | none =>
    refine ⟨{ s with waker := none, waiter := .ended none }, ?_, ⟨hs, hx, rfl, rfl, hp⟩⟩
    simp [StepSystem.run, step, hw, hk]
  | some v =>
    refine ⟨{ s with waker := none, waiter := .ended (some v), woken := v :: s.woken }, ?_,
      ⟨hs, hx, rfl, rfl, hp⟩⟩
    simp [StepSystem.run, step, hw, hk]

/-- The condition is exact: after a call that fails while the process runs, steps that succeed
lead to a poll that returns `Pending` with no waiter on guard. -/
theorem failed_call_disarms {s t : State W} {a : Action W} (w : W) (hg : Guarded s)
    (hx : s.exitCode = none) (hs : step s a = some t) (hfail : ¬ KeepsWaiter s a) :
    ∃ bs u, (∀ b ∈ bs, b.Succeeds) ∧ StepSystem.run step t bs = some u ∧
      ¬ StepSystem.Along step PendingArmed t bs := by
  cases a with
  | start tryClone =>
    cases tryClone with
    | ok _ => exact absurd (.inl rfl) hfail
    | error e =>
      obtain ⟨v, hp, rfl⟩ := step_start_error hs
      have hstarted : s.waitStarted = true := hg.hasStarted fun h => h.2 v hp
      have hd : Disarmed { s with poll := .ready (.error e) } :=
        ⟨hstarted, hx, by simp [hg.starting v hp, WaiterPc.onGuard],
          by simp [hg.starting v hp, WaiterPc.holdsLock], nofun⟩
      obtain ⟨hok, ⟨u, hu⟩, hnot⟩ := hd.rest w
      exact ⟨_, u, hok, hu, hnot⟩
  | wait failed =>
    obtain ⟨hw, rfl⟩ := step_wait.mp hs
    have hf : failed = true := by simpa [KeepsWaiter, hx] using hfail
    have habsent : s.waiter ≠ .absent := by simp [hw]
    have hstarted : s.waitStarted = true := hg.hasStarted fun h => habsent h.1
    obtain ⟨v, hv, hd⟩ := disarmed_of_returned
      (s := { s with waiter := if failed || s.exitCode.isSome then .returned else .waiting })
      (by simp [hf]) hstarted hx fun v hp => habsent (hg.starting v hp)
    obtain ⟨hok, ⟨u, hu⟩, hnot⟩ := hd.rest w
    refine ⟨[.take, .wake, .finish] ++ v.poll.rest w, u, ?_, ?_, ?_⟩
    · intro b hb
      rcases List.mem_append.mp hb with hb | hb
      · simp only [List.mem_cons, List.not_mem_nil, or_false] at hb
        rcases hb with rfl | rfl | rfl <;> trivial
      · exact hok b hb
    · exact StepSystem.run_append_eq_some.mpr ⟨v, hv, hu⟩
    · intro h
      exact hnot (h.of_append hv)
  | _ => exact absurd trivial hfail

/-- The first poll cannot duplicate the handle; the second returns `Pending`, and there is no
waiter. -/
def failedClone : List (Action Nat) :=
  [.poll 1 (.ok ()), .store, .swap, .start (.error 6), .poll 1 (.ok ()), .store, .swap, .ret]

theorem failed_clone_is_not_armed : ¬ ∀ (as : List (Action Nat)) (s : State Nat),
    StepSystem.run step (init Nat) as = some s → StepSystem.Along step PendingArmed (init Nat) as := by
  intro h
  have harmed := h failedClone _ rfl
  exact absurd harmed (by decide)

end Xpty.WinFuture
