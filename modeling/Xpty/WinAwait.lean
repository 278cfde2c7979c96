import Xpty.WinArmed

/- A task that awaits a `WinChild`: all its polls have one waker, and none comes after the
   result. Then no store can be late (`Alone.inTime`), and the future is live however the
   task, the waiter thread and the process are scheduled: once the process has ended, nine
   steps at most are left, and until the result is there some step is due that does not
   need a poll out of turn (`await_completes`). -/
namespace Xpty.WinFuture

open StepSystem

variable {W : Type}

def PollPc.isReady : PollPc W → Bool
  | .ready _ => true
  | _ => false

/-- The steps around one task: system calls succeed, and a poll has its waker and comes at
any time before the result. -/
def OfTask (w : W) (s : State W) : Action W → Prop
  | .poll v call => v = w ∧ call = .ok () ∧ s.poll.isReady = false
  | a => a.Succeeds

/-- The steps that the executor and the system owe: a poll is the first one, or the task
has been woken. -/
def Due (w : W) (s : State W) : Action W → Prop
  | .poll v call => v = w ∧ call = .ok () ∧ (s.poll = .unpolled ∨ w ∈ s.woken)
  | a => a.Succeeds

instance [DecidableEq W] (w : W) (s : State W) : DecidablePred (OfTask w s)
  | .poll v (.ok ()) =>
    decidable_of_iff (v = w ∧ s.poll.isReady = false) (by simp only [OfTask, true_and])
  | .poll _ (.error _) => isFalse fun h => nomatch h.2.1
  | .exit code => inferInstanceAs (Decidable (Action.Succeeds (W := W) (.exit code)))
  | .start call => inferInstanceAs (Decidable (Action.Succeeds (W := W) (.start call)))
  | .wait failed => inferInstanceAs (Decidable (Action.Succeeds (W := W) (.wait failed)))
  | .store | .swap | .ret | .take | .wake | .finish => isTrue trivial

theorem OfTask.succeeds {w : W} {s : State W} {a : Action W} (h : OfTask w s a) : a.Succeeds := by
  cases a with
  | poll v call => exact h.2.1
  | _ => exact h

theorem OfTask.keepsWaiter {w : W} {s : State W} {a : Action W} (h : OfTask w s a) :
    KeepsWaiter s a := by
  cases a with
  | start tryClone => exact .inl h
  | wait failed => exact .inl h
  | _ => trivial

theorem OfTask.clones {w : W} {s : State W} {a : Action W} (h : OfTask w s a) (e : Errno) :
    a ≠ .start (.error e) := by
  rintro rfl
  cases (h : (.error e : Except Errno Unit) = .ok ())

/-- The waker `w` is the only one about: the polls have it, the slot holds it as long as a
waiter is to take it, and the waiter took it. -/
structure Alone (w : W) (s : State W) : Prop where
  inv : Inv s
  guarded : Guarded s
  checked : ∀ v, s.poll.checkedWaker = some v → v = w
  stored : ∀ v, s.poll.storedWaker = some v → v = w
  slot : s.waiter.onGuard = true → s.waker = some w
  taken : s.waiter.beforeTake = false → s.waiter.taken = some w
  pending : ∀ v, s.poll = .pending v → s.waiter ≠ .absent
  ready : ∀ r, s.poll = .ready r → ∃ code, s.exitCode = some code ∧ r = .ok (.withExitCode code)

theorem alone_init (w : W) : Alone w (init W) := by
  refine ⟨inv_init, guarded_init, ?_, ?_, ?_, ?_, ?_, ?_⟩ <;>
    simp [init, PollPc.checkedWaker, PollPc.storedWaker, WaiterPc.onGuard, WaiterPc.beforeTake]

section
variable {w : W} {s t : State W}

theorem Alone.inTime (h : Alone w s) {a : Action W} (ht : step s a = some t) : StoresInTime s a := by
  cases a with
  | store =>
    obtain ⟨v, hp, -, -⟩ := step_store.mp ht
    have hv : s.poll.checkedWaker = some v := by rw [hp]; rfl
    cases hb : s.waiter.beforeTake with
    | true => exact .inl hb
    | false => exact .inr (by rw [h.taken hb, hv, h.checked v hv])
  | _ => trivial

/-- A poll that is to start the waiter has put its waker into the slot. -/
theorem Alone.slot_of_starting (h : Alone w s) {v : W} (hp : s.poll = .starting v) :
    s.waker = some w := by
  have hv : s.poll.storedWaker = some v := by rw [hp]; rfl
  have habsent := (h.inv.starting v hp).1
  rw [← h.stored v hv]
  rcases h.inv.armed v hv with ⟨-, hslot⟩ | htook | hwoken
  · exact hslot
  · rw [habsent] at htook
    cases htook
  · have htaken := h.inv.wokenTaken v hwoken
    rw [habsent] at htaken
    cases htaken

theorem alone_step {a : Action W} (h : Alone w s) (ha : OfTask w s a) (ht : step s a = some t) :
    Alone w t := by
  have hinv := inv_step h.inv ha.succeeds (h.inTime ht) ht
  have hguarded := guarded_step h.guarded ha.keepsWaiter ha.clones ht
  cases a with
  | exit code =>
    obtain ⟨hrunning, rfl⟩ := step_exit.mp ht
    refine ⟨hinv, hguarded, h.checked, h.stored, h.slot, h.taken, h.pending, fun r hr => ?_⟩
    obtain ⟨code', hcode, -⟩ := h.ready r hr
    cases hrunning.symm.trans hcode
  | poll v call =>
    obtain ⟨rfl, rfl, -⟩ := ha
    obtain ⟨-, rfl⟩ := step_poll.mp ht
    cases hx : s.exitCode with
    | none =>
      rw [pollStep_running hx] at hinv hguarded ⊢
      exact ⟨hinv, hguarded, fun u hu => (Option.some.inj hu).symm, nofun, h.slot, h.taken, nofun, nofun⟩
    | some code =>
      rw [pollStep_exited hx (h.inv.realCode code hx)] at hinv hguarded ⊢
      refine ⟨hinv, hguarded, nofun, nofun, h.slot, h.taken, nofun, fun r hr => ⟨code, hx, ?_⟩⟩
      cases hr
      rfl
  | store =>
    obtain ⟨v, hp, -, rfl⟩ := step_store.mp ht
    obtain rfl : v = w := h.checked v (by rw [hp]; rfl)
    exact ⟨hinv, hguarded, nofun, fun u hu => (Option.some.inj hu).symm, fun _ => rfl, h.taken,
      nofun, nofun⟩
  | swap =>
    obtain ⟨v, hp, rfl⟩ := step_swap.mp ht
    obtain rfl : v = w := h.stored v (by rw [hp]; rfl)
    refine ⟨hinv, hguarded, ?_, ?_, h.slot, h.taken, ?_, ?_⟩
    · intro u hu
      dsimp only at hu
      split at hu <;> cases hu
    · intro u hu
      dsimp only at hu
      split at hu <;> exact (Option.some.inj hu).symm
    · intro u hu
      dsimp only at hu
      split at hu <;> cases hu
    · intro r hr
      dsimp only at hr
      split at hr <;> cases hr
  | start tryClone =>
    obtain rfl : tryClone = .ok () := ha
    obtain ⟨v, hp, rfl⟩ := step_start.mp ht
    obtain rfl : v = w := h.stored v (by rw [hp]; rfl)
    exact ⟨hinv, hguarded, nofun, fun u hu => (Option.some.inj hu).symm,
      fun _ => h.slot_of_starting hp, nofun, nofun, nofun⟩
  | ret =>
    obtain ⟨v, hp, rfl⟩ := step_ret.mp ht
    obtain rfl : v = w := h.stored v (by rw [hp]; rfl)
    exact ⟨hinv, hguarded, nofun, fun u hu => (Option.some.inj hu).symm, h.slot, h.taken,
      fun _ _ => h.guarded.returning v hp, nofun⟩
  | wait failed =>
    obtain ⟨hw, rfl⟩ := step_wait.mp ht
    have hslot : s.waker = some w := h.slot (by rw [hw]; rfl)
    refine ⟨hinv, hguarded, h.checked, h.stored, fun _ => hslot, ?_, ?_, h.ready⟩
    · intro hb
      dsimp only at hb
      split at hb <;> cases hb
    · intro v _ habsent
      dsimp only at habsent
      split at habsent <;> cases habsent
  | take =>
    obtain ⟨hw, rfl⟩ := step_take.mp ht
    exact ⟨hinv, hguarded, h.checked, h.stored, nofun, fun _ => h.slot (by rw [hw]; rfl),
      fun _ _ => nofun, h.ready⟩
  | wake =>
    obtain ⟨x, hw, rfl⟩ := step_wake.mp ht
    have htaken : s.waiter.taken = some w := h.taken (by rw [hw]; rfl)
    rw [hw] at htaken
    exact ⟨hinv, hguarded, h.checked, h.stored, nofun, fun _ => htaken, fun _ _ => nofun, h.ready⟩
  | finish =>
    obtain ⟨x, hw, rfl⟩ := step_finish.mp ht
    have htaken : s.waiter.taken = some w := h.taken (by rw [hw]; rfl)
    rw [hw] at htaken
    exact ⟨hinv, hguarded, h.checked, h.stored, nofun, fun _ => htaken, fun _ _ => nofun, h.ready⟩

/-! After the end of the process. -/

/-- The steps that the poll has left, and the poll after it. -/
def PollPc.rank : PollPc W → Nat
  | .unpolled => 1
  | .checked _ => 4
  | .stored _ => 3
  | .starting _ => 2
  | .returning _ => 2
  | .pending _ => 1
  | .ready _ => 0

/-- The steps that the waiter has left, its start included. -/
def WaiterPc.rank : WaiterPc W → Nat
  | .absent => 5
  | .waiting => 4
  | .returned => 3
  | .took _ => 2
  | .woke _ => 1
  | .ended _ => 0

def State.rank (s : State W) : Nat := s.poll.rank + s.waiter.rank

theorem rank_le (s : State W) : s.rank ≤ 9 := by
  have hpoll : s.poll.rank ≤ 4 := by cases s.poll <;> simp [PollPc.rank]
  have hwaiter : s.waiter.rank ≤ 5 := by cases s.waiter <;> simp [WaiterPc.rank]
  exact Nat.add_le_add hpoll hwaiter

theorem rank_pos (hr : s.poll.isReady = false) : 0 < s.poll.rank := by
  cases hp : s.poll with
  | ready r => rw [hp] at hr; cases hr
  | _ => simp [PollPc.rank]

/-- Once the process has ended, every step brings the task and the waiter nearer to their
ends. -/
theorem rank_lt {code : UInt32} (h : Alone w s) (hx : s.exitCode = some code) {a : Action W}
    (ha : OfTask w s a) (ht : step s a = some t) : t.rank < s.rank := by
  cases a with
  | exit c =>
    obtain ⟨hrunning, -⟩ := step_exit.mp ht
    cases hrunning.symm.trans hx
  | poll v call =>
    obtain ⟨-, rfl, hr⟩ := ha
    obtain ⟨-, rfl⟩ := step_poll.mp ht
    rw [pollStep_exited hx (h.inv.realCode code hx)]
    exact Nat.add_lt_add_right (rank_pos hr) _
  | store =>
    obtain ⟨v, hp, -, rfl⟩ := step_store.mp ht
    simp [State.rank, PollPc.rank, hp]
  | swap =>
    obtain ⟨v, hp, rfl⟩ := step_swap.mp ht
    have hrank : (if s.waitStarted then PollPc.returning v else .starting v).rank = 2 := by
      split <;> rfl
    rw [State.rank, State.rank, hrank, hp]
    exact Nat.add_lt_add_right (show 2 < 3 by decide) _
  | start tryClone =>
    obtain rfl : tryClone = .ok () := ha
    obtain ⟨v, hp, rfl⟩ := step_start.mp ht
    simp [State.rank, PollPc.rank, WaiterPc.rank, hp, (h.inv.starting v hp).1]
  | ret =>
    obtain ⟨v, hp, rfl⟩ := step_ret.mp ht
    simp [State.rank, PollPc.rank, hp]
  | wait failed =>
    obtain ⟨hw, rfl⟩ := step_wait.mp ht
    simp [State.rank, WaiterPc.rank, hw, hx]
  | take =>
    obtain ⟨hw, rfl⟩ := step_take.mp ht
    simp [State.rank, WaiterPc.rank, hw]
  | wake =>
    obtain ⟨x, hw, rfl⟩ := step_wake.mp ht
    simp [State.rank, WaiterPc.rank, hw]
  | finish =>
    obtain ⟨x, hw, rfl⟩ := step_finish.mp ht
    simp [State.rank, WaiterPc.rank, hw]

/-- Until the result is there some step is due: a task that waits has been woken, or the
waiter has a step to take. -/
theorem due_step (h : Alone w s) (hr : s.poll.isReady = false) :
    ∃ a t, Due w s a ∧ step s a = some t := by
  cases hp : s.poll with
  | ready r => rw [hp] at hr; cases hr
  | unpolled =>
    exact ⟨.poll w (.ok ()), _, ⟨rfl, rfl, .inl hp⟩, step_poll.mpr ⟨by rw [hp]; rfl, rfl⟩⟩
  | checked v =>
    cases hl : s.waiter.holdsLock with
    | false => exact ⟨.store, _, trivial, step_store.mpr ⟨v, hp, hl, rfl⟩⟩
    | true =>
      cases hw : s.waiter with
      | took x => exact ⟨.wake, _, trivial, step_wake.mpr ⟨x, hw, rfl⟩⟩
      | _ => rw [hw] at hl; cases hl
  | stored v => exact ⟨.swap, _, trivial, step_swap.mpr ⟨v, hp, rfl⟩⟩
  | starting v => exact ⟨.start (.ok ()), _, rfl, step_start.mpr ⟨v, hp, rfl⟩⟩
  | returning v => exact ⟨.ret, _, trivial, step_ret.mpr ⟨v, hp, rfl⟩⟩
  | pending v =>
    have hv : s.poll.storedWaker = some v := by rw [hp]; rfl
    obtain rfl := h.stored v hv
    rcases h.inv.armed v hv with ⟨hbefore, -⟩ | htook | hwoken
    · cases hw : s.waiter with
      | absent => exact absurd hw (h.pending v hp)
      | waiting => exact ⟨.wait false, _, rfl, step_wait.mpr ⟨hw, rfl⟩⟩
      | returned => exact ⟨.take, _, trivial, step_take.mpr ⟨hw, rfl⟩⟩
      | _ => rw [hw] at hbefore; cases hbefore
    · exact ⟨.wake, _, trivial, step_wake.mpr ⟨some v, htook, rfl⟩⟩
    · exact ⟨.poll v (.ok ()), _, ⟨rfl, rfl, .inr hwoken⟩, step_poll.mpr ⟨by rw [hp]; rfl, rfl⟩⟩

end

/-- In every run of one task, from the end of the process on: no schedule has more than
nine steps left, and one that leaves no step due has the exit status as its result. -/
theorem await_completes (w : W) {as : List (Action W)} {s : State W}
    (has : Along step (OfTask w) (init W) as) (hs : run step (init W) as = some s) {code : UInt32}
    (hx : s.exitCode = some code) {bs : List (Action W)} {t : State W}
    (hbs : Along step (OfTask w) s bs) (ht : run step s bs = some t) :
    bs.length ≤ 9 ∧ ((∀ a u, Due w t a → step t a ≠ some u) →
      t.poll = .ready (.ok (.withExitCode code))) := by
  have halone : Alone w s := run_along (fun _ _ _ => alone_step) as (alone_init w) has hs
  have hkeep : ∀ (s : State W) (a : Action W) (t : State W),
      (Alone w s ∧ s.exitCode = some code) → OfTask w s a → step s a = some t →
        Alone w t ∧ t.exitCode = some code :=
    fun s a t h ha hst => ⟨alone_step h.1 ha hst, exitCode_step h.2 hst⟩
  have hrank : bs.length + t.rank ≤ s.rank := length_add_rank_le hkeep
    (fun s a t h ha hst => rank_lt h.1 h.2 ha hst) bs ⟨halone, hx⟩ hbs ht
  obtain ⟨haloneT, hxT⟩ := run_along hkeep bs ⟨halone, hx⟩ hbs ht
  have hlength : bs.length ≤ 9 :=
    calc bs.length ≤ bs.length + t.rank := Nat.le_add_right _ _
      _ ≤ s.rank := hrank
      _ ≤ 9 := rank_le s
  refine ⟨hlength, fun hstuck => ?_⟩
  cases hr : t.poll.isReady with
  | false =>
    obtain ⟨a, u, hdue, hu⟩ := due_step haloneT hr
    exact absurd hu (hstuck a u hdue)
  | true =>
    cases hp : t.poll with
    | ready r =>
      obtain ⟨code', hcode, rfl⟩ := haloneT.ready r hp
      rw [hxT, Option.some.injEq] at hcode
      rw [hcode]
    | _ => rw [hp] at hr; cases hr

/-- Polled out of turn while the process runs, and then not before it is woken. -/
def awaited : List (Action Nat) :=
  [.poll 1 (.ok ()), .store, .swap, .start (.ok ()), .ret, .poll 1 (.ok ()), .wait false, .exit 3]

def untilReady : List (Action Nat) :=
  [.wait false, .take, .wake, .store, .swap, .ret, .poll 1 (.ok ())]

theorem awaited_completes : ∃ s t, run step (init Nat) awaited = some s ∧
    run step s untilReady = some t ∧ untilReady.length ≤ 9 ∧
      ((∀ a u, Due 1 t a → step t a ≠ some u) → t.poll = .ready (.ok (.withExitCode 3))) := by
  have hs : run step (init Nat) awaited = some _ := rfl
  exact ⟨_, _, hs, rfl, await_completes 1 (by decide) hs rfl (by decide)
    (rfl : run step _ untilReady = some _)⟩

end Xpty.WinFuture
