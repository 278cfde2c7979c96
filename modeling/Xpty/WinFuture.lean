import Xpty.StepSystem
import Xpty.Common

/- `WinChild` as a `Future` (`win/mod.rs`). A poll checks the exit code, stores its
   context's waker, swaps `wait_started` and, the first time, starts the waiter
   thread; the waiter waits for the process, takes the waker, wakes it and ends.
   Each of these is one atomic step here, and any interleaving of them with the
   exit of the process is a run.

   `poll` takes `&mut self`, so at most one poll is under way. The waiter's
   `if let Some(w) = waker.lock().unwrap().take() { w.wake(); }` keeps the mutex
   guard until the end of the `if let` (edition 2021), so a poll cannot store a
   waker between the take and the wake.

   The wake-up is lost when a second poll checks the exit code before the process
   ends and stores its waker after the waiter has taken the first poll's:
   `late_waker_is_never_woken`. `no_lost_wakeup` shows that this is the only way. -/
namespace Xpty.WinFuture

/-- `STILL_ACTIVE`: what `GetExitCodeProcess` yields for a running process. -/
def STILL_ACTIVE : UInt32 := 259

/-- Where the most recent poll stands; `w` is the waker of its context. -/
inductive PollPc (W : Type) where
  | unpolled
  | checked (w : W)
  | stored (w : W)
  | starting (w : W)
  | returning (w : W)
  | pending (w : W)
  | ready (result : Except Errno ExitStatus)

/-- Where the waiter thread stands; from `took` on, with what it took. -/
inductive WaiterPc (W : Type) where
  | absent
  | waiting
  | returned
  | took (w : Option W)
  | woke (w : Option W)
  | ended (w : Option W)

/-- The child, its waker slot and flag, and both program counters. `woken` is a
ghost: the wakers woken since the most recent poll began. -/
structure State (W : Type) where
  exitCode : Option UInt32
  waker : Option W
  waitStarted : Bool
  poll : PollPc W
  waiter : WaiterPc W
  woken : List W

/-- `WinChild::new`, over a process that is running. -/
def init (W : Type) : State W :=
  { exitCode := none, waker := none, waitStarted := false, poll := .unpolled,
    waiter := .absent, woken := [] }

/-- The steps. A step that makes a system call carries how the call went. -/
inductive Action (W : Type) where
  | exit (code : UInt32)
  | poll (w : W) (getExitCode : Except Errno Unit)
  | store
  | swap
  | start (tryClone : Except Errno Unit)
  | ret
  | wait (failed : Bool)
  | take
  | wake
  | finish

/-- `GetExitCodeProcess`. -/
def getExitCodeProcess : Option UInt32 → UInt32
  | none => STILL_ACTIVE
  | some code => code

/-- `WinChild::is_complete`, `call` being the outcome of `GetExitCodeProcess`. -/
def isComplete (exitCode : Option UInt32) (call : Except Errno Unit) :
    Except Errno (Option ExitStatus) :=
  match call with
  | .error e => .error e
  | .ok () =>
    if getExitCodeProcess exitCode = STILL_ACTIVE then .ok none
    else .ok (some (.withExitCode (getExitCodeProcess exitCode)))

/-- No poll is under way. -/
def PollPc.idle {W : Type} : PollPc W → Bool
  | .unpolled | .pending _ | .ready _ => true
  | _ => false

/-- The waker of a poll between its completion check and its store. -/
def PollPc.checkedWaker {W : Type} : PollPc W → Option W
  | .checked w => some w
  | _ => none

/-- The waker of a poll that has stored it and not been followed by another. -/
def PollPc.storedWaker {W : Type} : PollPc W → Option W
  | .stored w | .starting w | .returning w | .pending w => some w
  | _ => none

/-- The waiter holds the waker's mutex: from the take to the wake. -/
def WaiterPc.holdsLock {W : Type} : WaiterPc W → Bool
  | .took _ => true
  | _ => false

/-- The waiter has not taken the waker yet. -/
def WaiterPc.beforeTake {W : Type} : WaiterPc W → Bool
  | .absent | .waiting | .returned => true
  | _ => false

/-- The waker the waiter took. -/
def WaiterPc.taken {W : Type} : WaiterPc W → Option W
  | .took w | .woke w | .ended w => w
  | _ => none

/-- The waiter has left its wait loop. -/
def WaiterPc.pastWait {W : Type} : WaiterPc W → Bool
  | .absent | .waiting => false
  | _ => true

variable {W : Type}

/-- The first step of `poll`: the completion check. -/
def pollStep (s : State W) (w : W) (call : Except Errno Unit) : State W :=
  match isComplete s.exitCode call with
  | .error e => { s with poll := .ready (.error e), woken := [] }
  | .ok (some status) => { s with poll := .ready (.ok status), woken := [] }
  | .ok none => { s with poll := .checked w, woken := [] }

/-- One step, or `none` where the action is not enabled. -/
def step (s : State W) : Action W → Option (State W)
  | .exit code => if s.exitCode.isNone then some { s with exitCode := some code } else none
  | .poll w call => if s.poll.idle then some (pollStep s w call) else none
  | .store =>
    match s.poll with
    | .checked w =>
      if s.waiter.holdsLock then none else some { s with waker := some w, poll := .stored w }
    | _ => none
  | .swap =>
    match s.poll with
    | .stored w =>
      some { s with waitStarted := true, poll := if s.waitStarted then .returning w else .starting w }
    | _ => none
  | .start tryClone =>
    match s.poll with
    | .starting w =>
      match tryClone with
      -- the flag stays set although no thread was started
      | .error e => some { s with poll := .ready (.error e) }
      | .ok () => some { s with poll := .returning w, waiter := .waiting }
    | _ => none
  | .ret =>
    match s.poll with
    | .returning w => some { s with poll := .pending w }
    | _ => none
  | .wait failed =>
    match s.waiter with
    -- WAIT_TIMEOUT goes round the loop, any other value leaves it
    | .waiting =>
      some { s with waiter := if failed || s.exitCode.isSome then .returned else .waiting }
    | _ => none
  | .take =>
    match s.waiter with
    | .returned => some { s with waiter := .took s.waker, waker := none }
    | _ => none
  | .wake =>
    match s.waiter with
    | .took (some w) => some { s with waiter := .woke (some w), woken := w :: s.woken }
    | .took none => some { s with waiter := .woke none }
    | _ => none
  | .finish =>
    match s.waiter with
    | .woke w => some { s with waiter := .ended w }
    | _ => none

/-- The step's system call succeeds, and an exit code is not `STILL_ACTIVE`. -/
def Action.Succeeds : Action W → Prop
  | .exit code => code ≠ STILL_ACTIVE
  | .poll _ call => call = .ok ()
  | .start tryClone => tryClone = .ok ()
  | .wait failed => failed = false
  | _ => True

instance : DecidablePred (Action.Succeeds (W := W))
  | .exit code => inferInstanceAs (Decidable (code ≠ STILL_ACTIVE))
  | .poll _ (.ok ()) | .start (.ok ()) => isTrue rfl
  | .poll _ (.error _) | .start (.error _) => isFalse nofun
  | .wait failed => inferInstanceAs (Decidable (failed = false))
  | .store | .swap | .ret | .take | .wake | .finish => isTrue trivial

/-- If the most recent poll returned `Pending` with `w` and the waiter has ended,
`w` has been woken since that poll began. -/
def NoLostWake (s : State W) : Prop :=
  ∀ w t, s.poll = .pending w → s.waiter = .ended t → w ∈ s.woken

/-- A poll stores its waker before the waiter takes one, or stores the very waker
that the waiter took. -/
def StoresInTime (s : State W) : Action W → Prop
  | .store => s.waiter.beforeTake = true ∨ s.waiter.taken = s.poll.checkedWaker
  | _ => True

instance [DecidableEq W] (s : State W) : DecidablePred (StoresInTime s)
  | .store =>
    inferInstanceAs (Decidable (s.waiter.beforeTake = true ∨ s.waiter.taken = s.poll.checkedWaker))
  | .exit _ | .poll .. | .swap | .start _ | .ret | .wait _ | .take | .wake | .finish => isTrue trivial

/-! What one step does. -/

section
variable {s t : State W}

theorem step_exit {code : UInt32} :
    step s (.exit code) = some t ↔ s.exitCode = none ∧ { s with exitCode := some code } = t := by
  cases h : s.exitCode <;> simp [step, h]

theorem step_poll {w : W} {call : Except Errno Unit} :
    step s (.poll w call) = some t ↔ s.poll.idle = true ∧ pollStep s w call = t := by
  cases h : s.poll.idle <;> simp [step, h]

theorem step_store : step s .store = some t ↔ ∃ w, s.poll = .checked w ∧
    s.waiter.holdsLock = false ∧ { s with waker := some w, poll := .stored w } = t := by
  cases hp : s.poll <;> cases hl : s.waiter.holdsLock <;> simp [step, hp, hl]

theorem step_swap : step s .swap = some t ↔ ∃ w, s.poll = .stored w ∧
    { s with waitStarted := true,
             poll := if s.waitStarted then .returning w else .starting w } = t := by
  cases hp : s.poll <;> simp [step, hp]

theorem step_start : step s (.start (.ok ())) = some t ↔ ∃ w, s.poll = .starting w ∧
    { s with poll := .returning w, waiter := .waiting } = t := by
  cases hp : s.poll <;> simp [step, hp]

theorem step_start_error {e : Errno} (h : step s (.start (.error e)) = some t) :
    ∃ w, s.poll = .starting w ∧ { s with poll := .ready (.error e) } = t := by
  cases hp : s.poll <;> simp_all [step]

theorem step_ret : step s .ret = some t ↔ ∃ w, s.poll = .returning w ∧
    { s with poll := .pending w } = t := by
  cases hp : s.poll <;> simp [step, hp]

theorem step_wait {failed : Bool} : step s (.wait failed) = some t ↔ s.waiter = .waiting ∧
    { s with waiter := if failed || s.exitCode.isSome then .returned else .waiting } = t := by
  cases hw : s.waiter <;> simp [step, hw]

theorem step_take : step s .take = some t ↔ s.waiter = .returned ∧
    { s with waiter := .took s.waker, waker := none } = t := by
  cases hw : s.waiter <;> simp [step, hw]

theorem step_wake : step s .wake = some t ↔ ∃ w, s.waiter = .took w ∧
    { s with waiter := .woke w, woken := w.toList ++ s.woken } = t := by
  cases hw : s.waiter with
  | took w => cases w <;> simp [step, hw]
  | _ => simp [step, hw]

theorem step_finish : step s .finish = some t ↔ ∃ w, s.waiter = .woke w ∧
    { s with waiter := .ended w } = t := by
  cases hw : s.waiter <;> simp [step, hw]

theorem pollStep_running {w : W} (h : s.exitCode = none) :
    pollStep s w (.ok ()) = { s with poll := .checked w, woken := [] } := by
  simp [pollStep, isComplete, getExitCodeProcess, h]

theorem pollStep_exited {w : W} {code : UInt32} (h : s.exitCode = some code)
    (hc : code ≠ STILL_ACTIVE) : pollStep s w (.ok ()) =
      { s with poll := .ready (.ok (.withExitCode code)), woken := [] } := by
  simp [pollStep, isComplete, getExitCodeProcess, h, hc]

/-- The check leaves the poll with its waker to be stored, or with a result. -/
theorem pollStep_cases (s : State W) (w : W) (call : Except Errno Unit) :
    ∃ pc, pollStep s w call = { s with poll := pc, woken := [] } ∧
      ∀ v, pc ≠ .returning v ∧ pc ≠ .starting v := by
  unfold pollStep
  split
  · exact ⟨_, rfl, by simp⟩
  · exact ⟨_, rfl, by simp⟩
  · exact ⟨_, rfl, by simp⟩

/-- A process that has ended keeps its exit code. -/
theorem exitCode_step {a : Action W} {code : UInt32} (hx : s.exitCode = some code)
    (h : step s a = some t) : t.exitCode = some code := by
  cases a with
  | exit c =>
    obtain ⟨hn, -⟩ := step_exit.mp h
    rw [hx] at hn
    cases hn
  | poll w call =>
    obtain ⟨-, rfl⟩ := step_poll.mp h
    obtain ⟨pc, hpc, -⟩ := pollStep_cases s w call
    rw [hpc]
    exact hx
  | store => obtain ⟨w, -, -, rfl⟩ := step_store.mp h; exact hx
  | swap => obtain ⟨w, -, rfl⟩ := step_swap.mp h; exact hx
  | start tryClone =>
    cases tryClone with
    | ok _ => obtain ⟨w, -, rfl⟩ := step_start.mp h; exact hx
    | error e => obtain ⟨w, -, rfl⟩ := step_start_error h; exact hx
  | ret => obtain ⟨w, -, rfl⟩ := step_ret.mp h; exact hx
  | wait failed => obtain ⟨-, rfl⟩ := step_wait.mp h; exact hx
  | take => obtain ⟨-, rfl⟩ := step_take.mp h; exact hx
  | wake => obtain ⟨w, -, rfl⟩ := step_wake.mp h; exact hx
  | finish => obtain ⟨w, -, rfl⟩ := step_finish.mp h; exact hx

end

/-! The invariant. -/

/-- The waker `w` of the most recent poll will be woken, or has been: it lies in
the slot that the waiter has yet to empty, or the waiter holds it, or it was
woken since the poll began. -/
def Armed (s : State W) (w : W) : Prop :=
  (s.waiter.beforeTake = true ∧ s.waker = some w) ∨ s.waiter = .took (some w) ∨ w ∈ s.woken

structure Inv (s : State W) : Prop where
  realCode : ∀ code, s.exitCode = some code → code ≠ STILL_ACTIVE
  exited : s.waiter.pastWait = true → s.exitCode ≠ none
  notStarted : s.waitStarted = false → s.waiter = .absent
  starting : ∀ w, s.poll = .starting w → s.waiter = .absent ∧ s.waitStarted = true
  /-- A poll that found the process running began before the waiter woke anyone. -/
  sinceCheck : ∀ w t, s.poll = .checked w → s.waiter.taken = some t →
    s.waiter.holdsLock = false → t ∈ s.woken
  armed : ∀ w, s.poll.storedWaker = some w → Armed s w
  wokenTaken : ∀ w ∈ s.woken, s.waiter.taken = some w

theorem inv_init : Inv (init W) := by
  refine ⟨?_, ?_, ?_, ?_, ?_, ?_, ?_⟩ <;> simp [init, WaiterPc.pastWait, PollPc.storedWaker]

/-- Once there is a waiter, the flag is set and no poll is about to start one. -/
theorem Inv.present {s : State W} (hi : Inv s) (hw : s.waiter ≠ .absent) :
    s.waitStarted = true ∧ ∀ w, s.poll ≠ .starting w := by
  refine ⟨?_, ?_⟩
  · cases h : s.waitStarted
    · exact absurd (hi.notStarted h) hw
    · rfl
  · intro w hp
    exact hw (hi.starting w hp).1

/-- The waiter moving on keeps what the invariant says of the flag and the start. -/
theorem Inv.waiter_moves {s : State W} {p : WaiterPc W} {k : Option W} {l : List W} (hi : Inv s)
    (hw : s.waiter ≠ .absent) (hx : p.pastWait = true → s.exitCode ≠ none)
    (hc : ∀ w t, s.poll = .checked w → p.taken = some t → p.holdsLock = false → t ∈ l)
    (ha : ∀ w, s.poll.storedWaker = some w →
      Armed { s with waiter := p, waker := k, woken := l } w)
    (ht : ∀ w ∈ l, p.taken = some w) :
    Inv { s with waiter := p, waker := k, woken := l } := by
  obtain ⟨hstart, hnot⟩ := hi.present hw
  exact ⟨hi.realCode, hx, by simp [hstart], fun w hp => absurd hp (hnot w), hc, ha, ht⟩

section
variable {s t : State W}

theorem Armed.of_woken {w : W} (h : w ∈ s.woken) : Armed s w := .inr (.inr h)

theorem WaiterPc.beforeTake_of_not_pastWait {p : WaiterPc W} (h : p.pastWait = false) :
    p.beforeTake = true := by
  cases p <;> simp_all [WaiterPc.pastWait, WaiterPc.beforeTake]

theorem WaiterPc.taken_of_beforeTake {p : WaiterPc W} (h : p.beforeTake = true) :
    p.taken = none := by
  cases p <;> simp_all [WaiterPc.taken, WaiterPc.beforeTake]

theorem inv_exit {code : UInt32} (hi : Inv s) (hc : code ≠ STILL_ACTIVE) :
    Inv { s with exitCode := some code } where
  realCode := by rintro c ⟨⟩; exact hc
  exited := by simp
  notStarted := hi.notStarted
  starting := hi.starting
  sinceCheck := hi.sinceCheck
  armed := hi.armed
  wokenTaken := hi.wokenTaken

/-- A poll that begins while the process runs finds the waiter still waiting. -/
theorem inv_poll {w : W} (hi : Inv s) : Inv (pollStep s w (.ok ())) := by
  cases hx : s.exitCode with
  | none =>
    rw [pollStep_running hx]
    have hpast : s.waiter.pastWait = false := by
      cases hp : s.waiter.pastWait
      · rfl
      · exact absurd hx (hi.exited hp)
    have htaken := WaiterPc.taken_of_beforeTake (WaiterPc.beforeTake_of_not_pastWait hpast)
    refine ⟨hi.realCode, hi.exited, hi.notStarted, ?_, ?_, ?_, ?_⟩
    · simp
    · intro _ u _ hu; rw [htaken] at hu; cases hu
    · simp [PollPc.storedWaker]
    · simp
  | some code =>
    rw [pollStep_exited hx (hi.realCode code hx)]
    refine ⟨hi.realCode, hi.exited, hi.notStarted, ?_, ?_, ?_, ?_⟩ <;> simp [PollPc.storedWaker]

/-- The store arms the poll: either the waiter will take the stored waker, or it
took the same waker and woke it after this poll began. -/
theorem inv_store {w : W} (hi : Inv s) (hp : s.poll = .checked w)
    (hl : s.waiter.holdsLock = false) (ht : s.waiter.beforeTake = true ∨ s.waiter.taken = some w) :
    Inv { s with waker := some w, poll := .stored w } := by
  refine ⟨hi.realCode, hi.exited, hi.notStarted, by simp, by simp, ?_, hi.wokenTaken⟩
  rintro u ⟨⟩
  rcases ht with ht | ht
  · exact .inl ⟨ht, rfl⟩
  · exact .of_woken (hi.sinceCheck w w hp ht hl)

theorem inv_swap {w : W} (hi : Inv s) (hp : s.poll = .stored w) :
    Inv { s with waitStarted := true,
                 poll := if s.waitStarted then .returning w else .starting w } := by
  have harmed : Armed s w := hi.armed w (by rw [hp]; rfl)
  cases hw : s.waitStarted with
  | true =>
    refine ⟨hi.realCode, hi.exited, by simp, by simp, by simp, ?_, hi.wokenTaken⟩
    rintro u ⟨⟩; exact harmed
  | false =>
    refine ⟨hi.realCode, hi.exited, by simp, fun _ _ => ⟨hi.notStarted hw, rfl⟩, by simp, ?_,
      hi.wokenTaken⟩
    rintro u ⟨⟩; exact harmed

theorem inv_start {w : W} (hi : Inv s) (hp : s.poll = .starting w) :
    Inv { s with poll := .returning w, waiter := .waiting } := by
  obtain ⟨ha, hw⟩ := hi.starting w hp
  refine ⟨hi.realCode, by simp [WaiterPc.pastWait], by simp [hw], by simp, by simp, ?_, ?_⟩
  · rintro u ⟨⟩
    rcases hi.armed w (by rw [hp]; rfl) with ⟨_, hk⟩ | hk | hk
    · exact .inl ⟨rfl, hk⟩
    · rw [ha] at hk; cases hk
    · exact .of_woken hk
  · intro u hu
    have := hi.wokenTaken u hu; rw [ha] at this; cases this

theorem inv_ret {w : W} (hi : Inv s) (hp : s.poll = .returning w) :
    Inv { s with poll := .pending w } := by
  refine ⟨hi.realCode, hi.exited, hi.notStarted, by simp, by simp, ?_, hi.wokenTaken⟩
  rintro u ⟨⟩
  exact hi.armed w (by rw [hp]; rfl)

theorem inv_wait (hi : Inv s) (hw : s.waiter = .waiting) :
    Inv { s with waiter := if false || s.exitCode.isSome then .returned else .waiting } := by
  refine hi.waiter_moves (by simp [hw]) ?_ ?_ ?_ ?_
  · cases hx : s.exitCode <;> simp [WaiterPc.pastWait]
  · intro w u _ hu
    cases hx : s.exitCode <;> simp [hx, WaiterPc.taken] at hu
  · intro w hp
    rcases hi.armed w hp with ⟨_, hk⟩ | hk | hk
    · refine .inl ⟨?_, hk⟩
      cases hx : s.exitCode <;> simp [WaiterPc.beforeTake]
    · rw [hw] at hk; cases hk
    · exact .of_woken hk
  · intro w hk
    have := hi.wokenTaken w hk; rw [hw] at this; cases this

theorem inv_take (hi : Inv s) (hw : s.waiter = .returned) :
    Inv { s with waiter := .took s.waker, waker := none } := by
  refine hi.waiter_moves (by simp [hw]) (fun _ => hi.exited (by rw [hw]; rfl)) ?_ ?_ ?_
  · simp [WaiterPc.holdsLock]
  · intro w hp
    rcases hi.armed w hp with ⟨_, hk⟩ | hk | hk
    · exact .inr (.inl (by rw [hk]))
    · rw [hw] at hk; cases hk
    · exact .of_woken hk
  · intro w hk
    have := hi.wokenTaken w hk; rw [hw] at this; cases this

theorem inv_wake {w : Option W} (hi : Inv s) (hw : s.waiter = .took w) :
    Inv { s with waiter := .woke w, woken := w.toList ++ s.woken } := by
  refine hi.waiter_moves (by simp [hw]) (fun _ => hi.exited (by rw [hw]; rfl)) ?_ ?_ ?_
  · rintro u v _ ⟨⟩ _; simp
  · intro u hp
    rcases hi.armed u hp with ⟨hk, _⟩ | hk | hk
    · rw [hw] at hk; cases hk
    · rw [hw] at hk; cases hk; exact .of_woken (by simp)
    · exact .of_woken (by simp [hk])
  · intro u hu
    rcases List.mem_append.mp hu with hu | hu
    · exact Option.mem_toList.mp hu
    · have := hi.wokenTaken u hu; rw [hw] at this; exact this

theorem inv_finish {w : Option W} (hi : Inv s) (hw : s.waiter = .woke w) :
    Inv { s with waiter := .ended w } := by
  refine hi.waiter_moves (by simp [hw]) (fun _ => hi.exited (by rw [hw]; rfl)) ?_ ?_ ?_
  · intro u v hp hv _
    exact hi.sinceCheck u v hp (by rw [hw]; exact hv) (by rw [hw]; rfl)
  · intro u hp
    rcases hi.armed u hp with ⟨hk, _⟩ | hk | hk
    · rw [hw] at hk; cases hk
    · rw [hw] at hk; cases hk
    · exact .of_woken hk
  · intro u hu
    have := hi.wokenTaken u hu; rw [hw] at this; exact this

/-- The step rule: a step whose call succeeds and which stores in time keeps the
invariant. -/
theorem inv_step {a : Action W} (hi : Inv s) (hok : a.Succeeds) (ht : StoresInTime s a)
    (h : step s a = some t) : Inv t := by
  cases a with
  | exit code => obtain ⟨_, rfl⟩ := step_exit.mp h; exact inv_exit hi hok
  | poll w call =>
    obtain ⟨_, rfl⟩ := step_poll.mp h
    rw [show call = .ok () from hok]
    exact inv_poll hi
  | store =>
    obtain ⟨w, hp, hl, rfl⟩ := step_store.mp h
    exact inv_store hi hp hl (ht.imp_right fun hk => by rw [hk, hp]; rfl)
  | swap => obtain ⟨w, hp, rfl⟩ := step_swap.mp h; exact inv_swap hi hp
  | start tryClone =>
    rw [show tryClone = .ok () from hok] at h
    obtain ⟨w, hp, rfl⟩ := step_start.mp h; exact inv_start hi hp
  | ret => obtain ⟨w, hp, rfl⟩ := step_ret.mp h; exact inv_ret hi hp
  | wait failed =>
    rw [show failed = false from hok] at h
    obtain ⟨hw, rfl⟩ := step_wait.mp h; exact inv_wait hi hw
  | take => obtain ⟨hw, rfl⟩ := step_take.mp h; exact inv_take hi hw
  | wake => obtain ⟨w, hw, rfl⟩ := step_wake.mp h; exact inv_wake hi hw
  | finish => obtain ⟨w, hw, rfl⟩ := step_finish.mp h; exact inv_finish hi hw

theorem Inv.noLostWake (hi : Inv s) : NoLostWake s := by
  intro w u hp hw
  rcases hi.armed w (by rw [hp]; rfl) with ⟨hk, _⟩ | hk | hk
  · rw [hw] at hk; cases hk
  · rw [hw] at hk; cases hk
  · exact hk

end

/-- In every run whose system calls succeed and whose polls store their wakers in
time, no wake-up is lost. -/
theorem no_lost_wakeup (as : List (Action W)) (s : State W) (hok : ∀ a ∈ as, a.Succeeds)
    (ht : StepSystem.Along step StoresInTime (init W) as)
    (hr : StepSystem.run step (init W) as = some s) : NoLostWake s :=
  (StepSystem.run_along (fun _ _ _ hi hp h => inv_step hi hp.1 hp.2 h) as inv_init
    (ht.and_mem hok) hr).noLostWake

/-- The condition is exact: after a store that is not in time, nothing but the end
of the poll and of the waiter is needed to lose the wake-up. -/
theorem late_store_loses_wakeup {s t : State W} (hi : Inv s) (hs : step s .store = some t)
    (hlate : ¬ StoresInTime s .store) :
    ∃ bs u, (∀ b ∈ bs, b.Succeeds) ∧ StepSystem.run step t bs = some u ∧ ¬ NoLostWake u := by
  obtain ⟨w, hp, hl, rfl⟩ := step_store.mp hs
  simp only [StoresInTime, not_or, hp, PollPc.checkedWaker] at hlate
  obtain ⟨hb, hne⟩ := hlate
  have hstart : s.waitStarted = true := (hi.present (by intro h; rw [h] at hb; exact hb rfl)).1
  have hw : w ∉ s.woken := fun h => hne (hi.wokenTaken w h)
  cases hk : s.waiter with
  | woke v =>
    refine ⟨[.swap, .ret, .finish],
      { s with waker := some w, waitStarted := true, poll := .pending w, waiter := .ended v },
      by simp [Action.Succeeds], ?_, fun h => hw (h w v rfl rfl)⟩
    simp [StepSystem.run, step, hstart]
  | ended v =>
    refine ⟨[.swap, .ret],
      { s with waker := some w, waitStarted := true, poll := .pending w },
      by simp [Action.Succeeds], ?_, fun h => hw (h w v rfl hk)⟩
    simp [StepSystem.run, step, hstart, hk]
  | _ => simp [hk, WaiterPc.beforeTake, WaiterPc.holdsLock] at hb hl

/-- Two polls with different wakers, the second stored before the process exits. -/
def twoPolls : List (Action Nat) :=
  [.poll 1 (.ok ()), .store, .swap, .start (.ok ()), .ret, .wait false, .poll 2 (.ok ()), .store,
   .swap, .ret, .exit 0, .wait false, .take, .wake, .finish]

theorem no_lost_wakeup_two_polls : ∃ s, StepSystem.run step (init Nat) twoPolls = some s ∧
    s.poll = .pending 2 ∧ s.waiter = .ended (some 2) ∧ NoLostWake s :=
  ⟨_, rfl, rfl, rfl, no_lost_wakeup twoPolls _ (by decide) (by decide) rfl⟩

/-- The second poll checks the exit code before the process exits and stores its
waker after the waiter has taken the first poll's. -/
def lateStore : List (Action Nat) :=
  [.poll 1 (.ok ()), .store, .swap, .start (.ok ()), .ret, .poll 2 (.ok ()), .exit 0, .wait false,
   .take, .wake, .finish, .store, .swap, .ret]

/-- The second poll returned `Pending` and the waiter has ended, but only the
first poll's waker was woken. -/
theorem late_waker_is_never_woken : ¬ ∀ (as : List (Action Nat)) (s : State Nat),
    (∀ a ∈ as, a.Succeeds) → StepSystem.run step (init Nat) as = some s → NoLostWake s := by
  intro h
  have hlost := h lateStore _ (by decide) rfl 2 (some 1) rfl rfl
  exact absurd hlost (by decide)

end Xpty.WinFuture
