import Xpty.ChildStatus

/- How a `WinChild` learns that its process has ended: `try_wait`, `wait` and `poll` all ask
   `is_complete`, which takes the exit code 259 for a process that still runs. What
   `WaitForSingleObject` says in the loop of `wait` is not looked at.

   The three take `&mut self`, so one is over before the next begins, and a `wait` is under
   way from its first check to the round that ends it. The steps of a poll and of the waiter
   thread are those of `WinFuture`. -/
namespace Xpty.WinExit

open WinFuture (STILL_ACTIVE isComplete pollStep)
open ChildStatus (Reply completed)

/-- The child, whether a `wait` is in its loop, and what `try_wait` and `wait` returned, the
last reply first. -/
structure State (W : Type) where
  child : WinFuture.State W
  waiting : Bool
  replies : List Reply

def init (W : Type) : State W := { child := WinFuture.init W, waiting := false, replies := [] }

inductive Action (W : Type) where
  | future (a : WinFuture.Action W)
  | tryWait
  /-- `wait` is called and makes its first check. -/
  | wait
  /-- One round of its loop: `WaitForSingleObject` and another check. -/
  | round

variable {W : Type}

/-- No call is under way. -/
def State.idle (s : State W) : Bool := !s.waiting && s.child.poll.idle

/-- `WinChild::try_wait`, where `GetExitCodeProcess` succeeds. -/
def tryWait (s : State W) : Option ExitStatus := completed s.child.exitCode

/-- A check of a `wait` under way. -/
def waitRound (s : State W) : State W :=
  match tryWait s with
  | some status => { s with waiting := false, replies := .wait status :: s.replies }
  | none => s

def isPoll : WinFuture.Action W → Bool
  | .poll _ _ => true
  | _ => false

/-- One step, or `none` where the action is not enabled. -/
def step (s : State W) : Action W → Option (State W)
  | .future a =>
    if isPoll a && s.waiting then none
    else (WinFuture.step s.child a).map fun child => { s with child }
  | .tryWait => if s.idle then some { s with replies := .tryWait (tryWait s) :: s.replies } else none
  | .wait => if s.idle then some (waitRound { s with waiting := true }) else none
  | .round => if s.waiting then some (waitRound s) else none

/-- The three ways to learn that the process has ended with `code`: `is_complete` says so, a
`wait` that is called or under way returns, and so does a poll. -/
structure Recognised (s : State W) (code : UInt32) : Prop where
  isComplete : isComplete s.child.exitCode (.ok ()) = .ok (some (.withExitCode code))
  wait : waitRound { s with waiting := true } =
    { s with waiting := false, replies := .wait (.withExitCode code) :: s.replies }
  poll : ∀ w, (pollStep s.child w (.ok ())).poll = .ready (.ok (.withExitCode code))

theorem isComplete_exited {code : UInt32} : isComplete (some code) (.ok ()) =
    .ok (if code = STILL_ACTIVE then none else some (.withExitCode code)) := by
  unfold isComplete WinFuture.getExitCodeProcess
  dsimp only
  split <;> rfl

/-- The exit code is what `GetExitCodeProcess` says of a running process. -/
theorem tryWait_stillActive {s : State W} (h : s.child.exitCode = some STILL_ACTIVE) :
    tryWait s = none := by
  unfold tryWait completed
  rw [h, isComplete_exited, if_pos rfl]

theorem tryWait_exited {s : State W} {code : UInt32} (h : s.child.exitCode = some code)
    (hc : code ≠ STILL_ACTIVE) : tryWait s = some (.withExitCode code) := by
  unfold tryWait completed
  rw [h, isComplete_exited, if_neg hc]

/-- A `wait` for a process that ended with 259 goes on, however many rounds it makes. -/
theorem wait_goes_on {s : State W} (h : s.child.exitCode = some STILL_ACTIVE)
    (hw : s.waiting = true) : ∀ n, StepSystem.run step s (List.replicate n .round) = some s
  | 0 => rfl
  | n + 1 => by
    have hround : step s .round = some s := by
      simp [step, hw, waitRound, tryWait_stillActive h]
    rw [List.replicate_succ, StepSystem.run, hround]
    exact wait_goes_on h hw n

theorem waitRound_child (s : State W) : (waitRound s).child = s.child := by
  unfold waitRound
  split <;> rfl

theorem exitCode_step {s t : State W} {a : Action W} {code : UInt32}
    (hx : s.child.exitCode = some code) (h : step s a = some t) : t.child.exitCode = some code := by
  cases a with
  | future a =>
    simp only [step] at h
    split at h
    · cases h
    · obtain ⟨child, hc, rfl⟩ := Option.map_eq_some_iff.mp h
      exact WinFuture.exitCode_step hx hc
  | tryWait =>
    simp only [step, Option.ite_none_right_eq_some] at h
    obtain ⟨-, h⟩ := h
    cases h
    exact hx
  | wait =>
    simp only [step, Option.ite_none_right_eq_some] at h
    obtain ⟨-, h⟩ := h
    cases h
    rw [waitRound_child]
    exact hx
  | round =>
    simp only [step, Option.ite_none_right_eq_some] at h
    obtain ⟨-, h⟩ := h
    cases h
    rw [waitRound_child]
    exact hx

theorem step_exit {s t : State W} {code : UInt32} (h : step s (.future (.exit code)) = some t) :
    t.child.exitCode = some code := by
  obtain ⟨child, hc, rfl⟩ := Option.map_eq_some_iff.mp h
  obtain ⟨-, rfl⟩ := WinFuture.step_exit.mp hc
  rfl

theorem recognised_iff {s : State W} {code : UInt32} (hx : s.child.exitCode = some code) :
    Recognised s code ↔ code ≠ STILL_ACTIVE := by
  refine ⟨?_, ?_⟩
  · intro h hc
    have hcomplete := h.isComplete
    rw [hx, isComplete_exited, if_pos hc] at hcomplete
    cases hcomplete
  · intro hc
    refine ⟨?_, ?_, ?_⟩
    · rw [hx, isComplete_exited, if_neg hc]
    · have ht : tryWait { s with waiting := true } = some (.withExitCode code) :=
        tryWait_exited hx hc
      simp [waitRound, ht]
    · intro w
      rw [WinFuture.pollStep_exited hx hc]

/-- Whatever calls were made before a process ended and since, its end is recognised exactly
when its exit code is not 259. -/
theorem exit_recognised_iff (as bs : List (Action W)) (code : UInt32) (s : State W)
    (hr : StepSystem.run step (init W) (as ++ .future (.exit code) :: bs) = some s) :
    Recognised s code ↔ code ≠ STILL_ACTIVE := by
  obtain ⟨t, -, hbs⟩ := StepSystem.run_append_eq_some.mp hr
  obtain ⟨u, hu, hbs⟩ := StepSystem.run_cons.mp hbs
  have hx : s.child.exitCode = some code :=
    StepSystem.run_keeps (fun _ _ _ => exitCode_step) bs (step_exit hu) hbs
  exact recognised_iff hx

/-- A poll that is `Pending`, a `try_wait`, and a `wait` with one round behind it. -/
def callsBefore : List (Action Nat) :=
  [.future (.poll 1 (.ok ())), .future .store, .future .swap, .future (.start (.ok ())),
   .future .ret, .tryWait, .wait, .round]

theorem exit_recognised_waiting :
    Recognised ((StepSystem.run step (init Nat) (callsBefore ++ .future (.exit 3) ::
      [.future (.wait false)])).get rfl) 3 ↔ 3 ≠ STILL_ACTIVE :=
  exit_recognised_iff callsBefore [.future (.wait false)] 3 _ (Option.some_get _).symm

/-- A process that exits with 259 still runs, for all that the child can tell: `try_wait` has no
status, a `wait` does not return in any number of rounds, and a poll is not ready. -/
theorem exit_259_is_not_recognised :
    (∃ s : State Nat, StepSystem.run step (init Nat) [.wait, .future (.exit 259)] = some s ∧
      tryWait s = none ∧ ∀ n, StepSystem.run step s (List.replicate n .round) = some s) ∧
    ¬ ∀ (as bs : List (Action Nat)) (code : UInt32) (s : State Nat),
      StepSystem.run step (init Nat) (as ++ .future (.exit code) :: bs) = some s →
        Recognised s code := by
  refine ⟨⟨_, rfl, rfl, wait_goes_on rfl rfl⟩, fun h => ?_⟩
  have hrecognised := h [] [] 259 _ rfl
  cases hrecognised.isComplete

end Xpty.WinExit
