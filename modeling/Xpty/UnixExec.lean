import Xpty.UnixSpawn

/- What a program that `spawn_command` starts finds: the state of the child after the
   `execvp` that succeeds. The standard streams are the slave, whatever was open in the
   parent above them is what `close_random_fds` leaves, the hooks, which run last, may
   close any of these, and `execvp` itself closes what is close-on-exec, the pipe that
   reports a failure among it; the umask is the builder's, or the parent's
   (`programState_iff`, `finalState_fds`). -/
namespace Xpty.UnixSpawn

open Unix FailFast

/-- What `close_random_fds` closes: everything above the standard streams, or what the
listing names. -/
def Closes (m : Machine) (fd : RawFd) : Prop :=
  (m.closeRange = true ∧ 3 ≤ fd) ∨ (m.closeRange = false ∧ fd ∈ listedFds m)

instance (m : Machine) (fd : RawFd) : Decidable (Closes m fd) :=
  inferInstanceAs (Decidable ((m.closeRange = true ∧ 3 ≤ fd) ∨
    (m.closeRange = false ∧ fd ∈ listedFds m)))

theorem closeRandomFds_apply (m : Machine) (fds : FdTable) (fd : RawFd) :
    closeRandomFds m fds fd = if Closes m fd then none else fds fd := by
  unfold closeRandomFds
  split
  · rename_i hc
    simp [Closes, hc]
  · rename_i hc
    rw [foldl_close]
    simp [Closes, Bool.eq_false_iff.mpr hc]

theorem gt_of_listed {m : Machine} {fd : RawFd} (h : fd ∈ listedFds m) : 2 < fd := by
  unfold listedFds at h
  split at h
  · cases h
  · obtain ⟨entry, -, hentry⟩ := List.mem_filterMap.mp h
    simpa using (Option.filter_eq_some_iff.mp hentry).2

/-- It spares the standard streams. -/
theorem gt_of_closes {m : Machine} {fd : RawFd} (h : Closes m fd) : 2 < fd := by
  rcases h with ⟨-, hge⟩ | ⟨-, hlisted⟩
  · exact hge
  · exact gt_of_listed hlisted

/-- The three `dup2` of std. -/
def dupped (fds : FdTable) : FdTable :=
  ((fds.set 0 (some .slave)).set 1 (some .slave)).set 2 (some .slave)

theorem dupped_apply (fds : FdTable) (fd : RawFd) :
    dupped fds fd = if fd ∈ [0, 1, 2] then some .slave else fds fd := by
  simp only [dupped, FdTable.set, List.mem_cons, List.not_mem_nil, or_false]
  by_cases h0 : fd = 0
  · simp [h0]
  by_cases h1 : fd = 1
  · simp [h1]
  by_cases h2 : fd = 2
  · simp [h2]
  simp [h0, h1, h2]

/-- The descriptors that the hooks close. -/
def hookCloses (b : Builder) : List RawFd := b.unix.preExecHooks.flatMap Hook.closes

/-- The state at the `execvp`, all steps before it having succeeded. -/
def atExec (m : Machine) (b : Builder) : ChildState where
  fds := (hookCloses b).foldl FdTable.close (closeRandomFds m (dupped (atFork m).fds))
  umask := b.unix.umask

/-- The state that the program finds. -/
def finalState (m : Machine) (b : Builder) : ChildState :=
  { atExec m b with fds := execFds m (atExec m b).fds }

/-- The hooks have the last word, then the slave, then what was open in the parent. -/
theorem atExec_fds (m : Machine) (b : Builder) (fd : RawFd) : (atExec m b).fds fd =
    if fd ∈ hookCloses b then none
    else if fd ∈ [0, 1, 2] then some .slave
    else if Closes m fd then none
    else (atFork m).fds fd := by
  have hfds : (atExec m b).fds fd = if fd ∈ hookCloses b then none
      else closeRandomFds m (dupped (atFork m).fds) fd := foldl_close ..
  rw [hfds, closeRandomFds_apply, dupped_apply]
  by_cases hstd : fd ∈ [0, 1, 2]
  · have hspared : ¬ Closes m fd := by
      intro hcloses
      have hgt := gt_of_closes hcloses
      simp only [List.mem_cons, List.not_mem_nil, or_false] at hstd
      rcases hstd with rfl | rfl | rfl
      · exact absurd hgt (by decide)
      · exact absurd hgt (by decide)
      · exact absurd hgt (by decide)
    simp only [if_neg hspared, if_pos hstd]
  · simp only [if_neg hstd]

/-- Of what was open in the parent, a program has what is neither closed nor close-on-exec. -/
theorem finalState_fds (m : Machine) (b : Builder) (fd : RawFd) : (finalState m b).fds fd =
    if fd ∈ hookCloses b then none
    else if fd ∈ [0, 1, 2] then some .slave
    else if Closes m fd ∨ fd = m.pipe ∨ m.cloexec fd = true then none
    else m.fds fd := by
  have hfds : (finalState m b).fds fd = if keptByExec m fd then (atExec m b).fds fd else none := rfl
  rw [hfds, atExec_fds]
  by_cases hhook : fd ∈ hookCloses b
  · rw [if_pos hhook, if_pos hhook, ite_self]
  rw [if_neg hhook, if_neg hhook]
  by_cases hstd : fd ∈ [0, 1, 2]
  · rw [if_pos hstd, if_pos hstd, if_pos (by simp [keptByExec, hstd])]
  rw [if_neg hstd, if_neg hstd]
  have hkept : keptByExec m fd = true ↔ ¬ (fd = m.pipe ∨ m.cloexec fd = true) := by
    simp [keptByExec, hstd]
  by_cases hflag : fd = m.pipe ∨ m.cloexec fd = true
  · rw [if_neg fun h => hkept.mp h hflag, if_pos (.inr hflag)]
  · -- the descriptor is no pipe, so the table at the fork is the parent's
    have hparent : (atFork m).fds fd = m.fds fd := if_neg fun h => hflag (.inl h)
    rw [if_pos (hkept.mpr hflag), hparent]
    simp only [or_iff_left hflag]

theorem edits_append (as bs : List (Step ChildState Errno)) (st : ChildState) :
    edits (as ++ bs) st = edits bs (edits as st) := List.foldl_append

theorem dupStdio_ok {m : Machine} {fd : RawFd} (h : (dupStdio m fd).result = .ok ())
    (st : ChildState) :
    (dupStdio m fd).edit st = { st with fds := st.fds.set fd (some .slave) } := by
  have hdup : m.dup2 fd = .ok () := h
  simp only [dupStdio, hdup]

/-- Calls leave the descriptors alone. -/
theorem edits_calls : ∀ {steps : List (Step ChildState Errno)} (st : ChildState),
    (∀ step ∈ steps, step.edit = id) → edits steps st = st
  | [], _, _ => rfl
  | step :: steps, st, h => by
    have hstep : step.edit st = st := congrFun (h step List.mem_cons_self) st
    show edits steps (step.edit st) = st
    rw [hstep, edits_calls st fun s hs => h s (List.mem_cons_of_mem _ hs)]

/-- The calls between the `dup2` and `close_random_fds`. -/
def earlyCalls (m : Machine) (b : Builder) (cmd : Command) : List (Step ChildState Errno) :=
  (cmd.currentDir.map fun dir => call (m.chdir dir)).toList ++ [call m.setsid] ++
    (if b.controllingTty then [call m.tiocsctty] else [])

theorem earlyCall_edit {m : Machine} {b : Builder} {cmd : Command} :
    ∀ step ∈ earlyCalls m b cmd, step.edit = id := by
  intro step hstep
  simp only [earlyCalls, List.mem_append, Option.mem_toList, Option.map_eq_some_iff,
    List.mem_singleton] at hstep
  rcases hstep with (⟨dir, -, rfl⟩ | rfl) | htty
  · rfl
  · rfl
  · split at htty
    · obtain rfl := List.mem_singleton.mp htty
      rfl
    · cases htty

theorem edits_earlySteps {m : Machine} {b : Builder} {cmd : Command}
    (h : ∀ step ∈ earlySteps m b cmd, step.result = .ok ()) (st : ChildState) :
    edits (earlySteps m b cmd) st = { st with fds := dupped st.fds } := by
  have hearly : earlySteps m b cmd =
      [dupStdio m 0, dupStdio m 1, dupStdio m 2] ++ earlyCalls m b cmd := by
    simp only [earlySteps, earlyCalls, List.append_assoc]
  rw [hearly] at h ⊢
  rw [edits_append, edits_calls _ earlyCall_edit]
  show (dupStdio m 2).edit ((dupStdio m 1).edit ((dupStdio m 0).edit st)) = _
  rw [dupStdio_ok (h _ (by simp)), dupStdio_ok (h _ (by simp)), dupStdio_ok (h _ (by simp))]
  rfl

theorem edits_hooks : ∀ (hooks : List Hook) (st : ChildState), edits (hooks.map hookStep) st =
    { st with fds := (hooks.flatMap Hook.closes).foldl FdTable.close st.fds }
  | [], st => rfl
  | hook :: hooks, st => by
    show edits (hooks.map hookStep) ((hookStep hook).edit st) = _
    rw [edits_hooks hooks, List.flatMap_cons, List.foldl_append]
    rfl

theorem edits_lateSteps (m : Machine) (b : Builder) (cmd : Command) (fds : FdTable) :
    edits (lateSteps m b cmd) { fds, umask := none } =
      { fds := (hookCloses b).foldl FdTable.close (closeRandomFds m fds), umask := b.unix.umask } := by
  have humask : edits (b.unix.umask.map umaskStep).toList
      { fds := closeRandomFds m fds, umask := none } =
        { fds := closeRandomFds m fds, umask := b.unix.umask } := by
    cases b.unix.umask with
    | none => rfl
    | some mask => rfl
  have hlate : lateSteps m b cmd = [closeStep m] ++ ((b.unix.umask.map umaskStep).toList ++
      (b.unix.preExecHooks.map hookStep ++ [call (m.execvp cmd)])) := rfl
  rw [hlate, edits_append, edits_append, edits_append]
  show edits [call (m.execvp cmd)] (edits (b.unix.preExecHooks.map hookStep)
    (edits (b.unix.umask.map umaskStep).toList { fds := closeRandomFds m fds, umask := none })) = _
  rw [humask, edits_hooks]
  rfl

theorem edits_childSteps {m : Machine} {b : Builder} {cmd : Command}
    (h : ∀ step ∈ childSteps m b cmd, step.result = .ok ()) :
    edits (childSteps m b cmd) (atFork m) = atExec m b := by
  have hearly : ∀ step ∈ earlySteps m b cmd, step.result = .ok () :=
    fun step hstep => h step (List.mem_append_left _ hstep)
  rw [childSteps, edits_append, edits_earlySteps hearly]
  exact edits_lateSteps m b cmd _

theorem performed_of_ok {steps : List (Step ChildState Errno)}
    (h : ∀ step ∈ steps, step.result = .ok ()) : performed steps = steps := by
  have happend := @performed_append_of_ok _ _ steps [] h
  rwa [List.append_nil, performed, List.append_nil] at happend

/-- What the program that `do_exec` gets to finds, if no step fails. -/
def programState (m : Machine) (cmd : Command) (closure : InChild Unit) : Option ChildState :=
  match (doExec m cmd closure).run (atFork m) with
  | .ok _ st => some { st with fds := execFds m st.fds }
  | .error _ _ => none

/-- The child gets to its program exactly when every step succeeds, and the program
finds the final state. -/
theorem programState_iff (m : Machine) (b : Builder) (cmd : Command) (st : ChildState) :
    programState m cmd (preExecClosure m b.controllingTty b.unix.umask b.unix.preExecHooks) =
        some st ↔
      (∀ step ∈ childSteps m b cmd, step.result = .ok ()) ∧ st = finalState m b := by
  rw [programState, doExec_eq, run_performAll, ← failure_eq_none]
  cases hf : failure (childSteps m b cmd) with
  | none =>
    have hok := failure_eq_none.mp hf
    rw [performed_of_ok hok, edits_childSteps hok]
    simp [finalState, eq_comm]
  | some e => simp

end Xpty.UnixSpawn
