import Xpty.FailFast
import Xpty.UnixCommand

/- `PtyFd::spawn_command` and the child it forks. The parent learns of a failure in
   the child only through a close-on-exec pipe: the child writes the errno to it, and
   the parent takes the end of the file for a success. The closure that runs in the
   child calls `close_random_fds`, which closes that pipe with everything else above
   descriptor 2, so that a hook or an `execvp` that fails after it goes unreported.

   `Machine` holds how every system call goes. The child is a sequence of steps that
   stops at the first failure; `doExec_eq` says which, and `spawn_truthful_iff` when
   what the parent returns is right. -/
namespace Xpty.UnixSpawn

open Unix FailFast

variable {N : Type}

/-- What a descriptor refers to: the slave of the pty, the pipe that reports a
failure, or anything else. -/
inductive OpenFile where
  | slave
  | errorPipe
  | other
  deriving DecidableEq, Repr

abbrev FdTable := RawFd → Option OpenFile

def FdTable.set (fds : FdTable) (fd : RawFd) (file : Option OpenFile) : FdTable :=
  fun n => if n = fd then file else fds n

def FdTable.close (fds : FdTable) (fd : RawFd) : FdTable := fds.set fd none

/-- How the system calls of one spawn go. -/
structure Machine where
  /-- The descriptors open in the parent, and which of them are close-on-exec. -/
  fds : FdTable
  cloexec : RawFd → Bool
  /-- The child's end of the pipe that std opens before it forks. -/
  pipe : RawFd
  pipe_gt : 2 < pipe
  /-- `as_stdio` for stdin, stdout and stderr. -/
  asStdio : RawFd → Except (Message UnixStr) Unit
  /-- The pipe and the fork: the pid of the child. -/
  fork : Except Errno Nat
  dup2 : RawFd → Except Errno Unit
  chdir : UnixStr → Except Errno Unit
  setsid : Except Errno Unit
  tiocsctty : Except Errno Unit
  /-- `close_range` is there and returned 0. -/
  closeRange : Bool
  /-- The entries of `/dev/fd`, by their names. -/
  devFd : Except Errno (List (Except Errno UnixStr))
  execvp : Command → Except Errno Unit

/-- What the child's setup changes. -/
structure ChildState where
  fds : FdTable
  umask : Option UInt32

abbrev InChild := EStateM Errno ChildState

/-! `close_random_fds`. -/

def digit (c : UInt8) : Option Nat := if 0x30 ≤ c ∧ c ≤ 0x39 then some (c.toNat - 0x30) else none

def parseDigits : UnixStr → Option Nat
  | [] => none
  | s => s.foldlM (fun n c => (digit c).map (10 * n + ·)) 0

/-- `str::parse::<c_int>`: an optional sign and digits, within 32 bits. -/
def parseCInt : UnixStr → Option Int
  | [] => none
  | c :: s =>
    let value : Option Int :=
      if c = 0x2D then (parseDigits s).map fun n => -(n : Int)
      else if c = 0x2B then (parseDigits s).map fun n => (n : Int)
      else (parseDigits (c :: s)).map fun n => (n : Int)
    value.filter fun n => -0x80000000 ≤ n ∧ n < 0x80000000

/-- The descriptors to close that the listing of `/dev/fd` names. -/
def listedFds (m : Machine) : List RawFd :=
  match m.devFd with
  | .error _ => []
  | .ok dir => dir.filterMap fun entry =>
    (entry.toOption.bind toStr).bind parseCInt |>.filter fun num => num > 2

/-- `close_random_fds`; where there is no `close_range`, it did not return 0. -/
def closeRandomFds (m : Machine) (fds : FdTable) : FdTable :=
  if m.closeRange then fun n => if 3 ≤ n then none else fds n
  else (listedFds m).foldl FdTable.close fds

/-! The child. -/

/-- A `dup2` of std onto a standard descriptor. -/
def dupStdio (m : Machine) (fd : RawFd) : Step ChildState Errno where
  edit st :=
    match m.dup2 fd with
    | .ok () => { st with fds := st.fds.set fd (some .slave) }
    | .error _ => st
  result := m.dup2 fd

def hookStep (hook : Hook) : Step ChildState Errno where
  edit st := { st with fds := hook.closes.foldl FdTable.close st.fds }
  result := hook.result

def closeStep (m : Machine) : Step ChildState Errno :=
  update fun st => { st with fds := closeRandomFds m st.fds }

def umaskStep (mask : UInt32) : Step ChildState Errno :=
  update fun st => { st with umask := some mask }

/-- The closure that `spawn_command` registers. Resetting the signals comes first and
cannot fail. -/
def preExecClosure (m : Machine) (controllingTty : Bool) (umask : Option UInt32)
    (hooks : List Hook) : InChild Unit := do
  (call m.setsid).perform
  if controllingTty then
    (call m.tiocsctty).perform
  modify fun st => { st with fds := closeRandomFds m st.fds }
  if let some mask := umask then
    modify fun st => { st with umask := some mask }
  performAll (hooks.map hookStep)

/-- std's `do_exec`, with the closure as its only `pre_exec`, to the result of its `execvp`. -/
def doExec (m : Machine) (cmd : Command) (closure : InChild Unit) : InChild Unit := do
  (dupStdio m 0).perform
  (dupStdio m 1).perform
  (dupStdio m 2).perform
  if let some dir := cmd.currentDir then
    (call (m.chdir dir)).perform
  closure
  (call (m.execvp cmd)).perform

/-- Whether `execvp` keeps a descriptor open: the copies that `dup2` made are never
close-on-exec, and the pipe always is. -/
def keptByExec (m : Machine) (fd : RawFd) : Bool :=
  fd ∈ [0, 1, 2] || (fd != m.pipe && !m.cloexec fd)

/-- What an `execvp` that succeeds leaves of the descriptors. -/
def execFds (m : Machine) (fds : FdTable) : FdTable :=
  fun fd => if keptByExec m fd then fds fd else none

/-! The parent. -/

/-- `std::process::Child`. -/
structure Child where
  pid : Nat

/-- The descriptors at the fork. -/
def atFork (m : Machine) : ChildState := { fds := m.fds.set m.pipe (some .errorPipe), umask := none }

/-- `std::process::Command::spawn`: a child that fails writes its errno to the pipe,
if that is still open, and the end of the file is taken for a success. -/
def spawn (m : Machine) (cmd : Command) (closure : InChild Unit) : Except Errno Child := do
  let pid ← m.fork
  match (doExec m cmd closure).run (atFork m) with
  | .ok _ _ => .ok { pid }
  -- a write to a descriptor that is closed reaches nobody
  | .error e st => if st.fds m.pipe = some .errorPipe then .error e else .ok { pid }

/-- `PtyFd::spawn_command`. -/
def spawnCommand (m : Machine) (w : World N) (b : Builder) : Except (Error UnixStr) Child := do
  let configuredUmask := b.unix.umask
  let controllingTty := b.controllingTty
  let userHooks := b.unix.preExecHooks
  let b := { b with unix := { b.unix with preExecHooks := [] } }
  let cmd ← asCommand w b
  (m.asStdio 0).mapError .other
  (m.asStdio 1).mapError .other
  (m.asStdio 2).mapError .other
  (spawn m cmd (preExecClosure m controllingTty configuredUmask userHooks)).mapError .io

/-! The steps of the child. -/

/-- Everything before `close_random_fds`. -/
def earlySteps (m : Machine) (b : Builder) (cmd : Command) : List (Step ChildState Errno) :=
  [dupStdio m 0, dupStdio m 1, dupStdio m 2] ++
    (cmd.currentDir.map fun dir => call (m.chdir dir)).toList ++
    [call m.setsid] ++ (if b.controllingTty then [call m.tiocsctty] else [])

/-- `close_random_fds` and everything after it. -/
def lateSteps (m : Machine) (b : Builder) (cmd : Command) : List (Step ChildState Errno) :=
  closeStep m :: (b.unix.umask.map umaskStep).toList ++
    (b.unix.preExecHooks.map hookStep ++ [call (m.execvp cmd)])

/-- What the child does, in order, up to the first failure. -/
def childSteps (m : Machine) (b : Builder) (cmd : Command) : List (Step ChildState Errno) :=
  earlySteps m b cmd ++ lateSteps m b cmd

theorem doExec_eq (m : Machine) (b : Builder) (cmd : Command) :
    doExec m cmd (preExecClosure m b.controllingTty b.unix.umask b.unix.preExecHooks) =
      performAll (childSteps m b cmd) := by
  simp only [doExec, preExecClosure, childSteps, earlySteps, lateSteps, closeStep]
  cases cmd.currentDir <;> cases b.controllingTty <;> cases b.unix.umask <;>
    simp [performAll, performAll_append, perform_update, umaskStep]

/-! The pipe. -/

def PipeOpen (m : Machine) (st : ChildState) : Prop := st.fds m.pipe = some .errorPipe

def Spares (m : Machine) (step : Step ChildState Errno) : Prop :=
  ∀ st, PipeOpen m st → PipeOpen m (step.edit st)

theorem pipeOpen_atFork (m : Machine) : PipeOpen m (atFork m) := by
  simp [PipeOpen, atFork, FdTable.set]

theorem foldl_close : ∀ (closed : List RawFd) (fds : FdTable) (fd : RawFd),
    closed.foldl FdTable.close fds fd = if fd ∈ closed then none else fds fd
  | [], fds, fd => by simp
  | c :: closed, fds, fd => by
    rw [List.foldl_cons, foldl_close closed, FdTable.close, FdTable.set]
    by_cases h : fd = c
    · simp [h]
    · simp [h]

/-- A step that keeps the pipe exactly when a condition holds spares it exactly then. -/
theorem spares_iff {m : Machine} {step : Step ChildState Errno} {c : Prop}
    (h : ∀ st, PipeOpen m (step.edit st) ↔ PipeOpen m st ∧ c) : Spares m step ↔ c := by
  refine ⟨?_, ?_⟩
  · intro hs
    exact ((h _).mp (hs _ (pipeOpen_atFork m))).2
  · intro hc st hst
    exact (h st).mpr ⟨hst, hc⟩

theorem dupStdio_edit {m : Machine} {fd : RawFd} (hfd : fd ≤ 2) (st : ChildState) :
    PipeOpen m ((dupStdio m fd).edit st) ↔ PipeOpen m st ∧ True := by
  have hpipe : m.pipe ≠ fd := Int.ne_of_gt (Int.lt_of_le_of_lt hfd m.pipe_gt)
  rw [and_true, dupStdio]
  dsimp only
  cases m.dup2 fd with
  | ok u => simp [PipeOpen, FdTable.set, hpipe]
  | error e => exact Iff.rfl

theorem hookStep_edit (m : Machine) (hook : Hook) (st : ChildState) :
    PipeOpen m ((hookStep hook).edit st) ↔ PipeOpen m st ∧ m.pipe ∉ hook.closes := by
  simp only [PipeOpen, hookStep, foldl_close]
  split <;> simp_all

theorem closeStep_edit (m : Machine) (st : ChildState) : PipeOpen m ((closeStep m).edit st) ↔
    PipeOpen m st ∧ m.closeRange = false ∧ m.pipe ∉ listedFds m := by
  have hpipe : 3 ≤ m.pipe := m.pipe_gt
  cases hc : m.closeRange with
  | true => simp [PipeOpen, closeStep, update, closeRandomFds, hc, hpipe]
  | false =>
    simp only [PipeOpen, closeStep, update, closeRandomFds, hc, Bool.false_eq_true, if_false,
      foldl_close]
    split <;> simp_all

theorem call_edit (m : Machine) (result : Except Errno Unit) (st : ChildState) :
    PipeOpen m ((call result).edit st) ↔ PipeOpen m st ∧ True := (iff_of_eq (and_true _)).symm

theorem umaskStep_edit (m : Machine) (mask : UInt32) (st : ChildState) :
    PipeOpen m ((umaskStep mask).edit st) ↔ PipeOpen m st ∧ True := (iff_of_eq (and_true _)).symm

theorem earlyStep_edit {m : Machine} {b : Builder} {cmd : Command} :
    ∀ step ∈ earlySteps m b cmd, ∀ st, PipeOpen m (step.edit st) ↔ PipeOpen m st ∧ True := by
  intro step hstep st
  simp only [earlySteps, List.mem_append, List.mem_cons, List.not_mem_nil, or_false,
    Option.mem_toList, Option.map_eq_some_iff] at hstep
  rcases hstep with (((rfl | rfl | rfl) | ⟨dir, -, rfl⟩) | rfl) | htty
  · exact dupStdio_edit (by decide) st
  · exact dupStdio_edit (by decide) st
  · exact dupStdio_edit (by decide) st
  · exact call_edit m _ st
  · exact call_edit m _ st
  · split at htty
    · obtain rfl := List.mem_singleton.mp htty
      exact call_edit m _ st
    · cases htty

/-- The hooks that are called: those up to the first that fails. -/
def hooksCalled : List Hook → List Hook
  | [] => []
  | hook :: hooks =>
    match hook.result with
    | .ok () => hook :: hooksCalled hooks
    | .error _ => [hook]

/-- The setup after `close_random_fds` cannot fail before the hooks. -/
theorem performed_late (m : Machine) (b : Builder) (cmd : Command) :
    performed (lateSteps m b cmd) = closeStep m :: (b.unix.umask.map umaskStep).toList ++
      performed (b.unix.preExecHooks.map hookStep ++ [call (m.execvp cmd)]) := by
  rw [lateSteps]
  refine performed_append_of_ok fun step hstep => ?_
  simp only [List.mem_cons, Option.mem_toList, Option.map_eq_some_iff] at hstep
  rcases hstep with rfl | ⟨mask, -, rfl⟩
  · rfl
  · rfl

theorem spares_hooks (m : Machine) (exec : Except Errno Unit) : ∀ (hooks : List Hook),
    (∀ step ∈ performed (hooks.map hookStep ++ [call exec]), Spares m step) ↔
      ∀ hook ∈ hooksCalled hooks, m.pipe ∉ hook.closes
  | [] => by
    have hcall : Spares m (call exec) := (spares_iff (call_edit m exec)).mpr trivial
    refine iff_of_true (fun step h => ?_) (by simp [hooksCalled])
    have hmem : step ∈ [call exec] := mem_of_mem_performed h
    rw [List.mem_singleton.mp hmem]
    exact hcall
  | hook :: hooks => by
    -- a hook that fails is the last one called
    have hhook := spares_iff (hookStep_edit m hook)
    have hresult : (hookStep hook).result = hook.result := rfl
    rw [List.map_cons, List.cons_append, performed, hooksCalled, hresult]
    cases hook.result with
    | ok u => simp only [List.forall_mem_cons, hhook, spares_hooks m exec hooks]
    | error e => simp only [List.mem_singleton, forall_eq, hhook]

/-- The pipe outlives `close_random_fds` and every hook that is called. -/
def PipeSurvives (m : Machine) (b : Builder) : Prop :=
  m.closeRange = false ∧ m.pipe ∉ listedFds m ∧
    ∀ hook ∈ hooksCalled b.unix.preExecHooks, m.pipe ∉ hook.closes

theorem childStep_edit {m : Machine} {b : Builder} {cmd : Command} :
    ∀ step ∈ childSteps m b cmd, ∀ st,
      PipeOpen m (step.edit st) ↔ PipeOpen m st ∧ Spares m step := by
  have of_iff : ∀ {step c}, (∀ st, PipeOpen m (step.edit st) ↔ PipeOpen m st ∧ c) →
      ∀ st, PipeOpen m (step.edit st) ↔ PipeOpen m st ∧ Spares m step :=
    fun h st => (h st).trans (and_congr_right fun _ => (spares_iff h).symm)
  intro step hstep
  simp only [childSteps, lateSteps, List.mem_append, List.mem_cons, List.mem_map, Option.mem_toList,
    Option.map_eq_some_iff, List.not_mem_nil, or_false] at hstep
  rcases hstep with hearly | (rfl | ⟨mask, -, rfl⟩) | ⟨hook, -, rfl⟩ | rfl
  · exact of_iff (earlyStep_edit step hearly)
  · exact of_iff (closeStep_edit m)
  · exact of_iff (umaskStep_edit m mask)
  · exact of_iff (hookStep_edit m hook)
  · exact of_iff (call_edit m _)

/-- When the child ends, the pipe is open exactly if a step before `close_random_fds`
ended it, or the pipe survives. -/
theorem pipeOpen_end {m : Machine} {b : Builder} {cmd : Command} :
    PipeOpen m (edits (performed (childSteps m b cmd)) (atFork m)) ↔
      (∃ step ∈ earlySteps m b cmd, step.result ≠ .ok ()) ∨ PipeSurvives m b := by
  have hearly : ∀ step ∈ earlySteps m b cmd, Spares m step :=
    fun step h => (spares_iff (earlyStep_edit step h)).mpr trivial
  rw [edits_iff fun step h => childStep_edit step (mem_of_mem_performed h),
    and_iff_right (pipeOpen_atFork m)]
  by_cases hfail : ∃ step ∈ earlySteps m b cmd, step.result ≠ .ok ()
  · -- the child never got to `close_random_fds`
    refine iff_of_true ?_ (.inl hfail)
    rw [childSteps, performed_append_of_failed hfail]
    exact fun step h => hearly step (mem_of_mem_performed h)
  · have hok : ∀ step ∈ earlySteps m b cmd, step.result = .ok () := by
      simpa only [not_exists, not_and, not_not] using hfail
    -- it did, and what it and the hooks after it close decides
    have humask : ∀ step ∈ (b.unix.umask.map umaskStep).toList, Spares m step := by
      intro step h
      obtain ⟨mask, -, rfl⟩ := Option.map_eq_some_iff.mp (Option.mem_toList.mp h)
      exact (spares_iff (umaskStep_edit m mask)).mpr trivial
    rw [or_iff_right hfail, childSteps, performed_append_of_ok hok, performed_late,
      List.forall_mem_append, and_iff_right hearly, List.cons_append, List.forall_mem_cons,
      List.forall_mem_append, and_iff_right humask, spares_hooks, spares_iff (closeStep_edit m),
      PipeSurvives, and_assoc]

/-! What the parent returns. -/

/-- A step of the child fails. -/
def ChildFails (m : Machine) (b : Builder) (cmd : Command) : Prop :=
  ∃ step ∈ childSteps m b cmd, step.result ≠ .ok ()

theorem spawn_ok {m : Machine} {b : Builder} {cmd : Command} :
    (∃ child, spawn m cmd (preExecClosure m b.controllingTty b.unix.umask b.unix.preExecHooks) =
        .ok child) ↔
      (∃ pid, m.fork = .ok pid) ∧
        (¬ ChildFails m b cmd ∨
          ¬ ((∃ step ∈ earlySteps m b cmd, step.result ≠ .ok ()) ∨ PipeSurvives m b)) := by
  have hnone : failure (childSteps m b cmd) = none ↔ ¬ ChildFails m b cmd := by
    simp only [failure_eq_none, ChildFails, not_exists, not_and, not_not]
  rw [← @pipeOpen_end m b cmd, ← hnone, spawn, doExec_eq, run_performAll, PipeOpen]
  cases m.fork with
  | error e => exact iff_of_false (by rintro ⟨child, h⟩; cases h) (by rintro ⟨⟨pid, h⟩, -⟩; cases h)
  | ok pid =>
    cases failure (childSteps m b cmd) with
    | none => exact iff_of_true ⟨_, rfl⟩ ⟨⟨pid, rfl⟩, .inl rfl⟩
    | some e =>
      simp only [bind, Except.bind]
      split
      · rename_i hopen
        exact iff_of_false (by rintro ⟨child, h⟩; cases h) (by simp [hopen])
      · rename_i hopen
        exact iff_of_true ⟨_, rfl⟩ ⟨⟨pid, rfl⟩, .inr hopen⟩

/-- The parent gives up on its own, no child having run. -/
def Refused (m : Machine) (w : World N) (b : Builder) : Prop :=
  (∃ e, asCommand w b = .error e) ∨ (∃ fd ∈ [0, 1, 2], m.asStdio fd ≠ .ok ()) ∨
    ¬ ∃ pid, m.fork = .ok pid

theorem spawnCommand_error {m : Machine} {w : World N} {b : Builder} {e : Error UnixStr}
    (h : asCommand w b = .error e) : spawnCommand m w b = .error e := by
  have hcmd : asCommand w { b with unix := { b.unix with preExecHooks := [] } } = .error e := h
  rw [spawnCommand]
  dsimp only
  rw [hcmd]
  rfl

theorem spawnCommand_ok {m : Machine} {w : World N} {b : Builder} {cmd : Command}
    (h : asCommand w b = .ok cmd) : (∃ child, spawnCommand m w b = .ok child) ↔
      (∀ fd ∈ [0, 1, 2], m.asStdio fd = .ok ()) ∧
        ∃ child, spawn m cmd
          (preExecClosure m b.controllingTty b.unix.umask b.unix.preExecHooks) = .ok child := by
  have hcmd : asCommand w { b with unix := { b.unix with preExecHooks := [] } } = .ok cmd := h
  rw [spawnCommand]
  dsimp only
  rw [hcmd]
  simp only [List.forall_mem_cons, List.not_mem_nil, false_implies, implies_true, and_true]
  cases m.asStdio 0 with
  | error msg => simp [bind, Except.bind, Except.mapError]
  | ok u =>
    cases m.asStdio 1 with
    | error msg => simp [bind, Except.bind, Except.mapError]
    | ok u =>
      cases m.asStdio 2 with
      | error msg => simp [bind, Except.bind, Except.mapError]
      | ok u =>
        cases hs : spawn m cmd
            (preExecClosure m b.controllingTty b.unix.umask b.unix.preExecHooks) <;>
          simp [bind, Except.bind, Except.mapError, hs]

/-- A success means that the hooks and the `execvp` succeeded, and a failure in the
child is an error in the parent. -/
structure Truthful (m : Machine) (w : World N) (b : Builder) : Prop where
  started : ∀ child, spawnCommand m w b = .ok child → ∃ cmd, asCommand w b = .ok cmd ∧
    (∀ hook ∈ b.unix.preExecHooks, hook.result = .ok ()) ∧ m.execvp cmd = .ok ()
  reported : ∀ cmd, asCommand w b = .ok cmd → ChildFails m b cmd → ∃ e, spawnCommand m w b = .error e

theorem not_childFails {m : Machine} {b : Builder} {cmd : Command} : ¬ ChildFails m b cmd ↔
    (¬ ∃ step ∈ earlySteps m b cmd, step.result ≠ .ok ()) ∧
      (∀ hook ∈ b.unix.preExecHooks, hook.result = .ok ()) ∧ m.execvp cmd = .ok () := by
  have humask : ∀ step ∈ (b.unix.umask.map umaskStep).toList, step.result = .ok () := by
    intro step h
    obtain ⟨mask, -, rfl⟩ := Option.map_eq_some_iff.mp (Option.mem_toList.mp h)
    rfl
  have hclose : (closeStep m).result = .ok () := rfl
  simp only [ChildFails, not_exists, not_and, not_not, childSteps, lateSteps, List.forall_mem_append,
    List.forall_mem_cons, List.forall_mem_map, hclose, true_and, hookStep, call, List.not_mem_nil,
    false_implies, implies_true, and_true]
  rw [and_iff_right humask]

theorem truthful_iff {m : Machine} {w : World N} {b : Builder} {cmd : Command}
    (hcmd : asCommand w b = .ok cmd) : Truthful m w b ↔
      ((∃ child, spawnCommand m w b = .ok child) → ¬ ChildFails m b cmd) := by
  refine ⟨?_, ?_⟩
  · intro h hex hfails
    obtain ⟨child, hc⟩ := hex
    obtain ⟨e, he⟩ := h.reported cmd hcmd hfails
    rw [hc] at he
    cases he
  · intro h
    refine ⟨fun child hc => ⟨cmd, hcmd, (not_childFails.mp (h ⟨child, hc⟩)).2⟩, ?_⟩
    intro cmd' hcmd' hfails
    rw [hcmd] at hcmd'
    cases hcmd'
    cases hs : spawnCommand m w b with
    | ok child => exact absurd hfails (h ⟨child, hs⟩)
    | error e => exact ⟨e, rfl⟩

/-- What the parent says is right exactly when it refused on its own, or a step before
`close_random_fds` failed, or all hooks and the `execvp` succeed, or the pipe survives. -/
theorem spawn_truthful_iff (m : Machine) (w : World N) (b : Builder) : Truthful m w b ↔
    Refused m w b ∨ ∃ cmd, asCommand w b = .ok cmd ∧
      ((∃ step ∈ earlySteps m b cmd, step.result ≠ .ok ()) ∨
        ((∀ hook ∈ b.unix.preExecHooks, hook.result = .ok ()) ∧ m.execvp cmd = .ok ()) ∨
        PipeSurvives m b) := by
  cases hcmd : asCommand w b with
  | error e =>
    refine iff_of_true ⟨fun child h => ?_, fun cmd h => ?_⟩ (.inl (.inl ⟨e, hcmd⟩))
    · rw [spawnCommand_error hcmd] at h
      cases h
    · rw [hcmd] at h
      cases h
  | ok cmd =>
    have hrefused : Refused m w b ↔
        (∃ fd ∈ [0, 1, 2], m.asStdio fd ≠ .ok ()) ∨ ¬ ∃ pid, m.fork = .ok pid := by
      rw [Refused, hcmd]
      exact or_iff_right (by rintro ⟨e, h⟩; cases h)
    have hstdio : (∀ fd ∈ [0, 1, 2], m.asStdio fd = .ok ()) ↔
        ¬ ∃ fd ∈ [0, 1, 2], m.asStdio fd ≠ .ok () := by
      simp only [not_exists, not_and, not_not]
    rw [hrefused, truthful_iff hcmd, spawnCommand_ok hcmd, spawn_ok, hstdio, not_childFails]
    simp only [Except.ok.injEq, exists_eq_left']
    by_cases hearly : ∃ step ∈ earlySteps m b cmd, step.result ≠ .ok ()
    · simp only [hearly, true_or, not_true, false_and, or_false, or_true, iff_true]
      intro h
      obtain ⟨-, -, ⟨⟩ | ⟨⟩⟩ := h
    · simp only [hearly, not_false_eq_true, true_and, false_or]
      refine ⟨?_, ?_⟩
      · intro h
        by_cases hs : ∃ fd ∈ [0, 1, 2], m.asStdio fd ≠ .ok ()
        · exact .inl (.inl hs)
        · by_cases hf : ∃ pid, m.fork = .ok pid
          · by_cases hp : PipeSurvives m b
            · exact .inr (.inr hp)
            · exact .inr (.inl (h ⟨hs, hf, .inr hp⟩))
          · exact .inl (.inr hf)
      · intro h hex
        obtain ⟨hs, hf, hall | hp⟩ := hex
        · exact hall
        · rcases h with (h | h) | h | h
          · exact absurd h hs
          · exact absurd hf h
          · exact h
          · exact absurd h hp

/-- A machine with `close_range`, where nothing fails but what the hooks do. -/
def linux : Machine where
  fds := fun n => if n = 5 then some .slave else none
  cloexec n := n = 5
  pipe := 8
  pipe_gt := by decide
  asStdio _ := .ok ()
  fork := .ok 100
  dup2 _ := .ok ()
  chdir _ := .ok ()
  setsid := .ok ()
  tiocsctty := .ok ()
  closeRange := true
  devFd := .error ENOENT
  execvp _ := .ok ()

/-- The default program, with a hook that fails with `EACCES`. -/
def failingHook : Builder :=
  preExec (.newDefaultProg .empty { umask := none, preExecHooks := [] })
    { closes := [], result := .error EACCES }

/-- The hook fails, the child ends without `execvp`, and the parent returns it. -/
theorem failed_hook_is_a_success :
    (∃ child, spawnCommand linux inH failingHook = .ok child) ∧
      ¬ ∀ (m : Machine) (w : World TreeFs.Node) (b : Builder), Truthful m w b := by
  have hcmd := asCommand_default (w := inH) (b := failingHook) rfl
  have hok : ∃ child, spawnCommand linux inH failingHook = .ok child := by
    refine (spawnCommand_ok hcmd).mpr ⟨by decide, ⟨100⟩, rfl⟩
  refine ⟨hok, fun h => ?_⟩
  obtain ⟨child, hc⟩ := hok
  obtain ⟨cmd, -, hhooks, -⟩ := (h linux inH failingHook).started child hc
  exact absurd (hhooks _ (List.mem_singleton.mpr rfl)) (by simp)

end Xpty.UnixSpawn
