import Xpty.UnixKill

/- The contract of `ChildKiller::kill`, "terminate the child process", for the killers of
   the native pty systems: when a `kill` returns `Ok`, the child has exited, or has been sent
   SIGKILL, or `TerminateProcess` on it has succeeded.

   On Unix the calls are those of `UnixKill`, and any `kill(2)` may be refused besides; the
   child may react to a signal at once, later or not at all. On Windows `clone_killer` panics
   when the handle cannot be duplicated, with the lock held, and the lock is poisoned.

   `std::process::Child` and `WinChildKiller` meet the contract. A `ProcessSignaller` sends
   SIGHUP only, and `WinChild::kill` drops the result of `TerminateProcess`:
   `kill_ends_child_iff` says when these meet it. -/
namespace Xpty.ChildKill

open UnixKill (Owner)

/-- A system with killers: its steps, which of them return from a `kill` with `Ok`, and in
which states the child has been ended. -/
structure KillSystem (S A : Type) where
  step : S → A → Option S
  killOk : A → S → Prop
  ended : S → Prop

/-- After every `kill` of the run that returned `Ok`, the child has been ended. -/
def KillSystem.KillsEnd {S A : Type} (k : KillSystem S A) : S → List A → Prop :=
  StepSystem.Along k.step fun s a => ∀ t, k.step s a = some t → k.killOk a t → k.ended t

theorem KillSystem.killsEnd_iff {S A : Type} {k : KillSystem S A} {Inv : S → Prop} {P : S → A → Prop}
    (keep : ∀ s a t, Inv s → k.step s a = some t → Inv t)
    (exact : ∀ s a t, Inv s → k.step s a = some t → ((k.killOk a t → k.ended t) ↔ P s a))
    (as : List A) {s u : S} (hs : Inv s) (hr : StepSystem.run k.step s as = some u) :
    k.KillsEnd s as ↔ StepSystem.Along k.step P s as := by
  refine StepSystem.along_congr keep (fun s a t hs ht => ?_) as hs hr
  rw [← exact s a t hs ht]
  refine ⟨?_, ?_⟩
  · intro h
    exact h t ht
  · intro h t' ht'
    rw [ht] at ht'
    cases ht'
    exact h

/-! Unix. -/

namespace Unix
open UnixKill

/-- The calls. `refused a e` is `a` with its `kill(2)` refused, and `killExit i status` is the
`kill` of a killer to which the child reacts by exiting before the call returns. -/
inductive Call where
  | act (a : Action)
  | refused (a : Action) (e : Errno)
  | killExit (i : Nat) (status : ExitStatus)

/-- The child has not exited. -/
def running (s : State) : Bool :=
  match s.table s.pid with
  | some ⟨.child, none⟩ => s.status.isNone
  | _ => false

def step (s : State) : Call → Option State
  | .act a => UnixKill.step s a
  | .refused .kill e => if s.killing.isNone then some (returning s (.error e)) else none
  | .refused .stdKill e =>
    if s.killing = some 5 ∧ s.status.isNone then some (returning s (.error e)) else none
  | .refused (.signallerKill i) e =>
    if (s.killers[i]?).isSome then some { s with result := some (.error e) } else none
  | .refused _ _ => none
  | .killExit i status =>
    if running s then
      (UnixKill.step s (.signallerKill i)).bind fun t => UnixKill.step t (.exit s.pid status)
    else none

/-- The step returns from a `kill` with `Ok`. -/
def killOk (c : Call) (t : State) : Prop :=
  t.result = some (.ok ()) ∧
    match c with
    | .act .kill | .act (.attempt _) | .act .stdKill => t.killing = none
    | .act (.signallerKill _) | .killExit _ _ => True
    | _ => False

/-- The child has exited, or has been sent SIGKILL. -/
def ended (s : State) : Prop := running s = false ∨ (.SIGKILL, .child) ∈ s.sent

instance (s : State) : Decidable (ended s) :=
  inferInstanceAs (Decidable (running s = false ∨ (.SIGKILL, .child) ∈ s.sent))

def system : KillSystem State Call := { step, killOk, ended }

/-- A killer is used once the child has been ended, or the child exits on its signal. -/
def EndedBefore (s : State) : Call → Prop
  | .act (.signallerKill _) => ended s
  | _ => True

instance (s : State) : DecidablePred (EndedBefore s)
  | .act (.signallerKill _) => inferInstanceAs (Decidable (ended s))
  | .act (.exit ..) | .act (.reap _) | .act (.fork ..) | .act .tryWait | .act .wait | .act .kill
  | .act (.attempt _) | .act .stdKill | .act .cloneKiller | .act (.signallerClone _)
  | .refused .. | .killExit .. => isTrue trivial

section
variable {s t : State}

/-- A refused call changes nothing but that it returns its error. -/
theorem step_refused {a : Action} {e : Errno} (h : step s (.refused a e) = some t) :
    { s with killing := t.killing, result := some (.error e) } = t := by
  cases a with
  | kill | stdKill | signallerKill i =>
    simp only [step, Option.ite_none_right_eq_some] at h
    obtain ⟨-, h⟩ := h
    cases h; rfl
  | _ => cases h

theorem step_killExit {i : Nat} {status : ExitStatus} (h : step s (.killExit i status) = some t) :
    ∃ u, UnixKill.step s (.signallerKill i) = some u ∧ UnixKill.step u (.exit s.pid status) = some t := by
  simp only [step, Option.ite_none_right_eq_some] at h
  exact Option.bind_eq_some_iff.mp h.2

theorem inv_step {c : Call} (hi : Inv s) (h : step s c = some t) : Inv t := by
  cases c with
  | act a => exact UnixKill.inv_step hi h
  | refused a e =>
    rw [← step_refused h]
    exact ⟨hi.alive, hi.killers⟩
  | killExit i status =>
    obtain ⟨u, hu, ht⟩ := step_killExit h
    exact UnixKill.inv_step (UnixKill.inv_step hi hu) ht

/-- A killer finds the child at its pid, unless that is free. -/
theorem signallerKill_cases {i : Nat} (hi : Inv s)
    (h : UnixKill.step s (.signallerKill i) = some t) :
    (s.table s.pid = none ∧ { s with result := some (.error ESRCH) } = t) ∨
    { s with sent := deliveries s s.pid .SIGHUP ++ s.sent, result := some (.ok ()) } = t := by
  obtain ⟨k, hk, hkill⟩ := step_signallerKill h
  have hp : k.pid = some s.pid := hi.killers k (List.mem_of_getElem? hk)
  simp only [ProcessSignaller.kill, hp] at hkill
  obtain ⟨u, hu, rfl⟩ | ⟨e, he, rfl⟩ := hkill
  · obtain ⟨-, rfl⟩ := libcKill_ok.mp hu
    exact .inr rfl
  · obtain ⟨hfree, rfl⟩ := libcKill_error.mp he
    exact .inl ⟨hfree, rfl⟩

theorem ended_of_status {status : ExitStatus} (h : s.status = some status) : ended s := by
  left
  unfold running
  split
  · simp [h]
  · rfl

theorem ended_of_free (h : s.table s.pid = none) : ended s := by
  left
  unfold running
  simp [h]

theorem tryWait_status {status : ExitStatus} (h : tryWait s = (some status, t)) :
    t.status = some status := by
  unfold tryWait at h
  split at h
  · rename_i hs
    cases h
    exact hs
  · split at h
    · cases h; rfl
    · cases h

/-! What a `kill` that returns `Ok` has done, for each of the killers. -/

/-- `Child::kill` returns from the polling loop with the status of the child. -/
theorem attempt_ends {failed : Bool} (h : UnixKill.step s (.attempt failed) = some t)
    (hk : t.killing = none) : ended t := by
  obtain ⟨status, u, hu, rfl⟩ | ⟨n, rfl⟩ := step_attempt h
  · have hst : u.status = some status := tryWait_status hu
    exact ended_of_status hst
  · cases hk

/-- Or it has sent SIGKILL: while no status is cached the pid is the child's. -/
theorem stdKill_ends (hi : Inv s) (h : UnixKill.step s .stdKill = some t) : ended t := by
  obtain rfl := step_stdKill h
  cases hs : s.status with
  | some status =>
    rw [stdKill, hs]
    exact ended_of_status hs
  | none =>
    obtain ⟨st, hc⟩ := hi.alive hs
    have hk : libcKill s s.pid .SIGKILL = .ok { s with sent := (.SIGKILL, .child) :: s.sent } :=
      libcKill_ok.mpr (by simp [deliveries, hc])
    right
    simp [stdKill, hs, hk, returning]

/-- After its SIGHUP it goes on to the loop. -/
theorem kill_not_ok (h : UnixKill.step s .kill = some t) (hk : t.killing = none) :
    t.result ≠ some (.ok ()) := by
  obtain ⟨u, -, rfl⟩ | ⟨e, -, rfl⟩ := step_kill h
  · cases hk
  · simp [returning]

/-- A killer sends SIGHUP, which ends nothing by itself. -/
theorem signallerKill_ends_iff {i : Nat} (hi : Inv s)
    (h : UnixKill.step s (.signallerKill i) = some t) :
    (t.result = some (.ok ()) → ended t) ↔ ended s := by
  obtain ⟨hfree, rfl⟩ | rfl := signallerKill_cases hi h
  · have he : ended s := ended_of_free hfree
    simp [he]
  · have hsent : (.SIGKILL, .child) ∉ deliveries s s.pid .SIGHUP := by simp [deliveries]
    simp [ended, running, hsent]

theorem killExit_ends {i : Nat} {status : ExitStatus} (hi : Inv s)
    (h : step s (.killExit i status) = some t) : ended t := by
  obtain ⟨u, hu, ht⟩ := step_killExit h
  have hp : u.pid = s.pid := by obtain ⟨_, rfl⟩ | rfl := signallerKill_cases hi hu <;> rfl
  obtain ⟨owner, -, rfl⟩ := step_exit ht
  left
  simp [running, hp]

/-- A step meets the contract exactly when it is not a killer's `kill` without effect. -/
theorem step_ends_iff {c : Call} (hi : Inv s) (h : step s c = some t) :
    (killOk c t → ended t) ↔ EndedBefore s c := by
  cases c with
  | act a =>
    cases a with
    | signallerKill i => simpa [killOk, EndedBefore] using signallerKill_ends_iff hi h
    | kill =>
      show _ ↔ True
      refine iff_true_intro fun hok => ?_
      exact absurd hok.1 (kill_not_ok h hok.2)
    | attempt failed =>
      show _ ↔ True
      refine iff_true_intro fun hok => ?_
      exact attempt_ends h hok.2
    | stdKill =>
      show _ ↔ True
      refine iff_true_intro fun _ => ?_
      exact stdKill_ends hi h
    | _ => simp [killOk, EndedBefore]
  | killExit i status =>
    show _ ↔ True
    refine iff_true_intro fun _ => ?_
    exact killExit_ends hi h
  | refused a e => simp [killOk, EndedBefore]

end

/-- In every run of the calls. -/
theorem killsEnd_iff (pid : Pid) (others : Pid → Option Nat) (cs : List Call) (s : State)
    (hr : StepSystem.run step (init pid others) cs = some s) :
    system.KillsEnd (init pid others) cs ↔ StepSystem.Along step EndedBefore (init pid others) cs :=
  KillSystem.killsEnd_iff (k := system) (fun _ _ _ hi h => inv_step hi h)
    (fun _ _ _ hi h => step_ends_iff hi h) cs (inv_init pid others) hr

end Unix

/-! Windows. -/

namespace Windows

inductive IoError where
  | lastOsError (e : Errno)
  | other (text : String)
  deriving DecidableEq, Repr

/-- A killer's own duplicate of the handle: the process it refers to. -/
structure WinChildKiller where
  proc : Owner

/-- The process that the handle of the `WinChild` refers to, whether the mutex around it is
poisoned, the killers, whether the child has exited, and what the last kill returned.
`terminated` is a ghost: the processes on which `TerminateProcess` has succeeded. -/
structure State where
  proc : Owner
  poisoned : Bool
  killers : List WinChildKiller
  exited : Bool
  result : Option (Except IoError Unit)
  terminated : List Owner

def init : State :=
  { proc := .child, poisoned := false, killers := [], exited := false, result := none,
    terminated := [] }

/-- The calls, with the outcome of the system call they make, and the exit of the child. -/
inductive Action where
  | exit
  | kill (terminate : Except Errno Unit)
  | cloneKiller (tryClone : Except Errno Unit)
  | killerKill (i : Nat) (terminate : Except Errno Unit)
  | killerClone (i : Nat) (tryClone : Except Errno Unit)

/-- `TerminateProcess`, its failure as `last_os_error`. -/
def terminateProcess (s : State) (proc : Owner) : Except Errno Unit → Except IoError Unit × State
  | .ok () => (.ok (), { s with terminated := proc :: s.terminated })
  | .error e => (.error (.lastOsError e), s)

/-- `WinChild::do_kill`. -/
def doKill (s : State) (terminate : Except Errno Unit) : Except IoError Unit × State :=
  if s.poisoned then (.error (.other "poisoned lock: another task failed inside"), s)
  else terminateProcess s s.proc terminate

def step (s : State) : Action → Option State
  | .exit => some { s with exited := true }
  | .kill terminate =>
    -- `do_kill().ok()`: its result is dropped
    some { (doKill s terminate).2 with result := some (.ok ()) }
  | .cloneKiller tryClone =>
    if s.poisoned then some s
    else
      match tryClone with
      | .ok () => some { s with killers := s.killers ++ [⟨s.proc⟩] }
      -- the panic of `unwrap` unwinds with the guard held
      | .error _ => some { s with poisoned := true }
  | .killerKill i terminate =>
    (s.killers[i]?).map fun k =>
      let (result, t) := terminateProcess s k.proc terminate
      { t with result := some result }
  | .killerClone i tryClone =>
    (s.killers[i]?).map fun k =>
      match tryClone with
      | .ok () => { s with killers := s.killers ++ [k] }
      | .error _ => s

/-- The step returns from a `kill` with `Ok`. -/
def killOk (a : Action) (t : State) : Prop :=
  t.result = some (.ok ()) ∧
    match a with
    | .kill _ | .killerKill _ _ => True
    | _ => False

/-- The child has exited, or has been terminated. -/
def ended (s : State) : Prop := s.exited = true ∨ .child ∈ s.terminated

instance (s : State) : Decidable (ended s) :=
  inferInstanceAs (Decidable (s.exited = true ∨ .child ∈ s.terminated))

def system : KillSystem State Action := { step, killOk, ended }

/-- A `kill` of the `WinChild` takes the lock and terminates the process, or comes when the
child has been ended. -/
def Terminates (s : State) : Action → Prop
  | .kill terminate => (s.poisoned = false ∧ terminate = .ok ()) ∨ ended s
  | _ => True

instance (s : State) : DecidablePred (Terminates s)
  | .kill terminate =>
    inferInstanceAs (Decidable ((s.poisoned = false ∧ terminate = .ok ()) ∨ ended s))
  | .exit | .cloneKiller _ | .killerKill .. | .killerClone .. => isTrue trivial

/-- Every handle is of the child. -/
structure Inv (s : State) : Prop where
  proc : s.proc = .child
  killers : ∀ k ∈ s.killers, k.proc = .child

section
variable {s t : State}

theorem Inv.append (hi : Inv s) {k : WinChildKiller} (hk : k.proc = .child) :
    Inv { s with killers := s.killers ++ [k] } where
  proc := hi.proc
  killers k' hk' := by
    rcases List.mem_append.mp hk' with hk' | hk'
    · exact hi.killers k' hk'
    · rw [List.mem_singleton.mp hk']; exact hk

theorem Inv.terminateProcess (hi : Inv s) (proc : Owner) (terminate : Except Errno Unit) :
    Inv (terminateProcess s proc terminate).2 := by
  cases terminate with
  | ok _ => exact ⟨hi.proc, hi.killers⟩
  | error e => exact hi

theorem Inv.doKill (hi : Inv s) (terminate : Except Errno Unit) : Inv (doKill s terminate).2 := by
  unfold Windows.doKill
  split
  · exact hi
  · exact hi.terminateProcess s.proc terminate

theorem inv_step {a : Action} (hi : Inv s) (h : step s a = some t) : Inv t := by
  cases a with
  | exit =>
    cases h
    exact ⟨hi.proc, hi.killers⟩
  | kill terminate =>
    cases h
    have hk : Inv (doKill s terminate).2 := hi.doKill terminate
    exact ⟨hk.proc, hk.killers⟩
  | cloneKiller tryClone =>
    simp only [step] at h
    split at h
    · cases h; exact hi
    · split at h
      · cases h; exact hi.append hi.proc
      · cases h; exact ⟨hi.proc, hi.killers⟩
  | killerKill i terminate =>
    obtain ⟨k, -, rfl⟩ := Option.map_eq_some_iff.mp h
    have ht : Inv (terminateProcess s k.proc terminate).2 := hi.terminateProcess k.proc terminate
    exact ⟨ht.proc, ht.killers⟩
  | killerClone i tryClone =>
    obtain ⟨k, hk, rfl⟩ := Option.map_eq_some_iff.mp h
    cases tryClone with
    | ok _ => exact hi.append (hi.killers k (List.mem_of_getElem? hk))
    | error e => exact hi

/-- `TerminateProcess` on a handle of the child ends it, or fails and changes nothing. -/
theorem terminateProcess_ends {terminate : Except Errno Unit} :
    ended (terminateProcess s .child terminate).2 ↔ terminate = .ok () ∨ ended s := by
  cases terminate with
  | ok _ => simp [terminateProcess, ended]
  | error e => simp [terminateProcess]

theorem doKill_ends (hi : Inv s) {terminate : Except Errno Unit} :
    ended (doKill s terminate).2 ↔ (s.poisoned = false ∧ terminate = .ok ()) ∨ ended s := by
  unfold doKill
  cases s.poisoned with
  | true => simp
  | false => simp [hi.proc, terminateProcess_ends]

/-- A killer returns the outcome of `TerminateProcess`. -/
theorem killerKill_ends {i : Nat} {terminate : Except Errno Unit} (hi : Inv s)
    (h : step s (.killerKill i terminate) = some t) (hok : t.result = some (.ok ())) : ended t := by
  obtain ⟨k, hk, rfl⟩ := Option.map_eq_some_iff.mp h
  have hchild : k.proc = .child := hi.killers k (List.mem_of_getElem? hk)
  cases terminate with
  | ok _ => simp [terminateProcess, ended, hchild]
  | error e => simp [terminateProcess] at hok

theorem step_ends_iff {a : Action} (hi : Inv s) (h : step s a = some t) :
    (killOk a t → ended t) ↔ Terminates s a := by
  cases a with
  | kill terminate =>
    cases h
    calc
      _ ↔ ended (doKill s terminate).2 := ⟨fun h => h ⟨rfl, trivial⟩, fun h _ => h⟩
      _ ↔ Terminates s (.kill terminate) := doKill_ends hi
  | killerKill i terminate =>
    show _ ↔ True
    refine iff_true_intro fun hok => ?_
    exact killerKill_ends hi h hok.1
  | exit | cloneKiller _ | killerClone _ _ => simp [killOk, Terminates]

end

/-- In every run of the calls. -/
theorem killsEnd_iff (as : List Action) (s : State)
    (hr : StepSystem.run step init as = some s) :
    system.KillsEnd init as ↔ StepSystem.Along step Terminates init as :=
  KillSystem.killsEnd_iff (k := system) (fun _ _ _ hi h => inv_step hi h)
    (fun _ _ _ hi h => step_ends_iff hi h) as ⟨rfl, by simp [init]⟩ hr

end Windows

/-- The contract holds of a run exactly when every `ProcessSignaller` is used once the child
has been ended, or the child exits on its signal, and every `WinChild::kill` terminates the
child or comes when it has been ended. -/
theorem kill_ends_child_iff (pid : UnixKill.Pid) (others : UnixKill.Pid → Option Nat) :
    (∀ (cs : List Unix.Call) (s : UnixKill.State),
      StepSystem.run Unix.step (UnixKill.init pid others) cs = some s →
        (Unix.system.KillsEnd (UnixKill.init pid others) cs ↔
          StepSystem.Along Unix.step Unix.EndedBefore (UnixKill.init pid others) cs)) ∧
    ∀ (as : List Windows.Action) (s : Windows.State),
      StepSystem.run Windows.step Windows.init as = some s →
        (Windows.system.KillsEnd Windows.init as ↔
          StepSystem.Along Windows.step Windows.Terminates Windows.init as) :=
  ⟨Unix.killsEnd_iff pid others, Windows.killsEnd_iff⟩

/-- A child that ignores the SIGHUP of a `kill` is sent SIGKILL, and the killer comes after
that. -/
def killerAfterKill : List Unix.Call :=
  [.act .cloneKiller, .act .kill, .act (.attempt false), .act (.attempt true), .act (.attempt false),
   .act (.attempt false), .act (.attempt false), .act .stdKill, .act (.signallerKill 0)]

/-- The second `TerminateProcess` fails on a child that the first has terminated. -/
def terminateTwice : List Windows.Action :=
  [.cloneKiller (.ok ()), .kill (.ok ()), .killerKill 0 (.error 5), .cloneKiller (.error 8),
   .kill (.ok ())]

theorem kill_ends_child_twice :
    Unix.system.KillsEnd (UnixKill.init 100 fun _ => none) killerAfterKill ∧
      Windows.system.KillsEnd Windows.init terminateTwice :=
  ⟨((kill_ends_child_iff 100 fun _ => none).1 killerAfterKill _ rfl).mpr (by decide),
   ((kill_ends_child_iff 100 fun _ => none).2 terminateTwice _ rfl).mpr (by decide)⟩

/-- A child that ignores SIGHUP survives the `kill` of a cloned killer, and a child on which
`TerminateProcess` fails the `kill` of a `WinChild`; both return `Ok`. -/
theorem child_survives_kill :
    ¬ (∀ (pid : UnixKill.Pid) (others : UnixKill.Pid → Option Nat) (cs : List Unix.Call)
      (s : UnixKill.State), StepSystem.run Unix.step (UnixKill.init pid others) cs = some s →
        Unix.system.KillsEnd (UnixKill.init pid others) cs) ∧
    ¬ ∀ (as : List Windows.Action) (s : Windows.State),
      StepSystem.run Windows.step Windows.init as = some s → Windows.system.KillsEnd Windows.init as := by
  refine ⟨?_, ?_⟩
  · intro h
    have hrun := h 100 (fun _ => none) [.act .cloneKiller, .act (.signallerKill 0)] _ rfl
    have hended := hrun.2.1 _ rfl ⟨rfl, trivial⟩
    simp [Unix.system, Unix.ended, Unix.running, UnixKill.init, UnixKill.deliveries] at hended
  · intro h
    have hrun := h [.kill (.error 5)] _ rfl
    have hended := hrun.1 _ rfl ⟨rfl, trivial⟩
    simp [Windows.system, Windows.ended, Windows.doKill, Windows.terminateProcess, Windows.init] at hended

end Xpty.ChildKill
