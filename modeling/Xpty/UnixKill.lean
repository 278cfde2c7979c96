import Mathlib.Logic.Function.Basic
import Xpty.StepSystem
import Xpty.Common

/- `ChildKiller` on Unix (`lib.rs`): the kill of a `std::process::Child`, and the
   `ProcessSignaller`s cloned from it, over a process table in which a pid is free
   for any process once its owner has exited and been reaped.

   `kill` on the child sends SIGHUP to the stored pid, polls `try_wait` up to five
   times and then calls std's own `Child::kill`, which sends nothing once a status
   is cached. Each of these is one step, so the exit of the child, other killers
   and the reuse of the pid come in between; `wait` and `try_wait` cannot, since
   all three take `&mut self`. A `ProcessSignaller` is a pid and nothing else.

   Nothing guards the SIGHUP: `signal_reaches_stranger`. The SIGKILL is guarded
   by the cached status, and `only_child_signalled_iff` says that a run signals no
   other process exactly when none of its kills starts after the pid was reused. -/
namespace Xpty.UnixKill

abbrev Pid := Nat

def ESRCH : Errno := 3

inductive Owner where
  | child
  | other (n : Nat)
  deriving DecidableEq, Repr

/-- A process of the table, and its status if it has exited and not been reaped. -/
structure Proc where
  owner : Owner
  exited : Option ExitStatus

inductive Signal where
  | SIGHUP
  | SIGKILL
  deriving DecidableEq, Repr

/-- `ProcessSignaller` on Unix. -/
structure ProcessSignaller where
  pid : Option Pid

/-- The table, the `std::process::Child` (its pid and cached status), how many
polls its kill has made while one is under way, the cloned killers, and what the
last kill to return returned. `sent` is a ghost: every signal delivered, and to
whom. -/
structure State where
  table : Pid → Option Proc
  pid : Pid
  status : Option ExitStatus
  killing : Option Nat
  killers : List ProcessSignaller
  result : Option (Except Errno Unit)
  sent : List (Signal × Owner)

/-- The child running at `pid`, and unrelated processes at the other pids. -/
def init (pid : Pid) (others : Pid → Option Nat) : State :=
  { table := fun p => if p = pid then some ⟨.child, none⟩ else (others p).map (⟨.other ·, none⟩)
    pid, status := none, killing := none, killers := [], result := none, sent := [] }

inductive Action where
  /-- The process at `p` exits. -/
  | exit (p : Pid) (status : ExitStatus)
  /-- The parent of an unrelated process at `p` reaps it. -/
  | reap (p : Pid)
  /-- An unrelated process starts and is given the free pid `p`. -/
  | fork (p : Pid) (n : Nat)
  | tryWait
  | wait
  | kill
  /-- One round of the kill's polling loop; `failed` if its `try_wait` errs. -/
  | attempt (failed : Bool)
  /-- std's `Child::kill`, after the loop. -/
  | stdKill
  | cloneKiller
  | signallerClone (i : Nat)
  | signallerKill (i : Nat)

/-- `kill(2)`: the signal reaches whoever has the pid. -/
def deliveries (s : State) (p : Pid) (sig : Signal) : List (Signal × Owner) :=
  (s.table p).toList.map fun proc => (sig, proc.owner)

def libcKill (s : State) (p : Pid) (sig : Signal) : Except Errno State :=
  if (s.table p).isSome then .ok { s with sent := deliveries s p sig ++ s.sent } else .error ESRCH

/-- `Child::try_wait` of std: the cached status, or the status it reaps. -/
def tryWait (s : State) : Option ExitStatus × State :=
  match s.status with
  | some status => (some status, s)
  | none =>
    match s.table s.pid with
    | some ⟨.child, some status⟩ =>
      (some status, { s with table := Function.update s.table s.pid none, status := some status })
    | _ => (none, s)

/-- `Child::kill` of std: a process whose status is cached is not signalled. -/
def stdKill (s : State) : Except Errno State :=
  match s.status with
  | some _ => .ok s
  | none => libcKill s s.pid .SIGKILL

/-- `kill` of a `ProcessSignaller`. -/
def ProcessSignaller.kill (k : ProcessSignaller) (s : State) : Except Errno State :=
  match k.pid with
  | none => .ok s
  | some p => libcKill s p .SIGHUP

/-- The call returns `r`; on an error the state is `s`. -/
def returning (s : State) (r : Except Errno State) : State :=
  match r with
  | .ok t => { t with killing := none, result := some (.ok ()) }
  | .error e => { s with killing := none, result := some (.error e) }

/-- One step, or `none` where the action is not enabled. -/
def step (s : State) : Action → Option State
  | .exit p status =>
    match s.table p with
    | some ⟨owner, none⟩ =>
      some { s with table := Function.update s.table p (some ⟨owner, some status⟩) }
    | _ => none
  | .reap p =>
    match s.table p with
    | some ⟨.other _, some _⟩ => some { s with table := Function.update s.table p none }
    | _ => none
  | .fork p n =>
    match s.table p with
    | none => some { s with table := Function.update s.table p (some ⟨.other n, none⟩) }
    | some _ => none
  | .tryWait => if s.killing.isNone then some (tryWait s).2 else none
  | .wait =>
    -- blocks until there is a status
    if s.killing.isNone && (tryWait s).1.isSome then some (tryWait s).2 else none
  | .kill =>
    if s.killing.isNone then
      match libcKill s s.pid .SIGHUP with
      | .ok t => some { t with killing := some 0 }
      | .error e => some (returning s (.error e))
    else none
  | .attempt failed =>
    match s.killing with
    | some n =>
      if n < 5 then
        if failed then some { s with killing := some (n + 1) }
        else match tryWait s with
          | (some _, t) => some (returning s (.ok t))
          | (none, t) => some { t with killing := some (n + 1) }
      else none
    | none => none
  | .stdKill => if s.killing = some 5 then some (returning s (stdKill s)) else none
  | .cloneKiller =>
    if s.killing.isNone then some { s with killers := s.killers ++ [⟨some s.pid⟩] } else none
  | .signallerClone i =>
    match s.killers[i]? with
    | some k => some { s with killers := s.killers ++ [k] }
    | none => none
  | .signallerKill i =>
    match s.killers[i]? with
    | some k =>
      match k.kill s with
      | .ok t => some { t with result := some (.ok ()) }
      | .error e => some { s with result := some (.error e) }
    | none => none

/-- Every signal so far was delivered to the child. -/
def OnlyChildSignalled (s : State) : Prop := ∀ d ∈ s.sent, d.2 = .child

instance (s : State) : Decidable (OnlyChildSignalled s) :=
  inferInstanceAs (Decidable (∀ d ∈ s.sent, d.2 = .child))

/-- The pid has been given to an unrelated process. -/
def Reused (s : State) (p : Pid) : Prop := ∃ proc, s.table p = some proc ∧ proc.owner ≠ .child

instance (s : State) (p : Pid) : Decidable (Reused s p) :=
  match h : s.table p with
  | none => isFalse (by rintro ⟨_, hp, _⟩; rw [h] at hp; cases hp)
  | some proc =>
    decidable_of_iff (proc.owner ≠ .child)
      ⟨fun ho => ⟨proc, h, ho⟩, by rintro ⟨_, hp, ho⟩; rw [h] at hp; cases hp; exact ho⟩

/-- A kill is not called, on the child or on a killer, once the pid was reused. -/
def KillsBeforeReuse (s : State) : Action → Prop
  | .kill | .signallerKill _ => ¬ Reused s s.pid
  | _ => True

instance (s : State) : DecidablePred (KillsBeforeReuse s)
  | .kill | .signallerKill _ => inferInstanceAs (Decidable (¬ Reused s s.pid))
  | .exit .. | .reap _ | .fork .. | .tryWait | .wait | .attempt _ | .stdKill | .cloneKiller
  | .signallerClone _ => isTrue trivial

/-! What one step does. -/

section
variable {s t : State}

theorem libcKill_ok {p : Pid} {sig : Signal} : libcKill s p sig = .ok t ↔
    (s.table p).isSome = true ∧ { s with sent := deliveries s p sig ++ s.sent } = t := by
  simp only [libcKill]; split <;> simp_all

theorem libcKill_error {p : Pid} {sig : Signal} {e : Errno} :
    libcKill s p sig = .error e ↔ s.table p = none ∧ ESRCH = e := by
  cases h : s.table p <;> simp [libcKill, h]

/-- Without a status there is nothing that `try_wait` changes. -/
theorem tryWait_none (h : tryWait s = (none, t)) : t = s := by
  unfold tryWait at h
  split at h
  · cases h
  · split at h
    · cases h
    · cases h; rfl

theorem step_exit {p : Pid} {status : ExitStatus} (h : step s (.exit p status) = some t) :
    ∃ owner, s.table p = some ⟨owner, none⟩ ∧
      { s with table := Function.update s.table p (some ⟨owner, some status⟩) } = t := by
  simp only [step] at h
  split at h
  · rename_i owner hp
    exact ⟨owner, hp, Option.some.inj h⟩
  · cases h

theorem step_reap {p : Pid} (h : step s (.reap p) = some t) :
    ∃ n status, s.table p = some ⟨.other n, some status⟩ ∧
      { s with table := Function.update s.table p none } = t := by
  simp only [step] at h
  split at h
  · rename_i n status hp
    exact ⟨n, status, hp, Option.some.inj h⟩
  · cases h

theorem step_fork {p : Pid} {n : Nat} (h : step s (.fork p n) = some t) : s.table p = none ∧
    { s with table := Function.update s.table p (some ⟨.other n, none⟩) } = t := by
  simp only [step] at h
  split at h
  · exact ⟨‹_›, Option.some.inj h⟩
  · cases h

theorem step_tryWait (h : step s .tryWait = some t) : (tryWait s).2 = t := by
  simp only [step, Option.ite_none_right_eq_some] at h
  exact Option.some.inj h.2

theorem step_wait (h : step s .wait = some t) : (tryWait s).2 = t := by
  simp only [step, Option.ite_none_right_eq_some] at h
  exact Option.some.inj h.2

theorem step_kill (h : step s .kill = some t) :
    (∃ u, libcKill s s.pid .SIGHUP = .ok u ∧ { u with killing := some 0 } = t) ∨
    ∃ e, libcKill s s.pid .SIGHUP = .error e ∧ returning s (.error e) = t := by
  simp only [step, Option.ite_none_right_eq_some] at h
  obtain ⟨-, h⟩ := h
  split at h
  · rename_i u hu
    exact .inl ⟨u, hu, Option.some.inj h⟩
  · rename_i e he
    exact .inr ⟨e, he, Option.some.inj h⟩

/-- A round of the loop ends it with a status, or counts. -/
theorem step_attempt {failed : Bool} (h : step s (.attempt failed) = some t) :
    (∃ status u, tryWait s = (some status, u) ∧ returning s (.ok u) = t) ∨
    ∃ n, { s with killing := some (n + 1) } = t := by
  simp only [step] at h
  split at h
  · rename_i n _
    split at h
    · split at h
      · exact .inr ⟨n, Option.some.inj h⟩
      · split at h
        · rename_i status u hu
          exact .inl ⟨status, u, hu, Option.some.inj h⟩
        · rename_i u hu
          rw [tryWait_none hu] at h
          exact .inr ⟨n, Option.some.inj h⟩
    · cases h
  · cases h

theorem step_stdKill (h : step s .stdKill = some t) : returning s (stdKill s) = t := by
  simp only [step, Option.ite_none_right_eq_some] at h
  exact Option.some.inj h.2

theorem step_cloneKiller (h : step s .cloneKiller = some t) :
    { s with killers := s.killers ++ [⟨some s.pid⟩] } = t := by
  simp only [step, Option.ite_none_right_eq_some] at h
  exact Option.some.inj h.2

theorem step_signallerClone {i : Nat} (h : step s (.signallerClone i) = some t) :
    ∃ k, s.killers[i]? = some k ∧ { s with killers := s.killers ++ [k] } = t := by
  simp only [step] at h
  split at h
  · rename_i k hk
    exact ⟨k, hk, Option.some.inj h⟩
  · cases h

theorem step_signallerKill {i : Nat} (h : step s (.signallerKill i) = some t) :
    ∃ k, s.killers[i]? = some k ∧
      ((∃ u, k.kill s = .ok u ∧ { u with result := some (.ok ()) } = t) ∨
        ∃ e, k.kill s = .error e ∧ { s with result := some (.error e) } = t) := by
  simp only [step] at h
  split at h
  · rename_i k hk
    refine ⟨k, hk, ?_⟩
    split at h
    · rename_i u hu
      exact .inl ⟨u, hu, Option.some.inj h⟩
    · rename_i e he
      exact .inr ⟨e, he, Option.some.inj h⟩
  · cases h

end

/-! What one step sends. -/

/-- The signals a step delivers. -/
def sends (s : State) : Action → List (Signal × Owner)
  | .kill => deliveries s s.pid .SIGHUP
  | .stdKill => if s.status.isNone then deliveries s s.pid .SIGKILL else []
  | .signallerKill i => ((s.killers[i]?).bind (·.pid)).elim [] (deliveries s · .SIGHUP)
  | _ => []

section
variable {s t : State}

theorem deliveries_nil {p : Pid} {sig : Signal} (h : s.table p = none) : deliveries s p sig = [] := by
  simp [deliveries, h]

theorem tryWait_sent : (tryWait s).2.sent = s.sent := by
  simp only [tryWait]; split
  · rfl
  · split <;> rfl

/-- A call that sends `sig` to `p` delivers to whoever has the pid, if anyone. -/
theorem returning_libcKill_sent {p : Pid} {sig : Signal} :
    (returning s (libcKill s p sig)).sent = deliveries s p sig ++ s.sent := by
  cases h : libcKill s p sig with
  | ok u => obtain ⟨_, rfl⟩ := libcKill_ok.mp h; rfl
  | error e => rw [deliveries_nil (libcKill_error.mp h).1]; rfl

theorem step_sent {a : Action} (h : step s a = some t) : t.sent = sends s a ++ s.sent := by
  cases a with
  | kill =>
    obtain ⟨u, hu, rfl⟩ | ⟨e, he, rfl⟩ := step_kill h
    · obtain ⟨_, rfl⟩ := libcKill_ok.mp hu; rfl
    · rw [sends, deliveries_nil (libcKill_error.mp he).1]; rfl
  | stdKill =>
    obtain rfl := step_stdKill h
    cases hs : s.status with
    | none => simp [sends, stdKill, hs, returning_libcKill_sent]
    | some status => simp [sends, stdKill, hs, returning]
  | signallerKill i =>
    obtain ⟨k, hk, hkill⟩ := step_signallerKill h
    rw [sends, hk, Option.bind_some]
    unfold ProcessSignaller.kill at hkill
    cases hp : k.pid with
    | none =>
      simp only [hp] at hkill
      obtain ⟨u, hu, rfl⟩ | ⟨e, he, -⟩ := hkill
      · cases hu; rfl
      · cases he
    | some p =>
      simp only [hp] at hkill
      obtain ⟨u, hu, rfl⟩ | ⟨e, he, rfl⟩ := hkill
      · obtain ⟨_, rfl⟩ := libcKill_ok.mp hu; rfl
      · rw [Option.elim_some, deliveries_nil (libcKill_error.mp he).1]; rfl
  | tryWait =>
    obtain rfl := step_tryWait h
    exact tryWait_sent
  | wait =>
    obtain rfl := step_wait h
    exact tryWait_sent
  | attempt failed =>
    have hw := tryWait_sent (s := s)
    obtain ⟨status, u, hu, rfl⟩ | ⟨n, rfl⟩ := step_attempt h
    · rw [hu] at hw; exact hw
    · rfl
  | exit p status => obtain ⟨_, -, rfl⟩ := step_exit h; rfl
  | reap p => obtain ⟨_, _, -, rfl⟩ := step_reap h; rfl
  | fork p n => obtain ⟨-, rfl⟩ := step_fork h; rfl
  | cloneKiller => obtain rfl := step_cloneKiller h; rfl
  | signallerClone i => obtain ⟨_, -, rfl⟩ := step_signallerClone h; rfl

end

/-! The invariant. -/

/-- An unreaped child has its pid, and every killer names that pid. -/
structure Inv (s : State) : Prop where
  alive : s.status = none → ∃ st, s.table s.pid = some ⟨.child, st⟩
  killers : ∀ k ∈ s.killers, k.pid = some s.pid

theorem inv_init (pid : Pid) (others : Pid → Option Nat) : Inv (init pid others) where
  alive _ := ⟨none, by simp [init]⟩
  killers := by simp [init]

section
variable {s t : State}

/-- Another pid's entry may change, and so may the child's status. -/
theorem Inv.table (hi : Inv s) {p : Pid} {entry : Option Proc}
    (h : p = s.pid → s.status = none → ∃ st, entry = some ⟨.child, st⟩) :
    Inv { s with table := Function.update s.table p entry } where
  alive hs := by
    by_cases hp : p = s.pid
    · obtain ⟨st, he⟩ := h hp hs
      exact ⟨st, by simp [← hp, he]⟩
    · obtain ⟨st, he⟩ := hi.alive hs
      exact ⟨st, by simp [Function.update_of_ne (Ne.symm hp), he]⟩
  killers := hi.killers

theorem Inv.libcKill (hi : Inv s) {p : Pid} {sig : Signal} (h : libcKill s p sig = .ok t) : Inv t := by
  obtain ⟨_, rfl⟩ := libcKill_ok.mp h
  exact ⟨hi.alive, hi.killers⟩

theorem Inv.tryWait (hi : Inv s) : Inv (tryWait s).2 := by
  simp only [UnixKill.tryWait]
  split
  · exact hi
  · split
    · exact ⟨nofun, hi.killers⟩
    · exact hi

theorem Inv.returning (hi : Inv s) {r : Except Errno State} (h : ∀ u, r = .ok u → Inv u) :
    Inv (returning s r) := by
  cases r with
  | ok u => exact ⟨(h u rfl).alive, (h u rfl).killers⟩
  | error e => exact ⟨hi.alive, hi.killers⟩

theorem Inv.stdKill (hi : Inv s) (h : stdKill s = .ok t) : Inv t := by
  cases hs : s.status with
  | none => rw [UnixKill.stdKill, hs] at h; exact hi.libcKill h
  | some status => rw [UnixKill.stdKill, hs] at h; cases h; exact hi

theorem Inv.signallerKill (hi : Inv s) {k : ProcessSignaller} (h : k.kill s = .ok t) : Inv t := by
  cases hp : k.pid with
  | none => simp only [ProcessSignaller.kill, hp] at h; cases h; exact hi
  | some p => simp only [ProcessSignaller.kill, hp] at h; exact hi.libcKill h

/-- One more killer of the child. -/
theorem Inv.append (hi : Inv s) {k : ProcessSignaller} (hk : k.pid = some s.pid) :
    Inv { s with killers := s.killers ++ [k] } where
  alive := hi.alive
  killers k' hk' := by
    rcases List.mem_append.mp hk' with hk' | hk'
    · exact hi.killers k' hk'
    · rw [List.mem_singleton.mp hk']; exact hk

theorem inv_step {a : Action} (hi : Inv s) (h : step s a = some t) : Inv t := by
  cases a with
  | exit p status =>
    obtain ⟨owner, hp, rfl⟩ := step_exit h
    refine hi.table fun he hs => ?_
    obtain ⟨st, hc⟩ := hi.alive hs
    rw [← he, hp] at hc; cases hc
    exact ⟨_, rfl⟩
  | reap p =>
    obtain ⟨n, status, hp, rfl⟩ := step_reap h
    refine hi.table fun he hs => ?_
    obtain ⟨st, hc⟩ := hi.alive hs
    rw [← he, hp] at hc; cases hc
  | fork p n =>
    obtain ⟨hp, rfl⟩ := step_fork h
    refine hi.table fun he hs => ?_
    obtain ⟨st, hc⟩ := hi.alive hs
    rw [← he, hp] at hc; cases hc
  | tryWait =>
    obtain rfl := step_tryWait h
    exact hi.tryWait
  | wait =>
    obtain rfl := step_wait h
    exact hi.tryWait
  | kill =>
    obtain ⟨u, hu, rfl⟩ | ⟨e, -, rfl⟩ := step_kill h
    · exact ⟨(hi.libcKill hu).alive, (hi.libcKill hu).killers⟩
    · exact hi.returning nofun
  | attempt failed =>
    have hw := hi.tryWait
    obtain ⟨status, u, hu, rfl⟩ | ⟨n, rfl⟩ := step_attempt h
    · rw [hu] at hw
      exact ⟨hw.alive, hw.killers⟩
    · exact ⟨hi.alive, hi.killers⟩
  | stdKill =>
    obtain rfl := step_stdKill h
    exact hi.returning fun _ hu => hi.stdKill hu
  | cloneKiller =>
    obtain rfl := step_cloneKiller h
    exact hi.append rfl
  | signallerClone i =>
    obtain ⟨k, hk, rfl⟩ := step_signallerClone h
    exact hi.append (hi.killers k (List.mem_of_getElem? hk))
  | signallerKill i =>
    obtain ⟨k, -, ⟨u, hu, rfl⟩ | ⟨e, -, rfl⟩⟩ := step_signallerKill h
    · exact ⟨(hi.signallerKill hu).alive, (hi.signallerKill hu).killers⟩
    · exact ⟨hi.alive, hi.killers⟩

/-! Who is signalled. -/

theorem deliveries_child_iff {p : Pid} {sig : Signal} :
    (∀ d ∈ deliveries s p sig, d.2 = .child) ↔ ¬ Reused s p := by
  cases h : s.table p <;> simp [deliveries, Reused, h]

/-- A step signals only the child exactly when it is not a kill after the reuse.
The SIGKILL needs no condition: it is sent only to an unreaped child. -/
theorem sends_child_iff {a : Action} (hi : Inv s) (h : step s a = some t) :
    (∀ d ∈ sends s a, d.2 = .child) ↔ KillsBeforeReuse s a := by
  cases a with
  | kill => exact deliveries_child_iff
  | stdKill =>
    cases hs : s.status with
    | none =>
      obtain ⟨st, hc⟩ := hi.alive hs
      simp [sends, hs, deliveries, hc, KillsBeforeReuse]
    | some status => simp [sends, hs, KillsBeforeReuse]
  | signallerKill i =>
    cases hk : s.killers[i]? with
    | none => simp [step, hk] at h
    | some k =>
      have hp := hi.killers k (List.mem_of_getElem? hk)
      simp only [sends, hk, Option.bind_some, hp, Option.elim_some]
      exact deliveries_child_iff
  | _ => simp [sends, KillsBeforeReuse]

theorem only_child_step {a : Action} (hi : Inv s) (h : step s a = some t) :
    OnlyChildSignalled t ↔ OnlyChildSignalled s ∧ KillsBeforeReuse s a := by
  rw [← sends_child_iff hi h, OnlyChildSignalled, step_sent h]
  simp only [List.mem_append, or_imp, forall_and, OnlyChildSignalled]
  exact and_comm

end

/-- In every run, every signal went to the child exactly when no kill was called,
on the child or on a killer, after the pid had been given to another process. -/
theorem only_child_signalled_iff (pid : Pid) (others : Pid → Option Nat) (as : List Action) (s : State)
    (hr : StepSystem.run step (init pid others) as = some s) :
    OnlyChildSignalled s ↔ StepSystem.Along step KillsBeforeReuse (init pid others) as := by
  rw [StepSystem.along_iff_end (fun _ _ _ => inv_step) (fun _ _ _ => only_child_step) as
    (inv_init pid others) hr]
  simp [OnlyChildSignalled, init]

def exited : ExitStatus := .withExitCode 0

/-- The child ignores the SIGHUP through all five polls and is sent SIGKILL; a
second kill comes after it was reaped, while its pid is still free. -/
def stubbornChild : List Action :=
  [.cloneKiller, .kill, .attempt false, .attempt true, .attempt false, .signallerKill 0,
   .attempt false, .attempt false, .stdKill, .exit 100 exited, .wait, .kill, .fork 100 7]

theorem only_child_signalled_stubborn : OnlyChildSignalled
    ((StepSystem.run step (init 100 fun _ => none) stubbornChild).get (by decide)) :=
  (only_child_signalled_iff 100 (fun _ => none) stubbornChild _ (Option.some_get _).symm).mpr
    (by decide)

/-- The child exits and is reaped, its pid goes to process 7, and a killer cloned
before sends SIGHUP there. -/
def killAfterReuse : List Action :=
  [.cloneKiller, .exit 100 exited, .wait, .fork 100 7, .signallerKill 0]

theorem signal_reaches_stranger : ¬ ∀ (pid : Pid) (others : Pid → Option Nat) (as : List Action)
    (s : State), StepSystem.run step (init pid others) as = some s → OnlyChildSignalled s := by
  intro h
  have hall := h 100 (fun _ => none) killAfterReuse _ rfl
  exact absurd hall (by decide)

end Xpty.UnixKill
