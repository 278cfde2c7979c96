import Xpty.StepSystem
import Xpty.WinFuture

/- The exit status that `try_wait` and `wait` report, for the three implementations of
   `Child`: `std::process::Child` (`lib.rs`), `WinChild` (`win/mod.rs`) and `SerialChild`
   (`serial.rs`).

   Each call takes `&mut self`, so a call is over before the next begins; what happens to
   the process or the device comes in between at any time, also between the rounds of a
   `wait`. A status stays the same once reported if the implementation has settled on it
   (`stable_of_settled`). A `SerialChild` settles on nothing: while reading the carrier
   does not fail it has no status to report (`serial_silent`). When it fails `wait` returns
   one, and `try_wait` never has it (`serial_stable_iff`). `status_stable` puts the three
   together. -/
namespace Xpty.ChildStatus

/-- An implementation of `Child`. `S` is its state with that of the process or device behind
it, and `E` is what can happen to these. `wait` is one round of its loop. -/
structure Impl (S E : Type) where
  event : S → E → Option S
  tryWait : S → Option ExitStatus × S
  wait : S → Option ExitStatus × S

/-- What a call returned. -/
inductive Reply where
  | tryWait (status : Option ExitStatus)
  | wait (status : ExitStatus)
  deriving DecidableEq, Repr

/-- The status that a call reported, if any. -/
def Reply.status : Reply → Option ExitStatus
  | .tryWait status => status
  | .wait status => some status

/-- The child, whether a `wait` is under way, and the replies so far, the last one first. -/
structure State (S : Type) where
  child : S
  waiting : Bool
  log : List Reply

def init {S : Type} (child : S) : State S := { child, waiting := false, log := [] }

inductive Action (E : Type) where
  | event (e : E)
  | tryWait
  | wait
  /-- One round of the `wait` under way. -/
  | round

variable {S E : Type}

/-- One step, or `none` where the action is not enabled. -/
def step (impl : Impl S E) (s : State S) : Action E → Option (State S)
  | .event e => (impl.event s.child e).map fun child => { s with child }
  | .tryWait =>
    if s.waiting then none
    else
      let (status, child) := impl.tryWait s.child
      some { s with child, log := .tryWait status :: s.log }
  | .wait => if s.waiting then none else some { s with waiting := true }
  | .round =>
    if s.waiting then
      match impl.wait s.child with
      | (some status, child) => some { child, waiting := false, log := .wait status :: s.log }
      | (none, child) => some { s with child }
    else none

/-- Once a call has reported a status, every later call reports it. -/
def Stable (log : List Reply) : Prop :=
  log.Pairwise fun later earlier => ∀ status, earlier.status = some status → later.status = some status

/-! What one step does. -/

section
variable {impl : Impl S E} {s t : State S}

theorem step_event {e : E} : step impl s (.event e) = some t ↔
    ∃ child, impl.event s.child e = some child ∧ { s with child } = t := by
  simp [step]

theorem step_tryWait : step impl s .tryWait = some t ↔ s.waiting = false ∧
    { s with child := (impl.tryWait s.child).2,
             log := .tryWait (impl.tryWait s.child).1 :: s.log } = t := by
  cases h : s.waiting <;> simp [step, h]

theorem step_wait :
    step impl s .wait = some t ↔ s.waiting = false ∧ { s with waiting := true } = t := by
  cases h : s.waiting <;> simp [step, h]

/-- A round ends the wait with a status, or the loop goes on. -/
theorem step_round (h : step impl s .round = some t) :
    (∃ status child, impl.wait s.child = (some status, child) ∧
      { child, waiting := false, log := .wait status :: s.log } = t) ∨
    ∃ child, impl.wait s.child = (none, child) ∧ { s with child } = t := by
  simp only [step] at h
  split at h
  · split at h
    · rename_i status child hw
      exact .inl ⟨status, child, hw, Option.some.inj h⟩
    · rename_i child hw
      exact .inr ⟨child, hw, Option.some.inj h⟩
  · cases h

theorem stable_cons {r : Reply} {log : List Reply} : Stable (r :: log) ↔
    (∀ q ∈ log, ∀ status, q.status = some status → r.status = some status) ∧ Stable log :=
  List.pairwise_cons

end

/-! Implementations that settle on a status. -/

/-- `settled` is the status that an implementation has settled on: it stays, a call reports it,
and a call reports nothing else. -/
structure Settles (impl : Impl S E) (settled : S → Option ExitStatus) : Prop where
  event : ∀ s e t st, impl.event s e = some t → settled s = some st → settled t = some st
  tryWait : ∀ s st, settled s = some st → (impl.tryWait s).1 = some st
  tryWait_settled : ∀ s st, (impl.tryWait s).1 = some st → settled (impl.tryWait s).2 = some st
  wait : ∀ s st, settled s = some st → (impl.wait s).1 = some st
  wait_settled : ∀ s st, (impl.wait s).1 = some st → settled (impl.wait s).2 = some st

/-- Whatever was reported is settled. -/
structure Inv (settled : S → Option ExitStatus) (s : State S) : Prop where
  stable : Stable s.log
  reported : ∀ r ∈ s.log, ∀ st, r.status = some st → settled s.child = some st

section
variable {impl : Impl S E} {settled : S → Option ExitStatus} {s t : State S}

/-- A call that reports what is settled, and leaves that settled. -/
theorem Inv.reply (hi : Inv settled s) {r : Reply} {child : S} {waiting : Bool}
    (hr : ∀ st, settled s.child = some st → r.status = some st)
    (hc : ∀ st, r.status = some st → settled child = some st) :
    Inv settled { child, waiting, log := r :: s.log } where
  stable := stable_cons.mpr ⟨fun q hq st hst => hr st (hi.reported q hq st hst), hi.stable⟩
  reported q hq st hst := by
    rcases List.mem_cons.mp hq with rfl | hq
    · exact hc st hst
    · exact hc st (hr st (hi.reported q hq st hst))

theorem inv_step (h : Settles impl settled) {a : Action E} (hi : Inv settled s)
    (hs : step impl s a = some t) : Inv settled t := by
  cases a with
  | event e =>
    obtain ⟨child, he, rfl⟩ := step_event.mp hs
    exact ⟨hi.stable, fun r hr st hst => h.event _ e _ st he (hi.reported r hr st hst)⟩
  | tryWait =>
    obtain ⟨-, rfl⟩ := step_tryWait.mp hs
    exact hi.reply (h.tryWait s.child) (h.tryWait_settled s.child)
  | wait =>
    obtain ⟨-, rfl⟩ := step_wait.mp hs
    exact ⟨hi.stable, hi.reported⟩
  | round =>
    rcases step_round hs with ⟨status, child, hw, rfl⟩ | ⟨child, hw, rfl⟩
    · have hset := h.wait s.child
      have hsettled := h.wait_settled s.child
      rw [hw] at hset hsettled
      exact hi.reply hset hsettled
    · -- a wait that goes on has nothing settled before it
      refine ⟨hi.stable, fun r hr st hst => ?_⟩
      have hset := h.wait s.child st (hi.reported r hr st hst)
      rw [hw] at hset
      cases hset

/-- In every run, an implementation that settles reports one status for good. -/
theorem stable_of_settled (h : Settles impl settled) (child : S) (as : List (Action E))
    (hr : StepSystem.run (step impl) (init child) as = some s) : Stable s.log := by
  have hinit : Inv settled (init child) := ⟨List.Pairwise.nil, fun r hr => by cases hr⟩
  exact (StepSystem.run_keeps (fun _ _ _ => inv_step h) as hinit hr).stable

end

/-! `std::process::Child`. -/

/-- `std::process::ExitStatus` of a process that has ended. -/
inductive StdStatus where
  | code (code : UInt32)
  | signal (signal : Nat)

/-- `From<std::process::ExitStatus>`; `strsignal` names the signals it knows. -/
def fromStd (strsignal : Nat → Option String) : StdStatus → ExitStatus
  | .code code => { code, signal := none }
  | .signal signal =>
    { code := 1, signal := some ((strsignal signal).getD ("Signal " ++ toString signal)) }

/-- The process, and the status that std has cached. -/
structure StdChild where
  exited : Option StdStatus
  status : Option StdStatus

/-- The cached status, or the one that `waitpid` reaps. -/
def StdChild.reap (c : StdChild) : Option StdStatus × StdChild :=
  match c.status, c.exited with
  | some status, _ => (some status, c)
  | none, some status => (some status, { c with status := some status })
  | none, none => (none, c)

/-- `try_wait` and `wait`, which blocks until there is something to reap. -/
def std (strsignal : Nat → Option String) : Impl StdChild StdStatus where
  event c status := if c.exited.isNone then some { c with exited := some status } else none
  tryWait c := ((c.reap.1).map (fromStd strsignal), c.reap.2)
  wait c := ((c.reap.1).map (fromStd strsignal), c.reap.2)

theorem StdChild.reap_cached {c : StdChild} {status : StdStatus} (h : c.status = some status) :
    c.reap = (some status, c) := by
  simp [reap, h]

theorem StdChild.reap_caches (c : StdChild) : c.reap.2.status = c.reap.1 := by
  unfold reap
  cases hs : c.status with
  | some status => exact hs
  | none =>
    cases c.exited with
    | some status => rfl
    | none => exact hs

theorem std_settles (strsignal : Nat → Option String) :
    Settles (std strsignal) fun c => c.status.map (fromStd strsignal) := by
  have hreap : ∀ (c : StdChild) st, c.status.map (fromStd strsignal) = some st →
      (c.reap.1).map (fromStd strsignal) = some st := by
    intro c st hst
    obtain ⟨status, hs, rfl⟩ := Option.map_eq_some_iff.mp hst
    simp [StdChild.reap_cached hs]
  have hcaches : ∀ (c : StdChild) st, (c.reap.1).map (fromStd strsignal) = some st →
      c.reap.2.status.map (fromStd strsignal) = some st := by
    intro c st hst
    rw [StdChild.reap_caches]
    exact hst
  refine ⟨?_, hreap, hcaches, hreap, hcaches⟩
  intro c e t st he hst
  simp only [std] at he
  split at he
  · cases he
    exact hst
  · cases he

/-! `WinChild`. -/

/-- `is_complete`, of a process with or without an exit code, where `GetExitCodeProcess`
succeeds. -/
def completed (exitCode : Option UInt32) : Option ExitStatus :=
  match WinFuture.isComplete exitCode (.ok ()) with
  | .ok status => status
  | .error _ => none

/-- `wait` calls `try_wait`, and again in each round of its loop. -/
def win : Impl (Option UInt32) UInt32 where
  event exitCode code := if exitCode.isNone then some (some code) else none
  tryWait exitCode := (completed exitCode, exitCode)
  wait exitCode := (completed exitCode, exitCode)

theorem win_settles : Settles win completed := by
  refine ⟨?_, fun _ _ h => h, fun _ _ h => h, fun _ _ h => h, fun _ _ h => h⟩
  intro exitCode code t st he hst
  cases exitCode with
  | none => cases hst
  | some code' => cases he

/-! `SerialChild`. -/

/-- How the next `read_cd` goes. -/
abbrev Carrier := Except Errno Bool

/-- `wait` ends when `read_cd` fails. -/
def serial : Impl Carrier Carrier where
  event _ carrier := some carrier
  tryWait carrier := (none, carrier)
  wait carrier :=
    match carrier with
    | .error _ => (some (.withExitCode 1), carrier)
    | .ok _ => (none, carrier)

/-- No `read_cd` fails. -/
def ReadsCarrier (s : State Carrier) : Action Carrier → Prop
  | .round => s.child.isOk = true
  | _ => True

instance (s : State Carrier) : DecidablePred (ReadsCarrier s)
  | .round => inferInstanceAs (Decidable (s.child.isOk = true))
  | .event _ | .tryWait | .wait => isTrue trivial

/-- `try_wait` is not called once a `wait` has returned. -/
def NoPollAfterWait (s : State Carrier) : Action Carrier → Prop
  | .tryWait => ∀ r ∈ s.log, r.status = none
  | _ => True

instance (s : State Carrier) : DecidablePred (NoPollAfterWait s)
  | .tryWait => inferInstanceAs (Decidable (∀ r ∈ s.log, r.status = none))
  | .event _ | .wait | .round => isTrue trivial

/-- A serial child that reads its carrier reports nothing. -/
def Silent (s : State Carrier) : Prop := ∀ r ∈ s.log, r.status = none

/-- A serial child reports no other status than 1. -/
def SerialInv (s : State Carrier) : Prop :=
  ∀ r ∈ s.log, ∀ st, r.status = some st → st = .withExitCode 1

section
variable {s t : State Carrier}

theorem serial_wait {carrier child : Carrier} {st : ExitStatus}
    (h : serial.wait carrier = (some st, child)) : st = .withExitCode 1 := by
  cases carrier with
  | error e => cases h; rfl
  | ok b => cases h

theorem silent_step {a : Action Carrier} (hi : Silent s) (hc : ReadsCarrier s a)
    (hs : step serial s a = some t) : Silent t := by
  cases a with
  | event e =>
    obtain ⟨child, -, rfl⟩ := step_event.mp hs
    exact hi
  | tryWait =>
    obtain ⟨-, rfl⟩ := step_tryWait.mp hs
    exact List.forall_mem_cons.mpr ⟨rfl, hi⟩
  | wait =>
    obtain ⟨-, rfl⟩ := step_wait.mp hs
    exact hi
  | round =>
    rcases step_round hs with ⟨st, child, hw, rfl⟩ | ⟨child, -, rfl⟩
    · -- the wait would have ended on a failure
      have hok : s.child.isOk = true := hc
      cases hcarrier : s.child with
      | error e => rw [hcarrier] at hok; cases hok
      | ok b => rw [hcarrier] at hw; cases hw
    · exact hi

theorem stable_of_silent (hi : Silent s) : Stable s.log := by
  refine List.pairwise_of_forall_mem_list fun later _ earlier hr st hst => ?_
  rw [hi earlier hr] at hst
  cases hst

theorem serialInv_step {a : Action Carrier} (hi : SerialInv s) (hs : step serial s a = some t) :
    SerialInv t := by
  cases a with
  | event e =>
    obtain ⟨child, -, rfl⟩ := step_event.mp hs
    exact hi
  | tryWait =>
    obtain ⟨-, rfl⟩ := step_tryWait.mp hs
    exact List.forall_mem_cons.mpr ⟨fun st hst => (by cases hst), hi⟩
  | wait =>
    obtain ⟨-, rfl⟩ := step_wait.mp hs
    exact hi
  | round =>
    rcases step_round hs with ⟨st, child, hw, rfl⟩ | ⟨child, -, rfl⟩
    · refine List.forall_mem_cons.mpr ⟨?_, hi⟩
      intro st' hst'
      cases hst'
      exact serial_wait hw
    · exact hi

/-- A step keeps the log stable exactly when it is no poll after a wait. -/
theorem serial_stable_step {a : Action Carrier} (hi : SerialInv s) (hs : step serial s a = some t) :
    Stable t.log ↔ Stable s.log ∧ NoPollAfterWait s a := by
  cases a with
  | event e =>
    obtain ⟨child, -, rfl⟩ := step_event.mp hs
    simp [NoPollAfterWait]
  | tryWait =>
    obtain ⟨-, rfl⟩ := step_tryWait.mp hs
    rw [stable_cons, and_comm]
    refine and_congr_right' (forall₂_congr fun r _ => ?_)
    rw [Option.eq_none_iff_forall_ne_some]
    exact forall_congr' fun st => imp_congr_right fun _ => iff_of_false (by simp [serial, Reply.status]) id
  | wait =>
    obtain ⟨-, rfl⟩ := step_wait.mp hs
    simp [NoPollAfterWait]
  | round =>
    rcases step_round hs with ⟨st, child, hw, rfl⟩ | ⟨child, -, rfl⟩
    · rw [stable_cons]
      refine ⟨fun h => ⟨h.2, trivial⟩, fun h => ⟨fun r hr st' hst' => ?_, h.1⟩⟩
      rw [hi r hr st' hst', Reply.status, serial_wait hw]
    · simp [NoPollAfterWait]

end

/-- In a run of a serial child in which no `read_cd` fails, no status is reported. -/
theorem serial_silent (carrier : Carrier) (as : List (Action Carrier)) (s : State Carrier)
    (hr : StepSystem.run (step serial) (init carrier) as = some s)
    (hc : StepSystem.Along (step serial) ReadsCarrier (init carrier) as) : Silent s := by
  have hinit : Silent (init carrier) := fun r hr => by cases hr
  exact StepSystem.run_along (fun _ _ _ => silent_step) as hinit hc hr

/-- A run of a serial child is stable exactly when it makes no `try_wait` after a `wait` has
returned. -/
theorem serial_stable_iff (carrier : Carrier) (as : List (Action Carrier)) (s : State Carrier)
    (hr : StepSystem.run (step serial) (init carrier) as = some s) :
    Stable s.log ↔ StepSystem.Along (step serial) NoPollAfterWait (init carrier) as := by
  have hinit : SerialInv (init carrier) := fun r hr => by cases hr
  have hnil : Stable (init carrier).log := List.Pairwise.nil
  rw [StepSystem.along_iff_end (fun _ _ _ => serialInv_step) (fun _ _ _ => serial_stable_step) as
    hinit hr]
  exact and_iff_right hnil

/-- Every run of a `std::process::Child` or a `WinChild` reports one status for good, and so
does every run of a `SerialChild` in which no `read_cd` fails. Where one does, a run is stable
exactly when it makes no `try_wait` after a `wait` has returned. -/
theorem status_stable (strsignal : Nat → Option String) (child : StdChild)
    (exitCode : Option UInt32) (carrier : Carrier) :
    (∀ (as : List (Action StdStatus)) (s : State StdChild),
      StepSystem.run (step (std strsignal)) (init child) as = some s → Stable s.log) ∧
    (∀ (as : List (Action UInt32)) (s : State (Option UInt32)),
      StepSystem.run (step win) (init exitCode) as = some s → Stable s.log) ∧
    ∀ (as : List (Action Carrier)) (s : State Carrier),
      StepSystem.run (step serial) (init carrier) as = some s →
        (StepSystem.Along (step serial) ReadsCarrier (init carrier) as → Stable s.log) ∧
        (Stable s.log ↔ StepSystem.Along (step serial) NoPollAfterWait (init carrier) as) := by
  refine ⟨?_, ?_, ?_⟩
  · intro as s hr
    exact stable_of_settled (std_settles strsignal) child as hr
  · intro as s hr
    exact stable_of_settled win_settles exitCode as hr
  · intro as s hr
    exact ⟨fun hc => stable_of_silent (serial_silent carrier as s hr hc),
      serial_stable_iff carrier as s hr⟩

/-- A process is polled before and after its exit, a serial child during a `wait` that goes on,
and another before a `wait` that loses the carrier. -/
theorem status_stable_polled :
    Stable [.tryWait (some (.withExitCode 3)), .wait (.withExitCode 3), .tryWait none] ∧
      Stable [.tryWait none, .tryWait none] ∧
      Stable [.wait (.withExitCode 1), .wait (.withExitCode 1), .tryWait none] :=
  have h := status_stable (fun _ => none) { exited := none, status := none } none (.ok true)
  ⟨h.2.1 [.tryWait, .wait, .round, .event 3, .round, .tryWait] _ rfl,
   (h.2.2 [.tryWait, .tryWait, .event (.ok false), .wait, .round] _ rfl).1 (by decide),
   (h.2.2 [.tryWait, .wait, .round, .event (.error 5), .round, .wait, .round] _ rfl).2.mpr (by decide)⟩

end Xpty.ChildStatus
