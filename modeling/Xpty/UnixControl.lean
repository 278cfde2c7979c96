import Mathlib.Data.PNat.Defs
import Xpty.Sessions
import Xpty.StepSystem
import Xpty.UnixSpawn

/- What `controlling_tty` does (`spawn_command`, `process_group_leader`), over a process table
   with its sessions and controlling terminals. A child calls `setsid` and then, if the
   builder asks for it, `TIOCSCTTY` on the slave, which is its descriptor 0 by then; other
   children, the programs and the rest of the process take their steps in between.

   `setsid` never fails, since the pid of a new child is that of no group, and `TIOCSCTTY`
   does where the pty controls a session already (`child_calls`). So a spawn is refused
   exactly where the master is closed or `process_group_leader` knows a group
   (`spawn_refused_iff`), which is as long as a program runs that was started on the same pty
   in the same way (`group_leader_iff`). -/
namespace Xpty.UnixControl

open StepSystem Unix UnixSpawn Sessions

abbrev Pid := ℕ+

def EPERM : Errno := 1
def EIO : Errno := 5

inductive Stage where
  /-- Before `setsid`. -/
  | forked
  /-- Before `TIOCSCTTY`. -/
  | led
  | ready
  | program
  deriving DecidableEq

/-- A child of `spawn_command`. -/
structure Spawned where
  child : Pid
  pty : Nat
  builder : Builder
  stage : Stage

/-- The process table, the ptys that the process has opened and those of them whose master
is closed, and the children that have not ended. -/
structure State where
  table : Table Pid Nat
  parent : Pid
  hungUp : Nat → Bool
  ptys : List Nat
  spawned : List Spawned

def start (table : Table Pid Nat) (parent : Pid) : State :=
  { table, parent, hungUp := fun _ => false, ptys := [], spawned := [] }

inductive Act where
  | openpty (pty : Nat)
  | fork (child : Pid) (pty : Nat) (b : Builder)
  | setsid (child : Pid)
  | tiocsctty (child : Pid)
  | exec (child : Pid)
  /-- A process that is not in the setup of `spawn_command` makes a call. -/
  | call (p : Pid) (call : Call Pid Nat)
  | exit (p : Pid)
  /-- The last descriptor of a master is closed. -/
  | hangup (pty : Nat)

variable (s : State)

def State.advance (child : Pid) (stage : Stage) : List Spawned :=
  s.spawned.map fun u => if u.child = child then { u with stage } else u

def State.inSetup (p : Pid) : Bool := s.spawned.any fun u => u.child = p && u.stage ≠ .program

/-- `ioctl(0, TIOCSCTTY, 0)` of a process whose descriptor 0 is the pty. -/
def tiocsctty (x : Proc Pid Nat) (pty : Nat) : Except Errno (Table Pid Nat) :=
  if s.hungUp pty then .error EIO
  else match perform s.table x (.acquire pty) with
    | some table => .ok table
    | none => .error EPERM

def exitStep (x : Proc Pid Nat) : Option State :=
  (perform s.table x .exit).map fun table =>
    { s with table, spawned := s.spawned.filter fun u => u.child ≠ x.pid }

/-- A child that is at `stage`, and its process. -/
def child (c : Pid) (stage : Stage) : Option (Spawned × Proc Pid Nat) :=
  match s.spawned.find? fun u => u.child = c, s.table.find c with
  | some u, some x => if u.stage = stage then some (u, x) else none
  | _, _ => none

def setsidStep (c : Pid) : Option State :=
  (child s c .forked).bind fun (u, x) =>
    match perform s.table x .setsid with
    | some table => some { s with
        table, spawned := s.advance c (if u.builder.controllingTty then .led else .ready) }
    | none => exitStep s x

def tiocscttyStep (c : Pid) : Option State :=
  (child s c .led).bind fun (u, x) =>
    match tiocsctty s x u.pty with
    | .ok table => some { s with table, spawned := s.advance c .ready }
    | .error _ => exitStep s x

def callStep (p : Pid) (call : Call Pid Nat) : Option State :=
  (s.table.find p).bind fun x =>
    let allowed := match call with
      | .exit => false
      | .acquire pty => !s.inSetup p && !s.hungUp pty
      | _ => !s.inSetup p
    if allowed then (perform s.table x call).map fun table => { s with table } else none

def step : Act → Option State
  | .openpty pty =>
    if pty ∉ s.ptys ∧ (s.table.control pty).isNone ∧ s.hungUp pty = false then
      some { s with ptys := pty :: s.ptys }
    else none
  | .fork c pty b =>
    if pty ∈ s.ptys then
      (s.table.find s.parent).bind fun x => (perform s.table x (.fork c)).map fun table =>
        { s with table, spawned := { child := c, pty, builder := b, stage := .forked } :: s.spawned }
    else none
  | .setsid c => setsidStep s c
  | .tiocsctty c => tiocscttyStep s c
  | .exec c => (child s c .ready).map fun _ => { s with spawned := s.advance c .program }
  | .call p call => callStep s p call
  | .exit p => if p = s.parent then none else (s.table.find p).bind (exitStep s)
  | .hangup pty =>
    if pty ∈ s.ptys then
      some { s with table := s.table.hangup pty, hungUp := Function.update s.hungUp pty true }
    else none

/-- What `tcgetpgrp` returns for the master. -/
def tcgetpgrp (pty : Nat) : Nat :=
  match s.table.control pty with
  | some k => k.foreground
  | none => 0

/-- `process_group_leader`. -/
def processGroupLeader (pty : Nat) : Option Nat :=
  if 0 < tcgetpgrp s pty then some (tcgetpgrp s pty) else none

/-! What a step does. -/

inductive Stepped : Act → State → Prop where
  | openpty {pty : Nat} : pty ∉ s.ptys → s.table.control pty = none →
      Stepped (.openpty pty) { s with ptys := pty :: s.ptys }
  | fork {c : Pid} {pty : Nat} {b : Builder} {x : Proc Pid Nat} {table : Table Pid Nat} :
      pty ∈ s.ptys → x ∈ s.table.procs → perform s.table x (.fork c) = some table →
        Stepped (.fork c pty b) { s with
          table, spawned := { child := c, pty, builder := b, stage := .forked } :: s.spawned }
  | setsid {u : Spawned} {x : Proc Pid Nat} {table : Table Pid Nat} : u ∈ s.spawned →
      u.stage = .forked → x ∈ s.table.procs → x.pid = u.child →
        perform s.table x .setsid = some table →
          Stepped (.setsid u.child) { s with
            table
            spawned := s.advance u.child (if u.builder.controllingTty then .led else .ready) }
  | tiocsctty {u : Spawned} {x : Proc Pid Nat} {table : Table Pid Nat} : u ∈ s.spawned →
      u.stage = .led → x ∈ s.table.procs → x.pid = u.child → s.hungUp u.pty = false →
        perform s.table x (.acquire u.pty) = some table →
          Stepped (.tiocsctty u.child) { s with table, spawned := s.advance u.child .ready }
  | exec {u : Spawned} : u ∈ s.spawned → u.stage = .ready →
      Stepped (.exec u.child) { s with spawned := s.advance u.child .program }
  | call {x : Proc Pid Nat} {call : Call Pid Nat} {table : Table Pid Nat} : x ∈ s.table.procs →
      s.inSetup x.pid = false → call ≠ .exit → perform s.table x call = some table →
        Stepped (.call x.pid call) { s with table }
  | exit {a : Act} {x : Proc Pid Nat} {table : Table Pid Nat} : x ∈ s.table.procs →
      perform s.table x .exit = some table →
        Stepped a { s with table, spawned := s.spawned.filter fun u => u.child ≠ x.pid }
  | hangup {pty : Nat} : pty ∈ s.ptys → Stepped (.hangup pty)
      { s with table := s.table.hangup pty, hungUp := Function.update s.hungUp pty true }

variable {s} {t : State}

theorem child_eq_some {c : Pid} {stage : Stage} {u : Spawned} {x : Proc Pid Nat}
    (h : child s c stage = some (u, x)) :
    u ∈ s.spawned ∧ u.child = c ∧ u.stage = stage ∧ x ∈ s.table.procs ∧ x.pid = c := by
  unfold child at h
  split at h
  · rename_i u' x' hu hx
    obtain ⟨hstage, h⟩ := Option.ite_none_right_eq_some.mp h
    cases h
    obtain ⟨hmem, hpid⟩ := of_find hx
    exact ⟨List.mem_of_find?_eq_some hu, by simpa using List.find?_some hu, hstage, hmem, hpid⟩
  · cases h

theorem stepped_exit {a : Act} {x : Proc Pid Nat} (hx : x ∈ s.table.procs)
    (h : exitStep s x = some t) : Stepped s a t := by
  obtain ⟨table, hc, rfl⟩ := Option.map_eq_some_iff.mp h
  exact .exit hx hc

theorem stepped {a : Act} (h : step s a = some t) : Stepped s a t := by
  cases a with
  | openpty pty =>
    obtain ⟨⟨hnew, hnone, -⟩, h⟩ := Option.ite_none_right_eq_some.mp h
    exact Option.some.inj h ▸ .openpty hnew (Option.isNone_iff_eq_none.mp hnone)
  | fork c pty b =>
    obtain ⟨hpty, h⟩ := Option.ite_none_right_eq_some.mp h
    obtain ⟨x, hx, h⟩ := Option.bind_eq_some_iff.mp h
    obtain ⟨table, hc, rfl⟩ := Option.map_eq_some_iff.mp h
    exact .fork hpty (of_find hx).1 hc
  | setsid c =>
    obtain ⟨⟨u, x⟩, hchild, h⟩ := Option.bind_eq_some_iff.mp h
    obtain ⟨hu, rfl, hstage, hx, hpid⟩ := child_eq_some hchild
    dsimp only at h
    split at h
    · rename_i table hc
      exact Option.some.inj h ▸ .setsid hu hstage hx hpid hc
    · exact stepped_exit hx h
  | tiocsctty c =>
    obtain ⟨⟨u, x⟩, hchild, h⟩ := Option.bind_eq_some_iff.mp h
    obtain ⟨hu, rfl, hstage, hx, hpid⟩ := child_eq_some hchild
    dsimp only at h
    split at h
    · rename_i table hc
      unfold tiocsctty at hc
      split at hc
      · cases hc
      · rename_i hup
        split at hc
        · rename_i table' hc'
          cases hc
          exact Option.some.inj h ▸
            .tiocsctty hu hstage hx hpid (Bool.eq_false_iff.mpr hup) hc'
        · cases hc
    · exact stepped_exit hx h
  | exec c =>
    obtain ⟨⟨u, x⟩, hchild, rfl⟩ := Option.map_eq_some_iff.mp h
    obtain ⟨hu, rfl, hstage, -, -⟩ := child_eq_some hchild
    exact .exec hu hstage
  | call p call =>
    obtain ⟨x, hx, h⟩ := Option.bind_eq_some_iff.mp h
    obtain ⟨hmem, rfl⟩ := of_find hx
    obtain ⟨hallowed, h⟩ := Option.ite_none_right_eq_some.mp h
    obtain ⟨table, hc, rfl⟩ := Option.map_eq_some_iff.mp h
    cases call with
    | exit => cases hallowed
    | acquire pty =>
      simp only [Bool.and_eq_true, Bool.not_eq_eq_eq_not, Bool.not_true] at hallowed
      exact .call hmem hallowed.1 nofun hc
    | _ =>
      simp only [Bool.not_eq_eq_eq_not, Bool.not_true] at hallowed
      exact .call hmem hallowed nofun hc
  | exit p =>
    obtain ⟨-, h⟩ := Option.ite_none_left_eq_some.mp h
    obtain ⟨x, hx, h⟩ := Option.bind_eq_some_iff.mp h
    exact stepped_exit (of_find hx).1 h
  | hangup pty =>
    obtain ⟨hpty, h⟩ := Option.ite_none_right_eq_some.mp h
    exact Option.some.inj h ▸ .hangup hpty

/-! What a run keeps. -/

/-- The process of a child, and what the stage says of it. -/
structure Spawned.At (u : Spawned) (table : Table Pid Nat) (x : Proc Pid Nat) : Prop where
  mem : x ∈ table.procs
  pid : x.pid = u.child
  forked : u.stage = .forked → ∀ y ∈ table.procs, y.group ≠ u.child
  led : u.stage = .led → u.builder.controllingTty = true ∧ x.session = x.pid ∧ x.terminal = none

structure State.Sound (s : State) : Prop where
  table : Sessions.Sound s.table
  children : ∀ u ∈ s.spawned, ∀ v ∈ s.spawned, u.child = v.child → u = v
  placed : ∀ u ∈ s.spawned, ∃ x, u.At s.table x
  ptys : ∀ u ∈ s.spawned, u.pty ∈ s.ptys

theorem at_perform {u : Spawned} {x y : Proc Pid Nat} {table : Table Pid Nat} {call : Call Pid Nat}
    (hu : u.At s.table y) (hx : x ∈ s.table.procs) (hc : perform s.table x call = some table)
    (hexit : call = .exit → u.child ≠ x.pid)
    (hsetup : u.stage = .forked ∨ u.stage = .led → u.child ≠ x.pid) : ∃ y', u.At table y' := by
  obtain ⟨y', hy', hedited⟩ := edited_perform hc hu.mem fun he => hu.pid ▸ hexit he
  refine ⟨y', hy', hedited.pid.trans hu.pid, ?_, ?_⟩
  · intro hstage
    exact group_perform hx hc (hsetup (.inl hstage)).symm (hu.forked hstage)
  · intro hstage
    have hne : y.pid ≠ x.pid := hu.pid ▸ hsetup (.inr hstage)
    obtain ⟨htty, hsession, hnone⟩ := hu.led hstage
    refine ⟨htty, ?_, ?_⟩
    · rw [hedited.session hne, hedited.pid, hsession]
    · rcases hedited.terminal hne with hsame | hlost
      · exact hsame.trans hnone
      · exact hlost

theorem mem_advance {u v : Spawned} {stage : Stage} (hs : s.Sound) (hu : u ∈ s.spawned) :
    v ∈ s.advance u.child stage ↔
      v = { u with stage } ∨ v ∈ s.spawned ∧ v.child ≠ u.child := by
  refine ⟨?_, ?_⟩
  · intro hv
    obtain ⟨w, hw, rfl⟩ := List.mem_map.mp hv
    by_cases heq : w.child = u.child
    · obtain rfl := hs.children w hw u hu heq
      exact .inl (if_pos rfl)
    · rw [if_neg heq]
      exact .inr ⟨hw, heq⟩
  · intro hv
    rcases hv with rfl | ⟨hv, hne⟩
    · exact List.mem_map.mpr ⟨u, hu, if_pos rfl⟩
    · exact List.mem_map.mpr ⟨v, hv, if_neg hne⟩

/-- A child that gets to another stage, and maybe makes a call. -/
theorem sound_advance {u : Spawned} {stage : Stage} {table : Table Pid Nat} (hs : s.Sound)
    (hu : u ∈ s.spawned) (htable : Sessions.Sound table)
    (hmine : ∃ y, Spawned.At { u with stage } table y)
    (hothers : ∀ v ∈ s.spawned, v.child ≠ u.child → ∃ y, v.At table y) :
    State.Sound { s with table, spawned := s.advance u.child stage } := by
  refine ⟨htable, ?_, ?_, ?_⟩
  · intro v hv w hw hchild
    rcases (mem_advance hs hu).mp hv with rfl | ⟨hv, hne⟩
    · rcases (mem_advance hs hu).mp hw with rfl | ⟨-, hne⟩
      · rfl
      · exact absurd hchild.symm hne
    · rcases (mem_advance hs hu).mp hw with rfl | ⟨hw, -⟩
      · exact absurd hchild hne
      · exact hs.children v hv w hw hchild
  · intro v hv
    rcases (mem_advance hs hu).mp hv with rfl | ⟨hv, hne⟩
    · exact hmine
    · exact hothers v hv hne
  · intro v hv
    rcases (mem_advance hs hu).mp hv with rfl | ⟨hv, -⟩
    · exact hs.ptys u hu
    · exact hs.ptys v hv

theorem not_inSetup {p : Pid} (h : s.inSetup p = false) {u : Spawned} (hu : u ∈ s.spawned)
    (hstage : u.stage ≠ .program) : u.child ≠ p := by
  have hall := List.any_eq_false.mp h u hu
  rintro rfl
  simp [hstage] at hall

theorem sound_step {a : Act} (h : Stepped s a t) (hs : s.Sound) : t.Sound := by
  cases h with
  | openpty hnew hnone =>
    exact ⟨hs.table, hs.children, hs.placed, fun u hu => List.mem_cons_of_mem _ (hs.ptys u hu)⟩
  | @fork c pty b x table hpty hx hc =>
    obtain ⟨hfresh, htable⟩ := Option.ite_none_right_eq_some.mp hc
    have hnew : ∀ u ∈ s.spawned, u.child ≠ c := by
      intro u hu
      obtain ⟨y, hy⟩ := hs.placed u hu
      exact hy.pid ▸ (hfresh y hy.mem).1
    refine ⟨(perform_keeps hs.table hx hc).sound, ?_, ?_, ?_⟩
    · intro u hu v hv hchild
      rcases List.mem_cons.mp hu with rfl | hu
      · rcases List.mem_cons.mp hv with rfl | hv
        · rfl
        · exact absurd hchild.symm (hnew v hv)
      · rcases List.mem_cons.mp hv with rfl | hv
        · exact absurd hchild (hnew u hu)
        · exact hs.children u hu v hv hchild
    · obtain rfl := Option.some.inj htable
      intro u hu
      rcases List.mem_cons.mp hu with rfl | hu
      · refine ⟨{ x with pid := c }, List.mem_cons_self, rfl, fun _ => ?_, nofun⟩
        exact List.forall_mem_cons.mpr ⟨(hfresh x hx).2.2, fun y hy => (hfresh y hy).2.2⟩
      · obtain ⟨y, hy⟩ := hs.placed u hu
        refine ⟨y, List.mem_cons_of_mem _ hy.mem, hy.pid, fun hstage => ?_, hy.led⟩
        exact List.forall_mem_cons.mpr ⟨hy.forked hstage x hx, hy.forked hstage⟩
    · intro u hu
      rcases List.mem_cons.mp hu with rfl | hu
      · exact hpty
      · exact hs.ptys u hu
  | @setsid u x table hu hstage hx hpid hc =>
    refine sound_advance hs hu (perform_keeps hs.table hx hc).sound ?_ ?_
    · obtain ⟨-, htable⟩ := Option.ite_none_left_eq_some.mp hc
      obtain rfl := Option.some.inj htable
      refine ⟨_, mem_edit.mpr ⟨x, hx, if_pos rfl⟩, hpid, ?_, ?_⟩
      · intro hforked
        dsimp only at hforked
        split at hforked <;> cases hforked
      · intro hled
        dsimp only at hled
        split at hled
        · rename_i htty
          exact ⟨htty, rfl, rfl⟩
        · cases hled
    · intro v hv hne
      obtain ⟨y, hy⟩ := hs.placed v hv
      exact at_perform hy hx hc nofun fun _ => hpid ▸ hne
  | @tiocsctty u x table hu hstage hx hpid hup hc =>
    refine sound_advance hs hu (perform_keeps hs.table hx hc).sound ?_ ?_
    · obtain ⟨y, hy, hedited⟩ := edited_perform hc hx nofun
      exact ⟨y, hy, hedited.pid.trans hpid, nofun, nofun⟩
    · intro v hv hne
      obtain ⟨y, hy⟩ := hs.placed v hv
      exact at_perform hy hx hc nofun fun _ => hpid ▸ hne
  | @exec u hu hstage =>
    refine sound_advance hs hu hs.table ?_ fun v hv _ => hs.placed v hv
    obtain ⟨y, hy⟩ := hs.placed u hu
    exact ⟨y, hy.mem, hy.pid, nofun, nofun⟩
  | @call x call table hx hout hne hc =>
    refine ⟨(perform_keeps hs.table hx hc).sound, hs.children, ?_, hs.ptys⟩
    intro u hu
    obtain ⟨y, hy⟩ := hs.placed u hu
    refine at_perform hy hx hc (fun he => absurd he hne) fun hstage => not_inSetup hout hu ?_
    rcases hstage with hstage | hstage
    · rw [hstage]
      nofun
    · rw [hstage]
      nofun
  | @exit _ x table hx hc =>
    have hold : ∀ u ∈ s.spawned.filter fun u => u.child ≠ x.pid, u ∈ s.spawned ∧ u.child ≠ x.pid := by
      intro u hu
      obtain ⟨hu, hne⟩ := List.mem_filter.mp hu
      exact ⟨hu, by simpa using hne⟩
    refine ⟨(perform_keeps hs.table hx hc).sound, ?_, ?_, fun u hu => hs.ptys u (hold u hu).1⟩
    · exact fun u hu v hv => hs.children u (hold u hu).1 v (hold v hv).1
    · intro u hu
      obtain ⟨hu, hne⟩ := hold u hu
      obtain ⟨y, hy⟩ := hs.placed u hu
      exact at_perform hy hx hc (fun _ => hne) fun _ => hne
  | @hangup pty hpty =>
    refine ⟨sound_hangup hs.table, hs.children, ?_, hs.ptys⟩
    intro u hu
    obtain ⟨y, hy⟩ := hs.placed u hu
    obtain ⟨y', hy', hlost⟩ := exists_lost (q := fun x => x.terminal = some pty) hy.mem
    refine ⟨y', hy', hlost.pid.trans hy.pid, ?_, ?_⟩
    · intro hstage z' hz'
      obtain ⟨z, hz, hlost⟩ := of_mem_lose hz'
      exact hlost.group ▸ hy.forked hstage z hz
    · intro hstage
      obtain ⟨htty, hlead, hnone⟩ := hy.led hstage
      refine ⟨htty, by rw [hlost.session, hlost.pid, hlead], ?_⟩
      exact hlost.terminal_or.elim (fun hsame => hsame.trans hnone) id

theorem sound_start {table : Table Pid Nat} (h0 : Sessions.Sound table) (parent : Pid) :
    (start table parent).Sound := by
  refine ⟨h0, ?_, ?_, ?_⟩
  · exact fun u hu => absurd hu List.not_mem_nil
  · exact fun u hu => absurd hu List.not_mem_nil
  · exact fun u hu => absurd hu List.not_mem_nil

theorem sound_run {table : Table Pid Nat} {parent : Pid} (h0 : Sessions.Sound table)
    {as : List Act} (h : run step (start table parent) as = some s) : s.Sound :=
  run_keeps (fun _ _ _ hs hstep => sound_step (stepped hstep) hs) as (sound_start h0 parent) h

/-! The calls of a child. -/

theorem processGroupLeader_isSome {pty : Nat} :
    (processGroupLeader s pty).isSome ↔ (s.table.control pty).isSome := by
  have hpos : 0 < tcgetpgrp s pty ↔ (s.table.control pty).isSome := by
    unfold tcgetpgrp
    cases s.table.control pty with
    | none => exact iff_of_false (Nat.lt_irrefl 0) Bool.false_ne_true
    | some k => exact iff_of_true k.foreground.pos rfl
  rw [← hpos, processGroupLeader]
  split
  · rename_i h
    exact iff_of_true rfl h
  · rename_i h
    exact iff_of_false Bool.false_ne_true h

/-- The master knows a group as long as a process leads a session that the pty controls. -/
theorem processGroupLeader_iff (hs : s.Sound) {pty : Nat} :
    (processGroupLeader s pty).isSome ↔ ∃ l, s.table.Holds l pty := by
  rw [processGroupLeader_isSome, Option.isSome_iff_exists]
  simp only [hs.table.holds_iff_control]
  refine ⟨?_, ?_⟩
  · rintro ⟨k, hk⟩
    exact ⟨k.session, k, hk, rfl⟩
  · rintro ⟨l, k, hk, -⟩
    exact ⟨k, hk⟩

/-- A child does not fail at `setsid`, and at `TIOCSCTTY` exactly where the master is closed
or knows a group. -/
theorem child_calls (hs : s.Sound) {u : Spawned} (hu : u ∈ s.spawned) {x : Proc Pid Nat}
    (hx : s.table.find u.child = some x) :
    (u.stage = .forked → ∃ table, perform s.table x .setsid = some table) ∧
      (u.stage = .led → ((∃ table, tiocsctty s x u.pty = .ok table) ↔
        s.hungUp u.pty = false ∧ ¬ (processGroupLeader s u.pty).isSome)) := by
  obtain ⟨hmem, hpid⟩ := of_find hx
  obtain ⟨y, hy⟩ := hs.placed u hu
  obtain rfl := hs.table.pids y hy.mem x hmem (hy.pid.trans hpid.symm)
  refine ⟨?_, ?_⟩
  · intro hstage
    have hgroup : ¬ ∃ z ∈ s.table.procs, z.group = y.pid := by
      rintro ⟨z, hz, heq⟩
      exact hy.forked hstage z hz (heq.trans hpid)
    exact ⟨_, if_neg hgroup⟩
  · intro hstage
    obtain ⟨-, hleader, hnone⟩ := hy.led hstage
    rw [processGroupLeader_iff hs, not_exists, ← acquire_iff hs.table hmem hleader hnone, tiocsctty]
    cases s.hungUp u.pty with
    | true => simp
    | false => cases perform s.table y (.acquire u.pty) <;> simp

/-! A spawn. -/

/-- A spawn that goes well but for `TIOCSCTTY` goes well exactly if that does. -/
theorem spawnCommand_iff_tiocsctty {N : Type} {m : UnixSpawn.Machine} {w : World N} {b : Builder}
    (htty : b.controllingTty = true)
    (hrest : ∃ child, spawnCommand { m with tiocsctty := .ok () } w b = .ok child) :
    (∃ child, spawnCommand m w b = .ok child) ↔ m.tiocsctty = .ok () := by
  cases hm : m.tiocsctty with
  | ok u =>
    have hsame : { m with tiocsctty := .ok () } = m := by rw [← hm]
    rw [hsame] at hrest
    exact iff_of_true hrest rfl
  | error e =>
    refine iff_of_false ?_ (by simp)
    intro hex
    obtain ⟨child, hc⟩ := hex
    cases hcmd : asCommand w b with
    | error e =>
      rw [spawnCommand_error hcmd] at hc
      cases hc
    | ok cmd =>
      have hfails : ∃ step ∈ earlySteps m b cmd, step.result ≠ .ok () := by
        refine ⟨FailFast.call m.tiocsctty, ?_, ?_⟩
        · rw [earlySteps, if_pos htty]
          exact List.mem_append_right _ List.mem_cons_self
        · simp [FailFast.call, hm]
      obtain ⟨-, hspawn⟩ := (spawnCommand_ok hcmd).mp ⟨child, hc⟩
      obtain ⟨-, hnot | hnot⟩ := spawn_ok.mp hspawn
      · obtain ⟨step, hstep, hresult⟩ := hfails
        exact hnot ⟨step, List.mem_append_left _ hstep, hresult⟩
      · exact hnot (.inl hfails)

/-- In every run: a `spawn_command` with `controlling_tty` whose child is at `TIOCSCTTY`, and
in which all else goes well, is refused exactly if the master is closed or knows a process
group. -/
theorem spawn_refused_iff {table : Table Pid Nat} {parent : Pid} (h0 : Sessions.Sound table)
    {as : List Act} (h : run step (start table parent) as = some s) {u : Spawned}
    (hu : u ∈ s.spawned) (hled : u.stage = .led) {x : Proc Pid Nat}
    (hx : s.table.find u.child = some x) {N : Type} {m : UnixSpawn.Machine} {w : World N}
    (hm : m.tiocsctty = (tiocsctty s x u.pty).map fun _ => ())
    (hrest : ∃ child, spawnCommand { m with tiocsctty := .ok () } w u.builder = .ok child) :
    (∃ e, spawnCommand m w u.builder = .error e) ↔
      s.hungUp u.pty = true ∨ (processGroupLeader s u.pty).isSome := by
  have hs := sound_run h0 h
  obtain ⟨y, hy⟩ := hs.placed u hu
  have htty := (hy.led hled).1
  have hresult : (∃ e, spawnCommand m w u.builder = .error e) ↔ m.tiocsctty ≠ .ok () := by
    rw [ne_eq, ← spawnCommand_iff_tiocsctty htty hrest]
    cases spawnCommand m w u.builder <;> simp
  have hcall : m.tiocsctty = .ok () ↔ ∃ table, tiocsctty s x u.pty = .ok table := by
    rw [hm]
    cases tiocsctty s x u.pty <;> simp [Except.map]
  rw [hresult, ne_eq, hcall, (child_calls hs hu hx).2 hled, not_and_or, Bool.not_eq_false, not_not]

/-- A shell that is its own session. -/
def shell : Table Pid Nat where
  procs := [{ pid := 1, session := 1, group := 1, terminal := none }]
  control _ := none

theorem sound_shell : Sessions.Sound shell := by
  refine ⟨?_, ?_, ?_, nofun⟩
  · intro x hx y hy _
    exact (List.mem_singleton.mp hx).trans (List.mem_singleton.mp hy).symm
  · intro x hx _
    obtain rfl := List.mem_singleton.mp hx
    rfl
  · intro x hx t ht
    obtain rfl := List.mem_singleton.mp hx
    cases ht

/-- The default program, which is to have the pty for its terminal. -/
def defaultProg : Builder := .newDefaultProg .empty { umask := none, preExecHooks := [] }

/-- A program is started, and becomes another one's foreground. -/
def oneProgram : List Act :=
  [.openpty 0, .fork 2 0 defaultProg, .setsid 2, .tiocsctty 2, .exec 2, .call 2 (.fork 3),
    .call 3 (.setpgid 3), .call 2 (.setForeground 0 3)]

/-- While it runs there is a second spawn, as far as `TIOCSCTTY`. -/
def twoPrograms : List Act := oneProgram ++ [.fork 4 0 defaultProg, .setsid 4]

theorem second_refused : ∃ e,
    spawnCommand { linux with tiocsctty := .error EPERM } inH defaultProg = .error e := by
  obtain ⟨s, u, x, hs, hu, hled, hx, hpty, hb, hup, hleader, hcall⟩ : ∃ s u x,
      run step (start shell 1) twoPrograms = some s ∧ u ∈ s.spawned ∧ u.stage = .led ∧
        s.table.find u.child = some x ∧ u.pty = 0 ∧ u.builder = defaultProg ∧
        s.hungUp 0 = false ∧ processGroupLeader s 0 = some 3 ∧
        (tiocsctty s x u.pty).map (fun _ => ()) = .error EPERM :=
    ⟨_, _, _, rfl, List.mem_cons_self, rfl, rfl, rfl, rfl, rfl, rfl, rfl⟩
  have hrest : ∃ child, spawnCommand linux inH defaultProg = .ok child := ⟨_, rfl⟩
  have hrefused := spawn_refused_iff sound_shell hs hu hled hx
    (m := { linux with tiocsctty := .error EPERM }) (w := inH) hcall.symm (hb ▸ hrest)
  rw [hb, hpty, hleader] at hrefused
  exact hrefused.mpr (.inr rfl)

/-! Who controls what. -/

/-- The child leads a session that the pty controls, as `TIOCSCTTY` has left it. -/
def Spawned.Controls (u : Spawned) (pty : Nat) : Prop :=
  u.pty = pty ∧ u.builder.controllingTty = true ∧ (u.stage = .ready ∨ u.stage = .program)

/-- No process takes a pty for its terminal by itself, and no program of `spawn_command`
gives up the one that it has. -/
def Tame (s : State) : Act → Prop
  | .call _ (.acquire pty) => pty ∉ s.ptys
  | .call p .giveUp => ∀ u ∈ s.spawned, u.child ≠ p
  | _ => True

instance (s : State) (a : Act) : Decidable (Tame s a) := by
  unfold Tame
  split
  · exact inferInstance
  · exact inferInstance
  · exact inferInstance

structure State.Tracked (s : State) : Prop extends s.Sound where
  controls : ∀ pty ∈ s.ptys, ∀ l, s.table.Holds l pty ↔
    s.hungUp pty = false ∧ ∃ u ∈ s.spawned, u.child = l ∧ u.Controls pty

theorem exists_advance {u : Spawned} {stage : Stage} (hs : s.Sound) (hu : u ∈ s.spawned) {l : Pid}
    {pty : Nat} (hold : ¬ u.Controls pty) :
    (∃ v ∈ s.advance u.child stage, v.child = l ∧ v.Controls pty) ↔
      (∃ v ∈ s.spawned, v.child = l ∧ v.Controls pty) ∨
        l = u.child ∧ Spawned.Controls { u with stage } pty := by
  refine ⟨?_, ?_⟩
  · intro h
    obtain ⟨v, hv, rfl, hcontrols⟩ := h
    rcases (mem_advance hs hu).mp hv with rfl | ⟨hv, -⟩
    · exact .inr ⟨rfl, hcontrols⟩
    · exact .inl ⟨v, hv, rfl, hcontrols⟩
  · intro h
    rcases h with ⟨v, hv, rfl, hcontrols⟩ | ⟨rfl, hcontrols⟩
    · refine ⟨v, (mem_advance hs hu).mpr (.inr ⟨hv, ?_⟩), rfl, hcontrols⟩
      intro heq
      exact hold (hs.children v hv u hu heq ▸ hcontrols)
    · exact ⟨_, (mem_advance hs hu).mpr (.inl rfl), rfl, hcontrols⟩

/-- A program controls what it did when it was ready. -/
theorem exists_exec {u : Spawned} (hs : s.Sound) (hu : u ∈ s.spawned) (hready : u.stage = .ready)
    {l : Pid} {pty : Nat} :
    (∃ v ∈ s.advance u.child .program, v.child = l ∧ v.Controls pty) ↔
      ∃ v ∈ s.spawned, v.child = l ∧ v.Controls pty := by
  refine ⟨?_, ?_⟩
  · intro h
    obtain ⟨v, hv, rfl, hcontrols⟩ := h
    rcases (mem_advance hs hu).mp hv with rfl | ⟨hv, -⟩
    · exact ⟨u, hu, rfl, hcontrols.1, hcontrols.2.1, .inl hready⟩
    · exact ⟨v, hv, rfl, hcontrols⟩
  · intro h
    obtain ⟨v, hv, rfl, hcontrols⟩ := h
    by_cases heq : v.child = u.child
    · obtain rfl := hs.children v hv u hu heq
      exact ⟨_, (mem_advance hs hu).mpr (.inl rfl), rfl, hcontrols.1, hcontrols.2.1, .inr rfl⟩
    · exact ⟨v, (mem_advance hs hu).mpr (.inr ⟨hv, heq⟩), rfl, hcontrols⟩

theorem not_controls {u : Spawned} {pty : Nat} (hready : u.stage ≠ .ready)
    (hprogram : u.stage ≠ .program) : ¬ u.Controls pty :=
  fun h => h.2.2.elim hready hprogram

theorem tracked_step {a : Act} (h : Stepped s a t) (hs : s.Tracked) (ha : Tame s a) : t.Tracked := by
  refine ⟨sound_step h hs.toSound, ?_⟩
  cases h with
  | @openpty new hnew hnone =>
    intro pty hpty l
    rcases List.mem_cons.mp hpty with rfl | hpty
    · refine iff_of_false ?_ ?_
      · rw [hs.table.holds_iff_control, hnone]
        rintro ⟨k, hk, -⟩
        cases hk
      · rintro ⟨-, u, hu, -, rfl, -⟩
        exact hnew (hs.ptys u hu)
    · exact hs.controls pty hpty l
  | @fork c new b x table hnew hx hc =>
    intro pty hpty l
    have hfork : ¬ Spawned.Controls { child := c, pty := new, builder := b, stage := .forked } pty :=
      not_controls nofun nofun
    rw [(perform_keeps hs.table hx hc).holds]
    simp only [List.exists_mem_cons_iff, hfork, and_false, false_or]
    exact hs.controls pty hpty l
  | @setsid u x table hu hstage hx hpid hc =>
    intro pty hpty l
    have hold : ¬ u.Controls pty := not_controls (by rw [hstage]; nofun) (by rw [hstage]; nofun)
    have hnew : ¬ Spawned.Controls
        { u with stage := if u.builder.controllingTty then .led else .ready } pty := by
      rintro ⟨-, htty, hstage⟩
      dsimp only at htty hstage
      rw [if_pos htty] at hstage
      exact hstage.elim nofun nofun
    rw [(perform_keeps hs.table hx hc).holds, exists_advance hs.toSound hu hold,
      or_iff_left fun h => hnew h.2]
    exact hs.controls pty hpty l
  | @tiocsctty u x table hu hstage hx hpid hup hc =>
    intro pty hpty l
    have hold : ¬ u.Controls pty := not_controls (by rw [hstage]; nofun) (by rw [hstage]; nofun)
    obtain ⟨y, hy⟩ := hs.placed u hu
    have htty := (hy.led hstage).1
    have hnew : Spawned.Controls { u with stage := .ready } pty ↔ pty = u.pty :=
      ⟨fun h => h.1.symm, fun h => ⟨h.symm, htty, .inl rfl⟩⟩
    have hafter : (Call.acquire u.pty).After s.table x l pty ↔
        s.table.Holds l pty ∨ l = u.child ∧ pty = u.pty := by rw [← hpid]; rfl
    rw [(perform_keeps hs.table hx hc).holds, hafter, exists_advance hs.toSound hu hold, hnew,
      hs.controls pty hpty l, and_or_left]
    refine or_congr_right (iff_and_self.mpr ?_)
    rintro ⟨-, rfl⟩
    exact hup
  | @exec u hu hstage =>
    intro pty hpty l
    rw [exists_exec hs.toSound hu hstage]
    exact hs.controls pty hpty l
  | @call x call table hx hout hne hc =>
    intro pty hpty l
    rw [(perform_keeps hs.table hx hc).holds, ← hs.controls pty hpty l]
    cases call with
    | acquire new =>
      refine or_iff_left ?_
      rintro ⟨-, rfl⟩
      exact ha hpty
    | giveUp =>
      refine and_iff_left_of_imp fun hl => ?_
      obtain ⟨-, u, hu, rfl, -⟩ := (hs.controls pty hpty l).mp hl
      exact ha u hu
    | exit => exact absurd rfl hne
    | _ => exact Iff.rfl
  | @exit _ x table hx hc =>
    intro pty hpty l
    have hafter : Call.exit.After s.table x l pty ↔ s.table.Holds l pty ∧ l ≠ x.pid := Iff.rfl
    rw [(perform_keeps hs.table hx hc).holds, hafter, hs.controls pty hpty l, and_assoc]
    refine and_congr_right fun _ => ?_
    simp only [List.mem_filter, decide_eq_true_eq]
    refine ⟨?_, ?_⟩
    · rintro ⟨⟨u, hu, rfl, hcontrols⟩, hne⟩
      exact ⟨u, ⟨hu, hne⟩, rfl, hcontrols⟩
    · rintro ⟨u, ⟨hu, hne⟩, rfl, hcontrols⟩
      exact ⟨⟨u, hu, rfl, hcontrols⟩, hne⟩
  | @hangup gone hgone =>
    intro pty hpty l
    rw [holds_hangup, hs.controls pty hpty l]
    by_cases heq : pty = gone
    · simp [heq]
    · simp [heq]

theorem tracked_run {table : Table Pid Nat} {parent : Pid} (h0 : Sessions.Sound table)
    {as : List Act} (h : run step (start table parent) as = some s)
    (ha : Along step Tame (start table parent) as) : s.Tracked :=
  run_along (fun _ _ _ hs ha hstep => tracked_step (stepped hstep) hs ha) as
    ⟨sound_start h0 parent, fun _ hpty => absurd hpty List.not_mem_nil⟩ ha h

/-- In every run in which no process takes a pty or gives it up by itself: the master knows
a process group exactly as long as it is open and a program runs that was started on the
pty with `controlling_tty`, or a child that is about to be one. -/
theorem group_leader_iff {table : Table Pid Nat} {parent : Pid} (h0 : Sessions.Sound table)
    {as : List Act} (h : run step (start table parent) as = some s)
    (ha : Along step Tame (start table parent) as) {pty : Nat} (hpty : pty ∈ s.ptys) :
    (processGroupLeader s pty).isSome ↔
      s.hungUp pty = false ∧ ∃ u ∈ s.spawned, u.Controls pty := by
  have hs := tracked_run h0 h ha
  rw [processGroupLeader_iff hs.toSound]
  simp only [hs.controls pty hpty]
  refine ⟨?_, ?_⟩
  · rintro ⟨l, hup, u, hu, -, hcontrols⟩
    exact ⟨hup, u, hu, hcontrols⟩
  · rintro ⟨hup, u, hu, hcontrols⟩
    exact ⟨u.child, hup, u, hu, rfl, hcontrols⟩

theorem program_known : ∃ s, run step (start shell 1) oneProgram = some s ∧
    ∃ u ∈ s.spawned, u.Controls 0 := by
  obtain ⟨s, hs, hptys, hleader⟩ : ∃ s, run step (start shell 1) oneProgram = some s ∧
      s.ptys = [0] ∧ processGroupLeader s 0 = some 3 := ⟨_, rfl, rfl, rfl⟩
  have hpty : 0 ∈ s.ptys := hptys ▸ List.mem_cons_self
  have hknown := group_leader_iff sound_shell hs (by decide) hpty
  rw [hleader] at hknown
  exact ⟨s, hs, (hknown.mp rfl).2⟩

end Xpty.UnixControl
