import Xpty.StepSystem
import Xpty.UnixCommand

/- Equality and clones of builders. `CommandBuilder` derives `PartialEq` and `Clone`; only
   the hooks have their own: `PreExecHooks::eq` compares how many there are, and a clone
   has none.

   Equal builders are the same but for what only Unix has (`beq_iff`), which the other
   operations neither read nor write, so they stay equal or panic together. A clone is
   equal to its original exactly when no hook was registered: the comparison of hooks was
   meant to take no part. -/
namespace Xpty

def CommandBuilder.withUnix {S U : Type} [OsStr S] (b : CommandBuilder S U) (unix : U) :
    CommandBuilder S U := { b with unix }

section
variable {S U : Type} [OsStr S] [DecidableEq S] [BEq U]

/-- `PartialEq for BTreeMap`: the same pairs in the same order. -/
instance : BEq (Envs S) where
  beq a b := a.map.toList == b.map.toList

/-- `PartialEq for CommandBuilder`, derived. -/
instance : BEq (CommandBuilder S U) where
  beq a b :=
    a.args == b.args && a.envs == b.envs && a.cwd == b.cwd && a.unix == b.unix &&
      a.controllingTty == b.controllingTty

theorem Envs.beq_iff {a b : Envs S} : (a == b) = true ↔ a = b := by
  show (a.map.toList == b.map.toList) = true ↔ _
  rw [beq_iff_eq, Std.ExtTreeMap.toList_inj]
  refine ⟨?_, ?_⟩
  · intro h
    exact Envs.ext fun k => by rw [h]
  · intro h
    rw [h]

/-- Equal builders are one builder with equal Unix parts. -/
theorem beq_iff {a b : CommandBuilder S U} :
    (a == b) = true ↔ b = a.withUnix b.unix ∧ (a.unix == b.unix) = true := by
  show (a.args == b.args && a.envs == b.envs && a.cwd == b.cwd && a.unix == b.unix &&
    a.controllingTty == b.controllingTty) = true ↔ _
  obtain ⟨args, envs, cwd, tty, unix⟩ := a
  obtain ⟨args', envs', cwd', tty', unix'⟩ := b
  simp only [Bool.and_eq_true, beq_iff_eq, Envs.beq_iff, CommandBuilder.withUnix,
    CommandBuilder.mk.injEq, and_true]
  refine ⟨?_, ?_⟩
  · intro h
    obtain ⟨⟨⟨⟨rfl, rfl⟩, rfl⟩, hunix⟩, rfl⟩ := h
    exact ⟨⟨rfl, rfl, rfl, rfl⟩, hunix⟩
  · intro h
    obtain ⟨⟨rfl, rfl, rfl, rfl⟩, hunix⟩ := h
    exact ⟨⟨⟨⟨rfl, rfl⟩, rfl⟩, hunix⟩, rfl⟩

end

/-! The operations that every platform has. -/

/-- An operation of `CommandBuilder`. -/
inductive BuilderOp (S : Type) where
  | arg (arg : S)
  | args (args : List S)
  | replaceDefaultProg (args : List S)
  | env (op : EnvOp S)
  | cwd (dir : S)
  | clearCwd
  | setControllingTty (on : Bool)

section
variable {S U : Type} [OsStr S]

/-- The builder after an operation, or the message of its panic. -/
def BuilderOp.apply (b : CommandBuilder S U) : BuilderOp S → Except String (CommandBuilder S U)
  | .arg s => b.arg s
  | .args l => b.addArgs l
  | .replaceDefaultProg l => b.replaceDefaultProg l
  | .env op => .ok (op.apply b)
  | .cwd dir => .ok (b.setCwd dir)
  | .clearCwd => .ok b.clearCwd
  | .setControllingTty on => .ok (b.setControllingTty on)

theorem arg_withUnix (b : CommandBuilder S U) (unix : U) (arg : S) :
    (b.withUnix unix).arg arg = (b.arg arg).map (·.withUnix unix) := by
  rw [CommandBuilder.arg, CommandBuilder.arg]
  show (if b.isDefaultProg = true then _ else _) = _
  split <;> rfl

theorem addArgs_withUnix (unix : U) : ∀ (args : List S) (b : CommandBuilder S U),
    (b.withUnix unix).addArgs args = (b.addArgs args).map (·.withUnix unix)
  | [], b => rfl
  | arg :: args, b => by
    have ih := addArgs_withUnix unix args
    simp only [CommandBuilder.addArgs, List.foldlM_cons, arg_withUnix] at ih ⊢
    cases b.arg arg with
    | error message => rfl
    | ok b' => exact ih b'

/-- No operation reads or writes what only Unix has. -/
theorem apply_withUnix (b : CommandBuilder S U) (unix : U) (op : BuilderOp S) :
    op.apply (b.withUnix unix) = (op.apply b).map (·.withUnix unix) := by
  cases op with
  | arg s => exact arg_withUnix b unix s
  | args l => exact addArgs_withUnix unix l b
  | replaceDefaultProg l =>
    show CommandBuilder.replaceDefaultProg _ l = (b.replaceDefaultProg l).map _
    rw [CommandBuilder.replaceDefaultProg, CommandBuilder.replaceDefaultProg]
    show (if (!b.isDefaultProg) = true then _ else _) = _
    split <;> rfl
  | env op => cases op <;> rfl
  | cwd dir => rfl
  | clearCwd => rfl
  | setControllingTty on => rfl

theorem unix_of_apply {b b' : CommandBuilder S U} {op : BuilderOp S} (h : op.apply b = .ok b') :
    b'.unix = b.unix := by
  have hself : op.apply b = (op.apply b).map (·.withUnix b.unix) := apply_withUnix b b.unix op
  rw [h] at hself
  have hb : b' = b'.withUnix b.unix := Except.ok.inj hself
  rw [hb]
  rfl

/-- Equal builders panic together or stay equal. -/
theorem apply_beq [DecidableEq S] [BEq U] {a b : CommandBuilder S U} (op : BuilderOp S)
    (h : (a == b) = true) :
    Option.Rel (fun a b => (a == b) = true) (op.apply a).toOption (op.apply b).toOption := by
  obtain ⟨hb, hunix⟩ := beq_iff.mp h
  have happly : op.apply b = (op.apply a).map (·.withUnix b.unix) := by
    rw [← apply_withUnix, ← hb]
  rw [happly]
  cases ha : op.apply a with
  | error message => exact .none
  | ok a' =>
    refine .some (beq_iff.mpr ⟨rfl, ?_⟩)
    rw [unix_of_apply ha]
    exact hunix

end

/-! Unix. -/

namespace Unix

open StepSystem

/-- `PartialEq for UnixFields`, as derived; `PreExecHooks::eq` compares the hooks' number. -/
instance : BEq UnixFields where
  beq a b := a.umask == b.umask && a.preExecHooks.length == b.preExecHooks.length

def umask (b : Builder) (mask : Option UInt32) : Builder := { b with unix := { b.unix with umask := mask } }

/-- An operation of `CommandBuilder` on Unix. -/
inductive UnixOp where
  | shared (op : BuilderOp UnixStr)
  | umask (mask : Option UInt32)
  | preExec (hook : Hook)

def UnixOp.apply (b : Builder) : UnixOp → Except String Builder
  | .shared op => op.apply b
  | .umask mask => .ok (Unix.umask b mask)
  | .preExec hook => .ok (Unix.preExec b hook)

/-- The builder after an operation that did not panic. -/
def step (b : Builder) (op : UnixOp) : Option Builder := (op.apply b).toOption

/-- How a builder is made. -/
inductive Constructor where
  | new (program : UnixStr)
  | fromArgv (args : List UnixStr)
  | newDefaultProg

def Constructor.build (baseEnv : Envs UnixStr) : Constructor → Builder
  | .new program => .new program baseEnv { umask := none, preExecHooks := [] }
  | .fromArgv args => .fromArgv args baseEnv { umask := none, preExecHooks := [] }
  | .newDefaultProg => .newDefaultProg baseEnv { umask := none, preExecHooks := [] }

theorem unix_beq_iff {a b : UnixFields} : (a == b) = true ↔
    a.umask = b.umask ∧ a.preExecHooks.length = b.preExecHooks.length := by
  show (a.umask == b.umask && a.preExecHooks.length == b.preExecHooks.length) = true ↔ _
  rw [Bool.and_eq_true, beq_iff_eq, beq_iff_eq]

/-- A clone is equal to its original when that has no hook, and only then. -/
theorem clone_beq_iff {b : Builder} : (cloneBuilder b == b) = true ↔ b.unix.preExecHooks = [] := by
  rw [beq_iff, unix_beq_iff]
  have hsame : b = (cloneBuilder b).withUnix b.unix := rfl
  rw [and_iff_right hsame]
  simp [cloneBuilder, eq_comm]

theorem step_beq {a b : Builder} (op : UnixOp) (h : (a == b) = true) :
    Option.Rel (fun a b => (a == b) = true) (step a op) (step b op) := by
  obtain ⟨hb, hunix⟩ := beq_iff.mp h
  obtain ⟨humask, hlen⟩ := unix_beq_iff.mp hunix
  cases op with
  | shared op => exact apply_beq op h
  | umask mask =>
    refine .some (beq_iff.mpr ⟨?_, unix_beq_iff.mpr ⟨rfl, hlen⟩⟩)
    rw [hb]
    rfl
  | preExec hook =>
    refine .some (beq_iff.mpr ⟨?_, unix_beq_iff.mpr ⟨humask, ?_⟩⟩)
    · rw [hb]
      rfl
    · simp [preExec, hlen]

/-- An operation leaves no hooks exactly when there were none and it does not add one. -/
theorem step_hooks {b b' : Builder} {op : UnixOp} (h : step b op = some b') :
    b'.unix.preExecHooks = [] ↔ b.unix.preExecHooks = [] ∧ ∀ hook, op ≠ .preExec hook := by
  cases op with
  | shared op =>
    cases ha : op.apply b with
    | error message => simp [step, UnixOp.apply, ha, Except.toOption] at h
    | ok a =>
      simp only [step, UnixOp.apply, ha, Except.toOption, Option.some.injEq] at h
      subst h
      simp [unix_of_apply ha]
  | umask mask =>
    cases h
    simp [umask]
  | preExec hook =>
    cases h
    simp [preExec]

/-- A builder made by a constructor and any operations is equal to its clone exactly when
none of them was `pre_exec`; two builders that are equal stay so under any operations,
or panic at the same one. -/
theorem clone_and_equality (baseEnv : Envs UnixStr) (constructor : Constructor) (ops : List UnixOp)
    (b : Builder) (h : run step (constructor.build baseEnv) ops = some b) :
    ((cloneBuilder b == b) = true ↔ ∀ op ∈ ops, ∀ hook, op ≠ .preExec hook) ∧
      ∀ a c : Builder, (a == c) = true → ∀ more : List UnixOp,
        Lockstep step (fun a c => (a == c) = true) a c more := by
  refine ⟨?_, ?_⟩
  · have hstart : (constructor.build baseEnv).unix.preExecHooks = [] := by
      cases constructor with
      | new program => rfl
      | fromArgv args => rfl
      | newDefaultProg => rfl
    have hrun : b.unix.preExecHooks = [] ↔ (constructor.build baseEnv).unix.preExecHooks = [] ∧
        Along step (fun _ op => ∀ hook, op ≠ .preExec hook) (constructor.build baseEnv) ops :=
      along_iff_end (fun _ _ _ _ _ => trivial) (fun _ _ _ _ => step_hooks) ops trivial h
    rw [clone_beq_iff, hrun, and_iff_right hstart, along_mem h]
  · intro a c hac more
    exact lockstep_of_step (fun _ _ op => step_beq op) more hac

/-- `ls -l` with a variable and a umask, and the default program, which panics on `arg`. -/
theorem clone_and_equality_ls :
    let ops : List UnixOp := [.shared (.args [bytes "-l"]),
      .shared (.env (.env (bytes "A") (bytes "1"))), .umask (some 18)]
    let shell : Builder := Constructor.newDefaultProg.build .empty
    (∃ b, run step ((Constructor.new (bytes "ls")).build .empty) ops = some b ∧
      (cloneBuilder b == b) = true) ∧
    Lockstep step (fun a c => (a == c) = true) (cloneBuilder shell) shell
      [.shared (.setControllingTty false), .shared (.arg (bytes "-l")), .umask none] := by
  intro ops shell
  refine ⟨⟨_, rfl, ?_⟩, ?_⟩
  · exact (clone_and_equality .empty (.new (bytes "ls")) ops _ rfl).1.mpr (by simp [ops])
  · exact (clone_and_equality .empty .newDefaultProg [] shell rfl).2 _ _ (clone_beq_iff.mpr rfl) _

/-- A clone has no hook, and its original has one. -/
theorem hooked_builder_is_not_its_clone :
    ∃ b, run step (Constructor.build .empty .newDefaultProg)
        [.preExec { closes := [], result := .ok () }] = some b ∧
      (cloneBuilder b == b) = false := by
  refine ⟨_, rfl, ?_⟩
  rw [Bool.eq_false_iff, ne_eq, clone_beq_iff]
  exact List.cons_ne_nil _ _

end Unix

end Xpty
