import Mathlib.Data.List.DropRight
import Mathlib.Data.List.Forall2
import Xpty.BuilderEq
import Xpty.Cell

/- All the builders of a process, over its whole life and on either platform. The
   environment of the process and what the system says may change at any time; the first
   constructor takes the snapshot that all builders start from (`BASE_ENV`), and then each
   builder changes by the calls made on it, panicking ones included, and by being cloned.

   `builders_from_histories`: what a builder has is what its own history says. -/
namespace Xpty.BuilderHistory

/-- Every entry is marked as one of the base environment. -/
def Inherited {S : Type} [OsStr S] (envs : Envs S) : Prop :=
  ∀ n e, envs.find n = some e → e.isFromBaseEnv = true

/-- What a platform has of its own, `W` being all that the base environment depends on. The
entries of that are marked, and its calls and clones keep to the fields that only it has. -/
structure Platform (S U X W : Type) [OsStr S] where
  fresh : U
  getBaseEnv : W → Envs S
  own : CommandBuilder S U → X → CommandBuilder S U
  clone : CommandBuilder S U → CommandBuilder S U
  inherited : ∀ now, Inherited (getBaseEnv now)
  own_eq : ∀ b x, own b x = b.withUnix (own b x).unix
  clone_eq : ∀ b, clone b = b.withUnix (clone b).unix

/-- The constructors. -/
inductive Start (S : Type) where
  | new (program : S)
  | fromArgv (args : List S)
  | newDefaultProg

def Start.args {S : Type} : Start S → List S
  | .new program => [program]
  | .fromArgv args => args
  | .newDefaultProg => []

/-- What happens to a builder: a call, what is left in the vector of `get_argv_mut`, or
that it is made as a clone. -/
inductive Deed (S X : Type) where
  | call (op : BuilderOp S)
  | own (x : X)
  | argvMut (args : List S)
  | cloned

/-- How a builder was made and what has happened to it; a clone has the history of its
original. -/
structure History (S X : Type) where
  start : Start S
  deeds : List (Deed S X)

section
variable {S U X W : Type} [OsStr S]

def Start.build (P : Platform S U X W) (base : Envs S) : Start S → CommandBuilder S U
  | .new program => .new program base P.fresh
  | .fromArgv args => .fromArgv args base P.fresh
  | .newDefaultProg => .newDefaultProg base P.fresh

/-- A call that panics does so before it changes the builder. -/
def Deed.apply (P : Platform S U X W) (b : CommandBuilder S U) : Deed S X → CommandBuilder S U
  | .call op =>
    match op.apply b with
    | .ok b' => b'
    | .error _ => b
  | .own x => P.own b x
  | .argvMut args => { b with args }
  | .cloned => P.clone b

def History.then (h : History S X) (d : Deed S X) : History S X := { h with deeds := h.deeds ++ [d] }

def History.replay (P : Platform S U X W) (base : Envs S) (h : History S X) : CommandBuilder S U :=
  h.deeds.foldl (Deed.apply P) (h.start.build P base)

/-! The process. -/

structure Process (S U W : Type) [OsStr S] where
  now : W
  /-- `BASE_ENV`. -/
  baseEnv : Option (Envs S)
  builders : List (CommandBuilder S U)

def Process.start (now : W) : Process S U W := { now, baseEnv := none, builders := [] }

inductive Act (S X W : Type) where
  /-- The variables of the process change, or the system it runs on. -/
  | outside (now : W)
  | make (start : Start S)
  | on (i : Nat) (d : Deed S X)
  | clone (i : Nat)

/-- `get_base_env`, which cannot fail. -/
def Process.getBaseEnv (P : Platform S U X W) (p : Process S U W) :
    Except Empty (Envs S) × Option (Envs S) :=
  Cell.getOrInit (.ok (P.getBaseEnv p.now)) p.baseEnv

def Process.step (P : Platform S U X W) (p : Process S U W) : Act S X W → Process S U W
  | .outside now => { p with now }
  | .make start =>
    match p.getBaseEnv P with
    | (.ok base, baseEnv) => { p with baseEnv, builders := p.builders ++ [start.build P base] }
  | .on i d => { p with builders := p.builders.modify i fun b => d.apply P b }
  | .clone i => { p with builders := p.builders ++ (p.builders[i]?.map P.clone).toList }

/-- The builders of a run. -/
def builders (P : Platform S U X W) (now : W) (as : List (Act S X W)) : List (CommandBuilder S U) :=
  (as.foldl (Process.step P) (.start now)).builders

end

section
variable {S X W : Type}

def Act.record (hs : List (History S X)) : Act S X W → List (History S X)
  | .outside _ => hs
  | .make start => hs ++ [{ start, deeds := [] }]
  | .on i d => hs.modify i fun h => h.then d
  | .clone i => hs ++ (hs[i]?.map fun h => h.then .cloned).toList

/-- The histories of the builders of a run. -/
def histories (as : List (Act S X W)) : List (History S X) := as.foldl Act.record []

/-- What the base environment depends on, when the first builder is made. -/
def atFirst : W → List (Act S X W) → Option W
  | _, [] => none
  | _, .outside now :: as => atFirst now as
  | now, .make _ :: _ => some now
  | now, .on _ _ :: as => atFirst now as
  | now, .clone _ :: as => atFirst now as

/-! What a deed does to each field. -/

/-- The program that it gives to a builder which has none. -/
def Deed.program : Deed S X → List S
  | .call (.replaceDefaultProg args) => args
  | _ => []

/-- The arguments that a call adds to those of a builder which has a program. -/
def added : BuilderOp S → List S
  | .arg arg => [arg]
  | .args args => args
  | _ => []

def Deed.added : Deed S X → List S
  | .call op => BuilderHistory.added op
  | _ => []

def Deed.edited : Deed S X → Option (List S)
  | .argvMut args => some args
  | _ => none

def Deed.envOp : Deed S X → Option (EnvOp S)
  | .call (.env op) => some op
  | _ => none

def Deed.cwd : Deed S X → Option (Option S)
  | .call (.cwd dir) => some (some dir)
  | .call .clearCwd => some none
  | _ => none

def Deed.controllingTty : Deed S X → Option Bool
  | .call (.setControllingTty on) => some on
  | _ => none

/-- The arguments of a builder that is not edited: its program is what it has at the start
or what the first `replace_default_prog` gives it, and what is added before that is refused. -/
def argv (start : List S) (ds : List (Deed S X)) : List S :=
  if start.isEmpty then
    match ds.dropWhile fun d => d.program.isEmpty with
    | [] => []
    | d :: ds => d.program ++ ds.flatMap Deed.added
  else start ++ ds.flatMap Deed.added

namespace History

variable (h : History S X)

/-- Those of the constructor or the last edit, and what was done since. -/
def args : List S :=
  argv ((h.deeds.filterMap Deed.edited).getLast?.getD h.start.args)
    (h.deeds.rtakeWhile fun d => d.edited.isNone)

/-- What the last call that touches a variable did to it, if any did. -/
def written [OsStr S] [DecidableEq S] (n : S) : Option (Option (S × S)) :=
  lastWrite n (h.deeds.filterMap Deed.envOp)

/-- The entry of that call, or that of the base environment. -/
def entry [OsStr S] [DecidableEq S] (base : Envs S) (n : S) : Option (EnvEntry S) :=
  match h.written n with
  | some r => r.map extraEntry
  | none => base.find n

def var [OsStr S] [DecidableEq S] (base : Envs S) (n : S) : Option S := (h.entry base n).map (·.value)

def cwd : Option S := (h.deeds.filterMap Deed.cwd).getLast?.getD none

def controllingTty : Bool := (h.deeds.filterMap Deed.controllingTty).getLast?.getD true

end History

end

section
variable {S U X W : Type} [OsStr S] [DecidableEq S]

/-- A builder is what its history says: its iterators go over the variables with their
spellings, and over those that were set, as far as these are Unicode; and a call on it panics
where it has no program to add to, or one that would be replaced. -/
structure FromHistory (base : Envs S) (h : History S X) (b : CommandBuilder S U) : Prop where
  args : b.args = h.args
  env : ∀ n, b.getEnv n = h.var base n
  fullEnv : ∀ k v, (k, v) ∈ b.iterFullEnvAsStr ↔ ∃ e, h.entry base e.preferredKey = some e ∧
    toStr e.preferredKey = some k ∧ toStr e.value = some v
  extraEnv : ∀ k v, (k, v) ∈ b.iterExtraEnvAsStr ↔ ∃ n key value,
    h.written n = some (some (key, value)) ∧ toStr key = some k ∧ toStr value = some v
  cwd : b.cwd = h.cwd
  controllingTty : b.controllingTty = h.controllingTty
  panics : ∀ op : BuilderOp S, (∃ message, op.apply b = .error message) ↔
    if h.args = [] then added op ≠ [] else ∃ args, op = .replaceDefaultProg args

end

section
variable {S X : Type}

theorem argv_nil (start : List S) : argv start ([] : List (Deed S X)) = start := by
  cases start with
  | nil => rfl
  | cons exe args => exact List.append_nil _

theorem argv_of_program {start : List S} (h : start ≠ []) (ds : List (Deed S X)) :
    argv start ds = start ++ ds.flatMap Deed.added :=
  if_neg (by rwa [List.isEmpty_iff])

theorem program_of_dropWhile {d : Deed S X} {ds rest : List (Deed S X)}
    (h : ds.dropWhile (fun d => d.program.isEmpty) = d :: rest) : d.program ≠ [] := by
  have hfirst := List.head?_dropWhile_not (fun d : Deed S X => d.program.isEmpty) ds
  rw [h] at hfirst
  intro hnil
  simp [hnil] at hfirst

theorem argv_eq_nil_iff {start : List S} {ds : List (Deed S X)} :
    argv start ds = [] ↔ start = [] ∧ ∀ d ∈ ds, d.program = [] := by
  by_cases hstart : start = []
  · subst hstart
    rw [and_iff_right rfl]
    show (match ds.dropWhile fun d => d.program.isEmpty with
      | [] => []
      | d :: ds => d.program ++ ds.flatMap Deed.added) = [] ↔ _
    cases hdrop : ds.dropWhile fun d => d.program.isEmpty with
    | nil =>
      have hall := List.dropWhile_eq_nil_iff.mp hdrop
      exact iff_of_true rfl fun d hd => List.isEmpty_iff.mp (hall d hd)
    | cons d rest =>
      have hprogram := program_of_dropWhile hdrop
      have hmem : d ∈ ds := (List.dropWhile_suffix _).subset (hdrop ▸ List.mem_cons_self)
      refine iff_of_false (List.append_ne_nil_of_left_ne_nil hprogram _) fun h => ?_
      exact hprogram (h d hmem)
  · rw [argv_of_program hstart]
    exact iff_of_false (List.append_ne_nil_of_left_ne_nil hstart _) fun h => hstart h.1

/-- A builder that has a program keeps it, and what is added follows in order. -/
theorem argv_concat (start : List S) (ds : List (Deed S X)) (d : Deed S X) :
    argv start (ds ++ [d]) = if argv start ds = [] then d.program else argv start ds ++ d.added := by
  have hadded : [d].flatMap Deed.added = d.added := List.flatMap_singleton ..
  by_cases hstart : start = []
  · subst hstart
    show (match (ds ++ [d]).dropWhile fun d => d.program.isEmpty with
      | [] => []
      | d :: ds => d.program ++ ds.flatMap Deed.added) = _
    rw [List.dropWhile_append]
    cases hdrop : ds.dropWhile fun d => d.program.isEmpty with
    | nil =>
      have hnil : argv [] ds = [] := by
        show (match ds.dropWhile fun d => d.program.isEmpty with
          | [] => []
          | d :: ds => d.program ++ ds.flatMap Deed.added) = _
        rw [hdrop]
      rw [if_pos hnil, List.isEmpty_nil, if_pos rfl, List.dropWhile_cons]
      cases hprogram : d.program with
      | nil => rfl
      | cons exe args =>
        show d.program ++ [] = _
        rw [List.append_nil, hprogram]
    | cons first rest =>
      have hargs : argv [] ds = first.program ++ rest.flatMap Deed.added := by
        show (match ds.dropWhile fun d => d.program.isEmpty with
          | [] => []
          | d :: ds => d.program ++ ds.flatMap Deed.added) = _
        rw [hdrop]
      have hne : first.program ++ rest.flatMap Deed.added ≠ [] :=
        List.append_ne_nil_of_left_ne_nil (program_of_dropWhile hdrop) _
      rw [hargs, if_neg hne, List.append_assoc, ← hadded, ← List.flatMap_append]
      rfl
  · have hne : argv start ds ≠ [] := fun h => hstart (argv_eq_nil_iff.mp h).1
    calc argv start (ds ++ [d])
        = start ++ (ds.flatMap Deed.added ++ d.added) := by
          rw [argv_of_program hstart, List.flatMap_append, hadded]
      _ = argv start ds ++ d.added := by rw [argv_of_program hstart, List.append_assoc]
      _ = if argv start ds = [] then d.program else argv start ds ++ d.added := (if_neg hne).symm

end

section
variable {S U X W : Type} [OsStr S] {P : Platform S U X W}

/-! Each deed. -/

theorem arg_eq (b : CommandBuilder S U) (arg : S) : b.arg arg =
    if b.args = [] then .error "attempted to add args to a default_prog builder"
    else .ok { b with args := b.args ++ [arg] } := by
  rw [CommandBuilder.arg, CommandBuilder.isDefaultProg]
  cases b.args <;> rfl

theorem addArgs_of_program : ∀ (args : List S) {b : CommandBuilder S U}, b.args ≠ [] →
    b.addArgs args = .ok { b with args := b.args ++ args }
  | [], b, _ => by
    rw [List.append_nil]
    rfl
  | arg :: args, b, hb => by
    have hmore : b.args ++ [arg] ≠ [] := by simp
    have ih := addArgs_of_program args (b := { b with args := b.args ++ [arg] }) hmore
    show (b.arg arg).bind _ = _
    rw [arg_eq, if_neg hb]
    rw [List.append_assoc] at ih
    exact ih

theorem addArgs_of_default {args : List S} {b : CommandBuilder S U} (hb : b.args = []) :
    b.addArgs args = if args = [] then .ok b
      else .error "attempted to add args to a default_prog builder" := by
  cases args with
  | nil => rfl
  | cons arg args =>
    show (b.arg arg).bind _ = _
    rw [arg_eq, if_pos hb]
    rfl

theorem replaceDefaultProg_eq (b : CommandBuilder S U) (args : List S) : b.replaceDefaultProg args =
    if b.args = [] then .ok { b with args := args }
    else .error "attempted to replace_default_prog on a non-default_prog builder" := by
  rw [CommandBuilder.replaceDefaultProg, CommandBuilder.isDefaultProg]
  cases b.args <;> rfl

theorem panics_iff (b : CommandBuilder S U) (op : BuilderOp S) :
    (∃ message, op.apply b = .error message) ↔
      if b.args = [] then added op ≠ [] else ∃ args, op = .replaceDefaultProg args := by
  by_cases hb : b.args = []
  · rw [if_pos hb]
    cases op with
    | arg arg => simp [BuilderOp.apply, arg_eq, hb, added]
    | args args =>
      simp only [BuilderOp.apply, addArgs_of_default hb, added]
      split
      · simp_all
      · simp_all
    | replaceDefaultProg args => simp [BuilderOp.apply, replaceDefaultProg_eq, hb, added]
    | _ => simp [BuilderOp.apply, added]
  · rw [if_neg hb]
    cases op with
    | arg arg => simp [BuilderOp.apply, arg_eq, hb]
    | args args => simp [BuilderOp.apply, addArgs_of_program args hb]
    | replaceDefaultProg args => simp [BuilderOp.apply, replaceDefaultProg_eq, hb]
    | _ => simp [BuilderOp.apply]

/-- What a deed makes of a builder, field by field. -/
structure Applied (b : CommandBuilder S U) (d : Deed S X) (b' : CommandBuilder S U) : Prop where
  args : b'.args = d.edited.getD (if b.args = [] then d.program else b.args ++ d.added)
  envs : b'.envs = (d.envOp.map fun op => (op.apply b).envs).getD b.envs
  cwd : b'.cwd = d.cwd.getD b.cwd
  controllingTty : b'.controllingTty = d.controllingTty.getD b.controllingTty

theorem kept_args (b : CommandBuilder S U) : b.args = if b.args = [] then [] else b.args ++ [] := by
  rw [List.append_nil, eq_comm, ite_eq_right_iff]
  exact Eq.symm

theorem apply_ok {b b' : CommandBuilder S U} {op : BuilderOp S} (h : op.apply b = .ok b') :
    Deed.apply P b (.call op) = b' := by
  rw [Deed.apply, h]

theorem apply_error {b : CommandBuilder S U} {op : BuilderOp S} {message : String}
    (h : op.apply b = .error message) : Deed.apply P b (.call op) = b := by
  rw [Deed.apply, h]

theorem applied_call (b : CommandBuilder S U) (op : BuilderOp S) :
    Applied b (.call op : Deed S X) (Deed.apply P b (.call op)) := by
  cases op with
  | env op => cases op <;> exact ⟨kept_args b, rfl, rfl, rfl⟩
  | cwd dir => exact ⟨kept_args b, rfl, rfl, rfl⟩
  | clearCwd => exact ⟨kept_args b, rfl, rfl, rfl⟩
  | setControllingTty on => exact ⟨kept_args b, rfl, rfl, rfl⟩
  | arg arg =>
    by_cases hb : b.args = []
    · have hcall : BuilderOp.apply b (.arg arg) = .error _ := (arg_eq b arg).trans (if_pos hb)
      rw [apply_error hcall]
      exact ⟨hb.trans (if_pos hb).symm, rfl, rfl, rfl⟩
    · have hcall : BuilderOp.apply b (.arg arg) = .ok _ := (arg_eq b arg).trans (if_neg hb)
      rw [apply_ok hcall]
      exact ⟨(if_neg hb).symm, rfl, rfl, rfl⟩
  | args args =>
    have hcall : BuilderOp.apply b (.args args) = b.addArgs args := rfl
    by_cases hb : b.args = []
    · have hsame : Deed.apply P b (.call (.args args)) = b := by
        rw [addArgs_of_default hb] at hcall
        split at hcall
        · exact apply_ok hcall
        · exact apply_error hcall
      rw [hsame]
      exact ⟨hb.trans (if_pos hb).symm, rfl, rfl, rfl⟩
    · rw [apply_ok (hcall.trans (addArgs_of_program args hb))]
      exact ⟨(if_neg hb).symm, rfl, rfl, rfl⟩
  | replaceDefaultProg args =>
    have hcall : BuilderOp.apply b (.replaceDefaultProg args) = b.replaceDefaultProg args := rfl
    rw [replaceDefaultProg_eq] at hcall
    by_cases hb : b.args = []
    · rw [if_pos hb] at hcall
      rw [apply_ok hcall]
      exact ⟨(if_pos hb).symm, rfl, rfl, rfl⟩
    · rw [if_neg hb] at hcall
      rw [apply_error hcall]
      refine ⟨?_, rfl, rfl, rfl⟩
      show b.args = if b.args = [] then args else b.args ++ []
      rw [if_neg hb, List.append_nil]

theorem applied (b : CommandBuilder S U) (d : Deed S X) : Applied b d (d.apply P b) := by
  cases d with
  | call op => exact applied_call b op
  | own x =>
    rw [Deed.apply, P.own_eq]
    exact ⟨kept_args b, rfl, rfl, rfl⟩
  | argvMut args => exact ⟨rfl, rfl, rfl, rfl⟩
  | cloned =>
    rw [Deed.apply, P.clone_eq]
    exact ⟨kept_args b, rfl, rfl, rfl⟩

/-! Histories. -/

theorem args_deeds (b : CommandBuilder S U) (ds : List (Deed S X)) :
    (ds.foldl (Deed.apply P) b).args =
      argv ((ds.filterMap Deed.edited).getLast?.getD b.args)
        (ds.rtakeWhile fun d => d.edited.isNone) := by
  induction ds using List.reverseRecOn with
  | nil => exact (argv_nil b.args).symm
  | append_singleton ds d ih =>
    rw [List.foldl_append, List.foldl_cons, List.foldl_nil, (applied _ d).args, List.filterMap_append]
    cases hd : d.edited with
    | none =>
      rw [List.rtakeWhile_concat_pos _ _ _ (by rw [hd]; rfl), List.filterMap_cons_none hd,
        List.filterMap_nil, List.append_nil, argv_concat, ← ih]
      rfl
    | some args =>
      rw [List.rtakeWhile_concat_neg _ _ _ (by rw [hd]; exact Bool.false_ne_true),
        List.filterMap_cons_some hd, List.filterMap_nil, List.getLast?_concat, argv_nil]
      rfl

theorem envs_apply_congr {b b' : CommandBuilder S U} (h : b.envs = b'.envs) (op : EnvOp S) :
    (op.apply b).envs = (op.apply b').envs := by
  cases op with
  | env key value => exact congrArg (Envs.insert · _) h
  | envRemove key => exact congrArg (Envs.remove · key) h
  | envClear => rfl

theorem envs_run_congr : ∀ (ops : List (EnvOp S)) {b b' : CommandBuilder S U}, b.envs = b'.envs →
    (ops.foldl EnvOp.apply b).envs = (ops.foldl EnvOp.apply b').envs
  | [], _, _, h => h
  | op :: ops, _, _, h => envs_run_congr ops (envs_apply_congr h op)

/-- Only the calls on the environment matter to it. -/
theorem envs_deeds : ∀ (ds : List (Deed S X)) (b : CommandBuilder S U),
    (ds.foldl (Deed.apply P) b).envs = ((ds.filterMap Deed.envOp).foldl EnvOp.apply b).envs
  | [], b => rfl
  | d :: ds, b => by
    have hd := (applied (P := P) b d).envs
    rw [List.foldl_cons, envs_deeds ds]
    cases hop : d.envOp with
    | none =>
      rw [hop] at hd
      rw [List.filterMap_cons_none hop]
      exact envs_run_congr _ hd
    | some op =>
      rw [hop] at hd
      rw [List.filterMap_cons_some hop]
      exact envs_run_congr _ hd

theorem start_args (base : Envs S) (c : Start S) : (c.build P base).args = c.args := by
  cases c <;> rfl

theorem envs_replay (base : Envs S) (h : History S X) : (h.replay P base).envs =
    ((h.deeds.filterMap Deed.envOp).foldl EnvOp.apply (h.start.build P base)).envs :=
  envs_deeds h.deeds _

/-! The process. -/

theorem replay_then (base : Envs S) (h : History S X) (d : Deed S X) :
    (h.then d).replay P base = d.apply P (h.replay P base) := by
  rw [History.replay, History.then, List.foldl_append]
  rfl

/-- Changing one element before or after a map. -/
theorem modify_map {α β : Type} {f : α → β} {g : α → α} {g' : β → β} (h : ∀ a, f (g a) = g' (f a)) :
    ∀ (l : List α) (i : Nat), (l.map f).modify i g' = (l.modify i g).map f
  | [], i => by rw [List.modify_nil, List.map_nil, List.modify_nil]
  | a :: l, 0 => by rw [List.map_cons, List.modify_zero_cons, List.modify_zero_cons, List.map_cons, h]
  | a :: l, i + 1 => by
    rw [List.map_cons, List.modify_succ_cons, List.modify_succ_cons, List.map_cons, modify_map h l i]

/-- Once there is a snapshot, the builders are those that their histories make of it. -/
theorem step_replayed {base : Envs S} {p : Process S U W} {hs : List (History S X)}
    (hbase : p.baseEnv = some base) (h : p.builders = hs.map (History.replay P base))
    (a : Act S X W) : (p.step P a).baseEnv = some base ∧
      (p.step P a).builders = (a.record hs).map (History.replay P base) := by
  cases a with
  | outside now => exact ⟨hbase, h⟩
  | make start =>
    have hsnapshot : p.getBaseEnv P = (.ok base, some base) := by
      rw [Process.getBaseEnv, hbase, Cell.getOrInit_some]
    rw [Process.step, hsnapshot]
    refine ⟨rfl, ?_⟩
    rw [Act.record, List.map_append, ← h]
    rfl
  | on i d =>
    refine ⟨hbase, ?_⟩
    rw [Process.step, Act.record, h]
    exact modify_map (fun h => replay_then base h d) hs i
  | clone i =>
    refine ⟨hbase, ?_⟩
    have hclone : (p.builders[i]?.map P.clone).toList =
        ((hs[i]?.map fun h => h.then .cloned).toList).map (History.replay P base) := by
      rw [h, List.getElem?_map]
      cases hs[i]? with
      | none => rfl
      | some h => exact congrArg ([·]) (replay_then base h .cloned).symm
    rw [Process.step, Act.record, List.map_append, hclone, h]

theorem run_replayed {base : Envs S} : ∀ (as : List (Act S X W)) {p : Process S U W}
    {hs : List (History S X)}, p.baseEnv = some base → p.builders = hs.map (History.replay P base) →
      (as.foldl (Process.step P) p).builders =
        (as.foldl Act.record hs).map (History.replay P base)
  | [], _, _, _, h => h
  | a :: as, _, _, hbase, h =>
    have hstep := step_replayed hbase h a
    run_replayed as hstep.1 hstep.2

/-- Before the first constructor there is neither a snapshot nor a builder. -/
theorem process_run : ∀ (as : List (Act S X W)) {p : Process S U W}, p.baseEnv = none →
    p.builders = [] →
      (∃ now, atFirst p.now as = some now ∧ (as.foldl (Process.step P) p).builders =
        (as.foldl Act.record []).map (History.replay P (P.getBaseEnv now))) ∨
      ((as.foldl (Process.step P) p).builders = [] ∧ as.foldl Act.record [] = [])
  | [], _, _, hnone => .inr ⟨hnone, rfl⟩
  | .outside now :: as, p, hbase, hnone => process_run as (p := { p with now }) hbase hnone
  | .make start :: as, p, hbase, hnone => by
    have hsnapshot : p.getBaseEnv P = (.ok (P.getBaseEnv p.now), some (P.getBaseEnv p.now)) := by
      rw [Process.getBaseEnv, hbase]
      rfl
    refine .inl ⟨_, rfl, ?_⟩
    rw [List.foldl_cons, List.foldl_cons]
    refine run_replayed as ?_ ?_
    · rw [Process.step, hsnapshot]
    · rw [Process.step, hsnapshot, hnone]
      rfl
  | .on i d :: as, p, hbase, hnone => by
    have hsame : p.step P (.on i d) = p := by
      rw [Process.step, hnone, List.modify_nil, ← hnone]
    have hrecord : Act.record [] (.on i d : Act S X W) = [] := List.modify_nil ..
    rw [List.foldl_cons, List.foldl_cons, hsame, hrecord]
    exact process_run as hbase hnone
  | .clone i :: as, p, hbase, hnone => by
    have hsame : p.step P (.clone i) = p := by
      rw [Process.step, hnone]
      exact congrArg _ hnone.symm
    rw [List.foldl_cons, hsame]
    exact process_run as hbase hnone

/-- A builder of a run is the replay of its history over the snapshot. -/
theorem replay_of_getElem? {now : W} {as : List (Act S X W)} {i : Nat} {b : CommandBuilder S U}
    {h : History S X} (hb : (builders P now as)[i]? = some b) (hh : (histories as)[i]? = some h) :
    ∃ now', atFirst now as = some now' ∧ b = h.replay P (P.getBaseEnv now') := by
  rcases process_run (P := P) as (p := .start now) rfl rfl with ⟨now', hnow, hrun⟩ | ⟨hnone, -⟩
  · rw [builders, hrun, List.getElem?_map, ← histories, hh] at hb
    exact ⟨now', hnow, (Option.some.inj hb).symm⟩
  · rw [builders, hnone] at hb
    cases hb

end

section
variable {S U X W : Type} [OsStr S] [DecidableEq S] {P : Platform S U X W}

theorem find_replay (base : Envs S) (h : History S X) (n : S) :
    (h.replay P base).envs.find n = h.entry base n := by
  have henv : (h.start.build P base).envs = base := by cases h.start <;> rfl
  rw [envs_replay, find_run, henv]
  unfold History.entry History.written
  cases lastWrite n (h.deeds.filterMap Deed.envOp) <;> rfl

/-- Over a base environment, the entries that are not marked are those of calls. -/
theorem mem_iterExtraEnvAsStr_replay {base : Envs S} (hbase : Inherited base) (h : History S X)
    {k v : S} :
    (k, v) ∈ (h.replay P base).iterExtraEnvAsStr ↔ ∃ n key value,
      h.written n = some (some (key, value)) ∧ toStr key = some k ∧ toStr value = some v := by
  rw [mem_iterExtraEnvAsStr]
  refine ⟨?_, ?_⟩
  · intro hextra
    obtain ⟨e, he, hmark, hk, hv⟩ := hextra
    rw [Envs.mem_values, find_replay, History.entry] at he
    cases hw : h.written e.preferredKey with
    | none =>
      rw [hw] at he
      rw [hbase _ e he] at hmark
      cases hmark
    | some r =>
      rw [hw] at he
      obtain ⟨⟨key, value⟩, rfl, rfl⟩ := Option.map_eq_some_iff.mp he
      exact ⟨key, key, value, hw, hk, hv⟩
  · intro hset
    obtain ⟨n, key, value, hw, hk, hv⟩ := hset
    have hfind : (h.replay P base).envs.find n = some (extraEntry (key, value)) := by
      rw [find_replay, History.entry, hw]
      rfl
    exact ⟨_, Envs.mem_values_of_find hfind, rfl, hk, hv⟩

theorem fromHistory_replay (now : W) (h : History S X) :
    FromHistory (P.getBaseEnv now) h (h.replay P (P.getBaseEnv now)) := by
  have hcwd : (h.start.build P (P.getBaseEnv now)).cwd = none := by cases h.start <;> rfl
  have htty : (h.start.build P (P.getBaseEnv now)).controllingTty = true := by
    cases h.start <;> rfl
  have hargs : (h.replay P (P.getBaseEnv now)).args = h.args := by
    rw [History.replay, args_deeds, start_args, History.args]
  refine ⟨?_, ?_, ?_, ?_, ?_, ?_, ?_⟩
  · exact hargs
  · intro n
    rw [CommandBuilder.getEnv, find_replay, History.var]
  · intro k v
    rw [mem_iterFullEnvAsStr]
    simp only [Envs.mem_values, find_replay]
  · intro k v
    exact mem_iterExtraEnvAsStr_replay (P.inherited now) h
  · rw [History.cwd, ← hcwd]
    exact Cell.register (fun b d => (applied b d).cwd) h.deeds _
  · rw [History.controllingTty, ← htty]
    exact Cell.register (fun b d => (applied b d).controllingTty) h.deeds _
  · intro op
    rw [← hargs]
    exact panics_iff _ op

/-- In every run of a process, each builder is what its own history makes of the
environment that the process had when it made its first one: no change of the environment
since, and no call on another builder, is seen in it. -/
theorem builders_from_histories (P : Platform S U X W) (now : W) (as : List (Act S X W)) :
    List.Forall₂ (fun h b => ∃ now', atFirst now as = some now' ∧
      FromHistory (P.getBaseEnv now') h b) (histories as) (builders P now as) := by
  rcases process_run (P := P) as (p := .start now) rfl rfl with ⟨now', hnow, hrun⟩ | ⟨hnone, hno⟩
  · rw [builders, hrun, ← histories, List.forall₂_map_right_iff, List.forall₂_same]
    exact fun h _ => ⟨now', hnow, fromHistory_replay now' h⟩
  · rw [builders, histories, hnone, hno]
    exact .nil

end

end Xpty.BuilderHistory
