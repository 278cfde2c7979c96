import Mathlib.Data.List.Forall2
import Xpty.UnixCommand

/- The environment of Unix builders over their whole history: the base environment
   that `get_base_env` snapshots, any operations on a builder and on its clones, and
   the four views of the result: `get_env`, the two iterators and the variables of
   the command that `as_command` returns.

   A family of builders starts from one builder, and each operation changes one of
   them or clones one. `family_views` says that every member is seen through the four
   views as the last-write-wins map of its own history, and `run_other` that nothing
   done to the others changes it. -/
namespace Xpty.Unix

variable {N : Type}

/-! The base environment. -/

/-- `vars_os` collected, each name under its key: a later one replaces an earlier. -/
def collectVars (vars : List (UnixStr × UnixStr)) : Envs UnixStr :=
  vars.foldl (fun env kv => env.insert { isFromBaseEnv := true, preferredKey := kv.1, value := kv.2 })
    .empty

/-- `get_base_env` on Unix: the variables of the parent, and the shell of the
password database where `SHELL` is not among them. -/
def getBaseEnv (w : World N) (varsOs : List (UnixStr × UnixStr)) : Envs UnixStr :=
  let env := collectVars varsOs
  if (env.find (bytes "SHELL")).isSome then env
  else
    env.insert
      { isFromBaseEnv := true, preferredKey := bytes "SHELL", value := getPasswdShell w }

/-- Every entry is marked as coming from the base environment. -/
def Inherited (envs : Envs UnixStr) : Prop :=
  ∀ n e, envs.find n = some e → e.isFromBaseEnv = true

theorem Inherited.insert {envs : Envs UnixStr} {entry : EnvEntry UnixStr} (h : Inherited envs)
    (he : entry.isFromBaseEnv = true) : Inherited (envs.insert entry) := by
  intro n e hn
  rw [Envs.find_insert] at hn
  split at hn
  · cases hn
    exact he
  · exact h n e hn

theorem inherited_collectVars (vars : List (UnixStr × UnixStr)) : Inherited (collectVars vars) := by
  refine List.foldlRecOn vars _ ?_ fun env henv kv _ => henv.insert rfl
  intro n e hn
  rw [Envs.find_empty] at hn
  cases hn

theorem inherited_getBaseEnv (w : World N) (vars : List (UnixStr × UnixStr)) :
    Inherited (getBaseEnv w vars) := by
  rw [getBaseEnv]
  split
  · exact inherited_collectVars vars
  · exact (inherited_collectVars vars).insert rfl

/-! Entries on Unix. -/

theorem toStr_unix {s t : UnixStr} : toStr s = some t ↔ isUtf8 s = true ∧ t = s := by
  show (if isUtf8 s = true then some s else none) = some t ↔ _
  rw [Option.ite_none_right_eq_some, Option.some.injEq, eq_comm (a := t)]

theorem mem_values_unix {envs : Envs UnixStr} {e : EnvEntry UnixStr} (n : UnixStr) :
    e ∈ envs.values ∧ e.preferredKey = n ↔ envs.find n = some e := by
  rw [Envs.mem_values]
  refine ⟨?_, ?_⟩
  · intro hex
    obtain ⟨h, rfl⟩ := hex
    exact h
  · intro h
    have hn : n = e.preferredKey := Envs.mapKey_of_find h
    exact ⟨hn ▸ h, hn.symm⟩

/-- The order of keys, on what an iterator lists of each entry. -/
theorem pairwise_filterMap {envs : Envs UnixStr} {f : EnvEntry UnixStr → Option (UnixStr × UnixStr)}
    (hf : ∀ e kv, f e = some kv → kv.1 = e.preferredKey) :
    (envs.values.filterMap f).Pairwise fun a b => compare a.1 b.1 = .lt := by
  refine List.Pairwise.filterMap f (fun a a' hlt b hb b' hb' => ?_) envs.values_sorted
  rw [hf a b hb, hf a' b' hb']
  exact hlt

/-! Builders and their clones. -/

/-- An operation on the `i`-th builder, or its clone, added as the last one. -/
inductive FamilyOp where
  | on (i : Nat) (op : EnvOp UnixStr)
  | clone (i : Nat)

def FamilyOp.step (bs : List Builder) : FamilyOp → List Builder
  | .on i op => bs.modify i fun b => op.apply b
  | .clone i => bs ++ (bs[i]?.map cloneBuilder).toList

/-- What each builder has seen: a clone starts from the history of its original. -/
def FamilyOp.record (hs : List (List (EnvOp UnixStr))) : FamilyOp → List (List (EnvOp UnixStr))
  | .on i op => hs.modify i (· ++ [op])
  | .clone i => hs ++ hs[i]?.toList

/-- The builder that an operation changes. -/
def FamilyOp.target : FamilyOp → Option Nat
  | .on i _ => some i
  | .clone _ => none

theorem step_other {bs : List Builder} {op : FamilyOp} {i : Nat} (hi : i < bs.length)
    (h : op.target ≠ some i) : (op.step bs)[i]? = bs[i]? := by
  cases op with
  | on j op =>
    have hj : j ≠ i := fun hj => h (congrArg some hj)
    simp [FamilyOp.step, hj]
  | clone j => exact List.getElem?_append_left hi

theorem length_step (bs : List Builder) (op : FamilyOp) : bs.length ≤ (op.step bs).length := by
  cases op <;> simp [FamilyOp.step]

/-- Operations on other builders, clones of it included, leave a builder as it is. -/
theorem run_other : ∀ {ops : List FamilyOp} {bs : List Builder} {i : Nat}, i < bs.length →
    (∀ op ∈ ops, op.target ≠ some i) → (ops.foldl FamilyOp.step bs)[i]? = bs[i]?
  | [], _, _, _, _ => rfl
  | op :: ops, bs, i, hi, h => by
    have hlen := Nat.lt_of_lt_of_le hi (length_step bs op)
    rw [List.foldl_cons, run_other hlen fun o ho => h o (by simp [ho])]
    exact step_other hi (h op (by simp))

/-- An operation sees nothing of a builder but its environment. -/
theorem envs_apply {b b' : Builder} (op : EnvOp UnixStr) (h : b.envs = b'.envs) :
    (op.apply b).envs = (op.apply b').envs := by
  cases op with
  | env k v => simp only [EnvOp.apply, CommandBuilder.env, h]
  | envRemove k => simp only [EnvOp.apply, CommandBuilder.envRemove, h]
  | envClear => rfl

/-- The environment that a history makes of the one of `start`. -/
def envsAfter (start : Builder) (ops : List (EnvOp UnixStr)) : Envs UnixStr :=
  (ops.foldl EnvOp.apply start).envs

theorem envs_step {start : Builder} {bs : List Builder} {hs : List (List (EnvOp UnixStr))}
    (op : FamilyOp) (h : bs.map CommandBuilder.envs = hs.map (envsAfter start)) :
    (op.step bs).map CommandBuilder.envs = (op.record hs).map (envsAfter start) := by
  have hget : ∀ i : Nat, bs[i]?.map CommandBuilder.envs = hs[i]?.map (envsAfter start) := by
    intro i
    rw [← List.getElem?_map, h, List.getElem?_map]
  apply List.ext_getElem?
  intro i
  cases op with
  | on j op =>
    -- both lists change at `j` only
    simp only [FamilyOp.step, FamilyOp.record, List.getElem?_map, List.getElem?_modify,
      Option.map_eq_map]
    have := hget i
    cases hb : bs[i]? with
    | none =>
      rw [hb, Option.map_none, eq_comm, Option.map_eq_none_iff] at this
      rw [this]
      rfl
    | some b =>
      rw [hb, Option.map_some, eq_comm, Option.map_eq_some_iff] at this
      obtain ⟨ops, hops, he⟩ := this
      simp only [hops, Option.map_some]
      split
      · simp only [envsAfter, List.foldl_append, List.foldl_cons, List.foldl_nil]
        exact congrArg some (envs_apply op he.symm)
      · exact congrArg some he.symm
  | clone j =>
    have hclone : (bs[j]?.map cloneBuilder).toList.map CommandBuilder.envs =
        hs[j]?.toList.map (envsAfter start) := by
      rw [← Option.toList_map, Option.map_map, ← Option.toList_map, ← hget j]
      rfl
    simp only [FamilyOp.step, FamilyOp.record, List.map_append, hclone, h]

theorem envs_run {start : Builder} : ∀ (ops : List FamilyOp) {bs : List Builder}
    {hs : List (List (EnvOp UnixStr))}, bs.map CommandBuilder.envs = hs.map (envsAfter start) →
      (ops.foldl FamilyOp.step bs).map CommandBuilder.envs =
        (ops.foldl FamilyOp.record hs).map (envsAfter start)
  | [], _, _, h => h
  | op :: ops, _, _, h => envs_run ops (envs_step op h)

/-! The four views. -/

/-- How a builder appears that started as `start` and has seen `ops`. -/
structure Views (N : Type) (start : Builder) (ops : List (EnvOp UnixStr)) (b : Builder) : Prop where
  getEnv : ∀ k, b.getEnv k =
    match lastWrite k ops with
    | some r => r.map (·.2)
    | none => start.getEnv k
  full : ∀ k v, (k, v) ∈ b.iterFullEnvAsStr ↔
    b.getEnv k = some v ∧ isUtf8 k = true ∧ isUtf8 v = true
  fullOrder : b.iterFullEnvAsStr.Pairwise fun x y => compare x.1 y.1 = .lt
  extra : ∀ k v, (k, v) ∈ b.iterExtraEnvAsStr ↔
    lastWrite k ops = some (some (k, v)) ∧ isUtf8 k = true ∧ isUtf8 v = true
  extraOrder : b.iterExtraEnvAsStr.Pairwise fun x y => compare x.1 y.1 = .lt
  child : ∀ (w : World N) (cmd : Command), asCommand w b = .ok cmd →
    cmd.envCleared = true ∧ ∀ k : UnixStr, cmd.vars[k]? =
      if k = bytes "SHELL" then some ((b.getEnv k).getD (getShell w b)) else b.getEnv k

theorem full_iff (b : Builder) (k v : UnixStr) : (k, v) ∈ b.iterFullEnvAsStr ↔
    b.getEnv k = some v ∧ isUtf8 k = true ∧ isUtf8 v = true := by
  simp only [mem_iterFullEnvAsStr, toStr_unix, CommandBuilder.getEnv, Option.map_eq_some_iff]
  refine ⟨?_, ?_⟩
  · intro h
    obtain ⟨e, he, ⟨hk, rfl⟩, hv, rfl⟩ := h
    exact ⟨⟨e, (mem_values_unix _).mp ⟨he, rfl⟩, rfl⟩, hk, hv⟩
  · intro h
    obtain ⟨⟨e, he, rfl⟩, hk, hv⟩ := h
    obtain ⟨hmem, rfl⟩ := (mem_values_unix k).mpr he
    exact ⟨e, hmem, ⟨hk, rfl⟩, hv, rfl⟩

theorem full_order (b : Builder) :
    b.iterFullEnvAsStr.Pairwise fun x y => compare x.1 y.1 = .lt := by
  refine pairwise_filterMap fun e kv h => ?_
  simp only [Option.bind_eq_bind, Option.bind_eq_some_iff, toStr_unix, Option.some.injEq] at h
  obtain ⟨k, ⟨-, rfl⟩, v, -, rfl⟩ := h
  rfl

theorem extra_order (b : Builder) :
    b.iterExtraEnvAsStr.Pairwise fun x y => compare x.1 y.1 = .lt := by
  refine pairwise_filterMap fun e kv h => ?_
  split at h
  · cases h
  · simp only [Option.bind_eq_bind, Option.bind_eq_some_iff, toStr_unix, Option.some.injEq] at h
    obtain ⟨k, ⟨-, rfl⟩, v, -, rfl⟩ := h
    rfl

/-- The spelling of a write is the name itself, as names are compared exactly. -/
theorem lastWrite_key : ∀ {ops : List (EnvOp UnixStr)} {n : UnixStr} {kv : UnixStr × UnixStr},
    lastWrite n ops = some (some kv) → kv.1 = n
  | op :: ops, n, kv, h => by
    rw [lastWrite] at h
    cases hl : lastWrite n ops with
    | some r =>
      rw [hl] at h
      exact lastWrite_key (hl.trans h)
    | none =>
      rw [hl] at h
      cases op with
      | env k v =>
        simp only [EnvOp.effect, mapKey_unix] at h
        split at h
        · cases h
          assumption
        · cases h
      | envRemove k =>
        simp only [EnvOp.effect] at h
        split at h <;> cases h
      | envClear => cases h

/-- An entry is listed as an extra exactly when a write made it and none undid it:
the entries of the start are marked otherwise. -/
theorem extra_iff {start b : Builder} {ops : List (EnvOp UnixStr)} (h0 : Inherited start.envs)
    (h : b.envs = envsAfter start ops) (k v : UnixStr) : (k, v) ∈ b.iterExtraEnvAsStr ↔
      lastWrite k ops = some (some (k, v)) ∧ isUtf8 k = true ∧ isUtf8 v = true := by
  have hfind := find_run ops start k
  rw [← envsAfter, ← h] at hfind
  simp only [mem_iterExtraEnvAsStr, toStr_unix]
  refine ⟨?_, ?_⟩
  · intro h
    obtain ⟨e, he, hflag, ⟨hk, rfl⟩, hv, rfl⟩ := h
    rw [(mem_values_unix _).mp ⟨he, rfl⟩] at hfind
    cases hl : lastWrite e.preferredKey ops with
    | none =>
      -- never touched: the entry is one of the start, and marked as such
      rw [hl] at hfind
      rw [h0 _ e hfind.symm] at hflag
      cases hflag
    | some r =>
      rw [hl] at hfind
      obtain ⟨kv, rfl, rfl⟩ := Option.map_eq_some_iff.mp hfind.symm
      exact ⟨rfl, hk, hv⟩
  · intro h
    obtain ⟨hl, hk, hv⟩ := h
    rw [hl] at hfind
    obtain ⟨hmem, -⟩ := (mem_values_unix k).mpr hfind
    exact ⟨_, hmem, rfl, ⟨hk, rfl⟩, hv, rfl⟩

/-- The variables of the command: those of the builder over the one `SHELL`. -/
theorem getElem?_childVars (w : World N) (b : Builder) (k : UnixStr) : (childVars w b)[k]? =
    if k = bytes "SHELL" then some ((b.getEnv k).getD (getShell w b)) else b.getEnv k := by
  have hget : b.envs.map[k]?.map (·.value) = b.getEnv k := rfl
  have hkeyed : ∀ (k : UnixStr) (e : EnvEntry UnixStr), b.envs.map[k]? = some e →
      k = e.preferredKey := b.envs.keyed
  rw [childVars, Envs.values, OrderedMap.getElem?_insertMany_values hkeyed, hget]
  simp only [Std.ExtTreeMap.insertMany_list_singleton, Std.ExtTreeMap.getElem?_insert]
  by_cases hk : k = bytes "SHELL"
  · rw [if_pos hk, if_pos (hk ▸ Std.ReflCmp.compare_self)]
    cases b.getEnv k <;> rfl
  · rw [if_neg hk, if_neg fun h => hk (Std.LawfulEqCmp.eq_of_compare h).symm]
    cases b.getEnv k <;> simp

theorem views {start b : Builder} {ops : List (EnvOp UnixStr)} (h0 : Inherited start.envs)
    (h : b.envs = envsAfter start ops) : Views N start ops b where
  getEnv k := by
    have hrun := getEnv_run ops start k
    rw [CommandBuilder.getEnv, ← envsAfter, ← h, ← CommandBuilder.getEnv] at hrun
    rw [hrun]
    cases lastWrite k ops <;> rfl
  full := full_iff b
  fullOrder := full_order b
  extra := extra_iff h0 h
  extraOrder := extra_order b
  child w cmd hcmd := by
    obtain ⟨-, hclear, hvars⟩ := asCommand_setup hcmd
    rw [hvars]
    exact ⟨hclear, getElem?_childVars w b⟩

/-- Whatever is done to a builder and its clones, each of them is seen through every
view as the last-write-wins map of its own history over the base environment, and
operations on some of them leave the others as they were. -/
theorem family_views (w : World N) (varsOs : List (UnixStr × UnixStr)) (args : List UnixStr)
    (unix : UnixFields) (ops : List FamilyOp) :
    let start := CommandBuilder.fromArgv args (getBaseEnv w varsOs) unix
    List.Forall₂ (Views N start) (ops.foldl FamilyOp.record [[]]) (ops.foldl FamilyOp.step [start]) ∧
      ∀ (more : List FamilyOp) (i : Nat), i < (ops.foldl FamilyOp.step [start]).length →
        (∀ op ∈ more, op.target ≠ some i) →
        ((ops ++ more).foldl FamilyOp.step [start])[i]? = (ops.foldl FamilyOp.step [start])[i]? := by
  intro start
  refine ⟨?_, ?_⟩
  · have hstart : [start].map CommandBuilder.envs = [[]].map (envsAfter start) := rfl
    have hrun := envs_run ops hstart
    rw [eq_comm, ← List.forall₂_eq_eq_eq, List.forall₂_map_left_iff, List.forall₂_map_right_iff] at hrun
    exact hrun.imp fun _ _ h => views (inherited_getBaseEnv w varsOs) h.symm
  · intro more i hi hmore
    rw [List.foldl_append]
    exact run_other hi hmore

end Xpty.Unix
