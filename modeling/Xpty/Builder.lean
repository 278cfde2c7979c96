import Xpty.Common
import Xpty.OsStr

/- `CommandBuilder` and its environment (`cmdbuilder.rs`), for both platforms: `S` is
   the platform's `OsString` and `U` holds the fields that only Unix has.

   The environment map is kept under `map_key` of each entry's preferred spelling;
   `Envs` carries that as a field. A sequence of `env`, `env_remove` and `env_clear`
   acts as a last-write-wins map up to `map_key`: `find_run` says that the entry of
   a name is decided by the last operation that touches it, and is the original
   entry where none does. -/
namespace Xpty

structure EnvEntry (S : Type) where
  isFromBaseEnv : Bool
  preferredKey : S
  value : S
  deriving DecidableEq, Repr

/-- `BTreeMap<OsString, EnvEntry>`, each entry under the `map_key` of its spelling. -/
structure Envs (S : Type) [OsStr S] where
  map : BTreeMap S (EnvEntry S)
  keyed : ∀ (k : S) (e : EnvEntry S), map[k]? = some e → k = mapKey e.preferredKey

namespace Envs

variable {S : Type} [OsStr S]

theorem ext {a b : Envs S} (h : ∀ k : S, a.map[k]? = b.map[k]?) : a = b := by
  obtain ⟨a, ha⟩ := a
  obtain ⟨b, hb⟩ := b
  obtain rfl : a = b := Std.ExtTreeMap.ext_getElem? h
  rfl

/-- `clear`. -/
def empty : Envs S := { map := ∅, keyed := by simp }

/-- `insert` of an entry under its key. -/
def insert (envs : Envs S) (entry : EnvEntry S) : Envs S where
  map := envs.map.insert (mapKey entry.preferredKey) entry
  keyed k e h := by
    rw [Std.ExtTreeMap.getElem?_insert] at h
    split at h
    · rename_i hk
      cases h
      exact (Std.LawfulEqCmp.eq_of_compare hk).symm
    · exact envs.keyed k e h

/-- `remove` of the entry of a name. -/
def remove (envs : Envs S) (name : S) : Envs S where
  map := envs.map.erase (mapKey name)
  keyed k e h := by
    rw [Std.ExtTreeMap.getElem?_erase] at h
    split at h
    · cases h
    · exact envs.keyed k e h

/-- `get` of a name. -/
def find (envs : Envs S) (name : S) : Option (EnvEntry S) := envs.map[mapKey name]?

/-- `values`, in key order. -/
def values (envs : Envs S) : List (EnvEntry S) := OrderedMap.values envs.map

@[simp] theorem find_empty (n : S) : (empty : Envs S).find n = none := by simp [find, empty]

section
variable [DecidableEq S]

theorem getElem?_insert (envs : Envs S) (entry : EnvEntry S) (k : S) :
    (envs.insert entry).map[k]? =
      if mapKey entry.preferredKey = k then some entry else envs.map[k]? := by
  simp [insert, Std.ExtTreeMap.getElem?_insert]

theorem getElem?_remove (envs : Envs S) (name k : S) :
    (envs.remove name).map[k]? = if mapKey name = k then none else envs.map[k]? := by
  simp [remove, Std.ExtTreeMap.getElem?_erase]

theorem find_insert (envs : Envs S) (entry : EnvEntry S) (n : S) : (envs.insert entry).find n =
    if mapKey entry.preferredKey = mapKey n then some entry else envs.find n :=
  getElem?_insert envs entry _

theorem find_remove (envs : Envs S) (name n : S) : (envs.remove name).find n =
    if mapKey name = mapKey n then none else envs.find n :=
  getElem?_remove envs name _

end

theorem mapKey_of_find {envs : Envs S} {n : S} {e : EnvEntry S} (h : envs.find n = some e) :
    mapKey n = mapKey e.preferredKey := envs.keyed _ e h

theorem mem_values {envs : Envs S} {e : EnvEntry S} :
    e ∈ envs.values ↔ envs.find e.preferredKey = some e := by
  rw [values, OrderedMap.mem_values, find]
  refine ⟨?_, ?_⟩
  · intro h
    obtain ⟨k, hk⟩ := h
    rwa [← envs.keyed k e hk]
  · intro h
    exact ⟨_, h⟩

theorem mem_values_of_find {envs : Envs S} {n : S} {e : EnvEntry S} (h : envs.find n = some e) :
    e ∈ envs.values := by
  rw [mem_values, find, ← mapKey_of_find h]
  exact h

theorem values_sorted (envs : Envs S) : envs.values.Pairwise fun a b =>
    OsStr.cmp (mapKey a.preferredKey) (mapKey b.preferredKey) = .lt :=
  OrderedMap.values_sorted envs.keyed

end Envs

/-- `CommandBuilder`. -/
structure CommandBuilder (S U : Type) [OsStr S] where
  args : List S
  envs : Envs S
  cwd : Option S
  controllingTty : Bool
  unix : U

/-- An operation on the environment of a builder. -/
inductive EnvOp (S : Type) where
  | env (key value : S)
  | envRemove (key : S)
  | envClear
  deriving DecidableEq, Repr

namespace CommandBuilder

variable {S U : Type} [OsStr S]

def new (program : S) (baseEnv : Envs S) (unix : U) : CommandBuilder S U :=
  { args := [program], envs := baseEnv, cwd := none, controllingTty := true, unix }

def fromArgv (args : List S) (baseEnv : Envs S) (unix : U) : CommandBuilder S U :=
  { args, envs := baseEnv, cwd := none, controllingTty := true, unix }

def newDefaultProg (baseEnv : Envs S) (unix : U) : CommandBuilder S U :=
  { args := [], envs := baseEnv, cwd := none, controllingTty := true, unix }

def isDefaultProg (b : CommandBuilder S U) : Bool := b.args.isEmpty

def setControllingTty (b : CommandBuilder S U) (controllingTty : Bool) : CommandBuilder S U :=
  { b with controllingTty }

/-- An error is a panic, with its message. -/
def arg (b : CommandBuilder S U) (arg : S) : Except String (CommandBuilder S U) :=
  if b.isDefaultProg then .error "attempted to add args to a default_prog builder"
  else .ok { b with args := b.args ++ [arg] }

def replaceDefaultProg (b : CommandBuilder S U) (args : List S) :
    Except String (CommandBuilder S U) :=
  if !b.isDefaultProg then
    .error "attempted to replace_default_prog on a non-default_prog builder"
  else .ok { b with args := b.args ++ args }

/-- The method `args`. -/
def addArgs (b : CommandBuilder S U) (args : List S) : Except String (CommandBuilder S U) :=
  args.foldlM arg b

def env (b : CommandBuilder S U) (key value : S) : CommandBuilder S U :=
  { b with envs := b.envs.insert { isFromBaseEnv := false, preferredKey := key, value } }

def envRemove (b : CommandBuilder S U) (key : S) : CommandBuilder S U :=
  { b with envs := b.envs.remove key }

def envClear (b : CommandBuilder S U) : CommandBuilder S U := { b with envs := .empty }

/-- The method `cwd`. -/
def setCwd (b : CommandBuilder S U) (dir : S) : CommandBuilder S U := { b with cwd := some dir }

def clearCwd (b : CommandBuilder S U) : CommandBuilder S U := { b with cwd := none }

def getEnv (b : CommandBuilder S U) (key : S) : Option S := (b.envs.find key).map (·.value)

def iterExtraEnvAsStr (b : CommandBuilder S U) : List (S × S) :=
  b.envs.values.filterMap fun entry =>
    if entry.isFromBaseEnv then none
    else do
      let key ← toStr entry.preferredKey
      let value ← toStr entry.value
      some (key, value)

def iterFullEnvAsStr (b : CommandBuilder S U) : List (S × S) :=
  b.envs.values.filterMap fun entry => do
    let key ← toStr entry.preferredKey
    let value ← toStr entry.value
    some (key, value)

end CommandBuilder

def EnvOp.apply {S U : Type} [OsStr S] (b : CommandBuilder S U) : EnvOp S → CommandBuilder S U
  | .env key value => b.env key value
  | .envRemove key => b.envRemove key
  | .envClear => b.envClear

/-! The environment as a last-write-wins map. -/

section
variable {S U : Type} [OsStr S] [DecidableEq S]

/-- What an operation does to the variable `n`: nothing, or it removes it, or it
sets it, under a spelling. -/
def EnvOp.effect (n : S) : EnvOp S → Option (Option (S × S))
  | .env key value => if mapKey key = mapKey n then some (some (key, value)) else none
  | .envRemove key => if mapKey key = mapKey n then some none else none
  | .envClear => some none

/-- The effect of the last operation that touches `n`. -/
def lastWrite (n : S) : List (EnvOp S) → Option (Option (S × S))
  | [] => none
  | op :: ops =>
    match lastWrite n ops with
    | some r => some r
    | none => op.effect n

/-- The entry that `env` makes. -/
def extraEntry (write : S × S) : EnvEntry S :=
  { isFromBaseEnv := false, preferredKey := write.1, value := write.2 }

theorem find_apply (b : CommandBuilder S U) (op : EnvOp S) (n : S) : (op.apply b).envs.find n =
    match op.effect n with
    | some r => r.map extraEntry
    | none => b.envs.find n := by
  cases op with
  | env key value =>
    simp only [EnvOp.apply, CommandBuilder.env, Envs.find_insert, EnvOp.effect]
    split <;> rfl
  | envRemove key =>
    simp only [EnvOp.apply, CommandBuilder.envRemove, Envs.find_remove, EnvOp.effect]
    split <;> rfl
  | envClear => simp [EnvOp.apply, CommandBuilder.envClear, EnvOp.effect]

/-- After any operations, the entry of a name is the one the last write made, none
if it was removed or cleared since, and the original one if nothing touched it. -/
theorem find_run : ∀ (ops : List (EnvOp S)) (b : CommandBuilder S U) (n : S),
    (ops.foldl EnvOp.apply b).envs.find n =
      match lastWrite n ops with
      | some r => r.map extraEntry
      | none => b.envs.find n
  | [], b, n => rfl
  | op :: ops, b, n => by
    -- what comes later decides, unless it leaves `n` alone
    rw [List.foldl_cons, find_run ops, lastWrite]
    cases h : lastWrite n ops with
    | some r => rfl
    | none => exact find_apply b op n

theorem getEnv_run (ops : List (EnvOp S)) (b : CommandBuilder S U) (n : S) :
    (ops.foldl EnvOp.apply b).getEnv n =
      match lastWrite n ops with
      | some r => r.map (·.2)
      | none => b.getEnv n := by
  rw [CommandBuilder.getEnv, find_run]
  cases lastWrite n ops with
  | none => rfl
  | some r => cases r <;> rfl

end

/-! The iterators. -/

section
variable {S U : Type} [OsStr S]

theorem mem_iterFullEnvAsStr {b : CommandBuilder S U} {k v : S} : (k, v) ∈ b.iterFullEnvAsStr ↔
    ∃ e ∈ b.envs.values, toStr e.preferredKey = some k ∧ toStr e.value = some v := by
  simp only [CommandBuilder.iterFullEnvAsStr, List.mem_filterMap, Option.bind_eq_bind,
    Option.bind_eq_some_iff, Option.some.injEq, Prod.mk.injEq]
  refine ⟨?_, ?_⟩
  · intro h
    obtain ⟨e, he, k', hk, v', hv, rfl, rfl⟩ := h
    exact ⟨e, he, hk, hv⟩
  · intro h
    obtain ⟨e, he, hk, hv⟩ := h
    exact ⟨e, he, k, hk, v, hv, rfl, rfl⟩

theorem mem_iterExtraEnvAsStr {b : CommandBuilder S U} {k v : S} : (k, v) ∈ b.iterExtraEnvAsStr ↔
    ∃ e ∈ b.envs.values, e.isFromBaseEnv = false ∧
      toStr e.preferredKey = some k ∧ toStr e.value = some v := by
  simp only [CommandBuilder.iterExtraEnvAsStr, List.mem_filterMap, Option.bind_eq_bind]
  refine ⟨?_, ?_⟩
  · intro hex
    obtain ⟨e, he, h⟩ := hex
    cases hb : e.isFromBaseEnv with
    | true => simp [hb] at h
    | false =>
      simp only [hb, Bool.false_eq_true, if_false, Option.bind_eq_some_iff, Option.some.injEq,
        Prod.mk.injEq] at h
      obtain ⟨k', hk, v', hv, rfl, rfl⟩ := h
      exact ⟨e, he, hb, hk, hv⟩
  · intro h
    obtain ⟨e, he, hb, hk, hv⟩ := h
    exact ⟨e, he, by simp [hb, hk, hv]⟩

end

end Xpty
