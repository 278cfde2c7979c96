import Xpty.DelimitedPairs
import Xpty.WinPath

/- The environment block that `CreateProcessW` gets on Windows: each variable under its
   preferred spelling, in the order of the map, as `DelimitedPairs` between `=` and NUL.

   Nothing checks a name or a value on its way into the block. As long as every `env`
   was given a name and a value that the format can tell apart, the block reads back as
   the builder's map (`environment_block_round_trip`). -/
namespace Xpty.Win

def EQUALS : UInt16 := 0x3D

section
variable [ToLowercase]

/-- `CommandBuilder::environment_block`. -/
def environmentBlock (b : Builder) : WinStr :=
  (b.envs.values.flatMap fun entry => entry.preferredKey ++ EQUALS :: entry.value ++ [0]) ++ [0]

/-- How a child reads a block: the variables, and what is left after the empty string that ends
them, without which it is no block. -/
def decodeBlock (block : WinStr) : Option (List (WinStr × WinStr) × WinStr) :=
  DelimitedPairs.decode EQUALS 0 block

/-- The variables of a builder, in the order of its map. -/
def pairs (b : Builder) : List (WinStr × WinStr) :=
  b.envs.values.map fun entry => (entry.preferredKey, entry.value)

/-- A name that is not empty, holds no NUL and no `=` after its first unit, and a value
that holds no NUL. -/
abbrev WellFormed (kv : WinStr × WinStr) : Prop := DelimitedPairs.WellFormed EQUALS 0 kv

def WellFormedEnv (b : Builder) : Prop := ∀ kv ∈ pairs b, WellFormed kv

instance (b : Builder) : Decidable (WellFormedEnv b) :=
  inferInstanceAs (Decidable (∀ kv ∈ pairs b, WellFormed kv))

/-- What is asked of an operation: only `env` brings anything in. -/
def WellFormedOp : EnvOp WinStr → Prop
  | .env key value => WellFormed (key, value)
  | .envRemove _ => True
  | .envClear => True

instance : DecidablePred WellFormedOp
  | .env key value => inferInstanceAs (Decidable (WellFormed (key, value)))
  | .envRemove _ => isTrue trivial
  | .envClear => isTrue trivial

theorem environmentBlock_eq (b : Builder) :
    environmentBlock b = DelimitedPairs.encode EQUALS 0 (pairs b) := by
  simp [environmentBlock, DelimitedPairs.encode, pairs, List.flatMap_map]

/-- The block reads back as the variables exactly when they are all well formed. -/
theorem decode_environmentBlock_iff (b : Builder) :
    decodeBlock (environmentBlock b) = some (pairs b, []) ↔ WellFormedEnv b := by
  rw [environmentBlock_eq]
  exact DelimitedPairs.decode_encode_iff (by decide)

theorem mem_pairs {b : Builder} {k v : WinStr} : (k, v) ∈ pairs b ↔
    ∃ e, b.envs.find k = some e ∧ e.preferredKey = k ∧ e.value = v := by
  simp only [pairs, List.mem_map, Envs.mem_values, Prod.mk.injEq]
  refine ⟨?_, ?_⟩
  · intro hentry
    obtain ⟨e, he, rfl, rfl⟩ := hentry
    exact ⟨e, he, rfl, rfl⟩
  · intro hentry
    obtain ⟨e, he, rfl, rfl⟩ := hentry
    exact ⟨e, he, rfl, rfl⟩

/-- No two variables have the same key. -/
theorem pairwise_mapKey (b : Builder) : (pairs b).Pairwise fun x y => mapKey x.1 ≠ mapKey y.1 := by
  rw [pairs, List.pairwise_map]
  refine b.envs.values_sorted.imp fun {e e'} hlt heq => ?_
  have hself : OsStr.cmp (mapKey e'.preferredKey) (mapKey e'.preferredKey) = .eq :=
    Std.ReflCmp.compare_self
  have hkey : mapKey e.preferredKey = mapKey e'.preferredKey := heq
  rw [hkey, hself] at hlt
  cases hlt

theorem mem_pairs_apply {b : Builder} {op : EnvOp WinStr} {k v : WinStr}
    (h : (k, v) ∈ pairs (op.apply b)) : (k, v) ∈ pairs b ∨ op = .env k v := by
  obtain ⟨e, he, hk, hv⟩ := mem_pairs.mp h
  rw [find_apply] at he
  cases heff : op.effect k with
  | none =>
    rw [heff] at he
    exact .inl (mem_pairs.mpr ⟨e, he, hk, hv⟩)
  | some r =>
    rw [heff] at he
    obtain ⟨kv, rfl, rfl⟩ := Option.map_eq_some_iff.mp he
    cases op with
    | env key value =>
      simp only [EnvOp.effect] at heff
      split at heff
      · cases heff
        rw [← hk, ← hv]
        exact .inr rfl
      · cases heff
    | envRemove key =>
      simp only [EnvOp.effect] at heff
      split at heff <;> cases heff
    | envClear => cases heff

/-- After any operations, a variable was there at the start or is set by one of them. -/
theorem mem_pairs_run {k v : WinStr} : ∀ {ops : List (EnvOp WinStr)} {b : Builder},
    (k, v) ∈ pairs (ops.foldl EnvOp.apply b) → (k, v) ∈ pairs b ∨ .env k v ∈ ops
  | [], _, h => .inl h
  | op :: ops, b, h => by
    rcases mem_pairs_run (b := op.apply b) h with h | h
    · rcases mem_pairs_apply h with h | rfl
      · exact .inl h
      · exact .inr List.mem_cons_self
    · exact .inr (List.mem_cons_of_mem _ h)

theorem wellFormedEnv_run {ops : List (EnvOp WinStr)} {b : Builder} (hb : WellFormedEnv b)
    (hops : ∀ op ∈ ops, WellFormedOp op) : WellFormedEnv (ops.foldl EnvOp.apply b) := by
  intro kv hkv
  obtain ⟨k, v⟩ := kv
  rcases mem_pairs_run hkv with h | h
  · exact hb _ h
  · exact hops _ h

/-- After any operations, the block reads back as the variables of the builder, in the
order of its map, up to an empty string that nothing is left behind. -/
theorem environment_block_round_trip (start : Builder) (ops : List (EnvOp WinStr))
    (hstart : WellFormedEnv start) (hops : ∀ op ∈ ops, WellFormedOp op) :
    decodeBlock (environmentBlock (ops.foldl EnvOp.apply start)) =
      some (pairs (ops.foldl EnvOp.apply start), []) :=
  (decode_environmentBlock_iff _).mpr (wellFormedEnv_run hstart hops)

end

/-- A base environment with a drive's directory and an empty value. -/
def driveEnv : letI := asciiLowercase; Envs WinStr :=
  letI := asciiLowercase
  Envs.empty.insert { isFromBaseEnv := true, preferredKey := wide "=C:", value := wide "C:\\x" }
    |>.insert { isFromBaseEnv := true, preferredKey := wide "Empty", value := [] }

theorem environment_block_round_trip_drive :
    letI := asciiLowercase
    let b : Builder := .newDefaultProg driveEnv ()
    let ops := [EnvOp.env (wide "Opt") (wide "a=b="), .envRemove (wide "empty"), .env (wide "B") []]
    decodeBlock (environmentBlock (ops.foldl EnvOp.apply b)) =
      some (pairs (ops.foldl EnvOp.apply b), []) :=
  letI := asciiLowercase
  environment_block_round_trip (.newDefaultProg driveEnv ())
    [.env (wide "Opt") (wide "a=b="), .envRemove (wide "empty"), .env (wide "B") []]
    (by decide) (by decide)

/-- Without the last terminator a block is not read. -/
example : decodeBlock (wide "A=1" ++ [0]) = none ∧
    decodeBlock (wide "A=1" ++ [0, 0]) = some ([(wide "A", wide "1")], []) := by decide

/-! The end of the block. -/

section
variable [ToLowercase]

/-- There is no NUL in a name or a value. -/
def NulFreeEnv (b : Builder) : Prop := ∀ kv ∈ pairs b, DelimitedPairs.TermFree 0 kv

instance (b : Builder) : Decidable (NulFreeEnv b) :=
  inferInstanceAs (Decidable (∀ kv ∈ pairs b, DelimitedPairs.TermFree 0 kv))

def NulFreeOp : EnvOp WinStr → Prop
  | .env key value => DelimitedPairs.TermFree 0 (key, value)
  | .envRemove _ => True
  | .envClear => True

instance : DecidablePred NulFreeOp
  | .env key value => inferInstanceAs (Decidable (DelimitedPairs.TermFree 0 (key, value)))
  | .envRemove _ => isTrue trivial
  | .envClear => isTrue trivial

/-- Two NULs side by side stand first at the end of the block. -/
def EndsAtDoubleNul (block : WinStr) : Prop :=
  DelimitedPairs.endAt 0 block = some (block.length - 2)

theorem pairs_ne_nil_iff {b : Builder} : pairs b ≠ [] ↔ ∃ n, b.getEnv n ≠ none := by
  refine ⟨?_, ?_⟩
  · intro h
    obtain ⟨⟨k, v⟩, hkv⟩ := List.exists_mem_of_ne_nil _ h
    obtain ⟨e, he, -, -⟩ := mem_pairs.mp hkv
    exact ⟨k, by simp [CommandBuilder.getEnv, he]⟩
  · intro hset hnil
    obtain ⟨n, hn⟩ := hset
    cases hfind : b.envs.find n with
    | none => simp [CommandBuilder.getEnv, hfind] at hn
    | some e =>
      have hmem := Envs.mem_values_of_find hfind
      rw [List.map_eq_nil_iff.mp hnil] at hmem
      cases hmem

/-- After any operations, the block ends where a reader takes it to exactly when some
variable is set: an empty environment is written as one NUL. -/
theorem block_end_iff (start : Builder) (ops : List (EnvOp WinStr)) (hstart : NulFreeEnv start)
    (hops : ∀ op ∈ ops, NulFreeOp op) :
    EndsAtDoubleNul (environmentBlock (ops.foldl EnvOp.apply start)) ↔
      ∃ n, (ops.foldl EnvOp.apply start).getEnv n ≠ none := by
  rw [← pairs_ne_nil_iff, EndsAtDoubleNul, environmentBlock_eq]
  refine DelimitedPairs.endAt_encode_iff (by decide) ?_
  intro kv hkv
  obtain ⟨k, v⟩ := kv
  rcases mem_pairs_run hkv with h | h
  · exact hstart _ h
  · exact hops _ h

end

theorem block_end_drive :
    letI := asciiLowercase
    let b : Builder := .newDefaultProg driveEnv ()
    let ops := [EnvOp.env (wide "Opt") (wide "a=b="), .envRemove (wide "empty"), .env (wide "B") []]
    EndsAtDoubleNul (environmentBlock (ops.foldl EnvOp.apply b)) ↔
      ∃ n, (ops.foldl EnvOp.apply b).getEnv n ≠ none :=
  letI := asciiLowercase
  block_end_iff (.newDefaultProg driveEnv ())
    [.env (wide "Opt") (wide "a=b="), .envRemove (wide "empty"), .env (wide "B") []]
    (by decide) (by decide)

/-- After `env_clear` the block is one NUL, and the reader goes past it. -/
theorem cleared_block_is_not_ended :
    letI := asciiLowercase
    environmentBlock (.envClear (.newDefaultProg driveEnv ())) = [0] ∧
      ¬ ∀ (start : Builder) (ops : List (EnvOp WinStr)), NulFreeEnv start →
        (∀ op ∈ ops, NulFreeOp op) →
          EndsAtDoubleNul (environmentBlock (ops.foldl EnvOp.apply start)) := by
  let := asciiLowercase
  have hblock : environmentBlock (.envClear (.newDefaultProg driveEnv ())) = [0] := by decide
  refine ⟨hblock, fun h => ?_⟩
  have hend := h (.newDefaultProg driveEnv ()) [.envClear] (by decide) (by decide)
  have hnone : DelimitedPairs.endAt 0 (environmentBlock (.envClear (.newDefaultProg driveEnv ()))) =
      some _ := hend
  rw [hblock] at hnone
  cases hnone

end Xpty.Win
