import Xpty.WinCmdline
import Xpty.WinEnvBlock

/- `PseudoCon::spawn_command` on Windows, and what one `env` call changes in the child
   it starts. `Machine` holds how its system calls go.

   From a state that well-formed calls have reached, another call is confined to its own
   variable exactly when it is well formed too, unless the spawn is refused for a reason
   that has nothing to do with the environment: `env_confined_iff`. A NUL in an argument
   is refused, a NUL in a name or a value is not. -/
namespace Xpty.Win

/-- How the system calls of one spawn go. -/
structure Machine where
  initializeAttributes : Except Errno Unit
  updateAttribute : Except Errno Unit
  /-- `CreateProcessW` on the program, the line, the block and the directory. -/
  createProcess : WinStr → WinStr → WinStr → Option WinStr → Except Errno Nat

section
variable [ToLowercase]

/-- `CommandBuilder::current_directory`. -/
def currentDirectory (w : World) (b : Builder) : Option WinStr :=
  let home := (b.getEnv (wide "USERPROFILE")).filter w.isDir
  let cwd := b.cwd.filter w.isDir
  (cwd.or home).map fun dir =>
    let full :=
      if !isAbsolute dir then
        match w.currentDir with
        | some ccwd => join ccwd dir
        | none => dir
      else dir
    full ++ [0]

/-- `{:?}` of the directory. -/
def debugCwd : Option WinStr → Message WinStr
  | none => [.text "None"]
  | some cwd => [.text "Some(", .debug cwd, .text ")"]

/-- `ProcThreadAttributeList::with_capacity` and `set_pty`. -/
def attributeList (m : Machine) : Except (Error WinStr) Unit :=
  match m.initializeAttributes with
  | .error e => .error (.other [.text "InitializeProcThreadAttributeList failed: ", .errno e])
  | .ok () =>
    match m.updateAttribute with
    | .error e => .error (.other [.text "UpdateProcThreadAttribute failed: ", .errno e])
    | .ok () => .ok ()

/-- `PseudoCon::spawn_command`, up to the process handle that the child is made of. -/
def spawnCommand (m : Machine) (w : World) (b : Builder) : Except Fault Nat := do
  (attributeList m).mapError .err
  let (exe, line) ← cmdline w b
  let cwd := currentDirectory w b
  match m.createProcess exe line (environmentBlock b) cwd with
  | .error e =>
    .error (.err (.other ([.text "CreateProcessW `", .debug line, .text "` in cwd `"] ++ debugCwd cwd ++
      [.text "` failed: ", .errno e])))
  | .ok proc => .ok proc

/-- The spawn is refused: `Err`, and not a panic. -/
def Refused (m : Machine) (w : World) (b : Builder) : Prop :=
  ∃ e, spawnCommand m w b = .error (.err e)

/-- The reasons to refuse a spawn: the attribute list, an argument with a NUL in it, or
`CreateProcessW`. -/
def RefusalReason (m : Machine) (w : World) (b : Builder) : Prop :=
  (∃ e, attributeList m = .error e) ∨ ∃ prog, resolveExe w b = .ok prog ∧
    ((∃ arg ∈ b.args.drop 1, 0 ∈ arg) ∨
      ∃ e, m.createProcess (prog ++ [0]) (quoted prog ++ argsLine (b.args.drop 1) ++ [0])
        (environmentBlock b) (currentDirectory w b) = .error e)

theorem refused_iff {m : Machine} {w : World} {b : Builder} :
    Refused m w b ↔ RefusalReason m w b := by
  rw [Refused, RefusalReason, spawnCommand]
  cases attributeList m with
  | error e => simp [bind, Except.bind, Except.mapError]
  | ok u =>
    cases hcmd : cmdline w b with
    | ok out =>
      obtain ⟨exe, line⟩ := out
      obtain ⟨prog, hprog, hargs, rfl, rfl⟩ := cmdline_ok.mp hcmd
      have hnul : ¬ ∃ arg ∈ b.args.drop 1, 0 ∈ arg := by
        intro h
        obtain ⟨arg, harg, h0⟩ := h
        exact hargs arg harg h0
      simp only [bind, Except.bind, Except.mapError, hprog, Except.ok.injEq, exists_eq_left', hnul,
        false_or]
      cases m.createProcess (prog ++ [0]) (quoted prog ++ argsLine (b.args.drop 1) ++ [0])
        (environmentBlock b) (currentDirectory w b) <;> simp
    | error f =>
      cases f with
      | panic p =>
        have hprog := cmdline_panic.mp hcmd
        simp [bind, Except.bind, Except.mapError, hprog]
      | err e =>
        obtain ⟨⟨prog, hprog⟩, hnul⟩ := cmdline_err.mp ⟨e, hcmd⟩
        simp only [bind, Except.bind, Except.mapError]
        exact iff_of_true ⟨e, rfl⟩ (.inr ⟨prog, hprog, .inl hnul⟩)

/-! One variable and the others. -/

/-- The value of a name in the block, as a child reads it. -/
def childEnv (b : Builder) (n : WinStr) : Option WinStr :=
  (decodeBlock (environmentBlock b)).bind fun (vars, _) => vars.lookup n

/-- After `env(k, v)` the child has `v` for `k`, and for every name that is not `k` up to
letter case what it had before. -/
def Confined (b : Builder) (k v : WinStr) : Prop :=
  (∀ n : WinStr, mapKey n ≠ mapKey k → childEnv (b.env k v) n = childEnv b n) ∧
    childEnv (b.env k v) k = some v

/-- The call is confined to its variable, or the spawn is refused. -/
def ConfinedOrRefused (m : Machine) (w : World) (b : Builder) (k v : WinStr) : Prop :=
  Confined b k v ∨ Refused m w (b.env k v)

theorem pairwise_pairs (b : Builder) : (pairs b).Pairwise fun x y => x.1 ≠ y.1 :=
  (pairwise_mapKey b).imp fun hkey heq => hkey (congrArg mapKey heq)

/-- In a well-formed state the child reads the entries of the map. -/
theorem childEnv_eq_some {b : Builder} (h : WellFormedEnv b) {n v : WinStr} :
    childEnv b n = some v ↔ ∃ e, b.envs.find n = some e ∧ e.preferredKey = n ∧ e.value = v := by
  rw [childEnv, (decode_environmentBlock_iff b).mpr h, ← mem_pairs, Option.bind_some,
    List.lookup_eq_some_iff]
  refine ⟨?_, ?_⟩
  · intro h
    obtain ⟨l₁, l₂, hl, -⟩ := h
    have hl' : pairs b = l₁ ++ (n, v) :: l₂ := hl
    rw [hl']
    exact List.mem_append_right l₁ List.mem_cons_self
  · intro hmem
    -- names are distinct, so the first one found is the one
    obtain ⟨l₁, l₂, hl⟩ := List.append_of_mem hmem
    have hdistinct := pairwise_pairs b
    rw [hl, List.pairwise_append] at hdistinct
    exact ⟨l₁, l₂, hl, fun p hp => bne_iff_ne.mpr (hdistinct.2.2 p hp _ List.mem_cons_self).symm⟩

/-- A well-formed call in a well-formed state is confined. -/
theorem confined {b : Builder} {k v : WinStr} (hb : WellFormedEnv b) (hkv : WellFormed (k, v)) :
    Confined b k v := by
  have hb' : WellFormedEnv (b.env k v) :=
    @wellFormedEnv_run _ [.env k v] b hb (List.forall_mem_singleton.mpr hkv)
  have hfind : ∀ n : WinStr, (b.env k v).envs.find n = if mapKey k = mapKey n
      then some { isFromBaseEnv := false, preferredKey := k, value := v } else b.envs.find n :=
    fun n => Envs.find_insert b.envs _ n
  refine ⟨?_, ?_⟩
  · intro n hn
    -- both blocks read back as their maps, which differ at `k` only
    refine Option.ext fun x => ?_
    rw [childEnv_eq_some hb', childEnv_eq_some hb, hfind, if_neg (Ne.symm hn)]
  · rw [childEnv_eq_some hb', hfind, if_pos rfl]
    exact ⟨_, rfl, rfl, rfl⟩

/-- In any state, only a well-formed call is confined: what a child reads is well formed. -/
theorem wellFormed_of_confined {b : Builder} {k v : WinStr} (h : Confined b k v) :
    WellFormed (k, v) := by
  obtain ⟨⟨vars, rest⟩, hdecode, hlookup⟩ := Option.bind_eq_some_iff.mp h.2
  obtain ⟨l₁, l₂, hl, -⟩ := List.lookup_eq_some_iff.mp hlookup
  have hmem : (k, v) ∈ vars := by
    rw [hl]
    exact List.mem_append_right l₁ List.mem_cons_self
  exact DelimitedPairs.wellFormed_of_mem_decode hdecode hmem

/-- From a state that well-formed calls have reached, a call is confined to its variable,
or the spawn is refused, exactly when the name is not empty and holds no NUL and no `=`
after its first unit and the value holds no NUL, or when something else refuses it. -/
theorem env_confined_iff (m : Machine) (w : World) (start : Builder) (ops : List (EnvOp WinStr))
    (k v : WinStr) (hstart : WellFormedEnv start) (hops : ∀ op ∈ ops, WellFormedOp op) :
    ConfinedOrRefused m w (ops.foldl EnvOp.apply start) k v ↔
      WellFormed (k, v) ∨ RefusalReason m w ((ops.foldl EnvOp.apply start).env k v) := by
  rw [ConfinedOrRefused, refused_iff]
  refine or_congr_left' fun _ => ⟨wellFormed_of_confined, confined (wellFormedEnv_run hstart hops)⟩

end

/-- A machine on which every call succeeds. -/
def willing : Machine where
  initializeAttributes := .ok ()
  updateAttribute := .ok ()
  createProcess _ _ _ _ := .ok 1

theorem env_confined_iff_drive :
    letI := asciiLowercase
    let b : Builder := .newDefaultProg driveEnv ()
    let ops := [EnvOp.env (wide "Opt") (wide "a=b="), .envRemove (wide "empty")]
    ConfinedOrRefused willing noFiles (ops.foldl EnvOp.apply b) (wide "OPT") [] ↔
      WellFormed (wide "OPT", []) ∨
        RefusalReason willing noFiles ((ops.foldl EnvOp.apply b).env (wide "OPT") []) :=
  letI := asciiLowercase
  env_confined_iff willing noFiles (.newDefaultProg driveEnv ())
    [.env (wide "Opt") (wide "a=b="), .envRemove (wide "empty")] (wide "OPT") []
    (by decide) (by decide)

/-- The value `1`, a NUL and `B=2`. -/
def valueWithNul : WinStr := wide "1" ++ 0 :: wide "B=2"

/-- `env("A", "1\0B=2")` gives the child a `B` that it did not have, and the spawn goes
ahead. -/
theorem value_sets_another :
    letI := asciiLowercase
    let b : Builder := .newDefaultProg .empty ()
    childEnv b (wide "B") = none ∧
      childEnv (b.env (wide "A") valueWithNul) (wide "B") = some (wide "2") ∧
      spawnCommand willing noFiles (b.env (wide "A") valueWithNul) = .ok 1 ∧
      ¬ ∀ (m : Machine) (w : World) (b : Builder) (k v : WinStr), ConfinedOrRefused m w b k v := by
  let := asciiLowercase
  let b : Builder := .newDefaultProg .empty ()
  have hbefore : childEnv b (wide "B") = none := by decide
  have hafter : childEnv (b.env (wide "A") valueWithNul) (wide "B") = some (wide "2") := by decide
  have hspawn : spawnCommand willing noFiles (b.env (wide "A") valueWithNul) = .ok 1 := rfl
  refine ⟨hbefore, hafter, hspawn, fun h => ?_⟩
  rcases h willing noFiles b (wide "A") valueWithNul with ⟨hothers, -⟩ | ⟨e, he⟩
  · rw [hothers (wide "B") (by decide), hbefore] at hafter
    cases hafter
  · rw [hspawn] at he
    cases he

end Xpty.Win
