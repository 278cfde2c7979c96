import Xpty.WinNames

/- The base environment on Windows, which `get_base_env` makes of three layers: the
   variables of the process, the machine's ones in the registry and the user's. Each
   layer writes over the earlier ones, but for the user's `PATH`, which is put after the
   value that they left.

   A layer with distinct names is a `foldl` of inserts that do not meet (`find_layer`),
   and `find_getBaseEnv` puts the three together. -/
namespace Xpty.Win

inductive RegType where
  | REG_EXPAND_SZ
  | other (vtype : UInt32)
  deriving DecidableEq

structure RegValue where
  vtype : RegType
  bytes : List UInt8
  deriving DecidableEq

/-- A key of the registry: whether it can be opened, and its values, each of which is read
or not. -/
abbrev RegKey := Except Errno (List (Except Errno (WinStr × RegValue)))

/-- The two keys of the registry, and what is done with their values outside of the
repository. -/
structure Registry where
  localMachine : RegKey
  currentUser : RegKey
  /-- The buffer that `ExpandEnvironmentStringsW` fills. -/
  expandEnvironmentStrings : WinStr → WinStr
  /-- `OsString::from_reg_value`. -/
  fromRegValue : RegValue → Option WinStr

/-- The bytes as little-endian units; an odd one is left out. -/
def units : List UInt8 → WinStr
  | lo :: hi :: bytes => (lo.toUInt16 + hi.toUInt16 * 0x100) :: units bytes
  | _ => []

/-- `reg_value_to_string`. -/
def regValueToString (reg : Registry) (value : RegValue) : Option WinStr :=
  match value.vtype with
  | .REG_EXPAND_SZ =>
    some ((reg.expandEnvironmentStrings (units value.bytes)).reverse.dropWhile (· == 0)).reverse
  | .other _ => reg.fromRegValue value

def eqIgnoreAsciiCase (s t : WinStr) : Bool := AsciiCaseEq s t

def baseEntry (name value : WinStr) : EnvEntry WinStr :=
  { isFromBaseEnv := true, preferredKey := name, value }

section
variable [ToLowercase]

/-- `vars_os` collected. -/
def collectVars (vars : List (WinStr × WinStr)) : Envs WinStr :=
  vars.foldl (fun env kv => env.insert (baseEntry kv.1 kv.2)) .empty

/-- The loop over the values of the machine. -/
def addSystem (reg : Registry) : Envs WinStr → List (Except Errno (WinStr × RegValue)) → Envs WinStr
  | env, [] => env
  | env, .error _ :: rest => addSystem reg env rest
  | env, .ok (name, value) :: rest =>
    if eqIgnoreAsciiCase name (wide "username") then addSystem reg env rest
    else
      match regValueToString reg value with
      | some value => addSystem reg (env.insert (baseEntry name value)) rest
      | none => addSystem reg env rest

/-- The loop over the values of the user. -/
def addUser (reg : Registry) : Envs WinStr → List (Except Errno (WinStr × RegValue)) → Envs WinStr
  | env, [] => env
  | env, .error _ :: rest => addUser reg env rest
  | env, .ok (name, value) :: rest =>
    match regValueToString reg value with
    | some value =>
      let value :=
        if eqIgnoreAsciiCase name (wide "path") then
          match env.find name with
          | some entry => entry.value ++ [SEMICOLON] ++ value
          | none => value
        else value
      addUser reg (env.insert (baseEntry name value)) rest
    | none => addUser reg env rest

/-- `get_base_env` on Windows. -/
def getBaseEnv (varsOs : List (WinStr × WinStr)) (reg : Registry) : Envs WinStr :=
  let env := collectVars varsOs
  let env :=
    match reg.localMachine with
    | .ok entries => addSystem reg env entries
    | .error _ => env
  match reg.currentUser with
  | .ok entries => addUser reg env entries
  | .error _ => env

/-! Layers. -/

/-- Inserts a list of variables, the entry of each made with what there was before. -/
def layer (make : WinStr × WinStr → Option (EnvEntry WinStr) → EnvEntry WinStr)
    (env : Envs WinStr) (vars : List (WinStr × WinStr)) : Envs WinStr :=
  vars.foldl (fun env kv => env.insert (make kv (env.find kv.1))) env

/-- The variable of a layer that has a name. -/
def named (vars : List (WinStr × WinStr)) (n : WinStr) : Option (WinStr × WinStr) :=
  vars.find? fun kv => mapKey kv.1 = mapKey n

/-- The names are distinct under `map_key`. -/
def Distinct (vars : List (WinStr × WinStr)) : Prop :=
  vars.Pairwise fun a b => mapKey a.1 ≠ mapKey b.1

theorem find_congr {env : Envs WinStr} {n m : WinStr} (h : mapKey n = mapKey m) :
    env.find n = env.find m := by
  rw [Envs.find, Envs.find, h]

theorem named_cons (kv : WinStr × WinStr) (vars : List (WinStr × WinStr)) (n : WinStr) :
    named (kv :: vars) n = if mapKey kv.1 = mapKey n then some kv else named vars n := by
  rw [named, List.find?_cons]
  by_cases h : mapKey kv.1 = mapKey n <;> simp [h, named]

/-- With distinct names, no insert of a layer meets another one of it. -/
theorem find_layer {make : WinStr × WinStr → Option (EnvEntry WinStr) → EnvEntry WinStr}
    (hmake : ∀ kv old, (make kv old).preferredKey = kv.1) {vars : List (WinStr × WinStr)}
    (h : Distinct vars) (env : Envs WinStr) (n : WinStr) : (layer make env vars).find n =
      match named vars n with
      | some kv => some (make kv (env.find n))
      | none => env.find n := by
  induction h generalizing env with
  | nil => rfl
  | @cons kv vars hkv _ ih =>
    have hlayer : layer make env (kv :: vars) =
        layer make (env.insert (make kv (env.find kv.1))) vars := rfl
    rw [hlayer, ih, named_cons, Envs.find_insert, hmake]
    by_cases hn : mapKey kv.1 = mapKey n
    · have hnone : named vars n = none := by
        rw [named, List.find?_eq_none]
        intro other hmem
        simpa [← hn] using (hkv other hmem).symm
      rw [hnone, if_pos hn, if_pos hn, find_congr hn]
    · rw [if_neg hn, if_neg hn]

/-! The three layers. -/

/-- The values that are read without error and have a text. -/
def readableEntries (reg : Registry) (entries : List (Except Errno (WinStr × RegValue))) :
    List (WinStr × WinStr) :=
  entries.filterMap fun entry =>
    match entry with
    | .ok (name, value) => (regValueToString reg value).map fun value => (name, value)
    | .error _ => none

def readable (reg : Registry) (key : RegKey) : List (WinStr × WinStr) :=
  match key with
  | .ok entries => readableEntries reg entries
  | .error _ => []

def notUsername (kv : WinStr × WinStr) : Bool := !eqIgnoreAsciiCase kv.1 (wide "username")

def plainEntry (kv : WinStr × WinStr) (_ : Option (EnvEntry WinStr)) : EnvEntry WinStr :=
  baseEntry kv.1 kv.2

/-- The user's entry: a `PATH` comes after the value that it finds. -/
def userEntry (kv : WinStr × WinStr) (old : Option (EnvEntry WinStr)) : EnvEntry WinStr :=
  baseEntry kv.1 <|
    if eqIgnoreAsciiCase kv.1 (wide "path") then
      match old with
      | some entry => entry.value ++ [SEMICOLON] ++ kv.2
      | none => kv.2
    else kv.2

theorem addSystem_eq (reg : Registry) (entries : List (Except Errno (WinStr × RegValue)))
    (env : Envs WinStr) : addSystem reg env entries =
      layer plainEntry env ((readableEntries reg entries).filter notUsername) := by
  induction entries generalizing env with
  | nil => rfl
  | cons entry rest ih =>
    cases entry with
    | error e => exact ih env
    | ok nv =>
      obtain ⟨name, value⟩ := nv
      rw [addSystem, readableEntries, List.filterMap_cons]
      dsimp only
      cases regValueToString reg value with
      | none =>
        split <;> exact ih env
      | some text =>
        dsimp only [Option.map_some]
        rw [List.filter_cons, notUsername]
        cases eqIgnoreAsciiCase name (wide "username") with
        | true => exact ih env
        | false => exact ih _

theorem addUser_eq (reg : Registry) (entries : List (Except Errno (WinStr × RegValue)))
    (env : Envs WinStr) :
    addUser reg env entries = layer userEntry env (readableEntries reg entries) := by
  induction entries generalizing env with
  | nil => rfl
  | cons entry rest ih =>
    cases entry with
    | error e => exact ih env
    | ok nv =>
      obtain ⟨name, value⟩ := nv
      rw [addUser, readableEntries, List.filterMap_cons]
      dsimp only
      cases regValueToString reg value with
      | none => exact ih env
      | some text => exact ih _

/-- The variables of the machine that count. -/
def systemVars (reg : Registry) : List (WinStr × WinStr) :=
  (readable reg reg.localMachine).filter notUsername

def userVars (reg : Registry) : List (WinStr × WinStr) := readable reg reg.currentUser

theorem getBaseEnv_eq (varsOs : List (WinStr × WinStr)) (reg : Registry) :
    getBaseEnv varsOs reg = layer userEntry
      (layer plainEntry (layer plainEntry .empty varsOs) (systemVars reg)) (userVars reg) := by
  have hvars : collectVars varsOs = layer plainEntry .empty varsOs := rfl
  rw [getBaseEnv, hvars, systemVars, userVars]
  cases reg.localMachine with
  | error e =>
    cases reg.currentUser with
    | error e => rfl
    | ok user => exact addUser_eq reg user _
  | ok system =>
    dsimp only
    rw [addSystem_eq]
    cases reg.currentUser with
    | error e => rfl
    | ok user => exact addUser_eq reg user _

/-- What the user's layer finds of a name: the machine's variable, or that of the process. -/
def beneath (varsOs systemVars : List (WinStr × WinStr)) (n : WinStr) : Option (WinStr × WinStr) :=
  (named systemVars n).or (named varsOs n)

/-- The entry of a name in the base environment. -/
def layered (varsOs systemVars userVars : List (WinStr × WinStr)) (n : WinStr) :
    Option (EnvEntry WinStr) :=
  match named userVars n, beneath varsOs systemVars n with
  | some (name, value), some (_, earlier) =>
    if eqIgnoreAsciiCase name (wide "path") then
      some (baseEntry name (earlier ++ [SEMICOLON] ++ value))
    else some (baseEntry name value)
  | some (name, value), none => some (baseEntry name value)
  | none, some (name, value) => some (baseEntry name value)
  | none, none => none

theorem Distinct.filter {vars : List (WinStr × WinStr)} (h : Distinct vars)
    (keep : WinStr × WinStr → Bool) : Distinct (vars.filter keep) :=
  List.Pairwise.filter keep h

theorem find_beneath {varsOs systemVars : List (WinStr × WinStr)} (hvars : Distinct varsOs)
    (hsystem : Distinct systemVars) (n : WinStr) :
    (layer plainEntry (layer plainEntry .empty varsOs) systemVars).find n =
      (beneath varsOs systemVars n).map fun kv => baseEntry kv.1 kv.2 := by
  have hkey : ∀ kv old, (plainEntry kv old).preferredKey = kv.1 := fun _ _ => rfl
  rw [find_layer hkey hsystem, find_layer hkey hvars, Envs.find_empty, beneath]
  cases named systemVars n with
  | some kv => rfl
  | none => cases named varsOs n <;> rfl

theorem find_getBaseEnv {varsOs : List (WinStr × WinStr)} {reg : Registry} (hvars : Distinct varsOs)
    (hsystem : Distinct (readable reg reg.localMachine)) (huser : Distinct (userVars reg))
    (n : WinStr) :
    (getBaseEnv varsOs reg).find n = layered varsOs (systemVars reg) (userVars reg) n := by
  have hsystem : Distinct (systemVars reg) := hsystem.filter notUsername
  have hkey : ∀ kv old, (userEntry kv old).preferredKey = kv.1 := fun _ _ => rfl
  rw [getBaseEnv_eq, find_layer hkey huser, find_beneath hvars hsystem, layered]
  cases named (userVars reg) n with
  | none => cases beneath varsOs (systemVars reg) n <;> rfl
  | some kv =>
    dsimp only [userEntry]
    cases beneath varsOs (systemVars reg) n with
    | none => simp
    | some earlier =>
      dsimp only [Option.map_some]
      cases eqIgnoreAsciiCase kv.1 (wide "path") <;> rfl

/-- Every entry of the three layers is marked as one of the base environment. -/
theorem isFromBaseEnv_of_layered {varsOs systemVars userVars : List (WinStr × WinStr)} {n : WinStr}
    {e : EnvEntry WinStr} (h : layered varsOs systemVars userVars n = some e) :
    e.isFromBaseEnv = true := by
  rw [layered] at h
  split at h
  · split at h <;> cases h <;> rfl
  · cases h; rfl
  · cases h; rfl
  · cases h

theorem isSome_named {vars : List (WinStr × WinStr)} {n : WinStr} :
    (named vars n).isSome = true ↔ ∃ kv ∈ vars, mapKey kv.1 = mapKey n := by
  simp [named]

/-- A name has an entry exactly when one of the layers has it. -/
theorem isSome_layered {varsOs systemVars userVars : List (WinStr × WinStr)} {n : WinStr} :
    (layered varsOs systemVars userVars n).isSome = true ↔
      ∃ kv ∈ varsOs ++ systemVars ++ userVars, mapKey kv.1 = mapKey n := by
  have hsome : (layered varsOs systemVars userVars n).isSome =
      ((named varsOs n).isSome || (named systemVars n).isSome || (named userVars n).isSome) := by
    rw [layered, beneath]
    cases named userVars n with
    | none => cases named systemVars n <;> cases named varsOs n <;> rfl
    | some kv =>
      cases named systemVars n with
      | some earlier => cases named varsOs n <;> dsimp only [Option.or] <;> split <;> rfl
      | none =>
        cases named varsOs n with
        | none => rfl
        | some earlier => dsimp only [Option.or]; split <;> rfl
  rw [hsome]
  simp only [Bool.or_eq_true, isSome_named, List.mem_append, or_and_right, exists_or]

/-- A builder lists no extra variables as long as its environment is a base environment. -/
theorem iterExtraEnvAsStr_eq_nil {b : Builder}
    (h : ∀ n e, b.envs.find n = some e → e.isFromBaseEnv = true) : b.iterExtraEnvAsStr = [] := by
  rw [List.eq_nil_iff_forall_not_mem]
  intro kv hkv
  obtain ⟨e, he, hflag, -⟩ := mem_iterExtraEnvAsStr.mp hkv
  rw [h _ e (Envs.mem_values.mp he)] at hflag
  cases hflag

/-- The base environment has an entry for the names of the process, of the machine except
`username`, and of the user: that of the last of these layers that has the name, the user's
`PATH` coming after the value that it replaces. -/
theorem base_env_layers (varsOs : List (WinStr × WinStr)) (reg : Registry) (hvars : Distinct varsOs)
    (hsystem : Distinct (readable reg reg.localMachine)) (huser : Distinct (userVars reg)) :
    let env := getBaseEnv varsOs reg
    (∀ n, env.find n = layered varsOs (systemVars reg) (userVars reg) n) ∧
    (∀ k : WinStr, env.map[k]?.isSome = true ↔
      ∃ kv ∈ varsOs ++ systemVars reg ++ userVars reg, mapKey kv.1 = k) ∧
    (∀ (k : WinStr) (e : EnvEntry WinStr), env.map[k]? = some e →
      k = mapKey e.preferredKey ∧ e.isFromBaseEnv = true) ∧
    ∀ program args, (CommandBuilder.new program env ()).iterExtraEnvAsStr = [] ∧
      (CommandBuilder.fromArgv args env ()).iterExtraEnvAsStr = [] ∧
      (CommandBuilder.newDefaultProg env ()).iterExtraEnvAsStr = [] := by
  intro env
  have hfind : ∀ n, env.find n = layered varsOs (systemVars reg) (userVars reg) n :=
    find_getBaseEnv hvars hsystem huser
  have hbase : ∀ n e, env.find n = some e → e.isFromBaseEnv = true := by
    intro n e h
    rw [hfind] at h
    exact isFromBaseEnv_of_layered h
  have hkeyed : ∀ (k : WinStr) (e : EnvEntry WinStr), env.map[k]? = some e → k = mapKey e.preferredKey :=
    env.keyed
  refine ⟨hfind, ?_, ?_, ?_⟩
  · intro k
    refine ⟨?_, ?_⟩
    · intro h
      obtain ⟨e, he⟩ := Option.isSome_iff_exists.mp h
      obtain rfl := hkeyed k e he
      have hn : env.find e.preferredKey = some e := he
      rw [hfind] at hn
      exact isSome_layered.mp (by rw [hn]; rfl)
    · intro h
      obtain ⟨kv, hmem, rfl⟩ := h
      have hsome := isSome_layered.mpr ⟨kv, hmem, rfl⟩
      rwa [← hfind] at hsome
  · intro k e he
    obtain rfl := hkeyed k e he
    exact ⟨rfl, hbase e.preferredKey e he⟩
  · intro program args
    exact ⟨iterExtraEnvAsStr_eq_nil hbase, iterExtraEnvAsStr_eq_nil hbase,
      iterExtraEnvAsStr_eq_nil hbase⟩

end

/-- A registry value of text. -/
def textValue (text : WinStr) : RegValue :=
  { vtype := .other 1, bytes := text.flatMap fun c => [c.toUInt8, (c / 0x100).toUInt8] }

/-- A machine with a `PATH` and a `USERNAME`, and a user with a `path`. -/
def somePaths : Registry where
  localMachine := .ok [.ok (wide "PATH", textValue (wide "C:\\s")), .error 5,
    .ok (wide "USERNAME", textValue (wide "SYSTEM"))]
  currentUser := .ok [.ok (wide "path", textValue (wide "C:\\u"))]
  expandEnvironmentStrings s := s
  fromRegValue value := some (units value.bytes)

theorem base_env_layers_paths :
    letI := asciiLowercase
    let env := getBaseEnv [(wide "Path", wide "C:\\w"), (wide "UserName", wide "me")] somePaths
    env.find (wide "PATH") = some (baseEntry (wide "path") (wide "C:\\s;C:\\u")) ∧
      env.find (wide "USERNAME") = some (baseEntry (wide "UserName") (wide "me")) := by
  let := asciiLowercase
  obtain ⟨hfind, -⟩ := base_env_layers [(wide "Path", wide "C:\\w"), (wide "UserName", wide "me")]
    somePaths (by unfold Distinct; decide) (by unfold Distinct; decide) (by unfold Distinct; decide)
  exact ⟨(hfind _).trans (by decide), (hfind _).trans (by decide)⟩

end Xpty.Win
