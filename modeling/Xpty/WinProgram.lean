import Xpty.BuilderHistory
import Xpty.ChildDirectory
import Xpty.WinBaseEnv
import Xpty.WinLaunch

/- What a program on Windows is started with, from the calls that were made on its builder
   to what it reads: the one call of `CreateProcessW`, whose line is taken apart by the
   program's runtime and whose block is its environment. `StartedWith` says what either
   yields in terms of the builder's history.

   Nothing is checked on the way but the arguments, for NULs: that the line reads back
   depends on the program's name, and that the block does on the names and values. -/
namespace Xpty.WinProgram

open BuilderHistory Win

/-- Windows has no calls of its own. -/
abbrev History := BuilderHistory.History WinStr Empty

/-- The variables of the process, and the registry. -/
abbrev Now := List (WinStr × WinStr) × Registry

abbrev Act := BuilderHistory.Act WinStr Empty Now

/-- The parameters of `CreateProcessW`. -/
structure Call where
  application : WinStr
  line : WinStr
  block : WinStr
  dir : Option WinStr

def Call.make (m : Machine) (call : Call) : Except Errno Nat :=
  m.createProcess call.application call.line call.block call.dir

section
variable [ToLowercase]

theorem inherited_layer {make : WinStr × WinStr → Option (EnvEntry WinStr) → EnvEntry WinStr}
    (hmake : ∀ kv old, (make kv old).isFromBaseEnv = true) {env : Envs WinStr} (henv : Inherited env)
    (vars : List (WinStr × WinStr)) : Inherited (layer make env vars) := by
  refine List.foldlRecOn vars _ henv fun env henv kv _ => ?_
  intro n e hn
  rw [Envs.find_insert] at hn
  split at hn
  · cases hn
    exact hmake _ _
  · exact henv n e hn

theorem inherited_getBaseEnv (varsOs : List (WinStr × WinStr)) (reg : Registry) :
    Inherited (getBaseEnv varsOs reg) := by
  have hempty : Inherited (Envs.empty : Envs WinStr) := by
    intro n e hn
    rw [Envs.find_empty] at hn
    cases hn
  have hplain : ∀ kv old, (plainEntry kv old).isFromBaseEnv = true := fun _ _ => rfl
  have huser : ∀ kv old, (userEntry kv old).isFromBaseEnv = true := fun _ _ => rfl
  have hvars := inherited_layer hplain hempty varsOs
  have hsystem := inherited_layer hplain hvars (systemVars reg)
  rw [getBaseEnv_eq]
  exact inherited_layer huser hsystem (userVars reg)

def platform : Platform WinStr Unit Empty Now where
  fresh := ()
  getBaseEnv now := getBaseEnv now.1 now.2
  own b _ := b
  clone b := b
  inherited now := inherited_getBaseEnv now.1 now.2
  own_eq _ _ := rfl
  clone_eq _ := rfl

/-! The program. -/

/-- The name below each entry of `PATH`, and that with each extension that can be used. -/
def candidates (path pathExt : Option WinStr) (exe : WinStr) : List WinStr :=
  ((path.map splitPaths).getD []).flatMap fun dir => join dir exe ::
    ((splitPaths (pathExt.getD (wide ".EXE"))).filter usableExt).map fun ext =>
      withExtension (join dir exe) ext.tail

/-- `ComSpec` by default, or else the first candidate that exists, or the name. -/
def program (w : World) (var : WinStr → Option WinStr) : List WinStr → WinStr
  | [] => (var (wide "ComSpec")).getD (wide "cmd.exe")
  | exe :: _ => FirstHit.firstOr w.pathExists exe
      (candidates (var (wide "PATH")) (var (wide "PATHEXT")) exe)

theorem filterMap_withPathExt (candidate : WinStr) : ∀ exts : List WinStr,
    (exts.map (withPathExt candidate)).filterMap Except.toOption =
      (exts.filter usableExt).map fun ext => withExtension candidate ext.tail
  | [] => rfl
  | ext :: exts => by
    rw [List.map_cons]
    cases h : usableExt ext with
    | true =>
      rw [withPathExt_usable h, List.filter_cons_of_pos h, List.map_cons]
      exact congrArg _ (filterMap_withPathExt candidate exts)
    | false =>
      obtain ⟨e, he⟩ : ∃ e, withPathExt candidate ext = .error e := withPathExt_unusable h
      rw [he, List.filter_cons_of_neg (by rw [h]; exact Bool.false_ne_true)]
      exact filterMap_withPathExt candidate exts

theorem filterMap_attempts (b : Builder) (exe : WinStr) :
    (attempts b exe).filterMap Except.toOption =
      candidates (b.getEnv (wide "PATH")) (b.getEnv (wide "PATHEXT")) exe := by
  have hdirs : pathDirs b = ((b.getEnv (wide "PATH")).map splitPaths).getD [] := by
    rw [pathDirs]
    cases b.getEnv (wide "PATH") <;> rfl
  rw [attempts, candidates, List.filterMap_flatMap, hdirs, ← pathExt]
  refine List.flatMap_congr fun dir _ => ?_
  exact congrArg (join dir exe :: ·) (filterMap_withPathExt (join dir exe) (pathExt b))

theorem resolveExe_eq {w : World} {b : Builder} {prog : WinStr} (h : resolveExe w b = .ok prog) :
    prog = program w b.getEnv b.args := by
  rw [resolveExe] at h
  cases hargs : b.args with
  | nil =>
    rw [hargs] at h
    cases h
    rfl
  | cons exe args =>
    rw [hargs] at h
    replace h : searchPath w b exe = .ok prog := h
    rw [searchPath_eq] at h
    cases hscan : FirstHit.scan w.pathExists (attempts b exe) with
    | error e =>
      rw [hscan] at h
      cases h
    | ok found =>
      rw [hscan] at h
      rw [program, FirstHit.firstOr, ← filterMap_attempts, FirstHit.find?_of_scan hscan]
      exact (Except.ok.inj h).symm

/-! The block. -/

theorem pairs_congr {b b' : Builder} (h : b.envs = b'.envs) : pairs b = pairs b' := by
  rw [pairs, pairs, h]

/-- A name is in the block with the value that `get_env` returns, whichever its spelling. -/
theorem mem_pairs_getEnv {b : Builder} {n v : WinStr} :
    (∃ k, (k, v) ∈ pairs b ∧ mapKey k = mapKey n) ↔ b.getEnv n = some v := by
  rw [CommandBuilder.getEnv, Option.map_eq_some_iff]
  refine ⟨?_, ?_⟩
  · intro h
    obtain ⟨k, hkv, hkey⟩ := h
    obtain ⟨e, he, -, hv⟩ := mem_pairs.mp hkv
    exact ⟨e, (find_congr hkey).symm.trans he, hv⟩
  · intro h
    obtain ⟨e, he, hv⟩ := h
    have hkey := Envs.mapKey_of_find he
    exact ⟨e.preferredKey, mem_pairs.mpr ⟨e, (find_congr hkey).symm.trans he, rfl, hv⟩, hkey.symm⟩

/-- Nothing that is not well formed gets into the environment. -/
def WellFormedHistory (base : Envs WinStr) (h : History) : Prop :=
  WellFormedEnv (.newDefaultProg base ()) ∧ ∀ op ∈ h.deeds.filterMap Deed.envOp, WellFormedOp op

theorem wellFormedEnv_replay {base : Envs WinStr} {h : History} (hwf : WellFormedHistory base h) :
    WellFormedEnv (h.replay platform base) := by
  have hstart : pairs (h.start.build platform base) = pairs (.newDefaultProg base ()) :=
    pairs_congr (by cases h.start <;> rfl)
  have hrun := wellFormedEnv_run (b := h.start.build platform base)
    (by rw [WellFormedEnv, hstart]; exact hwf.1) hwf.2
  rw [WellFormedEnv, pairs_congr (envs_replay base h)]
  exact hrun

/-! The call. -/

/-- What a history says of the call that starts its program. -/
structure StartedWith (base : Envs WinStr) (h : History) (w : World) (call : Call) : Prop where
  application : call.application = program w (h.var base) h.args ++ [0]
  /-- An argument with a NUL is refused. -/
  checked : ∀ arg ∈ h.args.tail, 0 ∉ arg
  /-- Either reader takes the line apart into the program and the arguments, where the
  program is one that Windows can start. -/
  argv : ∀ prog, prog = program w (h.var base) h.args → QUOTE ∉ prog → 0 ∉ prog →
    prog.getLast? ≠ some BACKSLASH → ∃ line, call.line = line ++ [0] ∧ 0 ∉ line ∧
      ∀ stays, commandLineToArgv stays line = prog :: h.args.tail
  /-- The block reads back as one value for each name, that of the history. -/
  vars : WellFormedHistory base h → ∃ vars, decodeBlock call.block = some (vars, []) ∧
    (vars.Pairwise fun x y => mapKey x.1 ≠ mapKey y.1) ∧
      ∀ n v, (∃ k, (k, v) ∈ vars ∧ mapKey k = mapKey n) ↔ h.var base n = some v
  dir : call.dir = ((h.cwd.filter w.isDir).or ((h.var base (wide "USERPROFILE")).filter w.isDir)).map
    fun dir => ChildDirectory.completed w dir ++ [0]

theorem spawnCommand_ok {m : Machine} {w : World} {b : Builder} {proc : Nat}
    (h : spawnCommand m w b = .ok proc) : ∃ exe line, cmdline w b = .ok (exe, line) ∧
      m.createProcess exe line (environmentBlock b) (currentDirectory w b) = .ok proc := by
  rw [spawnCommand] at h
  cases hlist : attributeList m with
  | error e =>
    rw [hlist] at h
    cases h
  | ok u =>
    rw [hlist] at h
    cases hcmd : cmdline w b with
    | error f =>
      rw [hcmd] at h
      cases h
    | ok out =>
      obtain ⟨exe, line⟩ := out
      rw [hcmd] at h
      simp only [bind, Except.bind, Except.mapError] at h
      cases hcreate : m.createProcess exe line (environmentBlock b) (currentDirectory w b) with
      | error e =>
        rw [hcreate] at h
        cases h
      | ok proc' =>
        rw [hcreate] at h
        cases h
        exact ⟨exe, line, rfl, hcreate⟩

theorem startedWith {now : Now} {h : History} {b : Builder}
    (hreplay : b = h.replay platform (getBaseEnv now.1 now.2)) {w : World} {exe line : WinStr}
    (hcmd : cmdline w b = .ok (exe, line)) : StartedWith (getBaseEnv now.1 now.2) h w
      ⟨exe, line, environmentBlock b, currentDirectory w b⟩ := by
  have hb : FromHistory (getBaseEnv now.1 now.2) h b :=
    hreplay ▸ @fromHistory_replay _ _ _ _ _ _ platform now h
  have hvar : b.getEnv = h.var (getBaseEnv now.1 now.2) := funext hb.env
  obtain ⟨prog, hres, hargs, rfl, rfl⟩ := cmdline_ok.mp hcmd
  have hprog := resolveExe_eq hres
  rw [hvar, hb.args] at hprog
  rw [hb.args, List.drop_one] at hargs
  refine ⟨?_, hargs, ?_, ?_, ?_⟩
  · rw [hprog]
  · rintro _ rfl hq h0 hlast
    rw [← hprog] at hq h0 hlast ⊢
    refine ⟨_, rfl, ?_, fun stays => ?_⟩
    · rw [hb.args, List.drop_one]
      exact nul_not_mem_line h0 hargs
    · rw [hb.args, List.drop_one]
      exact commandLineToArgv_line _ hq hlast
  · intro hwf
    refine ⟨pairs b, (decode_environmentBlock_iff b).mpr ?_, pairwise_mapKey b, fun n v => ?_⟩
    · exact hreplay ▸ wellFormedEnv_replay hwf
    · rw [mem_pairs_getEnv, hb.env]
  · rw [ChildDirectory.currentDirectory_eq, ChildDirectory.existingChoice, hb.cwd, hb.env]

/-- In any run of the parent, whichever builder is spawned from: the call that starts the
program says what the calls on that builder say, over the base environment that the parent
had when it made its first. -/
theorem call_from_history {now : Now} {as : List Act} {i : Nat} {b : Builder} {h : History}
    (hb : (builders platform now as)[i]? = some b) (hh : (histories as)[i]? = some h)
    {m : Machine} {w : World} {proc : Nat} (hspawn : spawnCommand m w b = .ok proc) :
    ∃ now' call, atFirst now as = some now' ∧ call.make m = .ok proc ∧
      StartedWith (getBaseEnv now'.1 now'.2) h w call := by
  obtain ⟨now', hnow, hreplay⟩ := replay_of_getElem? hb hh
  obtain ⟨exe, line, hcmd, hcreate⟩ := spawnCommand_ok hspawn
  exact ⟨now', ⟨exe, line, environmentBlock b, currentDirectory w b⟩, hnow, hcreate,
    startedWith hreplay hcmd⟩

end

/-- The program is found with the second extension, the first being of no use before it. -/
def tools : World where
  pathExists p := p == wide "C:\\s\\tool.EXE"
  isDir p := p == wide "src"
  currentDir := some (wide "C:\\w")
  exists_nul p h0 := by
    rw [beq_eq_false_iff_ne]
    rintro rfl
    exact absurd h0 (by decide)

/-- A builder that is edited and given a variable of the base environment in another
spelling; the registry has changed when it is given a directory. -/
def parent : List Act :=
  [.make (.new (wide "tool")), .outside ([], { somePaths with localMachine := .error 5 }),
    .on 0 (.call (.arg (wide "-x"))), .on 0 (.argvMut [wide "tool"]),
    .on 0 (.call (.env (.env (wide "USERNAME") (wide "you")))),
    .on 0 (.call (.cwd (wide "src"))), .on 0 (.call (.args [wide "a\"b", wide "c d\\"]))]

/-- The variables of the process at its start. -/
def processVars : List (WinStr × WinStr) :=
  [(wide "UserName", wide "me"), (wide "PATHEXT", wide ".COM;.EXE")]

theorem edited_started_with : letI := asciiLowercase
    ∃ (h : History) (call : Call), (histories parent)[0]? = some h ∧ call.make willing = .ok 1 ∧
      StartedWith (getBaseEnv processVars somePaths) h tools call ∧
        ∃ line, call.line = line ++ [0] ∧
          commandLineToArgv true line = [wide "C:\\s\\tool.EXE", wide "a\"b", wide "c d\\"] := by
  let := asciiLowercase
  have hb : (builders platform (processVars, somePaths) parent)[0]? = some _ := rfl
  have hh : (histories parent)[0]? = some _ := rfl
  obtain ⟨now, call, hnow, hmake, hstarted⟩ := call_from_history hb hh
    (rfl : spawnCommand willing tools _ = .ok 1)
  cases hnow
  obtain ⟨line, hline, -, hargv⟩ := hstarted.argv (wide "C:\\s\\tool.EXE") (by decide) (by decide)
    (by decide) (by decide)
  exact ⟨_, call, hh, hmake, hstarted, line, hline, hargv true⟩

end Xpty.WinProgram
