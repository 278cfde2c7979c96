import Xpty.Builder
import Xpty.UnixPath

/- `CommandBuilder::as_command` on Unix and what it calls: `search_path`, `get_shell`
   and `get_home_dir`, with their error messages.

   `search_path` tests its candidates from the parent's working directory, and the
   child resolves the program after it has changed to the directory that
   `as_command` chose. `searchPath_relative` says which candidate is returned, and
   `executes_checked_iff` when the two readings of it denote the same file: not, in
   general, when the chosen directory is relative, for then it is entered twice. -/
namespace Xpty.Unix

/-- A `pre_exec` hook, as its call goes: the descriptors it closes and its result,
an error being the errno that std reports for it. -/
structure Hook where
  closes : List RawFd
  result : Except Errno Unit

/-- The fields of `CommandBuilder` that only Unix has. -/
structure UnixFields where
  umask : Option UInt32
  preExecHooks : List Hook

abbrev Builder := CommandBuilder UnixStr UnixFields

/-- `CommandBuilder::clone`: the hooks are not cloned. -/
def cloneBuilder (b : Builder) : Builder :=
  { b with unix := { b.unix with preExecHooks := [] } }

def preExec (b : Builder) (hook : Hook) : Builder :=
  { b with unix := { b.unix with preExecHooks := b.unix.preExecHooks ++ [hook] } }

/-- `std::process::Command`, as far as `as_command` sets it up. -/
structure Command where
  program : UnixStr
  arg0 : UnixStr
  args : List UnixStr
  currentDir : Option UnixStr
  /-- `env_clear` was called: nothing is inherited. -/
  envCleared : Bool
  vars : BTreeMap UnixStr UnixStr

/-- `Command::new`, `arg0` and `args`. -/
def Command.new (program arg0 : UnixStr) (args : List UnixStr) : Command :=
  { program, arg0, args, currentDir := none, envCleared := false, vars := ∅ }

def Command.envClear (cmd : Command) : Command := { cmd with envCleared := true, vars := ∅ }

/-- `Command::env` and `envs`: a later write to a key wins. -/
def Command.envs (cmd : Command) (vars : List (UnixStr × UnixStr)) : Command :=
  { cmd with vars := cmd.vars.insertMany vars }

variable {N : Type}

/-! The shell and the home directory. -/

/-- The free function `get_shell`. -/
def getPasswdShell (w : World N) : UnixStr :=
  match w.passwd with
  | none => bytes "/bin/sh"
  | some ent =>
    match toStr ent.pwShell with
    | none => bytes "/bin/sh"
    | some shell =>
      match w.access shell .X_OK with
      | .error _ => bytes "/bin/sh"
      | .ok () => shell

/-- `CommandBuilder::get_shell`. -/
def getShell (w : World N) (b : Builder) : UnixStr :=
  match (b.getEnv (bytes "SHELL")).bind toStr with
  | some shell =>
    match w.access shell .X_OK with
    | .ok () => shell
    | .error _ => getPasswdShell w
  | none => getPasswdShell w

def getHomeDir (w : World N) (b : Builder) : UnixStr :=
  match (b.getEnv (bytes "HOME")).bind toStr with
  | some home => home
  | none =>
    match w.passwd with
    | none => bytes "/"
    | some ent => (toStr ent.pwDir).getD (bytes "/")

/-! The search. -/

/-- The loop over the entries of `PATH`, with the messages collected so far. -/
def searchCandidates (w : Lookup) (exe cwd : UnixStr) :
    List (Message UnixStr) → List UnixStr → Except (List (Message UnixStr)) UnixStr
  | errors, [] => .error errors
  | errors, path :: paths =>
    let candidate := join (join cwd path) exe
    if w.isDir candidate then
      searchCandidates w exe cwd
        (errors ++ [[.display candidate, .text " exists but is a directory"]]) paths
    else if (w.access candidate .X_OK).isOk then .ok candidate
    else if (w.access candidate .F_OK).isOk then
      searchCandidates w exe cwd
        (errors ++ [[.display candidate, .text " exists but is not executable"]]) paths
    else searchCandidates w exe cwd errors paths

def pathResolution (exe : UnixStr) (errors : List (Message UnixStr)) : Error UnixStr :=
  .pathResolution ([.text "Unable to spawn ", .display exe, .text ": "] ++
    joinMessages [.text ".\n"] errors)

/-- `CommandBuilder::search_path`. -/
def searchPath (w : Lookup) (b : Builder) (exe cwd : UnixStr) : Except (Error UnixStr) UnixStr :=
  if !isAbsolute exe then
    if isCwdRelativePath exe then
      let absPath := join cwd exe
      if w.isDir absPath then .error (.isDirectory [.display absPath])
      else if (w.access absPath .X_OK).isOk then .ok absPath
      else if (w.access absPath .F_OK).isOk then .error (.notExecutable [.display absPath])
      else .error (.commandNotFound [.display absPath])
    else
      match b.getEnv (bytes "PATH") with
      | some path =>
        match searchCandidates w exe cwd [] (splitPaths path) with
        | .ok found => .ok found
        | .error errors =>
          .error (pathResolution exe
            (errors ++ [[.text "No viable candidates found in PATH ", .debug path]]))
      | none => .error (pathResolution exe [[.text "Unable to resolve the PATH"]])
  else if w.isDir exe then .error (.isDirectory [.display exe])
  else
    match w.access exe .X_OK with
    | .ok () => .ok exe
    | .error err =>
      if (w.access exe .F_OK).isOk then
        .error (.notExecutable [.display exe, .text " (", .errno err, .text ")"])
      else .error (.commandNotFound [.display exe, .text " (", .errno err, .text ")"])

/-! The command. -/

/-- The directory for the child: the configured one if it is a directory, or home. -/
def chosenDir (w : World N) (b : Builder) : UnixStr := (b.cwd.filter w.isDir).getD (getHomeDir w b)

/-- `shell.rsplit('/').next()`: what stands after the last `/`. -/
def basename (shell : UnixStr) : UnixStr := (shell.reverse.takeWhile (· != SEP)).reverse

/-- `CommandBuilder::as_command`. -/
def asCommand (w : World N) (b : Builder) : Except (Error UnixStr) Command := do
  let dir := chosenDir w b
  let shell := getShell w b
  let cmd ← match b.args with
    | [] => .ok (Command.new shell (bytes "-" ++ basename shell) [])
    | argv0 :: args => do
      let resolved ← searchPath w b argv0 dir
      .ok (Command.new resolved argv0 args)
  let cmd := ({ cmd with currentDir := some dir } : Command)
  let cmd := cmd.envClear.envs [(bytes "SHELL", shell)]
  .ok (cmd.envs (b.envs.values.map fun entry => (entry.preferredKey, entry.value)))

/-! What the search returns. -/

/-- A candidate is taken when it is not a directory and `access` allows its execution. -/
def usable (w : Lookup) (p : UnixStr) : Bool := !w.isDir p && (w.access p .X_OK).isOk

theorem isOk_access {w : World N} {p : UnixStr} : (w.access p .X_OK).isOk = true ↔
    ∃ n, w.fs.resolve w.cwd p = .ok n ∧ w.fs.xOk n = true := by
  rw [← World.access_X_OK]
  cases w.access p .X_OK with
  | ok u => exact iff_of_true rfl rfl
  | error e => exact iff_of_false (by simp [Except.isOk, Except.toBool]) (by simp)

theorem usable_iff {w : World N} {p : UnixStr} : usable w p = true ↔
    ∃ n, w.fs.resolve w.cwd p = .ok n ∧ w.fs.isDir n = false ∧ w.fs.xOk n = true := by
  rw [usable, World.lookup_isDir, World.lookup_access, Bool.and_eq_true, isOk_access]
  cases h : w.fs.resolve w.cwd p with
  | ok n => simp [World.isDir, h]
  | error e => simp

theorem searchCandidates_ok {w : Lookup} {exe cwd p : UnixStr} :
    ∀ (paths : List UnixStr) (errors : List (Message UnixStr)),
      searchCandidates w exe cwd errors paths = .ok p ↔
        ∃ path, paths.find? (fun path => usable w (join (join cwd path) exe)) = some path ∧
          p = join (join cwd path) exe
  | [], errors => by simp [searchCandidates]
  | path :: paths, errors => by
    rw [searchCandidates, List.find?_cons, usable]
    cases hd : w.isDir (join (join cwd path) exe) with
    | true =>
      -- a directory is passed over, whatever `access` says of it
      simp only [if_true, Bool.not_true, Bool.false_and]
      exact searchCandidates_ok paths _
    | false =>
      cases hx : (w.access (join (join cwd path) exe) .X_OK).isOk with
      | true => simp [eq_comm]
      | false =>
        simp only [Bool.false_eq_true, if_false, Bool.not_false, Bool.and_false]
        split
        · exact searchCandidates_ok paths _
        · exact searchCandidates_ok paths _

/-- The path below `dir` that a relative program name stands for: the name itself
when it starts with `.` or `..`, otherwise the name below the first entry of `PATH`
that has a usable file there. -/
def programBelow (w : Lookup) (b : Builder) (exe dir : UnixStr) : Option UnixStr :=
  if isCwdRelativePath exe then
    if usable w (join dir exe) then some exe else none
  else
    match b.getEnv (bytes "PATH") with
    | some path =>
      ((splitPaths path).find? fun path => usable w (join (join dir path) exe)).map (join · exe)
    | none => none

theorem programBelow_usable {w : Lookup} {b : Builder} {exe dir rel : UnixStr}
    (h : programBelow w b exe dir = some rel) : usable w (join dir rel) = true := by
  rw [programBelow] at h
  split at h
  · split at h
    · rename_i hu
      rwa [← Option.some.inj h]
    · cases h
  · split at h
    · obtain ⟨path, hfind, rfl⟩ := Option.map_eq_some_iff.mp h
      rw [← join_assoc]
      exact List.find?_some (p := fun path => usable w (join (join dir path) exe)) hfind
    · cases h

theorem searchPath_relative {w : Lookup} {b : Builder} {exe dir p : UnixStr}
    (h : isAbsolute exe = false) : searchPath w b exe dir = .ok p ↔
      ∃ rel, programBelow w b exe dir = some rel ∧ p = join dir rel := by
  rw [searchPath, if_pos (by simp [h]), programBelow]
  cases hc : isCwdRelativePath exe with
  | true =>
    simp only [if_true, usable]
    by_cases hd : w.isDir (join dir exe) = true
    · simp [hd]
    · by_cases hx : (w.access (join dir exe) .X_OK).isOk = true
      · simp [hd, hx, eq_comm]
      · simp only [hd, hx, Bool.false_eq_true, if_false]
        split <;> simp
  | false =>
    simp only [Bool.false_eq_true, if_false]
    cases b.getEnv (bytes "PATH") with
    | none => simp
    | some path =>
      have hs : searchCandidates w exe dir [] (splitPaths path) = .ok p ↔ _ :=
        searchCandidates_ok (splitPaths path) []
      simp only [Option.map_eq_some_iff, exists_exists_and_eq_and, ← join_assoc]
      rw [← hs]
      cases searchCandidates w exe dir [] (splitPaths path) <;> simp

theorem searchPath_absolute {w : Lookup} {b : Builder} {exe dir p : UnixStr}
    (h : isAbsolute exe = true) :
    searchPath w b exe dir = .ok p ↔ usable w exe = true ∧ p = exe := by
  rw [searchPath, if_neg (by simp [h]), usable]
  cases w.isDir exe with
  | true => simp
  | false =>
    cases w.access exe .X_OK with
    | ok u => simp [Except.isOk, Except.toBool, eq_comm]
    | error err =>
      simp only [Bool.false_eq_true, if_false]
      split <;> simp [Except.isOk, Except.toBool]

/-! What the command is. -/

/-- The variables that `as_command` sets, in the order it sets them. -/
def childVars (w : World N) (b : Builder) : BTreeMap UnixStr UnixStr :=
  ((∅ : BTreeMap UnixStr UnixStr).insertMany [(bytes "SHELL", getShell w b)]).insertMany
    (b.envs.values.map fun entry => (entry.preferredKey, entry.value))

theorem asCommand_prog {w : World N} {b : Builder} {exe : UnixStr} {args : List UnixStr}
    (h : b.args = exe :: args) : asCommand w b =
      (searchPath w b exe (chosenDir w b)).map fun resolved =>
        { program := resolved, arg0 := exe, args, currentDir := some (chosenDir w b),
          envCleared := true, vars := childVars w b } := by
  rw [asCommand, h]
  dsimp only
  cases searchPath w b exe (chosenDir w b) <;> rfl

theorem asCommand_default {w : World N} {b : Builder} (h : b.args = []) : asCommand w b =
    .ok { program := getShell w b, arg0 := bytes "-" ++ basename (getShell w b), args := [],
          currentDir := some (chosenDir w b), envCleared := true, vars := childVars w b } := by
  rw [asCommand, h]
  rfl

/-- Whatever the program, the child starts in the chosen directory, inherits nothing and
has the variables `childVars`. -/
theorem asCommand_setup {w : World N} {b : Builder} {cmd : Command} (h : asCommand w b = .ok cmd) :
    cmd.currentDir = some (chosenDir w b) ∧ cmd.envCleared = true ∧ cmd.vars = childVars w b := by
  cases hargs : b.args with
  | nil =>
    rw [asCommand_default hargs] at h
    cases h
    exact ⟨rfl, rfl, rfl⟩
  | cons exe args =>
    rw [asCommand_prog hargs] at h
    cases hs : searchPath w b exe (chosenDir w b) with
    | error e => rw [hs] at h; cases h
    | ok p =>
      rw [hs] at h
      cases h
      exact ⟨rfl, rfl, rfl⟩

/-! The file that is executed. -/

/-- The program of every command that `as_command` returns is a file that `access`
allowed to execute from the parent's directory, and the same one from the directory
that the child enters first. -/
def ExecutesChecked (w : World N) (b : Builder) : Prop :=
  ∀ cmd dir, asCommand w b = .ok cmd → cmd.currentDir = some dir →
    ∃ n, w.fs.resolve w.cwd cmd.program = .ok n ∧ w.fs.xOk n = true ∧
      ∀ d, w.fs.resolve w.cwd dir = .ok d → w.fs.resolve d cmd.program = .ok n

/-- `dir`, entered a second time from itself, leads to the same file `rel`. -/
def SameAgain (w : World N) (dir rel : UnixStr) : Prop :=
  ∀ d, w.fs.resolve w.cwd dir = .ok d →
    ((w.fs.resolve d dir).bind fun d' => w.fs.resolve d' rel) = w.fs.resolve d rel

theorem executesChecked_prog {w : World N} {b : Builder} {exe : UnixStr} {args : List UnixStr} :
    ExecutesChecked w { b with args := exe :: args } ↔
      ∀ p, searchPath w b exe (chosenDir w b) = .ok p →
        ∃ n, w.fs.resolve w.cwd p = .ok n ∧ w.fs.xOk n = true ∧
          ∀ d, w.fs.resolve w.cwd (chosenDir w b) = .ok d → w.fs.resolve d p = .ok n := by
  have hcmd := asCommand_prog (w := w) (b := { b with args := exe :: args }) rfl
  have hdir : chosenDir w { b with args := exe :: args } = chosenDir w b := rfl
  have hsearch : searchPath w { b with args := exe :: args } exe (chosenDir w b) =
      searchPath w b exe (chosenDir w b) := rfl
  rw [hdir, hsearch] at hcmd
  refine ⟨?_, ?_⟩
  · intro h p hp
    rw [hp] at hcmd
    exact h _ _ hcmd rfl
  · intro h cmd dir hc hd
    rw [hcmd] at hc
    cases hs : searchPath w b exe (chosenDir w b) with
    | error e => rw [hs] at hc; cases hc
    | ok p =>
      rw [hs] at hc
      cases hc
      cases hd
      exact h p hs

/-- A usable path below a directory that exists is not the empty one: with nothing
joined to it the directory itself would be tested. -/
theorem rel_ne_nil {w : World N} {dir rel : UnixStr} {d : N}
    (hd : w.fs.resolve w.cwd dir = .ok d) (h : usable w (join dir rel) = true) : rel ≠ [] := by
  intro h
  subst h
  have hdir : dir ≠ [] := by
    intro h
    subst h
    rw [w.fs.resolve_nil] at hd
    cases hd
  obtain ⟨n, hn, hdn, -⟩ := usable_iff.mp h
  rw [w.fs.resolve_slash _ _ _ hdir hn] at hdn
  cases hdn

/-- The relative case: the child enters `dir` and then resolves `dir/rel` from it. -/
theorem resolve_below {w : World N} {dir rel : UnixStr} {d : N}
    (hd : w.fs.resolve w.cwd dir = .ok d) (hrel : rel ≠ []) (hr : isAbsolute rel = false) :
    w.fs.resolve w.cwd (join dir rel) = w.fs.resolve d rel ∧
      w.fs.resolve d (join dir rel) =
        (w.fs.resolve d dir).bind fun d' => w.fs.resolve d' rel := by
  have hdir : dir ≠ [] := by
    intro h
    subst h
    rw [w.fs.resolve_nil] at hd
    cases hd
  refine ⟨?_, ?_⟩
  · rw [w.fs.resolve_join _ _ _ hdir hrel hr, hd]
    rfl
  · exact w.fs.resolve_join _ _ _ hdir hrel hr

/-- Below a directory, the child finds what the parent tested if it enters the directory
twice to no effect. -/
theorem sameAgain_iff {w : World N} {dir rel : UnixStr} (hu : usable w (join dir rel) = true)
    (hr : isAbsolute rel = false) : SameAgain w dir rel ↔ ∀ d, w.fs.resolve w.cwd dir = .ok d →
      w.fs.resolve d (join dir rel) = w.fs.resolve w.cwd (join dir rel) := by
  refine forall₂_congr fun d hd => ?_
  obtain ⟨hparent, hchild⟩ := resolve_below hd (rel_ne_nil hd hu) hr
  rw [hparent, hchild]

/-- The program executed is the one that was checked exactly when the program or the
chosen directory is absolute, or the path found below the directory is (its entry of
`PATH` is absolute), or else that path leads to the same file once the directory has
been entered twice. -/
theorem executes_checked_iff (w : World N) (b : Builder) (exe : UnixStr) (args : List UnixStr) :
    ExecutesChecked w { b with args := exe :: args } ↔
      isAbsolute exe = true ∨ isAbsolute (chosenDir w b) = true ∨
        ∀ rel, programBelow w b exe (chosenDir w b) = some rel →
          isAbsolute rel = true ∨ SameAgain w (chosenDir w b) rel := by
  rw [executesChecked_prog]
  generalize chosenDir w b = dir
  cases he : isAbsolute exe with
  | true =>
    refine iff_of_true (fun p hp => ?_) (.inl rfl)
    obtain ⟨hu, rfl⟩ := (searchPath_absolute he).mp hp
    obtain ⟨n, hn, -, hx⟩ := usable_iff.mp hu
    exact ⟨n, hn, hx, fun d _ => (w.fs.resolve_absolute d w.cwd _ he).trans hn⟩
  | false =>
    rw [or_iff_right Bool.false_ne_true]
    refine ⟨?_, ?_⟩
    · intro h
      refine .inr fun rel hbelow => ?_
      cases hr : isAbsolute rel with
      | true => exact .inl rfl
      | false =>
        obtain ⟨n, hn, -, hchild⟩ := h _ ((searchPath_relative he).mpr ⟨rel, hbelow, rfl⟩)
        refine .inr ((sameAgain_iff (programBelow_usable hbelow) hr).mpr fun d hd => ?_)
        rw [hchild d hd, hn]
    · intro h p hp
      obtain ⟨rel, hbelow, rfl⟩ := (searchPath_relative he).mp hp
      have hu := programBelow_usable hbelow
      obtain ⟨n, hn, -, hx⟩ := usable_iff.mp hu
      refine ⟨n, hn, hx, fun d hd => ?_⟩
      cases hj : isAbsolute (join dir rel) with
      | true => exact (w.fs.resolve_absolute d w.cwd _ hj).trans hn
      | false =>
        -- neither part is absolute, so the first two ways out are closed
        rw [isAbsolute_join, Bool.or_eq_false_iff] at hj
        have hsame : SameAgain w dir rel := by
          rcases h with h | h
          · rw [hj.1] at h; cases h
          · exact (h rel hbelow).resolve_left (by simp [hj.2])
        rw [(sameAgain_iff hu hj.2).mp hsame d hd, hn]

/-- Below `/h`, the executables `sub/x` and `sub/sub/x`. -/
def twoFiles : TreeFs :=
  [([bytes "h"], .dir), ([bytes "h", bytes "sub"], .dir),
   ([bytes "h", bytes "sub", bytes "x"], .file true),
   ([bytes "h", bytes "sub", bytes "sub"], .dir),
   ([bytes "h", bytes "sub", bytes "sub", bytes "x"], .file true)]

def inH : World TreeFs.Node := { fs := twoFiles.toUnixFs, cwd := [bytes "h"], passwd := none }

/-- `./x` with the relative working directory `sub`. -/
def dotX : Builder :=
  { args := [bytes "./x"], envs := .empty, cwd := some (bytes "sub"), controllingTty := true,
    unix := { umask := none, preExecHooks := [] } }

/-- `sub/x` is checked, and `sub/sub/x` is executed. -/
theorem another_file_is_executed : inH.fs.resolve inH.cwd (bytes "sub/./x") =
      .ok [bytes "h", bytes "sub", bytes "x"] ∧
    inH.fs.resolve [bytes "h", bytes "sub"] (bytes "sub/./x") =
      .ok [bytes "h", bytes "sub", bytes "sub", bytes "x"] ∧
    ¬ ∀ (w : World TreeFs.Node) (b : Builder), b.isDefaultProg = false → ExecutesChecked w b := by
  have hparent : inH.fs.resolve inH.cwd (bytes "sub/./x") =
      .ok [bytes "h", bytes "sub", bytes "x"] := by decide
  have hchild : inH.fs.resolve [bytes "h", bytes "sub"] (bytes "sub/./x") =
      .ok [bytes "h", bytes "sub", bytes "sub", bytes "x"] := by decide
  refine ⟨hparent, hchild, fun h => ?_⟩
  have hsearch : searchPath inH dotX (bytes "./x") (chosenDir inH dotX) = .ok (bytes "sub/./x") := by
    decide
  have hexe : ExecutesChecked inH { dotX with args := bytes "./x" :: [] } := h inH dotX rfl
  obtain ⟨n, hn, -, hsame⟩ := executesChecked_prog.mp hexe _ hsearch
  have := hsame [bytes "h", bytes "sub"] (by decide)
  rw [hchild] at this
  rw [hparent] at hn
  rw [← hn] at this
  exact absurd this (by decide)

end Xpty.Unix
