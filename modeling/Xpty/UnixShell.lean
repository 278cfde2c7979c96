import Xpty.FirstHit
import Xpty.UnixEnv

/- The shell of a default program: `get_shell` tries `SHELL` and then the shell of the
   password database, and falls back to `/bin/sh` (`getShell_eq`).

   Two things can go wrong with the outcome. The child's `SHELL` is set to it before the
   variables of the builder are, so a `SHELL` that was tried in vain comes back:
   `shell_agrees_iff`. And `access` with `X_OK` allows searching a directory, which
   `search_path` checks for and `get_shell` does not: `shell_is_file_iff`. -/
namespace Xpty.Unix

variable {N : Type}

/-- What `get_shell` asks of a shell. -/
def runnable (w : Lookup) (shell : UnixStr) : Bool := isUtf8 shell && (w.access shell .X_OK).isOk

/-- The same, and what `search_path` asks of a program. -/
def runnableFile (w : Lookup) (shell : UnixStr) : Bool := isUtf8 shell && usable w shell

/-- The shell of the password database. -/
def passwdShells (w : World N) : List UnixStr := (w.passwd.map (·.pwShell)).toList

/-- The shells to try, in that order. -/
def shellCandidates (w : World N) (b : Builder) : List UnixStr :=
  (b.getEnv (bytes "SHELL")).toList ++ passwdShells w

/-- The first shell that passes the test, or `/bin/sh`. -/
def firstShell (test : UnixStr → Bool) (shells : List UnixStr) : UnixStr :=
  FirstHit.firstOr test (bytes "/bin/sh") shells

theorem runnable_of_toStr_none {w : Lookup} {shell : UnixStr} (h : toStr shell = none) :
    runnable w shell = false := by
  cases hu : isUtf8 shell with
  | false => rw [runnable, hu, Bool.false_and]
  | true => rw [toStr_unix.mpr ⟨hu, rfl⟩] at h; cases h

theorem runnable_of_isUtf8 {w : World N} {shell : UnixStr} (h : isUtf8 shell = true) :
    runnable w shell = (w.access shell .X_OK).isOk := by
  rw [runnable, h, Bool.true_and, World.lookup_access]

theorem getPasswdShell_eq (w : World N) :
    getPasswdShell w = firstShell (runnable w) (passwdShells w) := by
  rw [getPasswdShell, passwdShells]
  cases w.passwd with
  | none => rfl
  | some ent =>
    rw [Option.map_some, Option.toList_some, firstShell, FirstHit.firstOr_cons]
    dsimp only
    cases hs : toStr ent.pwShell with
    | none => rw [runnable_of_toStr_none hs]; rfl
    | some shell =>
      obtain ⟨hu, rfl⟩ := toStr_unix.mp hs
      rw [runnable_of_isUtf8 hu]
      dsimp only
      cases w.access ent.pwShell .X_OK <;> rfl

theorem getShell_eq (w : World N) (b : Builder) :
    getShell w b = firstShell (runnable w) (shellCandidates w b) := by
  rw [getShell, shellCandidates, getPasswdShell_eq]
  cases b.getEnv (bytes "SHELL") with
  | none => rfl
  | some value =>
    rw [Option.toList_some, List.singleton_append, firstShell, firstShell, FirstHit.firstOr_cons,
      Option.bind_some]
    cases hs : toStr value with
    | none => rw [runnable_of_toStr_none hs]; rfl
    | some shell =>
      obtain ⟨hu, rfl⟩ := toStr_unix.mp hs
      rw [runnable_of_isUtf8 hu]
      dsimp only
      cases w.access shell .X_OK <;> rfl

/-! The child's `SHELL`. -/

/-- The shell that is launched when `SHELL` is of no use. -/
def IsFallback (w : World N) (shell : UnixStr) : Prop :=
  (∃ ent, w.passwd = some ent ∧ runnable w ent.pwShell = true ∧ shell = ent.pwShell) ∨
    (∀ ent, w.passwd = some ent → runnable w ent.pwShell = false) ∧ shell = bytes "/bin/sh"

theorem isFallback_iff {w : World N} {shell : UnixStr} :
    IsFallback w shell ↔ shell = firstShell (runnable w) (passwdShells w) := by
  rw [IsFallback, passwdShells]
  cases w.passwd with
  | none => simp [firstShell, FirstHit.firstOr]
  | some ent =>
    simp only [Option.map_some, Option.toList_some, firstShell, FirstHit.firstOr_cons]
    cases hr : runnable w ent.pwShell <;> simp [hr, FirstHit.firstOr]

/-- The program of the command, and the `SHELL` that it gives the child. -/
theorem default_shell {w : World N} {b : Builder} {cmd : Command} (h : b.isDefaultProg = true)
    (hcmd : asCommand w b = .ok cmd) : cmd.program = getShell w b ∧
      cmd.vars[bytes "SHELL"]? = some ((b.getEnv (bytes "SHELL")).getD (getShell w b)) := by
  rw [asCommand_default (List.isEmpty_iff.mp h)] at hcmd
  cases hcmd
  refine ⟨rfl, ?_⟩
  rw [getElem?_childVars, if_pos rfl]

/-- The shell that is launched is the child's `SHELL` exactly when `SHELL` is not set in the
builder, or it can be run, or it is what is launched in its place. -/
theorem shell_agrees_iff (w : World N) (b : Builder) (h : b.isDefaultProg = true) :
    (∃ cmd, asCommand w b = .ok cmd ∧ cmd.program = getShell w b ∧
      cmd.vars[bytes "SHELL"]? = some cmd.program) ↔
      ∀ shell, b.getEnv (bytes "SHELL") = some shell →
        runnable w shell = true ∨ IsFallback w shell := by
  have hok := asCommand_default (w := w) (List.isEmpty_iff.mp h)
  have hagrees : (∃ cmd, asCommand w b = .ok cmd ∧ cmd.program = getShell w b ∧
      cmd.vars[bytes "SHELL"]? = some cmd.program) ↔
        (b.getEnv (bytes "SHELL")).getD (getShell w b) = getShell w b := by
    refine ⟨?_, ?_⟩
    · intro hex
      obtain ⟨cmd, hcmd, hprog, hvar⟩ := hex
      rw [(default_shell h hcmd).2, hprog] at hvar
      exact Option.some.inj hvar
    · intro heq
      refine ⟨_, hok, rfl, ?_⟩
      rw [(default_shell h hok).2, heq]
  rw [hagrees, getShell_eq, shellCandidates]
  cases b.getEnv (bytes "SHELL") with
  | none => simp
  | some shell =>
    simp only [Option.getD_some, Option.toList_some, List.singleton_append, Option.some.injEq,
      forall_eq', isFallback_iff]
    rw [firstShell, FirstHit.firstOr_cons]
    cases hr : runnable w shell with
    | true => simp
    | false => simp [firstShell]

/-- `/bin/sh`, `/bin/nosh`, which may not be executed, and the directory `/tmp`. -/
def shells : World TreeFs.Node where
  fs := TreeFs.toUnixFs [([bytes "bin"], .dir), ([bytes "bin", bytes "sh"], .file true),
    ([bytes "bin", bytes "nosh"], .file false), ([bytes "tmp"], .dir)]
  cwd := []
  passwd := none

/-- A builder for the default program, with `SHELL` set to `shell`. -/
def withShell (shell : UnixStr) : Builder :=
  (CommandBuilder.newDefaultProg .empty { umask := none, preExecHooks := [] }).env
    (bytes "SHELL") shell

theorem getEnv_withShell (shell : UnixStr) :
    (withShell shell).getEnv (bytes "SHELL") = some shell := by
  simp [withShell, CommandBuilder.env, CommandBuilder.getEnv, Envs.find_insert]

theorem sh_agrees : ∃ cmd, asCommand shells (withShell (bytes "/bin/sh")) = .ok cmd ∧
    cmd.program = getShell shells (withShell (bytes "/bin/sh")) ∧
    cmd.vars[bytes "SHELL"]? = some cmd.program := by
  refine (shell_agrees_iff shells (withShell (bytes "/bin/sh")) rfl).mpr fun shell h => .inl ?_
  rw [getEnv_withShell] at h
  cases h
  decide

/-- `/bin/sh` is launched, and the child is told `/bin/nosh`. -/
theorem nosh_is_announced :
    (∃ cmd, asCommand shells (withShell (bytes "/bin/nosh")) = .ok cmd ∧
      cmd.program = bytes "/bin/sh" ∧ cmd.vars[bytes "SHELL"]? = some (bytes "/bin/nosh")) ∧
    ¬ ∀ (w : World TreeFs.Node) (b : Builder), b.isDefaultProg = true → ∀ cmd,
      asCommand w b = .ok cmd → cmd.vars[bytes "SHELL"]? = some cmd.program := by
  have hok := asCommand_default (w := shells) (b := withShell (bytes "/bin/nosh")) rfl
  obtain ⟨hprog, hvar⟩ := default_shell rfl hok
  have hsh : getShell shells (withShell (bytes "/bin/nosh")) = bytes "/bin/sh" := by decide
  rw [getEnv_withShell, Option.getD_some] at hvar
  refine ⟨⟨_, hok, hsh, hvar⟩, fun h => ?_⟩
  have hsame := h shells (withShell (bytes "/bin/nosh")) rfl _ hok
  rw [hvar, hprog, hsh] at hsame
  exact absurd hsame (by decide)

/-! Directories. -/

/-- A directory comes to be tried only as `/bin/sh`, with nothing better after it. -/
def TriesNoDirectory (w : World N) (b : Builder) : Prop :=
  ∀ before shell after, shellCandidates w b = before ++ shell :: after →
    (∀ s ∈ before, runnable w s = false) → runnable w shell = true → w.isDir shell = true →
      (∀ s ∈ after, runnableFile w s = false) ∧ shell = bytes "/bin/sh"

theorem runnableFile_eq (w : Lookup) (shell : UnixStr) :
    runnableFile w shell = (runnable w shell && !w.isDir shell) := by
  rw [runnableFile, usable, runnable, Bool.and_assoc, Bool.and_comm (!w.isDir shell)]

/-- `get_shell` returns the first of `SHELL` and the password database's shell that is UTF-8,
executable and no directory, or `/bin/sh`, exactly when it comes to no directory. -/
theorem shell_is_file_iff (w : World N) (b : Builder) :
    (getShell w b = firstShell (runnableFile w) (shellCandidates w b) ∧
      (getShell w b = bytes "/bin/sh" ∨ usable w (getShell w b) = true)) ↔
      TriesNoDirectory w b := by
  have hstrict : ∀ s, runnableFile w s = true → runnable w s = true := by
    intro s hs
    rw [runnableFile_eq, Bool.and_eq_true] at hs
    exact hs.1
  have hfile : getShell w b = firstShell (runnableFile w) (shellCandidates w b) →
      getShell w b = bytes "/bin/sh" ∨ usable w (getShell w b) = true := by
    intro h
    rw [h]
    refine (FirstHit.firstOr_hits (shellCandidates w b)).imp_right fun hf => ?_
    exact (Bool.and_eq_true_iff.mp hf).2
  rw [and_iff_left_of_imp hfile, getShell_eq, firstShell, firstShell, FirstHit.firstOr_eq_iff hstrict,
    TriesNoDirectory]
  refine forall₃_congr fun before shell after => forall₃_congr fun _ _ hr => ?_
  rw [runnableFile_eq, hr, World.lookup_isDir, eq_comm (a := shell)]
  cases w.isDir shell <;> simp

/-- `/tmp` is taken for a shell. -/
theorem tmp_is_launched : getShell shells (withShell (bytes "/tmp")) = bytes "/tmp" ∧
    shells.isDir (bytes "/tmp") = true ∧
    ¬ ∀ (w : World TreeFs.Node) (b : Builder),
      getShell w b = firstShell (runnableFile w) (shellCandidates w b) := by
  have hshell : getShell shells (withShell (bytes "/tmp")) = bytes "/tmp" := by decide
  refine ⟨hshell, by decide, fun h => ?_⟩
  have hfile := h shells (withShell (bytes "/tmp"))
  rw [hshell] at hfile
  exact absurd hfile (by decide)

end Xpty.Unix
