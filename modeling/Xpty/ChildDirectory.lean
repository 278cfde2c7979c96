import Xpty.UnixShell
import Xpty.WinAbsolute
import Xpty.WinSpawn

/- The directory that a builder gives the child: the configured one if it is a directory,
   or else the home directory. On Unix nobody asks whether the home directory exists; on
   Windows a relative choice is completed with the current directory, which leaves it
   relative where that cannot be read or where the path has a drive of its own.
   `child_directory_iff` says when the outcome is as it should be. -/
namespace Xpty.ChildDirectory

section Unix
open Xpty.Unix

variable {N : Type}

/-- `HOME`, and the directory of the password database. -/
def homeCandidates (w : World N) (b : Builder) : List UnixStr :=
  (b.getEnv (bytes "HOME")).toList ++ (w.passwd.map (·.pwDir)).toList

/-- The home directory: the first of them that is UTF-8, or `/`. -/
def homeOf (w : World N) (b : Builder) : UnixStr :=
  FirstHit.firstOr isUtf8 (bytes "/") (homeCandidates w b)

theorem firstOr_isUtf8 (z s : UnixStr) (l : List UnixStr) : FirstHit.firstOr isUtf8 z (s :: l) =
    (toStr s).getD (FirstHit.firstOr isUtf8 z l) := by
  rw [FirstHit.firstOr_cons]
  show _ = (if isUtf8 s = true then some s else none).getD _
  split <;> rfl

theorem getHomeDir_eq (w : World N) (b : Builder) : getHomeDir w b = homeOf w b := by
  rw [getHomeDir, homeOf, homeCandidates]
  cases w.passwd with
  | none =>
    cases b.getEnv (bytes "HOME") with
    | none => rfl
    | some home =>
      rw [Option.toList_some, List.singleton_append, firstOr_isUtf8, Option.bind_some]
      cases toStr home <;> rfl
  | some ent =>
    have hent := (firstOr_isUtf8 (bytes "/") ent.pwDir []).symm
    cases b.getEnv (bytes "HOME") with
    | none => exact hent
    | some home =>
      rw [Option.toList_some, List.singleton_append, firstOr_isUtf8, Option.bind_some]
      cases toStr home with
      | none => exact hent
      | some home => rfl

/-- The first existing directory of the configured one and home, or `/`. -/
def existingDir (w : World N) (b : Builder) : UnixStr :=
  ((b.cwd.filter w.isDir).or ((some (homeOf w b)).filter w.isDir)).getD (bytes "/")

theorem chosenDir_iff (w : World N) (b : Builder) : chosenDir w b = existingDir w b ↔
    (∃ cwd, b.cwd = some cwd ∧ w.isDir cwd = true) ∨ w.isDir (homeOf w b) = true ∨
      homeOf w b = bytes "/" := by
  rw [chosenDir, existingDir, getHomeDir_eq]
  cases hcwd : b.cwd.filter w.isDir with
  | some cwd => exact iff_of_true rfl (.inl ⟨cwd, Option.filter_eq_some_iff.mp hcwd⟩)
  | none =>
    have hnone : ¬ ∃ cwd, b.cwd = some cwd ∧ w.isDir cwd = true := by
      intro h
      obtain ⟨cwd, h⟩ := h
      rw [Option.filter_eq_some_iff.mpr h] at hcwd
      cases hcwd
    rw [or_iff_right hnone, Option.getD_none, Option.none_or, Option.filter_some]
    cases w.isDir (homeOf w b) <;> simp

end Unix

section Windows
open Xpty.Win

variable [ToLowercase]

/-- The first existing directory of the configured one and `USERPROFILE`. -/
def existingChoice (w : World) (b : Builder) : Option WinStr :=
  (b.cwd.filter w.isDir).or ((b.getEnv (wide "USERPROFILE")).filter w.isDir)

/-- The absolute path that a path stands for in the process, `driveDir` being the current
directory of each drive. -/
def fullPath (w : World) (driveDir : WinStr → Option WinStr) (p : WinStr) : Option WinStr :=
  if isAbsolute p then some p
  else
    match parsePrefix p with
    | some pre => (driveDir (p.take pre.len)).map (join · (p.drop pre.len))
    | none => w.currentDir.map (join · p)

/-- The child is given the choice as an absolute path, or nothing where there is none. -/
def GivenAbsolute (w : World) (driveDir : WinStr → Option WinStr) (b : Builder) : Prop :=
  match existingChoice w b with
  | none => currentDirectory w b = none
  | some dir => ∃ full, currentDirectory w b = some (full ++ [0]) ∧ isAbsolute full = true ∧
      fullPath w driveDir dir = some full

/-- The path that `current_directory` makes of its choice. -/
def completed (w : World) (dir : WinStr) : WinStr :=
  if isAbsolute dir then dir else (w.currentDir.map (join · dir)).getD dir

theorem currentDirectory_eq (w : World) (b : Builder) :
    currentDirectory w b = (existingChoice w b).map (completed w · ++ [0]) := by
  rw [currentDirectory, ← existingChoice]
  refine Option.map_congr fun dir _ => congrArg (· ++ [0]) ?_
  rw [completed]
  cases isAbsolute dir with
  | true => rfl
  | false => cases w.currentDir <;> rfl

theorem givenAbsolute_iff (w : World) (driveDir : WinStr → Option WinStr) (b : Builder)
    (hcwd : ∀ ccwd, w.currentDir = some ccwd → isAbsolute ccwd = true) :
    GivenAbsolute w driveDir b ↔ ∀ dir, existingChoice w b = some dir →
      isAbsolute dir = true ∨ w.currentDir.isSome = true ∧ parsePrefix dir = none := by
  rw [GivenAbsolute, currentDirectory_eq]
  cases existingChoice w b with
  | none => simp
  | some dir =>
    have hfull : (∃ full, some (completed w dir ++ [0]) = some (full ++ [0]) ∧
        isAbsolute full = true ∧ fullPath w driveDir dir = some full) ↔
          isAbsolute (completed w dir) = true ∧
            fullPath w driveDir dir = some (completed w dir) := by
      refine ⟨?_, ?_⟩
      · intro h
        obtain ⟨full, heq, h⟩ := h
        rw [List.append_cancel_right (Option.some.inj heq)]
        exact h
      · intro h
        exact ⟨_, rfl, h⟩
    refine hfull.trans ?_
    simp only [Option.some.injEq, forall_eq']
    rw [completed, fullPath]
    cases ha : isAbsolute dir with
    | true => simp [ha]
    | false =>
      simp only [Bool.false_eq_true, if_false, false_or]
      cases hc : w.currentDir with
      | none => simp [ha]
      | some ccwd =>
        cases hp : parsePrefix dir with
        | none => simp [isAbsolute_join (hcwd ccwd hc) hp]
        | some pre =>
          -- `join` returns a path with a prefix of its own as it is
          have hjoin : join ccwd dir = dir := by simp [join, hp]
          simp [hjoin, ha]

end Windows

/-- On Unix the child enters an existing directory, or `/`, as it should exactly when the
configured one exists or home does, or is `/`. On Windows it is given an absolute path for
the directory that was tested exactly when that is absolute, or else without a prefix and
the current directory can be read. -/
theorem child_directory_iff {N : Type} [ToLowercase] (u : Unix.World N) (ub : Unix.Builder)
    (w : Win.World) (driveDir : WinStr → Option WinStr) (wb : Win.Builder)
    (hcwd : ∀ ccwd, w.currentDir = some ccwd → Win.isAbsolute ccwd = true) :
    (∀ cmd, Unix.asCommand u ub = .ok cmd → cmd.currentDir = some (Unix.chosenDir u ub)) ∧
    (Unix.chosenDir u ub = existingDir u ub ↔
      (∃ cwd, ub.cwd = some cwd ∧ u.isDir cwd = true) ∨ u.isDir (homeOf u ub) = true ∨
        homeOf u ub = bytes "/") ∧
    (GivenAbsolute w driveDir wb ↔ ∀ dir, existingChoice w wb = some dir →
      Win.isAbsolute dir = true ∨ w.currentDir.isSome = true ∧ Win.parsePrefix dir = none) :=
  ⟨fun _ h => (Unix.asCommand_setup h).1, chosenDir_iff u ub, givenAbsolute_iff w driveDir wb hcwd⟩

/-- A process in `C:\w` that sees a directory everywhere. -/
def inW : Win.World where
  pathExists p := !p.contains 0
  isDir _ := true
  currentDir := some (wide "C:\\w")
  exists_nul p h := by simpa using h

/-- A builder with the working directory `dir`. -/
def withCwd [ToLowercase] (dir : WinStr) : Win.Builder :=
  { CommandBuilder.newDefaultProg .empty () with cwd := some dir }

theorem existingChoice_withCwd [ToLowercase] (dir : WinStr) :
    existingChoice inW (withCwd dir) = some dir := by
  simp [existingChoice, withCwd, inW]

theorem relative_cwd_is_completed :
    letI := asciiLowercase
    Unix.chosenDir Unix.shells (Unix.withShell (bytes "/bin/sh")) = bytes "/" ∧
      GivenAbsolute inW (fun _ => none) (withCwd (wide "src")) := by
  let := asciiLowercase
  have hcwd : ∀ ccwd, inW.currentDir = some ccwd → Win.isAbsolute ccwd = true := by
    intro ccwd h
    cases h
    decide
  have h := child_directory_iff Unix.shells (Unix.withShell (bytes "/bin/sh")) inW (fun _ => none)
    (withCwd (wide "src")) hcwd
  refine ⟨(h.2.1.mpr (.inr (.inr (by decide)))).trans (by decide), h.2.2.mpr fun dir hdir => ?_⟩
  rw [existingChoice_withCwd] at hdir
  cases hdir
  exact .inr ⟨rfl, by decide⟩

/-- A `HOME` that does not exist is entered on Unix; on Windows the existing `C:src` is
handed over as it is, relative to a directory of its own. -/
theorem home_and_drive_go_wrong :
    letI := asciiLowercase
    let b := (Unix.withShell (bytes "/bin/sh")).env (bytes "HOME") (bytes "/nonexistent")
    (Unix.chosenDir Unix.shells b = bytes "/nonexistent" ∧
      Unix.shells.isDir (bytes "/nonexistent") = false ∧ existingDir Unix.shells b = bytes "/") ∧
    (Win.currentDirectory inW (withCwd (wide "C:src")) = some (wide "C:src" ++ [0]) ∧
      Win.isAbsolute (wide "C:src") = false ∧
      ¬ GivenAbsolute inW (fun _ => none) (withCwd (wide "C:src"))) := by
  let := asciiLowercase
  refine ⟨by decide, rfl, by decide, fun h => ?_⟩
  rw [GivenAbsolute, existingChoice_withCwd] at h
  obtain ⟨full, hfull, habs, -⟩ := h
  have heq : some (wide "C:src" ++ [0]) = some (full ++ [0]) := hfull
  rw [← List.append_cancel_right (Option.some.inj heq)] at habs
  exact absurd habs (by decide)

end Xpty.ChildDirectory
