import Xpty.UnixCommand

/- What `search_path` returns on Unix, for any answers of `is_dir` and `access`.

   A relative name that does not begin with `.` or `..` is looked up along `PATH`: the
   first entry with a usable file wins, past directories and files that may not be
   executed (`PathLookup`). Any other name has one candidate, and a failure says what is
   wrong with it (`SingleLookup`). `search_path_classifies` puts the three modes together.

   Only the first component decides: `bin/tool` is looked up along `PATH` too, and
   `search_ignores_path_iff` says that the names with one candidate are the only ones for
   which `PATH` plays no part, all others being looked up along it. -/
namespace Xpty.Unix

/-- The name is looked up along `PATH`. -/
def isPathName (exe : UnixStr) : Bool := !isAbsolute exe && !isCwdRelativePath exe

/-- The candidate of an entry of `PATH`. -/
def pathCandidate (cwd exe entry : UnixStr) : UnixStr := join (join cwd entry) exe

/-- `c` is the candidate of the first entry that has a usable one. -/
def FirstUsable (w : Lookup) (exe cwd : UnixStr) (entries : List UnixStr) (c : UnixStr) : Prop :=
  ∃ before entry after, entries = before ++ entry :: after ∧
    (∀ e ∈ before, usable w (pathCandidate cwd exe e) = false) ∧
    usable w (pathCandidate cwd exe entry) = true ∧ c = pathCandidate cwd exe entry

/-- The search along `PATH`. -/
structure PathLookup (w : Lookup) (b : Builder) (exe cwd : UnixStr) : Prop where
  ok_iff : ∀ c, searchPath w b exe cwd = .ok c ↔
    ∃ path, b.getEnv (bytes "PATH") = some path ∧ FirstUsable w exe cwd (splitPaths path) c
  pathResolution_iff : (∃ msg, searchPath w b exe cwd = .error (.pathResolution msg)) ↔
    b.getEnv (bytes "PATH") = none ∨ ∃ path, b.getEnv (bytes "PATH") = some path ∧
      ∀ entry ∈ splitPaths path, usable w (pathCandidate cwd exe entry) = false

/-- The search with one candidate, which is the name itself where that is absolute. -/
structure SingleLookup (w : Lookup) (b : Builder) (exe cwd : UnixStr) : Prop where
  ok_iff : ∀ c, searchPath w b exe cwd = .ok c ↔ usable w (join cwd exe) = true ∧ c = join cwd exe
  isDirectory_iff : (∃ msg, searchPath w b exe cwd = .error (.isDirectory msg)) ↔
    w.isDir (join cwd exe) = true
  notExecutable_iff : (∃ msg, searchPath w b exe cwd = .error (.notExecutable msg)) ↔
    w.isDir (join cwd exe) = false ∧ (w.access (join cwd exe) .X_OK).isOk = false ∧
      (w.access (join cwd exe) .F_OK).isOk = true
  commandNotFound_iff : (∃ msg, searchPath w b exe cwd = .error (.commandNotFound msg)) ↔
    w.isDir (join cwd exe) = false ∧ (w.access (join cwd exe) .F_OK).isOk = false

section
variable {w : Lookup} {b : Builder} {exe cwd : UnixStr}

theorem firstUsable_iff {entries : List UnixStr} {c : UnixStr} : FirstUsable w exe cwd entries c ↔
    ∃ entry, entries.find? (fun entry => usable w (pathCandidate cwd exe entry)) = some entry ∧
      c = pathCandidate cwd exe entry := by
  simp only [FirstUsable, List.find?_eq_some_iff_append, Bool.not_eq_eq_eq_not, Bool.not_true]
  refine ⟨?_, ?_⟩
  · intro h
    obtain ⟨before, entry, after, h, hbefore, hu, hc⟩ := h
    exact ⟨entry, ⟨hu, before, after, h, hbefore⟩, hc⟩
  · intro h
    obtain ⟨entry, ⟨hu, before, after, h, hbefore⟩, hc⟩ := h
    exact ⟨before, entry, after, h, hbefore, hu, hc⟩

theorem not_firstUsable_iff {entries : List UnixStr} : (∀ c, ¬ FirstUsable w exe cwd entries c) ↔
    ∀ entry ∈ entries, usable w (pathCandidate cwd exe entry) = false := by
  have hnone : entries.find? (fun entry => usable w (pathCandidate cwd exe entry)) = none ↔
      ∀ entry ∈ entries, usable w (pathCandidate cwd exe entry) = false := by
    simp
  rw [← hnone]
  simp only [firstUsable_iff]
  cases entries.find? fun entry => usable w (pathCandidate cwd exe entry) with
  | none => simp
  | some entry => simp

/-- A name for `PATH` goes through the loop over its entries. -/
theorem searchPath_path {path : UnixStr} (h : isPathName exe = true)
    (hpath : b.getEnv (bytes "PATH") = some path) : searchPath w b exe cwd =
      (searchCandidates w exe cwd [] (splitPaths path)).mapError fun errors =>
        pathResolution exe (errors ++ [[.text "No viable candidates found in PATH ", .debug path]]) := by
  rw [isPathName, Bool.and_eq_true, Bool.not_eq_true', Bool.not_eq_true'] at h
  rw [searchPath, if_pos (by simp [h.1]), if_neg (by simp [h.2]), hpath]
  dsimp only
  cases searchCandidates w exe cwd [] (splitPaths path) <;> rfl

theorem searchPath_noPath (h : isPathName exe = true) (hpath : b.getEnv (bytes "PATH") = none) :
    searchPath w b exe cwd = .error (pathResolution exe [[.text "Unable to resolve the PATH"]]) := by
  rw [isPathName, Bool.and_eq_true, Bool.not_eq_true', Bool.not_eq_true'] at h
  rw [searchPath, if_pos (by simp [h.1]), if_neg (by simp [h.2]), hpath]

theorem pathLookup (h : isPathName exe = true) : PathLookup w b exe cwd := by
  cases hpath : b.getEnv (bytes "PATH") with
  | none =>
    have hs : searchPath w b exe cwd = _ := searchPath_noPath h hpath
    refine ⟨fun c => ?_, ?_⟩
    · rw [hs, hpath]
      simp
    · rw [hs]
      exact iff_of_true ⟨_, rfl⟩ (.inl hpath)
  | some path =>
    have hs : searchPath w b exe cwd = _ := searchPath_path h hpath
    have hok : ∀ c, searchCandidates w exe cwd [] (splitPaths path) = .ok c ↔
        FirstUsable w exe cwd (splitPaths path) c := by
      intro c
      rw [firstUsable_iff]
      exact searchCandidates_ok (splitPaths path) []
    refine ⟨fun c => ?_, ?_⟩
    · rw [hs, hpath]
      simp only [Option.some.injEq, exists_eq_left', ← hok]
      cases searchCandidates w exe cwd [] (splitPaths path) <;> simp [Except.mapError]
    · -- the loop ends in an error exactly when it returns no candidate
      rw [hs, hpath]
      simp only [reduceCtorEq, false_or, Option.some.injEq, exists_eq_left',
        ← not_firstUsable_iff, ← hok]
      cases searchCandidates w exe cwd [] (splitPaths path) <;>
        simp [Except.mapError, pathResolution]

/-- With one candidate, the checks are the same three in either mode. -/
theorem searchPath_single (h : isPathName exe = false) : ∃ m₁ m₂ m₃, searchPath w b exe cwd =
    if w.isDir (join cwd exe) then .error (.isDirectory m₁)
    else if (w.access (join cwd exe) .X_OK).isOk then .ok (join cwd exe)
    else if (w.access (join cwd exe) .F_OK).isOk then .error (.notExecutable m₂)
    else .error (.commandNotFound m₃) := by
  unfold searchPath
  cases ha : isAbsolute exe with
  | true =>
    rw [join_of_isAbsolute ha]
    simp only [Bool.not_true, Bool.false_eq_true, if_false]
    cases w.access exe .X_OK with
    | ok u => exact ⟨_, [], [], rfl⟩
    | error err => exact ⟨_, _, _, rfl⟩
  | false =>
    have hc : isCwdRelativePath exe = true := by simpa [isPathName, ha] using h
    simp only [Bool.not_false, if_true, hc]
    exact ⟨_, _, _, rfl⟩

theorem singleLookup (h : isPathName exe = false) : SingleLookup w b exe cwd := by
  obtain ⟨m₁, m₂, m₃, hs⟩ := @searchPath_single w b exe cwd h
  have hexists := w.access_F_OK (join cwd exe)
  cases hd : w.isDir (join cwd exe) with
  | true =>
    rw [hd, if_pos rfl] at hs
    constructor <;> simp [hs, hd, usable]
  | false =>
    rw [hd, if_neg Bool.false_ne_true] at hs
    cases hx : (w.access (join cwd exe) .X_OK).isOk with
    | true =>
      rw [hx, if_pos rfl] at hs
      constructor <;> simp [hs, hd, hx, usable, hexists hx, eq_comm]
    | false =>
      rw [hx, if_neg Bool.false_ne_true] at hs
      cases hf : (w.access (join cwd exe) .F_OK).isOk with
      | true =>
        rw [hf, if_pos rfl] at hs
        constructor <;> simp [hs, hd, hx, hf, usable]
      | false =>
        rw [hf, if_neg Bool.false_ne_true] at hs
        constructor <;> simp [hs, hd, hx, hf, usable]

end

/-- The search returns the first usable candidate, and an error says what is wrong. -/
theorem search_path_classifies (w : Lookup) (b : Builder) (exe cwd : UnixStr) :
    if isPathName exe then PathLookup w b exe cwd else SingleLookup w b exe cwd := by
  cases h : isPathName exe with
  | true => exact pathLookup h
  | false => exact singleLookup h

/-! The part of `PATH`. -/

/-- The builder with `PATH` set to a value, or removed. -/
def withPath (b : Builder) : Option UnixStr → Builder
  | some path => b.env (bytes "PATH") path
  | none => b.envRemove (bytes "PATH")

theorem getEnv_withPath (b : Builder) (path : Option UnixStr) :
    (withPath b path).getEnv (bytes "PATH") = path := by
  cases path with
  | some path => simp [withPath, CommandBuilder.env, CommandBuilder.getEnv, Envs.find_insert]
  | none => simp [withPath, CommandBuilder.envRemove, CommandBuilder.getEnv, Envs.find_remove]

/-- A name with one candidate does not need `PATH`. -/
theorem searchPath_ignores {w : Lookup} {b b' : Builder} {exe cwd : UnixStr}
    (h : isPathName exe = false) : searchPath w b exe cwd = searchPath w b' exe cwd := by
  unfold searchPath
  cases ha : isAbsolute exe with
  | true => rfl
  | false =>
    have hc : isCwdRelativePath exe = true := by simpa [isPathName, ha] using h
    simp [hc]

/-- With an empty `PATH` another error is returned than without one, if not a candidate. -/
theorem searchPath_emptyPath {w : Lookup} {b : Builder} {exe cwd : UnixStr}
    (h : isPathName exe = true) :
    searchPath w (withPath b (some [])) exe cwd ≠ searchPath w (withPath b none) exe cwd := by
  rw [searchPath_path h (getEnv_withPath b (some [])), searchPath_noPath h (getEnv_withPath b none)]
  have hentries : splitPaths [] = [[]] := rfl
  rw [hentries]
  simp only [searchCandidates]
  split
  · simp [Except.mapError, pathResolution, joinMessages]
  · split
    · simp [Except.mapError]
    · split
      · simp [Except.mapError, pathResolution, joinMessages]
      · simp [Except.mapError, pathResolution, joinMessages]

/-- `PATH` has no part in the search exactly when the name is absolute or begins with `.` or
`..`, and then what is found is the file that the name denotes from the directory. Any other
name is looked up below the entries of `PATH`. -/
theorem search_ignores_path_iff (w : Lookup) (b : Builder) (exe cwd : UnixStr) :
    ((∀ path path' : Option UnixStr,
      searchPath w (withPath b path) exe cwd = searchPath w (withPath b path') exe cwd) ↔
        isAbsolute exe = true ∨ isCwdRelativePath exe = true) ∧
    (isAbsolute exe = true ∨ isCwdRelativePath exe = true →
      ∀ c, searchPath w b exe cwd = .ok c → c = join cwd exe) ∧
    (¬ (isAbsolute exe = true ∨ isCwdRelativePath exe = true) → PathLookup w b exe cwd) := by
  have hname : isAbsolute exe = true ∨ isCwdRelativePath exe = true ↔ isPathName exe = false := by
    cases ha : isAbsolute exe <;> cases hc : isCwdRelativePath exe <;> simp [isPathName, ha, hc]
  rw [hname, Bool.not_eq_false]
  refine ⟨?_, ?_, pathLookup⟩
  · constructor
    · intro h
      cases hn : isPathName exe with
      | false => rfl
      | true => exact absurd (h (some []) none) (searchPath_emptyPath hn)
    · intro h path path'
      exact searchPath_ignores h
  · intro h c hc
    exact (((singleLookup h).ok_iff c).mp hc).2

/-- A lookup in which every path is a file that can be executed. -/
def allExecutable : Lookup where
  isDir _ := false
  access _ _ := .ok ()
  access_F_OK _ _ := rfl

/-- `bin/tool`, from `/w`: with `PATH` set to `/opt` it is `/opt/bin/tool`. -/
theorem slash_is_looked_up :
    searchPath allExecutable (withPath dotX (some (bytes "/opt"))) (bytes "bin/tool") (bytes "/w") =
      .ok (bytes "/opt/bin/tool") ∧
    ¬ ∀ (w : Lookup) (b : Builder) (exe cwd : UnixStr), SEP ∈ exe → ∀ path path' : Option UnixStr,
      searchPath w (withPath b path) exe cwd = searchPath w (withPath b path') exe cwd := by
  have hfound : searchPath allExecutable (withPath dotX (some (bytes "/opt"))) (bytes "bin/tool")
      (bytes "/w") = .ok (bytes "/opt/bin/tool") := by decide
  refine ⟨hfound, fun h => ?_⟩
  have hsame := h allExecutable dotX (bytes "bin/tool") (bytes "/w") (by decide)
    (some (bytes "/opt")) none
  rw [hfound] at hsame
  exact absurd hsame (by decide)

end Xpty.Unix
