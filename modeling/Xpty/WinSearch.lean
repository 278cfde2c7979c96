import Xpty.FirstHit
import Xpty.WinSpawn

/- The program search of the Windows `CommandBuilder`, as a scan of the paths it tries: for
   each entry `d` of `PATH` the name below `d`, and then that name with each extension of
   `PATHEXT`. -/
namespace Xpty.Win

/-- A world of some files and directories. -/
def World.of (files dirs : List WinStr) (h : ∀ p ∈ files ++ dirs, 0 ∉ p) : World where
  pathExists p := (files ++ dirs).contains p
  isDir p := dirs.contains p
  currentDir := none
  exists_nul p h0 := by
    rw [List.contains_eq_mem, decide_eq_false_iff_not]
    intro hp
    exact h p hp h0

/-- `p` is the first of the paths that exists. -/
def FirstExisting (w : World) (paths : List WinStr) (p : WinStr) : Prop :=
  ∃ before after, paths = before ++ p :: after ∧ (∀ q ∈ before, w.pathExists q = false) ∧
    w.pathExists p = true

theorem firstExisting_iff {w : World} {paths : List WinStr} {p : WinStr} :
    FirstExisting w paths p ↔ paths.find? w.pathExists = some p := by
  simp only [FirstExisting, List.find?_eq_some_iff_append, Bool.not_eq_eq_eq_not, Bool.not_true]
  refine ⟨?_, ?_⟩
  · intro h
    obtain ⟨before, after, h, hbefore, hp⟩ := h
    exact ⟨hp, before, after, h, hbefore⟩
  · intro h
    obtain ⟨hp, before, after, h, hbefore⟩ := h
    exact ⟨before, after, h, hbefore, hp⟩

/-- The path ends in a file name, and that has no extension. -/
def endsInPlainName (p : WinStr) : Bool :=
  match splitFileName p with
  | none => false
  | some (parent, name) => parent ++ name == p && fileStem name == name

theorem withExtension_plain {p x : WinStr} (hp : endsInPlainName p = true) (hx : x ≠ []) :
    withExtension p x = p ++ DOT :: x := by
  unfold endsInPlainName at hp
  unfold withExtension
  cases hs : splitFileName p with
  | none => rw [hs] at hp; cases hp
  | some split =>
    rw [hs, Bool.and_eq_true, beq_iff_eq, beq_iff_eq] at hp
    dsimp only
    rw [hp.2, hp.1, if_neg hx]

section
variable [ToLowercase]

/-- The extensions, `.EXE` by default. -/
def pathExt (b : Builder) : List WinStr := splitPaths ((b.getEnv (wide "PATHEXT")).getD (wide ".EXE"))

/-- The entries of `PATH`, none if it is not set. -/
def pathDirs (b : Builder) : List WinStr :=
  match b.getEnv (wide "PATH") with
  | some path => splitPaths path
  | none => []

/-- An entry of `PATHEXT` that the loop can use: valid Unicode that begins with an ASCII
character and has no separator after it. -/
def usableExt (ext : WinStr) : Bool :=
  isUnicode ext && ext.head?.any (· < 0x80) && !ext.tail.any isSep

/-- One round of the loop over the extensions, up to its test. -/
def withPathExt (candidate ext : WinStr) : Except Panic WinStr := do
  let ext ← match toStr ext with
    | some ext => Except.ok ext
    | none => .error .notUtf8
  let ext ← dropFirstByte ext
  if ext.any isSep then .error .separator
  .ok (withExtension candidate ext)

/-- What is tried below an entry of `PATH`. -/
def dirAttempts (exe : WinStr) (exts : List WinStr) (dir : WinStr) : List (Except Panic WinStr) :=
  .ok (join dir exe) :: exts.map (withPathExt (join dir exe))

/-- What `search_path` tries, in its order. -/
def attempts (b : Builder) (exe : WinStr) : List (Except Panic WinStr) :=
  (pathDirs b).flatMap (dirAttempts exe (pathExt b))

/-- The paths tried when none of them exists, up to a panic. -/
def tried (b : Builder) (exe : WinStr) : List WinStr := FirstHit.tried (attempts b exe)

theorem withPathExt_usable {candidate ext : WinStr} (h : usableExt ext = true) :
    withPathExt candidate ext = .ok (withExtension candidate ext.tail) := by
  obtain _ | ⟨c, rest⟩ := ext
  · cases h
  · simp only [usableExt, List.head?_cons, Option.any_some, List.tail_cons, Bool.and_eq_true,
      decide_eq_true_eq, Bool.not_eq_true'] at h
    have hs : toStr (c :: rest) = some (c :: rest) := if_pos h.1.1
    simp [withPathExt, hs, dropFirstByte, bind, Except.bind, h.1.2, h.2]

/-- Any other entry panics. -/
theorem withPathExt_unusable {candidate ext : WinStr} (h : usableExt ext = false) :
    ∃ p, withPathExt candidate ext = .error p := by
  unfold withPathExt
  cases hu : isUnicode ext with
  | false =>
    have hs : toStr ext = none := if_neg (by simp [hu])
    exact ⟨.notUtf8, by rw [hs]; rfl⟩
  | true =>
    have hs : toStr ext = some ext := if_pos hu
    obtain _ | ⟨c, rest⟩ := ext
    · exact ⟨.slice, by rw [hs]; rfl⟩
    · by_cases hc : c < 0x80
      · have hsep : rest.any isSep = true := by simpa [usableExt, hu, hc] using h
        exact ⟨.separator, by simp [hs, dropFirstByte, bind, Except.bind, hc, hsep]⟩
      · exact ⟨.slice, by simp [hs, dropFirstByte, bind, Except.bind, hc]⟩

theorem withPathExt_eq {candidate ext p : WinStr} (h : withPathExt candidate ext = .ok p) :
    p = withExtension candidate ext.tail := by
  cases hu : usableExt ext with
  | true =>
    rw [withPathExt_usable hu] at h
    exact (Except.ok.inj h).symm
  | false =>
    obtain ⟨e, he⟩ : ∃ e, withPathExt candidate ext = .error e := withPathExt_unusable hu
    rw [he] at h
    cases h

theorem searchExtensions_eq {w : World} {candidate : WinStr} (exts : List WinStr) :
    searchExtensions w candidate exts =
      FirstHit.scan w.pathExists (exts.map (withPathExt candidate)) := by
  induction exts with
  | nil => rfl
  | cons ext exts ih =>
    simp only [searchExtensions, List.map_cons, withPathExt, bind, Except.bind]
    cases toStr ext with
    | none => rfl
    | some ext' =>
      dsimp only
      cases dropFirstByte ext' with
      | error e => rfl
      | ok rest =>
        dsimp only
        cases rest.any isSep with
        | true => rfl
        | false =>
          show (if _ then _ else _) = FirstHit.scan _ (.ok _ :: _)
          rw [FirstHit.scan, if_neg Bool.false_ne_true, ih]

theorem searchDirs_eq {w : World} {exe : WinStr} {exts : List WinStr} (dirs : List WinStr) :
    searchDirs w exe exts dirs =
      (FirstHit.scan w.pathExists (dirs.flatMap (dirAttempts exe exts))).map (·.getD exe) := by
  induction dirs with
  | nil => rfl
  | cons dir dirs ih =>
    rw [List.flatMap_cons, FirstHit.scan_append, dirAttempts, FirstHit.scan, ← searchExtensions_eq]
    simp only [searchDirs, bind, Except.bind]
    cases w.pathExists (join dir exe) with
    | true => rfl
    | false =>
      cases searchExtensions w (join dir exe) exts with
      | error e => rfl
      | ok found =>
        cases found with
        | some p => rfl
        | none => exact ih

/-- `search_path` is a scan of its attempts, and falls back to the name. -/
theorem searchPath_eq {w : World} {b : Builder} {exe : WinStr} : searchPath w b exe =
    (FirstHit.scan w.pathExists (attempts b exe)).map (·.getD exe) := by
  rw [searchPath, attempts, pathDirs]
  cases b.getEnv (wide "PATH") with
  | none => rfl
  | some path => exact searchDirs_eq (splitPaths path)

theorem searchPath_found {w : World} {b : Builder} {exe p : WinStr}
    (h : (tried b exe).find? w.pathExists = some p) : searchPath w b exe = .ok p := by
  rw [searchPath_eq, FirstHit.scan_eq_some.mpr h]
  rfl

/-- Where nothing that is tried exists, the name comes back or the search panics. -/
theorem searchPath_missing {w : World} {b : Builder} {exe : WinStr}
    (h : (tried b exe).find? w.pathExists = none) :
    if FirstHit.fails (attempts b exe) then ∃ e, searchPath w b exe = .error e
    else searchPath w b exe = .ok exe := by
  have hnone : ∀ p ∈ tried b exe, w.pathExists p = false := by simpa using h
  rw [searchPath_eq]
  cases hf : FirstHit.fails (attempts b exe) with
  | true =>
    obtain ⟨e, he⟩ := FirstHit.scan_fails_iff.mpr ⟨hf, hnone⟩
    exact ⟨e, by rw [he]; rfl⟩
  | false =>
    cases hs : FirstHit.scan w.pathExists (attempts b exe) with
    | error e =>
      have := (FirstHit.scan_fails_iff.mp ⟨e, hs⟩).1
      rw [hf] at this
      cases this
    | ok found =>
      cases found with
      | none => rfl
      | some p =>
        rw [tried, FirstHit.scan_eq_some.mp hs] at h
        cases h

theorem searchPath_returns {w : World} {b : Builder} {exe : WinStr} :
    (∃ p, searchPath w b exe = .ok p) ↔
      (FirstHit.fails (attempts b exe) = true → ∃ p ∈ tried b exe, w.pathExists p = true) := by
  rw [← List.find?_isSome]
  cases hfind : (tried b exe).find? w.pathExists with
  | some p => exact iff_of_true ⟨p, searchPath_found hfind⟩ fun _ => rfl
  | none =>
    have hm := searchPath_missing hfind
    cases hf : FirstHit.fails (attempts b exe) with
    | true =>
      rw [hf, if_pos rfl] at hm
      obtain ⟨e, he⟩ := hm
      simp [he]
    | false =>
      rw [hf, if_neg Bool.false_ne_true] at hm
      exact iff_of_true ⟨exe, hm⟩ fun h => by cases h

/-- A path other than the name is the first one tried that exists. -/
theorem find?_of_searchPath {w : World} {b : Builder} {exe p : WinStr}
    (h : searchPath w b exe = .ok p) (hne : p ≠ exe) : (tried b exe).find? w.pathExists = some p := by
  cases hf : (tried b exe).find? w.pathExists with
  | some q =>
    rw [searchPath_found hf] at h
    cases h
    rfl
  | none =>
    have hm := searchPath_missing hf
    split at hm
    · obtain ⟨e, he⟩ := hm
      rw [he] at h
      cases h
    · rw [hm] at h
      cases h
      exact absurd rfl hne

/-! The names that are tried. -/

/-- What `search_path` is asked for: for each entry `d` of `PATH`, the name below `d`, and
that followed by each extension. -/
def asked (b : Builder) (exe : WinStr) : List WinStr :=
  (pathDirs b).flatMap fun dir => join dir exe :: (pathExt b).map (join dir exe ++ ·)

/-- Every entry of `PATHEXT` is a dot and something after it. -/
def DottedPathExt (b : Builder) : Prop := ∀ ext ∈ pathExt b, ∃ x, x ≠ [] ∧ ext = DOT :: x

/-- Names without an extension are tried as they are asked for. -/
theorem leads_of_plain {b : Builder} {exe : WinStr} (hext : DottedPathExt b)
    (hplain : ∀ dir ∈ pathDirs b, endsInPlainName (join dir exe) = true) :
    FirstHit.Leads (·.contains 0) exe (tried b exe) (asked b exe) := by
  have hdir : ∀ dir ∈ pathDirs b, (dirAttempts exe (pathExt b) dir).Forall₂
      (fun x p => ∀ q, x = .ok q → q = p) (join dir exe :: (pathExt b).map (join dir exe ++ ·)) := by
    intro dir hdir
    refine .cons (fun q hq => (Except.ok.inj hq).symm) ?_
    rw [List.forall₂_map_left_iff, List.forall₂_map_right_iff, List.forall₂_same]
    intro ext he q hq
    obtain ⟨x, hx, rfl⟩ := hext ext he
    rw [withPathExt_eq hq, List.tail_cons, withExtension_plain (hplain dir hdir) hx]
  have hprefix : tried b exe <+: asked b exe :=
    FirstHit.tried_flatMap_prefix hdir
  obtain ⟨rest, hrest⟩ := hprefix
  rw [← hrest]
  exact (FirstHit.Leads.refl _).append rest

end

/-- A builder with a `PATH` and a `PATHEXT`. -/
def searcher (path pathExt : WinStr) : letI := asciiLowercase; Builder :=
  letI := asciiLowercase
  .newDefaultProg (Envs.empty.insert { isFromBaseEnv := true, preferredKey := wide "PATH", value := path }
    |>.insert { isFromBaseEnv := true, preferredKey := wide "PATHEXT", value := pathExt }) ()

def isFile (w : World) (p : WinStr) : Bool := w.pathExists p && !w.isDir p

/-- Before every directory that is tried there is a file. -/
def FilesBeforeDirs (w : World) (paths : List WinStr) : Prop :=
  ∀ before d after, paths = before ++ d :: after → w.pathExists d = true → w.isDir d = true →
    ∃ c ∈ before, isFile w c = true

theorem isFile_exists {w : World} {p : WinStr} (h : isFile w p = true) : w.pathExists p = true :=
  (Bool.and_eq_true_iff.mp h).1

/-- The first path that exists is the one that matters. -/
theorem filesBeforeDirs_iff {w : World} {paths : List WinStr} {p : WinStr}
    (h : FirstExisting w paths p) : FilesBeforeDirs w paths ↔ w.isDir p = false := by
  refine ⟨?_, ?_⟩
  · intro hfiles
    obtain ⟨before, after, hsplit, hbefore, hp⟩ := h
    by_contra hdir
    obtain ⟨f, hf, hfile⟩ := hfiles before p after hsplit hp (by simpa using hdir)
    have hnone : w.pathExists f = false := hbefore f hf
    rw [isFile_exists hfile] at hnone
    cases hnone
  · intro hdir before d after hsplit hd hddir
    have hfind := firstExisting_iff.mp h
    have hp : w.pathExists p = true := List.find?_some hfind
    rw [hsplit, List.find?_append, List.find?_cons, hd] at hfind
    cases hb : before.find? w.pathExists with
    | none =>
      -- then it is `d`, which is a directory
      rw [hb] at hfind
      cases hfind
      rw [hdir] at hddir
      cases hddir
    | some q =>
      rw [hb] at hfind
      cases hfind
      exact ⟨p, List.mem_of_find?_eq_some hb, by simp [isFile, hp, hdir]⟩

section
variable [ToLowercase]

/-- If one of the paths tried is an existing file, what is returned is no directory. -/
def NotShadowed (w : World) (b : Builder) (exe : WinStr) : Prop :=
  (∃ c ∈ tried b exe, isFile w c = true) → ∀ p, searchPath w b exe = .ok p → w.isDir p = false

/-- No directory shadows a program exactly when there is no program to find, or one comes
before every directory. -/
theorem not_shadowed_iff (w : World) (b : Builder) (exe : WinStr) : NotShadowed w b exe ↔
    (∀ c ∈ tried b exe, isFile w c = false) ∨ FilesBeforeDirs w (tried b exe) := by
  by_cases hfile : ∃ c ∈ tried b exe, isFile w c = true
  · obtain ⟨c, hc, hcf⟩ := hfile
    obtain ⟨p, hp⟩ : ∃ p, (tried b exe).find? w.pathExists = some p :=
      Option.isSome_iff_exists.mp (List.find?_isSome.mpr ⟨c, hc, isFile_exists hcf⟩)
    have hnofile : ¬ ∀ c ∈ tried b exe, isFile w c = false := fun h => by
      rw [h c hc] at hcf
      cases hcf
    rw [or_iff_right hnofile, filesBeforeDirs_iff (firstExisting_iff.mpr hp), NotShadowed,
      searchPath_found hp]
    refine ⟨?_, ?_⟩
    · intro h
      exact h ⟨c, hc, hcf⟩ p rfl
    · intro hdir _ q hq
      cases hq
      exact hdir
  · refine iff_of_true (fun h => absurd h hfile) (.inl fun c hc => ?_)
    rw [← Bool.not_eq_true]
    intro hcf
    exact hfile ⟨c, hc, hcf⟩

end

/-- The directory `tool` in the first entry of `PATH` hides the program in the second. -/
theorem directory_shadows_program :
    letI := asciiLowercase
    ¬ ∀ (w : World) (b : Builder) (exe : WinStr), NotShadowed w b exe := by
  let := asciiLowercase
  intro h
  have hdir := h (World.of [wide "C:\\b\\tool.EXE"] [wide "C:\\a\\tool"] (by decide))
    (searcher (wide "C:\\a;C:\\b") (wide ".EXE")) (wide "tool")
    ⟨wide "C:\\b\\tool.EXE", by decide, by decide⟩ (wide "C:\\a\\tool") (by decide)
  exact absurd hdir (by decide)

end Xpty.Win
