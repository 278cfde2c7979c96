import Xpty.WinArgv
import Xpty.WinSearch

/- When `search_path`, `cmdline` and `spawn_command` return on Windows, and what `cmdline`
   then hands to `CreateProcessW`.

   The search panics at the first entry of `PATHEXT` that it cannot use, and it reaches
   that entry in the first directory of `PATH` unless the program is found before
   (`search_returns_iff`). An argument with a NUL in it is refused; the program's own name
   is not checked, so a NUL in it ends up inside both buffers (`no_embedded_nul_iff`). -/
namespace Xpty.Win

theorem splitPathsFrom_ne_nil : ∀ (s : WinStr) (q : Bool) (entry : WinStr), splitPathsFrom q entry s ≠ []
  | [], _, _ => List.cons_ne_nil _ _
  | c :: s, q, entry => by
    rw [splitPathsFrom]
    split
    · exact splitPathsFrom_ne_nil s _ _
    · split
      · exact List.cons_ne_nil _ _
      · exact splitPathsFrom_ne_nil s _ _

section
variable [ToLowercase]

/-! Panics. -/

/-- The first entry of `PATH` has the program, under its name or with an extension that
stands before the first unusable one. -/
def FoundAtOnce (w : World) (b : Builder) (exe : WinStr) : Prop :=
  ∃ dir dirs, pathDirs b = dir :: dirs ∧ (w.pathExists (join dir exe) = true ∨
    ∃ ext ∈ (pathExt b).takeWhile usableExt, w.pathExists (withExtension (join dir exe) ext.tail) = true)

/-- `PATH` is not set, or every entry of `PATHEXT` can be used, or the program is found
before one that cannot. -/
def SearchReturns (w : World) (b : Builder) (exe : WinStr) : Prop :=
  b.getEnv (wide "PATH") = none ∨ (∀ ext ∈ pathExt b, usableExt ext = true) ∨ FoundAtOnce w b exe

theorem pathDirs_eq_nil {b : Builder} : pathDirs b = [] ↔ b.getEnv (wide "PATH") = none := by
  unfold pathDirs
  cases b.getEnv (wide "PATH") with
  | none => simp
  | some path => simp [splitPaths, splitPathsFrom_ne_nil]

theorem dirAttempts_spec (exe : WinStr) (exts : List WinStr) (dir : WinStr) :
    FirstHit.tried (dirAttempts exe exts dir) =
        join dir exe :: (exts.takeWhile usableExt).map (fun ext => withExtension (join dir exe) ext.tail) ∧
      FirstHit.fails (dirAttempts exe exts dir) = !exts.all usableExt := by
  have hgood : ∀ ext, usableExt ext = true →
      withPathExt (join dir exe) ext = .ok (withExtension (join dir exe) ext.tail) :=
    fun _ h => withPathExt_usable h
  obtain ⟨htried, hfails⟩ := FirstHit.tried_map hgood (fun _ h => withPathExt_unusable h) exts
  unfold dirAttempts FirstHit.tried FirstHit.fails
  exact ⟨by rw [htried], hfails⟩

theorem fails_attempts {b : Builder} {exe : WinStr} : FirstHit.fails (attempts b exe) = true ↔
    pathDirs b ≠ [] ∧ (pathExt b).all usableExt = false := by
  unfold attempts
  induction pathDirs b with
  | nil => simp [FirstHit.fails]
  | cons dir dirs ih =>
    rw [List.flatMap_cons, FirstHit.fails_append, (dirAttempts_spec _ _ _).2, Bool.or_eq_true, ih]
    cases (pathExt b).all usableExt <;> simp

/-- With an unusable extension, only the first entry of `PATH` is searched. -/
theorem tried_of_unusable {b : Builder} {exe dir : WinStr} {dirs : List WinStr}
    (hdirs : pathDirs b = dir :: dirs) (h : (pathExt b).all usableExt = false) :
    tried b exe = join dir exe ::
      ((pathExt b).takeWhile usableExt).map fun ext => withExtension (join dir exe) ext.tail := by
  obtain ⟨htried, hfails⟩ := dirAttempts_spec exe (pathExt b) dir
  rw [tried, attempts, hdirs, List.flatMap_cons, FirstHit.tried_append, hfails, h]
  exact htried

theorem search_returns_iff {w : World} {b : Builder} {exe : WinStr} :
    (∃ p, searchPath w b exe = .ok p) ↔ SearchReturns w b exe := by
  rw [searchPath_returns, fails_attempts, SearchReturns, ← pathDirs_eq_nil, ← List.all_eq_true]
  cases hexts : (pathExt b).all usableExt with
  | true => simp
  | false =>
    cases hdirs : pathDirs b with
    | nil => simp
    | cons dir dirs =>
      rw [tried_of_unusable hdirs hexts]
      simp [FoundAtOnce, hdirs]

/-- A call that does not panic. -/
def Returns {α : Type} (r : Except Fault α) : Prop := ∀ p, r ≠ .error (.panic p)

/-- Every search that the builder makes returns. -/
def SearchesReturn (w : World) (b : Builder) : Prop :=
  ∀ exe, b.args.head? = some exe → SearchReturns w b exe

/-- The search for the program, `cmdline` and `spawn_command` all return. -/
structure LookupReturns (m : Machine) (w : World) (b : Builder) : Prop where
  search : ∀ exe, b.args.head? = some exe → ∃ p, searchPath w b exe = .ok p
  cmdline : Returns (cmdline w b)
  spawn : Returns (spawnCommand m w b)

theorem resolveExe_returns {w : World} {b : Builder} :
    (∃ prog, resolveExe w b = .ok prog) ↔ SearchesReturn w b := by
  unfold resolveExe SearchesReturn
  cases b.args with
  | nil => simp
  | cons argv0 args => simp [search_returns_iff]

theorem cmdline_returns {w : World} {b : Builder} : Returns (cmdline w b) ↔ SearchesReturn w b := by
  simp only [Returns, ne_eq, cmdline_panic, ← resolveExe_returns]
  cases resolveExe w b <;> simp

theorem spawnCommand_returns {m : Machine} {w : World} {b : Builder} (h : Returns (cmdline w b)) :
    Returns (spawnCommand m w b) := by
  intro p
  unfold spawnCommand
  cases attributeList m with
  | error e => simp [bind, Except.bind, Except.mapError]
  | ok u =>
    cases hcmd : cmdline w b with
    | error f =>
      cases f with
      | panic q => exact absurd hcmd (h q)
      | err e => simp [bind, Except.bind, Except.mapError]
    | ok out =>
      simp only [bind, Except.bind, Except.mapError]
      cases m.createProcess out.1 out.2 (environmentBlock b) (currentDirectory w b) <;> simp

/-- No call panics exactly when no search that the builder makes does. -/
theorem lookup_returns_iff (m : Machine) (w : World) (b : Builder) :
    LookupReturns m w b ↔ SearchesReturn w b := by
  refine ⟨?_, ?_⟩
  · intro h exe hexe
    exact search_returns_iff.mp (h.search exe hexe)
  · intro h
    have hcmd := cmdline_returns.mpr h
    exact ⟨fun exe hexe => search_returns_iff.mpr (h exe hexe), hcmd, spawnCommand_returns hcmd⟩

end

/-- With a `PATHEXT` that ends in a semicolon, a program that is not found. -/
theorem empty_extension_panics :
    letI := asciiLowercase
    searchPath noFiles (searcher (wide "C:\\bin") (wide ".EXE;")) (wide "tool") = .error .slice ∧
      ¬ ∀ (m : Machine) (w : World) (b : Builder), LookupReturns m w b := by
  let := asciiLowercase
  have hsearch : searchPath noFiles (searcher (wide "C:\\bin") (wide ".EXE;")) (wide "tool") =
      .error .slice := by decide
  refine ⟨hsearch, fun h => ?_⟩
  have hreturns := h willing noFiles
    { searcher (wide "C:\\bin") (wide ".EXE;") with args := [wide "tool"] }
  obtain ⟨p, hp⟩ := hreturns.search (wide "tool") rfl
  have hsame : searchPath noFiles (searcher (wide "C:\\bin") (wide ".EXE;")) (wide "tool") = .ok p := hp
  rw [hsearch] at hsame
  cases hsame

/-! NULs. -/

/-- One NUL, at the end. -/
def NulEnded (s : WinStr) : Prop := s.count 0 = 1 ∧ s.getLast? = some 0

theorem nulEnded_append {s : WinStr} : NulEnded (s ++ [0]) ↔ 0 ∉ s := by
  simp [NulEnded, List.count_eq_zero]

theorem mem_quoteLoop_of_mem {c : UInt16} (hc : c ≠ BACKSLASH) :
    ∀ {arg : WinStr} {n : Nat}, c ∈ arg → c ∈ quoteLoop n arg
  | d :: arg, n, h => by
    rw [quoteLoop]
    rcases List.mem_cons.mp h with rfl | h
    · rw [if_neg hc]
      split <;> simp
    · split
      · exact mem_quoteLoop_of_mem hc h
      · split <;> simp [mem_quoteLoop_of_mem hc h]

theorem mem_quoted_of_mem {exe : WinStr} (h : 0 ∈ exe) : 0 ∈ quoted exe := by
  unfold quoted
  split
  · simp [mem_quoteLoop_of_mem (show (0 : UInt16) ≠ BACKSLASH by decide) h]
  · exact h

theorem not_mem_line_iff {exe : WinStr} {args : List WinStr} (hargs : ∀ arg ∈ args, 0 ∉ arg) :
    0 ∉ quoted exe ++ argsLine args ↔ 0 ∉ exe := by
  refine ⟨?_, ?_⟩
  · intro h h0
    exact h (List.mem_append_left _ (mem_quoted_of_mem h0))
  · intro h0
    exact nul_not_mem_line h0 hargs

section
variable [ToLowercase]

/-- `cmdline` refuses, or returns two buffers with one NUL each, at the end. -/
def EmitsNoNul (w : World) (b : Builder) : Prop :=
  (∃ e, cmdline w b = .error (.err e)) ∨
    ∃ exe line, cmdline w b = .ok (exe, line) ∧ NulEnded exe ∧ NulEnded line

/-- The name of the program has no NUL, or a path that exists is found for it. -/
def ProgramWithoutNul (w : World) (b : Builder) : Prop :=
  match b.args with
  | [] => 0 ∉ (b.getEnv (wide "ComSpec")).getD (wide "cmd.exe")
  | exe :: _ => 0 ∉ exe ∨ ∃ p ∈ tried b exe, w.pathExists p = true

/-- The search finds a path without a NUL, or returns the name as it is. -/
theorem resolveExe_nul {w : World} {b : Builder} {prog : WinStr} (h : resolveExe w b = .ok prog) :
    0 ∉ prog ↔ ProgramWithoutNul w b := by
  unfold resolveExe at h
  unfold ProgramWithoutNul
  cases hargs : b.args with
  | nil =>
    rw [hargs] at h
    cases h
    exact Iff.rfl
  | cons exe args =>
    rw [hargs] at h
    dsimp only at h ⊢
    cases hfind : (tried b exe).find? w.pathExists with
    | some p =>
      rw [searchPath_found hfind] at h
      cases h
      have hp := List.find?_some hfind
      refine iff_of_true (fun h0 => ?_) (.inr ⟨prog, List.mem_of_find?_eq_some hfind, hp⟩)
      rw [w.exists_nul prog h0] at hp
      cases hp
    | none =>
      have hprog : prog = exe := by
        by_contra hne
        rw [find?_of_searchPath h hne] at hfind
        cases hfind
      have hnone : ¬ ∃ p ∈ tried b exe, w.pathExists p = true := by simpa using hfind
      rw [hprog, or_iff_left hnone]

/-- `cmdline` emits no NUL but the two terminators exactly when its search returns, and an
argument with a NUL makes it refuse or the program is without one. -/
theorem no_embedded_nul_iff (w : World) (b : Builder) : EmitsNoNul w b ↔
    SearchesReturn w b ∧ ((∃ arg ∈ b.args.drop 1, 0 ∈ arg) ∨ ProgramWithoutNul w b) := by
  rw [← resolveExe_returns, EmitsNoNul, cmdline_err]
  cases hres : resolveExe w b with
  | error p => simp [cmdline_ok, hres]
  | ok prog =>
    simp only [Except.ok.injEq, exists_eq', true_and, ← resolveExe_nul hres]
    refine or_congr_right' fun hnone => ?_
    have hargs : ∀ arg ∈ b.args.drop 1, 0 ∉ arg := fun arg harg h0 => hnone ⟨arg, harg, h0⟩
    refine ⟨?_, ?_⟩
    · intro hemits
      obtain ⟨exe, line, hcmd, hexe, -⟩ := hemits
      obtain ⟨prog', hprog, -, rfl, -⟩ := cmdline_ok.mp hcmd
      rw [hres] at hprog
      cases hprog
      exact nulEnded_append.mp hexe
    · intro h0
      refine ⟨_, _, cmdline_ok.mpr ⟨prog, hres, hargs, rfl, rfl⟩, nulEnded_append.mpr h0, ?_⟩
      exact nulEnded_append.mpr ((not_mem_line_iff hargs).mpr h0)

end

/-- `a`, a NUL and `b`. -/
def nameWithNul : WinStr := wide "a" ++ 0 :: wide "b"

/-- The NUL in the program's name is in both buffers. -/
theorem program_nul_is_emitted :
    letI := asciiLowercase
    cmdline noFiles (.new nameWithNul .empty ()) = .ok (nameWithNul ++ [0], nameWithNul ++ [0]) ∧
      ¬ ∀ (w : World) (b : Builder), EmitsNoNul w b := by
  let := asciiLowercase
  have hcmd : cmdline noFiles (.new nameWithNul .empty ()) = .ok (nameWithNul ++ [0], nameWithNul ++ [0]) :=
    rfl
  refine ⟨hcmd, fun h => ?_⟩
  rcases h noFiles (.new nameWithNul .empty ()) with ⟨e, he⟩ | ⟨exe, line, hok, hexe, -⟩
  · rw [hcmd] at he
    cases he
  · rw [hcmd] at hok
    cases hok
    exact absurd hexe.1 (by decide)

end Xpty.Win
