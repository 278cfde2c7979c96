import Xpty.WinPath

/- `CommandBuilder::cmdline` on Windows and its quoting. An argument that is not empty
   and holds no blank and no quote is written as it is. Any other is put in quotes,
   with the backslashes doubled before a quote and at the end.

   `cmdline_ok` says what `cmdline` returns: the program and the arguments, each quoted
   on its own, behind one space. -/
namespace Xpty.Win

/-! The encoder. -/

def NEWLINE : UInt16 := 0x0A
def TAB : UInt16 := 0x09
def VTAB : UInt16 := 0x0B

/-- The code units that put an argument in quotes. -/
def isSpecial (c : UInt16) : Bool :=
  c == SPACE || c == TAB || c == NEWLINE || c == VTAB || c == QUOTE

def needsQuotes (arg : WinStr) : Bool := arg.isEmpty || arg.any isSpecial

/-- The loop of `append_quoted`: what it writes for the rest of the argument, having
read `numBackslashes` backslashes and not written any yet. -/
def quoteLoop (numBackslashes : Nat) : WinStr → WinStr
  | [] => List.replicate (numBackslashes * 2) BACKSLASH
  | c :: arg =>
    if c = BACKSLASH then quoteLoop (numBackslashes + 1) arg
    else if c = QUOTE then
      -- the backslashes are doubled, and one more escapes the quote
      List.replicate (numBackslashes * 2 + 1) BACKSLASH ++ c :: quoteLoop 0 arg
    else List.replicate numBackslashes BACKSLASH ++ c :: quoteLoop 0 arg

/-- What `append_quoted` appends. -/
def quoted (arg : WinStr) : WinStr :=
  if needsQuotes arg then QUOTE :: quoteLoop 0 arg ++ [QUOTE] else arg

def appendQuoted (arg cmdline : WinStr) : WinStr := cmdline ++ quoted arg

inductive Fault where
  | panic (p : Panic)
  | err (e : Error WinStr)

/-- The loop over the arguments, with the line so far. -/
def appendArgs (cmdline : WinStr) : List WinStr → Except (Error WinStr) WinStr
  | [] => .ok cmdline
  | arg :: args =>
    let cmdline := cmdline ++ [SPACE]
    if arg.contains 0 then
      .error (.other [.text "invalid encoding for command line argument ", .debug arg])
    else appendArgs (appendQuoted arg cmdline) args

section
variable [ToLowercase]

/-- The program that `cmdline` starts: `ComSpec` by default. -/
def resolveExe (w : World) (b : Builder) : Except Panic WinStr :=
  match b.args with
  | [] => .ok ((b.getEnv (wide "ComSpec")).getD (wide "cmd.exe"))
  | argv0 :: _ => searchPath w b argv0

/-- `CommandBuilder::cmdline`: the program and the line, each with a final NUL. -/
def cmdline (w : World) (b : Builder) : Except Fault (WinStr × WinStr) := do
  let exe ← (resolveExe w b).mapError .panic
  let line := appendQuoted exe []
  let line ← (appendArgs line (b.args.drop 1)).mapError .err
  .ok (exe ++ [0], line ++ [0])

end

/-- The line after the program. -/
def argsLine (args : List WinStr) : WinStr := args.flatMap fun arg => SPACE :: quoted arg

theorem appendArgs_ok : ∀ {args : List WinStr} {line : WinStr}, (∀ arg ∈ args, 0 ∉ arg) →
    appendArgs line args = .ok (line ++ argsLine args)
  | [], line, _ => by simp [appendArgs, argsLine]
  | arg :: args, line, h => by
    have harg : arg.contains 0 = false := by simpa using h arg (by simp)
    rw [appendArgs, harg, if_neg Bool.false_ne_true, appendQuoted,
      appendArgs_ok fun a ha => h a (by simp [ha])]
    simp [argsLine]

theorem appendArgs_eq_ok {line out : WinStr} : ∀ {args : List WinStr},
    appendArgs line args = .ok out → out = line ++ argsLine args ∧ ∀ arg ∈ args, 0 ∉ arg := by
  intro args
  induction args generalizing line with
  | nil =>
    intro h
    cases h
    simp [argsLine]
  | cons arg args ih =>
    intro h
    rw [appendArgs] at h
    split at h
    · cases h
    · rename_i harg
      obtain ⟨rfl, hargs⟩ := ih h
      refine ⟨by simp [appendQuoted, argsLine], List.forall_mem_cons.mpr ⟨by simpa using harg, hargs⟩⟩

theorem appendArgs_error {line : WinStr} {args : List WinStr} :
    (∃ e, appendArgs line args = .error e) ↔ ∃ arg ∈ args, 0 ∈ arg := by
  cases h : appendArgs line args with
  | ok out =>
    have hargs := (appendArgs_eq_ok h).2
    refine iff_of_false (by rintro ⟨e, he⟩; cases he) ?_
    intro h
    obtain ⟨arg, harg, h0⟩ := h
    exact hargs arg harg h0
  | error e =>
    refine iff_of_true ⟨e, rfl⟩ ?_
    by_contra hnone
    rw [appendArgs_ok fun arg harg h0 => hnone ⟨arg, harg, h0⟩] at h
    cases h

/-- What `cmdline` returns, when it does. -/
theorem cmdline_ok [ToLowercase] {w : World} {b : Builder} {exe line : WinStr} :
    cmdline w b = .ok (exe, line) ↔ ∃ prog, resolveExe w b = .ok prog ∧
      (∀ arg ∈ b.args.drop 1, 0 ∉ arg) ∧ exe = prog ++ [0] ∧
        line = quoted prog ++ argsLine (b.args.drop 1) ++ [0] := by
  rw [cmdline]
  cases resolveExe w b with
  | error p => simp [bind, Except.bind, Except.mapError]
  | ok prog =>
    simp only [bind, Except.bind, Except.mapError, appendQuoted, List.nil_append]
    refine ⟨?_, ?_⟩
    · intro h
      cases ha : appendArgs (quoted prog) (b.args.drop 1) with
      | error e => rw [ha] at h; cases h
      | ok out =>
        rw [ha] at h
        cases h
        obtain ⟨rfl, hargs⟩ := appendArgs_eq_ok ha
        exact ⟨prog, rfl, hargs, rfl, rfl⟩
    · intro h
      obtain ⟨prog', hprog, hargs, rfl, rfl⟩ := h
      cases hprog
      rw [appendArgs_ok hargs]

/-- `cmdline` refuses an argument with a NUL in it, and nothing else. -/
theorem cmdline_err [ToLowercase] {w : World} {b : Builder} : (∃ e, cmdline w b = .error (.err e)) ↔
    (∃ prog, resolveExe w b = .ok prog) ∧ ∃ arg ∈ b.args.drop 1, 0 ∈ arg := by
  rw [cmdline]
  cases resolveExe w b with
  | error p => simp [bind, Except.bind, Except.mapError]
  | ok prog =>
    rw [← @appendArgs_error (quoted prog)]
    simp only [bind, Except.bind, Except.mapError, appendQuoted, List.nil_append]
    cases appendArgs (quoted prog) (b.args.drop 1) with
    | ok line => simp
    | error e => simp

/-- Only the search for the program panics. -/
theorem cmdline_panic [ToLowercase] {w : World} {b : Builder} {p : Panic} :
    cmdline w b = .error (.panic p) ↔ resolveExe w b = .error p := by
  rw [cmdline]
  cases resolveExe w b with
  | error p => simp [bind, Except.bind, Except.mapError]
  | ok prog =>
    simp only [bind, Except.bind, Except.mapError]
    cases appendArgs (appendQuoted prog []) (b.args.drop 1) with
    | ok line => simp
    | error e => simp

end Xpty.Win
