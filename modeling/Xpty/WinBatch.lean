import Xpty.WinCmdline

/- The line of `cmdline` as `cmd.exe` reads it, which runs a `.bat` or `.cmd` program:
   every quote toggles its quotes, a backslash escapes nothing, and `&`, `|`, `<` and
   `>` are operators outside quotes.

   `cmdline` quotes for the other reader whatever the program is. The quotes it adds
   around an argument come in pairs, and the ones inside it are all kept, so that the
   state of `cmd.exe` at an operator is the parity of the quotes that the program and
   the arguments themselves hold up to there, and of whether the operator's own argument
   was put in quotes: `operator_outside_iff`. -/
namespace Xpty.Win

def isOperator (c : UInt16) : Bool := c == 0x26 || c == 0x7C || c == 0x3C || c == 0x3E

/-- Whether `cmd.exe` is inside quotes after it has read a text. -/
def quotesAfter (inQuotes : Bool) (text : WinStr) : Bool :=
  text.foldl (fun q c => if c = QUOTE then !q else q) inQuotes

/-- An operator stands outside quotes. -/
def operatorOutside (inQuotes : Bool) : WinStr → Bool
  | [] => false
  | c :: text =>
    if c = QUOTE then operatorOutside (!inQuotes) text
    else (isOperator c && !inQuotes) || operatorOutside inQuotes text

theorem quotesAfter_append (q : Bool) (x y : WinStr) :
    quotesAfter q (x ++ y) = quotesAfter (quotesAfter q x) y := by
  simp [quotesAfter]

theorem quotesAfter_cons (q : Bool) (c : UInt16) (x : WinStr) :
    quotesAfter q (c :: x) = quotesAfter (if c = QUOTE then !q else q) x := rfl

theorem quotesAfter_not : ∀ (q : Bool) (x : WinStr), quotesAfter (!q) x = !quotesAfter q x
  | q, [] => rfl
  | q, c :: x => by
    rw [quotesAfter_cons, quotesAfter_cons]
    split
    · exact quotesAfter_not (!q) x
    · exact quotesAfter_not q x

/-- The state is the parity of the quotes. -/
theorem quotesAfter_eq : ∀ (q : Bool) (x : WinStr),
    quotesAfter q x = (q ^^ decide (x.count QUOTE % 2 = 1))
  | q, [] => by simp [quotesAfter]
  | q, c :: x => by
    rw [quotesAfter_cons, quotesAfter_eq]
    by_cases hc : c = QUOTE
    · rw [if_pos hc, hc, List.count_cons_self]
      rcases Nat.mod_two_eq_zero_or_one (x.count QUOTE) with h | h <;>
        cases q <;> simp [Nat.add_mod, h]
    · rw [if_neg hc, List.count_cons_of_ne hc]

theorem operatorOutside_append : ∀ (q : Bool) (x y : WinStr), operatorOutside q (x ++ y) =
    (operatorOutside q x || operatorOutside (quotesAfter q x) y)
  | q, [], y => rfl
  | q, c :: x, y => by
    rw [List.cons_append, operatorOutside, operatorOutside, quotesAfter_cons]
    split
    · exact operatorOutside_append (!q) x y
    · rw [operatorOutside_append q x y, Bool.or_assoc]

theorem operatorOutside_iff : ∀ {q : Bool} {text : WinStr}, operatorOutside q text = true ↔
    ∃ x c y, text = x ++ c :: y ∧ isOperator c = true ∧ quotesAfter q x = false
  | q, [] => by simp [operatorOutside]
  | q, c :: text => by
    have hhead : (∃ x d y, c :: text = x ++ d :: y ∧ isOperator d = true ∧ quotesAfter q x = false) ↔
        (isOperator c = true ∧ q = false) ∨ ∃ x d y, text = x ++ d :: y ∧ isOperator d = true ∧
          quotesAfter (if c = QUOTE then !q else q) x = false := by
      refine ⟨?_, ?_⟩
      · intro hex
        obtain ⟨x, d, y, h, hop, hq⟩ := hex
        cases x with
        | nil =>
          cases h
          exact .inl ⟨hop, hq⟩
        | cons e x =>
          obtain ⟨rfl, rfl⟩ := List.cons.inj h
          exact .inr ⟨x, d, y, rfl, hop, hq⟩
      · intro h
        obtain ⟨hop, hq⟩ | ⟨x, d, y, rfl, hop, hq⟩ := h
        · exact ⟨[], c, text, rfl, hop, hq⟩
        · exact ⟨c :: x, d, y, rfl, hop, hq⟩
    rw [hhead, operatorOutside]
    split
    · rename_i hc
      -- a quote is no operator itself
      have hop : isOperator c = false := by rw [hc]; rfl
      rw [operatorOutside_iff, hop]
      simp
    · rw [Bool.or_eq_true, Bool.and_eq_true, Bool.not_eq_true', operatorOutside_iff]

/-! What the quoting does to the state. -/

/-- Backslashes change nothing. -/
theorem quotesAfter_replicate (q : Bool) (n : Nat) :
    quotesAfter q (List.replicate n BACKSLASH) = q ∧
      operatorOutside q (List.replicate n BACKSLASH) = false := by
  have hc : ¬ BACKSLASH = QUOTE := by decide
  have hop : isOperator BACKSLASH = false := rfl
  induction n with
  | zero => exact ⟨rfl, rfl⟩
  | succ n ih =>
    rw [List.replicate_succ, quotesAfter_cons, if_neg hc, operatorOutside, if_neg hc, hop]
    exact ih

/-- The loop leaves the state, and its operators, as the argument itself would. -/
theorem quoteLoop_state : ∀ (arg : WinStr) (n : Nat) (q : Bool),
    quotesAfter q (quoteLoop n arg) = quotesAfter q arg ∧
      operatorOutside q (quoteLoop n arg) = operatorOutside q arg
  | [], n, q => by
    rw [quoteLoop]
    exact quotesAfter_replicate q _
  | c :: arg, n, q => by
    rw [quoteLoop]
    split
    · rename_i hc
      have hne : ¬ c = QUOTE := by rw [hc]; decide
      have hop : isOperator c = false := by rw [hc]; rfl
      rw [quotesAfter_cons, if_neg hne, operatorOutside, if_neg hne, hop]
      exact quoteLoop_state arg (n + 1) q
    · have hrest : ∀ k, quotesAfter q (List.replicate k BACKSLASH ++ c :: quoteLoop 0 arg) =
            quotesAfter q (c :: arg) ∧
          operatorOutside q (List.replicate k BACKSLASH ++ c :: quoteLoop 0 arg) =
            operatorOutside q (c :: arg) := by
        intro k
        obtain ⟨hq, ho⟩ := quotesAfter_replicate q k
        rw [quotesAfter_append, operatorOutside_append, hq, ho, Bool.false_or, quotesAfter_cons,
          quotesAfter_cons, operatorOutside, operatorOutside, (quoteLoop_state arg 0 _).1,
          (quoteLoop_state arg 0 _).2, (quoteLoop_state arg 0 _).2]
        exact ⟨rfl, rfl⟩
      split
      · exact hrest _
      · exact hrest _

/-- The quotes around an argument are a pair. -/
theorem quotesAfter_quoted (q : Bool) (arg : WinStr) :
    quotesAfter q (quoted arg) = quotesAfter q arg := by
  rw [quoted]
  split
  · rw [List.cons_append, quotesAfter_cons, if_pos rfl, quotesAfter_append, (quoteLoop_state arg 0 _).1,
      quotesAfter_not, quotesAfter_cons, if_pos rfl, Bool.not_not]
    rfl
  · rfl

theorem operatorOutside_quoted (q : Bool) (arg : WinStr) :
    operatorOutside q (quoted arg) = operatorOutside (q ^^ needsQuotes arg) arg := by
  rw [quoted]
  cases needsQuotes arg with
  | true =>
    have hlast : ∀ q, operatorOutside q [QUOTE] = false := fun q => rfl
    rw [if_pos rfl, List.cons_append, operatorOutside, if_pos rfl, operatorOutside_append,
      (quoteLoop_state arg 0 _).2, hlast, Bool.or_false, Bool.xor_true]
  | false => rw [if_neg Bool.false_ne_true, Bool.xor_false]

/-- An operator of the arguments stands outside quotes exactly if one does in some
argument, read from the state that the earlier ones and its own quotes leave. -/
theorem operatorOutside_argsLine : ∀ {args : List WinStr} {q : Bool},
    operatorOutside q (argsLine args) = true ↔ ∃ earlier arg later, args = earlier ++ arg :: later ∧
      operatorOutside (quotesAfter q earlier.flatten ^^ needsQuotes arg) arg = true
  | [], q => by simp [argsLine, operatorOutside]
  | arg :: args, q => by
    have hspace : ¬ SPACE = QUOTE := by decide
    have hop : isOperator SPACE = false := rfl
    have hline : argsLine (arg :: args) = SPACE :: (quoted arg ++ argsLine args) := rfl
    rw [hline, operatorOutside, if_neg hspace, hop, Bool.false_and, Bool.false_or,
      operatorOutside_append, operatorOutside_quoted, quotesAfter_quoted, Bool.or_eq_true,
      operatorOutside_argsLine]
    refine ⟨?_, ?_⟩
    · intro hex
      obtain h | ⟨earlier, a, later, rfl, h⟩ := hex
      · exact ⟨[], arg, args, rfl, h⟩
      · exact ⟨arg :: earlier, a, later, rfl, by rwa [List.flatten_cons, quotesAfter_append]⟩
    · -- the operator is in this argument, or in one after it
      intro hex
      obtain ⟨earlier, a, later, hargs, h⟩ := hex
      cases earlier with
      | nil =>
        cases hargs
        exact .inl h
      | cons e earlier =>
        obtain ⟨rfl, rfl⟩ := List.cons.inj hargs
        rw [List.flatten_cons, quotesAfter_append] at h
        exact .inr ⟨earlier, a, later, rfl, h⟩

/-! The line. -/

/-- The quotes that stand before an operator in the program and the arguments
themselves, its argument `x ++ c :: y` coming after `earlier`, and the one that opens
its argument. -/
def quotesBefore (prog : WinStr) (earlier : List WinStr) (arg x : WinStr) : Nat :=
  prog.count QUOTE + earlier.flatten.count QUOTE + x.count QUOTE + if needsQuotes arg then 1 else 0

theorem quotesBefore_even {prog arg x : WinStr} {earlier : List WinStr} :
    quotesAfter (quotesAfter (quotesAfter false prog) earlier.flatten ^^ needsQuotes arg) x = false ↔
      quotesBefore prog earlier arg x % 2 = 0 := by
  simp only [quotesAfter_eq, quotesBefore, Bool.false_xor]
  rcases Nat.mod_two_eq_zero_or_one (prog.count QUOTE) with hp | hp <;>
    rcases Nat.mod_two_eq_zero_or_one (earlier.flatten.count QUOTE) with he | he <;>
    rcases Nat.mod_two_eq_zero_or_one (x.count QUOTE) with hx | hx <;>
    cases needsQuotes arg <;> simp [Nat.add_mod, hp, he, hx]

section
variable [ToLowercase]

/-- `cmdline` returns a line in which, after the program, an operator stands outside
quotes. -/
def Injects (w : World) (b : Builder) : Prop :=
  ∃ prog exe line, resolveExe w b = .ok prog ∧ cmdline w b = .ok (exe, line) ∧
    operatorOutside (quotesAfter false (line.take (quoted prog).length))
      (line.drop (quoted prog).length) = true

/-- An operator of the arguments stands outside quotes in the line exactly where the
number of quotes before it in the program and the arguments, with the one that opens its
own argument, is even. -/
theorem operator_outside_iff (w : World) (b : Builder) : Injects w b ↔
    ∃ prog, resolveExe w b = .ok prog ∧ (∀ arg ∈ b.args.drop 1, 0 ∉ arg) ∧
      ∃ earlier arg later x c y, b.args.drop 1 = earlier ++ arg :: later ∧ arg = x ++ c :: y ∧
        isOperator c = true ∧ quotesBefore prog earlier arg x % 2 = 0 := by
  have hline : ∀ prog : WinStr,
      operatorOutside (quotesAfter false (quoted prog)) (argsLine (b.args.drop 1) ++ [0]) = true ↔
        ∃ earlier arg later x c y, b.args.drop 1 = earlier ++ arg :: later ∧ arg = x ++ c :: y ∧
          isOperator c = true ∧ quotesBefore prog earlier arg x % 2 = 0 := by
    intro prog
    have hlast : ∀ q, operatorOutside q [0] = false := fun q => rfl
    rw [operatorOutside_append, hlast, Bool.or_false, quotesAfter_quoted, operatorOutside_argsLine]
    simp only [operatorOutside_iff, quotesBefore_even, exists_and_left]
  refine ⟨?_, ?_⟩
  · intro h
    obtain ⟨prog, exe, line, hprog, hcmd, hout⟩ := h
    obtain ⟨prog', hprog', hargs, -, rfl⟩ := cmdline_ok.mp hcmd
    rw [hprog] at hprog'
    cases hprog'
    rw [List.append_assoc, List.take_left, List.drop_left] at hout
    exact ⟨prog, hprog, hargs, (hline prog).mp hout⟩
  · intro hex
    obtain ⟨prog, hprog, hargs, h⟩ := hex
    refine ⟨prog, _, _, hprog, cmdline_ok.mpr ⟨prog, hprog, hargs, rfl, rfl⟩, ?_⟩
    rw [List.append_assoc, List.take_left, List.drop_left]
    exact (hline prog).mpr h

end

/-- The program is a batch file, in any letter case. -/
def isBatch (exe : WinStr) : Bool :=
  let ext := asciiLowercase.toLowercase (exe.drop (exe.length - 4))
  ext == wide ".bat" || ext == wide ".cmd"

def runBat : List WinStr := [wide "C:\\t\\run.bat", wide "a&calc"]

/-- The line for `run.bat` with the argument `a&calc` is `C:\t\run.bat a&calc`. -/
theorem batch_argument_injects :
    letI := asciiLowercase
    Injects noFiles (.fromArgv runBat .empty ()) ∧
      ¬ ∀ (w : World) (b : Builder) (prog : WinStr), resolveExe w b = .ok prog →
        isBatch prog = true → ¬ Injects w b := by
  let := asciiLowercase
  have hprog : resolveExe noFiles (.fromArgv runBat .empty ()) = .ok (wide "C:\\t\\run.bat") := rfl
  have hcmd : cmdline noFiles (.fromArgv runBat .empty ()) =
      .ok (wide "C:\\t\\run.bat" ++ [0], wide "C:\\t\\run.bat a&calc" ++ [0]) := rfl
  have hinjects : Injects noFiles (.fromArgv runBat .empty ()) :=
    ⟨_, _, _, hprog, hcmd, by decide⟩
  exact ⟨hinjects, fun h => h _ _ _ hprog (by decide) hinjects⟩

end Xpty.Win
