import Xpty.WinCmdline

/- `CommandLineToArgvW`, the reader that the quoting of `cmdline` is meant for, as a
   machine that takes one code unit at a time. Argument 0 has a rule of its own. In the
   others a run of backslashes counts only before a quote, and blanks separate outside
   quotes.

   Readers differ in whether a doubled quote inside quotes leaves the quotes open:
   `stays` tells them apart, and `cmdline_round_trip` holds of both. The reader gets
   back the program and the arguments. -/
namespace Xpty.Win

def isBlank (c : UInt16) : Bool := c == SPACE || c == TAB

/-- The argument being read: whether the reader is inside quotes, whether the unit before
was the quote that closed them, the backslashes just read and the text before those. -/
structure Scan where
  inQuotes : Bool
  closed : Bool
  backslashes : Nat
  text : WinStr

def Scan.start : Scan := { inQuotes := false, closed := false, backslashes := 0, text := [] }

/-- Backslashes that no quote follows are literal. -/
def Scan.finish (a : Scan) : WinStr := a.text ++ List.replicate a.backslashes BACKSLASH

def Scan.feed (stays : Bool) (a : Scan) (c : UInt16) : Scan :=
  if c = BACKSLASH then { a with closed := false, backslashes := a.backslashes + 1 }
  else if c = QUOTE then
    let text := a.text ++ List.replicate (a.backslashes / 2) BACKSLASH
    if a.backslashes % 2 = 1 then
      { inQuotes := a.inQuotes, closed := false, backslashes := 0, text := text ++ [QUOTE] }
    else if a.closed then
      -- the second of two quotes inside quotes
      { inQuotes := stays, closed := false, backslashes := 0, text := text ++ [QUOTE] }
    else { inQuotes := !a.inQuotes, closed := a.inQuotes, backslashes := 0, text }
  else { inQuotes := a.inQuotes, closed := false, backslashes := 0, text := a.finish ++ [c] }

/-- The arguments after the first; `none` between two of them. -/
def parseArgs (stays : Bool) : Option Scan → WinStr → List WinStr
  | none, [] => []
  | some a, [] => [a.finish]
  | none, c :: line =>
    if isBlank c then parseArgs stays none line
    else parseArgs stays (some (Scan.start.feed stays c)) line
  | some a, c :: line =>
    if isBlank c ∧ a.inQuotes = false then a.finish :: parseArgs stays none line
    else parseArgs stays (some (a.feed stays c)) line

/-- Argument 0 ends at the next quote if it starts with one, and at the first blank
otherwise. -/
def commandLineToArgv (stays : Bool) : WinStr → List WinStr
  | [] => []
  | c :: line =>
    if c = QUOTE then
      let exe := line.takeWhile (· != QUOTE)
      exe :: parseArgs stays none (line.drop (exe.length + 1))
    else
      let exe := (c :: line).takeWhile fun c => !isBlank c
      exe :: parseArgs stays none ((c :: line).drop exe.length)

variable {stays : Bool}

/-! One argument. -/

theorem parseArgs_some {a : Scan} {c : UInt16} {line : WinStr}
    (h : a.inQuotes = true ∨ isBlank c = false) :
    parseArgs stays (some a) (c :: line) = parseArgs stays (some (a.feed stays c)) line := by
  rw [parseArgs, if_neg]
  intro h
  obtain ⟨hblank, hquotes⟩ := h
  simp_all

theorem feed_quote_even {a : Scan} (hc : a.closed = false) (h : a.backslashes % 2 = 0) :
    a.feed stays QUOTE =
      { inQuotes := !a.inQuotes, closed := a.inQuotes, backslashes := 0,
        text := a.text ++ List.replicate (a.backslashes / 2) BACKSLASH } := by
  have hne : QUOTE ≠ BACKSLASH := by decide
  rw [Scan.feed, if_neg hne, if_pos rfl, if_neg (by omega), hc, if_neg Bool.false_ne_true]

theorem feed_quote_odd {a : Scan} (h : a.backslashes % 2 = 1) :
    a.feed stays QUOTE =
      { inQuotes := a.inQuotes, closed := false, backslashes := 0,
        text := a.text ++ List.replicate (a.backslashes / 2) BACKSLASH ++ [QUOTE] } := by
  have hne : QUOTE ≠ BACKSLASH := by decide
  rw [Scan.feed, if_neg hne, if_pos rfl, if_pos h]

theorem feed_other {a : Scan} {c : UInt16} (hb : c ≠ BACKSLASH) (hq : c ≠ QUOTE) :
    a.feed stays c =
      { inQuotes := a.inQuotes, closed := false, backslashes := 0, text := a.finish ++ [c] } := by
  rw [Scan.feed, if_neg hb, if_neg hq]

/-- Reading backslashes: they are counted. -/
theorem parseArgs_backslashes (line : WinStr) : ∀ (n : Nat) {a : Scan}, a.closed = false →
    parseArgs stays (some a) (List.replicate n BACKSLASH ++ line) =
      parseArgs stays (some { a with backslashes := a.backslashes + n }) line
  | 0, a, _ => rfl
  | n + 1, a, h => by
    have hfeed : a.feed stays BACKSLASH = { a with closed := false, backslashes := a.backslashes + 1 } :=
      if_pos rfl
    rw [List.replicate_succ, List.cons_append, parseArgs_some (.inr rfl), hfeed,
      parseArgs_backslashes line n rfl, ← h, Nat.add_assoc, Nat.add_comm 1]

/-- Inside quotes, what the loop writes is read back, up to the closing quote. The
induction carries the backslashes that the loop has read and not written. -/
theorem parseArgs_quoteLoop (line : WinStr) : ∀ (arg : WinStr) (n : Nat) (text : WinStr),
    parseArgs stays (some { inQuotes := true, closed := false, backslashes := 0, text })
        (quoteLoop n arg ++ QUOTE :: line) =
      parseArgs stays
        (some { inQuotes := false, closed := true, backslashes := 0,
                text := text ++ List.replicate n BACKSLASH ++ arg }) line
  | [], n, text => by
    -- twice `n` backslashes before the closing quote
    rw [quoteLoop, parseArgs_backslashes _ _ rfl, parseArgs_some (.inl rfl),
      feed_quote_even rfl (by simp)]
    simp
  | c :: arg, n, text => by
    rw [quoteLoop]
    split
    · rename_i hc
      -- nothing is written yet, and one more is carried along
      rw [parseArgs_quoteLoop line arg, hc, List.replicate_succ']
      simp
    · rename_i hb
      split
      · rename_i hc
        rw [hc, List.append_assoc, List.cons_append, parseArgs_backslashes _ _ rfl,
          parseArgs_some (.inl rfl), feed_quote_odd (by dsimp only; omega)]
        have hhalf : (0 + (n * 2 + 1)) / 2 = n := by omega
        simp only [hhalf]
        rw [parseArgs_quoteLoop line arg]
        simp
      · rename_i hq
        rw [List.append_assoc, List.cons_append, parseArgs_backslashes _ _ rfl,
          parseArgs_some (.inl rfl), feed_other hb hq]
        simp only [Scan.finish, Nat.zero_add]
        rw [parseArgs_quoteLoop line arg]
        simp

theorem not_special {c : UInt16} (h : isSpecial c = false) : isBlank c = false ∧ c ≠ QUOTE := by
  simp only [isSpecial, isBlank, Bool.or_eq_false_iff, beq_eq_false_iff_ne] at h ⊢
  exact ⟨h.1.1.1, h.2⟩

/-- Outside quotes, an argument without blanks and quotes is read as it is. -/
theorem parseArgs_plain (stays : Bool) (line : WinStr) : ∀ (arg : WinStr) {a : Scan},
    a.inQuotes = false → (∀ c ∈ arg, isSpecial c = false) → ∃ b : Scan, b.inQuotes = false ∧
      b.finish = a.finish ++ arg ∧
      parseArgs stays (some a) (arg ++ line) = parseArgs stays (some b) line
  | [], a, h, _ => ⟨a, h, by simp, rfl⟩
  | c :: arg, a, h, hall => by
    obtain ⟨hblank, hquote⟩ := not_special (hall c (by simp))
    have hfeed : (a.feed stays c).inQuotes = false ∧ (a.feed stays c).finish = a.finish ++ [c] := by
      by_cases hb : c = BACKSLASH
      · rw [hb, Scan.feed, if_pos rfl]
        exact ⟨h, by simp [Scan.finish, List.replicate_succ']⟩
      · rw [feed_other hb hquote]
        exact ⟨h, by simp [Scan.finish]⟩
    obtain ⟨b, hb, hfinish, hparse⟩ :=
      parseArgs_plain stays line arg hfeed.1 fun d hd => hall d (by simp [hd])
    refine ⟨b, hb, ?_, ?_⟩
    · rw [hfinish, hfeed.2, List.append_assoc, List.singleton_append]
    · rw [List.cons_append, parseArgs_some (.inr hblank), hparse]

/-- A quoted argument leaves the reader outside quotes, with the argument read. -/
theorem parseArgs_quoted (stays : Bool) (arg line : WinStr) : ∃ b : Scan, b.inQuotes = false ∧
    b.finish = arg ∧ parseArgs stays none (quoted arg ++ line) = parseArgs stays (some b) line := by
  rw [quoted]
  split
  · -- the opening quote puts the reader inside quotes
    have hstart : Scan.start.feed stays QUOTE =
        { inQuotes := true, closed := false, backslashes := 0, text := [] } :=
      feed_quote_even rfl rfl
    have hblank : isBlank QUOTE = false := rfl
    refine ⟨{ inQuotes := false, closed := true, backslashes := 0, text := arg }, rfl,
      List.append_nil arg, ?_⟩
    rw [List.cons_append, List.cons_append, List.append_assoc, List.singleton_append, parseArgs,
      hblank, if_neg Bool.false_ne_true, hstart, parseArgs_quoteLoop]
    rfl
  · rename_i hplain
    simp only [needsQuotes, Bool.or_eq_true, not_or, Bool.not_eq_true, List.any_eq_false] at hplain
    obtain ⟨hne, hall⟩ := hplain
    obtain ⟨b, hb, hfinish, hparse⟩ := parseArgs_plain stays line arg (a := .start) rfl hall
    refine ⟨b, hb, hfinish, ?_⟩
    rw [← hparse]
    cases arg with
    | nil => simp at hne
    | cons c arg =>
      have hblank := (not_special (by simpa using hall c (by simp))).1
      rw [List.cons_append, parseArgs, hblank, if_neg Bool.false_ne_true, parseArgs_some (.inr hblank)]

/-! The line. -/

theorem parseArgs_argsLine_some : ∀ (args : List WinStr) {a : Scan}, a.inQuotes = false →
    parseArgs stays (some a) (argsLine args) = a.finish :: args
  | [], a, _ => rfl
  | arg :: args, a, h => by
    obtain ⟨b, hb, hfinish, hparse⟩ := parseArgs_quoted stays arg (argsLine args)
    have hline : argsLine (arg :: args) = SPACE :: (quoted arg ++ argsLine args) := rfl
    rw [hline, parseArgs, if_pos ⟨rfl, h⟩, hparse, parseArgs_argsLine_some args hb, hfinish]

theorem parseArgs_argsLine (args : List WinStr) : parseArgs stays none (argsLine args) = args := by
  cases args with
  | nil => rfl
  | cons arg args =>
    obtain ⟨b, hb, hfinish, hparse⟩ := parseArgs_quoted stays arg (argsLine args)
    have hline : argsLine (arg :: args) = SPACE :: (quoted arg ++ argsLine args) := rfl
    have hblank : isBlank SPACE = true := rfl
    rw [hline, parseArgs, hblank, if_pos rfl, hparse, parseArgs_argsLine_some args hb, hfinish]

/-- Without a quote or a final backslash, the loop writes what it reads. -/
theorem quoteLoop_plain : ∀ (arg : WinStr) (n : Nat), QUOTE ∉ arg → (arg = [] → n = 0) →
    arg.getLast? ≠ some BACKSLASH → quoteLoop n arg = List.replicate n BACKSLASH ++ arg
  | [], n, _, hn, _ => by rw [hn rfl]; rfl
  | c :: arg, n, hq, _, hl => by
    rw [List.mem_cons, not_or] at hq
    rw [quoteLoop]
    split
    · rename_i hc
      cases arg with
      | nil => exact absurd (by rw [hc]; rfl) hl
      | cons d arg =>
        rw [quoteLoop_plain (d :: arg) _ hq.2 (by simp) (by simpa using hl), hc,
          List.replicate_succ']
        simp
    · have hlast : arg.getLast? ≠ some BACKSLASH := by
        cases arg with
        | nil => simp
        | cons d arg => simpa using hl
      rw [if_neg (Ne.symm hq.1), quoteLoop_plain arg 0 hq.2 (fun _ => rfl) hlast]
      rfl

theorem takeWhile_argsLine (args : List WinStr) :
    (argsLine args).takeWhile (fun c => !isBlank c) = [] := by
  cases args with
  | nil => rfl
  | cons arg args => rfl

theorem commandLineToArgv_line {exe : WinStr} (args : List WinStr) (hq : QUOTE ∉ exe)
    (hb : exe.getLast? ≠ some BACKSLASH) :
    commandLineToArgv stays (quoted exe ++ argsLine args) = exe :: args := by
  rw [quoted]
  split
  · have hne : ∀ c ∈ exe, (c != QUOTE) = true := by
      intro c hc
      exact bne_iff_ne.mpr fun h => hq (h ▸ hc)
    have htake : (exe ++ QUOTE :: argsLine args).takeWhile (· != QUOTE) = exe := by
      rw [List.takeWhile_append_of_pos hne]
      simp
    rw [quoteLoop_plain exe 0 hq (fun _ => rfl) hb, List.replicate_zero, List.nil_append,
      List.cons_append, List.cons_append, List.append_assoc, List.singleton_append,
      commandLineToArgv, if_pos rfl]
    dsimp only
    rw [htake, ← List.drop_drop, List.drop_left, List.drop_one, List.tail_cons, parseArgs_argsLine]
  · rename_i hplain
    simp only [needsQuotes, Bool.or_eq_true, not_or, Bool.not_eq_true, List.any_eq_false] at hplain
    obtain ⟨hne, hall⟩ := hplain
    have hblank : ∀ c ∈ exe, (!isBlank c) = true := by
      intro c hc
      rw [(not_special (by simpa using hall c hc)).1]
      rfl
    have htake : (exe ++ argsLine args).takeWhile (fun c => !isBlank c) = exe := by
      rw [List.takeWhile_append_of_pos hblank, takeWhile_argsLine, List.append_nil]
    cases exe with
    | nil => simp at hne
    | cons c exe =>
      have hc : c ≠ QUOTE := (not_special (by simpa using hall c (by simp))).2
      rw [List.cons_append, commandLineToArgv, if_neg hc, ← List.cons_append, htake]
      dsimp only
      rw [List.drop_left, parseArgs_argsLine]

/-- The encoder adds quotes and backslashes only. -/
theorem mem_quoteLoop {d : UInt16} : ∀ {arg : WinStr} {n : Nat}, d ∈ quoteLoop n arg →
    d ∈ arg ∨ d = BACKSLASH
  | [], n, h => .inr (List.mem_replicate.mp h).2
  | c :: arg, n, h => by
    have hcons : d ∈ arg ∨ d = BACKSLASH → d ∈ c :: arg ∨ d = BACKSLASH :=
      Or.imp_left (List.mem_cons_of_mem c)
    rw [quoteLoop] at h
    split at h
    · exact hcons (mem_quoteLoop h)
    · split at h
      all_goals
        rcases List.mem_append.mp h with h | h
        · exact .inr (List.mem_replicate.mp h).2
        · rcases List.mem_cons.mp h with rfl | h
          · exact .inl List.mem_cons_self
          · exact hcons (mem_quoteLoop h)

theorem mem_quoted {d : UInt16} {arg : WinStr} (h : d ∈ quoted arg) :
    d ∈ arg ∨ d = BACKSLASH ∨ d = QUOTE := by
  rw [quoted] at h
  split at h
  · simp only [List.cons_append, List.mem_cons, List.mem_append, List.not_mem_nil, or_false] at h
    rcases h with h | h | h
    · exact .inr (.inr h)
    · exact (mem_quoteLoop h).imp_right .inl
    · exact .inr (.inr h)
  · exact .inl h

theorem nul_not_mem_line {exe : WinStr} {args : List WinStr} (h0 : 0 ∉ exe)
    (hargs : ∀ arg ∈ args, 0 ∉ arg) : 0 ∉ quoted exe ++ argsLine args := by
  have hquoted : ∀ arg : WinStr, 0 ∉ arg → 0 ∉ quoted arg := by
    intro arg harg h
    rcases mem_quoted h with h | h | h
    · exact harg h
    · cases h
    · cases h
  simp only [argsLine, List.mem_append, List.mem_flatMap, List.mem_cons, not_or, not_exists, not_and]
  exact ⟨hquoted exe h0, fun arg ha => ⟨by decide, hquoted arg (hargs arg ha)⟩⟩

/-- The line that `cmdline` builds is read back as the program and the arguments, for
any arguments without a NUL and any program that Windows can start. -/
theorem cmdline_round_trip [ToLowercase] (stays : Bool) (w : World) (b : Builder) (exe : WinStr)
    (hexe : resolveExe w b = .ok exe) (hq : QUOTE ∉ exe) (h0 : 0 ∉ exe)
    (hb : exe.getLast? ≠ some BACKSLASH) (hargs : ∀ arg ∈ b.args.drop 1, 0 ∉ arg) :
    ∃ line, cmdline w b = .ok (exe ++ [0], line ++ [0]) ∧ 0 ∉ line ∧
      commandLineToArgv stays line = exe :: b.args.drop 1 :=
  ⟨_, cmdline_ok.mpr ⟨exe, hexe, hargs, rfl, rfl⟩, nul_not_mem_line h0 hargs,
    commandLineToArgv_line _ hq hb⟩

/-- A program with a blank in its path, and arguments that are empty, end in a backslash
or hold quotes. -/
def awkwardArgs : List WinStr :=
  [wide "C:\\My Tools\\t.exe", [], wide "a\\", wide "b c\\\\", wide "d\\\"e\\", wide "\"\" f"]

theorem cmdline_round_trip_awkward :
    letI := asciiLowercase
    let b : Builder := .fromArgv awkwardArgs .empty ()
    ∃ line, cmdline noFiles b = .ok (wide "C:\\My Tools\\t.exe" ++ [0], line ++ [0]) ∧ 0 ∉ line ∧
      commandLineToArgv true line = wide "C:\\My Tools\\t.exe" :: b.args.drop 1 :=
  letI := asciiLowercase
  cmdline_round_trip true noFiles (.fromArgv awkwardArgs .empty ()) (wide "C:\\My Tools\\t.exe") rfl
    (by decide) (by decide) (by decide) (by decide)

end Xpty.Win
