import Xpty.WinEnvBlock

/- The names of environment variables on Windows. `map_key` lower-cases a name that is
   valid Unicode and leaves any other as it is, so two names that differ in the case of
   ASCII letters are one variable exactly when they are valid Unicode (`one_variable_iff`).

   The variables that are read of the block are in the order of the map's keys, the
   lower-cased names. That is the order of the upper-cased ones, which Windows documents,
   among ASCII names without any of the six characters between `Z` and `a`
   (`block_order`), and not for `_` (`underscore_out_of_order`). As in `WinEnvBlock`, what
   is said of the block supposes that names and values are well formed.

   What is used of `str::to_lowercase` is stated where it is used: it does not see the
   case of an ASCII letter, and on ASCII it lower-cases each letter. -/
namespace Xpty.Win

def asciiLower (c : UInt16) : UInt16 := if 0x41 ≤ c && c ≤ 0x5A then c + 0x20 else c

def asciiUpper (c : UInt16) : UInt16 := if 0x61 ≤ c && c ≤ 0x7A then c - 0x20 else c

/-- The names differ in the case of ASCII letters at most. -/
def AsciiCaseEq (k₁ k₂ : WinStr) : Prop := k₁.map asciiLower = k₂.map asciiLower

instance (k₁ k₂ : WinStr) : Decidable (AsciiCaseEq k₁ k₂) :=
  inferInstanceAs (Decidable (k₁.map asciiLower = k₂.map asciiLower))

/-! Case and surrogates. -/

/-- `asciiLower` of a code point. -/
def lowerCodePoint (n : Nat) : Nat := if 0x41 ≤ n ∧ n ≤ 0x5A then n + 0x20 else n

theorem toNat_asciiLower (c : UInt16) : (asciiLower c).toNat = lowerCodePoint c.toNat := by
  unfold asciiLower lowerCodePoint
  have hiff : (0x41 ≤ c && c ≤ 0x5A) = true ↔ 0x41 ≤ c.toNat ∧ c.toNat ≤ 0x5A := by
    simp [UInt16.le_iff_toNat_le]
  by_cases h : 0x41 ≤ c.toNat ∧ c.toNat ≤ 0x5A
  · rw [if_pos (hiff.mpr h), if_pos h, UInt16.toNat_add]
    simp only [UInt16.reduceToNat]
    omega
  · rw [if_neg fun hc => h (hiff.mp hc), if_neg h]

theorem isHighSurrogate_iff {c : UInt16} :
    isHighSurrogate c = true ↔ 0xD800 ≤ c.toNat ∧ c.toNat < 0xDC00 := by
  simp [isHighSurrogate, UInt16.le_iff_toNat_le, UInt16.lt_iff_toNat_lt]

theorem isLowSurrogate_iff {c : UInt16} :
    isLowSurrogate c = true ↔ 0xDC00 ≤ c.toNat ∧ c.toNat < 0xE000 := by
  simp [isLowSurrogate, UInt16.le_iff_toNat_le, UInt16.lt_iff_toNat_lt]

theorem surrogate_asciiLower {c : UInt16} (h : 0xD800 ≤ c.toNat) : asciiLower c = c := by
  apply UInt16.toNat_inj.mp
  rw [toNat_asciiLower, lowerCodePoint, if_neg (by omega)]

theorem isHighSurrogate_asciiLower (c : UInt16) : isHighSurrogate (asciiLower c) = isHighSurrogate c := by
  rw [Bool.eq_iff_iff, isHighSurrogate_iff, isHighSurrogate_iff, toNat_asciiLower, lowerCodePoint]
  split <;> omega

theorem isLowSurrogate_asciiLower (c : UInt16) : isLowSurrogate (asciiLower c) = isLowSurrogate c := by
  rw [Bool.eq_iff_iff, isLowSurrogate_iff, isLowSurrogate_iff, toNat_asciiLower, lowerCodePoint]
  split <;> omega

/-- Lower-casing ASCII letters leaves every surrogate where it is. -/
theorem codePoints_asciiLower (s : WinStr) :
    codePoints (s.map asciiLower) = (codePoints s).map lowerCodePoint := by
  induction s using codePoints.induct with
  | case1 => rfl
  | case2 c => simp [codePoints, toNat_asciiLower]
  | case3 c d s h ih =>
    have h' := Bool.and_eq_true_iff.mp h
    have hc := isHighSurrogate_iff.mp h'.1
    have hd := isLowSurrogate_iff.mp h'.2
    simp only [List.map_cons, codePoints, h, if_true, ih, surrogate_asciiLower hc.1,
      surrogate_asciiLower (Nat.le_trans (by omega) hd.1)]
    rw [lowerCodePoint, if_neg (by omega)]
  | case4 c d s h ih =>
    simp only [List.map_cons] at ih
    simp only [List.map_cons, codePoints, isHighSurrogate_asciiLower, isLowSurrogate_asciiLower,
      if_neg h, ih, toNat_asciiLower]

theorem isUnicode_asciiLower (s : WinStr) : isUnicode (s.map asciiLower) = isUnicode s := by
  unfold isUnicode
  rw [codePoints_asciiLower, List.all_map]
  congr 1
  funext n
  simp only [Function.comp_apply, lowerCodePoint]
  split <;> grind

theorem AsciiCaseEq.isUnicode {k₁ k₂ : WinStr} (h : AsciiCaseEq k₁ k₂) :
    isUnicode k₁ = isUnicode k₂ := by
  rw [← isUnicode_asciiLower k₁, h, isUnicode_asciiLower]

/-! One variable under two names. -/

section
variable [ToLowercase]

/-- `to_lowercase` gives the same for strings that differ in the case of ASCII letters. -/
def LowercaseIgnoresCase : Prop :=
  ∀ s t : WinStr, AsciiCaseEq s t → ToLowercase.toLowercase s = ToLowercase.toLowercase t

/-- `k₁` and `k₂` name one variable of the builder: reads agree, and a write or a removal under
one is seen under the other. -/
structure OneName (b : Builder) (k₁ k₂ : WinStr) : Prop where
  get : b.getEnv k₁ = b.getEnv k₂
  env : ∀ v, (b.env k₁ v).getEnv k₂ = some v ∧ (b.env k₂ v).getEnv k₁ = some v
  remove : (b.envRemove k₁).getEnv k₂ = none ∧ (b.envRemove k₂).getEnv k₁ = none

/-- And what is read of the block has at most one entry for the two. -/
structure OneVariable (b : Builder) (k₁ k₂ : WinStr) : Prop extends OneName b k₁ k₂ where
  entries : ∃ vars rest, decodeBlock (environmentBlock b) = some (vars, rest) ∧
    (vars.filter fun kv => kv.1 = k₁ ∨ kv.1 = k₂).length ≤ 1

theorem mapKey_win (k : WinStr) :
    mapKey k = if isUnicode k then ToLowercase.toLowercase k else k := rfl

theorem getEnv_env {b : Builder} {k n v : WinStr} :
    (b.env k v).getEnv n = if mapKey k = mapKey n then some v else b.getEnv n := by
  simp only [CommandBuilder.getEnv, CommandBuilder.env, Envs.find_insert]
  split <;> rfl

theorem getEnv_envRemove {b : Builder} {k n : WinStr} :
    (b.envRemove k).getEnv n = if mapKey k = mapKey n then none else b.getEnv n := by
  simp only [CommandBuilder.getEnv, CommandBuilder.envRemove, Envs.find_remove]
  split <;> rfl

theorem oneName_of_mapKey {b : Builder} {k₁ k₂ : WinStr} (h : mapKey k₁ = mapKey k₂) :
    OneName b k₁ k₂ where
  get := by simp only [CommandBuilder.getEnv, Envs.find, h]
  env v := by simp [getEnv_env, h]
  remove := by simp [getEnv_envRemove, h]

theorem pairs_filter_le_one {b : Builder} {k₁ k₂ : WinStr} (h : mapKey k₁ = mapKey k₂) :
    ((pairs b).filter fun kv => kv.1 = k₁ ∨ kv.1 = k₂).length ≤ 1 := by
  have hkey : ∀ kv ∈ (pairs b).filter fun kv => kv.1 = k₁ ∨ kv.1 = k₂, mapKey kv.1 = mapKey k₁ := by
    intro kv hkv
    rcases of_decide_eq_true (List.mem_filter.mp hkv).2 with he | he
    · rw [he]
    · rw [he, h]
  have hdistinct := (pairwise_mapKey b).filter fun kv => kv.1 = k₁ ∨ kv.1 = k₂
  generalize (pairs b).filter (fun kv => kv.1 = k₁ ∨ kv.1 = k₂) = l at hkey hdistinct ⊢
  -- two entries would have the same key
  cases hdistinct with
  | nil => exact Nat.zero_le 1
  | @cons x l hx _ =>
    cases l with
    | nil => exact Nat.le_refl 1
    | cons y l => exact absurd ((hkey x (by simp)).trans (hkey y (by simp)).symm) (hx y (by simp))

/-- In a well-formed environment the block holds no more than the map. -/
theorem OneName.oneVariable {b : Builder} {k₁ k₂ : WinStr} (h : OneName b k₁ k₂)
    (hb : WellFormedEnv b) (hkey : mapKey k₁ = mapKey k₂) : OneVariable b k₁ k₂ where
  toOneName := h
  entries := ⟨pairs b, [], (decode_environmentBlock_iff b).mpr hb, pairs_filter_le_one hkey⟩

/-- Only names with one key pass: what is set under one is read under the other. -/
theorem OneName.mapKey_eq {b : Builder} {k₁ k₂ : WinStr} (h : OneName b k₁ k₂) :
    mapKey k₁ = mapKey k₂ := by
  by_contra hne
  -- two values cannot both be the one that was there
  have h₁ := (h.env []).1
  have h₂ := (h.env [0]).1
  rw [getEnv_env, if_neg hne] at h₁ h₂
  rw [h₁] at h₂
  cases h₂

/-- Names that differ in the case of ASCII letters have one key exactly when they are valid
Unicode, or the same. -/
theorem mapKey_eq_iff (hlower : LowercaseIgnoresCase) {k₁ k₂ : WinStr} (h : AsciiCaseEq k₁ k₂) :
    mapKey k₁ = mapKey k₂ ↔ isUnicode k₁ = true ∨ k₁ = k₂ := by
  rw [mapKey_win, mapKey_win, ← h.isUnicode]
  cases isUnicode k₁ with
  | true => exact iff_of_true (hlower k₁ k₂ h) (.inl rfl)
  | false => simp

/-- In any state, names that differ in the case of ASCII letters are one variable of the builder
exactly when they are valid Unicode, or the same; and in any state that well-formed calls have
reached, they are one variable of the block as well. -/
theorem one_variable_iff (hlower : LowercaseIgnoresCase) (start : Builder)
    (ops : List (EnvOp WinStr)) (k₁ k₂ : WinStr) (h : AsciiCaseEq k₁ k₂) :
    (OneName (ops.foldl EnvOp.apply start) k₁ k₂ ↔ isUnicode k₁ = true ∨ k₁ = k₂) ∧
    (WellFormedEnv start → (∀ op ∈ ops, WellFormedOp op) →
      (OneVariable (ops.foldl EnvOp.apply start) k₁ k₂ ↔ isUnicode k₁ = true ∨ k₁ = k₂)) := by
  rw [← mapKey_eq_iff hlower h]
  refine ⟨⟨OneName.mapKey_eq, oneName_of_mapKey⟩, fun hstart hops => ⟨?_, ?_⟩⟩
  · intro hone
    exact hone.mapKey_eq
  · intro hkey
    exact (oneName_of_mapKey hkey).oneVariable (wellFormedEnv_run hstart hops) hkey

end

theorem one_variable_iff_path :
    letI := asciiLowercase
    let b : Builder := .newDefaultProg driveEnv ()
    let ops := [EnvOp.env (wide "Path") (wide "x"), .envRemove (wide "empty")]
    OneVariable (ops.foldl EnvOp.apply b) (wide "PATH") (wide "path") ↔
      isUnicode (wide "PATH") = true ∨ wide "PATH" = wide "path" :=
  letI := asciiLowercase
  (one_variable_iff (fun _ _ h => h) (.newDefaultProg driveEnv ())
    [.env (wide "Path") (wide "x"), .envRemove (wide "empty")] (wide "PATH") (wide "path")
    (by decide)).2 (by decide) (by decide)

/-- An unpaired surrogate and `A`, and the same with `a`. -/
def loneUpper : WinStr := [0xD800, 0x41]

def loneLower : WinStr := [0xD800, 0x61]

/-- With an unpaired surrogate in it, a name set in lower case is not read in upper case. -/
theorem lone_surrogate_names_differ :
    letI := asciiLowercase
    (CommandBuilder.env (.newDefaultProg .empty () : Builder) loneLower (wide "x")).getEnv loneUpper = none ∧
      ¬ ∀ (start : Builder) (ops : List (EnvOp WinStr)) (k₁ k₂ : WinStr), AsciiCaseEq k₁ k₂ →
        OneVariable (ops.foldl EnvOp.apply start) k₁ k₂ := by
  let := asciiLowercase
  have hnone : (CommandBuilder.env (.newDefaultProg .empty () : Builder) loneLower (wide "x")).getEnv
      loneUpper = none := by decide
  refine ⟨hnone, fun h => ?_⟩
  have hone := h (.newDefaultProg .empty ()) [] loneLower loneUpper (by decide)
  have hsome : (CommandBuilder.env (.newDefaultProg .empty () : Builder) loneLower (wide "x")).getEnv
      loneUpper = some (wide "x") := (hone.env (wide "x")).1
  rw [hnone] at hsome
  cases hsome

/-! The order of the block. -/

/-- An ASCII character that is none of the six between `Z` and `a`. -/
def isPlainAscii (c : UInt16) : Bool := c < 0x5B || (0x61 ≤ c && c < 0x80)

theorem isPlainAscii_iff {c : UInt16} :
    isPlainAscii c = true ↔ c.toNat < 0x5B ∨ (0x61 ≤ c.toNat ∧ c.toNat < 0x80) := by
  simp [isPlainAscii, UInt16.le_iff_toNat_le, UInt16.lt_iff_toNat_lt]

/-- `asciiUpper` of a code point. -/
def upperCodePoint (n : Nat) : Nat := if 0x61 ≤ n ∧ n ≤ 0x7A then n - 0x20 else n

theorem toNat_asciiUpper (c : UInt16) : (asciiUpper c).toNat = upperCodePoint c.toNat := by
  unfold asciiUpper upperCodePoint
  have hiff : (0x61 ≤ c && c ≤ 0x7A) = true ↔ 0x61 ≤ c.toNat ∧ c.toNat ≤ 0x7A := by
    simp [UInt16.le_iff_toNat_le]
  by_cases h : 0x61 ≤ c.toNat ∧ c.toNat ≤ 0x7A
  · have hle : (0x20 : UInt16) ≤ c := by
      rw [UInt16.le_iff_toNat_le]
      simp only [UInt16.reduceToNat]
      omega
    rw [if_pos (hiff.mpr h), if_pos h, UInt16.toNat_sub_of_le _ _ hle]
    rfl
  · rw [if_neg fun hc => h (hiff.mp hc), if_neg h]

theorem compare_toNat (c d : UInt16) : compare c d = compare c.toNat d.toNat := by
  show compareOfLessAndEq c d = compareOfLessAndEq c.toNat d.toNat
  simp only [compareOfLessAndEq, UInt16.lt_iff_toNat_lt, UInt16.toNat_inj]

/-- On these characters the two foldings order alike. -/
theorem compare_lower_upper {c d : UInt16} (hc : isPlainAscii c = true) (hd : isPlainAscii d = true) :
    compare (lowerCodePoint c.toNat) (lowerCodePoint d.toNat) = compare (asciiUpper c) (asciiUpper d) := by
  rw [isPlainAscii_iff] at hc hd
  rw [compare_toNat, toNat_asciiUpper, toNat_asciiUpper]
  have hlt : lowerCodePoint c.toNat < lowerCodePoint d.toNat ↔
      upperCodePoint c.toNat < upperCodePoint d.toNat := by
    unfold lowerCodePoint upperCodePoint
    split <;> split <;> split <;> split <;> omega
  have heq : lowerCodePoint c.toNat = lowerCodePoint d.toNat ↔
      upperCodePoint c.toNat = upperCodePoint d.toNat := by
    unfold lowerCodePoint upperCodePoint
    split <;> split <;> split <;> split <;> omega
  show compareOfLessAndEq _ _ = compareOfLessAndEq _ _
  simp only [compareOfLessAndEq, hlt, heq]

theorem compare_map_congr {α β γ : Type} [Ord β] [Ord γ] {f : α → β} {g : α → γ} :
    ∀ {s t : List α}, (∀ a ∈ s, ∀ b ∈ t, compare (f a) (f b) = compare (g a) (g b)) →
      compare (s.map f) (t.map f) = compare (s.map g) (t.map g)
  | [], [], _ => rfl
  | [], _ :: _, _ => rfl
  | _ :: _, [], _ => rfl
  | a :: s, b :: t, h => by
    have ih := compare_map_congr (s := s) (t := t) fun x hx y hy => h x (by simp [hx]) y (by simp [hy])
    simp only [List.map_cons, List.compare_cons_cons, h a (by simp) b (by simp), ih]

theorem codePoints_ascii : ∀ {s : WinStr}, (∀ c ∈ s, c < 0x80) → codePoints s = s.map (·.toNat)
  | [], _ => rfl
  | [c], _ => rfl
  | c :: d :: s, h => by
    have hc := UInt16.lt_iff_toNat_lt.mp (h c (by simp))
    have hlow : isHighSurrogate c = false := by
      rw [← Bool.not_eq_true, isHighSurrogate_iff]
      simp only [UInt16.reduceToNat] at hc
      omega
    rw [codePoints, if_neg (by simp [hlow]), codePoints_ascii fun x hx => h x (by simp [hx])]
    rfl

section
variable [ToLowercase]

/-- `to_lowercase` of a string that holds ASCII only. -/
def LowercaseOfAscii : Prop :=
  ∀ s : WinStr, (∀ c ∈ s, c < 0x80) → ToLowercase.toLowercase s = s.map asciiLower

/-- The variables are in the order of their keys, that of `BTreeMap`. -/
def KeysIncrease (vars : List (WinStr × WinStr)) : Prop :=
  vars.Pairwise fun x y => OsStr.cmp (mapKey x.1) (mapKey y.1) = .lt

/-- The variables are in the case-insensitive ordinal order of their names on Windows, `upcase`
being its table of upper-case code units. -/
def NamesIncrease (upcase : UInt16 → UInt16) (vars : List (WinStr × WinStr)) : Prop :=
  vars.Pairwise fun x y => compare (x.1.map upcase) (y.1.map upcase) = .lt

theorem keysIncrease (b : Builder) : KeysIncrease (pairs b) := by
  unfold KeysIncrease pairs
  rw [List.pairwise_map]
  exact b.envs.values_sorted

/-- The key of a plain name, as it is compared. -/
theorem codePoints_mapKey (hlower : LowercaseOfAscii) {k : WinStr} (h : ∀ c ∈ k, c < 0x80) :
    codePoints (mapKey k) = k.map fun c => lowerCodePoint c.toNat := by
  have hunicode : isUnicode k = true := by
    unfold isUnicode
    rw [codePoints_ascii h, List.all_map, List.all_eq_true]
    intro c hc
    have := UInt16.lt_iff_toNat_lt.mp (h c hc)
    simp only [UInt16.reduceToNat] at this
    simp only [Function.comp_apply, Bool.or_eq_true, decide_eq_true_eq]
    omega
  rw [mapKey_win, hunicode, if_pos rfl, hlower k h, codePoints_asciiLower, codePoints_ascii h,
    List.map_map]
  rfl

/-- Plain names are in the order of their upper-case forms when they are in that of their keys. -/
theorem KeysIncrease.namesIncrease (hlower : LowercaseOfAscii) {upcase : UInt16 → UInt16}
    (hupper : ∀ c < 0x80, upcase c = asciiUpper c) {vars : List (WinStr × WinStr)}
    (hkeys : KeysIncrease vars) (hplain : ∀ kv ∈ vars, kv.1.all isPlainAscii = true) :
    NamesIncrease upcase vars := by
  refine hkeys.imp_of_mem fun {x y} hx hy hlt => ?_
  have hx := List.all_eq_true.mp (hplain x hx)
  have hy := List.all_eq_true.mp (hplain y hy)
  have hascii : ∀ c : UInt16, isPlainAscii c = true → c < 0x80 := by
    intro c hc
    rw [isPlainAscii_iff] at hc
    rw [UInt16.lt_iff_toNat_lt]
    simp only [UInt16.reduceToNat]
    omega
  have hcmp : compare (codePoints (mapKey x.1)) (codePoints (mapKey y.1)) = .lt := hlt
  rw [codePoints_mapKey hlower fun c hc => hascii c (hx c hc),
    codePoints_mapKey hlower fun c hc => hascii c (hy c hc)] at hcmp
  rw [← hcmp]
  refine compare_map_congr fun c hc d hd => ?_
  rw [hupper c (hascii c (hx c hc)), hupper d (hascii d (hy d hd))]
  exact (compare_lower_upper (hx c hc) (hy d hd)).symm

/-- The block reads as variables in the order of their lower-cased names, and where all of these
are ASCII without the characters between `Z` and `a`, in the order that Windows documents. -/
theorem block_order (hlower : LowercaseOfAscii) (upcase : UInt16 → UInt16)
    (hupper : ∀ c < 0x80, upcase c = asciiUpper c) (start : Builder) (ops : List (EnvOp WinStr))
    (hstart : WellFormedEnv start) (hops : ∀ op ∈ ops, WellFormedOp op) :
    ∃ vars, decodeBlock (environmentBlock (ops.foldl EnvOp.apply start)) = some (vars, []) ∧
      KeysIncrease vars ∧
      ((∀ kv ∈ vars, kv.1.all isPlainAscii = true) → NamesIncrease upcase vars) :=
  have hkeys := keysIncrease (ops.foldl EnvOp.apply start)
  ⟨_, (decode_environmentBlock_iff _).mpr (wellFormedEnv_run hstart hops), hkeys,
    hkeys.namesIncrease hlower hupper⟩

end

theorem block_order_drive :
    letI := asciiLowercase
    let b : Builder := .newDefaultProg driveEnv ()
    let ops := [EnvOp.env (wide "Path") (wide "x"), .env (wide "pathext") (wide ".EXE")]
    ∃ vars, decodeBlock (environmentBlock (ops.foldl EnvOp.apply b)) = some (vars, []) ∧
      KeysIncrease vars ∧ NamesIncrease asciiUpper vars := by
  let := asciiLowercase
  have hread : decodeBlock (environmentBlock ([EnvOp.env (wide "Path") (wide "x"),
      .env (wide "pathext") (wide ".EXE")].foldl EnvOp.apply (.newDefaultProg driveEnv ()))) =
    some ([(wide "=C:", wide "C:\\x"), (wide "Empty", []), (wide "Path", wide "x"),
      (wide "pathext", wide ".EXE")], []) := by decide
  obtain ⟨vars, hvars, hkeys, hnames⟩ := block_order (fun _ _ => rfl) asciiUpper (fun _ _ => rfl)
    (.newDefaultProg driveEnv ()) [.env (wide "Path") (wide "x"), .env (wide "pathext") (wide ".EXE")]
    (by decide) (by decide)
  have hlist := hread.symm.trans hvars
  cases hlist
  exact ⟨_, hvars, hkeys, hnames (by decide)⟩

/-- `A_` and `AB`, set in the order that Windows documents. -/
def underscore : List (EnvOp WinStr) :=
  [.env (wide "AB") (wide "1"), .env (wide "A_") (wide "2")]

/-- The block has `A_` before `AB`, although `_` is above `B`. -/
theorem underscore_out_of_order :
    letI := asciiLowercase
    decodeBlock (environmentBlock (underscore.foldl EnvOp.apply (.newDefaultProg .empty ()))) =
        some ([(wide "A_", wide "2"), (wide "AB", wide "1")], []) ∧
      ¬ ∀ (start : Builder) (ops : List (EnvOp WinStr)), WellFormedEnv start →
        (∀ op ∈ ops, WellFormedOp op) → ∀ vars rest,
          decodeBlock (environmentBlock (ops.foldl EnvOp.apply start)) = some (vars, rest) →
            NamesIncrease asciiUpper vars := by
  let := asciiLowercase
  have hread : decodeBlock (environmentBlock
      (underscore.foldl EnvOp.apply (.newDefaultProg .empty ()))) =
    some ([(wide "A_", wide "2"), (wide "AB", wide "1")], []) := by decide
  refine ⟨hread, fun h => ?_⟩
  have horder := h (.newDefaultProg .empty ()) underscore (by decide) (by decide) _ _ hread
  unfold NamesIncrease at horder
  exact absurd horder (by decide)

end Xpty.Win
