import Mathlib.Data.List.TakeWhile

/- Lists of pairs in one string without lengths: `key sep value term` for each pair, and
   a last `term`. A reader takes terminated strings up to the first empty one and splits
   each at its first separator after its first unit, so that a key may begin with the
   separator; a string without one is skipped. It fails where no empty string comes.

   Over any alphabet, with two different delimiters: what is decoded is well formed, and
   the pairs that come back from their encoding are exactly the well-formed ones. A reader
   that only looks for the end finds it where it is unless there are no pairs
   (`endAt_encode_iff`). -/
namespace DelimitedPairs

variable {α : Type} [DecidableEq α] (sep term : α)

def encode (pairs : List (List α × List α)) : List α :=
  (pairs.flatMap fun kv => kv.1 ++ sep :: kv.2 ++ [term]) ++ [term]

/-- The terminated strings up to the first empty one, `text` being what has been read of
the current one, and what is left after it; nothing where the input ends before that. -/
def strings (text : List α) : List α → Option (List (List α) × List α)
  | [] => none
  | c :: s =>
    if c = term then
      if text = [] then some ([], s)
      else (strings [] s).map fun (ss, rest) => (text :: ss, rest)
    else strings (text ++ [c]) s

/-- The key and the value of a string, if it has a separator after its first unit. -/
def splitPair : List α → Option (List α × List α)
  | [] => none
  | c :: s =>
    let name := s.takeWhile (· ≠ sep)
    if sep ∈ s then some (c :: name, s.drop (name.length + 1)) else none

def decode (s : List α) : Option (List (List α × List α) × List α) :=
  (strings term [] s).map fun (ss, rest) => (ss.filterMap (splitPair sep), rest)

/-- Neither the key nor the value holds a terminator. -/
def TermFree (term : α) (kv : List α × List α) : Prop := term ∉ kv.1 ∧ term ∉ kv.2

instance (kv : List α × List α) : Decidable (TermFree term kv) :=
  inferInstanceAs (Decidable (term ∉ kv.1 ∧ term ∉ kv.2))

/-- A key that is not empty and a value, told apart by the delimiters. -/
structure WellFormed (kv : List α × List α) : Prop where
  key_ne_nil : kv.1 ≠ []
  term_not_mem_key : term ∉ kv.1
  sep_not_mem_tail : sep ∉ kv.1.tail
  term_not_mem_value : term ∉ kv.2

instance (kv : List α × List α) : Decidable (WellFormed sep term kv) :=
  decidable_of_iff (kv.1 ≠ [] ∧ term ∉ kv.1 ∧ sep ∉ kv.1.tail ∧ term ∉ kv.2)
    ⟨fun h => ⟨h.1, h.2.1, h.2.2.1, h.2.2.2⟩,
     fun h => ⟨h.key_ne_nil, h.term_not_mem_key, h.sep_not_mem_tail, h.term_not_mem_value⟩⟩

variable {sep term}

omit [DecidableEq α] in
theorem TermFree.not_mem {kv : List α × List α} (hd : sep ≠ term) (h : TermFree term kv) :
    term ∉ kv.1 ++ sep :: kv.2 := by
  simp only [List.mem_append, List.mem_cons, not_or]
  exact ⟨h.1, hd.symm, h.2⟩

omit [DecidableEq α] in
theorem encode_cons (kv : List α × List α) (pairs : List (List α × List α)) :
    encode sep term (kv :: pairs) = (kv.1 ++ sep :: kv.2) ++ term :: encode sep term pairs := by
  simp [encode]

theorem strings_append {s : List α} (hs : term ∉ s) (rest : List α) : ∀ (text : List α),
    strings term text (s ++ rest) = strings term (text ++ s) rest := by
  induction s with
  | nil => simp
  | cons c s ih =>
    intro text
    rw [List.mem_cons, not_or] at hs
    rw [List.cons_append, strings, if_neg (Ne.symm hs.1), ih hs.2, List.append_assoc]
    rfl

/-- One string, read up to its terminator. -/
theorem strings_cons {s : List α} (hne : s ≠ []) (hs : term ∉ s) (rest : List α) :
    strings term [] (s ++ term :: rest) =
      (strings term [] rest).map fun (ss, rest) => (s :: ss, rest) := by
  rw [strings_append hs, List.nil_append, strings, if_pos rfl, if_neg hne]

theorem splitPair_append {key value : List α} (hne : key ≠ []) (hsep : sep ∉ key.tail) :
    splitPair sep (key ++ sep :: value) = some (key, value) := by
  cases key with
  | nil => exact absurd rfl hne
  | cons c key =>
    have hkey : ∀ d ∈ key, decide (d ≠ sep) = true := by
      intro d hd
      exact decide_eq_true fun h => hsep (h ▸ hd)
    have htake : (key ++ sep :: value).takeWhile (· ≠ sep) = key := by
      rw [List.takeWhile_append_of_pos hkey]
      simp
    rw [List.cons_append, splitPair, if_pos (by simp), htake, ← List.drop_drop, List.drop_left]
    rfl

/-- Well-formed pairs come back, and what follows them is left. -/
theorem decode_encode (hd : sep ≠ term) (rest : List α) : ∀ {pairs : List (List α × List α)},
    (∀ kv ∈ pairs, WellFormed sep term kv) →
      decode sep term (encode sep term pairs ++ rest) = some (pairs, rest)
  | [], _ => by simp [decode, encode, strings]
  | kv :: pairs, h => by
    -- the separator makes the string non-empty, so the reader goes on
    have hkv := h kv (by simp)
    have hmem := TermFree.not_mem hd ⟨hkv.term_not_mem_key, hkv.term_not_mem_value⟩
    have ih := decode_encode hd rest fun p hp => h p (List.mem_cons_of_mem _ hp)
    obtain ⟨⟨ss, rest'⟩, hss, hpairs⟩ := Option.map_eq_some_iff.mp ih
    obtain ⟨rfl, rfl⟩ := Prod.mk.inj hpairs
    rw [encode_cons, List.append_assoc, List.cons_append, decode, strings_cons (by simp) hmem, hss]
    simp only [Option.map_some, List.filterMap_cons,
      splitPair_append hkv.key_ne_nil hkv.sep_not_mem_tail]

theorem mem_strings {s : List α} : ∀ {input text : List α} {ss : List (List α)} {rest : List α},
    term ∉ text → strings term text input = some (ss, rest) → s ∈ ss → term ∉ s
  | [], _, _, _, _, h, _ => by cases h
  | c :: input, text, ss, rest, ht, h, hs => by
    rw [strings] at h
    split at h
    · split at h
      · cases h
        cases hs
      · obtain ⟨⟨ss', rest'⟩, hss, hcons⟩ := Option.map_eq_some_iff.mp h
        obtain ⟨rfl, rfl⟩ := Prod.mk.inj hcons
        rcases List.mem_cons.mp hs with rfl | hs
        · exact ht
        · exact mem_strings List.not_mem_nil hss hs
    · rename_i hc
      refine mem_strings ?_ h hs
      simp only [List.mem_append, List.mem_singleton, not_or]
      exact ⟨ht, Ne.symm hc⟩

/-- Whatever is decoded is well formed. -/
theorem wellFormed_of_mem_decode {input rest : List α} {pairs : List (List α × List α)}
    (h : decode sep term input = some (pairs, rest)) {kv : List α × List α} (hkv : kv ∈ pairs) :
    WellFormed sep term kv := by
  obtain ⟨⟨ss, rest'⟩, hss, hpairs⟩ := Option.map_eq_some_iff.mp h
  obtain ⟨rfl, rfl⟩ := Prod.mk.inj hpairs
  obtain ⟨s, hs, hsplit⟩ := List.mem_filterMap.mp hkv
  have hterm := mem_strings List.not_mem_nil hss hs
  cases s with
  | nil => cases hsplit
  | cons c s =>
    rw [splitPair] at hsplit
    split at hsplit
    · cases hsplit
      rw [List.mem_cons, not_or] at hterm
      refine ⟨List.cons_ne_nil _ _, ?_, ?_, fun hm => hterm.2 (List.mem_of_mem_drop hm)⟩
      · rw [List.mem_cons, not_or]
        exact ⟨hterm.1, fun hm => hterm.2 ((List.takeWhile_sublist _).mem hm)⟩
      · intro hm
        have hne := List.mem_takeWhile_imp (p := fun d => decide (d ≠ sep)) hm
        exact absurd rfl (of_decide_eq_true hne)
    · cases hsplit

/-- The pairs that come back from their encoding are the well-formed ones. -/
theorem decode_encode_iff (hd : sep ≠ term) {pairs : List (List α × List α)} :
    decode sep term (encode sep term pairs) = some (pairs, []) ↔
      ∀ kv ∈ pairs, WellFormed sep term kv := by
  refine ⟨?_, ?_⟩
  · intro h kv hkv
    exact wellFormed_of_mem_decode h hkv
  · intro h
    have := decode_encode hd [] h
    rwa [List.append_nil] at this

/-! The end of the encoding. -/

/-- Where two terminators first stand side by side. -/
def endAt (term : α) : List α → Option Nat
  | [] => none
  | [_] => none
  | c :: d :: s => if c = term ∧ d = term then some 0 else (endAt term (d :: s)).map (· + 1)

theorem endAt_cons {c : α} {s : List α} (h : c ≠ term ∨ s.head? ≠ some term) :
    endAt term (c :: s) = (endAt term s).map (· + 1) := by
  cases s with
  | nil => rfl
  | cons d s =>
    rw [endAt, if_neg]
    intro h
    obtain ⟨rfl, rfl⟩ := h
    simp at h

theorem endAt_append {s : List α} (hs : term ∉ s) (rest : List α) :
    endAt term (s ++ rest) = (endAt term rest).map (· + s.length) := by
  induction s with
  | nil => simp
  | cons c s ih =>
    rw [List.mem_cons, not_or] at hs
    rw [List.cons_append, endAt_cons (.inl (Ne.symm hs.1)), ih hs.2, Option.map_map]
    rfl

omit [DecidableEq α] in
theorem head?_encode_cons (hd : sep ≠ term) {kv : List α × List α} (h : TermFree term kv)
    (pairs : List (List α × List α)) : (encode sep term (kv :: pairs)).head? ≠ some term := by
  rw [encode_cons]
  obtain ⟨_ | ⟨c, key⟩, value⟩ := kv
  · simpa using hd
  · have hc : term ∉ c :: key := h.1
    rw [List.mem_cons, not_or] at hc
    simpa using Ne.symm hc.1

/-- The end of the encoding of at least one pair is found where it is. -/
theorem endAt_encode (hd : sep ≠ term) : ∀ {pairs : List (List α × List α)}, pairs ≠ [] →
    (∀ kv ∈ pairs, TermFree term kv) →
      endAt term (encode sep term pairs) = some ((encode sep term pairs).length - 2)
  | [kv], _, h => by
    have hkv := (h kv (by simp)).not_mem hd
    rw [encode_cons, endAt_append hkv]
    simp only [encode, List.flatMap_nil, List.nil_append, endAt, and_self, if_true, Option.map_some,
      List.length_append, List.length_cons, List.length_nil, Option.some.injEq]
    omega
  | kv :: kv' :: pairs, _, h => by
    -- after a pair that is not the last, the terminator stands alone
    have hkv := (h kv (by simp)).not_mem hd
    have hhead := head?_encode_cons hd (h kv' (by simp)) pairs
    have ih : endAt term (encode sep term (kv' :: pairs)) =
        some ((encode sep term (kv' :: pairs)).length - 2) :=
      endAt_encode hd (by simp) fun p hp => h p (by simp [hp])
    have hlen : 2 ≤ (encode sep term (kv' :: pairs)).length := by
      rw [encode_cons]
      simp only [List.length_append, List.length_cons]
      omega
    rw [encode_cons, endAt_append hkv, endAt_cons (.inr hhead), ih]
    simp only [Option.map_some, List.length_append, List.length_cons, Option.some.injEq]
    omega

theorem endAt_encode_iff (hd : sep ≠ term) {pairs : List (List α × List α)}
    (h : ∀ kv ∈ pairs, TermFree term kv) :
    endAt term (encode sep term pairs) = some ((encode sep term pairs).length - 2) ↔ pairs ≠ [] := by
  refine ⟨?_, ?_⟩
  · intro hend hnil
    rw [hnil] at hend
    simp [encode, endAt] at hend
  · intro hne
    exact endAt_encode hd hne h

end DelimitedPairs
