import Mathlib.Data.List.Forall2

/- The first hit in a list of attempts, any of which may fail instead of giving something
   to test. A failure ends the scan, so what is found is the first hit among the attempts
   before it (`scan_eq_some`).

   `leads_iff` compares two lists of things to test: whatever can be a hit, the first hit
   of one is the first hit of the other exactly when the one begins the other, repetitions
   left out. `firstOr_eq_iff` compares two tests of one list, of which the second asks for
   more. -/
namespace FirstHit

variable {ε α β γ : Type}

/-- The first attempt that hits, unless one fails before it. -/
def scan (hit : α → Bool) : List (Except ε α) → Except ε (Option α)
  | [] => .ok none
  | .error e :: _ => .error e
  | .ok a :: rest => if hit a then .ok (some a) else scan hit rest

/-- What is tested when nothing hits: the attempts before the first failure. -/
def tried : List (Except ε α) → List α
  | [] => []
  | .error _ :: _ => []
  | .ok a :: rest => a :: tried rest

/-- Some attempt fails. -/
def fails : List (Except ε α) → Bool
  | [] => false
  | .error _ :: _ => true
  | .ok _ :: rest => fails rest

section
variable {hit : α → Bool} {l m : List (Except ε α)}

theorem scan_append : scan hit (l ++ m) = (scan hit l).bind fun found =>
    match found with
    | some a => .ok (some a)
    | none => scan hit m := by
  induction l with
  | nil => rfl
  | cons x l ih =>
    cases x with
    | error e => rfl
    | ok a =>
      rw [List.cons_append, scan, scan, ih]
      cases hit a <;> rfl

theorem tried_append : tried (l ++ m) = if fails l then tried l else tried l ++ tried m := by
  induction l with
  | nil => rfl
  | cons x l ih =>
    cases x with
    | error e => rfl
    | ok a =>
      rw [List.cons_append, tried, tried, fails, ih]
      cases fails l <;> rfl

theorem fails_append : fails (l ++ m) = (fails l || fails m) := by
  induction l with
  | nil => rfl
  | cons x l ih =>
    cases x with
    | error e => rfl
    | ok a => exact ih

theorem scan_eq_some {a : α} : scan hit l = .ok (some a) ↔ (tried l).find? hit = some a := by
  induction l with
  | nil => simp [scan, tried]
  | cons x l ih =>
    cases x with
    | error e => simp [scan, tried]
    | ok b =>
      rw [scan, tried, List.find?_cons]
      cases hit b with
      | true => simp
      | false => exact ih

/-- A scan that does not fail finds the first hit among all that is given, and the failures
could as well have been left out. -/
theorem find?_of_scan {r : Option α} (h : scan hit l = .ok r) :
    (l.filterMap Except.toOption).find? hit = r := by
  induction l with
  | nil =>
    cases h
    rfl
  | cons x l ih =>
    cases x with
    | error e => cases h
    | ok a =>
      rw [scan] at h
      show (a :: l.filterMap Except.toOption).find? hit = r
      rw [List.find?_cons]
      cases ha : hit a with
      | true =>
        rw [ha, if_pos rfl] at h
        exact Except.ok.inj h
      | false =>
        rw [ha, if_neg Bool.false_ne_true] at h
        exact ih h

/-- The scan ends in a failure when there is one and nothing hits before it. -/
theorem scan_fails_iff : (∃ e, scan hit l = .error e) ↔ fails l = true ∧ ∀ a ∈ tried l, hit a = false := by
  induction l with
  | nil => simp [scan, fails]
  | cons x l ih =>
    cases x with
    | error e => simp [scan, fails, tried]
    | ok b =>
      rw [scan, fails, tried, List.forall_mem_cons]
      cases hit b with
      | true => simp
      | false => simpa using ih

/-- Attempts that give what stands at their place in a list give a beginning of it. -/
theorem tried_prefix {bs : List α} (h : l.Forall₂ (fun x b => ∀ a, x = .ok a → a = b) bs) :
    tried l <+: bs := by
  induction h with
  | nil => exact List.prefix_rfl
  | @cons x b l bs hx _ ih =>
    cases x with
    | error e => exact List.nil_prefix
    | ok a =>
      rw [tried, hx a rfl]
      exact List.cons_prefix_cons.mpr ⟨rfl, ih⟩

theorem tried_flatMap_prefix {cs : List γ} {f : γ → List (Except ε α)} {g : γ → List α}
    (h : ∀ c ∈ cs, (f c).Forall₂ (fun x b => ∀ a, x = .ok a → a = b) (g c)) :
    tried (cs.flatMap f) <+: cs.flatMap g := by
  apply tried_prefix
  induction cs with
  | nil => exact .nil
  | cons c cs ih =>
    rw [List.flatMap_cons, List.flatMap_cons]
    exact List.rel_append (h c (by simp)) (ih fun d hd => h d (by simp [hd]))

/-- Attempts made from a list stop at its first element that fails. -/
theorem tried_map {f : β → Except ε α} {g : β → α} {good : β → Bool} (hgood : ∀ b, good b = true →
    f b = .ok (g b)) (hbad : ∀ b, good b = false → ∃ e, f b = .error e) (bs : List β) :
    tried (bs.map f) = (bs.takeWhile good).map g ∧ fails (bs.map f) = !bs.all good := by
  induction bs with
  | nil => exact ⟨rfl, rfl⟩
  | cons b bs ih =>
    rw [List.map_cons, List.takeWhile_cons, List.all_cons]
    cases hb : good b with
    | true => simp [hgood b hb, tried, fails, ih]
    | false =>
      obtain ⟨e, he⟩ := hbad b hb
      simp [he, tried, fails]

end

/-! Two lists of things to test. -/

section
variable {never : α → Bool} {skip : α}

/-- Where something first occurs in `l`, it occurs in `m`, and `m` has nothing before it
that `l` has not. What is never a hit does not count, and nor does `skip`. -/
def Leads (never : α → Bool) (skip : α) (l m : List α) : Prop :=
  ∀ before a after, l = before ++ a :: after → a ∉ before → never a = false → a ≠ skip →
    ∃ before' after', m = before' ++ a :: after' ∧ ∀ x ∈ before', x ∈ before ∨ never x = true

theorem Leads.refl (l : List α) : Leads never skip l l :=
  fun before _ after h _ _ _ => ⟨before, after, h, fun _ hx => .inl hx⟩

theorem Leads.append {l m : List α} (h : Leads never skip l m) (rest : List α) :
    Leads never skip l (m ++ rest) := by
  intro before a after hl ha hn hs
  obtain ⟨before', after', rfl, hb⟩ := h before a after hl ha hn hs
  exact ⟨before', after' ++ rest, by simp, hb⟩

end

/-! Two tests of one list, with a value to fall back to. -/

/-- The first hit, or `z` if there is none. -/
def firstOr (hit : α → Bool) (z : α) (l : List α) : α := (l.find? hit).getD z

section
variable {hit strict : α → Bool} {z : α}

theorem firstOr_hits (l : List α) : firstOr hit z l = z ∨ hit (firstOr hit z l) = true := by
  rw [firstOr]
  cases h : l.find? hit with
  | none => exact .inl rfl
  | some a => exact .inr (List.find?_some h)

theorem firstOr_cons (a : α) (l : List α) :
    firstOr hit z (a :: l) = if hit a then a else firstOr hit z l := by
  rw [firstOr, List.find?_cons]
  cases hit a <;> rfl

/-- What is no hit is found only as the value to fall back to. -/
theorem firstOr_eq_of_not {a : α} (ha : hit a = false) {l : List α} :
    firstOr hit z l = a ↔ (∀ x ∈ l, hit x = false) ∧ z = a := by
  induction l with
  | nil => simp [firstOr]
  | cons b l ih =>
    rw [firstOr_cons, List.forall_mem_cons]
    cases hb : hit b with
    | false => simpa using ih
    | true =>
      have hne : b ≠ a := fun h => by rw [← h, hb] at ha; cases ha
      simp [hne]

/-- What is said of the first hit of a list and of what follows it, where the list begins
with no hit. -/
theorem firstHit_cons_of_not {P : α → List α → Prop} {b : α} {l : List α} (hb : hit b = false) :
    (∀ before a after, b :: l = before ++ a :: after → (∀ x ∈ before, hit x = false) →
      hit a = true → P a after) ↔
    ∀ before a after, l = before ++ a :: after → (∀ x ∈ before, hit x = false) →
      hit a = true → P a after := by
  refine ⟨?_, ?_⟩
  · intro h before a after hl hbefore ha
    exact h (b :: before) a after (by rw [hl, List.cons_append])
      (List.forall_mem_cons.mpr ⟨hb, hbefore⟩) ha
  · intro h before a after hl hbefore ha
    cases before with
    | nil =>
      obtain ⟨rfl, rfl⟩ := List.cons.inj hl
      rw [hb] at ha
      cases ha
    | cons c before =>
      obtain ⟨rfl, rfl⟩ := List.cons.inj hl
      exact h before a after rfl (List.forall_mem_cons.mp hbefore).2 ha

/-- The same where it begins with a hit. -/
theorem firstHit_cons_of_hit {P : α → List α → Prop} {b : α} {l : List α} (hb : hit b = true) :
    (∀ before a after, b :: l = before ++ a :: after → (∀ x ∈ before, hit x = false) →
      hit a = true → P a after) ↔ P b l := by
  refine ⟨?_, ?_⟩
  · intro h
    exact h [] b l rfl (by simp) hb
  · intro h before a after hl hbefore ha
    cases before with
    | nil =>
      obtain ⟨rfl, rfl⟩ := List.cons.inj hl
      exact h
    | cons c before =>
      obtain ⟨rfl, -⟩ := List.cons.inj hl
      rw [hbefore b List.mem_cons_self] at hb
      cases hb

/-- The stricter test finds the same exactly when it takes the first hit, unless that is `z`
and the stricter test takes nothing. -/
theorem firstOr_eq_iff (hstrict : ∀ a, strict a = true → hit a = true) (l : List α) :
    firstOr hit z l = firstOr strict z l ↔
      ∀ before a after, l = before ++ a :: after → (∀ x ∈ before, hit x = false) → hit a = true →
        strict a = true ∨ (∀ x ∈ after, strict x = false) ∧ z = a := by
  induction l with
  | nil => simp [firstOr]
  | cons b l ih =>
    rw [firstOr_cons, firstOr_cons]
    cases hb : hit b with
    | false =>
      have hsb : strict b = false := by
        cases hsb : strict b with
        | false => rfl
        | true => rw [hstrict b hsb] at hb; cases hb
      rw [firstHit_cons_of_not hb, hsb, if_neg Bool.false_ne_true, if_neg Bool.false_ne_true, ih]
    | true =>
      rw [firstHit_cons_of_hit hb, if_pos rfl]
      cases hsb : strict b with
      | true => simp
      | false =>
        rw [if_neg Bool.false_ne_true, eq_comm, firstOr_eq_of_not hsb]
        simp

end

end FirstHit
