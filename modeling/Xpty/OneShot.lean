import Mathlib.Data.List.Basic

/- A resource that is handed out at most once. `take s d` is one attempt from the
   state `s`, whose fallible part goes as `d` says; it returns the resource or an
   error, and the next state. `HandsOutOnce` is what the callers of a sequence of
   attempts may rely on, and `Discipline` what each single attempt has to do for
   that: `Discipline.handsOutOnce`. -/
namespace OneShot

variable {S D E R : Type}

/-- One attempt of a sequence: the states around it and what it returned. -/
structure Call (S E R : Type) where
  before : S
  result : Except E R
  after : S

/-- The attempts made from `s`, in order. -/
def calls (take : S → D → Except E R × S) : S → List D → List (Call S E R)
  | _, [] => []
  | s, d :: ds => ⟨s, (take s d).1, (take s d).2⟩ :: calls take (take s d).2 ds

/-- At most one attempt succeeds; `gone` is reported exactly after it; any other
failure leaves the state as it was, and the resource to be had. -/
structure HandsOutOnce (take : S → D → Except E R × S) (succeeds : D → Bool) (gone : E)
    (l : List (Call S E R)) : Prop where
  atMostOne : l.Pairwise fun c d => ¬ (c.result.isOk = true ∧ d.result.isOk = true)
  gone_iff : ∀ pre c post, l = pre ++ c :: post →
    (c.result = .error gone ↔ ∃ d ∈ pre, d.result.isOk = true)
  unchanged : ∀ c ∈ l, ∀ e, c.result = .error e → e ≠ gone → c.after = c.before
  retry : ∀ c ∈ l, ∀ e, c.result = .error e → e ≠ gone →
    ∀ d, succeeds d = true → (take c.after d).1.isOk = true

/-- What one attempt does, `left` telling whether the resource is still there. -/
structure Discipline (take : S → D → Except E R × S) (succeeds : D → Bool) (gone : E)
    (left : S → Bool) : Prop where
  refuses : ∀ s d, left s = false → take s d = (.error gone, s)
  hands : ∀ s d, left s = true → succeeds d = true → ∃ r t, take s d = (.ok r, t) ∧ left t = false
  keeps : ∀ s d, left s = true → succeeds d = false → ∃ e, e ≠ gone ∧ take s d = (.error e, s)

section
variable {take : S → D → Except E R × S} {succeeds : D → Bool} {gone : E} {left : S → Bool}

theorem mem_calls : ∀ {ds : List D} {s : S} {c : Call S E R}, c ∈ calls take s ds →
    ∃ d ∈ ds, take c.before d = (c.result, c.after)
  | d :: ds, s, c, hc => by
    rcases List.mem_cons.mp hc with rfl | hc
    · exact ⟨d, by simp, rfl⟩
    · obtain ⟨d', hd, he⟩ := mem_calls hc
      exact ⟨d', by simp [hd], he⟩

/-- Once the resource is gone, every attempt is refused. -/
theorem Discipline.calls_gone (h : Discipline take succeeds gone left) :
    ∀ {ds : List D} {s : S}, left s = false → ∀ c ∈ calls take s ds, c.result = .error gone
  | d :: ds, s, hs, c, hc => by
    simp only [calls, h.refuses s d hs, List.mem_cons] at hc
    rcases hc with rfl | hc
    · rfl
    · exact h.calls_gone hs c hc

theorem Discipline.gone_iff (h : Discipline take succeeds gone left) :
    ∀ {ds : List D} {s : S} (pre : List (Call S E R)) (c : Call S E R) (post : List (Call S E R)),
      calls take s ds = pre ++ c :: post →
      (c.result = .error gone ↔ left s = false ∨ ∃ d ∈ pre, d.result.isOk = true)
  | [], _, pre, c, post, he => by simp [calls] at he
  | d :: ds, s, [], c, post, he => by
    obtain ⟨rfl, _⟩ := List.cons.inj he
    cases hs : left s with
    | false => simp [h.refuses s d hs]
    | true =>
      cases hd : succeeds d with
      | true => obtain ⟨r, t, ht, _⟩ := h.hands s d hs hd; simp [ht]
      | false => obtain ⟨e, hne, ht⟩ := h.keeps s d hs hd; simp [ht, hne]
  | d :: ds, s, p :: pre, c, post, he => by
    obtain ⟨rfl, hrest⟩ := List.cons.inj he
    rw [h.gone_iff pre c post hrest]
    cases hs : left s with
    | false => simp [h.refuses s d hs, hs]
    | true =>
      cases hd : succeeds d with
      | true => obtain ⟨r, t, ht, hl⟩ := h.hands s d hs hd; simp [ht, hl, Except.isOk, Except.toBool]
      | false =>
        obtain ⟨e, _, ht⟩ := h.keeps s d hs hd
        simp [ht, hs, Except.isOk, Except.toBool]

theorem Discipline.atMostOne (h : Discipline take succeeds gone left) : ∀ (ds : List D) (s : S),
    (calls take s ds).Pairwise fun c d => ¬ (c.result.isOk = true ∧ d.result.isOk = true)
  | [], _ => List.Pairwise.nil
  | d :: ds, s => by
    refine List.Pairwise.cons ?_ (h.atMostOne ds _)
    intro c hc h
    obtain ⟨hok, hc'⟩ := h
    -- the first attempt succeeded, so the rest were refused
    have hl : left (take s d).2 = false := by
      cases hs : left s with
      | false => rw [h.refuses s d hs] at hok; cases hok
      | true =>
        cases hd : succeeds d with
        | true => obtain ⟨r, t, ht, hl⟩ := h.hands s d hs hd; rw [ht]; exact hl
        | false => obtain ⟨e, _, ht⟩ := h.keeps s d hs hd; rw [ht] at hok; cases hok
    rw [h.calls_gone hl c hc] at hc'
    cases hc'

/-- An attempt that fails for another reason found the resource and left it. -/
theorem Discipline.other_failure (h : Discipline take succeeds gone left) {ds : List D} {s : S}
    {c : Call S E R} (hc : c ∈ calls take s ds) {e : E} (he : c.result = .error e) (hne : e ≠ gone) :
    c.after = c.before ∧ left c.before = true := by
  obtain ⟨d, _, ht⟩ := mem_calls hc
  rw [he] at ht
  cases hs : left c.before with
  | false =>
    rw [h.refuses _ d hs] at ht
    exact absurd (Except.error.inj (Prod.mk.inj ht).1).symm hne
  | true =>
    cases hd : succeeds d with
    | true => obtain ⟨r, t, hr, _⟩ := h.hands _ d hs hd; rw [hr] at ht; cases (Prod.mk.inj ht).1
    | false =>
      obtain ⟨e', _, hk⟩ := h.keeps _ d hs hd
      rw [hk] at ht
      exact ⟨(Prod.mk.inj ht).2.symm, rfl⟩

/-- A first attempt that succeeds, and refusals from then on. -/
theorem handsOutOnce_of_first {c : Call S E R} {l : List (Call S E R)} (hc : c.result.isOk = true)
    (hl : ∀ d ∈ l, d.result = .error gone) : HandsOutOnce take succeeds gone (c :: l) := by
  have hother : ∀ d ∈ c :: l, ∀ e, d.result = .error e → e = gone := by
    intro d hd e he
    rcases List.mem_cons.mp hd with rfl | hd
    · rw [he] at hc; cases hc
    · rw [hl d hd] at he; exact (Except.error.inj he).symm
  refine ⟨?_, ?_, ?_, ?_⟩
  · refine List.Pairwise.cons ?_ (List.pairwise_of_forall_mem_list fun a ha b _ hab => ?_)
    · rintro d hd ⟨_, hok⟩; rw [hl d hd] at hok; cases hok
    · rw [hl a ha] at hab; cases hab.1
  · intro pre d post he
    cases pre with
    | nil =>
      obtain ⟨rfl, _⟩ := List.cons.inj he
      exact ⟨fun h => (by rw [h] at hc; cases hc), by simp⟩
    | cons p pre =>
      obtain ⟨rfl, rfl⟩ := List.cons.inj he
      exact ⟨fun _ => ⟨_, List.mem_cons_self, hc⟩, fun _ => hl d (by simp)⟩
  · intro d hd e he hne; exact absurd (hother d hd e he) hne
  · intro d hd e he hne; exact absurd (hother d hd e he) hne

theorem Discipline.handsOutOnce (h : Discipline take succeeds gone left) {s : S} (hs : left s = true)
    (ds : List D) : HandsOutOnce take succeeds gone (calls take s ds) where
  atMostOne := h.atMostOne ds s
  gone_iff pre c post he := by rw [h.gone_iff pre c post he]; simp [hs]
  unchanged _ hc _ he hne := (h.other_failure hc he hne).1
  retry c hc e he hne d hd := by
    obtain ⟨ha, hl⟩ := h.other_failure hc he hne
    obtain ⟨r, t, ht, _⟩ := h.hands c.before d hl hd
    rw [ha, ht]; rfl

end

end OneShot
