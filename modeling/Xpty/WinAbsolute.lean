import Mathlib.Data.List.TakeWhile
import Xpty.WinPath

/- Absolute paths on Windows, by how they begin: with a drive and its root, or with a
   prefix of another kind, which implies a root. What follows such an `Anchor` plays no
   part, so an absolute path stays one whatever is joined to it, unless that has a prefix
   of its own: `isAbsolute_join`. -/
namespace Xpty.Win

/-- The shortest beginnings that make a path absolute. -/
inductive Anchor : WinStr → Prop where
  | drive {d s : UInt16} (hd : isAsciiAlphabetic d = true) (hs : isSep s = true) :
      Anchor [d, COLON, s]
  | verbatim : Anchor [BACKSLASH, BACKSLASH, 0x3F, BACKSLASH]
  | device {s₁ s₂ s₃ : UInt16} (h₁ : isSep s₁ = true) (h₂ : isSep s₂ = true)
      (h₃ : isSep s₃ = true) : Anchor [s₁, s₂, DOT, s₃]
  | share {s₁ s₂ s₃ c : UInt16} {server : WinStr} (h₁ : isSep s₁ = true) (h₂ : isSep s₂ = true)
      (hserver : server ≠ []) (hsep : ∀ x ∈ server, isSep x = false) (h₃ : isSep s₃ = true)
      (hc : isSep c = false) : Anchor (s₁ :: s₂ :: (server ++ [s₃, c]))

theorem isSep_of_alphabetic {d : UInt16} (h : isAsciiAlphabetic d = true) : isSep d = false := by
  cases hs : isSep d with
  | false => rfl
  | true =>
    rw [isSep, Bool.or_eq_true, beq_iff_eq, beq_iff_eq] at hs
    rcases hs with rfl | rfl
    · exact absurd h (by decide)
    · exact absurd h (by decide)

theorem parseVerbatim_drive (p : WinStr) : (parseVerbatim p).drive = false := by
  unfold parseVerbatim
  split
  · rfl
  · split <;> rfl

theorem four_le_parseVerbatim_len (p : WinStr) : 4 ≤ (parseVerbatim p).len := by
  unfold parseVerbatim
  split
  · dsimp only; omega
  · split
    · exact Nat.le_add_right 4 2
    · exact Nat.le_add_right 4 _

/-- After two separators, a prefix is not a drive, and the path is absolute if it has one. -/
theorem isAbsolute_seps {s₁ s₂ : UInt16} (h₁ : isSep s₁ = true) (h₂ : isSep s₂ = true) (r : WinStr) :
    isAbsolute (s₁ :: s₂ :: r) = (parsePrefix (s₁ :: s₂ :: r)).isSome := by
  cases hp : parsePrefix (s₁ :: s₂ :: r) with
  | none => rw [isAbsolute, hp]; rfl
  | some pre =>
    have hdrive : pre.drive = false := by
      rw [parsePrefix, if_pos (by simp [h₁, h₂])] at hp
      split at hp
      · cases hp
        exact parseVerbatim_drive _
      · split at hp
        · cases hp
          rfl
        · dsimp only at hp
          split at hp
          · cases hp
          · cases hp
            rfl
    simp [isAbsolute, hasRoot, hp, hdrive]

theorem nextComponent_fst (sep : UInt16 → Bool) (p : WinStr) :
    (nextComponent sep p).1 = p.takeWhile fun c => !sep c := rfl

/-- A path that begins with an anchor is absolute. -/
theorem isAbsolute_of_anchor {a p : WinStr} (ha : Anchor a) (h : a <+: p) : isAbsolute p = true := by
  obtain ⟨r, rfl⟩ := h
  cases ha with
  | drive hd hs =>
    have hsep := isSep_of_alphabetic hd
    simp [isAbsolute, hasRoot, prefixLen, parsePrefix, startsWithDrive, hd, hs, hsep]
  | verbatim =>
    rw [List.cons_append, List.cons_append, isAbsolute_seps rfl rfl, parsePrefix,
      if_pos (by rfl), if_pos (by simp)]
    rfl
  | @device s₁ s₂ s₃ h₁ h₂ h₃ =>
    rw [List.cons_append, List.cons_append, isAbsolute_seps h₁ h₂, parsePrefix,
      if_pos (by simp [h₁, h₂])]
    split
    · rfl
    · rw [if_pos (by simp [h₃])]
      rfl
  | @share s₁ s₂ s₃ c server h₁ h₂ hserver hsep h₃ hc =>
    have hnext : nextComponent isSep (server ++ s₃ :: c :: r) = (server, c :: r) := by
      have htake : (server ++ s₃ :: c :: r).takeWhile (fun x => !isSep x) = server := by
        rw [List.takeWhile_append_of_pos (fun x hx => by simp [hsep x hx]),
          List.takeWhile_cons_of_neg (by simp [h₃]), List.append_nil]
      rw [nextComponent]
      simp [htake, List.drop_append]
    have hr : server ++ [s₃, c] ++ r = server ++ s₃ :: c :: r := by simp
    rw [List.cons_append, List.cons_append, isAbsolute_seps h₁ h₂, parsePrefix,
      if_pos (by simp [h₁, h₂])]
    split
    · rfl
    · split
      · rfl
      · simp [hr, hnext, nextComponent_fst, hc, hserver]

/-- A component that something follows ends at a separator. -/
theorem nextComponent_split {p : WinStr} (h : (nextComponent isSep p).2 ≠ []) :
    ∃ s, isSep s = true ∧
      p = (nextComponent isSep p).1 ++ s :: (nextComponent isSep p).2 := by
  induction p with
  | nil => simp [nextComponent] at h
  | cons c p ih =>
    cases hc : isSep c with
    | true => exact ⟨c, hc, by simp [nextComponent, hc]⟩
    | false =>
      have hcons : nextComponent isSep (c :: p) =
          (c :: (nextComponent isSep p).1, (nextComponent isSep p).2) := by
        simp [nextComponent, hc]
      rw [hcons] at h ⊢
      obtain ⟨s, hs, hp⟩ := ih h
      refine ⟨s, hs, ?_⟩
      rw [List.cons_append, ← hp]

theorem not_isSep_of_mem {p : WinStr} {x : UInt16} (h : x ∈ (nextComponent isSep p).1) :
    isSep x = false := by
  simpa using List.mem_takeWhile_imp h

/-- Where a server and a share are found, the server, its separator and the first unit of
the share stand at the beginning. -/
theorem share_prefix {r : WinStr} (hshare : (nextComponent isSep (nextComponent isSep r).2).1 ≠ []) :
    ∃ s c, isSep s = true ∧ isSep c = false ∧ (nextComponent isSep r).1 ++ [s, c] <+: r := by
  have hrest : (nextComponent isSep r).2 ≠ [] := fun h => hshare (by rw [h]; rfl)
  obtain ⟨s, hs, hr⟩ := nextComponent_split hrest
  match hrest' : (nextComponent isSep r).2 with
  | [] => exact absurd hrest' hrest
  | c :: rest =>
    rw [hrest'] at hr hshare
    cases hc : isSep c with
    | true => simp [nextComponent, hc] at hshare
    | false => exact ⟨s, c, hs, hc, rest, by rw [List.append_assoc]; exact hr.symm⟩

/-- After two separators, what makes a prefix is an anchor that lies within it. -/
theorem anchor_of_seps {s₁ s₂ : UInt16} {r : WinStr} {pre : Prefix} (h₁ : isSep s₁ = true)
    (h₂ : isSep s₂ = true) (hpre : parsePrefix (s₁ :: s₂ :: r) = some pre) :
    ∃ a, Anchor a ∧ a <+: s₁ :: s₂ :: r ∧ a.length ≤ pre.len := by
  rw [parsePrefix, if_pos (by simp [h₁, h₂])] at hpre
  split at hpre
  · next hverbatim =>
    cases hpre
    exact ⟨_, .verbatim, hverbatim ▸ List.take_prefix 4 _, four_le_parseVerbatim_len _⟩
  · split at hpre
    · next hdevice =>
      cases hpre
      obtain ⟨hdot, h₃⟩ := hdevice
      match r with
      | [] => simp at hdot
      | [c] => simp at h₃
      | c :: s₃ :: r =>
        obtain rfl : c = DOT := by simpa using hdot
        exact ⟨_, .device h₁ h₂ (by simpa using h₃), ⟨r, rfl⟩, Nat.le_add_right 4 _⟩
    · dsimp only at hpre
      split at hpre
      · cases hpre
      · next hshare =>
        cases hpre
        rw [List.drop_succ_cons, List.drop_succ_cons, List.drop_zero] at hshare ⊢
        simp only [Bool.or_eq_true, List.isEmpty_iff, not_or] at hshare
        obtain ⟨s₃, c, h₃, hc, hr⟩ := share_prefix hshare.2
        refine ⟨_, .share h₁ h₂ hshare.1 (fun x => not_isSep_of_mem) h₃ hc, ?_, ?_⟩
        · simpa using hr
        · have := List.length_pos_iff.mpr hshare.2
          simp only [List.length_cons, List.length_append, List.length_nil]
          omega

/-- A drive with its root, or an anchor that lies within the prefix. -/
theorem anchor_of_isAbsolute {p : WinStr} (h : isAbsolute p = true) :
    (∃ d s r, p = d :: COLON :: s :: r ∧ isAsciiAlphabetic d = true ∧ isSep s = true ∧
      parsePrefix p = some { verbatim := false, drive := true, len := 2 }) ∨
      ∃ a, Anchor a ∧ a <+: p.take (prefixLen p) := by
  obtain ⟨hsome, hroot⟩ := Bool.and_eq_true_iff.mp h
  obtain ⟨pre, hpre⟩ := Option.isSome_iff_exists.mp hsome
  have hlen : prefixLen p = pre.len := by rw [prefixLen, hpre]; rfl
  rw [hlen]
  rw [hasRoot, hlen, hpre] at hroot
  simp only [List.prefix_take_iff]
  match p with
  | [] => cases hpre
  | [c] => cases hsep : isSep c <;> simp [parsePrefix, startsWithDrive] at hpre
  | s₁ :: s₂ :: r =>
  by_cases hseps : isSep s₁ = true ∧ isSep s₂ = true
  · exact .inr (anchor_of_seps hseps.1 hseps.2 hpre)
  · have hparse := hpre
    rw [parsePrefix, if_neg (by simpa using hseps)] at hpre
    split at hpre
    · next hdrive =>
      cases hpre
      obtain ⟨hd, rfl⟩ : isAsciiAlphabetic s₁ = true ∧ s₂ = COLON := by
        simpa [startsWithDrive] using hdrive
      refine .inl ?_
      match r with
      | [] => simp at hroot
      | s :: r => exact ⟨s₁, s, r, rfl, hd, by simpa using hroot, hparse⟩
    · cases hpre

theorem isAbsolute_append {p q : WinStr} (h : isAbsolute p = true) : isAbsolute (p ++ q) = true := by
  obtain ⟨d, s, r, rfl, hd, hs, -⟩ | ⟨a, ha, hap⟩ := anchor_of_isAbsolute h
  · exact isAbsolute_of_anchor (.drive hd hs) ⟨r ++ q, rfl⟩
  · exact isAbsolute_of_anchor ha ((hap.trans (List.take_prefix _ _)).trans (List.prefix_append _ _))

/-- Pushing keeps the prefix that the components begin with. -/
theorem foldl_pushComponent (t : WinStr) (cs rest : List Component) :
    ∃ rest', cs.foldl pushComponent (.ofPrefix t :: rest) = .ofPrefix t :: rest' := by
  induction cs generalizing rest with
  | nil => exact ⟨rest, rfl⟩
  | cons c cs ih =>
    have hpush : ∃ rest', pushComponent (.ofPrefix t :: rest) c = .ofPrefix t :: rest' := by
      cases c with
      | rootDir => exact ⟨_, rfl⟩
      | curDir => exact ⟨_, rfl⟩
      | ofPrefix s => exact ⟨_, rfl⟩
      | normal s => exact ⟨_, rfl⟩
      | parentDir =>
        rw [pushComponent]
        split
        · -- the last component is a name, so it is not the prefix that is dropped
          next s hlast =>
          match rest with
          | [] => cases hlast
          | c :: rest => exact ⟨_, List.dropLast_cons_cons⟩
        · exact ⟨_, rfl⟩
    obtain ⟨rest', hrest⟩ := hpush
    rw [List.foldl_cons, hrest]
    exact ih rest'

/-- What is joined to an absolute path, with no prefix of its own, gives an absolute path. -/
theorem isAbsolute_join {p q : WinStr} (hp : isAbsolute p = true) (hq : parsePrefix q = none) :
    isAbsolute (join p q) = true := by
  rw [join]
  split
  · next h => simp [isAbsolute, hq] at h
  · split
    · next h =>
      obtain ⟨d, s, r, -, -, -, hparse⟩ | ⟨a, ha, hap⟩ := anchor_of_isAbsolute hp
      · simp [hparse] at h
      · obtain ⟨rest, hrest⟩ := foldl_pushComponent (p.take (prefixLen p)) _ _
        dsimp only
        rw [List.cons_append, hrest]
        exact isAbsolute_of_anchor ha (hap.trans (List.prefix_append _ _))
    · split
      · next hroot =>
        -- only the prefix of `p` is kept, and `q` brings a root
        have hhead : q.head?.any isSep = true := by simpa [hasRoot, prefixLen, hq] using hroot
        obtain ⟨d, s, r, rfl, hd, -, hparse⟩ | ⟨a, ha, hap⟩ := anchor_of_isAbsolute hp
        · rw [prefixLen, hparse]
          match q with
          | [] => cases hhead
          | s' :: q => exact isAbsolute_of_anchor (.drive hd hhead) ⟨q, rfl⟩
        · exact isAbsolute_of_anchor ha (hap.trans (List.prefix_append _ _))
      · split
        · exact isAbsolute_append hp
        · exact isAbsolute_append hp

end Xpty.Win
