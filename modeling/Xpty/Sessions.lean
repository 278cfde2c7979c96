import Mathlib.Data.List.Basic
import Mathlib.Logic.Function.Basic

/- Sessions, process groups and controlling terminals (POSIX), over any types of processes
   and terminals. A terminal that controls a session knows it by its leader, and each
   process of the session knows the terminal; the two sides are kept by different calls.

   `Sound` says that they agree: a terminal controls a session exactly if the leader of
   the session lives and has it (`holds_iff_control`), so that neither is ever shared.
   Every call keeps it, and `perform_keeps` says what each makes of the leaders and their
   terminals; `edited_perform` and `group_perform` what it leaves alone of the others. -/
namespace Sessions

structure Proc (P T : Type) where
  pid : P
  session : P
  group : P
  terminal : Option T

/-- What a controlling terminal knows of its session. -/
structure Control (P : Type) where
  session : P
  foreground : P

structure Table (P T : Type) where
  procs : List (Proc P T)
  control : T → Option (Control P)

/-- The calls that a process makes. -/
inductive Call (P T : Type) where
  | fork (child : P)
  | setsid
  | setpgid (group : P)
  /-- `TIOCSCTTY`, or the first terminal that a leader opens. -/
  | acquire (t : T)
  /-- `TIOCNOTTY`. -/
  | giveUp
  /-- `tcsetpgrp`. -/
  | setForeground (t : T) (group : P)
  | exit

variable {P T : Type}

/-- A leader and its controlling terminal. -/
def Table.Holds (tb : Table P T) (l : P) (t : T) : Prop :=
  ∃ x ∈ tb.procs, x.pid = l ∧ x.session = l ∧ x.terminal = some t

structure Sound (tb : Table P T) : Prop where
  pids : ∀ x ∈ tb.procs, ∀ y ∈ tb.procs, x.pid = y.pid → x = y
  leads : ∀ x ∈ tb.procs, x.session = x.pid → x.group = x.pid
  terminal : ∀ x ∈ tb.procs, ∀ t, x.terminal = some t →
    ∃ k, tb.control t = some k ∧ k.session = x.session
  control : ∀ t k, tb.control t = some k → tb.Holds k.session t

/-- The pid of a child is in use as no process, session or group. -/
def Table.Fresh (tb : Table P T) (p : P) : Prop :=
  ∀ y ∈ tb.procs, y.pid ≠ p ∧ y.session ≠ p ∧ y.group ≠ p

/-- What a call of `x` makes of the leaders and their terminals. -/
def Call.After (tb : Table P T) (x : Proc P T) (l : P) (t : T) : Call P T → Prop
  | .acquire t' => tb.Holds l t ∨ l = x.pid ∧ t = t'
  | .giveUp | .exit => tb.Holds l t ∧ l ≠ x.pid
  | _ => tb.Holds l t

/-- A call keeps the table sound, and does that. -/
structure Keeps (tb : Table P T) (x : Proc P T) (call : Call P T) (tb' : Table P T) : Prop where
  sound : Sound tb'
  holds : ∀ l t, tb'.Holds l t ↔ call.After tb x l t

section
variable {tb : Table P T} {x : Proc P T} {l : P} {t : T}

/-- The two sides agree. -/
theorem Sound.holds_iff_control (h : Sound tb) :
    tb.Holds l t ↔ ∃ k, tb.control t = some k ∧ k.session = l := by
  refine ⟨?_, ?_⟩
  · intro hl
    obtain ⟨x, hx, -, rfl, ht⟩ := hl
    exact h.terminal x hx t ht
  · intro hk
    obtain ⟨k, hk, rfl⟩ := hk
    exact h.control t k hk

theorem Sound.holds_leader (h : Sound tb) (hx : x ∈ tb.procs) :
    tb.Holds x.pid t ↔ x.session = x.pid ∧ x.terminal = some t := by
  refine ⟨?_, fun hl => ⟨x, hx, rfl, hl.1, hl.2⟩⟩
  intro hl
  obtain ⟨y, hy, hpid, hsession, ht⟩ := hl
  obtain rfl := h.pids y hy x hx hpid
  exact ⟨hsession, ht⟩

/-- A terminal that controls the same session as before. -/
theorem sound_control (h : Sound tb) {control : T → Option (Control P)}
    (hsame : ∀ t, (control t).map (·.session) = (tb.control t).map (·.session)) :
    Sound { tb with control } := by
  refine ⟨h.pids, h.leads, ?_, ?_⟩
  · intro y hy t ht
    obtain ⟨k, hk, hsession⟩ := h.terminal y hy t ht
    have hmap := hsame t
    rw [hk, Option.map_some, Option.map_eq_some_iff] at hmap
    obtain ⟨k', hk', heq⟩ := hmap
    exact ⟨k', hk', heq.trans hsession⟩
  · intro t k hk
    have hk : control t = some k := hk
    have hmap : some k.session = (tb.control t).map (·.session) := by
      rw [← hsame t, hk, Option.map_some]
    obtain ⟨k', hk', heq⟩ := Option.map_eq_some_iff.mp hmap.symm
    exact heq ▸ h.control t k' hk'

theorem keeps_fork {child : P} (h : Sound tb) (hx : x ∈ tb.procs) (hfresh : tb.Fresh child) :
    Keeps tb x (.fork child) { tb with procs := { x with pid := child } :: tb.procs } := by
  have hnot : x.session ≠ child := (hfresh x hx).2.1
  have hholds : ∀ l t, Table.Holds { tb with procs := { x with pid := child } :: tb.procs } l t ↔
      tb.Holds l t := by
    intro l t
    simp only [Table.Holds, List.exists_mem_cons_iff, or_iff_right_iff_imp, and_imp]
    rintro rfl hleader -
    exact absurd hleader hnot
  refine ⟨⟨?_, ?_, ?_, fun t k hk => (hholds _ _).mpr (h.control t k hk)⟩, hholds⟩
  · intro y hy z hz hpid
    rcases List.mem_cons.mp hy with rfl | hy
    · rcases List.mem_cons.mp hz with rfl | hz
      · rfl
      · exact absurd hpid.symm (hfresh z hz).1
    · rcases List.mem_cons.mp hz with rfl | hz
      · exact absurd hpid (hfresh y hy).1
      · exact h.pids y hy z hz hpid
  · intro y hy hleader
    rcases List.mem_cons.mp hy with rfl | hy
    · exact absurd hleader hnot
    · exact h.leads y hy hleader
  · intro y hy t ht
    rcases List.mem_cons.mp hy with rfl | hy
    · exact h.terminal x hx t ht
    · exact h.terminal y hy t ht

end

/-! Processes that lose their terminal. -/

def lose (q : Proc P T → Prop) [DecidablePred q] (procs : List (Proc P T)) : List (Proc P T) :=
  procs.map fun y => if q y then { y with terminal := none } else y

/-- What becomes of a process. -/
structure Lost (q : Proc P T → Prop) (y y' : Proc P T) : Prop where
  pid : y'.pid = y.pid
  session : y'.session = y.session
  group : y'.group = y.group
  terminal : ∀ t, y'.terminal = some t ↔ y.terminal = some t ∧ ¬ q y

theorem Lost.terminal_or {q : Proc P T → Prop} {y y' : Proc P T} (h : Lost q y y') :
    y'.terminal = y.terminal ∨ y'.terminal = none := by
  cases ht : y'.terminal with
  | none => exact .inr rfl
  | some t => exact .inl ((h.terminal t).mp ht).1.symm

section
variable {q : Proc P T → Prop} [DecidablePred q] {tb : Table P T} {y y' : Proc P T} {l : P} {t : T}

theorem lost (y : Proc P T) : Lost q y (if q y then { y with terminal := none } else y) := by
  split
  · rename_i hq
    exact ⟨rfl, rfl, rfl, fun t => iff_of_false nofun fun h => h.2 hq⟩
  · rename_i hq
    exact ⟨rfl, rfl, rfl, fun t => (and_iff_left hq).symm⟩

theorem of_mem_lose (hy' : y' ∈ lose q tb.procs) : ∃ y ∈ tb.procs, Lost q y y' := by
  obtain ⟨y, hy, rfl⟩ := List.mem_map.mp hy'
  exact ⟨y, hy, lost y⟩

theorem exists_lost (hy : y ∈ tb.procs) : ∃ y' ∈ lose q tb.procs, Lost q y y' :=
  ⟨_, List.mem_map.mpr ⟨y, hy, rfl⟩, lost y⟩

theorem holds_lose {control : T → Option (Control P)} :
    Table.Holds { procs := lose q tb.procs, control } l t ↔
      ∃ y ∈ tb.procs, (y.pid = l ∧ y.session = l ∧ y.terminal = some t) ∧ ¬ q y := by
  refine ⟨?_, ?_⟩
  · intro hl
    obtain ⟨y', hy', hpid, hsession, ht⟩ := hl
    obtain ⟨y, hy, hlost⟩ := of_mem_lose hy'
    obtain ⟨ht, hq⟩ := (hlost.terminal t).mp ht
    exact ⟨y, hy, ⟨hlost.pid.symm.trans hpid, hlost.session.symm.trans hsession, ht⟩, hq⟩
  · intro hl
    obtain ⟨y, hy, ⟨hpid, hsession, ht⟩, hq⟩ := hl
    obtain ⟨y', hy', hlost⟩ := exists_lost (q := q) hy
    exact ⟨y', hy', hlost.pid.trans hpid, hlost.session.trans hsession, (hlost.terminal t).mpr ⟨ht, hq⟩⟩

theorem sound_lose (h : Sound tb) {control : T → Option (Control P)}
    (hkept : ∀ y ∈ tb.procs, ∀ t, y.terminal = some t → ¬ q y → control t = tb.control t)
    (hcontrol : ∀ t k, control t = some k →
      Table.Holds { procs := lose q tb.procs, control } k.session t) :
    Sound { procs := lose q tb.procs, control } := by
  refine ⟨?_, ?_, ?_, hcontrol⟩
  · intro y' hy' z' hz' hpid
    obtain ⟨y, hy, rfl⟩ := List.mem_map.mp hy'
    obtain ⟨z, hz, rfl⟩ := List.mem_map.mp hz'
    have heq : y = z := h.pids y hy z hz ((lost y).pid.symm.trans (hpid.trans (lost z).pid))
    rw [heq]
  · intro y' hy' hleader
    obtain ⟨y, hy, hlost⟩ := of_mem_lose hy'
    rw [hlost.session, hlost.pid] at hleader
    rw [hlost.group, hlost.pid]
    exact h.leads y hy hleader
  · intro y' hy' t ht
    obtain ⟨y, hy, hlost⟩ := of_mem_lose hy'
    obtain ⟨ht, hq⟩ := (hlost.terminal t).mp ht
    obtain ⟨k, hk, hsession⟩ := h.terminal y hy t ht
    exact ⟨k, (hkept y hy t ht hq).trans hk, hsession.trans hlost.session.symm⟩

end

section
variable [DecidableEq T] {tb : Table P T} {l : P} {t t' : T}

/-- The terminal goes away. -/
def Table.hangup (tb : Table P T) (t : T) : Table P T where
  procs := lose (fun y => y.terminal = some t) tb.procs
  control := Function.update tb.control t none

theorem holds_hangup : (tb.hangup t).Holds l t' ↔ tb.Holds l t' ∧ t' ≠ t := by
  refine holds_lose.trans ⟨?_, ?_⟩
  · rintro ⟨y, hy, hholds, hq⟩
    exact ⟨⟨y, hy, hholds⟩, fun heq => hq (heq ▸ hholds.2.2)⟩
  · rintro ⟨⟨y, hy, hholds⟩, hne⟩
    exact ⟨y, hy, hholds, fun hq => hne (Option.some.inj (hholds.2.2.symm.trans hq))⟩

theorem sound_hangup (h : Sound tb) : Sound (tb.hangup t) := by
  refine sound_lose h ?_ ?_
  · intro y hy t' ht hq
    refine Function.update_of_ne ?_ ..
    rintro rfl
    exact hq ht
  · intro t' k hk
    have hne : t' ≠ t := by
      rintro rfl
      rw [Function.update_self] at hk
      cases hk
    rw [Function.update_of_ne hne] at hk
    exact holds_hangup.mpr ⟨h.control t' k hk, hne⟩

end

/-- What a call of `x` makes of a process: of another it changes no more than that it may
lose its terminal. -/
structure Edited (x y y' : Proc P T) : Prop where
  pid : y'.pid = y.pid
  session : y.pid ≠ x.pid → y'.session = y.session
  terminal : y.pid ≠ x.pid → y'.terminal = y.terminal ∨ y'.terminal = none

theorem Edited.refl (x y : Proc P T) : Edited x y y := ⟨rfl, fun _ => rfl, fun _ => .inl rfl⟩

variable [DecidableEq P]

/-- What a call changes in one process. -/
def edit (p : P) (f : Proc P T → Proc P T) (procs : List (Proc P T)) : List (Proc P T) :=
  procs.map fun y => if y.pid = p then f y else y

def Table.find (tb : Table P T) (p : P) : Option (Proc P T) := tb.procs.find? fun x => x.pid = p

instance (tb : Table P T) (p : P) : Decidable (tb.Fresh p) :=
  inferInstanceAs (Decidable (∀ y ∈ tb.procs, _))

section
variable {tb : Table P T} {x y : Proc P T} {p l : P} {t : T}

theorem mem_edit {f : Proc P T → Proc P T} {procs : List (Proc P T)} :
    y ∈ edit p f procs ↔ ∃ x ∈ procs, (if x.pid = p then f x else x) = y := List.mem_map

theorem of_find (h : tb.find p = some x) : x ∈ tb.procs ∧ x.pid = p :=
  ⟨List.mem_of_find?_eq_some h, by simpa using List.find?_some h⟩

/-! A change of one process. -/

section
variable {f : Proc P T → Proc P T} {control : T → Option (Control P)}

theorem holds_edit (h : Sound tb) (hx : x ∈ tb.procs) (hf : ∀ y, (f y).pid = y.pid) :
    Table.Holds { procs := edit x.pid f tb.procs, control } l t ↔
      (l = x.pid ∧ (f x).session = x.pid ∧ (f x).terminal = some t) ∨ (l ≠ x.pid ∧ tb.Holds l t) := by
  refine ⟨?_, ?_⟩
  · intro hl
    obtain ⟨y', hy', hpid, hsession, ht⟩ := hl
    obtain ⟨y, hy, rfl⟩ := mem_edit.mp hy'
    by_cases heq : y.pid = x.pid
    · obtain rfl := h.pids y hy x hx heq
      rw [if_pos rfl] at hpid hsession ht
      rw [hf] at hpid
      exact .inl ⟨hpid.symm, hpid ▸ hsession, ht⟩
    · rw [if_neg heq] at hpid hsession ht
      exact .inr ⟨hpid ▸ heq, y, hy, hpid, hsession, ht⟩
  · intro hl
    rcases hl with ⟨rfl, hsession, ht⟩ | ⟨hne, y, hy, hpid, hsession, ht⟩
    · exact ⟨f x, mem_edit.mpr ⟨x, hx, if_pos rfl⟩, hf x, hsession, ht⟩
    · exact ⟨y, mem_edit.mpr ⟨y, hy, if_neg (hpid ▸ hne)⟩, hpid, hsession, ht⟩

theorem sound_edit (h : Sound tb) (hx : x ∈ tb.procs) (hf : ∀ y, (f y).pid = y.pid)
    (hleads : (f x).session = x.pid → (f x).group = x.pid)
    (hterminal : ∀ t, (f x).terminal = some t → ∃ k, control t = some k ∧ k.session = (f x).session)
    (hextends : ∀ t k, tb.control t = some k → control t = some k)
    (hcontrol : ∀ t k, control t = some k →
      Table.Holds { procs := edit x.pid f tb.procs, control } k.session t) :
    Sound { procs := edit x.pid f tb.procs, control } := by
  -- a process of the new table is the one that is edited, or an old one with another pid
  have hcases : ∀ y' ∈ edit x.pid f tb.procs, y' = f x ∨ y' ∈ tb.procs ∧ y'.pid ≠ x.pid := by
    intro y' hy'
    obtain ⟨y, hy, rfl⟩ := mem_edit.mp hy'
    by_cases heq : y.pid = x.pid
    · obtain rfl := h.pids y hy x hx heq
      exact .inl (if_pos rfl)
    · rw [if_neg heq]
      exact .inr ⟨hy, heq⟩
  refine ⟨?_, ?_, ?_, hcontrol⟩
  · intro y hy z hz hpid
    rcases hcases y hy with rfl | ⟨hy, hne⟩
    · rcases hcases z hz with rfl | ⟨-, hne⟩
      · rfl
      · exact absurd (hpid.symm.trans (hf x)) hne
    · rcases hcases z hz with rfl | ⟨hz, -⟩
      · exact absurd (hpid.trans (hf x)) hne
      · exact h.pids y hy z hz hpid
  · intro y hy hleader
    rcases hcases y hy with rfl | ⟨hy, -⟩
    · rw [hf] at hleader ⊢
      exact hleads hleader
    · exact h.leads y hy hleader
  · intro y hy t ht
    rcases hcases y hy with rfl | ⟨hy, -⟩
    · exact hterminal t ht
    · obtain ⟨k, hk, hsession⟩ := h.terminal y hy t ht
      exact ⟨k, hextends t k hk, hsession⟩

end

/-- A change of a process that is no leader, or leaves what makes it one alone. -/
theorem keeps_edit {f : Proc P T → Proc P T} (h : Sound tb) (hx : x ∈ tb.procs)
    (hf : ∀ y, (f y).pid = y.pid) (hleads : (f x).session = x.pid → (f x).group = x.pid)
    (hterminal : (f x).terminal = none ∨ (f x).terminal = x.terminal ∧ (f x).session = x.session)
    (hnot : x.session ≠ x.pid)
    (hnot' : (f x).session = x.pid → (f x).terminal = none) :
    Sound { tb with procs := edit x.pid f tb.procs } ∧
      ∀ l t, Table.Holds { tb with procs := edit x.pid f tb.procs } l t ↔ tb.Holds l t := by
  have hholds : ∀ l t, Table.Holds { tb with procs := edit x.pid f tb.procs } l t ↔ tb.Holds l t := by
    intro l t
    rw [holds_edit h hx hf]
    refine ⟨?_, ?_⟩
    · rintro (⟨-, hsession, ht⟩ | ⟨-, hl⟩)
      · rw [hnot' hsession] at ht
        cases ht
      · exact hl
    · intro hl
      refine .inr ⟨?_, hl⟩
      rintro rfl
      exact hnot ((h.holds_leader hx).mp hl).1
  refine ⟨sound_edit h hx hf hleads ?_ (fun t k hk => hk) ?_, hholds⟩
  · intro t ht
    rcases hterminal with hnone | ⟨hsame, hsession⟩
    · rw [hnone] at ht
      cases ht
    · rw [hsession]
      exact h.terminal x hx t (hsame ▸ ht)
  · exact fun t k hk => (hholds _ _).mpr (h.control t k hk)

theorem edited_edit {f : Proc P T → Proc P T} (hf : ∀ y, (f y).pid = y.pid) (hy : y ∈ tb.procs) :
    ∃ y' ∈ edit x.pid f tb.procs, Edited x y y' := by
  refine ⟨_, mem_edit.mpr ⟨y, hy, rfl⟩, ?_⟩
  split
  · rename_i heq
    exact ⟨hf y, fun hne => absurd heq hne, fun hne => absurd heq hne⟩
  · exact .refl x y

theorem group_edit {f : Proc P T → Proc P T} {g : P} (hold : ∀ y ∈ tb.procs, y.group ≠ g)
    (hf : ∀ y ∈ tb.procs, y.pid = p → (f y).group ≠ g) : ∀ y ∈ edit p f tb.procs, y.group ≠ g := by
  intro y' hy'
  obtain ⟨y, hy, rfl⟩ := mem_edit.mp hy'
  split
  · rename_i heq
    exact hf y hy heq
  · exact hold y hy

theorem holds_remove (hp : ∀ t, ¬ tb.Holds p t) :
    Table.Holds { tb with procs := tb.procs.filter fun y => y.pid ≠ p } l t ↔ tb.Holds l t := by
  refine ⟨?_, ?_⟩
  · intro hl
    obtain ⟨y, hy, hrest⟩ := hl
    exact ⟨y, (List.mem_filter.mp hy).1, hrest⟩
  · intro hl
    obtain ⟨y, hy, hpid, hrest⟩ := hl
    have hne : y.pid ≠ p := by
      rintro rfl
      exact hp t ⟨y, hy, rfl, hpid ▸ hrest.1, hrest.2⟩
    exact ⟨y, List.mem_filter.mpr ⟨hy, by simpa using hne⟩, hpid, hrest⟩

theorem sound_remove (h : Sound tb) (hp : ∀ t, ¬ tb.Holds p t) :
    Sound { tb with procs := tb.procs.filter fun y => y.pid ≠ p } := by
  have hold : ∀ y ∈ tb.procs.filter fun y => y.pid ≠ p, y ∈ tb.procs :=
    fun y hy => (List.mem_filter.mp hy).1
  refine ⟨?_, ?_, ?_, ?_⟩
  · exact fun y hy z hz => h.pids y (hold y hy) z (hold z hz)
  · exact fun y hy => h.leads y (hold y hy)
  · exact fun y hy => h.terminal y (hold y hy)
  · exact fun t k hk => (holds_remove hp).mpr (h.control t k hk)

end

variable [DecidableEq T]

/-- A leader gives up its terminal, and with it the whole session. -/
def Table.disassociate (tb : Table P T) (x : Proc P T) : Table P T where
  procs := lose (fun y => y.session = x.session) tb.procs
  control t := if x.terminal = some t then none else tb.control t

/-- A call of the process `x`, or `none` where it fails. -/
def perform (tb : Table P T) (x : Proc P T) : Call P T → Option (Table P T)
  | .fork child =>
    if tb.Fresh child then some { tb with procs := { x with pid := child } :: tb.procs } else none
  | .setsid =>
    if ∃ y ∈ tb.procs, y.group = x.pid then none
    else some { tb with
      procs := edit x.pid (fun y => { y with session := y.pid, group := y.pid, terminal := none })
        tb.procs }
  | .setpgid group =>
    if x.session ≠ x.pid ∧
        (group = x.pid ∨ ∃ y ∈ tb.procs, y.group = group ∧ y.session = x.session) then
      some { tb with procs := edit x.pid (fun y => { y with group }) tb.procs }
    else none
  | .acquire t =>
    if x.session ≠ x.pid then none
    else if (tb.control t).any fun k => k.session = x.pid then some tb
    else if x.terminal.isSome || (tb.control t).isSome then none
    else some {
      procs := edit x.pid (fun y => { y with terminal := some t }) tb.procs
      control := Function.update tb.control t (some { session := x.pid, foreground := x.group }) }
  | .giveUp =>
    if x.session = x.pid then some (tb.disassociate x)
    else some { tb with procs := edit x.pid (fun y => { y with terminal := none }) tb.procs }
  | .setForeground t group =>
    match tb.control t with
    | none => none
    | some k =>
      if x.terminal = some t ∧ ∃ y ∈ tb.procs, y.group = group ∧ y.session = x.session then
        some { tb with control := Function.update tb.control t (some { k with foreground := group }) }
      else none
  | .exit =>
    let tb := if x.session = x.pid then tb.disassociate x else tb
    some { tb with procs := tb.procs.filter fun y => y.pid ≠ x.pid }

variable {tb tb' : Table P T} {x y : Proc P T} {p l : P} {t t' : T} {call : Call P T}

theorem holds_disassociate (hleader : x.session = x.pid) :
    (tb.disassociate x).Holds l t ↔ tb.Holds l t ∧ l ≠ x.pid := by
  refine holds_lose.trans ⟨?_, ?_⟩
  · rintro ⟨y, hy, hholds, hq⟩
    exact ⟨⟨y, hy, hholds⟩, fun heq => hq (hholds.2.1.trans (heq.trans hleader.symm))⟩
  · rintro ⟨⟨y, hy, hholds⟩, hne⟩
    exact ⟨y, hy, hholds, fun hq => hne (hholds.2.1.symm.trans (hq.trans hleader))⟩

theorem sound_disassociate (h : Sound tb) (hx : x ∈ tb.procs) (hleader : x.session = x.pid) :
    Sound (tb.disassociate x) := by
  refine sound_lose h ?_ ?_
  · intro y hy t ht hq
    refine if_neg fun hxt => ?_
    -- a terminal that both have controls the session of both
    obtain ⟨k, hk, hsession⟩ := h.terminal y hy t ht
    obtain ⟨k', hk', hsession'⟩ := h.terminal x hx t hxt
    rw [hk, Option.some.injEq] at hk'
    exact hq (hsession.symm.trans (hk' ▸ hsession'))
  · intro t k hk
    obtain ⟨hxt, hk⟩ := Option.ite_none_left_eq_some.mp hk
    have hold := h.control t k hk
    refine (holds_disassociate hleader).mpr ⟨hold, ?_⟩
    intro heq
    rw [heq, h.holds_leader hx] at hold
    exact hxt hold.2

/-! The calls. -/

theorem keeps_acquire {t' : T} (h : Sound tb) (hx : x ∈ tb.procs) (hleader : x.session = x.pid)
    (hnone : x.terminal = none) (hfree : tb.control t' = none) :
    Keeps tb x (.acquire t') {
      procs := edit x.pid (fun y => { y with terminal := some t' }) tb.procs
      control := Function.update tb.control t' (some { session := x.pid, foreground := x.group }) } := by
  have hnot : ∀ t, ¬ tb.Holds x.pid t := by
    intro t hl
    rw [h.holds_leader hx, hnone] at hl
    cases hl.2
  have hholds : ∀ {control : T → Option (Control P)} l t, Table.Holds {
      procs := edit x.pid (fun y => { y with terminal := some t' }) tb.procs, control } l t ↔
        tb.Holds l t ∨ l = x.pid ∧ t = t' := by
    intro control l t
    rw [holds_edit (f := fun y => { y with terminal := some t' }) h hx fun y => rfl]
    simp only [hleader, true_and, Option.some.injEq]
    refine ⟨?_, ?_⟩
    · rintro (⟨rfl, rfl⟩ | ⟨-, hl⟩)
      · exact .inr ⟨rfl, rfl⟩
      · exact .inl hl
    · rintro (hl | ⟨rfl, rfl⟩)
      · refine .inr ⟨?_, hl⟩
        rintro rfl
        exact hnot t hl
      · exact .inl ⟨rfl, rfl⟩
  refine ⟨sound_edit h hx (fun y => rfl) (fun _ => h.leads x hx hleader) ?_ ?_ ?_, hholds⟩
  · intro t ht
    obtain rfl := Option.some.inj ht
    exact ⟨_, Function.update_self .., hleader.symm⟩
  · intro t k hk
    rw [Function.update_of_ne]
    · exact hk
    · rintro rfl
      rw [hfree] at hk
      cases hk
  · intro t k hk
    rw [hholds]
    by_cases heq : t = t'
    · rw [heq, Function.update_self, Option.some.injEq] at hk
      exact .inr ⟨hk ▸ rfl, heq⟩
    · rw [Function.update_of_ne heq] at hk
      exact .inl (h.control t k hk)

theorem perform_keeps (h : Sound tb) (hx : x ∈ tb.procs) (hc : perform tb x call = some tb') :
    Keeps tb x call tb' := by
  cases call with
  | fork child =>
    obtain ⟨hfresh, hc⟩ := Option.ite_none_right_eq_some.mp hc
    exact Option.some.inj hc ▸ keeps_fork h hx hfresh
  | setsid =>
    obtain ⟨hno, hc⟩ := Option.ite_none_left_eq_some.mp hc
    have hnot : x.session ≠ x.pid := fun hleader => hno ⟨x, hx, h.leads x hx hleader⟩
    obtain ⟨hsound, hholds⟩ := keeps_edit h hx
      (f := fun y => { y with session := y.pid, group := y.pid, terminal := none }) (fun y => rfl)
      (fun _ => rfl) (.inl rfl) hnot (fun _ => rfl)
    exact Option.some.inj hc ▸ ⟨hsound, hholds⟩
  | setpgid group =>
    obtain ⟨⟨hnot, -⟩, hc⟩ := Option.ite_none_right_eq_some.mp hc
    obtain ⟨hsound, hholds⟩ := keeps_edit h hx (f := fun y => { y with group }) (fun y => rfl)
      (fun hleader => absurd hleader hnot) (.inr ⟨rfl, rfl⟩) hnot (fun hleader => absurd hleader hnot)
    exact Option.some.inj hc ▸ ⟨hsound, hholds⟩
  | acquire t' =>
    obtain ⟨hleader, hc⟩ := Option.ite_none_left_eq_some.mp hc
    rw [not_not] at hleader
    split at hc
    · -- it has the terminal already
      rename_i hown
      obtain ⟨k, hk, hsession⟩ := (Option.any_eq_true ..).mp hown
      obtain rfl := Option.some.inj hc
      refine ⟨h, fun l t => (or_iff_left_of_imp ?_).symm⟩
      rintro ⟨rfl, rfl⟩
      exact h.holds_iff_control.mpr ⟨k, hk, by simpa using hsession⟩
    · obtain ⟨hfree, hc⟩ := Option.ite_none_left_eq_some.mp hc
      simp only [Bool.or_eq_true, not_or, Bool.not_eq_true, Option.isSome_eq_false_iff,
        Option.isNone_iff_eq_none] at hfree
      exact Option.some.inj hc ▸ keeps_acquire h hx hleader hfree.1 hfree.2
  | giveUp =>
    rw [perform] at hc
    split at hc
    · rename_i hleader
      exact Option.some.inj hc ▸
        ⟨sound_disassociate h hx hleader, fun l t => holds_disassociate hleader⟩
    · rename_i hnot
      obtain ⟨hsound, hholds⟩ := keeps_edit h hx (f := fun y => { y with terminal := none })
        (fun y => rfl) (fun hleader => absurd hleader hnot) (.inl rfl) hnot (fun _ => rfl)
      refine Option.some.inj hc ▸ ⟨hsound, fun l t => (hholds l t).trans (iff_self_and.mpr ?_)⟩
      rintro hl rfl
      exact hnot ((h.holds_leader hx).mp hl).1
  | setForeground t' group =>
    rw [perform] at hc
    split at hc
    · cases hc
    · rename_i k hk
      obtain ⟨-, hc⟩ := Option.ite_none_right_eq_some.mp hc
      obtain rfl := Option.some.inj hc
      -- the session that the terminal controls is the same
      have hsame : ∀ t, (Function.update tb.control t' (some { k with foreground := group }) t).map
          (·.session) = (tb.control t).map (·.session) := by
        intro t
        by_cases heq : t = t'
        · rw [heq, Function.update_self, hk]
          rfl
        · rw [Function.update_of_ne heq]
      exact ⟨sound_control h hsame, fun l t => Iff.rfl⟩
  | exit =>
    obtain rfl := Option.some.inj hc
    by_cases hleader : x.session = x.pid
    · have hno : ∀ t, ¬ (tb.disassociate x).Holds x.pid t :=
        fun t hl => ((holds_disassociate hleader).mp hl).2 rfl
      rw [if_pos hleader]
      exact ⟨sound_remove (sound_disassociate h hx hleader) hno,
        fun l t => (holds_remove hno).trans (holds_disassociate hleader)⟩
    · have hno : ∀ t, ¬ tb.Holds x.pid t := fun t hl => hleader ((h.holds_leader hx).mp hl).1
      rw [if_neg hleader]
      refine ⟨sound_remove h hno, fun l t => (holds_remove hno).trans (iff_self_and.mpr ?_)⟩
      rintro hl rfl
      exact hno t hl

/-- A leader without a terminal gets one exactly if that controls no session. -/
theorem acquire_iff (h : Sound tb) (hx : x ∈ tb.procs) (hleader : x.session = x.pid)
    (hnone : x.terminal = none) :
    (∃ tb', perform tb x (.acquire t) = some tb') ↔ ∀ l, ¬ tb.Holds l t := by
  have hfree : (∀ l, ¬ tb.Holds l t) ↔ tb.control t = none := by
    simp only [h.holds_iff_control, not_exists, not_and, Option.eq_none_iff_forall_ne_some]
    exact ⟨fun hl k hk => hl k.session k hk rfl, fun hk l k hk' => absurd hk' (hk k)⟩
  rw [hfree, perform, if_neg (not_not.mpr hleader)]
  cases hk : tb.control t with
  | none => simp [hnone]
  | some k =>
    have hother : k.session ≠ x.pid := by
      intro hsession
      have hown := h.control t k hk
      rw [hsession, h.holds_leader hx, hnone] at hown
      cases hown.2
    simp [hother]

/-! What a call leaves alone. -/

theorem edited_disassociate (hy : y ∈ tb.procs) : ∃ y' ∈ (tb.disassociate x).procs, Edited x y y' := by
  obtain ⟨y', hy', hlost⟩ := exists_lost (q := fun y => y.session = x.session) hy
  exact ⟨y', hy', hlost.pid, fun _ => hlost.session, fun _ => hlost.terminal_or⟩

theorem edited_perform (hc : perform tb x call = some tb') (hy : y ∈ tb.procs)
    (hne : call = .exit → y.pid ≠ x.pid) : ∃ y' ∈ tb'.procs, Edited x y y' := by
  cases call with
  | fork child =>
    obtain ⟨-, hc⟩ := Option.ite_none_right_eq_some.mp hc
    exact Option.some.inj hc ▸ ⟨y, List.mem_cons_of_mem _ hy, .refl x y⟩
  | setsid =>
    obtain ⟨-, hc⟩ := Option.ite_none_left_eq_some.mp hc
    exact Option.some.inj hc ▸ edited_edit (fun y => rfl) hy
  | setpgid group =>
    obtain ⟨-, hc⟩ := Option.ite_none_right_eq_some.mp hc
    exact Option.some.inj hc ▸ edited_edit (fun y => rfl) hy
  | acquire t' =>
    obtain ⟨-, hc⟩ := Option.ite_none_left_eq_some.mp hc
    split at hc
    · exact Option.some.inj hc ▸ ⟨y, hy, .refl x y⟩
    · obtain ⟨-, hc⟩ := Option.ite_none_left_eq_some.mp hc
      exact Option.some.inj hc ▸ edited_edit (fun y => rfl) hy
  | giveUp =>
    rw [perform] at hc
    split at hc
    · exact Option.some.inj hc ▸ edited_disassociate hy
    · exact Option.some.inj hc ▸ edited_edit (fun y => rfl) hy
  | setForeground t' group =>
    rw [perform] at hc
    split at hc
    · cases hc
    · obtain ⟨-, hc⟩ := Option.ite_none_right_eq_some.mp hc
      exact Option.some.inj hc ▸ ⟨y, hy, .refl x y⟩
  | exit =>
    obtain rfl := Option.some.inj hc
    have hedited : ∃ y' ∈ (if x.session = x.pid then tb.disassociate x else tb).procs,
        Edited x y y' := by
      split
      · exact edited_disassociate hy
      · exact ⟨y, hy, .refl x y⟩
    obtain ⟨y', hy', hedited⟩ := hedited
    refine ⟨y', List.mem_filter.mpr ⟨hy', ?_⟩, hedited⟩
    rw [hedited.pid]
    simpa using hne rfl

/-- A process gets into no group but its own and those that are there. -/
theorem group_perform (hx : x ∈ tb.procs) (hc : perform tb x call = some tb') (hne : x.pid ≠ p)
    (hold : ∀ y ∈ tb.procs, y.group ≠ p) : ∀ y ∈ tb'.procs, y.group ≠ p := by
  have hdis : ∀ y ∈ (tb.disassociate x).procs, y.group ≠ p := by
    intro y' hy'
    obtain ⟨y, hy, hlost⟩ := of_mem_lose hy'
    exact hlost.group ▸ hold y hy
  intro y hy
  cases call with
  | fork child =>
    obtain ⟨-, hc⟩ := Option.ite_none_right_eq_some.mp hc
    obtain rfl := Option.some.inj hc
    rcases List.mem_cons.mp hy with rfl | hy
    · exact hold x hx
    · exact hold y hy
  | setsid =>
    obtain ⟨-, hc⟩ := Option.ite_none_left_eq_some.mp hc
    obtain rfl := Option.some.inj hc
    exact group_edit hold (fun z _ heq => heq ▸ hne) y hy
  | setpgid group =>
    obtain ⟨⟨-, hgroup⟩, hc⟩ := Option.ite_none_right_eq_some.mp hc
    obtain rfl := Option.some.inj hc
    have hnew : group ≠ p := by
      rcases hgroup with rfl | ⟨z, hz, rfl, -⟩
      · exact hne
      · exact hold z hz
    exact group_edit hold (fun _ _ _ => hnew) y hy
  | acquire t' =>
    obtain ⟨-, hc⟩ := Option.ite_none_left_eq_some.mp hc
    split at hc
    · exact hold y (Option.some.inj hc ▸ hy)
    · obtain ⟨-, hc⟩ := Option.ite_none_left_eq_some.mp hc
      obtain rfl := Option.some.inj hc
      refine group_edit hold ?_ y hy
      exact fun z hz _ => hold z hz
  | giveUp =>
    rw [perform] at hc
    split at hc
    · exact hdis y (Option.some.inj hc ▸ hy)
    · obtain rfl := Option.some.inj hc
      refine group_edit hold ?_ y hy
      exact fun z hz _ => hold z hz
  | setForeground t' group =>
    rw [perform] at hc
    split at hc
    · cases hc
    · obtain ⟨-, hc⟩ := Option.ite_none_right_eq_some.mp hc
      obtain rfl := Option.some.inj hc
      exact hold y hy
  | exit =>
    obtain rfl := Option.some.inj hc
    have hy := (List.mem_filter.mp hy).1
    split at hy
    · exact hdis y hy
    · exact hold y hy

end Sessions
