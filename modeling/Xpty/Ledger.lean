import Mathlib.Data.List.Nodup
import Mathlib.Data.List.Perm.Basic
import Mathlib.Logic.Function.Basic
import Mathlib.Logic.Relation

/- Tables of resources and who holds what in them, over any key, entry and owner types.
   `Accounts` says that a table is what others have in it and one entry for each one
   that is owned, no key being owned twice: nothing leaks, and nothing is given back
   twice. `Move` is what can happen to such books (an entry is taken, given back,
   changed, or handed from one owner to another); every move keeps them balanced, and
   says where an entry can have come from. The owners themselves are a list. -/
namespace Ledger

variable {K F O : Type}

abbrev Table (K F : Type) := K → Option F

structure Accounts (others table : Table K F) (owned : List (K × F)) : Prop where
  distinct : (owned.map Prod.fst).Nodup
  held : ∀ e ∈ owned, table e.1 = some e.2
  apart : ∀ e ∈ owned, others e.1 = none
  rest : ∀ k, k ∉ owned.map Prod.fst → table k = others k

variable {others table : Table K F} {owned : List (K × F)}

theorem Accounts.start (others : Table K F) : Accounts others others [] :=
  ⟨.nil, nofun, nofun, fun _ _ => rfl⟩

/-- With nothing owned, the table is that of the others. -/
theorem Accounts.settled (h : Accounts others table []) : table = others :=
  funext fun k => h.rest k List.not_mem_nil

/-- The order in which entries are owned does not matter. -/
theorem Accounts.perm {owned' : List (K × F)} (h : Accounts others table owned)
    (hp : owned.Perm owned') : Accounts others table owned' where
  distinct := (hp.map Prod.fst).nodup_iff.mp h.distinct
  held e he := h.held e (hp.mem_iff.mpr he)
  apart e he := h.apart e (hp.mem_iff.mpr he)
  rest k hk := h.rest k fun hmem => hk ((hp.map Prod.fst).mem_iff.mp hmem)

/-- What the table has is owned, or the others have it. -/
theorem Accounts.entry_iff (h : Accounts others table owned) {k : K} {f : F} :
    table k = some f ↔ (k, f) ∈ owned ∨ others k = some f := by
  refine ⟨?_, ?_⟩
  · intro hk
    by_cases hmem : k ∈ owned.map Prod.fst
    · obtain ⟨e, he, rfl⟩ := List.mem_map.mp hmem
      have hf : e.2 = f := Option.some.inj ((h.held e he).symm.trans hk)
      exact .inl (hf ▸ he)
    · exact .inr ((h.rest k hmem).symm.trans hk)
  · intro hor
    rcases hor with hmem | hk
    · exact h.held (k, f) hmem
    · have hmem : k ∉ owned.map Prod.fst := by
        intro hm
        obtain ⟨e, he, rfl⟩ := List.mem_map.mp hm
        rw [h.apart e he] at hk
        cases hk
      exact (h.rest k hmem).trans hk

/-- A key that the table does not have is nobody's. -/
theorem Accounts.free (h : Accounts others table owned) {k : K} (hk : table k = none) :
    k ∉ owned.map Prod.fst ∧ others k = none := by
  have hmem : k ∉ owned.map Prod.fst := by
    intro hm
    obtain ⟨e, he, rfl⟩ := List.mem_map.mp hm
    rw [h.held e he] at hk
    cases hk
  exact ⟨hmem, (h.rest k hmem).symm.trans hk⟩

section Keys

variable [DecidableEq K]

/-- A key that the table does not have is taken. -/
theorem Accounts.acquire {k : K} {f : F} (h : Accounts others table owned)
    (hk : table k = none) :
    Accounts others (Function.update table k (some f)) ((k, f) :: owned) := by
  obtain ⟨hmem, hothers⟩ := h.free hk
  have hne : ∀ e ∈ owned, e.1 ≠ k := fun e he heq => hmem (List.mem_map.mpr ⟨e, he, heq⟩)
  refine ⟨List.nodup_cons.mpr ⟨hmem, h.distinct⟩, ?_, ?_, ?_⟩
  · refine List.forall_mem_cons.mpr ⟨Function.update_self .., fun e he => ?_⟩
    rw [Function.update_of_ne (hne e he), h.held e he]
  · exact List.forall_mem_cons.mpr ⟨hothers, h.apart⟩
  · intro k' hk'
    rw [List.map_cons, List.mem_cons, not_or] at hk'
    rw [Function.update_of_ne hk'.1, h.rest k' hk'.2]

/-- A key that is owned is given back. -/
theorem Accounts.release {e : K × F} (h : Accounts others table (e :: owned)) :
    Accounts others (Function.update table e.1 none) owned := by
  obtain ⟨hmem, hdistinct⟩ := List.nodup_cons.mp h.distinct
  have hne : ∀ e' ∈ owned, e'.1 ≠ e.1 := fun e' he heq => hmem (List.mem_map.mpr ⟨e', he, heq⟩)
  refine ⟨hdistinct, fun e' he => ?_, fun e' he => h.apart e' (List.mem_cons_of_mem _ he), ?_⟩
  · rw [Function.update_of_ne (hne e' he), h.held e' (List.mem_cons_of_mem _ he)]
  · intro k hk
    by_cases heq : k = e.1
    · rw [heq, Function.update_self, h.apart e List.mem_cons_self]
    · rw [Function.update_of_ne heq]
      refine h.rest k fun hm => ?_
      rcases List.mem_cons.mp hm with hm | hm
      · exact heq hm
      · exact hk hm

/-- The entry of a key that is owned changes. -/
theorem Accounts.change {k : K} {f f' : F} (h : Accounts others table ((k, f) :: owned)) :
    Accounts others (Function.update table k (some f')) ((k, f') :: owned) := by
  have h' : Accounts others (Function.update (Function.update table k none) k (some f'))
      ((k, f') :: owned) := h.release.acquire (Function.update_self ..)
  rwa [Function.update_idem] at h'

/-- The table after the keys are given back. -/
def closeAll (table : Table K F) (keys : List K) : Table K F :=
  keys.foldl (fun table k => Function.update table k none) table

theorem Accounts.releaseAll : ∀ (es : List (K × F)) {table : Table K F},
    Accounts others table (es ++ owned) → Accounts others (closeAll table (es.map Prod.fst)) owned
  | [], _, h => h
  | _ :: es, _, h => Accounts.releaseAll es h.release

/-- The others may do as they like with a key that nobody owns. -/
theorem Accounts.other {k : K} (h : Accounts others table owned) (hk : others k = table k)
    (entry : Option F) :
    Accounts (Function.update others k entry) (Function.update table k entry) owned := by
  have hne : ∀ e ∈ owned, e.1 ≠ k := by
    intro e he heq
    rw [← heq, h.apart e he, h.held e he] at hk
    cases hk
  refine ⟨h.distinct, fun e he => ?_, fun e he => ?_, fun k' hk' => ?_⟩
  · rw [Function.update_of_ne (hne e he), h.held e he]
  · rw [Function.update_of_ne (hne e he), h.apart e he]
  · by_cases heq : k' = k
    · rw [heq, Function.update_self, Function.update_self]
    · rw [Function.update_of_ne heq, Function.update_of_ne heq, h.rest k' hk']

end Keys

/-! Books, and the moves that keep them. -/

structure Books (K F : Type) where
  others : Table K F
  table : Table K F
  owned : List (K × F)

def Books.Balanced (b : Books K F) : Prop := Accounts b.others b.table b.owned

section Moves

variable [DecidableEq K]

/-- What can happen to the books; every entry that comes in satisfies `new` at its key. -/
inductive Move (new : K → F → Prop) : Books K F → Books K F → Prop where
  | regroup {b : Books K F} {owned : List (K × F)} : b.owned.Perm owned →
      Move new b { b with owned }
  | take {b : Books K F} {k : K} {f : F} : b.table k = none → new k f →
      Move new b { b with
        table := Function.update b.table k (some f)
        owned := (k, f) :: b.owned }
  | give {b : Books K F} (es : List (K × F)) {owned : List (K × F)} : b.owned = es ++ owned →
      Move new b { b with table := closeAll b.table (es.map Prod.fst), owned }
  | change {b : Books K F} {k : K} {f f' : F} {owned : List (K × F)} :
      b.owned = (k, f) :: owned → new k f' →
      Move new b { b with
        table := Function.update b.table k (some f')
        owned := (k, f') :: owned }
  | other {b : Books K F} {k : K} (entry : Option F) : b.others k = b.table k →
      (∀ f, entry = some f → new k f) →
      Move new b { b with
        others := Function.update b.others k entry
        table := Function.update b.table k entry }

variable {new : K → F → Prop} {b b' : Books K F}

theorem Move.balanced (h : Move new b b') (hb : b.Balanced) : b'.Balanced := by
  cases h with
  | regroup hp => exact hb.perm hp
  | take hk _ => exact hb.acquire hk
  | give es howned =>
    rw [Books.Balanced, howned] at hb
    exact hb.releaseAll
  | change howned _ =>
    rw [Books.Balanced, howned] at hb
    exact hb.change
  | other entry hk _ => exact hb.other hk entry

theorem closeAll_le : ∀ {keys : List K} {table : Table K F} {k : K} {f : F},
    closeAll table keys k = some f → table k = some f
  | [], _, _, _, h => h
  | key :: keys, table, k, f, h => by
    have h : Function.update table key none k = some f := closeAll_le h
    by_cases hk : k = key
    · rw [hk, Function.update_self] at h
      cases h
    · rwa [Function.update_of_ne hk] at h

/-- An entry was there, or it is new. -/
theorem Move.entry {k : K} {f : F} (h : Move new b b') (hf : b'.table k = some f) :
    b.table k = some f ∨ new k f := by
  have update : ∀ {key : K} {entry : Option F}, (∀ f, entry = some f → new key f) →
      Function.update b.table key entry k = some f → b.table k = some f ∨ new k f := by
    intro key entry hnew hf
    by_cases hk : k = key
    · rw [hk, Function.update_self] at hf
      exact .inr (hk ▸ hnew f hf)
    · rw [Function.update_of_ne hk] at hf
      exact .inl hf
  cases h with
  | regroup _ => exact .inl hf
  | take _ hnew => exact update (fun _ h => Option.some.inj h ▸ hnew) hf
  | give _ _ => exact .inl (closeAll_le hf)
  | change _ hnew => exact update (fun _ h => Option.some.inj h ▸ hnew) hf
  | other _ _ hnew => exact update hnew hf

def Moves (new : K → F → Prop) : Books K F → Books K F → Prop := Relation.ReflTransGen (Move new)

/-- Entries are given back wherever they stand. -/
theorem Moves.return (es : List (K × F)) {owned owned' : List (K × F)}
    (hp : owned.Perm (es ++ owned')) :
    Moves new { others, table, owned }
      { others, table := closeAll table (es.map Prod.fst), owned := owned' } :=
  .tail (.single (.regroup hp)) (.give es rfl)

theorem Moves.balanced (h : Moves new b b') (hb : b.Balanced) : b'.Balanced := by
  induction h with
  | refl => exact hb
  | tail _ hmove ih => exact hmove.balanced ih

theorem Moves.entry {k : K} {f : F} (h : Moves new b b') (hf : b'.table k = some f) :
    b.table k = some f ∨ new k f := by
  induction h with
  | refl => exact .inl hf
  | tail _ hmove ih => exact (hmove.entry hf).elim ih .inr

end Moves

/-! The owners, each with what it holds. -/

section Owners

variable {E : Type} {parts : O → List E} {holds : O → List (K × F)} {objects : List O} {i : Nat}
  {o : O}

/-- The parts of one owner, and those of the others of the list. -/
theorem perm_single_out (ho : objects[i]? = some o) :
    (objects.flatMap parts).Perm (parts o ++ (objects.eraseIdx i).flatMap parts) := by
  obtain ⟨hi, rfl⟩ := List.getElem?_eq_some_iff.mp ho
  exact (List.getElem_cons_eraseIdx_perm hi).symm.flatMap_right parts

theorem perm_put_back (ho : objects[i]? = some o) (o' : O) :
    (parts o' ++ (objects.eraseIdx i).flatMap parts).Perm ((objects.set i o').flatMap parts) := by
  obtain ⟨hi, -⟩ := List.getElem?_eq_some_iff.mp ho
  exact ((List.set_perm_cons_eraseIdx hi o').flatMap_right parts).symm

/-- The books of a list of owners. -/
def booksOf (holds : O → List (K × F)) (others table : Table K F) (objects : List O) : Books K F :=
  { others, table, owned := objects.flatMap holds }

theorem Books.Balanced.entry_iff (h : (booksOf holds others table objects).Balanced) {k : K} {f : F} :
    table k = some f ↔ (∃ o ∈ objects, (k, f) ∈ holds o) ∨ others k = some f := by
  have hentry := Accounts.entry_iff h (k := k) (f := f)
  exact hentry.trans (or_congr_left List.mem_flatMap)

/-- What balanced books of owners say: the table has exactly what the owners hold and the
others have, nothing is held twice or belongs to the others, and without owners the table
is that of the others. -/
structure Accounted (holds : O → List (K × F)) (others table : Table K F) (objects : List O) :
    Prop where
  exact : ∀ k f, table k = some f ↔ (∃ o ∈ objects, (k, f) ∈ holds o) ∨ others k = some f
  once : ((objects.flatMap holds).map Prod.fst).Nodup
  apart : ∀ o ∈ objects, ∀ e ∈ holds o, others e.1 = none
  restored : objects = [] → table = others

theorem Books.Balanced.accounted (h : (booksOf holds others table objects).Balanced) :
    Accounted holds others table objects := by
  have haccounts : Accounts others table (objects.flatMap holds) := h
  refine ⟨fun k f => h.entry_iff, haccounts.distinct, ?_, ?_⟩
  · intro o ho e he
    exact haccounts.apart e (List.mem_flatMap.mpr ⟨o, ho, he⟩)
  · intro hnone
    rw [hnone] at haccounts
    exact haccounts.settled

variable [DecidableEq K] {new : K → F → Prop}

/-- An owner that holds what it held before. -/
theorem Moves.put {o' : O} (ho : objects[i]? = some o) (hsame : holds o' = holds o) :
    Moves new (booksOf holds others table objects)
      (booksOf holds others table (objects.set i o')) :=
  have hperm : (objects.flatMap holds).Perm ((objects.set i o').flatMap holds) :=
    calc List.Perm (objects.flatMap holds) (holds o ++ (objects.eraseIdx i).flatMap holds) :=
          perm_single_out ho
      List.Perm _ ((objects.set i o').flatMap holds) := hsame ▸ perm_put_back ho o'
  .single (.regroup hperm)

/-- An owner that is dropped, with everything it holds. -/
theorem Moves.drop (ho : objects[i]? = some o) :
    Moves new (booksOf holds others table objects)
      (booksOf holds others (closeAll table ((holds o).map Prod.fst)) (objects.eraseIdx i)) :=
  .tail (.single (.regroup (perm_single_out ho))) (.give (holds o) rfl)

/-- An owner that takes an entry more. -/
theorem Moves.extend {o' : O} {k : K} {f : F} (ho : objects[i]? = some o) (hk : table k = none)
    (hf : new k f) (hmore : holds o' = (k, f) :: holds o) :
    Moves new (booksOf holds others table objects)
      (booksOf holds others (Function.update table k (some f)) (objects.set i o')) := by
  have hopen : Moves new (booksOf holds others table objects)
      { others, table := Function.update table k (some f), owned := (k, f) :: objects.flatMap holds } :=
    .single (.take hk hf)
  have hmine : ((k, f) :: objects.flatMap holds).Perm
      (holds o' ++ (objects.eraseIdx i).flatMap holds) := by
    rw [hmore, List.cons_append]
    exact (perm_single_out ho).cons (k, f)
  exact hopen.tail (.regroup (hmine.trans (perm_put_back ho o')))

/-- A new owner with a new entry. -/
theorem Moves.create {k : K} {f : F} (hk : table k = none) (hf : new k f)
    (ho : holds o = [(k, f)]) :
    Moves new (booksOf holds others table objects)
      (booksOf holds others (Function.update table k (some f)) (o :: objects)) := by
  have howned : (o :: objects).flatMap holds = (k, f) :: objects.flatMap holds := by
    rw [List.flatMap_cons, ho, List.singleton_append]
  rw [booksOf, booksOf, howned]
  exact .single (.take hk hf)

end Owners

end Ledger
