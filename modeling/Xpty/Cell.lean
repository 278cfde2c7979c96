import Mathlib.Data.List.TakeWhile

/- Cells of which one write counts, over any value type. A cell that is initialised once
   (`OnceLock`) keeps the first: an attempt runs its own initialiser only while the cell
   is empty, and one that fails leaves the cell empty, so that the next may try again.
   Whatever the initialisers would have returned later, the cell has the value of the
   first that succeeded (`after_eq`). A register keeps the last write (`register`). -/
namespace Cell

variable {V E : Type}

/-- `get_or_init`, `init` being what the initialiser returns if it is run. -/
def getOrInit (init : Except E V) : Option V → Except E V × Option V
  | some v => (.ok v, some v)
  | none => (init, init.toOption)

/-- The cell after a sequence of attempts. -/
def after (cell : Option V) (inits : List (Except E V)) : Option V :=
  inits.foldl (fun cell init => (getOrInit init cell).2) cell

variable {init : Except E V} {inits : List (Except E V)} {cell : Option V} {v : V}

@[simp] theorem getOrInit_some : getOrInit init (some v) = (.ok v, some v) := rfl

@[simp] theorem getOrInit_none : getOrInit init none = (init, init.toOption) := rfl

theorem getOrInit_snd : (getOrInit init cell).2 = cell.or init.toOption := by
  cases cell <;> rfl

theorem after_append (as bs : List (Except E V)) :
    after cell (as ++ bs) = after (after cell as) bs :=
  List.foldl_append

/-- The cell has what it had, or the first value that an initialiser returned. -/
theorem after_eq : ∀ (inits : List (Except E V)) (cell : Option V),
    after cell inits = cell.or (inits.findSome? Except.toOption)
  | [], cell => (Option.or_none).symm
  | init :: inits, cell => by
    calc after cell (init :: inits) = after (getOrInit init cell).2 inits := rfl
      _ = (cell.or init.toOption).or (inits.findSome? Except.toOption) := by
        rw [after_eq inits, getOrInit_snd]
      _ = cell.or ((init :: inits).findSome? Except.toOption) := by
        rw [Option.or_assoc, List.findSome?_cons]
        cases init.toOption <;> rfl

/-- The initialisers that fail before the first that does not. -/
def failed (inits : List (Except E V)) : List (Except E V) :=
  inits.takeWhile fun init => init.toOption.isNone

theorem after_none_iff : after none inits = none ↔ ∀ init ∈ inits, init.toOption = none := by
  rw [after_eq, Option.none_or, List.findSome?_eq_none_iff]

/-- One more attempt fails exactly if the cell is empty after it. -/
theorem failed_concat (inits : List (Except E V)) (init : Except E V) :
    failed (inits ++ [init]) =
      if after none (inits ++ [init]) = none then failed inits ++ [init] else failed inits := by
  by_cases hbefore : ∀ i ∈ inits, i.toOption = none
  · have hall : ∀ i ∈ inits, i.toOption.isNone = true := fun i hi => by rw [hbefore i hi]; rfl
    have hinits : failed inits = inits := List.takeWhile_eq_self_iff.mpr hall
    rw [hinits, failed, List.takeWhile_append_of_pos hall]
    cases init with
    | error e =>
      rw [if_pos]
      · rfl
      · rw [after_none_iff]
        exact List.forall_mem_append.mpr ⟨hbefore, List.forall_mem_singleton.mpr rfl⟩
    | ok v =>
      rw [if_neg]
      · exact List.append_nil inits
      · rw [after_none_iff]
        intro h
        cases h (.ok v) (List.mem_append_right _ List.mem_cons_self)
  · -- an earlier one did not fail, and what comes after it is not looked at
    rw [if_neg]
    · rw [failed, List.takeWhile_append, if_neg]
      · rfl
      · intro hlen
        have hself := (List.takeWhile_prefix _).eq_of_length hlen
        refine hbefore fun i hi => Option.isNone_iff_eq_none.mp ?_
        exact List.takeWhile_eq_self_iff.mp hself i hi
    · rw [after_none_iff]
      exact fun h => hbefore fun i hi => h i (List.mem_append_left _ hi)

/-! Registers. -/

/-- A part of a state which operations set or leave alone has what the last of those that
set it wrote. -/
theorem register {S O : Type} {step : S → O → S} {get : S → V} {write : O → Option V}
    (h : ∀ s o, get (step s o) = (write o).getD (get s)) : ∀ (ops : List O) (s : S),
    get (ops.foldl step s) = (ops.filterMap write).getLast?.getD (get s)
  | [], s => rfl
  | o :: ops, s => by
    rw [List.foldl_cons, register h ops, h]
    cases ho : write o with
    | none => rw [List.filterMap_cons_none ho, Option.getD_none]
    | some v =>
      rw [List.filterMap_cons_some ho, List.getLast?_cons, Option.getD_some, Option.getD_some]

end Cell
