import Mathlib.Data.List.Count
import Mathlib.Logic.Function.Basic
import Xpty.Cell
import Xpty.ConPty
import Xpty.StepSystem

/- The ConPTY functions of `pseudocon.rs`, which are looked up at run time: in a
   `conpty.dll` beside the program where that has all three of them, and in
   `kernel32.dll`, which must have them, otherwise. `CONPTY` keeps what the first call
   found, whatever becomes of the files later.

   A run makes, resizes and drops any number of consoles; each action carries what the
   loader of the system would do at that moment. `one_library` is about every state that
   a run reaches. -/
namespace Xpty.ConPtyLoad

open ConPty StepSystem

abbrev HPCON := RawFd

variable {F E : Type}

/-- `ConPtyFuncs`: the library, and its functions. -/
structure ConPtyFuncs (F : Type) where
  lib : String
  create : F
  resize : F
  close : F
  deriving DecidableEq

/-- What `Library::new` says to a name, and `get` to a symbol of a library. -/
structure Loader (F E : Type) where
  libraryNew : String → Except E Unit
  get : String → String → Except E F

/-- How often each library is loaded. -/
abbrev Refs := String → Nat

def Refs.load (refs : Refs) (dll : String) : Refs := Function.update refs dll (refs dll + 1)

def Refs.free (refs : Refs) (dll : String) : Refs := Function.update refs dll (refs dll - 1)

def symbols (l : Loader F E) (dll : String) : Except E (ConPtyFuncs F) := do
  let create ← l.get dll "CreatePseudoConsole"
  let resize ← l.get dll "ResizePseudoConsole"
  let close ← l.get dll "ClosePseudoConsole"
  .ok { lib := dll, create, resize, close }

/-- `try_load_from`. A library without one of the symbols is dropped. -/
def tryLoadFrom (l : Loader F E) (dll : String) (refs : Refs) : Except E (ConPtyFuncs F) × Refs :=
  match l.libraryNew dll with
  | .error e => (.error e, refs)
  | .ok () =>
    match symbols l dll with
    | .error e => (.error e, (refs.load dll).free dll)
    | .ok funcs => (.ok funcs, refs.load dll)

/-- `load_conpty`; an error is the panic of `expect`. The functions of the system are
dropped where others are preferred to them. -/
def loadConpty (l : Loader F E) (refs : Refs) : Except E (ConPtyFuncs F) × Refs :=
  match tryLoadFrom l "kernel32.dll" refs with
  | (.error e, refs) => (.error e, refs)
  | (.ok kernel, refs) =>
    match tryLoadFrom l "conpty.dll" refs with
    | (.ok sideloaded, refs) => (.ok sideloaded, refs.free kernel.lib)
    | (.error _, refs) => (.ok kernel, refs)

/-- A call into the library, with the function, or the panic of a call that found none. -/
inductive Call (F : Type) where
  | create (f : F) (con : Option HPCON)
  | resize (f : F) (con : HPCON)
  | close (f : F) (con : HPCON)
  | panicked
  deriving DecidableEq

structure State (F : Type) where
  /-- `CONPTY`. -/
  cell : Option (ConPtyFuncs F)
  refs : Refs
  consoles : List HPCON
  log : List (Call F)

def start (refs : Refs) : State F := { cell := none, refs, consoles := [], log := [] }

/-- The function `conpty`. -/
def conpty (l : Loader F E) (s : State F) : Except E (ConPtyFuncs F) × State F :=
  match s.cell with
  | some funcs => (.ok funcs, s)
  | none =>
    let (loaded, refs) := loadConpty l s.refs
    (loaded, { s with cell := loaded.toOption, refs })

def State.call (s : State F) (c : Call F) : State F := { s with log := s.log ++ [c] }

inductive Act (F E : Type) where
  /-- `PseudoCon::new_with_flags`, and the handle that a success gives. -/
  | new (l : Loader F E) (result : HRESULT) (con : HPCON)
  | resize (i : Nat) (l : Loader F E)
  | drop (i : Nat) (l : Loader F E)

def newWithFlags (s : State F) (l : Loader F E) (result : HRESULT) (con : HPCON) : State F :=
  match conpty l s with
  | (.error _, s) => s.call .panicked
  | (.ok funcs, s) =>
    if result ≠ S_OK then s.call (.create funcs.create none)
    else { s.call (.create funcs.create (some con)) with consoles := con :: s.consoles }

def resizeStep (s : State F) (i : Nat) (l : Loader F E) : Option (State F) :=
  s.consoles[i]?.map fun con =>
    match conpty l s with
    | (.error _, s) => s.call .panicked
    | (.ok funcs, s) => s.call (.resize funcs.resize con)

/-- `Drop for PseudoCon`. -/
def dropStep (s : State F) (i : Nat) (l : Loader F E) : Option (State F) :=
  s.consoles[i]?.map fun con =>
    let s := { s with consoles := s.consoles.eraseIdx i }
    match conpty l s with
    | (.error _, s) => s.call .panicked
    | (.ok funcs, s) => s.call (.close funcs.close con)

def step (s : State F) : Act F E → Option (State F)
  | .new l result con => some (newWithFlags s l result con)
  | .resize i l => resizeStep s i l
  | .drop i l => dropStep s i l

/-! What is loaded. -/

/-- What a library offers: all three functions, or an error. -/
def offers (l : Loader F E) (dll : String) : Except E (ConPtyFuncs F) := do
  l.libraryNew dll
  symbols l dll

/-- The functions that a load chooses: those of `conpty.dll` if it has them all, and
else those of `kernel32.dll`; without these it panics. -/
def chosen (l : Loader F E) : Except E (ConPtyFuncs F) :=
  (offers l "kernel32.dll").map (offers l "conpty.dll").toOption.getD

/-- The references that a load which returns `r` leaves. -/
def refsAfter (refs : Refs) (r : Except E (ConPtyFuncs F)) : Refs :=
  match r with
  | .ok funcs => refs.load funcs.lib
  | .error _ => refs

variable {l : Loader F E} {dll : String} {refs : Refs} {funcs : ConPtyFuncs F}

theorem free_load (refs : Refs) (dll : String) : (refs.load dll).free dll = refs := by
  funext d
  by_cases hd : d = dll
  · simp [Refs.load, Refs.free, hd]
  · simp [Refs.load, Refs.free, hd]

/-- Two references are dropped in any order. -/
theorem free_load_comm (refs : Refs) {dll dll' : String} (hne : dll ≠ dll') :
    ((refs.load dll).load dll').free dll = refs.load dll' := by
  have hcomm : (refs.load dll).load dll' = (refs.load dll').load dll := by
    rw [Refs.load, Refs.load, Refs.load, Refs.load, Function.update_of_ne hne,
      Function.update_of_ne hne.symm]
    exact Function.update_comm hne ..
  rw [hcomm, free_load]

theorem symbols_lib (h : symbols l dll = .ok funcs) : funcs.lib = dll := by
  rw [symbols] at h
  cases hc : l.get dll "CreatePseudoConsole" with
  | error e => rw [hc] at h; cases h
  | ok create =>
    cases hr : l.get dll "ResizePseudoConsole" with
    | error e => rw [hc, hr] at h; cases h
    | ok resize =>
      cases hx : l.get dll "ClosePseudoConsole" with
      | error e => rw [hc, hr, hx] at h; cases h
      | ok close =>
        rw [hc, hr, hx] at h
        cases h
        rfl

theorem offers_lib (h : offers l dll = .ok funcs) : funcs.lib = dll := by
  rw [offers] at h
  cases hnew : l.libraryNew dll with
  | error e => rw [hnew] at h; cases h
  | ok u =>
    rw [hnew] at h
    exact symbols_lib h

/-- A load that fails leaves no reference behind. -/
theorem tryLoadFrom_eq (l : Loader F E) (dll : String) (refs : Refs) :
    tryLoadFrom l dll refs = (offers l dll, refsAfter refs (offers l dll)) := by
  rw [tryLoadFrom, offers]
  cases l.libraryNew dll with
  | error e => rfl
  | ok u =>
    show _ = (symbols l dll, refsAfter refs (symbols l dll))
    cases hs : symbols l dll with
    | error e =>
      show (_, (refs.load dll).free dll) = _
      rw [free_load]
      rfl
    | ok funcs =>
      show (_, refs.load dll) = (_, refs.load funcs.lib)
      rw [symbols_lib hs]

/-- One reference is left, to the library of the functions that are chosen. -/
theorem loadConpty_eq (l : Loader F E) (refs : Refs) :
    loadConpty l refs = (chosen l, refsAfter refs (chosen l)) := by
  simp only [loadConpty, chosen, tryLoadFrom_eq]
  cases hk : offers l "kernel32.dll" with
  | error e => rfl
  | ok kernel =>
    cases hc : offers l "conpty.dll" with
    | error e => rfl
    | ok sideloaded =>
      show (_, (((refs.load kernel.lib).load sideloaded.lib).free kernel.lib)) =
        (_, refs.load sideloaded.lib)
      rw [free_load_comm refs]
      · rfl
      · rw [offers_lib hk, offers_lib hc]
        decide

theorem conpty_some {s : State F} (h : s.cell = some funcs) : conpty l s = (.ok funcs, s) := by
  rw [conpty, h]

theorem conpty_none {s : State F} (h : s.cell = none) : conpty l s =
    (chosen l, { s with cell := (chosen l).toOption, refs := refsAfter s.refs (chosen l) }) := by
  rw [conpty, h, loadConpty_eq]

/-! Runs. -/

/-- The calls that may load: those that make a console. -/
def Act.attempt : Act F E → Option (Except E (ConPtyFuncs F))
  | .new l _ _ => some (chosen l)
  | .resize _ _ => none
  | .drop _ _ => none

/-- The function of a call is one of `funcs`, and the one of its name. -/
def Call.Of (funcs : ConPtyFuncs F) : Call F → Prop
  | .create f _ => f = funcs.create
  | .resize f _ => f = funcs.resize
  | .close f _ => f = funcs.close
  | .panicked => False

/-- After the attempts of a run: the functions are those of the first that did not panic;
their library is loaded once, and no other is; every call is one of them; the calls that
panicked are the attempts before; and there is no console without the functions. -/
structure OneLibrary [DecidableEq F] (refs : Refs) (attempts : List (Except E (ConPtyFuncs F)))
    (s : State F) : Prop where
  first : s.cell = Cell.after none attempts
  loaded : s.refs = (s.cell.map fun funcs => refs.load funcs.lib).getD refs
  calls : ∀ call ∈ s.log, call ≠ .panicked → ∃ funcs, s.cell = some funcs ∧ call.Of funcs
  panics : s.log.count .panicked = (Cell.failed attempts).length
  ready : s.consoles ≠ [] → s.cell.isSome

section
variable [DecidableEq F] {attempts : List (Except E (ConPtyFuncs F))} {s t : State F}

/-- A call of a function that is there. -/
theorem OneLibrary.call (h : OneLibrary refs attempts s) (hcell : s.cell = some funcs)
    {c : Call F} (hc : c.Of funcs) {consoles : List HPCON} :
    OneLibrary refs attempts { s.call c with consoles } := by
  refine ⟨h.first, h.loaded, ?_, ?_, ?_⟩
  · refine List.forall_mem_append.mpr ⟨h.calls, List.forall_mem_singleton.mpr fun _ => ?_⟩
    exact ⟨funcs, hcell, hc⟩
  · have hne : c ≠ .panicked := by
      rintro rfl
      exact hc
    show (s.log ++ [c]).count .panicked = _
    rw [List.count_append, List.count_singleton, if_neg (by simpa using hne), h.panics]
    rfl
  · intro _
    exact hcell ▸ rfl

/-- What the functions are, and which calls have panicked, after one more attempt. -/
theorem OneLibrary.conpty (h : OneLibrary refs attempts s) (l : Loader F E) :
    match conpty l s with
    | (.ok funcs, t) => OneLibrary refs (attempts ++ [chosen l]) t ∧ t.cell = some funcs ∧
        t.consoles = s.consoles
    | (.error _, t) => OneLibrary refs (attempts ++ [chosen l]) (t.call .panicked) ∧
        s.cell = none := by
  have hafter : Cell.after none (attempts ++ [chosen l]) = (Cell.getOrInit (chosen l) s.cell).2 := by
    rw [Cell.after_append, ← h.first]
    rfl
  cases hcell : s.cell with
  | some funcs =>
    rw [hcell, Cell.getOrInit_some] at hafter
    rw [conpty_some hcell]
    refine ⟨⟨hcell.trans hafter.symm, h.loaded, h.calls, ?_, h.ready⟩, hcell, rfl⟩
    rw [Cell.failed_concat, hafter, if_neg (Option.some_ne_none _)]
    exact h.panics
  | none =>
    have hrefs : s.refs = refs := by rw [h.loaded, hcell]; rfl
    have hcalls : ∀ call ∈ s.log, call = .panicked := by
      intro call hmem
      by_contra hne
      obtain ⟨funcs, hfuncs, -⟩ := h.calls call hmem hne
      rw [hcell] at hfuncs
      cases hfuncs
    have hconsoles : s.consoles = [] := by
      by_contra hne
      have hready := h.ready hne
      rw [hcell] at hready
      cases hready
    rw [hcell, Cell.getOrInit_none] at hafter
    rw [conpty_none hcell, hrefs]
    cases hc : chosen l with
    | ok funcs =>
      rw [hc] at hafter
      replace hafter : Cell.after none (attempts ++ [.ok funcs]) = some funcs := hafter
      refine ⟨⟨hafter.symm, rfl, fun call hmem hne => absurd (hcalls call hmem) hne, ?_, fun _ => rfl⟩,
        rfl, rfl⟩
      rw [Cell.failed_concat, hafter, if_neg (Option.some_ne_none _)]
      exact h.panics
    | error e =>
      rw [hc] at hafter
      replace hafter : Cell.after none (attempts ++ [.error e]) = none := hafter
      refine ⟨⟨hafter.symm, rfl, ?_, ?_, fun hne => absurd hconsoles hne⟩, rfl⟩
      · refine List.forall_mem_append.mpr ⟨fun call hmem hne => absurd (hcalls call hmem) hne, ?_⟩
        exact List.forall_mem_singleton.mpr fun hne => absurd rfl hne
      · rw [Cell.failed_concat, hafter, if_pos rfl, List.length_append]
        show (s.log ++ [_]).count _ = _
        rw [List.count_append, h.panics, List.count_singleton_self]
        rfl

/-- Where there is a console the functions are there, and the loader is not asked. -/
theorem OneLibrary.of_console (h : OneLibrary refs attempts s) {i : Nat} {con : HPCON}
    (hi : s.consoles[i]? = some con) : ∃ funcs, s.cell = some funcs := by
  refine Option.isSome_iff_exists.mp (h.ready fun hnil => ?_)
  rw [hnil] at hi
  cases hi

theorem oneLibrary_step {a : Act F E} (h : OneLibrary refs attempts s) (hs : step s a = some t) :
    OneLibrary refs (attempts ++ a.attempt.toList) t := by
  cases a with
  | new l result con =>
    have hload := h.conpty l
    rw [step, newWithFlags, Option.some.injEq] at hs
    split at hs
    · rename_i heq
      rw [heq] at hload
      exact hs ▸ hload.1
    · rename_i funcs u heq
      rw [heq] at hload
      obtain ⟨hu, hcell, -⟩ := hload
      split at hs
      · exact hs ▸ hu.call hcell (c := .create funcs.create none) rfl
      · exact hs ▸ hu.call hcell (c := .create funcs.create (some con)) rfl
  | resize i l =>
    obtain ⟨con, hi, rfl⟩ := Option.map_eq_some_iff.mp hs
    obtain ⟨funcs, hcell⟩ := h.of_console hi
    rw [conpty_some hcell, Act.attempt, Option.toList_none, List.append_nil]
    exact h.call hcell (c := .resize funcs.resize con) rfl
  | drop i l =>
    obtain ⟨con, hi, rfl⟩ := Option.map_eq_some_iff.mp hs
    obtain ⟨funcs, hcell⟩ := h.of_console hi
    rw [Act.attempt, Option.toList_none, List.append_nil]
    show OneLibrary refs attempts (match conpty l { s with consoles := s.consoles.eraseIdx i } with
      | (.error _, s) => s.call .panicked
      | (.ok funcs, s) => s.call (.close funcs.close con))
    have hcell' : { s with consoles := s.consoles.eraseIdx i }.cell = some funcs := hcell
    rw [conpty_some hcell']
    exact h.call hcell (c := .close funcs.close con) rfl

theorem start_oneLibrary (refs : Refs) :
    OneLibrary refs ([] : List (Except E (ConPtyFuncs F))) (start refs) :=
  ⟨rfl, rfl, nofun, rfl, fun h => absurd rfl h⟩

theorem oneLibrary_run : ∀ {as : List (Act F E)} {s t : State F}
    {attempts : List (Except E (ConPtyFuncs F))}, OneLibrary refs attempts s →
      run step s as = some t → OneLibrary refs (attempts ++ as.filterMap Act.attempt) t
  | [], s, t, attempts, h, hr => by
    rw [run_nil, Option.some.injEq] at hr
    rw [← hr, List.filterMap_nil, List.append_nil]
    exact h
  | a :: as, s, t, attempts, h, hr => by
    obtain ⟨u, hu, hrest⟩ := run_cons.mp hr
    have hrun := oneLibrary_run (oneLibrary_step h hu) hrest
    rw [List.append_assoc] at hrun
    cases ha : a.attempt with
    | none =>
      rw [ha] at hrun
      rw [List.filterMap_cons_none ha]
      exact hrun
    | some r =>
      rw [ha] at hrun
      rw [List.filterMap_cons_some ha]
      exact hrun

/-- In every run, whatever becomes of the libraries meanwhile, every console is made,
resized and closed by functions of one library, the one that the first attempt which did
not panic has chosen, and no call panics after that. -/
theorem one_library {as : List (Act F E)} (h : run step (start refs) as = some t) :
    OneLibrary refs (as.filterMap Act.attempt) t :=
  oneLibrary_run (start_oneLibrary refs) h

end

/-- A system whose `conpty.dll` has the functions that `sideloaded` says. -/
def windows (sideloaded : String → Bool) : Loader Nat Unit where
  libraryNew _ := .ok ()
  get dll symbol :=
    if dll = "kernel32.dll" then .ok 1
    else if sideloaded symbol then .ok 2
    else .error ()

/-- A system without ConPTY. -/
def windows7 : Loader Nat Unit where
  libraryNew _ := .ok ()
  get _ _ := .error ()

/-- A panic, a `conpty.dll` that cannot close, and one that is complete but comes too late. -/
def lateLibrary : List (Act Nat Unit) :=
  [.new windows7 S_OK 7, .new (windows fun symbol => symbol ≠ "ClosePseudoConsole") S_OK 7,
    .resize 0 windows7, .new (windows fun _ => true) S_OK 8, .drop 1 windows7]

theorem one_library_late :
    ∃ t, run step (start fun _ => 0) lateLibrary = some t ∧ t.cell = some ⟨"kernel32.dll", 1, 1, 1⟩ ∧
      t.log = [.panicked, .create 1 (some 7), .resize 1 7, .create 1 (some 8), .close 1 7] ∧
      OneLibrary (fun _ => 0) (lateLibrary.filterMap Act.attempt) t := by
  have hrun : run step (start fun _ => 0) lateLibrary = some _ := rfl
  exact ⟨_, hrun, rfl, rfl, one_library hrun⟩

end Xpty.ConPtyLoad
