import Mathlib.Data.List.Flatten
import Xpty.ConPty
import Xpty.Ledger
import Xpty.StepSystem
import Xpty.WinSpawn

/- A process that uses the ConPTY pseudo-terminals: its handles and consoles, over any
   run of calls on any clone of a master and on any slave. Both share one `Inner` behind
   an `Arc<Mutex<..>>`, so the console is closed when the last of them is dropped, and
   `PseudoCon::new` consumes the console's ends of the two pipes. `spawn_command` holds
   the mutex while it builds the command line, which can panic: from then on the mutex
   is poisoned and every call that locks it panics too.

   `handles_accounted` is the ledger of every run, `shared_state` says what the shared
   state of a pty is and `console_open_iff` when its console is open. -/
namespace Xpty.WinSession

open ConPty Ledger StepSystem Win

/-- What a handle or a console handle refers to: the ends of the pipes of a pty, its
console, a process or its main thread, or anything else. -/
inductive Resource where
  | stdinRead (pty : Nat)
  | stdinWrite (pty : Nat)
  | stdoutRead (pty : Nat)
  | stdoutWrite (pty : Nat)
  | console (pty : Nat)
  | process (pid : Nat)
  | thread (pid : Nat)
  | other
  deriving DecidableEq, Repr

/-- `HANDLE` and `HPCON`. -/
inductive Key where
  | handle (h : RawFd)
  | hpcon (h : RawFd)
  deriving DecidableEq, Repr

abbrev Handles := Table Key Resource

/-- What holds handles: the `Inner` of a pty with the masters and slaves that share it,
a reader, a writer, a `WinChild`, a `WinChildKiller`, and the waiter thread of a poll. -/
inductive Object where
  | pty (id : Nat) (con : RawFd) (inner : Inner) (masters slaves : Nat) (poisoned : Bool)
  | reader (id : Nat) (h : RawFd)
  | writer (id : Nat) (h : RawFd)
  | child (pid : Nat) (proc : RawFd) (waitStarted poisoned : Bool)
  | killer (pid : Nat) (proc : RawFd)
  | waiter (pid : Nat) (proc : RawFd)

def Object.holds : Object → List (Key × Resource)
  | .pty id con inner _ _ _ => (.hpcon con, .console id) :: (.handle inner.readable, .stdoutRead id) ::
      (inner.writable.map fun h => (.handle h, .stdinWrite id)).toList
  | .reader id h => [(.handle h, .stdoutRead id)]
  | .writer id h => [(.handle h, .stdinWrite id)]
  | .child pid proc _ _ => [(.handle proc, .process pid)]
  | .killer pid proc => [(.handle proc, .process pid)]
  | .waiter pid proc => [(.handle proc, .process pid)]

structure State where
  table : Handles
  /-- The handles of the rest of the process. -/
  others : Handles
  objects : List Object
  ptys : Nat
  processes : Nat

def start (others : Handles) : State :=
  { table := others, others, objects := [], ptys := 0, processes := 0 }

/-- `OwnedHandle::try_clone`. -/
abbrev TryClone := Except (Message WinStr) RawFd

section Steps

variable [ToLowercase]

inductive Act where
  | openpty (size : PtySize) (stdin stdout : Except (Message WinStr) Pipe) (result : HRESULT)
    (con : RawFd)
  /-- `Clone` of the master. -/
  | cloneMaster (i : Nat)
  | resize (i : Nat) (r : Resize)
  | tryCloneReader (i : Nat) (tryClone : TryClone)
  | takeWriter (i : Nat)
  | spawnCommand (i : Nat) (m : Machine) (w : World) (b : Builder) (thread proc : RawFd)
  | dropMaster (i : Nat)
  | dropSlave (i : Nat)
  | cloneKiller (i : Nat) (tryClone : TryClone)
  /-- A poll of the future, and whether it finds the child running. -/
  | poll (i : Nat) (running : Bool) (tryClone : TryClone)
  /-- The process of a waiter has ended. -/
  | waited (i : Nat)
  | drop (i : Nat)
  /-- The rest of the process opens or closes a handle. -/
  | other (k : Key) (isOpen : Bool)

def State.open (s : State) (k : Key) (r : Resource) : Option State :=
  if s.table k = none then some { s with table := Function.update s.table k (some r) } else none

def State.close (s : State) (keys : List Key) : State := { s with table := closeAll s.table keys }

def State.put (s : State) (i : Nat) (o : Object) : State := { s with objects := s.objects.set i o }

def State.create (s : State) (o : Object) : State := { s with objects := o :: s.objects }

def State.drop (s : State) (i : Nat) (o : Object) : State :=
  { s with
    table := closeAll s.table (o.holds.map Prod.fst)
    objects := s.objects.eraseIdx i }

variable (s : State)

/-- `Pipe::new`. -/
def openPipe (pipe : Pipe) (read write : Resource) : Option State :=
  (s.open (.handle pipe.read) read).bind fun s => s.open (.handle pipe.write) write

/-- `ConPtySystem::openpty`. `PseudoCon::new` drops the two ends that it is given,
and a call that fails drops everything that it has. -/
def openptyStep (size : PtySize) (stdin stdout : Except (Message WinStr) Pipe) (result : HRESULT)
    (con : RawFd) : Option State :=
  match stdin with
  | .error _ => some s
  | .ok stdin =>
    (openPipe s stdin (.stdinRead s.ptys) (.stdinWrite s.ptys)).bind fun s =>
      match stdout with
      | .error _ => some (s.close [.handle stdin.read, .handle stdin.write])
      | .ok stdout =>
        (openPipe s stdout (.stdoutRead s.ptys) (.stdoutWrite s.ptys)).bind fun s =>
          match openpty (S := WinStr) size (.ok stdin) (.ok stdout) result with
          | .error _ => some (s.close [.handle stdin.read, .handle stdout.write,
              .handle stdout.read, .handle stdin.write])
          | .ok inner => (s.open (.hpcon con) (.console s.ptys)).map fun s =>
              { (s.close [.handle stdin.read, .handle stdout.write]).create
                  (.pty s.ptys con inner 1 1 false) with ptys := s.ptys + 1 }

def cloneMasterStep (i : Nat) : Option State :=
  match s.objects[i]? with
  | some (.pty id con inner (masters + 1) slaves poisoned) =>
    some (s.put i (.pty id con inner (masters + 2) slaves poisoned))
  | _ => none

/-- A poisoned mutex makes the call panic, here and below. -/
def resizeStep (i : Nat) (r : Resize) : Option State :=
  match s.objects[i]? with
  | some (.pty _ _ _ (_ + 1) _ true) => some s
  | some (.pty id con inner (masters + 1) slaves false) =>
    some (s.put i (.pty id con (r.call (S := WinStr) inner).2 (masters + 1) slaves false))
  | _ => none

def tryCloneReaderStep (i : Nat) (tryClone : TryClone) : Option State :=
  match s.objects[i]?, tryClone with
  | some (.pty _ _ _ (_ + 1) _ true), _ => some s
  | some (.pty _ _ _ (_ + 1) _ false), .error _ => some s
  | some (.pty id _ _ (_ + 1) _ false), .ok h =>
    (s.open (.handle h) (.stdoutRead id)).map fun s => s.create (.reader id h)
  | _, _ => none

def takeWriterStep (i : Nat) : Option State :=
  match s.objects[i]? with
  | some (.pty _ _ _ (_ + 1) _ true) => some s
  | some (.pty id con inner (masters + 1) slaves false) =>
    match inner.writable with
    | none => some s
    | some h => some ((s.put i (.pty id con { inner with writable := none } (masters + 1) slaves
        false)).create (.writer id h))
  | _ => none

/-- `spawn_command` of a slave: the handle of the thread is dropped when it returns. -/
def spawnCommandStep (i : Nat) (m : Machine) (w : World) (b : Builder)
    (thread proc : RawFd) : Option State :=
  match s.objects[i]? with
  | some (.pty _ _ _ _ (_ + 1) true) => some s
  | some (.pty id con inner masters (slaves + 1) false) =>
    match spawnCommand m w b with
    | .error (.panic _) => some (s.put i (.pty id con inner masters (slaves + 1) true))
    | .error (.err _) => some s
    | .ok _ =>
      (s.open (.handle thread) (.thread s.processes)).bind fun s =>
        (s.open (.handle proc) (.process s.processes)).map fun s =>
          { (s.close [.handle thread]).create (.child s.processes proc false false) with
            processes := s.processes + 1 }
  | _ => none

def dropMasterStep (i : Nat) : Option State :=
  match s.objects[i]? with
  | some (.pty id con inner 1 0 poisoned) => some (s.drop i (.pty id con inner 1 0 poisoned))
  | some (.pty id con inner (masters + 1) slaves poisoned) =>
    some (s.put i (.pty id con inner masters slaves poisoned))
  | _ => none

def dropSlaveStep (i : Nat) : Option State :=
  match s.objects[i]? with
  | some (.pty id con inner 0 1 poisoned) => some (s.drop i (.pty id con inner 0 1 poisoned))
  | some (.pty id con inner masters (slaves + 1) poisoned) =>
    some (s.put i (.pty id con inner masters slaves poisoned))
  | _ => none

/-- `clone_killer` of a child or a killer. A `try_clone` that fails panics, and where
that is a child's it holds the mutex of the handle. -/
def cloneKillerStep (i : Nat) (tryClone : TryClone) : Option State :=
  match s.objects[i]?, tryClone with
  | some (.child _ _ _ true), _ => some s
  | some (.child pid proc waitStarted false), .error _ =>
    some (s.put i (.child pid proc waitStarted true))
  | some (.child pid _ _ false), .ok h =>
    (s.open (.handle h) (.process pid)).map fun s => s.create (.killer pid h)
  | some (.killer _ _), .error _ => some s
  | some (.killer pid _), .ok h =>
    (s.open (.handle h) (.process pid)).map fun s => s.create (.killer pid h)
  | _, _ => none

/-- `poll`: the first that finds the child running starts the waiter thread. -/
def pollStep (i : Nat) (running : Bool) (tryClone : TryClone) : Option State :=
  match s.objects[i]? with
  | some (.child pid proc waitStarted poisoned) =>
    if poisoned || !running || waitStarted then some s
    else
      let s := s.put i (.child pid proc true false)
      match tryClone with
      | .error _ => some s
      | .ok h => (s.open (.handle h) (.process pid)).map fun s => s.create (.waiter pid h)
  | _ => none

def waitedStep (i : Nat) : Option State :=
  match s.objects[i]? with
  | some (.waiter pid proc) => some (s.drop i (.waiter pid proc))
  | _ => none

def dropStep (i : Nat) : Option State :=
  match s.objects[i]? with
  | none | some (.pty _ _ _ _ _ _) | some (.waiter _ _) => none
  | some o => some (s.drop i o)

def otherStep (k : Key) (isOpen : Bool) : Option State :=
  if s.others k = s.table k then
    let entry := if isOpen then some .other else none
    some { s with
      table := Function.update s.table k entry
      others := Function.update s.others k entry }
  else none

def step : Act → Option State
  | .openpty size stdin stdout result con => openptyStep s size stdin stdout result con
  | .cloneMaster i => cloneMasterStep s i
  | .resize i r => resizeStep s i r
  | .tryCloneReader i tryClone => tryCloneReaderStep s i tryClone
  | .takeWriter i => takeWriterStep s i
  | .spawnCommand i m w b thread proc => spawnCommandStep s i m w b thread proc
  | .dropMaster i => dropMasterStep s i
  | .dropSlave i => dropSlaveStep s i
  | .cloneKiller i tryClone => cloneKillerStep s i tryClone
  | .poll i running tryClone => pollStep s i running tryClone
  | .waited i => waitedStep s i
  | .drop i => dropStep s i
  | .other k isOpen => otherStep s k isOpen

/-! What happens to the shared state of a pty. -/

inductive Event where
  | opened (id : Nat) (size : PtySize)
  | resized (id : Nat) (size : PtySize)
  | panicked (id : Nat)
  deriving DecidableEq

/-- The event of an action: a pty that is opened, a resize that succeeds, and a spawn that
panics, with the mutex locked. -/
def event : Act → Option Event
  | .openpty size (.ok _) (.ok _) result _ =>
    if result = S_OK then some (.opened s.ptys size) else none
  | .resize i r =>
    match s.objects[i]? with
    | some (.pty id _ _ (_ + 1) _ false) =>
      if r.result = S_OK then some (.resized id r.size) else none
    | _ => none
  | .spawnCommand i m w b _ _ =>
    match s.objects[i]? with
    | some (.pty id _ _ _ (_ + 1) false) =>
      match spawnCommand m w b with
      | .error (.panic _) => some (.panicked id)
      | _ => none
    | _ => none
  | _ => none

end Steps

/-! What the calls do to the table and to the objects. -/

variable {s t : State} {i : Nat} {o : Object}

def State.books (s : State) : Books Key Resource := booksOf Object.holds s.others s.table s.objects

/-- The pty whose shared state an object is. -/
def Object.ids : Object → List Nat
  | .pty id _ _ _ _ _ => [id]
  | _ => []

/-- What a call makes of an object, by its event. -/
inductive Change : Object → Option Event → Object → Prop where
  | other {o o' : Object} : o.ids = [] → o'.ids = [] → Change o none o'
  | shared {id : Nat} {con : RawFd} {inner : Inner} {masters slaves masters' slaves' : Nat}
      {poisoned : Bool} : 0 < masters' + slaves' →
      Change (.pty id con inner masters slaves poisoned) none
        (.pty id con inner masters' slaves' poisoned)
  | took {id : Nat} {con : RawFd} {inner : Inner} {masters slaves : Nat} {poisoned : Bool} :
      Change (.pty id con inner masters slaves poisoned) none
        (.pty id con { inner with writable := none } masters slaves poisoned)
  | resized {id : Nat} {con : RawFd} {inner : Inner} {masters slaves : Nat} {poisoned : Bool}
      {size : PtySize} :
      Change (.pty id con inner masters slaves poisoned) (some (.resized id size))
        (.pty id con { inner with con := conOf size, size } masters slaves poisoned)
  | panicked {id : Nat} {con : RawFd} {inner : Inner} {masters slaves : Nat} {poisoned : Bool} :
      Change (.pty id con inner masters slaves poisoned) (some (.panicked id))
        (.pty id con inner masters slaves true)

/-- What a call makes of the objects, and of the number of ptys so far. -/
inductive Becomes (s : State) : Option Event → List Object → Nat → Prop where
  | keep : Becomes s none s.objects s.ptys
  | put {i : Nat} {o o' : Object} {e : Option Event} : s.objects[i]? = some o → Change o e o' →
      Becomes s e (s.objects.set i o') s.ptys
  | erase {i : Nat} : Becomes s none (s.objects.eraseIdx i) s.ptys
  | create {objects : List Object} {o : Object} : Becomes s none objects s.ptys → o.ids = [] →
      Becomes s none (o :: objects) s.ptys
  | opened {con : RawFd} {inner : Inner} {size : PtySize} : inner.size = size →
      inner.con = conOf size →
      Becomes s (some (.opened s.ptys size)) (.pty s.ptys con inner 1 1 false :: s.objects)
        (s.ptys + 1)

/-- What a call of the library does. -/
structure Calls (s : State) (e : Option Event) (t : State) : Prop where
  moves : Ledger.Moves (fun _ _ => True) s.books t.books
  others : t.others = s.others
  becomes : Becomes s e t.objects t.ptys

theorem Calls.refl (s : State) : Calls s none s := ⟨.refl, rfl, .keep⟩

theorem calls_put {o' : Object} {e : Option Event} (ho : s.objects[i]? = some o)
    (hsame : o'.holds = o.holds) (hchange : Change o e o') : Calls s e (s.put i o') :=
  ⟨.put ho hsame, rfl, .put ho hchange⟩

theorem calls_drop (ho : s.objects[i]? = some o) : Calls s none (s.drop i o) :=
  ⟨.drop ho, rfl, .erase⟩

theorem open_eq_some {k : Key} {r : Resource} : s.open k r = some t ↔
    s.table k = none ∧ t = { s with table := Function.update s.table k (some r) } := by
  rw [State.open]
  split
  · rename_i hfree
    simp [hfree, eq_comm]
  · rename_i hfree
    simp [hfree]

/-- A new object for the descriptor that a call opened. -/
theorem calls_create {k : Key} {r : Resource} (hfree : s.table k = none) (ho : o.holds = [(k, r)])
    (hids : o.ids = []) :
    Calls s none ({ s with table := Function.update s.table k (some r) }.create o) :=
  ⟨Ledger.Moves.create hfree trivial ho, rfl, .create .keep hids⟩

/-- Both ends of a pipe, in whatever is owned already. -/
theorem moves_openPipe {pipe : Pipe} {read write : Resource} (h : openPipe s pipe read write = some t)
    (owned : List (Key × Resource)) :
    (∃ table, t = { s with table }) ∧ Ledger.Moves (fun _ _ => True) ⟨s.others, s.table, owned⟩
      ⟨s.others, t.table, (.handle pipe.write, write) :: (.handle pipe.read, read) :: owned⟩ := by
  simp only [openPipe, Option.bind_eq_some_iff, open_eq_some] at h
  obtain ⟨_, ⟨hread, rfl⟩, hwrite, rfl⟩ := h
  exact ⟨⟨_, rfl⟩, .tail (.single (.take hread trivial)) (.take hwrite trivial)⟩

section Events

variable [ToLowercase]

theorem calls_openpty {size : PtySize} {stdin stdout : Except (Message WinStr) Pipe}
    {result : HRESULT} {con : RawFd} (h : openptyStep s size stdin stdout result con = some t) :
    Calls s (event s (.openpty size stdin stdout result con)) t := by
  cases stdin with
  | error e =>
    obtain rfl : s = t := Option.some.inj h
    exact .refl s
  | ok stdin =>
    obtain ⟨s₁, hin, h⟩ := Option.bind_eq_some_iff.mp h
    let owned := s.objects.flatMap Object.holds
    let inRead : Key × Resource := (.handle stdin.read, .stdinRead s.ptys)
    let inWrite : Key × Resource := (.handle stdin.write, .stdinWrite s.ptys)
    obtain ⟨⟨table₁, rfl⟩, hstdin⟩ := moves_openPipe hin owned
    cases stdout with
    | error e =>
      cases h
      have hdrop : Ledger.Moves (fun _ _ => True) ⟨s.others, table₁, inWrite :: inRead :: owned⟩
          ⟨s.others, closeAll table₁ [inRead.1, inWrite.1], owned⟩ :=
        .return [inRead, inWrite] (.swap ..)
      exact ⟨hstdin.trans hdrop, rfl, .keep⟩
    | ok stdout =>
      obtain ⟨s₂, hout, h⟩ := Option.bind_eq_some_iff.mp h
      let outRead : Key × Resource := (.handle stdout.read, .stdoutRead s.ptys)
      let outWrite : Key × Resource := (.handle stdout.write, .stdoutWrite s.ptys)
      obtain ⟨⟨table₂, rfl⟩, hstdout⟩ := moves_openPipe hout (inWrite :: inRead :: owned)
      have hpipes := hstdin.trans hstdout
      by_cases hr : result = S_OK
      · subst hr
        obtain ⟨s₃, hcon, rfl⟩ := Option.map_eq_some_iff.mp h
        obtain ⟨hfree, rfl⟩ := open_eq_some.mp hcon
        let console : Key × Resource := (.hpcon con, .console s.ptys)
        have hopen : Ledger.Moves (fun _ _ => True)
            ⟨s.others, table₂, outWrite :: outRead :: inWrite :: inRead :: owned⟩
            ⟨s.others, Function.update table₂ console.1 (some console.2),
              console :: outWrite :: outRead :: inWrite :: inRead :: owned⟩ :=
          .single (.take hfree trivial)
        -- the console has its own handles for its ends, and these are dropped
        have hperm : (console :: outWrite :: outRead :: inWrite :: inRead :: owned).Perm
            (inRead :: outWrite :: console :: outRead :: inWrite :: owned) :=
          (@List.perm_middle _ inRead [console, outWrite, outRead, inWrite] owned).trans
            (.cons _ (.swap ..))
        exact ⟨(hpipes.trans hopen).trans (Ledger.Moves.return [inRead, outWrite] hperm), rfl,
          .opened rfl rfl⟩
      · have hevent : event s (.openpty size (.ok stdin) (.ok stdout) result con) = none := if_neg hr
        rw [openpty_failed hr] at h
        rw [hevent]
        cases h
        have hdrop : Ledger.Moves (fun _ _ => True)
            ⟨s.others, table₂, outWrite :: outRead :: inWrite :: inRead :: owned⟩
            ⟨s.others, closeAll table₂ [inRead.1, outWrite.1, outRead.1, inWrite.1], owned⟩ :=
          .return [inRead, outWrite, outRead, inWrite]
            (@List.perm_middle _ inRead [outWrite, outRead, inWrite] owned)
        exact ⟨hpipes.trans hdrop, rfl, .keep⟩

theorem calls_resize {r : Resize} (h : resizeStep s i r = some t) :
    Calls s (event s (.resize i r)) t := by
  unfold resizeStep at h
  split at h
  · rename_i ho
    cases h
    simp only [event, ho]
    exact .refl s
  · rename_i id con inner masters slaves ho
    cases h
    simp only [event, ho, call_state]
    split
    · exact calls_put ho rfl .resized
    · exact calls_put ho rfl (.shared (by omega))
  · cases h

theorem calls_spawnCommand {m : Machine} {w : World} {b : Builder} {thread proc : RawFd}
    (h : spawnCommandStep s i m w b thread proc = some t) :
    Calls s (event s (.spawnCommand i m w b thread proc)) t := by
  unfold spawnCommandStep at h
  split at h
  · rename_i ho
    cases h
    simp only [event, ho]
    exact .refl s
  · rename_i id con inner masters slaves ho
    split at h
    · rename_i hspawn
      cases h
      simp only [event, ho, hspawn]
      exact calls_put ho rfl .panicked
    · rename_i hspawn
      cases h
      simp only [event, ho, hspawn]
      exact .refl s
    · rename_i hspawn
      simp only [Option.map_eq_some_iff, Option.bind_eq_some_iff, open_eq_some] at h
      obtain ⟨_, ⟨hthread, rfl⟩, _, ⟨hproc, rfl⟩, rfl⟩ := h
      simp only [event, ho, hspawn]
      let owned := s.objects.flatMap Object.holds
      let threadEntry : Key × Resource := (.handle thread, .thread s.processes)
      let procEntry : Key × Resource := (.handle proc, .process s.processes)
      let table := Function.update (Function.update s.table threadEntry.1 (some threadEntry.2))
        procEntry.1 (some procEntry.2)
      have hopen : Ledger.Moves (fun _ _ => True) ⟨s.others, s.table, owned⟩
          ⟨s.others, table, procEntry :: threadEntry :: owned⟩ :=
        .tail (.single (.take hthread trivial)) (.take hproc trivial)
      have hdrop : Ledger.Moves (fun _ _ => True)
          ⟨s.others, table, procEntry :: threadEntry :: owned⟩
          ⟨s.others, closeAll table [threadEntry.1], procEntry :: owned⟩ :=
        .return [threadEntry] (.swap ..)
      exact ⟨hopen.trans hdrop, rfl, .create .keep rfl⟩
  · cases h

end Events

theorem calls_cloneMaster (h : cloneMasterStep s i = some t) : Calls s none t := by
  unfold cloneMasterStep at h
  split at h
  · rename_i ho
    cases h
    exact calls_put ho rfl (.shared (by omega))
  · cases h

theorem calls_tryCloneReader {tryClone : TryClone} (h : tryCloneReaderStep s i tryClone = some t) :
    Calls s none t := by
  unfold tryCloneReaderStep at h
  split at h
  · cases h
    exact .refl s
  · cases h
    exact .refl s
  · simp only [Option.map_eq_some_iff, open_eq_some] at h
    obtain ⟨_, ⟨hfree, rfl⟩, rfl⟩ := h
    exact calls_create hfree rfl rfl
  · cases h

/-- The writer takes over the handle of the master. -/
theorem calls_takeWriter (h : takeWriterStep s i = some t) : Calls s none t := by
  unfold takeWriterStep at h
  split at h
  · cases h
    exact .refl s
  · rename_i id con inner masters slaves ho
    split at h
    · cases h
      exact .refl s
    · rename_i handle hw
      cases h
      let o' : Object := .pty id con { inner with writable := none } (masters + 1) slaves false
      let entry : Key × Resource := (.handle handle, .stdinWrite id)
      have hsplit : (Object.pty id con inner (masters + 1) slaves false).holds = o'.holds ++ [entry] := by
        simp [Object.holds, o', entry, hw]
      have hperm : (s.objects.flatMap Object.holds).Perm
          (entry :: (s.objects.set i o').flatMap Object.holds) := by
        let rest := (s.objects.eraseIdx i).flatMap Object.holds
        have hmiddle : ((o'.holds ++ [entry]) ++ rest).Perm (entry :: (o'.holds ++ rest)) := by
          rw [List.append_assoc]
          exact List.perm_middle
        calc List.Perm (s.objects.flatMap Object.holds) ((o'.holds ++ [entry]) ++ rest) :=
              hsplit ▸ perm_single_out ho
          List.Perm _ (entry :: (o'.holds ++ rest)) := hmiddle
          List.Perm _ (entry :: (s.objects.set i o').flatMap Object.holds) :=
              (perm_put_back ho o').cons entry
      exact ⟨.single (.regroup hperm), rfl, .create (.put ho .took) rfl⟩
  · cases h

theorem calls_dropMaster (h : dropMasterStep s i = some t) : Calls s none t := by
  unfold dropMasterStep at h
  split at h
  · rename_i ho
    cases h
    exact calls_drop ho
  · rename_i id con inner masters slaves poisoned hlast ho
    cases h
    have hothers : 0 < masters + slaves := by
      by_contra hnone
      exact hlast (by omega) (by omega)
    exact calls_put ho rfl (.shared hothers)
  · cases h

theorem calls_dropSlave (h : dropSlaveStep s i = some t) : Calls s none t := by
  unfold dropSlaveStep at h
  split at h
  · rename_i ho
    cases h
    exact calls_drop ho
  · rename_i id con inner masters slaves poisoned hlast ho
    cases h
    have hothers : 0 < masters + slaves := by
      by_contra hnone
      exact hlast (by omega) (by omega)
    exact calls_put ho rfl (.shared hothers)
  · cases h

theorem calls_cloneKiller {tryClone : TryClone} (h : cloneKillerStep s i tryClone = some t) :
    Calls s none t := by
  unfold cloneKillerStep at h
  split at h
  · cases h
    exact .refl s
  · rename_i ho
    cases h
    exact calls_put ho rfl (.other rfl rfl)
  · simp only [Option.map_eq_some_iff, open_eq_some] at h
    obtain ⟨_, ⟨hfree, rfl⟩, rfl⟩ := h
    exact calls_create hfree rfl rfl
  · cases h
    exact .refl s
  · simp only [Option.map_eq_some_iff, open_eq_some] at h
    obtain ⟨_, ⟨hfree, rfl⟩, rfl⟩ := h
    exact calls_create hfree rfl rfl
  · cases h

theorem calls_poll {running : Bool} {tryClone : TryClone} (h : pollStep s i running tryClone = some t) :
    Calls s none t := by
  unfold pollStep at h
  split at h
  · rename_i pid proc waitStarted poisoned ho
    split at h
    · cases h
      exact .refl s
    · have hput : Becomes s none (s.objects.set i (.child pid proc true false)) s.ptys :=
        .put ho (.other rfl rfl)
      split at h
      · cases h
        exact calls_put ho rfl (.other rfl rfl)
      · simp only [Option.map_eq_some_iff, open_eq_some] at h
        obtain ⟨_, ⟨hfree, rfl⟩, rfl⟩ := h
        have hmoves : Ledger.Moves (fun _ _ => True) s.books
            (booksOf Object.holds s.others s.table (s.objects.set i (.child pid proc true false))) :=
          .put ho rfl
        exact ⟨hmoves.trans (Ledger.Moves.create hfree trivial rfl), rfl, .create hput rfl⟩
  · cases h

theorem calls_waited (h : waitedStep s i = some t) : Calls s none t := by
  unfold waitedStep at h
  split at h
  · rename_i ho
    cases h
    exact calls_drop ho
  · cases h

theorem calls_dropStep (h : dropStep s i = some t) : Calls s none t := by
  unfold dropStep at h
  split at h
  · cases h
  · cases h
  · cases h
  · rename_i ho
    cases h
    exact calls_drop ho

/-! Runs. -/

section Runs

variable [ToLowercase]

/-- What the rest of the process did to its handles. -/
def otherCalls (others : Handles) : List Act → Handles
  | [] => others
  | .other k isOpen :: as =>
    otherCalls (Function.update others k (if isOpen then some .other else none)) as
  | _ :: as => otherCalls others as

/-- What a step does. -/
structure Stepped (s : State) (a : Act) (t : State) : Prop where
  moves : Ledger.Moves (fun _ _ => True) s.books t.books
  others : t.others = otherCalls s.others [a]
  becomes : Becomes s (event s a) t.objects t.ptys

theorem stepped {a : Act} (h : step s a = some t) : Stepped s a t := by
  have ours : Calls s (event s a) t → otherCalls s.others [a] = s.others → Stepped s a t :=
    fun hc hcall => ⟨hc.moves, hc.others.trans hcall.symm, hc.becomes⟩
  cases a with
  | openpty size stdin stdout result con => exact ours (calls_openpty h) rfl
  | cloneMaster i => exact ours (calls_cloneMaster h) rfl
  | resize i r => exact ours (calls_resize h) rfl
  | tryCloneReader i tryClone => exact ours (calls_tryCloneReader h) rfl
  | takeWriter i => exact ours (calls_takeWriter h) rfl
  | spawnCommand i m w b thread proc => exact ours (calls_spawnCommand h) rfl
  | dropMaster i => exact ours (calls_dropMaster h) rfl
  | dropSlave i => exact ours (calls_dropSlave h) rfl
  | cloneKiller i tryClone => exact ours (calls_cloneKiller h) rfl
  | poll i running tryClone => exact ours (calls_poll h) rfl
  | waited i => exact ours (calls_waited h) rfl
  | drop i => exact ours (calls_dropStep h) rfl
  | other k isOpen =>
    rw [step, otherStep] at h
    split at h
    · rename_i hother
      cases h
      exact ⟨.single (.other _ hother fun _ _ => trivial), rfl, .keep⟩
    · cases h

theorem balanced_step (s : State) (a : Act) (t : State) (hb : s.books.Balanced)
    (h : step s a = some t) : t.books.Balanced :=
  (stepped h).moves.balanced hb

theorem balanced_run {others : Handles} {as : List Act}
    (h : run step (start others) as = some t) : t.books.Balanced := by
  have hstart : (start others).books.Balanced := Accounts.start others
  exact run_keeps balanced_step as hstart h

theorem otherCalls_cons (others : Handles) (a : Act) (as : List Act) :
    otherCalls others (a :: as) = otherCalls (otherCalls others [a]) as := by
  cases a <;> rfl

theorem others_run : ∀ {as : List Act} {s t : State}, run step s as = some t →
    t.others = otherCalls s.others as
  | [], s, t, h => by
    rw [run_nil, Option.some.injEq] at h
    exact h ▸ rfl
  | a :: as, s, t, h => by
    obtain ⟨u, hu, ht⟩ := run_cons.mp h
    rw [others_run ht, (stepped hu).others]
    exact (otherCalls_cons s.others a as).symm

/-- In every state that a run reaches, whichever calls fail or panic and whichever handles
they get. -/
theorem handles_accounted (others : Handles) (as : List Act) {t : State}
    (h : run step (start others) as = some t) :
    Accounted Object.holds (otherCalls others as) t.table t.objects := by
  have hothers : t.others = otherCalls others as := others_run h
  exact hothers ▸ (balanced_run h).accounted

end Runs

/-- A `PATHEXT` that ends in a semicolon. -/
def badPathExt : letI := asciiLowercase; Builder :=
  letI := asciiLowercase
  .new (wide "tool") (Envs.empty.insert
      { isFromBaseEnv := true, preferredKey := wide "PATH", value := wide "C:\\bin" }
    |>.insert { isFromBaseEnv := true, preferredKey := wide "PATHEXT", value := wide ".EXE;" }) ()

/-- A resize, a child that is polled, a spawn that panics and a resize that panics for it;
then the slave and one of the two masters are dropped. -/
def poisonedSession : letI := asciiLowercase; List Act :=
  letI := asciiLowercase
  [.openpty ⟨24, 80, 0, 0⟩ (.ok ⟨1, 2⟩) (.ok ⟨3, 4⟩) S_OK 9, .cloneMaster 0,
    .resize 0 ⟨⟨50, 132, 0, 0⟩, S_OK⟩,
    .spawnCommand 0 willing noFiles (.newDefaultProg .empty ()) 5 6, .poll 0 true (.ok 7),
    .spawnCommand 2 willing noFiles badPathExt 5 8, .resize 2 ⟨⟨10, 10, 0, 0⟩, S_OK⟩,
    .takeWriter 2, .dropSlave 2, .dropMaster 2, .drop 1]

/-- A waiter and a poisoned pty are left. -/
theorem poisoned_session_accounted : letI := asciiLowercase
    ∃ t, run step (start fun _ => none) poisonedSession = some t ∧
      t.objects = [.waiter 0 7, .pty 0 9 ⟨conOf ⟨50, 132, 0, 0⟩, 3, some 2, ⟨50, 132, 0, 0⟩⟩ 1 0 true] ∧
      Accounted Object.holds (fun _ => none) t.table t.objects :=
  letI := asciiLowercase
  ⟨_, rfl, rfl, handles_accounted (fun _ => none) poisonedSession rfl⟩

/-! The shared state of the ptys. -/

def Event.id : Event → Nat
  | .opened id _ => id
  | .resized id _ => id
  | .panicked id => id

/-- The size that was set last. -/
def lastSize (id : Nat) (h : List Event) : Option PtySize :=
  h.foldl (fun last e =>
    match e with
    | .opened id' size => if id' = id then some size else last
    | .resized id' size => if id' = id then some size else last
    | .panicked _ => last) none

/-- The shared state of a pty is what happened to it: its size is the one set last, the
console has the same, and its mutex is poisoned exactly if a spawn panicked. -/
def Object.Agrees (h : List Event) : Object → Prop
  | .pty id _ inner masters slaves poisoned => 0 < masters + slaves ∧
      lastSize id h = some inner.size ∧ inner.con = conOf inner.size ∧
      (poisoned = true ↔ .panicked id ∈ h)
  | _ => True

structure Tracked (h : List Event) (objects : List Object) (ptys : Nat) : Prop where
  distinct : (objects.flatMap Object.ids).Nodup
  old : ∀ o ∈ objects, ∀ id ∈ o.ids, id < ptys
  events : ∀ e ∈ h, e.id < ptys
  agrees : ∀ o ∈ objects, o.Agrees h

theorem lastSize_append (id : Nat) (h : List Event) (e : Event) : lastSize id (h ++ [e]) =
    match e with
    | .opened id' size => if id' = id then some size else lastSize id h
    | .resized id' size => if id' = id then some size else lastSize id h
    | .panicked _ => lastSize id h := by
  rw [lastSize, List.foldl_append]
  rfl

/-- An event of another pty makes no difference. -/
theorem agrees_append {h : List Event} {e : Event} (ho : e.id ∉ o.ids) :
    o.Agrees (h ++ [e]) ↔ o.Agrees h := by
  cases o with
  | pty id con inner masters slaves poisoned =>
    have hne : e.id ≠ id := fun heq => ho (List.mem_singleton.mpr heq)
    have hlast : lastSize id (h ++ [e]) = lastSize id h := by
      rw [lastSize_append]
      cases e with
      | opened id' size => exact if_neg hne
      | resized id' size => exact if_neg hne
      | panicked id' => rfl
    have hpanicked : Event.panicked id ∈ h ++ [e] ↔ .panicked id ∈ h := by
      rw [List.mem_append, List.mem_singleton]
      exact or_iff_left fun heq => hne (heq ▸ rfl)
    simp only [Object.Agrees, hlast, hpanicked]
  | _ => exact Iff.rfl

theorem change_ids {e : Option Event} {o o' : Object} (h : Change o e o') : o'.ids = o.ids := by
  cases h with
  | other ho ho' => rw [ho, ho']
  | _ => rfl

theorem change_event {e : Event} {o o' : Object} (h : Change o (some e) o') : o.ids = [e.id] := by
  cases h <;> rfl

theorem change_agrees {h : List Event} {e : Option Event} {o o' : Object} (hc : Change o e o')
    (ho : o.Agrees h) : o'.Agrees (h ++ e.toList) := by
  cases hc with
  | other _ ho' =>
    cases o' with
    | pty => cases ho'
    | _ => trivial
  | shared hrefs =>
    rw [Option.toList_none, List.append_nil]
    exact ⟨hrefs, ho.2⟩
  | took =>
    rw [Option.toList_none, List.append_nil]
    exact ho
  | resized =>
    refine ⟨ho.1, ?_, rfl, ?_⟩
    · rw [Option.toList_some, lastSize_append]
      exact if_pos rfl
    · rw [ho.2.2.2]
      simp
  | panicked =>
    refine ⟨ho.1, ?_, ho.2.2.1, ?_⟩
    · rw [Option.toList_some, lastSize_append]
      exact ho.2.1
    · exact iff_of_true rfl (by simp)

theorem tracked_put {h : List Event} {objects : List Object} {ptys : Nat} {e : Option Event}
    {o' : Object} (ht : Tracked h objects ptys) (ho : objects[i]? = some o) (hc : Change o e o') :
    Tracked (h ++ e.toList) (objects.set i o') ptys := by
  have hmem : o ∈ objects := List.mem_of_getElem? ho
  have hout := (perm_single_out ho).nodup_iff.mp ht.distinct
  have hback := List.set_perm_cons_eraseIdx (List.getElem?_eq_some_iff.mp ho).1 o'
  have hrest : ∀ o₂ ∈ objects.eraseIdx i, o₂ ∈ objects := fun _ => List.mem_of_mem_eraseIdx
  refine ⟨?_, ?_, ?_, ?_⟩
  · rw [← (perm_put_back ho o').nodup_iff, change_ids hc]
    exact hout
  · intro o₂ ho₂
    rcases List.mem_cons.mp (hback.mem_iff.mp ho₂) with rfl | hin
    · rw [change_ids hc]
      exact ht.old o hmem
    · exact ht.old o₂ (hrest o₂ hin)
  · intro e' he'
    rcases List.mem_append.mp he' with hbefore | hnew
    · exact ht.events e' hbefore
    · obtain rfl := Option.mem_toList.mp hnew
      exact ht.old o hmem e'.id (by rw [change_event hc]; exact List.mem_cons_self)
  · intro o₂ ho₂
    rcases List.mem_cons.mp (hback.mem_iff.mp ho₂) with rfl | hin
    · exact change_agrees hc (ht.agrees o hmem)
    · -- the event is that of another object
      cases e with
      | none =>
        rw [Option.toList_none, List.append_nil]
        exact ht.agrees o₂ (hrest o₂ hin)
      | some e =>
        rw [change_event hc, List.singleton_append, List.nodup_cons] at hout
        have hnot : e.id ∉ o₂.ids := fun hid => hout.1 (List.mem_flatMap.mpr ⟨o₂, hin, hid⟩)
        exact (agrees_append hnot).mpr (ht.agrees o₂ (hrest o₂ hin))

theorem tracked_becomes {h : List Event} {e : Option Event} {objects : List Object} {ptys : Nat}
    (ht : Tracked h s.objects s.ptys) (hb : Becomes s e objects ptys) :
    Tracked (h ++ e.toList) objects ptys := by
  induction hb with
  | keep =>
    rw [Option.toList_none, List.append_nil]
    exact ht
  | put ho hc => exact tracked_put ht ho hc
  | erase =>
    rw [Option.toList_none, List.append_nil]
    refine ⟨?_, ?_, ht.events, ?_⟩
    · exact ht.distinct.sublist ((List.eraseIdx_sublist ..).flatMap _)
    · exact fun o ho => ht.old o (List.mem_of_mem_eraseIdx ho)
    · exact fun o ho => ht.agrees o (List.mem_of_mem_eraseIdx ho)
  | create _ hids ih =>
    refine ⟨?_, ?_, ih.events, ?_⟩
    · rw [List.flatMap_cons, hids, List.nil_append]
      exact ih.distinct
    · refine List.forall_mem_cons.mpr ⟨fun id hid => ?_, ih.old⟩
      rw [hids] at hid
      cases hid
    · refine List.forall_mem_cons.mpr ⟨?_, ih.agrees⟩
      rename_i o _
      cases o with
      | pty => cases hids
      | _ => trivial
  | @opened con inner size hsize hcon =>
    have hnew : ∀ o ∈ s.objects, s.ptys ∉ o.ids :=
      fun o ho hid => Nat.lt_irrefl _ (ht.old o ho s.ptys hid)
    rw [Option.toList_some]
    refine ⟨?_, ?_, ?_, ?_⟩
    · rw [List.flatMap_cons]
      refine List.nodup_cons.mpr ⟨fun hmem => ?_, ht.distinct⟩
      obtain ⟨o, ho, hid⟩ := List.mem_flatMap.mp hmem
      exact hnew o ho hid
    · refine List.forall_mem_cons.mpr ⟨fun id hid => ?_, fun o ho id hid => ?_⟩
      · rw [List.mem_singleton.mp hid]
        exact Nat.lt_succ_self _
      · exact Nat.lt_succ_of_lt (ht.old o ho id hid)
    · intro e he
      rcases List.mem_append.mp he with hbefore | hlast
      · exact Nat.lt_succ_of_lt (ht.events e hbefore)
      · rw [List.mem_singleton.mp hlast]
        exact Nat.lt_succ_self _
    · refine List.forall_mem_cons.mpr ⟨⟨Nat.zero_lt_two, ?_, hcon.trans (hsize ▸ rfl), ?_⟩, ?_⟩
      · rw [lastSize_append, hsize]
        exact if_pos rfl
      · refine iff_of_false Bool.false_ne_true fun hmem => ?_
        rcases List.mem_append.mp hmem with hbefore | hlast
        · exact Nat.lt_irrefl _ (ht.events _ hbefore)
        · cases List.mem_singleton.mp hlast
      · exact fun o ho => (agrees_append (hnew o ho)).mpr (ht.agrees o ho)

theorem tracked_start (others : Handles) :
    Tracked [] (start others).objects (start others).ptys :=
  ⟨.nil, nofun, nofun, nofun⟩

section History

variable [ToLowercase]

/-- The events of a run. -/
def history : State → List Act → List Event
  | _, [] => []
  | s, a :: as => (event s a).toList ++
    match step s a with
    | none => []
    | some t => history t as

theorem history_cons {a : Act} {as : List Act} (h : step s a = some t) :
    history s (a :: as) = (event s a).toList ++ history t as := by
  show _ ++ (match step s a with
    | none => []
    | some t => history t as) = _
  rw [h]

theorem tracked_run : ∀ {as : List Act} {s t : State} {h : List Event},
    Tracked h s.objects s.ptys → run step s as = some t →
      Tracked (h ++ history s as) t.objects t.ptys
  | [], s, t, h, ht, hr => by
    rw [run_nil, Option.some.injEq] at hr
    rw [← hr, history, List.append_nil]
    exact ht
  | a :: as, s, t, h, ht, hr => by
    obtain ⟨u, hu, hrest⟩ := run_cons.mp hr
    rw [history_cons hu, ← List.append_assoc]
    exact tracked_run (tracked_becomes ht (stepped hu).becomes) hrest

/-- In every run, whichever clones of the master and which slaves the calls go through:
the shared state of a pty is what the history says. -/
theorem shared_state {others : Handles} {as : List Act} (h : run step (start others) as = some t)
    {id : Nat} {con : RawFd} {inner : Inner} {masters slaves : Nat} {poisoned : Bool}
    (ho : .pty id con inner masters slaves poisoned ∈ t.objects) :
    0 < masters + slaves ∧ lastSize id (history (start others) as) = some inner.size ∧
      inner.con = conOf inner.size ∧
      (poisoned = true ↔ .panicked id ∈ history (start others) as) :=
  (tracked_run (tracked_start others) h).agrees _ ho

/-- The rest of the process has no handle of the library's. -/
def Plain (others : Handles) : Prop := ∀ k r, others k = some r → r = .other

theorem plain_otherCalls : ∀ {as : List Act} {others : Handles}, Plain others →
    Plain (otherCalls others as)
  | [], _, h => h
  | a :: as, others, h => by
    rw [otherCalls_cons]
    refine plain_otherCalls ?_
    cases a with
    | other k isOpen =>
      intro k' r hr
      have hr : Function.update others k (if isOpen then some .other else none) k' = some r := hr
      by_cases heq : k' = k
      · rw [heq, Function.update_self] at hr
        cases isOpen with
        | true => exact (Option.some.inj hr).symm
        | false => cases hr
      · rw [Function.update_of_ne heq] at hr
        exact h k' r hr
    | _ => exact h

/-- A console is open exactly as long as a master or a slave of its pty is left, and no
other end of its two pipes stays open than the ones that the readers and the writer use:
the handle that would keep a reader from the end of the file is the console's own. -/
theorem console_open_iff {others : Handles} (hplain : Plain others) {as : List Act}
    (h : run step (start others) as = some t) (id : Nat) :
    ((∃ k, t.table k = some (.console id)) ↔ ∃ con inner masters slaves poisoned,
      .pty id con inner masters slaves poisoned ∈ t.objects ∧ 0 < masters + slaves) ∧
    ∀ k, t.table k ≠ some (.stdinRead id) ∧ t.table k ≠ some (.stdoutWrite id) := by
  have hothers : t.others = otherCalls others as := others_run h
  have hexact := (hothers ▸ (balanced_run h).accounted).exact
  have hours : ∀ {k r}, t.table k = some r → r = .other ∨ ∃ o ∈ t.objects, (k, r) ∈ o.holds :=
    fun hk => ((hexact _ _).mp hk).symm.imp_left (plain_otherCalls hplain _ _)
  refine ⟨⟨?_, ?_⟩, ?_⟩
  · intro hopen
    obtain ⟨k, hk⟩ := hopen
    rcases hours hk with hother | ⟨o, ho, hheld⟩
    · cases hother
    · cases o with
      | pty id' con inner masters slaves poisoned =>
        obtain ⟨-, rfl⟩ : k = .hpcon con ∧ id = id' := by simpa [Object.holds] using hheld
        have hagrees := (tracked_run (tracked_start others) h).agrees _ ho
        exact ⟨con, inner, masters, slaves, poisoned, ho, hagrees.1⟩
      | _ => simp [Object.holds] at hheld
  · intro hshared
    obtain ⟨con, inner, masters, slaves, poisoned, ho, -⟩ := hshared
    exact ⟨.hpcon con, (hexact _ _).mpr (.inl ⟨_, ho, List.mem_cons_self⟩)⟩
  · have hends : ∀ {k r}, t.table k = some r → r ≠ .stdinRead id ∧ r ≠ .stdoutWrite id := by
      intro k r hk
      rcases hours hk with rfl | ⟨o, ho, hheld⟩
      · exact ⟨nofun, nofun⟩
      · refine ⟨?_, ?_⟩
        · rintro rfl
          cases o <;> simp [Object.holds] at hheld
        · rintro rfl
          cases o <;> simp [Object.holds] at hheld
    exact fun k => ⟨fun hk => (hends hk).1 rfl, fun hk => (hends hk).2 rfl⟩

end History

/-- The second resize has no effect. -/
theorem poisoned_session_agrees : letI := asciiLowercase
    lastSize 0 (history (start fun _ => none) poisonedSession) = some ⟨50, 132, 0, 0⟩ ∧
      .panicked 0 ∈ history (start fun _ => none) poisonedSession :=
  letI := asciiLowercase
  have hrun : run step (start fun _ => none) poisonedSession = some _ := rfl
  have hagrees := shared_state hrun (List.mem_cons_of_mem _ List.mem_cons_self)
  ⟨hagrees.2.1, hagrees.2.2.2.mp rfl⟩

theorem poisoned_session_open : letI := asciiLowercase
    ∃ t, run step (start fun _ => none) poisonedSession = some t ∧
      (∃ k, t.table k = some (.console 0)) ∧ ∀ k, t.table k ≠ some (.stdoutWrite 0) :=
  letI := asciiLowercase
  have hrun : run step (start fun _ => none) poisonedSession = some _ := rfl
  have hplain : Plain fun _ => none := nofun
  have hopen := console_open_iff hplain hrun 0
  ⟨_, rfl, hopen.1.mpr ⟨_, _, _, _, _, List.mem_cons_of_mem _ List.mem_cons_self, Nat.zero_lt_one⟩,
    fun k => (hopen.2 k).2⟩

end Xpty.WinSession
