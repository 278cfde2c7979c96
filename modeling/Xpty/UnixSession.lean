import Xpty.Ledger
import Xpty.StepSystem
import Xpty.TakeWriter
import Xpty.UnixSpawn

/- A process that uses the Unix pseudo-terminals, as the system calls of its threads
   interleave. `openpty` and `spawn_command` make several calls, so what they hold
   between two of them is an object here, like the masters, slaves, readers and writers
   that the library hands out. A child is a process of its own: it takes the steps of
   `UnixSpawn.childSteps` one at a time while the parent goes on, and then it is a
   program, which may copy and close its descriptors and fork.

   Every call can fail, and the kernel picks any descriptor that is not in use. Over
   every run, `descriptors_accounted`: the table of the process is what the rest of it
   has open and one descriptor for each that an object holds. -/
namespace Xpty.UnixSession

open FailFast Ledger TakeWriter Unix UnixSpawn

variable {N : Type}

/-- What a descriptor refers to: an end of one of the ptys, or anything else. -/
inductive File where
  | master (pty : Nat)
  | slave (pty : Nat)
  | other
  deriving DecidableEq, Repr

structure Descriptor where
  file : File
  cloexec : Bool
  deriving DecidableEq, Repr

abbrev Files := Table RawFd Descriptor

/-- What holds descriptors. `opening` is `openpty` after `libc::openpty` returned, with
whether the master is close-on-exec yet; `command` is `spawn_command` with the standard
streams it has so far, and whether it forked. -/
inductive Object where
  | opening (pty : Nat) (master slave : RawFd) (masterSet : Bool)
  | master (pty : Nat) (m : UnixMasterPty)
  | slave (pty : Nat) (fd : RawFd)
  | reader (pty : Nat) (fd : RawFd)
  | writer (pty : Nat) (w : UnixMasterWriter)
  | command (pty : Nat) (stdio : List RawFd) (b : Builder) (cmd : Command) (forked : Bool)

/-- The descriptors of an object; `dup` is whether `filedescriptor` makes the ones that it
duplicates close-on-exec. -/
def Object.holds (dup : Bool) : Object → List (RawFd × Descriptor)
  | .opening pty fd fd' masterSet => [(fd, ⟨.master pty, masterSet⟩), (fd', ⟨.slave pty, false⟩)]
  | .master pty m => [(m.fd, ⟨.master pty, true⟩)]
  | .slave pty fd => [(fd, ⟨.slave pty, true⟩)]
  | .reader pty fd => [(fd, ⟨.master pty, dup⟩)]
  | .writer pty w => [(w.fd, ⟨.master pty, dup⟩)]
  | .command pty stdio _ _ _ => stdio.map fun fd => (fd, ⟨.slave pty, dup⟩)

/-- A child of `spawn_command`. In `setup` it has taken the steps of `past` and not
those of `rest`; `files` are the descriptors at the fork. -/
inductive Proc where
  | setup (pty : Nat) (files : Files) (m : Machine) (past rest : List (Step ChildState Errno))
  | program (pty : Nat) (files : Table RawFd File)
  | gone

/-- The descriptors as `UnixSpawn` names them, for a child of one pty. -/
def erase (pty : Nat) (files : Files) : FdTable :=
  fun fd => (files fd).map fun d => if d.file = .slave pty then .slave else .other

/-- What the descriptors of the child refer to. -/
def childFiles (pty : Nat) (files : Files) (fds : FdTable) : Table RawFd File :=
  fun fd =>
    match fds fd with
    | none => none
    | some .slave => some (.slave pty)
    | some .errorPipe => some .other
    | some .other => (files fd).map Descriptor.file

/-- The machine as a child of one pty finds it, which inherits the descriptors at the fork. -/
def inherit (pty : Nat) (files : Files) (m : Machine) : Machine :=
  { m with fds := erase pty files, cloexec := fun fd => (files fd).any Descriptor.cloexec }

def Proc.files : Proc → Table RawFd File
  | .setup pty files m past _ => childFiles pty files (edits past (atFork m)).fds
  | .program _ files => files
  | .gone => fun _ => none

/-- The next step of the setup; the last one is `execvp`. -/
def Proc.next : Proc → Option Proc
  | .setup pty files m past (step :: rest) =>
    match step.result, rest with
    | .error _, _ => some .gone
    | .ok (), [] =>
      some (.program pty (childFiles pty files (execFds m (edits (past ++ [step]) (atFork m)).fds)))
    | .ok (), rest => some (.setup pty files m (past ++ [step]) rest)
  | _ => none

structure State where
  files : Files
  /-- The descriptors of the rest of the process. -/
  others : Files
  objects : List Object
  ptys : Nat
  children : List Proc

/-- Before the first call of the library. -/
def start (others : Files) : State :=
  { files := others, others, objects := [], ptys := 0, children := [] }

/-- A system call that opens a descriptor. -/
def State.open (s : State) (fd : RawFd) (d : Descriptor) : Option State :=
  if 0 ≤ fd ∧ s.files fd = none then
    some { s with files := Function.update s.files fd (some d) }
  else none

/-- The object goes out of scope. -/
def State.drop (dup : Bool) (s : State) (i : Nat) (o : Object) : State :=
  { s with
    files := closeAll s.files ((o.holds dup).map Prod.fst)
    objects := s.objects.eraseIdx i }

def State.put (s : State) (i : Nat) (o : Object) : State :=
  { s with objects := s.objects.set i o }

def State.create (s : State) (o : Object) : State := { s with objects := o :: s.objects }

/-- What a program does to its descriptors. That it opens the slave by its name is left
out. -/
inductive ProgramCall where
  | dup (src dst : RawFd)
  | close (fd : RawFd)
  | open (fd : RawFd)
  | fork

inductive Act (N : Type) where
  /-- `libc::openpty`. -/
  | openpty (result : Except Errno (RawFd × RawFd))
  /-- `cloexec`, on the master and then on the slave. -/
  | cloexec (i : Nat) (result : Except Errno Unit)
  | tryCloneReader (i : Nat) (tryClone : TryClone UnixStr)
  | takeWriter (i : Nat) (tryClone : TryClone UnixStr)
  | spawnCommand (i : Nat) (w : World N) (b : Builder)
  /-- `as_stdio`, of the slave at `j` for the command at `i`. -/
  | asStdio (i j : Nat) (stdio : TryClone UnixStr)
  | fork (i : Nat) (result : Except Errno Machine)
  /-- `spawn_command` returns. -/
  | returns (i : Nat)
  | drop (i : Nat)
  /-- The rest of the process opens or closes a descriptor. -/
  | other (fd : RawFd) (cloexec : Option Bool)
  | childStep (c : Nat)
  | program (c : Nat) (call : ProgramCall)
  | exit (c : Nat)

section Steps

variable (dup : Bool) (s : State)

def openptyStep : Except Errno (RawFd × RawFd) → Option State
  | .error _ => some s
  | .ok (fd, fd') =>
    (s.open fd ⟨.master s.ptys, false⟩).bind fun s =>
      (s.open fd' ⟨.slave s.ptys, false⟩).map fun s =>
        { s.create (.opening s.ptys fd fd' false) with ptys := s.ptys + 1 }

/-- The two `cloexec` at the end of `openpty`; the first that fails drops both ends. -/
def cloexecStep (i : Nat) (result : Except Errno Unit) : Option State :=
  match s.objects[i]?, result with
  | some (.opening pty fd fd' masterSet), .error _ =>
    some (s.drop dup i (.opening pty fd fd' masterSet))
  | some (.opening pty fd fd' false), .ok () =>
    some { s.put i (.opening pty fd fd' true) with
      files := Function.update s.files fd (some ⟨.master pty, true⟩) }
  | some (.opening pty fd fd' true), .ok () =>
    some { s with
      files := Function.update s.files fd' (some ⟨.slave pty, true⟩)
      objects := .master pty { fd, tookWriter := false } :: .slave pty fd' ::
        s.objects.eraseIdx i }
  | _, _ => none

def tryCloneReaderStep (i : Nat) (tryClone : TryClone UnixStr) : Option State :=
  match s.objects[i]?, tryClone with
  | some (.master _ _), .error _ => some s
  | some (.master pty _), .ok fd =>
    (s.open fd ⟨.master pty, dup⟩).map fun s => s.create (.reader pty fd)
  | _, _ => none

def takeWriterStep (i : Nat) (tryClone : TryClone UnixStr) : Option State :=
  match s.objects[i]? with
  | some (.master pty m) =>
    match m.takeWriter tryClone with
    | (.error _, m) => some (s.put i (.master pty m))
    | (.ok w, m) => (s.open w.fd ⟨.master pty, dup⟩).map fun s =>
        (s.put i (.master pty m)).create (.writer pty w)
  | _ => none

def spawnCommandStep (i : Nat) (w : World N) (b : Builder) : Option State :=
  match s.objects[i]?, asCommand w b with
  | some (.slave _ _), .error _ => some s
  | some (.slave pty _), .ok cmd => some (s.create (.command pty [] b cmd false))
  | _, _ => none

def asStdioStep (i j : Nat) (stdio : TryClone UnixStr) : Option State :=
  match s.objects[i]?, s.objects[j]? with
  | some (.command pty fds b cmd false), some (.slave pty' _) =>
    if pty = pty' ∧ fds.length < 3 then
      match stdio with
      | .error _ => some (s.drop dup i (.command pty fds b cmd false))
      | .ok fd => (s.open fd ⟨.slave pty, dup⟩).map fun s =>
          s.put i (.command pty (fd :: fds) b cmd false)
    else none
  | _, _ => none

/-- The pipe and the fork of `Command::spawn`. -/
def forkStep (i : Nat) (result : Except Errno Machine) : Option State :=
  match s.objects[i]? with
  | some (.command pty fds b cmd false) =>
    if fds.length = 3 then
      match result with
      | .error _ => some (s.put i (.command pty fds b cmd true))
      | .ok m =>
        if s.files m.pipe = none then
          let child := .setup pty s.files (inherit pty s.files m) [] (childSteps m b cmd)
          some { s.put i (.command pty fds b cmd true) with children := child :: s.children }
        else none
    else none
  | _ => none

def returnsStep (i : Nat) : Option State :=
  match s.objects[i]? with
  | some (.command pty fds b cmd true) => some (s.drop dup i (.command pty fds b cmd true))
  | _ => none

def dropStep (i : Nat) : Option State :=
  match s.objects[i]? with
  | none | some (.opening _ _ _ _) | some (.command _ _ _ _ _) => none
  | some o => some (s.drop dup i o)

/-- A descriptor that no object holds. -/
def otherStep (fd : RawFd) (cloexec : Option Bool) : Option State :=
  if s.others fd = s.files fd then
    let entry := cloexec.map fun cloexec => ⟨.other, cloexec⟩
    some { s with
      files := Function.update s.files fd entry
      others := Function.update s.others fd entry }
  else none

def programStep (c : Nat) (call : ProgramCall) : Option State :=
  match s.children[c]?, call with
  | some (.program pty files), .dup src dst =>
    some { s with children :=
      s.children.set c (.program pty (Function.update files dst (files src))) }
  | some (.program pty files), .close fd =>
    some { s with children := s.children.set c (.program pty (Function.update files fd none)) }
  | some (.program pty files), .open fd =>
    some { s with children :=
      s.children.set c (.program pty (Function.update files fd (some .other))) }
  | some (.program pty files), .fork =>
    some { s with children := .program pty files :: s.children }
  | _, _ => none

def step : Act N → Option State
  | .openpty result => openptyStep s result
  | .cloexec i result => cloexecStep dup s i result
  | .tryCloneReader i tryClone => tryCloneReaderStep dup s i tryClone
  | .takeWriter i tryClone => takeWriterStep dup s i tryClone
  | .spawnCommand i w b => spawnCommandStep s i w b
  | .asStdio i j stdio => asStdioStep dup s i j stdio
  | .fork i result => forkStep s i result
  | .returns i => returnsStep dup s i
  | .drop i => dropStep dup s i
  | .other fd cloexec => otherStep s fd cloexec
  | .childStep c => (s.children[c]?.bind Proc.next).map fun p =>
      { s with children := s.children.set c p }
  | .program c call => programStep s c call
  | .exit c =>
    if c < s.children.length then some { s with children := s.children.set c .gone } else none

end Steps

/-! What the calls do to the table. -/

variable {dup : Bool} {s t : State} {i : Nat} {o : Object}

def State.books (dup : Bool) (s : State) : Books RawFd Descriptor :=
  booksOf (Object.holds dup) s.others s.files s.objects

/-- What a call can make of a descriptor: another file, the same one with other flags,
or, where the kernel picked it, an end of the next pty or one that the process has. -/
def State.Known (s : State) (fd : RawFd) (d : Descriptor) : Prop :=
  d.file = .other ∨ (∃ d', s.files fd = some d' ∧ d'.file = d.file) ∨
    0 ≤ fd ∧ (d.file = .master s.ptys ∨ d.file = .slave s.ptys ∨
      ∃ fd' d', s.files fd' = some d' ∧ d'.file = d.file)

/-- What a call of the library does. -/
structure State.Moves (dup : Bool) (s t : State) : Prop where
  moves : Ledger.Moves s.Known (s.books dup) (t.books dup)
  others : t.others = s.others
  ptys : s.ptys ≤ t.ptys
  children : t.children = s.children

theorem State.Moves.refl (dup : Bool) (s : State) : s.Moves dup s :=
  ⟨.refl, rfl, Nat.le_refl _, rfl⟩

theorem open_eq_some {fd : RawFd} {d : Descriptor} : s.open fd d = some t ↔
    (0 ≤ fd ∧ s.files fd = none) ∧
      t = { s with files := Function.update s.files fd (some d) } := by
  rw [State.open]
  split
  · rename_i hfree
    simp [hfree, eq_comm]
  · rename_i hfree
    simp [hfree]

/-- What an object has open, the process has open. -/
theorem held (hb : (s.books dup).Balanced) (ho : s.objects[i]? = some o) {fd : RawFd}
    {d : Descriptor} (hd : (fd, d) ∈ o.holds dup) : s.files fd = some d :=
  hb.entry_iff.mpr (.inl ⟨o, List.mem_of_getElem? ho, hd⟩)

theorem known_of_held (hb : (s.books dup).Balanced) (ho : s.objects[i]? = some o) {fd : RawFd}
    {d d' : Descriptor} (hd : (fd, d) ∈ o.holds dup) (hfile : d.file = d'.file) :
    s.Known fd d' ∧ ∀ fd' : RawFd, 0 ≤ fd' → s.Known fd' d' :=
  ⟨.inr (.inl ⟨d, held hb ho hd, hfile⟩),
    fun _ hfd' => .inr (.inr ⟨hfd', .inr (.inr ⟨fd, d, held hb ho hd, hfile⟩)⟩)⟩

theorem moves_put {o' : Object} (ho : s.objects[i]? = some o) (hsame : o'.holds dup = o.holds dup) :
    s.Moves dup (s.put i o') :=
  ⟨.put ho hsame, rfl, Nat.le_refl _, rfl⟩

theorem moves_drop (ho : s.objects[i]? = some o) : s.Moves dup (s.drop dup i o) :=
  ⟨.drop ho, rfl, Nat.le_refl _, rfl⟩

theorem moves_openpty {result : Except Errno (RawFd × RawFd)}
    (h : openptyStep s result = some t) : s.Moves dup t := by
  cases result with
  | error e =>
    obtain rfl : s = t := by simpa [openptyStep] using h
    exact .refl dup s
  | ok fds =>
    obtain ⟨fd, fd'⟩ := fds
    simp only [openptyStep, Option.bind_eq_some_iff, Option.map_eq_some_iff, open_eq_some] at h
    obtain ⟨_, ⟨⟨hfd, hfree⟩, rfl⟩, _, ⟨⟨hfd', hfree'⟩, rfl⟩, rfl⟩ := h
    refine ⟨.tail (.tail (.single (.take hfree ?_)) (.take hfree' ?_)) (.regroup (.swap ..)), rfl,
      Nat.le_succ _, rfl⟩
    · exact .inr (.inr ⟨hfd, .inl rfl⟩)
    · exact .inr (.inr ⟨hfd', .inr (.inl rfl)⟩)

theorem moves_cloexec {result : Except Errno Unit} (h : cloexecStep dup s i result = some t)
    (hb : (s.books dup).Balanced) : s.Moves dup t := by
  unfold cloexecStep at h
  split at h
  · rename_i ho
    cases h
    exact moves_drop ho
  · rename_i pty fd fd' ho
    cases h
    have hmark : Ledger.Moves s.Known (s.books dup)
        { s.books dup with
          table := Function.update s.files fd (some ⟨.master pty, true⟩)
          owned := Object.holds dup (.opening pty fd fd' true) ++
            (s.objects.eraseIdx i).flatMap (Object.holds dup) } :=
      .tail (.single (.regroup (perm_single_out ho)))
        (.change rfl (known_of_held hb ho List.mem_cons_self rfl).1)
    have hback : (Object.holds dup (.opening pty fd fd' true) ++
        (s.objects.eraseIdx i).flatMap (Object.holds dup)).Perm
          ((s.objects.set i (.opening pty fd fd' true)).flatMap (Object.holds dup)) :=
      perm_put_back ho _
    exact ⟨hmark.tail (.regroup hback), rfl, Nat.le_refl _, rfl⟩
  · rename_i pty fd fd' ho
    cases h
    have hslave : (fd', ⟨.slave pty, false⟩) ∈ Object.holds dup (.opening pty fd fd' true) :=
      List.mem_cons_of_mem _ List.mem_cons_self
    -- the slave is brought to the front, and goes behind the master again
    have hmark : Ledger.Moves s.Known (s.books dup)
        { s.books dup with
          table := Function.update s.files fd' (some ⟨.slave pty, true⟩)
          owned := (fd', ⟨.slave pty, true⟩) :: (fd, ⟨.master pty, true⟩) ::
            (s.objects.eraseIdx i).flatMap (Object.holds dup) } :=
      .tail (.single (.regroup ((perm_single_out ho).trans (.swap ..))))
        (.change rfl (known_of_held hb ho hslave rfl).1)
    exact ⟨hmark.tail (.regroup (.swap ..)), rfl, Nat.le_refl _, rfl⟩
  · cases h

theorem moves_tryCloneReader {tryClone : TryClone UnixStr}
    (h : tryCloneReaderStep dup s i tryClone = some t) (hb : (s.books dup).Balanced) :
    s.Moves dup t := by
  unfold tryCloneReaderStep at h
  split at h
  · cases h
    exact .refl dup s
  · rename_i pty m fd ho
    simp only [Option.map_eq_some_iff, open_eq_some] at h
    obtain ⟨_, ⟨⟨hfd, hfree⟩, rfl⟩, rfl⟩ := h
    have hknown : s.Known fd ⟨.master pty, dup⟩ :=
      (known_of_held hb ho List.mem_cons_self rfl).2 fd hfd
    exact ⟨.create hfree hknown rfl, rfl, Nat.le_refl _, rfl⟩
  · cases h

/-- Whether or not it succeeds, `take_writer` leaves the master its descriptor. -/
theorem takeWriter_holds {m m' : UnixMasterPty} {tryClone : TryClone UnixStr}
    {result : Except (Error UnixStr) UnixMasterWriter} (pty : Nat)
    (h : m.takeWriter tryClone = (result, m')) :
    (Object.master pty m').holds dup = (Object.master pty m).holds dup := by
  have hfd : (m.takeWriter tryClone).2.fd = m.fd := by
    cases hm : m.tookWriter with
    | true => simp [UnixMasterPty.takeWriter, hm]
    | false => cases tryClone <;> simp [UnixMasterPty.takeWriter, hm]
  rw [h] at hfd
  exact congrArg (fun fd => [(fd, Descriptor.mk (.master pty) true)]) hfd

theorem moves_takeWriter {tryClone : TryClone UnixStr}
    (h : takeWriterStep dup s i tryClone = some t) (hb : (s.books dup).Balanced) :
    s.Moves dup t := by
  unfold takeWriterStep at h
  split at h
  · rename_i pty m ho
    split at h
    · rename_i e m' htake
      cases h
      exact moves_put ho (takeWriter_holds pty htake)
    · rename_i w m' htake
      simp only [Option.map_eq_some_iff, open_eq_some] at h
      obtain ⟨_, ⟨⟨hfd, hfree⟩, rfl⟩, rfl⟩ := h
      have hput : s.Moves dup (s.put i (.master pty m')) :=
        moves_put ho (takeWriter_holds pty htake)
      have hknown : s.Known w.fd ⟨.master pty, dup⟩ :=
        (known_of_held hb ho List.mem_cons_self rfl).2 w.fd hfd
      exact ⟨hput.moves.trans (Ledger.Moves.create hfree hknown rfl), rfl, Nat.le_refl _, rfl⟩
  · cases h

theorem moves_asStdio {j : Nat} {stdio : TryClone UnixStr}
    (h : asStdioStep dup s i j stdio = some t) (hb : (s.books dup).Balanced) :
    s.Moves dup t := by
  unfold asStdioStep at h
  split at h
  · rename_i pty fds b cmd pty' fd' ho hslave
    split at h
    · rename_i hcan
      split at h
      · cases h
        exact moves_drop ho
      · rename_i fd
        simp only [Option.map_eq_some_iff, open_eq_some] at h
        obtain ⟨_, ⟨⟨hfd, hfree⟩, rfl⟩, rfl⟩ := h
        have hknown : s.Known fd ⟨.slave pty, dup⟩ :=
          (known_of_held hb hslave List.mem_cons_self (congrArg File.slave hcan.1.symm)).2 fd hfd
        exact ⟨.extend ho hfree hknown rfl, rfl, Nat.le_refl _, rfl⟩
    · cases h
  · cases h

/-- What the rest of the process did to its descriptors. -/
def otherCalls (others : Files) : List (Act N) → Files
  | [] => others
  | .other fd cloexec :: as =>
    otherCalls (Function.update others fd (cloexec.map fun cloexec => ⟨.other, cloexec⟩)) as
  | _ :: as => otherCalls others as

/-- What a step can have made of the children. -/
inductive Origin (s : State) (a : Act N) : Proc → Prop where
  | before {p : Proc} : p ∈ s.children → Origin s a p
  | forked {i pty : Nat} {m : Machine} {b : Builder} {cmd : Command} {fd : RawFd} {d : Descriptor} :
      a = .fork i (.ok m) → s.files fd = some d → d.file = .slave pty →
      Origin s a (.setup pty s.files (inherit pty s.files m) [] (childSteps m b cmd))
  | stepped {p p' : Proc} : p ∈ s.children → p.next = some p' → Origin s a p'
  | called {pty : Nat} {files files' : Table RawFd File} : .program pty files ∈ s.children →
      (∀ fd f, files' fd = some f → f = .other ∨ ∃ fd', files fd' = some f) →
      Origin s a (.program pty files')
  | gone : Origin s a .gone

/-- What a step does to the table, to the rest of the process and to the children. -/
structure Stepped (dup : Bool) (s : State) (a : Act N) (t : State) : Prop where
  moves : Ledger.Moves s.Known (s.books dup) (t.books dup)
  others : t.others = otherCalls s.others [a]
  ptys : s.ptys ≤ t.ptys
  children : ∀ p ∈ t.children, Origin s a p

theorem stepped_fork {result : Except Errno Machine} (h : forkStep s i result = some t)
    (hb : (s.books dup).Balanced) : Stepped dup s (Act.fork (N := N) i result) t := by
  unfold forkStep at h
  split at h
  · rename_i pty fds b cmd ho
    have hput : s.Moves dup (s.put i (.command pty fds b cmd true)) := moves_put ho rfl
    split at h
    · rename_i hthree
      split at h
      · cases h
        exact ⟨hput.moves, rfl, Nat.le_refl _, fun p hp => .before hp⟩
      · split at h
        · cases h
          refine ⟨hput.moves, rfl, Nat.le_refl _, fun p hp => ?_⟩
          rcases List.mem_cons.mp hp with rfl | hp
          · -- the command has the slave as the standard streams
            obtain ⟨fd, hfd⟩ : ∃ fd, fd ∈ fds := List.exists_mem_of_length_pos (by omega)
            have hopen : s.files fd = some ⟨.slave pty, dup⟩ :=
              held hb ho (List.mem_map.mpr ⟨fd, hfd, rfl⟩)
            exact .forked rfl hopen rfl
          · exact .before hp
        · cases h
    · cases h
  · cases h

/-- A step of a child, which has a table of its own. -/
theorem stepped_child {a : Act N} {c : Nat} {p : Proc} (hcall : otherCalls s.others [a] = s.others)
    (hp : Origin s a p) : Stepped dup s a { s with children := s.children.set c p } := by
  refine ⟨.refl, hcall.symm, Nat.le_refl _, fun p' hp' => ?_⟩
  rcases List.mem_or_eq_of_mem_set hp' with hmem | rfl
  · exact .before hmem
  · exact hp

theorem stepped_program {c : Nat} {call : ProgramCall} (h : programStep s c call = some t) :
    Stepped dup s (Act.program (N := N) c call) t := by
  unfold programStep at h
  split at h
  · rename_i pty files src dst hc
    cases h
    refine stepped_child rfl (.called (List.mem_of_getElem? hc) fun fd f hf => .inr ?_)
    by_cases heq : fd = dst
    · rw [heq, Function.update_self] at hf
      exact ⟨src, hf⟩
    · rw [Function.update_of_ne heq] at hf
      exact ⟨fd, hf⟩
  · rename_i pty files dst hc
    cases h
    refine stepped_child rfl (.called (List.mem_of_getElem? hc) fun fd f hf => .inr ?_)
    by_cases heq : fd = dst
    · rw [heq, Function.update_self] at hf
      cases hf
    · rw [Function.update_of_ne heq] at hf
      exact ⟨fd, hf⟩
  · rename_i pty files dst hc
    cases h
    refine stepped_child rfl (.called (List.mem_of_getElem? hc) fun fd f hf => ?_)
    by_cases heq : fd = dst
    · rw [heq, Function.update_self, Option.some.injEq] at hf
      exact .inl hf.symm
    · rw [Function.update_of_ne heq] at hf
      exact .inr ⟨fd, hf⟩
  · rename_i pty files hc
    cases h
    refine ⟨.refl, rfl, Nat.le_refl _, fun p hp => .before ?_⟩
    rcases List.mem_cons.mp hp with rfl | hp
    · exact List.mem_of_getElem? hc
    · exact hp
  · cases h

theorem moves_spawnCommand {w : World N} {b : Builder} (h : spawnCommandStep s i w b = some t) :
    s.Moves dup t := by
  unfold spawnCommandStep at h
  split at h
  · cases h
    exact .refl dup s
  · cases h
    -- the command has no descriptor yet
    exact ⟨.refl, rfl, Nat.le_refl _, rfl⟩
  · cases h

theorem moves_returns (h : returnsStep dup s i = some t) : s.Moves dup t := by
  unfold returnsStep at h
  split at h
  · rename_i ho
    cases h
    exact moves_drop ho
  · cases h

theorem moves_dropStep (h : dropStep dup s i = some t) : s.Moves dup t := by
  unfold dropStep at h
  split at h
  · cases h
  · cases h
  · cases h
  · rename_i ho
    cases h
    exact moves_drop ho

theorem stepped_other {fd : RawFd} {cloexec : Option Bool} (h : otherStep s fd cloexec = some t) :
    Stepped dup s (Act.other (N := N) fd cloexec) t := by
  unfold otherStep at h
  split at h
  · rename_i hother
    cases h
    refine ⟨.single (.other _ hother fun d hd => .inl ?_), rfl, Nat.le_refl _,
      fun p hp => .before hp⟩
    obtain ⟨flag, -, rfl⟩ := Option.map_eq_some_iff.mp hd
    rfl
  · cases h

/-- Every call of a thread, of the rest of the process or of a child is a sequence of
moves of the table. -/
theorem stepped {a : Act N} (h : step dup s a = some t) (hb : (s.books dup).Balanced) :
    Stepped dup s a t := by
  have ours : s.Moves dup t → otherCalls s.others [a] = s.others → Stepped dup s a t :=
    fun hm hcall => ⟨hm.moves, hm.others.trans hcall.symm, hm.ptys,
      fun p hp => .before (hm.children ▸ hp)⟩
  cases a with
  | openpty result => exact ours (moves_openpty h) rfl
  | cloexec i result => exact ours (moves_cloexec h hb) rfl
  | tryCloneReader i tryClone => exact ours (moves_tryCloneReader h hb) rfl
  | takeWriter i tryClone => exact ours (moves_takeWriter h hb) rfl
  | spawnCommand i w b => exact ours (moves_spawnCommand h) rfl
  | asStdio i j stdio => exact ours (moves_asStdio h hb) rfl
  | fork i result => exact stepped_fork h hb
  | returns i => exact ours (moves_returns h) rfl
  | drop i => exact ours (moves_dropStep h) rfl
  | other fd cloexec => exact stepped_other h
  | childStep c =>
    obtain ⟨p, hp, rfl⟩ := Option.map_eq_some_iff.mp h
    obtain ⟨before, hc, hnext⟩ := Option.bind_eq_some_iff.mp hp
    exact stepped_child rfl (.stepped (List.mem_of_getElem? hc) hnext)
  | program c call => exact stepped_program h
  | exit c =>
    rw [step] at h
    split at h
    · cases h
      exact stepped_child rfl .gone
    · cases h

/-! Runs. -/

open StepSystem

theorem balanced_step (s : State) (a : Act N) (t : State) (hb : (s.books dup).Balanced)
    (h : step dup s a = some t) : (t.books dup).Balanced :=
  (stepped h hb).moves.balanced hb

theorem balanced_start (others : Files) : ((start others).books dup).Balanced :=
  Accounts.start others

theorem balanced_run {others : Files} {as : List (Act N)}
    (h : run (step dup) (start others) as = some t) : (t.books dup).Balanced :=
  run_keeps balanced_step as (balanced_start others) h

theorem otherCalls_cons (others : Files) (a : Act N) (as : List (Act N)) :
    otherCalls others (a :: as) = otherCalls (otherCalls others [a]) as := by
  cases a <;> rfl

theorem others_run : ∀ {as : List (Act N)} {s t : State}, (s.books dup).Balanced →
    run (step dup) s as = some t → t.others = otherCalls s.others as
  | [], s, t, _, h => by
    rw [run_nil, Option.some.injEq] at h
    exact h ▸ rfl
  | a :: as, s, t, hb, h => by
    obtain ⟨u, hu, ht⟩ := run_cons.mp h
    rw [others_run (balanced_step s a u hb hu) ht, (stepped hu hb).others]
    exact (otherCalls_cons s.others a as).symm

/-- In every state that a run reaches, whichever calls fail, whichever descriptors the
kernel picks and however the threads and the children take turns: a descriptor is open
exactly if one object holds it, as the end that the object takes it for, or the rest of
the process has it; and when every object is dropped, the table is as if the library had
not been there. -/
theorem descriptors_accounted (dup : Bool) (others : Files) (as : List (Act N)) {t : State}
    (h : run (step dup) (start others) as = some t) :
    Accounted (Object.holds dup) (otherCalls others as) t.files t.objects := by
  have hothers : t.others = otherCalls others as := others_run (balanced_start others) h
  exact hothers ▸ (balanced_run h).accounted

/-- A pty whose writer could not be duplicated, and then everything is dropped. -/
def openAndClose : List (Act TreeFs.Node) :=
  [.openpty (.ok (3, 4)), .cloexec 0 (.ok ()), .cloexec 0 (.ok ()), .tryCloneReader 0 (.ok 5),
    .takeWriter 1 (.error [.text "Too many open files"]), .drop 0, .drop 0, .drop 0]

theorem open_and_close_restores : ∃ t, run (step true) (start fun _ => none) openAndClose = some t ∧
    t.files = fun _ => none :=
  ⟨_, rfl, (descriptors_accounted true _ openAndClose rfl).restored rfl⟩

end Xpty.UnixSession
