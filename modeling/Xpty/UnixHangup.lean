import Xpty.UnixExec
import Xpty.UnixSession

/- Which processes have an end of a pty open, over the runs of `UnixSession`. The reader of
   a master sees the end of the file when nobody has the slave open any more, and the
   programs on the slave are hung up when nobody has the master, so a descriptor that
   another child inherited by mistake would keep a session from ending.

   `program_isolated`: a program has no end of a pty but the slave of its own, as long
   as the duplicated descriptors are close-on-exec and no child is forked without
   `close_range` while `openpty` is at work, since between `libc::openpty` and `cloexec`
   the ends are not close-on-exec. `reader_ends_iff` says when a read ends and
   `hung_up_iff` when the programs are hung up; `closed_stable` that it stays so. -/
namespace Xpty.UnixSession

open FailFast Ledger StepSystem Unix UnixSpawn

variable {N : Type} {dup : Bool} {s t : State}

/-! The child between the fork and its program. -/

/-- A child in setup goes through the steps of its command, all of them successful so
far, with the descriptors it had at the fork. -/
def Proc.Underway : Proc → Prop
  | .setup pty files m past rest => m = inherit pty files m ∧
      ∃ b cmd, past ++ rest = childSteps m b cmd ∧ ∀ step ∈ past, step.result = .ok ()
  | _ => True

theorem underway_fork (pty : Nat) (files : Files) (m : Machine) (b : Builder) (cmd : Command) :
    (Proc.setup pty files (inherit pty files m) [] (childSteps m b cmd)).Underway :=
  ⟨rfl, b, cmd, rfl, nofun⟩

/-- What a step of the setup leads to. -/
theorem next_cases {p p' : Proc} (h : p.next = some p') : ∃ pty files m past step rest,
    p = .setup pty files m past (step :: rest) ∧
      (p' = .gone ∨
        step.result = .ok () ∧ rest = [] ∧
          p' = .program pty
            (childFiles pty files (execFds m (edits (past ++ [step]) (atFork m)).fds)) ∨
        step.result = .ok () ∧ p' = .setup pty files m (past ++ [step]) rest) := by
  cases p with
  | program pty files => cases h
  | gone => cases h
  | setup pty files m past rest =>
    cases rest with
    | nil => cases h
    | cons step rest =>
      refine ⟨pty, files, m, past, step, rest, rfl, ?_⟩
      cases hr : step.result with
      | error e =>
        simp only [Proc.next, hr, Option.some.injEq] at h
        exact .inl h.symm
      | ok u =>
        cases rest with
        | nil =>
          simp only [Proc.next, hr, Option.some.injEq] at h
          exact .inr (.inl ⟨rfl, rfl, h.symm⟩)
        | cons next rest =>
          simp only [Proc.next, hr, Option.some.injEq] at h
          exact .inr (.inr ⟨rfl, h.symm⟩)

theorem underway_next {p p' : Proc} (hp : p.Underway) (h : p.next = some p') : p'.Underway := by
  obtain ⟨pty, files, m, past, step, rest, rfl, rfl | ⟨-, -, rfl⟩ | ⟨hok, rfl⟩⟩ := next_cases h
  · trivial
  · trivial
  · obtain ⟨hinherit, b, cmd, hsteps, hpast⟩ := hp
    refine ⟨hinherit, b, cmd, by rw [← hsteps, List.append_assoc, List.singleton_append], ?_⟩
    intro step' hstep'
    rcases List.mem_append.mp hstep' with hmem | hmem
    · exact hpast step' hmem
    · exact List.mem_singleton.mp hmem ▸ hok

/-- A child that gets to its program has of its descriptors what the program finds that
`do_exec` gets to. -/
theorem program_of_next {p : Proc} {pty : Nat} {table : Table RawFd File} (hu : p.Underway)
    (h : p.next = some (.program pty table)) : ∃ files m past rest, ∃ b : Builder, ∃ cmd st,
      p = .setup pty files m past rest ∧ m = inherit pty files m ∧
        programState m cmd (preExecClosure m b.controllingTty b.unix.umask b.unix.preExecHooks) =
          some st ∧ table = childFiles pty files st.fds := by
  obtain ⟨_, files, m, past, step, rest, rfl, hp | ⟨hok, rfl, hp⟩ | ⟨-, hp⟩⟩ := next_cases h
  · cases hp
  · obtain ⟨hinherit, b, cmd, hsteps, hpast⟩ := hu
    have hall : ∀ step' ∈ childSteps m b cmd, step'.result = .ok () := by
      intro step' hstep'
      rw [← hsteps] at hstep'
      rcases List.mem_append.mp hstep' with hmem | hmem
      · exact hpast step' hmem
      · exact List.mem_singleton.mp hmem ▸ hok
    rw [hsteps, edits_childSteps hall] at hp
    cases hp
    exact ⟨files, m, past, [step], b, cmd, finalState m b, rfl, hinherit,
      (programState_iff m b cmd _).mpr ⟨hall, rfl⟩, rfl⟩
  · cases hp

/-! Which ends of ptys a program is left with. -/

/-- A process has no end of a pty but the slave of its own. -/
def OwnFiles (pty : Nat) (files : Table RawFd File) : Prop :=
  ∀ fd f, files fd = some f → f = .other ∨ f = .slave pty

/-- Every other end that is open at the fork, the standard streams apart, is
close-on-exec or is closed by `close_random_fds`. -/
def Sheltered (pty : Nat) (files : Files) (m : Machine) : Prop :=
  ∀ fd d, fd ∉ [0, 1, 2] → files fd = some d → d.file = .other ∨ d.file = .slave pty ∨
    d.cloexec = true ∨ Closes m fd

/-- What a program finds has no end of another pty, if that was sheltered at the fork. -/
theorem ownFiles_program {pty : Nat} {files : Files} {m : Machine} {b : Builder}
    (hinherit : m = inherit pty files m) (hs : Sheltered pty files m) :
    OwnFiles pty (childFiles pty files (finalState m b).fds) := by
  have hfds : m.fds = erase pty files := congrArg Machine.fds hinherit
  have hcloexec : m.cloexec = fun fd => (files fd).any Descriptor.cloexec :=
    congrArg Machine.cloexec hinherit
  intro fd f hf
  have hfinal := finalState_fds m b fd
  by_cases hhook : fd ∈ hookCloses b
  · rw [if_pos hhook] at hfinal
    simp only [childFiles, hfinal, reduceCtorEq] at hf
  rw [if_neg hhook] at hfinal
  by_cases hstd : fd ∈ [0, 1, 2]
  · rw [if_pos hstd] at hfinal
    simp only [childFiles, hfinal, Option.some.injEq] at hf
    exact .inr hf.symm
  rw [if_neg hstd] at hfinal
  by_cases hclosed : Closes m fd ∨ fd = m.pipe ∨ m.cloexec fd = true
  · rw [if_pos hclosed] at hfinal
    simp only [childFiles, hfinal, reduceCtorEq] at hf
  rw [if_neg hclosed, hfds, erase] at hfinal
  cases hd : files fd with
  | none =>
    simp only [hd, Option.map_none] at hfinal
    simp only [childFiles, hfinal, reduceCtorEq] at hf
  | some d =>
    simp only [hd, Option.map_some] at hfinal
    by_cases hslave : d.file = .slave pty
    · simp only [childFiles, hfinal, if_pos hslave, Option.some.injEq] at hf
      exact .inr hf.symm
    · simp only [childFiles, hfinal, if_neg hslave, hd, Option.map_some, Option.some.injEq] at hf
      rcases hs fd d hstd hd with hother | h | hflag | h
      · exact .inl (hf ▸ hother)
      · exact absurd h hslave
      · have hclose : m.cloexec fd = true := by simp [hcloexec, hd, hflag]
        exact absurd (.inr (.inr hclose)) hclosed
      · exact absurd (.inl h) hclosed

def Proc.Isolated : Proc → Prop
  | .setup pty files m _ _ => Sheltered pty files m
  | .program pty files => OwnFiles pty files
  | .gone => True

theorem isolated_next {p p' : Proc} (hu : p.Underway) (hi : p.Isolated) (h : p.next = some p') :
    p'.Isolated := by
  cases p' with
  | gone => trivial
  | program pty table =>
    obtain ⟨files, m, past, rest, b, cmd, st, rfl, hinherit, hstate, rfl⟩ := program_of_next hu h
    obtain ⟨-, rfl⟩ := (programState_iff m b cmd st).mp hstate
    exact ownFiles_program hinherit hi
  | setup pty files m past rest =>
    obtain ⟨_, _, _, _, _, _, rfl, hp | ⟨-, -, hp⟩ | ⟨-, hp⟩⟩ := next_cases h
    · cases hp
    · cases hp
    · cases hp
      exact hi

/-! Over runs. -/

/-- The rest of the process has no end of a pty. -/
def Plain (files : Files) : Prop := ∀ fd d, files fd = some d → d.file = .other

theorem plain_otherCalls {others : Files} (h : Plain others) (a : Act N) :
    Plain (otherCalls others [a]) := by
  cases a with
  | other fd cloexec =>
    intro fd' d hd
    have hd : Function.update others fd (cloexec.map (Descriptor.mk .other)) fd' = some d := hd
    by_cases heq : fd' = fd
    · rw [heq, Function.update_self] at hd
      obtain ⟨flag, -, rfl⟩ := Option.map_eq_some_iff.mp hd
      rfl
    · rw [Function.update_of_ne heq] at hd
      exact h fd' d hd
  | _ => exact h

/-- An end of a pty has a descriptor that the kernel picked. -/
def State.Placed (s : State) : Prop := ∀ fd d, s.files fd = some d → d.file = .other ∨ 0 ≤ fd

theorem placed_step {a : Act N} (h : Stepped dup s a t) (hs : s.Placed) : t.Placed := by
  intro fd d hd
  rcases h.moves.entry hd with hbefore | hother | ⟨d', hd', hfile⟩ | ⟨hfd, -⟩
  · exact hs fd d hbefore
  · exact .inl hother
  · exact hfile ▸ hs fd d' hd'
  · exact .inr hfd

/-- No `openpty` is at work. -/
def Object.settled : Object → Bool
  | .opening _ _ _ _ => false
  | _ => true

/-- A child is forked where `close_range` works or no `openpty` is at work. -/
def Guarded (s : State) : Act N → Prop
  | .fork _ (.ok m) => m.closeRange = true ∨ ∀ o ∈ s.objects, o.settled = true
  | _ => True

instance (s : State) (a : Act N) : Decidable (Guarded s a) := by
  unfold Guarded
  split
  · exact inferInstance
  · exact inferInstance

theorem cloexec_of_settled {o : Object} (ho : o.settled = true) {fd : RawFd} {d : Descriptor}
    (h : (fd, d) ∈ o.holds true) : d.cloexec = true := by
  cases o with
  | opening pty fd fd' masterSet => cases ho
  | command pty fds b cmd forked =>
    obtain ⟨fd', -, hd⟩ := List.mem_map.mp h
    exact (Prod.mk.inj hd).2 ▸ rfl
  | master pty m => exact (Prod.mk.inj (List.mem_singleton.mp h)).2 ▸ rfl
  | slave pty fd => exact (Prod.mk.inj (List.mem_singleton.mp h)).2 ▸ rfl
  | reader pty fd => exact (Prod.mk.inj (List.mem_singleton.mp h)).2 ▸ rfl
  | writer pty w => exact (Prod.mk.inj (List.mem_singleton.mp h)).2 ▸ rfl

theorem above_stdio {fd : Int} (hfd : 0 ≤ fd) (hstd : fd ∉ [0, 1, 2]) : 3 ≤ fd := by
  simp only [List.mem_cons, List.not_mem_nil, or_false, not_or] at hstd
  omega

theorem sheltered_fork {m : Machine} (pty : Nat) (hb : (s.books true).Balanced) (hp : s.Placed)
    (hplain : Plain s.others) (hg : m.closeRange = true ∨ ∀ o ∈ s.objects, o.settled = true) :
    Sheltered pty s.files m := by
  intro fd d hstd hd
  rcases hp fd d hd with hother | hfd
  · exact .inl hother
  rcases hg with hm | hsettled
  · exact .inr (.inr (.inr (.inl ⟨hm, above_stdio hfd hstd⟩)))
  rcases hb.entry_iff.mp hd with ⟨o, ho, hheld⟩ | hothers
  · exact .inr (.inr (.inl (cloexec_of_settled (hsettled o ho) hheld)))
  · exact .inl (hplain fd d hothers)

/-- What a run keeps, of the parent and of every child. -/
structure State.Sound (s : State) : Prop where
  balanced : (s.books true).Balanced
  plain : Plain s.others
  placed : s.Placed
  underway : ∀ p ∈ s.children, p.Underway
  isolated : ∀ p ∈ s.children, p.Isolated

theorem sound_start {others : Files} (h : Plain others) : (start others).Sound :=
  ⟨balanced_start others, h, fun fd d hd => .inl (h fd d hd), nofun, nofun⟩

theorem sound_step (s : State) (a : Act N) (t : State) (hs : s.Sound) (hg : Guarded s a)
    (h : step true s a = some t) : t.Sound := by
  have hstepped := stepped h hs.balanced
  refine ⟨hstepped.moves.balanced hs.balanced, ?_, placed_step hstepped hs.placed, ?_, ?_⟩
  · rw [hstepped.others]
    exact plain_otherCalls hs.plain a
  · intro p hp
    cases hstepped.children p hp with
    | before hmem => exact hs.underway p hmem
    | forked _ _ _ => exact underway_fork ..
    | stepped hmem hnext => exact underway_next (hs.underway _ hmem) hnext
    | called _ _ => trivial
    | gone => trivial
  · intro p hp
    cases hstepped.children p hp with
    | before hmem => exact hs.isolated p hmem
    | forked ha _ _ =>
      subst ha
      exact sheltered_fork _ hs.balanced hs.placed hs.plain hg
    | stepped hmem hnext => exact isolated_next (hs.underway _ hmem) (hs.isolated _ hmem) hnext
    | called hmem hfiles =>
      intro fd f hf
      rcases hfiles fd f hf with hother | ⟨fd', hf'⟩
      · exact .inl hother
      · exact hs.isolated _ hmem fd' f hf'
    | gone => trivial

theorem sound_run {others : Files} (hplain : Plain others) {as : List (Act N)}
    (h : run (step true) (start others) as = some t)
    (hg : Along (step true) Guarded (start others) as) : t.Sound :=
  run_along sound_step as (sound_start hplain) hg h

/-- In every run, a program has no end of a pty but the slave of its own. -/
theorem program_isolated {others : Files} (hplain : Plain others) {as : List (Act N)}
    (h : run (step true) (start others) as = some t)
    (hg : Along (step true) Guarded (start others) as) {pty : Nat} {files : Table RawFd File}
    (hp : .program pty files ∈ t.children) : OwnFiles pty files :=
  (sound_run hplain h hg).isolated _ hp

/-- A process with nothing but its standard streams. -/
def parent : Files := fun fd => if fd ∈ [0, 1, 2] then some ⟨.other, false⟩ else none

theorem plain_parent : Plain parent := by
  intro fd d hd
  unfold parent at hd
  split at hd
  · cases hd
    rfl
  · cases hd

/-- The default program. -/
def defaultProg : Builder := .newDefaultProg .empty { umask := none, preExecHooks := [] }

/-- A pty with a reader, and a program started on it. -/
def startProgram (m : Machine) (meanwhile : List (Act TreeFs.Node)) : List (Act TreeFs.Node) :=
  [.openpty (.ok (3, 4)), .cloexec 0 (.ok ()), .cloexec 0 (.ok ()), .tryCloneReader 0 (.ok 5),
    .spawnCommand 2 inH defaultProg, .asStdio 0 3 (.ok 6), .asStdio 0 3 (.ok 7),
    .asStdio 0 3 (.ok 9)] ++ meanwhile ++
  [.fork meanwhile.length (.ok m), .returns meanwhile.length] ++ List.replicate 8 (.childStep 0)

theorem started_program_isolated : ∃ t files,
    run (step true) (start parent) (startProgram linux []) = some t ∧
      .program 0 files ∈ t.children ∧ OwnFiles 0 files := by
  obtain ⟨t, ht, files, hchildren⟩ : ∃ t,
      run (step true) (start parent) (startProgram linux []) = some t ∧
        ∃ files, t.children = [.program 0 files] := ⟨_, rfl, _, rfl⟩
  have hp : .program 0 files ∈ t.children := hchildren ▸ List.mem_cons_self
  exact ⟨t, files, ht, hp, program_isolated plain_parent ht (by decide) hp⟩

/-- The condition is needed: another thread is in `openpty`, there is no `close_range` nor
a `/dev/fd`, and the program has the other master. -/
theorem unguarded_fork_leaks : ∃ t files,
    run (step true) (start parent)
      (startProgram { linux with closeRange := false } [.openpty (.ok (10, 11))]) = some t ∧
      t.children = [.program 0 files] ∧ files 10 = some (.master 1) :=
  ⟨_, _, rfl, rfl, rfl⟩

/-! Who has an end open. -/

def File.pty? : File → Option Nat
  | .master pty => some pty
  | .slave pty => some pty
  | .other => none

/-- Some process has the file open. -/
def State.HasOpen (s : State) (f : File) : Prop :=
  (∃ fd d, s.files fd = some d ∧ d.file = f) ∨ ∃ p ∈ s.children, ∃ fd, p.files fd = some f

def Object.has (f : File) (o : Object) : Bool := (o.holds true).any fun e => e.2.file = f

theorem has_iff {o : Object} {f : File} : o.has f = true ↔ ∃ e ∈ o.holds true, e.2.file = f := by
  simp [Object.has]

def Proc.started : Proc → Bool
  | .setup _ _ _ _ _ => false
  | _ => true

theorem hasOpen_iff (hs : s.Sound) (hstarted : ∀ p ∈ s.children, p.started = true) {f : File}
    {pty : Nat} (hf : f.pty? = some pty) : s.HasOpen f ↔ (∃ o ∈ s.objects, o.has f = true) ∨
      f = .slave pty ∧ ∃ files, .program pty files ∈ s.children ∧ ∃ fd, files fd = some f := by
  have hother : f ≠ .other := by
    rintro rfl
    cases hf
  refine or_congr ⟨?_, ?_⟩ ⟨?_, ?_⟩
  · intro h
    obtain ⟨fd, d, hd, hfile⟩ := h
    rcases hs.balanced.entry_iff.mp hd with ⟨o, ho, hheld⟩ | hothers
    · exact ⟨o, ho, has_iff.mpr ⟨_, hheld, hfile⟩⟩
    · exact absurd (hfile.symm.trans (hs.plain fd d hothers)) hother
  · intro h
    obtain ⟨o, ho, hhas⟩ := h
    obtain ⟨⟨fd, d⟩, hheld, hfile⟩ := has_iff.mp hhas
    exact ⟨fd, d, hs.balanced.entry_iff.mpr (.inl ⟨o, ho, hheld⟩), hfile⟩
  · intro h
    obtain ⟨p, hp, fd, hfd⟩ := h
    cases p with
    | setup pty' files m past rest => cases hstarted _ hp
    | gone => cases hfd
    | program pty' files =>
      -- a program has no master, and no slave but its own
      rcases hs.isolated _ hp fd _ hfd with h | rfl
      · exact absurd h hother
      · cases hf
        exact ⟨rfl, files, hp, fd, hfd⟩
  · intro h
    obtain ⟨-, files, hp, fd, hfd⟩ := h
    exact ⟨_, hp, fd, hfd⟩

def EIO : Errno := 5

/-- What the kernel answers to a read of the master into a buffer with room: output
that is there, or the end when nobody has the slave open, which Linux reports as `EIO`. -/
inductive MasterRead (hungUp : Prop) (output : List UInt8) : Except Errno (List UInt8) → Prop where
  | output {bytes : List UInt8} : bytes ≠ [] → bytes <+: output → MasterRead hungUp output (.ok bytes)
  | hangup : output = [] → hungUp → MasterRead hungUp output (.error EIO)
  | zero : output = [] → hungUp → MasterRead hungUp output (.ok [])
  | failed {e : Errno} : e ≠ EIO → MasterRead hungUp output (.error e)

/-- `PtyFd::read`. -/
def ptyRead (answer : Except Errno (List UInt8)) : Except Errno (List UInt8) :=
  match answer with
  | .error e => if e = EIO then .ok [] else .error e
  | .ok bytes => .ok bytes

/-- An end is reported exactly where nothing is left and nobody has the slave open. -/
theorem ptyRead_end {hungUp : Prop} {output bytes : List UInt8}
    {answer : Except Errno (List UInt8)} (h : MasterRead hungUp output answer)
    (hok : ptyRead answer = .ok bytes) : bytes = [] ↔ output = [] ∧ hungUp := by
  cases h with
  | output hne hprefix =>
    cases hok
    refine iff_of_false hne fun hand => hne ?_
    rw [hand.1, List.prefix_nil] at hprefix
    exact hprefix
  | hangup hout hup =>
    simp only [ptyRead, if_true, Except.ok.injEq] at hok
    exact iff_of_true hok.symm ⟨hout, hup⟩
  | zero hout hup =>
    cases hok
    exact iff_of_true rfl ⟨hout, hup⟩
  | failed he => simp [ptyRead, he] at hok

/-- In every run: where every child has got to its program, a read of the master that
does not fail is the end exactly if the output is used up, the process has dropped the
slave and is at no call that holds it, and no program that was started on this pty, or
forked by one, has it open. Other ptys and their programs have no say in it. -/
theorem reader_ends_iff {others : Files} (hplain : Plain others) {as : List (Act N)}
    (h : run (step true) (start others) as = some t)
    (hg : Along (step true) Guarded (start others) as)
    (hstarted : ∀ p ∈ t.children, p.started = true) {pty : Nat} {output bytes : List UInt8}
    {answer : Except Errno (List UInt8)}
    (hread : MasterRead (¬ t.HasOpen (.slave pty)) output answer) (hok : ptyRead answer = .ok bytes) :
    bytes = [] ↔ output = [] ∧ (∀ o ∈ t.objects, o.has (.slave pty) = false) ∧
      ∀ files, .program pty files ∈ t.children → ∀ fd, files fd ≠ some (.slave pty) := by
  rw [ptyRead_end hread hok, hasOpen_iff (sound_run hplain h hg) hstarted rfl, not_or]
  simp only [true_and, not_exists, not_and, Bool.not_eq_true, ne_eq]

/-- In every run: where every child has got to its program, nobody has the master open, so
that the kernel hangs up the programs of the pty, exactly if the process has dropped the
master with its readers and its writer. No program keeps it open. -/
theorem hung_up_iff {others : Files} (hplain : Plain others) {as : List (Act N)}
    (h : run (step true) (start others) as = some t)
    (hg : Along (step true) Guarded (start others) as)
    (hstarted : ∀ p ∈ t.children, p.started = true) (pty : Nat) :
    ¬ t.HasOpen (.master pty) ↔ ∀ o ∈ t.objects, o.has (.master pty) = false := by
  rw [hasOpen_iff (sound_run hplain h hg) hstarted rfl, not_or]
  simp only [reduceCtorEq, false_and, not_false_eq_true, and_true, not_exists, not_and,
    Bool.not_eq_true]

/-- The program has ended and the slave is dropped. -/
def ended : List (Act TreeFs.Node) := startProgram linux [] ++ [.exit 0, .drop 2]

/-- The master and its reader are dropped, and the program goes on. -/
def dropped : List (Act TreeFs.Node) := startProgram linux [] ++ [.drop 0, .drop 0]

theorem ended_run : ∃ t, run (step true) (start parent) ended = some t ∧ 0 < t.ptys ∧
    t.children = [.gone] ∧ ¬ t.HasOpen (.slave 0) := by
  obtain ⟨t, ht, hptys, hobjects, hchildren⟩ : ∃ t, run (step true) (start parent) ended = some t ∧
      t.ptys = 1 ∧ t.objects = [.reader 0 5, .master 0 { fd := 3, tookWriter := false }] ∧
      t.children = [.gone] := ⟨_, rfl, rfl, rfl, rfl⟩
  refine ⟨t, ht, by omega, hchildren, ?_⟩
  have hsound := sound_run plain_parent ht (by decide)
  rw [hasOpen_iff hsound (by simp [hchildren, Proc.started]) rfl]
  simp [hobjects, hchildren, Object.has, Object.holds]

theorem ended_reader_ends : ∃ t, run (step true) (start parent) ended = some t ∧
    ∀ o ∈ t.objects, o.has (.slave 0) = false := by
  obtain ⟨t, ht, -, hchildren, hclosed⟩ := ended_run
  have hstarted : ∀ p ∈ t.children, p.started = true := by simp [hchildren, Proc.started]
  have hread : MasterRead (¬ t.HasOpen (.slave 0)) [] (.error EIO) := .hangup rfl hclosed
  have hends := reader_ends_iff plain_parent ht (by decide) hstarted hread rfl
  exact ⟨t, ht, (hends.mp rfl).2.1⟩

theorem dropped_hung_up : ∃ t, run (step true) (start parent) dropped = some t ∧
    ¬ t.HasOpen (.master 0) := by
  obtain ⟨t, ht, hobjects, files, hchildren⟩ : ∃ t,
      run (step true) (start parent) dropped = some t ∧ t.objects = [.slave 0 4] ∧
        ∃ files, t.children = [.program 0 files] := ⟨_, rfl, rfl, _, rfl⟩
  have hstarted : ∀ p ∈ t.children, p.started = true := by simp [hchildren, Proc.started]
  exact ⟨t, ht, (hung_up_iff plain_parent ht (by decide) hstarted 0).mpr (by rw [hobjects]; decide)⟩

/-! The end stays the end. -/

/-- The child has the file open, or its setup is about to. -/
def Proc.MayHave (f : File) : Proc → Prop
  | .setup pty files _ _ _ => .slave pty = f ∨ ∃ fd d, files fd = some d ∧ d.file = f
  | .program _ files => ∃ fd, files fd = some f
  | .gone => False

theorem file_of_childFiles {pty : Nat} {files : Files} {fds : FdTable} {fd : RawFd} {f : File}
    (hf : f ≠ .other) (h : childFiles pty files fds fd = some f) :
    .slave pty = f ∨ ∃ fd d, files fd = some d ∧ d.file = f := by
  unfold childFiles at h
  split at h
  · cases h
  · exact .inl (Option.some.inj h)
  · cases h
    exact absurd rfl hf
  · obtain ⟨d, hd, hfile⟩ := Option.map_eq_some_iff.mp h
    exact .inr ⟨fd, d, hd, hfile⟩

theorem mayHave_next {f : File} (hf : f ≠ .other) {p p' : Proc} (h : p.next = some p')
    (hp : p'.MayHave f) : p.MayHave f := by
  obtain ⟨pty', files, m, past, step, rest, rfl, rfl | ⟨-, -, rfl⟩ | ⟨-, rfl⟩⟩ := next_cases h
  · exact hp.elim
  · obtain ⟨fd, hfd⟩ := hp
    exact file_of_childFiles hf hfd
  · exact hp

/-- Nobody has the end of an old pty open, and no child is about to. -/
structure State.Quiet (s : State) (f : File) : Prop where
  old : ∃ pty < s.ptys, f.pty? = some pty
  parent : ∀ fd d, s.files fd = some d → d.file ≠ f
  children : ∀ p ∈ s.children, ¬ p.MayHave f

theorem quiet_step {f : File} {a : Act N} (h : Stepped dup s a t) (hs : s.Quiet f) : t.Quiet f := by
  obtain ⟨pty, hold, hf⟩ := hs.old
  have hother : f ≠ .other := by
    rintro rfl
    cases hf
  refine ⟨⟨pty, Nat.lt_of_lt_of_le hold h.ptys, hf⟩, ?_, ?_⟩
  · intro fd d hd hfile
    -- a descriptor for the file is a copy of one, or it is an end of a new pty
    rcases h.moves.entry hd with hbefore | hno | ⟨d', hd', hsame⟩ | ⟨-, hnew⟩
    · exact hs.parent fd d hbefore hfile
    · exact hother (hfile.symm.trans hno)
    · exact hs.parent fd d' hd' (hsame.trans hfile)
    · rcases hnew with hmaster | hslave | ⟨fd', d', hd', hsame⟩
      · rw [← hfile, hmaster] at hf
        exact Nat.ne_of_gt hold (Option.some.inj hf)
      · rw [← hfile, hslave] at hf
        exact Nat.ne_of_gt hold (Option.some.inj hf)
      · exact hs.parent fd' d' hd' (hsame.trans hfile)
  · intro p hp
    cases h.children p hp with
    | before hmem => exact hs.children p hmem
    | forked _ hslave hfile =>
      intro hmay
      rcases hmay with hown | ⟨fd, d, hd, hsame⟩
      · exact hs.parent _ _ hslave (hfile.trans hown)
      · exact hs.parent fd d hd hsame
    | stepped hmem hnext => exact fun hmay => hs.children _ hmem (mayHave_next hother hnext hmay)
    | called hmem hfiles =>
      intro hmay
      obtain ⟨fd, hfd⟩ := hmay
      rcases hfiles fd _ hfd with hno | ⟨fd', hfd'⟩
      · exact hother hno
      · exact hs.children _ hmem ⟨fd', hfd'⟩
    | gone => exact id

theorem quiet_of_closed {f : File} (hstarted : ∀ p ∈ s.children, p.started = true)
    (hold : ∃ pty < s.ptys, f.pty? = some pty) (h : ¬ s.HasOpen f) : s.Quiet f := by
  refine ⟨hold, fun fd d hd hfile => h (.inl ⟨fd, d, hd, hfile⟩), ?_⟩
  intro p hp hmay
  cases p with
  | setup pty' files m past rest => cases hstarted _ hp
  | program pty' files => exact h (.inr ⟨_, hp, hmay⟩)
  | gone => exact hmay

theorem closed_of_quiet {f : File} (h : s.Quiet f) : ¬ s.HasOpen f := by
  intro hopen
  rcases hopen with ⟨fd, d, hd, hfile⟩ | ⟨p, hp, fd, hfd⟩
  · exact h.parent fd d hd hfile
  · refine h.children p hp ?_
    cases p with
    | setup pty files m past rest =>
      refine file_of_childFiles ?_ hfd
      obtain ⟨pty', -, hf⟩ := h.old
      rintro rfl
      cases hf
    | program pty files => exact ⟨fd, hfd⟩
    | gone => cases hfd

/-- Once nobody has an end of a pty open, nobody ever has again, unless the slave is opened
by its name: a reader that has ended and programs that are hung up remain so. -/
theorem closed_stable {others : Files} {as bs : List (Act N)}
    (h : run (step dup) (start others) as = some s) {f : File} {pty : Nat} (hf : f.pty? = some pty)
    (hold : pty < s.ptys) (hstarted : ∀ p ∈ s.children, p.started = true) (hclosed : ¬ s.HasOpen f)
    (h' : run (step dup) s bs = some t) : ¬ t.HasOpen f := by
  have keep : ∀ (s : State) (a : Act N) (t : State),
      ((s.books dup).Balanced ∧ s.Quiet f) → step dup s a = some t →
        (t.books dup).Balanced ∧ t.Quiet f :=
    fun s a t hs hstep =>
      ⟨balanced_step s a t hs.1 hstep, quiet_step (stepped hstep hs.1) hs.2⟩
  have hquiet := quiet_of_closed hstarted ⟨pty, hold, hf⟩ hclosed
  exact closed_of_quiet (run_keeps keep bs ⟨balanced_run h, hquiet⟩ h').2

/-- The next pty does not bring it back. -/
theorem ended_stays_closed : ∃ s t, run (step true) (start parent) ended = some s ∧
    run (step true) s [(.openpty (.ok (4, 6)) : Act TreeFs.Node)] = some t ∧
      ¬ t.HasOpen (.slave 0) := by
  obtain ⟨s, hs, hptys, hchildren, hclosed⟩ := ended_run
  have hstarted : ∀ p ∈ s.children, p.started = true := by simp [hchildren, Proc.started]
  obtain ⟨t, ht⟩ : ∃ t, run (step true) (start parent) (ended ++ [.openpty (.ok (4, 6))]) = some t :=
    ⟨_, rfl⟩
  obtain ⟨s', hs', hnext⟩ := run_append_eq_some.mp ht
  rw [hs, Option.some.injEq] at hs'
  subst hs'
  exact ⟨s, t, hs, hnext, closed_stable hs rfl hptys hstarted hclosed hnext⟩

end Xpty.UnixSession
