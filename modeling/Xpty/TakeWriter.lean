import Xpty.Common
import Xpty.OneShot

/- `MasterPty::take_writer` of the three masters. Each keeps "taken" in its own
   way: `UnixMasterPty` sets a flag and then duplicates its descriptor, the serial
   `Master` sets a flag and clones an `Arc`, and `ConPtyMasterPty` empties an
   `Option`. The attempts of a run are given by how the descriptor duplication of
   each would go; only the Unix master makes one.

   The serial and the ConPTY master hand out the writer exactly once. The Unix
   master sets its flag before the step that can fail, so a failed duplication
   leaves it refusing for ever: `unix_handsOutOnce_iff`. -/
namespace Xpty.TakeWriter

/-- `FileDescriptor::try_clone`: a new descriptor, or the message of the
`filedescriptor::Error` that `From` turns into `Error::Other`. -/
abbrev TryClone (S : Type) := Except (Message S) RawFd

/-- `UnixMasterPty`, less the tty name. -/
structure UnixMasterPty where
  fd : RawFd
  tookWriter : Bool

structure UnixMasterWriter where
  fd : RawFd

def UnixMasterPty.takeWriter {S : Type} (m : UnixMasterPty) (tryClone : TryClone S) :
    Except (Error S) UnixMasterWriter × UnixMasterPty :=
  if m.tookWriter then (.error .writerAlreadyTaken, m)
  else
    let m := { m with tookWriter := true }
    match tryClone with
    | .error msg => (.error (.other msg), m)
    | .ok fd => (.ok { fd }, m)

/-- The serial `Master`; `Port` is the shared `SerialPort`. -/
structure Master (Port : Type) where
  port : Port
  tookWriter : Bool

structure MasterWriter (Port : Type) where
  port : Port

def Master.takeWriter {S Port : Type} (m : Master Port) (_ : TryClone S) :
    Except (Error S) (MasterWriter Port) × Master Port :=
  if m.tookWriter then (.error .writerAlreadyTaken, m)
  else (.ok { port := m.port }, { m with tookWriter := true })

/-- `ConPtyMasterPty`, the `writable` end of its `Inner`. -/
structure ConPtyMasterPty where
  writable : Option RawFd

def ConPtyMasterPty.takeWriter {S : Type} (m : ConPtyMasterPty) (_ : TryClone S) :
    Except (Error S) RawFd × ConPtyMasterPty :=
  match m.writable with
  | none => (.error .writerAlreadyTaken, m)
  | some fd => (.ok fd, { m with writable := none })

open OneShot

variable {S Port : Type}

theorem master_discipline : Discipline (@Master.takeWriter S Port) (fun _ => true)
    .writerAlreadyTaken (fun m => !m.tookWriter) where
  refuses m d h := by simp_all [Master.takeWriter]
  hands m d h _ := by simp_all [Master.takeWriter]
  keeps m d _ h := by cases h

theorem conPty_discipline : Discipline (ConPtyMasterPty.takeWriter (S := S)) (fun _ => true)
    .writerAlreadyTaken (fun m => m.writable.isSome) where
  refuses m d h := by simp_all [ConPtyMasterPty.takeWriter]
  hands m d h _ := by
    obtain ⟨fd, hfd⟩ := Option.isSome_iff_exists.mp h
    simp [ConPtyMasterPty.takeWriter, hfd]
  keeps m d _ h := by cases h

/-- Once the flag is set, every later call is refused. -/
theorem unix_calls_taken {ds : List (TryClone S)} {m : UnixMasterPty} (hm : m.tookWriter = true) :
    ∀ c ∈ calls UnixMasterPty.takeWriter m ds, c.result = .error .writerAlreadyTaken := by
  induction ds with
  | nil =>
    intro c hc
    cases hc
  | cons d ds ih =>
    have hd : m.takeWriter d = (.error .writerAlreadyTaken, m) := by
      simp [UnixMasterPty.takeWriter, hm]
    intro c hc
    simp only [calls, hd, List.mem_cons] at hc
    rcases hc with rfl | hc
    · rfl
    · exact ih c hc

/-- The first call decides: if its duplication succeeds the writer is handed out
once, and if it fails the flag is set all the same. -/
theorem unix_handsOutOnce_iff {m : UnixMasterPty} (hm : m.tookWriter = false)
    {ds : List (TryClone S)} : HandsOutOnce UnixMasterPty.takeWriter Except.isOk .writerAlreadyTaken
      (calls UnixMasterPty.takeWriter m ds) ↔ ∀ d, ds.head? = some d → d.isOk = true := by
  cases ds with
  | nil => refine iff_of_true ⟨.nil, ?_, ?_, ?_⟩ ?_ <;> simp [calls]
  | cons d ds =>
    cases d with
    | error msg =>
      refine iff_of_false (fun h => ?_) (fun h => by cases h _ rfl)
      have hkept := h.unchanged _ List.mem_cons_self (.other msg)
        (by simp [UnixMasterPty.takeWriter, hm]) (by simp)
      have hflag : true = m.tookWriter := by
        simpa [UnixMasterPty.takeWriter, hm] using congrArg UnixMasterPty.tookWriter hkept
      rw [hm] at hflag
      cases hflag
    | ok fd =>
      refine iff_of_true ?_ (fun d hd => Option.some.inj hd ▸ rfl)
      have hd : m.takeWriter (.ok fd : TryClone S) = (.ok { fd }, { m with tookWriter := true }) := by
        simp [UnixMasterPty.takeWriter, hm]
      rw [calls, hd]
      exact handsOutOnce_of_first rfl (unix_calls_taken rfl)

/-- The masters as `openpty` builds them, over every sequence of calls: the serial
and the ConPTY master hand out their writer once, and the Unix master does exactly
when the first call's descriptor duplication does not fail. -/
theorem take_writer_once (fd : RawFd) (port : Port) (ds : List (TryClone S)) :
    (HandsOutOnce UnixMasterPty.takeWriter Except.isOk .writerAlreadyTaken
        (calls UnixMasterPty.takeWriter { fd, tookWriter := false } ds) ↔
      ∀ d, ds.head? = some d → d.isOk = true) ∧
    HandsOutOnce Master.takeWriter (fun _ => true) .writerAlreadyTaken
      (calls Master.takeWriter { port, tookWriter := false } ds) ∧
    HandsOutOnce ConPtyMasterPty.takeWriter (fun _ => true) .writerAlreadyTaken
      (calls ConPtyMasterPty.takeWriter { writable := some fd } ds) :=
  ⟨unix_handsOutOnce_iff rfl, master_discipline.handsOutOnce rfl ds,
    conPty_discipline.handsOutOnce rfl ds⟩

/-- A failed duplication and a second try: the second call says that the writer
was taken, although no call returned it. -/
def failThenRetry : List (TryClone Unit) := [.error [.text "Too many open files"], .ok 7]

theorem unix_failed_take_costs_the_writer : ¬ ∀ (fd : RawFd) (ds : List (TryClone Unit)),
    HandsOutOnce UnixMasterPty.takeWriter Except.isOk .writerAlreadyTaken
      (calls UnixMasterPty.takeWriter { fd, tookWriter := false } ds) := by
  intro h
  have hgone := ((h 5 failThenRetry).gone_iff [_] _ [] rfl).mp rfl
  exact absurd hgone (by simp [Except.isOk, Except.toBool, UnixMasterPty.takeWriter])

end Xpty.TakeWriter
