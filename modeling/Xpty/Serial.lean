import Xpty.BuilderHistory
import Xpty.Rounds

/- Serial ports as ptys (`serial.rs`). `SerialTty` keeps what its setters were given, and
   `openpty` leaves the port configured with it: `configured`. `Reader::read` asks again
   where there is nothing to read yet, and reports the end of the port as an error on
   Unix: `read_iff`. A slave spawns nothing but the default program: `spawn_ok_iff`. -/
namespace Xpty.Serial

/-! The configuration. -/

structure Config (C P B F : Type) where
  baud : UInt32
  charSize : C
  parity : P
  stopBits : B
  flowControl : F

structure SerialTty (S C P B F : Type) extends Config C P B F where
  port : S

/-- What `serial2` does; `Q` is an open port in its present state, and `T` its type of settings. -/
structure Driver (S Q T C P B F : Type) where
  openPort : S → UInt32 → Except Errno Q
  getConfiguration : Q → Except Errno T
  setRaw : T → T
  setBaudRate : UInt32 → T → Except Errno T
  setCharSize : C → T → T
  setFlowControl : F → T → T
  setParity : P → T → T
  setStopBits : B → T → T
  setConfiguration : T → Q → Except Errno Q
  setReadTimeout : Nat → Q → Except Errno Q
  setWriteTimeout : Nat → Q → Except Errno Q

variable {S Q T C P B F : Type}

/-- `SerialTty::new`, with 8 bits, no parity, one stop bit and XON/XOFF. -/
def SerialTty.new (bits8 : C) (noParity : P) (oneStop : B) (xonXoff : F) (port : S) :
    SerialTty S C P B F :=
  { port, baud := 9600, charSize := bits8, parity := noParity, stopBits := oneStop,
    flowControl := xonXoff }

/-- A call of a setter. -/
inductive Setting (C P B F : Type) where
  | baudRate (baud : UInt32)
  | charSize (charSize : C)
  | parity (parity : P)
  | stopBits (stopBits : B)
  | flowControl (flowControl : F)

def Setting.apply (tty : SerialTty S C P B F) : Setting C P B F → SerialTty S C P B F
  | .baudRate x => { tty with baud := x }
  | .charSize x => { tty with charSize := x }
  | .parity x => { tty with parity := x }
  | .stopBits x => { tty with stopBits := x }
  | .flowControl x => { tty with flowControl := x }

/-- `openpty`, up to the port that both ends share; it is closed where a call fails. -/
def openpty (d : Driver S Q T C P B F) (tty : SerialTty S C P B F) : Except (Error S) Q := do
  let port ← (d.openPort tty.port tty.baud).mapError fun e =>
    .other [.text "openpty on serial port ", .debug tty.port, .text ": ", .errno e]
  let settings ← (d.getConfiguration port).mapError .io
  let settings := d.setRaw settings
  let settings ← (d.setBaudRate tty.baud settings).mapError .io
  let settings := d.setCharSize tty.charSize settings
  let settings := d.setFlowControl tty.flowControl settings
  let settings := d.setParity tty.parity settings
  let settings := d.setStopBits tty.stopBits settings
  let port ← (d.setConfiguration settings port).mapError .io
  let port ← (d.setReadTimeout 50 port).mapError .io
  let port ← (d.setWriteTimeout 50 port).mapError .io
  .ok port

/-- How a port works: with its parameters, and waiting for so many milliseconds. -/
structure Setup (C P B F : Type) extends Config C P B F where
  readTimeout : Nat
  writeTimeout : Nat

/-- Settings show what was set, and a setter changes nothing else that they show; a port works as
it was configured, and waits for as long as it was told to. -/
structure Shows (d : Driver S Q T C P B F) (view : T → Config C P B F) (setup : Q → Setup C P B F) :
    Prop where
  baud : ∀ {x s t}, d.setBaudRate x s = .ok t → view t = { view s with baud := x }
  charSize : ∀ x s, view (d.setCharSize x s) = { view s with charSize := x }
  flowControl : ∀ x s, view (d.setFlowControl x s) = { view s with flowControl := x }
  parity : ∀ x s, view (d.setParity x s) = { view s with parity := x }
  stopBits : ∀ x s, view (d.setStopBits x s) = { view s with stopBits := x }
  configuration : ∀ {s q r}, d.setConfiguration s q = .ok r →
    setup r = { setup q with toConfig := view s }
  readTimeout : ∀ {n q r}, d.setReadTimeout n q = .ok r → setup r = { setup q with readTimeout := n }
  writeTimeout : ∀ {n q r}, d.setWriteTimeout n q = .ok r → setup r = { setup q with writeTimeout := n }

/-! What the calls set. -/

namespace Setting

def baud : Setting C P B F → Option UInt32
  | .baudRate x => some x
  | _ => none

def charSizeOf : Setting C P B F → Option C
  | .charSize x => some x
  | _ => none

def parityOf : Setting C P B F → Option P
  | .parity x => some x
  | _ => none

def stopBitsOf : Setting C P B F → Option B
  | .stopBits x => some x
  | _ => none

def flowControlOf : Setting C P B F → Option F
  | .flowControl x => some x
  | _ => none

end Setting

/-- Each parameter as set last. -/
def lastSet (new : Config C P B F) (calls : List (Setting C P B F)) : Config C P B F where
  baud := (calls.filterMap Setting.baud).getLast?.getD new.baud
  charSize := (calls.filterMap Setting.charSizeOf).getLast?.getD new.charSize
  parity := (calls.filterMap Setting.parityOf).getLast?.getD new.parity
  stopBits := (calls.filterMap Setting.stopBitsOf).getLast?.getD new.stopBits
  flowControl := (calls.filterMap Setting.flowControlOf).getLast?.getD new.flowControl

theorem set_run (calls : List (Setting C P B F)) (tty : SerialTty S C P B F) :
    (calls.foldl Setting.apply tty).toConfig = lastSet tty.toConfig calls := by
  have hbaud := @Cell.register _ _ _ Setting.apply (fun tty : SerialTty S C P B F => tty.baud)
    Setting.baud (fun _ x => by cases x <;> rfl) calls tty
  have hcharSize := @Cell.register _ _ _ Setting.apply (fun tty : SerialTty S C P B F => tty.charSize)
    Setting.charSizeOf (fun _ x => by cases x <;> rfl) calls tty
  have hparity := @Cell.register _ _ _ Setting.apply (fun tty : SerialTty S C P B F => tty.parity)
    Setting.parityOf (fun _ x => by cases x <;> rfl) calls tty
  have hstopBits := @Cell.register _ _ _ Setting.apply (fun tty : SerialTty S C P B F => tty.stopBits)
    Setting.stopBitsOf (fun _ x => by cases x <;> rfl) calls tty
  have hflowControl := @Cell.register _ _ _ Setting.apply
    (fun tty : SerialTty S C P B F => tty.flowControl)
    Setting.flowControlOf (fun _ x => by cases x <;> rfl) calls tty
  rw [lastSet, ← hbaud, ← hcharSize, ← hparity, ← hstopBits, ← hflowControl]

theorem mapError_ok {E E' α : Type} {f : E → E'} {x : Except E α} {a : α} :
    x.mapError f = .ok a ↔ x = .ok a := by
  cases x <;> simp [Except.mapError]

theorem bind_ok {E α β : Type} {x : Except E α} {f : α → Except E β} {b : β} :
    (x >>= f) = .ok b ↔ ∃ a, x = .ok a ∧ f a = .ok b := by
  cases x <;> simp [bind, Except.bind]

theorem setup_openpty {d : Driver S Q T C P B F} {view : T → Config C P B F}
    {setup : Q → Setup C P B F} (hd : Shows d view setup) {tty : SerialTty S C P B F} {port : Q}
    (h : openpty d tty = .ok port) :
    setup port = { toConfig := tty.toConfig, readTimeout := 50, writeTimeout := 50 } := by
  simp only [openpty, bind_ok, mapError_ok] at h
  obtain ⟨_, -, _, -, _, hbaud, _, hconfig, _, hread, _, hwrite, hlast⟩ := h
  cases hlast
  rw [hd.writeTimeout hwrite, hd.readTimeout hread, hd.configuration hconfig, hd.stopBits,
    hd.parity, hd.flowControl, hd.charSize, hd.baud hbaud]

/-- However the port was set up before: after `openpty` it has each parameter as the setters
were called last, and 9600 baud and the other defaults where they were not, and it waits for 50
milliseconds either way. -/
theorem configured {d : Driver S Q T C P B F} {view : T → Config C P B F}
    {setup : Q → Setup C P B F} (hd : Shows d view setup) (bits8 : C) (noParity : P) (oneStop : B)
    (xonXoff : F) (name : S) (calls : List (Setting C P B F)) {port : Q}
    (h : openpty d (calls.foldl Setting.apply (.new bits8 noParity oneStop xonXoff name)) =
      .ok port) :
    setup port = { toConfig := lastSet ⟨9600, bits8, noParity, oneStop, xonXoff⟩ calls
                   readTimeout := 50, writeTimeout := 50 } := by
  rw [setup_openpty hd h, set_run]
  rfl

/-- Ports as records, set up for another use when they are opened. -/
def otherwise : Driver Unit (Setup Nat Nat Nat Nat) (Config Nat Nat Nat Nat) Nat Nat Nat Nat where
  openPort _ baud := .ok { baud, charSize := 7, parity := 2, stopBits := 2, flowControl := 0,
                           readTimeout := 0, writeTimeout := 0 }
  getConfiguration q := .ok q.toConfig
  setRaw s := { s with charSize := 8, parity := 0 }
  setBaudRate x s := .ok { s with baud := x }
  setCharSize x s := { s with charSize := x }
  setFlowControl x s := { s with flowControl := x }
  setParity x s := { s with parity := x }
  setStopBits x s := { s with stopBits := x }
  setConfiguration s q := .ok { q with toConfig := s }
  setReadTimeout n q := .ok { q with readTimeout := n }
  setWriteTimeout n q := .ok { q with writeTimeout := n }

theorem otherwise_shows : Shows otherwise id id := by
  refine ⟨?_, fun _ _ => rfl, fun _ _ => rfl, fun _ _ => rfl, fun _ _ => rfl, ?_, ?_, ?_⟩
  · intro x s t h
    cases h
    rfl
  · intro s q r h
    cases h
    rfl
  · intro n q r h
    cases h
    rfl
  · intro n q r h
    cases h
    rfl

/-- The last baud rate counts, the parity is the default and the character size was set. -/
theorem configured_otherwise :
    ∃ port, openpty otherwise ([.baudRate 38400, .charSize 7, .baudRate 115200].foldl
      Setting.apply (.new 8 0 1 1 ())) = .ok port ∧
        port = { baud := 115200, charSize := 7, parity := 0, stopBits := 1, flowControl := 1
                 readTimeout := 50, writeTimeout := 50 } :=
  ⟨_, rfl, configured otherwise_shows 8 0 1 1 () [.baudRate 38400, .charSize 7, .baudRate 115200] rfl⟩

/-! The reader. -/

/-- What a read of the descriptor says when it fails; the end of the port is reported by
the library. -/
inductive ReadError where
  | wouldBlock
  | unexpectedEof
  | other (e : Errno)
  deriving DecidableEq

/-- What `Reader::read` makes of one read: it asks again, or returns. The `poll` before it
has no say. -/
def readRound (windows : Bool) : Except ReadError Nat → Option (Except ReadError Nat)
  | .ok 0 => if windows then none else some (.error .unexpectedEof)
  | .ok size => some (.ok size)
  | .error .wouldBlock => none
  | .error e => some (.error e)

/-- `Reader::read`, within a number of rounds; `reads` is what the descriptor says. -/
def read (windows : Bool) (reads : Nat → Except ReadError Nat) (rounds : Nat) :
    Option (Except ReadError Nat) :=
  (Rounds.run (Rounds.ask fun n => readRound windows (reads n)) rounds 0).map Prod.snd

/-- A read that is answered with another one. -/
def Again (windows : Bool) (r : Except ReadError Nat) : Prop :=
  r = .error .wouldBlock ∨ windows = true ∧ r = .ok 0

theorem readRound_none {windows : Bool} {r : Except ReadError Nat} :
    readRound windows r = none ↔ Again windows r := by
  unfold readRound
  split
  · cases windows <;> simp [Again]
  · rename_i size hsize
    simp only [Again, reduceCtorEq, false_or, Except.ok.injEq, false_iff, not_and]
    exact fun _ => hsize
  · simp [Again]
  · rename_i e he
    simp only [Again, reduceCtorEq, and_false, or_false, Except.error.injEq, false_iff]
    exact he

theorem readRound_some {windows : Bool} {r x : Except ReadError Nat} :
    readRound windows r = some x ↔
      ¬ Again windows r ∧ x = if r = .ok 0 then .error .unexpectedEof else r := by
  rw [← readRound_none]
  unfold readRound
  split
  · cases windows <;> simp [eq_comm]
  · rename_i size hsize
    have hne : (.ok size : Except ReadError Nat) ≠ .ok 0 := fun h => hsize (Except.ok.inj h)
    simp [hne, eq_comm]
  · simp
  · simp [eq_comm]

theorem run_read (windows : Bool) (reads : Nat → Except ReadError Nat) (r : Except ReadError Nat)
    (rounds : Nat) : read windows reads rounds = some r ↔
      ∃ k < rounds, readRound windows (reads k) = some r ∧
        ∀ j < k, readRound windows (reads j) = none := by
  have hask := @Rounds.run_ask _ (fun n => readRound windows (reads n)) r rounds 0
  simp only [Nat.zero_add] at hask
  rw [← hask, read, Option.map_eq_some_iff]
  refine ⟨?_, ?_⟩
  · intro h
    obtain ⟨⟨visited, r'⟩, hrun, rfl⟩ := h
    exact ⟨visited, hrun⟩
  · intro h
    obtain ⟨visited, hrun⟩ := h
    exact ⟨_, hrun, rfl⟩

/-- What `read` returns is what the first read says that is not answered with another,
but that the end of the port is an error on Unix: an empty buffer is never returned. It
does not return exactly while every read is answered with another. -/
theorem read_iff (windows : Bool) (reads : Nat → Except ReadError Nat) :
    (∀ r, (∃ rounds, read windows reads rounds = some r) ↔
      ∃ k, (∀ j < k, Again windows (reads j)) ∧ ¬ Again windows (reads k) ∧
        r = if reads k = .ok 0 then .error .unexpectedEof else reads k) ∧
    ((∀ rounds, read windows reads rounds = none) ↔ ∀ k, Again windows (reads k)) := by
  have hreturns : ∀ r, (∃ rounds, read windows reads rounds = some r) ↔
      ∃ k, readRound windows (reads k) = some r ∧ ∀ j < k, readRound windows (reads j) = none := by
    intro r
    simp only [run_read]
    refine ⟨?_, ?_⟩
    · intro h
      obtain ⟨rounds, k, -, hk⟩ := h
      exact ⟨k, hk⟩
    · intro h
      obtain ⟨k, hk⟩ := h
      exact ⟨k + 1, k, Nat.lt_succ_self k, hk⟩
  refine ⟨fun r => ?_, ?_, ?_⟩
  · simp only [hreturns, readRound_some, readRound_none]
    refine ⟨?_, ?_⟩
    · intro h
      obtain ⟨k, hk, hbefore⟩ := h
      exact ⟨k, hbefore, hk⟩
    · intro h
      obtain ⟨k, hbefore, hk⟩ := h
      exact ⟨k, hk, hbefore⟩
  · -- the first read that is not answered with another would be returned
    intro h k
    induction k using Nat.strongRecOn with
    | ind k ih =>
      rw [← readRound_none]
      cases hk : readRound windows (reads k) with
      | none => rfl
      | some r =>
        have hbefore : ∀ j < k, readRound windows (reads j) = none :=
          fun j hj => readRound_none.mpr (ih j hj)
        obtain ⟨rounds, hr⟩ := (hreturns r).mpr ⟨k, hk, hbefore⟩
        rw [h rounds] at hr
        cases hr
  · intro h rounds
    rw [Option.eq_none_iff_forall_ne_some]
    intro r hr
    obtain ⟨k, hk, -⟩ := (hreturns r).mp ⟨rounds, hr⟩
    rw [readRound_none.mpr (h k)] at hk
    cases hk

/-! The slave. -/

section
open BuilderHistory

variable {S U X W : Type} [OsStr S]

/-- `spawn_command` of a slave. -/
def spawnCommand (b : CommandBuilder S U) : Except (Error S) Unit :=
  if !b.isDefaultProg then
    .error (.other [.text "can only use default prog commands with serial tty implementations"])
  else .ok ()

/-- In any run of a process, a slave takes a builder exactly if its constructor, or the last
edit of its arguments, left it without a program and no `replace_default_prog` gave it one since. -/
theorem spawn_ok_iff [DecidableEq S] {P : Platform S U X W} {now : W} {as : List (Act S X W)}
    {i : Nat} {b : CommandBuilder S U} {h : History S X} (hb : (builders P now as)[i]? = some b)
    (hh : (histories as)[i]? = some h) :
    spawnCommand b = .ok () ↔ (h.deeds.filterMap Deed.edited).getLast?.getD h.start.args = [] ∧
      ∀ d ∈ h.deeds.rtakeWhile fun d => d.edited.isNone, d.program = [] := by
  obtain ⟨now', -, rfl⟩ := replay_of_getElem? hb hh
  rw [← argv_eq_nil_iff]
  show _ ↔ h.args = []
  rw [← (fromHistory_replay (P := P) now' h).args, spawnCommand,
    CommandBuilder.isDefaultProg]
  cases (h.replay P (P.getBaseEnv now')).args <;> simp

end

end Xpty.Serial
