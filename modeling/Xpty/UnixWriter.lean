import Xpty.Common
import Xpty.LineDiscipline

/- `UnixMasterWriter`, the writing end of a Unix pty. Dropping it sends a newline and the
   end-of-file character of the terminal, unless that character is 0.

   The two are the end of the file in canonical mode and input in any other, and 0 is
   disabled as a character on Linux only: `drop_delivers_iff` says in which states of the
   terminal the drop delivers what it should. -/
namespace Xpty.UnixWriter

open LineDiscipline

def NL : UInt8 := 0x0A

/-- `libc::termios`, as far as the drop and the terminal look at it. -/
structure Termios where
  /-- `ICANON`. -/
  icanon : Bool
  /-- `c_cc[VEOF]`. -/
  veof : UInt8
  deriving DecidableEq, Repr

/-- What `UnixMasterWriter::drop` writes. -/
def drop (tcgetattr : Except Errno Termios) : List UInt8 :=
  match tcgetattr with
  | .ok t =>
    let eot := t.veof
    if eot ≠ 0 then [NL, eot] else []
  | .error _ => []

/-! The terminal. -/

/-- What happens to a terminal: bytes that a write of the writer has passed on, or a change of
its settings by the child or anybody else. -/
inductive Action where
  | write (buf : List UInt8)
  | tcsetattr (t : Termios)

section
variable (vdisable : UInt8)

/-- The mode that the settings stand for; `vdisable` turns a character off. -/
def Termios.mode (t : Termios) : Mode UInt8 :=
  { canonical := t.icanon, eof := if t.veof = vdisable then none else some t.veof }

/-- A terminal and its settings. -/
structure Pty where
  termios : Termios
  tty : Tty UInt8
  mode_eq : tty.mode = termios.mode vdisable

def Pty.new (t : Termios) : Pty vdisable := { termios := t, tty := .start (t.mode vdisable), mode_eq := rfl }

variable {vdisable}

theorem mode_setMode (tty : Tty UInt8) (mode : Mode UInt8) : (tty.setMode mode).mode = mode := by
  rw [Tty.setMode]
  split <;> rfl

def Pty.receiveAll (pty : Pty vdisable) (input : List UInt8) : Pty vdisable :=
  { pty with tty := pty.tty.receiveAll NL input, mode_eq := by rw [Tty.mode_receiveAll, pty.mode_eq] }

def Pty.step (pty : Pty vdisable) : Action → Pty vdisable
  | .write buf => pty.receiveAll buf
  | .tcsetattr t =>
    { termios := t, tty := pty.tty.setMode (t.mode vdisable), mode_eq := mode_setMode _ _ }

def written (actions : List Action) : List UInt8 :=
  actions.flatMap fun action =>
    match action with
    | .write buf => buf
    | .tcsetattr _ => []

/-- Nothing that is written is the end-of-file character of a canonical terminal. -/
def Plain (vdisable : UInt8) : Termios → List Action → Prop
  | _, [] => True
  | t, .write buf :: actions =>
    (∀ c ∈ buf, Tty.Data NL (t.mode vdisable) c) ∧ Plain vdisable t actions
  | _, .tcsetattr t :: actions => Plain vdisable t actions

/-- The terminal after a run. -/
def Pty.after (pty : Pty vdisable) (actions : List Action) : Pty vdisable := actions.foldl Pty.step pty

/-- What was written is in the terminal as it was written. -/
theorem holds_after {actions : List Action} {pty : Pty vdisable} {received : List UInt8}
    (h : pty.tty.Holds received) (hplain : Plain vdisable pty.termios actions) :
    (pty.after actions).tty.Holds (received ++ written actions) := by
  induction actions generalizing pty received with
  | nil => rwa [written, List.flatMap_nil, List.append_nil]
  | cons action actions ih =>
    rw [Pty.after, List.foldl_cons, written, List.flatMap_cons, ← List.append_assoc]
    cases action with
    | write buf =>
      obtain ⟨hbuf, hplain⟩ := hplain
      refine ih (h.receiveAll ?_) hplain
      rwa [pty.mode_eq]
    | tcsetattr t =>
      rw [List.append_nil]
      exact ih (h.setMode _) hplain

/-! The drop. -/

/-- The terminal takes the end-of-file character for one. -/
def Enabled (vdisable : UInt8) (t : Termios) : Prop := t.icanon = true ∧ t.veof ≠ vdisable

instance (t : Termios) : Decidable (Enabled vdisable t) := inferInstanceAs (Decidable (_ ∧ _))

/-- A reader finds the bytes, at most a newline, and then the end of the file. -/
def EndsFile (tty : Tty UInt8) (bytes : List UInt8) : Prop :=
  (∃ nl, (nl = [] ∨ nl = [NL]) ∧ tty.readable = (bytes ++ nl).map .byte ++ [.eof]) ∧ tty.line = []

/-- What a reader of the terminal should find after the drop: the bytes written and the end of
the file, where this can be sent, and no other byte elsewhere. -/
def Delivers (pty : Pty vdisable) (bytes : List UInt8) : Prop :=
  let tty := (pty.receiveAll (drop (.ok pty.termios))).tty
  if Enabled vdisable pty.termios then EndsFile tty bytes else bytesRead tty.readable <+: bytes

theorem drop_zero {t : Termios} (h : t.veof = 0) : drop (.ok t) = [] := if_neg (by simp [h])

theorem drop_nonzero {t : Termios} (h : t.veof ≠ 0) : drop (.ok t) = [NL, t.veof] := if_pos h

/-- Nothing but the end-of-file character reads as the end of the file. -/
theorem not_endsFile {tty : Tty UInt8} {received bytes : List UInt8} (h : tty.Holds received) :
    ¬ EndsFile tty bytes := by
  intro hd
  obtain ⟨⟨nl, -, hread⟩, -⟩ := hd
  exact h.not_eof (by simp [hread])

theorem endsFile_iff {pty : Pty vdisable} {bytes : List UInt8} (h : pty.tty.Holds bytes)
    (hcanon : pty.tty.mode.canonical = true) (heof : pty.tty.mode.eof = some pty.termios.veof) :
    EndsFile (pty.receiveAll (drop (.ok pty.termios))).tty bytes ↔
      pty.termios.veof ≠ 0 ∧ pty.termios.veof ≠ NL := by
  by_cases h0 : pty.termios.veof = 0
  · rw [drop_zero h0]
    exact iff_of_false (not_endsFile h) (fun hne => hne.1 h0)
  · rw [drop_nonzero h0]
    by_cases hnl : pty.termios.veof = NL
    · -- two newlines, which are data
      have hdata : ∀ c ∈ [NL, pty.termios.veof], Tty.Data NL pty.tty.mode c := by
        intro c hc _ hne
        rw [hnl] at hc
        exact absurd (by simpa using hc) hne
      exact iff_of_false (not_endsFile (h.receiveAll hdata)) (fun hne => hne.2 hnl)
    · obtain ⟨hread, hline⟩ := Tty.readable_newline_eof hcanon heof hnl
      refine iff_of_true ⟨⟨[NL], .inr rfl, ?_⟩, hline⟩ ⟨h0, hnl⟩
      refine hread.trans ?_
      rw [List.map_append, List.map_append, ← h]
      simp only [List.append_assoc]

/-- Where the end of the file cannot be sent, anything that is sent is stray input. -/
theorem stray_iff {pty : Pty vdisable} {bytes : List UInt8} (h : pty.tty.Holds bytes) :
    bytesRead (pty.receiveAll (drop (.ok pty.termios))).tty.readable <+: bytes ↔
      pty.termios.veof = 0 := by
  by_cases h0 : pty.termios.veof = 0
  · rw [drop_zero h0]
    exact iff_of_true ⟨_, h.bytesRead_append⟩ h0
  · rw [drop_nonzero h0]
    refine iff_of_false (fun hprefix => ?_) h0
    have hnewline : (pty.tty.receive NL NL).Holds (bytes ++ [NL]) :=
      h.receive fun _ hne => absurd rfl hne
    have hbytes := hnewline.bytesRead_append
    rw [Tty.line_receive_newline, List.append_nil] at hbytes
    have hmore := Tty.readable_prefix_receive NL (pty.tty.receive NL NL) pty.termios.veof
    have hlonger : bytes ++ [NL] <+: bytes := by
      rw [← hbytes]
      exact (hmore.filterMap _).trans hprefix
    exact absurd hlonger.length_le (by simp)

theorem delivers_iff {pty : Pty vdisable} {bytes : List UInt8} (h : pty.tty.Holds bytes) :
    Delivers pty bytes ↔
      if Enabled vdisable pty.termios then pty.termios.veof ≠ 0 ∧ pty.termios.veof ≠ NL
      else pty.termios.veof = 0 := by
  rw [Delivers]
  split
  · next henabled =>
    obtain ⟨hcanon, hne⟩ := henabled
    refine endsFile_iff h (by rw [pty.mode_eq]; exact hcanon) ?_
    rw [pty.mode_eq]
    exact if_neg hne
  · exact stray_iff h

theorem holds_new (t : Termios) : (Pty.new vdisable t).tty.Holds [] := Tty.holds_start _

/-- After any run in which the bytes written are data, the drop delivers what it should
exactly when the end-of-file character of a canonical terminal is enabled and neither 0 nor
the newline, or else is 0. -/
theorem drop_delivers_iff (vdisable : UInt8) (t : Termios) (actions : List Action)
    (h : Plain vdisable t actions) :
    let pty := (Pty.new vdisable t).after actions
    Delivers pty (written actions) ↔
      if Enabled vdisable pty.termios then pty.termios.veof ≠ 0 ∧ pty.termios.veof ≠ NL
      else pty.termios.veof = 0 :=
  delivers_iff (holds_after (holds_new t) h)

end

/-- Typing `a`, with an end-of-file character among the data of raw mode. -/
def typing : List Action :=
  [.write [0x61], .tcsetattr { icanon := false, veof := 4 }, .write [4],
    .tcsetattr { icanon := true, veof := 4 }, .write [0x61]]

theorem drop_delivers_typing :
    let pty := (Pty.new 0 { icanon := true, veof := 4 }).after typing
    Delivers pty [0x61, 4, 0x61] :=
  (drop_delivers_iff 0 { icanon := true, veof := 4 } typing
    (by simp [typing, Plain, Tty.Data, Termios.mode])).mpr (by decide)

/-- In raw mode the drop delivers a newline and the end-of-file character as data. -/
theorem raw_reads_newline_and_eot :
    let pty := (Pty.new 0 { icanon := false, veof := 4 }).after [.write [0x61]]
    (pty.receiveAll (drop (.ok pty.termios))).tty.readable = [.byte 0x61, .byte NL, .byte 4] ∧
      ¬ Delivers pty (written [.write [0x61]]) := by
  intro pty
  have hread : (pty.receiveAll (drop (.ok pty.termios))).tty.readable =
      [.byte 0x61, .byte NL, .byte 4] := by decide
  refine ⟨hread, fun h => ?_⟩
  have hprefix : bytesRead (pty.receiveAll (drop (.ok pty.termios))).tty.readable <+: [0x61] := h
  rw [hread] at hprefix
  exact absurd hprefix.length_le (by decide)

end Xpty.UnixWriter
