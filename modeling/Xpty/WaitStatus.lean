import Std.Data.String.ToNat
import Xpty.ChildStatus

/- The status of a child on Unix: from the integer of `waitpid` through
   `std::process::ExitStatus` and `From` to the text that `Display` writes. The kernel
   puts an exit code into the second byte, and a signal into the low seven bits, beside
   the flag of a core dump.

   `fromRaw_ending` connects the integer to the statuses that the children report, and
   `display_ending_iff` says which endings cannot be told apart by their texts. -/
namespace Xpty.WaitStatus

open ChildStatus

/-- `c_int`, as its bits. -/
abbrev Raw := BitVec 32

def WTERMSIG (raw : Raw) : Raw := raw &&& 0x7f

def WIFEXITED (raw : Raw) : Bool := WTERMSIG raw == 0

def WEXITSTATUS (raw : Raw) : Raw := raw.sshiftRight 8 &&& 0xff

/-- `((status & 0x7f) + 1) as i8 >= 2`. -/
def WIFSIGNALED (raw : Raw) : Bool := 2 ≤ ((WTERMSIG raw + 1).setWidth 8).toInt

/-! `std::process::ExitStatus`. -/

def success (raw : Raw) : Bool := raw == 0

def code (raw : Raw) : Option Raw := if WIFEXITED raw then some (WEXITSTATUS raw) else none

def signal (raw : Raw) : Option Raw := if WIFSIGNALED raw then some (WTERMSIG raw) else none

/-- `From<std::process::ExitStatus>`, with its fallbacks. -/
def fromRaw (strsignal : Nat → Option String) (raw : Raw) : ExitStatus :=
  match signal raw with
  | some signal =>
    { code := ((code raw).map UInt32.ofBitVec).getD 1
      signal := some ((strsignal signal.toNat).getD ("Signal " ++ toString signal.toNat)) }
  | none =>
    { code := ((code raw).map UInt32.ofBitVec).getD (if success raw then 0 else 1), signal := none }

end Xpty.WaitStatus

namespace Xpty

/-- The method `success`. -/
def ExitStatus.success (status : ExitStatus) : Bool := status.signal.isNone && status.code == 0

/-- `Display for ExitStatus`. -/
def ExitStatus.display (status : ExitStatus) : String :=
  if status.success then "Success"
  else
    match status.signal with
    | some signal => "Terminated by " ++ signal
    | none => "Exited with code " ++ toString status.code

end Xpty

namespace Xpty.WaitStatus

open ChildStatus

/-! Endings. -/

/-- A signal that can end a process. -/
abbrev Signal := { n : Nat // 0 < n ∧ n < 127 }

inductive Ending where
  | exited (code : UInt8)
  | killed (signal : Signal) (core : Bool)

/-- What the kernel makes of it. -/
def Ending.raw : Ending → Raw
  | .exited code => BitVec.ofNat 32 (code.toNat * 256)
  | .killed signal core => BitVec.ofNat 32 (signal.1 + if core then 128 else 0)

def Ending.std : Ending → StdStatus
  | .exited code => .code code.toUInt32
  | .killed signal _ => .signal signal.1

/-- What is shown of it: the exit code, or the name of the signal. -/
def Ending.shown (strsignal : Nat → Option String) : Ending → UInt8 ⊕ String
  | .exited code => .inl code
  | .killed signal _ => .inr ((strsignal signal.1).getD ("Signal " ++ toString signal.1))

theorem toNat_WTERMSIG (raw : Raw) : (WTERMSIG raw).toNat = raw.toNat % 128 := by
  have hmask : (0x7f : Raw).toNat = 2 ^ 7 - 1 := rfl
  rw [WTERMSIG, BitVec.toNat_and, hmask, Nat.and_two_pow_sub_one_eq_mod]

/-- The sign that the shift brings in does not get into the byte. -/
theorem toNat_WEXITSTATUS (raw : Raw) : (WEXITSTATUS raw).toNat = raw.toNat / 256 % 256 := by
  have hmask : (0xff : Raw).toNat = 2 ^ 8 - 1 := rfl
  have hraw := raw.isLt
  rw [WEXITSTATUS, BitVec.toNat_and, hmask, Nat.and_two_pow_sub_one_eq_mod]
  cases hmsb : raw.msb with
  | false =>
    rw [BitVec.sshiftRight_eq_of_msb_false hmsb, BitVec.toNat_ushiftRight, Nat.shiftRight_eq_div_pow]
  | true =>
    rw [BitVec.sshiftRight_eq_of_msb_true hmsb, BitVec.toNat_not, BitVec.toNat_ushiftRight,
      Nat.shiftRight_eq_div_pow, BitVec.toNat_not]
    omega

theorem WIFEXITED_iff (raw : Raw) : WIFEXITED raw = true ↔ raw.toNat % 128 = 0 := by
  rw [WIFEXITED, beq_iff_eq, BitVec.toNat_eq, toNat_WTERMSIG]
  rfl

/-- 0 is an exit, and 127 a process that is stopped or goes on. -/
theorem WIFSIGNALED_iff (raw : Raw) :
    WIFSIGNALED raw = true ↔ 0 < raw.toNat % 128 ∧ raw.toNat % 128 < 127 := by
  have hone : (1 : Raw).toNat = 1 := rfl
  rw [WIFSIGNALED, decide_eq_true_iff, BitVec.toInt_eq_toNat_cond, BitVec.toNat_setWidth,
    BitVec.toNat_add, toNat_WTERMSIG, hone]
  split <;> omega

variable {strsignal : Nat → Option String} {raw : Raw}

theorem signal_none_iff : signal raw = none ↔ raw.toNat % 128 = 0 ∨ raw.toNat % 128 = 127 := by
  have hlt := Nat.mod_lt raw.toNat (show 0 < 128 by decide)
  rw [signal, ite_eq_right_iff, WIFSIGNALED_iff]
  refine ⟨?_, ?_⟩
  · intro h
    by_contra hne
    cases h (by omega)
  · intro h hsignal
    omega

theorem fromRaw_exited (h : raw.toNat % 128 = 0) :
    fromRaw strsignal raw = .withExitCode (.ofBitVec (WEXITSTATUS raw)) := by
  have hcode : code raw = some (WEXITSTATUS raw) := if_pos ((WIFEXITED_iff raw).mpr h)
  rw [fromRaw, signal_none_iff.mpr (.inl h), hcode]
  rfl

theorem fromRaw_signaled (h : 0 < raw.toNat % 128 ∧ raw.toNat % 128 < 127) :
    fromRaw strsignal raw = fromStd strsignal (.signal (raw.toNat % 128)) := by
  have hsignal : signal raw = some (WTERMSIG raw) := if_pos ((WIFSIGNALED_iff raw).mpr h)
  have hcode : code raw = none := if_neg fun hexited => by
    have := (WIFEXITED_iff raw).mp hexited
    omega
  rw [fromRaw, hsignal, hcode]
  dsimp only
  rw [toNat_WTERMSIG]
  rfl

/-- Stopped or going on: neither code nor signal, and no success. -/
theorem fromRaw_stopped (h : raw.toNat % 128 = 127) : fromRaw strsignal raw = .withExitCode 1 := by
  have hcode : code raw = none := if_neg fun hexited => by
    have := (WIFEXITED_iff raw).mp hexited
    omega
  have hsuccess : success raw = false := by
    rw [success, beq_eq_false_iff_ne]
    rintro rfl
    cases h
  rw [fromRaw, signal_none_iff.mpr (.inr h), hcode, hsuccess]
  rfl

/-- A status counts as success exactly if it is that of an exit with code 0. -/
theorem fromRaw_success_iff : (fromRaw strsignal raw).success = true ↔
    raw.toNat % 128 = 0 ∧ raw.toNat / 256 % 256 = 0 := by
  have hlt := Nat.mod_lt raw.toNat (show 0 < 128 by decide)
  have hcases : raw.toNat % 128 = 0 ∨ (0 < raw.toNat % 128 ∧ raw.toNat % 128 < 127) ∨
      raw.toNat % 128 = 127 := by omega
  rcases hcases with h | h | h
  · rw [fromRaw_exited h, and_iff_right h, ← toNat_WEXITSTATUS]
    show (UInt32.ofBitVec (WEXITSTATUS raw) == 0) = true ↔ _
    rw [beq_iff_eq, ← UInt32.toBitVec_inj, BitVec.toNat_eq]
    rfl
  · rw [fromRaw_signaled h]
    refine iff_of_false Bool.false_ne_true ?_
    omega
  · rw [fromRaw_stopped h]
    refine iff_of_false (by decide) ?_
    omega

/-! From the ending to the text. -/

theorem toNat_raw_exited (code : UInt8) : (Ending.exited code).raw.toNat = code.toNat * 256 := by
  have hlt := code.toNat_lt
  rw [Ending.raw, BitVec.toNat_ofNat]
  omega

theorem toNat_raw_killed (signal : Signal) (core : Bool) :
    (Ending.killed signal core).raw.toNat = signal.1 + if core then 128 else 0 := by
  have hlt := signal.2.2
  rw [Ending.raw, BitVec.toNat_ofNat]
  split <;> omega

/-- What the children report is what became of the process: nothing is lost but the flag
of a core dump. -/
theorem fromRaw_ending (strsignal : Nat → Option String) (e : Ending) :
    fromRaw strsignal e.raw = fromStd strsignal e.std := by
  cases e with
  | exited code =>
    have hraw := toNat_raw_exited code
    have hbyte : WEXITSTATUS (Ending.exited code).raw = code.toUInt32.toBitVec := by
      have hlt := code.toNat_lt
      rw [BitVec.toNat_eq, toNat_WEXITSTATUS, hraw, UInt32.toNat_toBitVec, UInt8.toNat_toUInt32]
      omega
    calc fromRaw strsignal (Ending.exited code).raw
        = .withExitCode (.ofBitVec (WEXITSTATUS (Ending.exited code).raw)) :=
          fromRaw_exited (by omega)
      _ = .withExitCode code.toUInt32 := by rw [hbyte]
      _ = fromStd strsignal (.code code.toUInt32) := rfl
  | killed signal core =>
    have hraw := toNat_raw_killed signal core
    have hsignal := signal.2
    have hlow : (Ending.killed signal core).raw.toNat % 128 = signal.1 := by
      rw [hraw]
      split <;> omega
    calc fromRaw strsignal (Ending.killed signal core).raw
        = fromStd strsignal (.signal ((Ending.killed signal core).raw.toNat % 128)) :=
          fromRaw_signaled (by omega)
      _ = fromStd strsignal (.signal signal.1) := by rw [hlow]

/-- Only an exit with code 0 is a success. -/
theorem success_ending_iff (e : Ending) :
    (fromRaw strsignal e.raw).success = true ↔ e = .exited 0 := by
  rw [fromRaw_success_iff]
  cases e with
  | exited c =>
    have hlt := c.toNat_lt
    have hzero : (0 : UInt8).toNat = 0 := rfl
    rw [toNat_raw_exited, Ending.exited.injEq, ← UInt8.toNat_inj, hzero]
    omega
  | killed signal core =>
    have hsignal := signal.2
    refine iff_of_false (fun h => ?_) nofun
    rw [toNat_raw_killed] at h
    split at h <;> omega

theorem display_signal (code : UInt32) (signal : String) :
    ExitStatus.display { code, signal := some signal } = "Terminated by " ++ signal := rfl

theorem display_code (code : UInt32) : ExitStatus.display { code, signal := none } =
    if code = 0 then "Success" else "Exited with code " ++ toString code := by
  rw [ExitStatus.display, ExitStatus.success]
  simp

/-- The first letter tells a signal from a code. -/
theorem display_signal_ne_code (code code' : UInt32) (signal : String) :
    ExitStatus.display { code, signal := some signal } ≠
      ExitStatus.display { code := code', signal := none } := by
  rw [display_signal, display_code]
  intro h
  have hhead := congrArg (fun s => s.toList.head?) h
  split at hhead
  · simp [String.toList_append] at hhead
  · simp [String.toList_append] at hhead

theorem display_code_iff (code code' : UInt32) : ExitStatus.display { code, signal := none } =
    ExitStatus.display { code := code', signal := none } ↔ code = code' := by
  refine ⟨?_, fun h => by rw [h]⟩
  intro h
  rw [display_code, display_code] at h
  split at h
  · split at h
    · simp_all
    · have hhead := congrArg (fun s => s.toList.head?) h
      simp [String.toList_append] at hhead
  · split at h
    · have hhead := congrArg (fun s => s.toList.head?) h
      simp [String.toList_append] at hhead
    · have hdigits : Nat.repr code.toNat = Nat.repr code'.toNat :=
        (String.append_right_inj _).mp h
      exact UInt32.toNat_inj.mp (Nat.repr_injective hdigits)

/-- Two statuses have one text exactly if they have the same signal, or none and the same
code. -/
theorem display_iff {s t : ExitStatus} : s.display = t.display ↔
    s.signal = t.signal ∧ (s.signal = none → s.code = t.code) := by
  obtain ⟨code, signal⟩ := s
  obtain ⟨code', signal'⟩ := t
  cases signal with
  | some signal =>
    cases signal' with
    | some signal' => simp [display_signal]
    | none => simp [display_signal_ne_code]
  | none =>
    cases signal' with
    | some signal' => simp [(display_signal_ne_code _ _ _).symm]
    | none => simp [display_code_iff]

/-- The text of a status shows how the process ended, and nothing else does: two endings
have one text exactly if they are exits with one code or signals of one name; and only an
exit with code 0 is a success. -/
theorem display_ending_iff (strsignal : Nat → Option String) (d e : Ending) :
    ((fromRaw strsignal d.raw).display = (fromRaw strsignal e.raw).display ↔
      d.shown strsignal = e.shown strsignal) ∧
    ((fromRaw strsignal e.raw).success = true ↔ e = .exited 0) := by
  refine ⟨?_, success_ending_iff e⟩
  rw [fromRaw_ending, fromRaw_ending, display_iff]
  have hcode : ∀ c c' : UInt8, c.toUInt32 = c'.toUInt32 ↔ c = c' := by
    intro c c'
    rw [← UInt32.toNat_inj, UInt8.toNat_toUInt32, UInt8.toNat_toUInt32, UInt8.toNat_inj]
  cases d with
  | exited c =>
    cases e with
    | exited c' => simp [Ending.std, Ending.shown, fromStd, hcode]
    | killed signal core => simp [Ending.std, Ending.shown, fromStd]
  | killed signal core =>
    cases e with
    | exited c' => simp [Ending.std, Ending.shown, fromStd]
    | killed signal' core' => simp [Ending.std, Ending.shown, fromStd]

end Xpty.WaitStatus
