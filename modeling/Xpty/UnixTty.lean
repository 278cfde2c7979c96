import Mathlib.Algebra.Group.Nat.Defs
import Xpty.Common
import Xpty.OsStr
import Xpty.Rounds

/- `tty_name`, which calls `ttyname_r` with a buffer of 128 bytes, twice as large after
   each `ERANGE`. Nothing is assumed of the system that answers the calls beyond the
   contract of a single one: it has any state, and each answer may depend on it.

   A round that goes on had a buffer of 64 KiB at most, so the largest is 128 KiB and the
   11th call is the last (`Doubled`). `ttyName_name` is the result where the terminal has
   a name: that name, if it fits in 128 KiB with its NUL. -/
namespace Xpty.UnixTty

variable {W : Type}

/-- `libc::ERANGE`. -/
def ERANGE : Int := 34

/-- What a call of `ttyname_r` leaves: its result, the bytes of the buffer and the state
of the system. -/
structure Answer (W : Type) where
  res : Int
  buf : List UInt8
  os : W

/-- `ttyname_r` in a system with states `W`. -/
structure TtynameR (W : Type) where
  call : RawFd → List UInt8 → W → Answer W
  /-- It writes within the buffer. -/
  within : ∀ fd buf os, (call fd buf os).buf.length = buf.length
  /-- It answers 0 when it has written a string that a NUL ends. -/
  ended : ∀ fd buf os, (call fd buf os).res = 0 → 0 ∈ (call fd buf os).buf

/-- `Vec::resize` with zeros. -/
def resize (buf : List UInt8) (n : Nat) : List UInt8 :=
  buf.take n ++ List.replicate (n - buf.length) 0

/-- `CStr::from_ptr` and `to_bytes`: what stands before the first NUL, which must be in
the buffer. -/
def cstr (buf : List UInt8) (_ : 0 ∈ buf) : UnixStr := buf.takeWhile (· != 0)

/-- Where a round of the loop begins. -/
structure Attempt (W : Type) where
  buf : List UInt8
  os : W

/-- The body of the loop: another attempt, or what `tty_name` returns. -/
def round (sys : TtynameR W) (fd : RawFd) (attempt : Attempt W) :
    Attempt W ⊕ Option UnixStr :=
  let answer := sys.call fd attempt.buf attempt.os
  let buf := answer.buf
  if answer.res = ERANGE then
    if buf.length > 64 * 1024 then .inr none
    else .inl { buf := resize buf (buf.length * 2), os := answer.os }
  else if h : answer.res = 0 then .inr (some (cstr buf (sys.ended _ _ _ h)))
  else .inr none

/-- `tty_name` within `n` calls of `ttyname_r`: the calls and the result. -/
def ttyName (sys : TtynameR W) (fd : RawFd) (os : W) (n : Nat) :
    Option (List (Attempt W) × Option UnixStr) :=
  Rounds.run (round sys fd) n { buf := List.replicate 128 0, os }

@[simp] theorem length_resize (buf : List UInt8) (n : Nat) : (resize buf n).length = n := by
  rw [resize, List.length_append, List.length_take, List.length_replicate]
  omega

/-! How often it calls. -/

/-- The buffer of a call that `n` more can follow. -/
def Doubled (n : Nat) (attempt : Attempt W) : Prop := attempt.buf.length * 2 ^ n = 128 * 1024

theorem Doubled.length_le {n : Nat} {attempt : Attempt W} (h : Doubled n attempt) :
    attempt.buf.length ≤ 128 * 1024 :=
  h ▸ Nat.le_mul_of_pos_right _ (Nat.two_pow_pos n)

/-- Only the last buffer is longer than 64 KiB. -/
theorem Doubled.length_le_half {n : Nat} {attempt : Attempt W} (h : Doubled (n + 1) attempt) :
    attempt.buf.length ≤ 64 * 1024 := by
  rw [Doubled, Nat.pow_succ', ← Nat.mul_assoc] at h
  have hle : attempt.buf.length * 2 ≤ 128 * 1024 := h ▸ Nat.le_mul_of_pos_right _ (Nat.two_pow_pos n)
  omega

/-- A round goes on with a buffer of twice the length, from one of 64 KiB at most. -/
theorem length_next {sys : TtynameR W} {fd : RawFd} {s t : Attempt W}
    (h : round sys fd s = .inl t) :
    s.buf.length ≤ 64 * 1024 ∧ t.buf.length = s.buf.length * 2 := by
  simp only [round, sys.within] at h
  split at h
  · split at h
    · cases h
    · cases h
      exact ⟨by omega, length_resize _ _⟩
  · split at h
    · cases h
    · cases h

theorem Doubled.not_next {sys : TtynameR W} {fd : RawFd} {s t : Attempt W} (hs : Doubled 0 s) :
    round sys fd s ≠ .inl t := by
  intro h
  have hle := (length_next h).1
  rw [Doubled] at hs
  omega

theorem Doubled.next {sys : TtynameR W} {fd : RawFd} {n : Nat} {s t : Attempt W}
    (hs : Doubled (n + 1) s) (h : round sys fd s = .inl t) : Doubled n t := by
  rw [Doubled, (length_next h).2, Nat.mul_assoc, ← Nat.pow_succ', hs]

theorem Doubled.start (os : W) : Doubled 10 ({ buf := List.replicate 128 0, os } : Attempt W) := by
  rw [Doubled, List.length_replicate]
  rfl

theorem ttyName_returns (sys : TtynameR W) (fd : RawFd) (os : W) :
    ∃ calls name, ttyName sys fd os 11 = some (calls, name) :=
  Rounds.run_countdown Doubled (fun _ _ => Doubled.not_next) (fun _ _ _ => Doubled.next) 10
    (Doubled.start os)

/-- Every call has a buffer that was doubled from the first. -/
theorem doubled_of_mem {sys : TtynameR W} {fd : RawFd} {os : W} {n : Nat}
    {calls : List (Attempt W)} {name : Option UnixStr} (h : ttyName sys fd os n = some (calls, name)) :
    ∀ call ∈ calls, ∃ m, Doubled m call := by
  refine Rounds.run_keeps ?_ ⟨10, Doubled.start os⟩ h
  intro s t hs hst
  obtain ⟨m, hm⟩ := hs
  cases m with
  | zero => exact absurd hst hm.not_next
  | succ m => exact ⟨m, hm.next hst⟩

/-! What it returns. -/

/-- The descriptor is a terminal called `name`: a call answers `ERANGE` exactly where the
buffer is shorter than the name and its NUL, and writes the two otherwise. -/
structure Names (sys : TtynameR W) (fd : RawFd) (name : UnixStr) : Prop where
  nul_free : 0 ∉ name
  erange : ∀ buf os, (sys.call fd buf os).res = ERANGE ↔ buf.length < name.length + 1
  written : ∀ buf os, name.length + 1 ≤ buf.length →
    (sys.call fd buf os).res = 0 ∧ name ++ [0] <+: (sys.call fd buf os).buf

theorem cstr_of_prefix {name buf : List UInt8} (hbuf : 0 ∈ buf) (hname : 0 ∉ name)
    (h : name ++ [0] <+: buf) : cstr buf hbuf = name := by
  obtain ⟨rest, rfl⟩ := h
  rw [cstr, List.append_assoc, List.takeWhile_append_of_pos]
  · simp
  · intro c hc
    simpa using ne_of_mem_of_not_mem hc hname

/-- The round that returns had the whole name, or a buffer that was too short for it and
longer than 64 KiB. -/
theorem round_returned {sys : TtynameR W} {fd : RawFd} {name : UnixStr} {s : Attempt W}
    {result : Option UnixStr} (hn : Names sys fd name) (h : round sys fd s = .inr result) :
    (name.length + 1 ≤ s.buf.length ∧ result = some name) ∨
      (s.buf.length < name.length + 1 ∧ 64 * 1024 < s.buf.length ∧ result = none) := by
  simp only [round, sys.within, hn.erange] at h
  by_cases hlen : s.buf.length < name.length + 1
  · rw [if_pos hlen] at h
    split at h
    · cases h
      exact .inr ⟨hlen, ‹_›, rfl⟩
    · cases h
  · obtain ⟨hres, hpre⟩ := hn.written s.buf s.os (Nat.le_of_not_lt hlen)
    rw [if_neg hlen, dif_pos hres, cstr_of_prefix _ hn.nul_free hpre] at h
    cases h
    exact .inl ⟨Nat.le_of_not_lt hlen, rfl⟩

/-- A name comes back exactly when it fits in 128 KiB with its NUL. -/
theorem ttyName_name {sys : TtynameR W} {fd : RawFd} {os : W} {n : Nat} {name : UnixStr}
    {calls : List (Attempt W)} {result : Option UnixStr} (hn : Names sys fd name)
    (h : ttyName sys fd os n = some (calls, result)) :
    result = if name.length + 1 ≤ 128 * 1024 then some name else none := by
  obtain ⟨s, hs, hr⟩ := Rounds.run_returned h
  obtain ⟨m, hm⟩ := doubled_of_mem h s hs
  rcases round_returned hn hr with ⟨hlen, rfl⟩ | ⟨hlen, hlong, rfl⟩
  · rw [if_pos (Nat.le_trans hlen hm.length_le)]
  · -- more than 64 KiB: the buffer was the last one
    have hlast : s.buf.length = 128 * 1024 := by
      cases m with
      | zero => rwa [Doubled, Nat.pow_zero, Nat.mul_one] at hm
      | succ m => exact absurd hm.length_le_half (Nat.not_le_of_lt hlong)
    rw [if_neg (by omega)]

/-- However `ttyname_r` behaves, `tty_name` returns after 11 calls at most, with buffers
of at most 128 KiB; a name that fits in 64 KiB with its NUL is returned, and one that
fits in none of the buffers is not. -/
theorem tty_name_bounded (sys : TtynameR W) (fd : RawFd) (os : W) :
    ∃ calls result, (∀ n, 11 ≤ n → ttyName sys fd os n = some (calls, result)) ∧
      calls.length ≤ 11 ∧ (∀ call ∈ calls, call.buf.length ≤ 128 * 1024) ∧
      ∀ name, Names sys fd name →
        (name.length + 1 ≤ 64 * 1024 → result = some name) ∧
        ((∀ call ∈ calls, call.buf.length < name.length + 1) → result = none) := by
  obtain ⟨calls, result, h⟩ := ttyName_returns sys fd os
  refine ⟨calls, result, fun n hn => Rounds.run_mono h hn, Rounds.length_le h, ?_, ?_⟩
  · intro call hcall
    obtain ⟨m, hm⟩ := doubled_of_mem h call hcall
    exact hm.length_le
  · intro name hname
    refine ⟨?_, ?_⟩
    · intro hfits
      rw [ttyName_name hname h, if_pos (by omega)]
    · intro hlong
      obtain ⟨s, hs, hr⟩ := Rounds.run_returned h
      rcases round_returned hname hr with ⟨hlen, _⟩ | ⟨_, _, hnone⟩
      · exact absurd hlen (Nat.not_le_of_lt (hlong s hs))
      · exact hnone

/-- A terminal called `name`. -/
def naming (name : UnixStr) : TtynameR Unit where
  call _ buf os :=
    if buf.length < name.length + 1 then { res := ERANGE, buf, os }
    else { res := 0, buf := name ++ 0 :: buf.drop (name.length + 1), os }
  within _ buf _ := by
    split
    · rfl
    · rw [List.length_append, List.length_cons, List.length_drop]
      omega
  ended _ buf _ h := by
    split at h
    · cases h
    · rw [if_neg ‹_›]
      simp

theorem names_naming {name : UnixStr} (fd : RawFd) (h : 0 ∉ name) : Names (naming name) fd name where
  nul_free := h
  erange buf os := by
    simp only [naming]
    split
    · exact iff_of_true rfl ‹_›
    · exact iff_of_false (fun h => by cases h) ‹_›
  written buf os hlen := by
    have hcall : (naming name).call fd buf os =
        { res := 0, buf := name ++ 0 :: buf.drop (name.length + 1), os } :=
      if_neg (Nat.not_lt_of_le hlen)
    rw [hcall]
    exact ⟨rfl, buf.drop (name.length + 1), by simp⟩

theorem tty_name_bounded_pts :
    (∃ calls, ttyName (naming (bytes "/dev/pts/3")) 5 () 11 =
      some (calls, some (bytes "/dev/pts/3"))) ∧
    ∃ calls, ttyName (naming (List.replicate (128 * 1024) 0x61)) 5 () 11 = some (calls, none) := by
  refine ⟨?_, ?_⟩
  · obtain ⟨calls, result, hrun, _, _, hname⟩ := tty_name_bounded (naming (bytes "/dev/pts/3")) 5 ()
    have hresult := (hname _ (names_naming 5 (by decide))).1 (by decide)
    exact ⟨calls, hresult ▸ hrun 11 (Nat.le_refl 11)⟩
  · obtain ⟨calls, result, hrun, _, hbuf, hname⟩ :=
      tty_name_bounded (naming (List.replicate (128 * 1024) 0x61)) 5 ()
    have hnul : 0 ∉ List.replicate (128 * 1024) (0x61 : UInt8) := by
      intro h
      cases List.eq_of_mem_replicate h
    have hresult := (hname _ (names_naming 5 hnul)).2 fun call hcall => by
      rw [List.length_replicate]
      exact Nat.lt_succ_of_le (hbuf call hcall)
    exact ⟨calls, hresult ▸ hrun 11 (Nat.le_refl 11)⟩

end Xpty.UnixTty
