import Xpty.UnixEnv
import Xpty.UnixSpawn

/- `close_random_fds` on both of its ways, with the descriptor that the fallback reads
   `/dev/fd` through. `closeRandomFds_eq` says that this descriptor leaves no trace, so
   that the function is the one that a spawned child calls.

   The fallback closes what the listing names, and drops every error: `closes_all_iff`
   says when it does what `close_range` does. -/
namespace Xpty.CloseFds

open Unix UnixSpawn

/-! The name of a descriptor. -/

/-- The name of a descriptor in `/dev/fd`. -/
def decimal (n : Nat) : UnixStr := (Nat.toDigits 10 n).map fun c => c.toNat.toUInt8

theorem digit_digitChar : ∀ d < 10, digit (Nat.digitChar d).toNat.toUInt8 = some d := by decide

/-- The digits are read back as the number. -/
theorem parseDigits_decimal (n : Nat) : parseDigits (decimal n) = some n := by
  have hfold : (decimal n).foldlM (fun n c => (digit c).map (10 * n + ·)) 0 = some n := by
    induction n using Nat.strongRecOn with
    | ind n ih =>
      have hlast := digit_digitChar (n % 10) (Nat.mod_lt n (by decide))
      by_cases h : n < 10
      · rw [Nat.mod_eq_of_lt h] at hlast
        rw [decimal, Nat.toDigits_of_lt_base h, List.map_singleton, List.foldlM_cons, hlast]
        simp
      · -- the last digit is the remainder, and the others are the quotient's
        rw [decimal, Nat.toDigits_of_base_le (by decide) (Nat.not_lt.mp h), List.map_append,
          ← decimal, List.foldlM_append, ih (n / 10) (by omega), List.map_singleton]
        simp only [List.foldlM_cons, List.foldlM_nil, hlast, Option.map_some, Option.bind_eq_bind,
          Option.bind_some, Option.pure_def]
        exact congrArg some (by omega)
  cases h : decimal n with
  | nil => simp [decimal] at h
  | cons c s => rw [← h]; rw [h] at hfold ⊢; exact hfold

/-- A decimal name is made of digits. -/
theorem mem_toDigits {n : Nat} {c : Char} (h : c ∈ Nat.toDigits 10 n) :
    0x30 ≤ c.toNat ∧ c.toNat ≤ 0x39 := by
  have hdigit := Nat.isDigit_of_mem_toDigits (by decide) (by decide) h
  simpa [Char.isDigit, UInt32.le_iff_toNat_le] using hdigit

theorem parseCInt_decimal {n : Nat} (h : n < 0x80000000) : parseCInt (decimal n) = some (n : Int) := by
  have hparse := parseDigits_decimal n
  have hdigits : ∀ c ∈ decimal n, c ≠ 0x2D ∧ c ≠ 0x2B := by
    intro c hc
    obtain ⟨ch, hch, rfl⟩ := List.mem_map.mp hc
    have := mem_toDigits hch
    refine ⟨fun heq => ?_, fun heq => ?_⟩
    · have := congrArg UInt8.toNat heq
      simp at this
      omega
    · have := congrArg UInt8.toNat heq
      simp at this
      omega
  cases hd : decimal n with
  | nil => simp [decimal] at hd
  | cons c s =>
    rw [hd] at hparse hdigits
    obtain ⟨hminus, hplus⟩ := hdigits c List.mem_cons_self
    rw [parseCInt, if_neg hminus, if_neg hplus, hparse]
    simp only [Option.pure_def, Option.bind_eq_bind, Option.bind_some, Option.map_some,
      Option.filter_some]
    rw [if_pos (by simp; omega)]

theorem isUtf8_decimal (n : Nat) : isUtf8 (decimal n) = true := by
  have hchar : ∀ c ∈ Nat.toDigits 10 n, String.utf8EncodeChar c = [c.toNat.toUInt8] := by
    intro c hc
    have := mem_toDigits hc
    exact if_pos (show c.toNat ≤ 0x7f by omega)
  have hencode : (⟨(decimal n).toArray⟩ : ByteArray) = (Nat.toDigits 10 n).utf8Encode := by
    have hmap : decimal n = (Nat.toDigits 10 n).flatMap String.utf8EncodeChar := by
      rw [decimal, List.map_eq_flatMap]
      exact List.flatMap_congr fun c hc => (hchar c hc).symm
    apply ByteArray.ext
    rw [List.utf8Encode, List.data_toByteArray, ← hmap]
  rw [isUtf8, String.fromUTF8?, dif_pos ⟨_, hencode⟩]
  rfl

/-! The two ways. -/

/-- The descriptors of a process. -/
structure Table where
  fds : FdTable
  valid : ∀ fd, fds fd ≠ none → 0 ≤ fd ∧ fd < 0x80000000

/-- The table while `/dev/fd` is open at `fd`. -/
def Table.reading (t : Table) (fd : RawFd) : FdTable := t.fds.set fd (some .other)

/-- `/dev/fd`, as a process opens and reads it: at a descriptor that was free, with an entry
for each open descriptor unless reading goes wrong. -/
structure DirStream (t : Table) where
  fd : RawFd
  fd_valid : 0 ≤ fd ∧ fd < 0x80000000
  free : t.fds fd = none
  entries : List (Except Errno UnixStr)
  sound : ∀ name, .ok name ∈ entries → ∃ n, t.reading fd n ≠ none ∧ name = decimal n.toNat
  complete : (∀ e, .error e ∉ entries) →
    ∀ n, t.reading fd n ≠ none → .ok (decimal n.toNat) ∈ entries

/-- How the system calls go. -/
structure Calls (t : Table) where
  /-- `close_range` is there and returned 0. -/
  closeRange : Bool
  readDir : Except Errno (DirStream t)

/-- The first loop of the fallback. -/
def collectFds (entries : List (Except Errno UnixStr)) : List RawFd :=
  entries.filterMap fun entry =>
    (entry.toOption.bind toStr).bind parseCInt |>.filter fun num => num > 2

/-- `close_random_fds`. The stream is closed when the first loop is through with it. -/
def closeRandomFds (t : Table) (calls : Calls t) : FdTable :=
  if calls.closeRange then fun n => if 3 ≤ n then none else t.fds n
  else
    match calls.readDir with
    | .error _ => t.fds
    | .ok dir =>
      let fds := collectFds dir.entries
      fds.foldl FdTable.close ((t.reading dir.fd).close dir.fd)

theorem close_reading {t : Table} (dir : DirStream t) : (t.reading dir.fd).close dir.fd = t.fds := by
  funext n
  rw [FdTable.close, FdTable.set, Table.reading, FdTable.set]
  split
  · next h => rw [h, dir.free]
  · rfl

/-- The child of a spawn closes the same: the stream's descriptor was free before. -/
theorem closeRandomFds_eq (t : Table) (calls : Calls t) (m : Machine)
    (hrange : m.closeRange = calls.closeRange)
    (hdev : m.devFd = calls.readDir.map DirStream.entries) :
    closeRandomFds t calls = UnixSpawn.closeRandomFds m t.fds := by
  rw [closeRandomFds, UnixSpawn.closeRandomFds, hrange, listedFds, hdev]
  cases calls.readDir with
  | error e => rfl
  | ok dir =>
    dsimp only [Except.map]
    rw [close_reading]
    rfl

theorem parse_entry {n : RawFd} (h : 0 ≤ n ∧ n < 0x80000000) :
    (toStr (decimal n.toNat)).bind parseCInt = some n := by
  have hstr : toStr (decimal n.toNat) = some (decimal n.toNat) :=
    toStr_unix.mpr ⟨isUtf8_decimal _, rfl⟩
  have hn : ((n.toNat : Nat) : Int) = n := Int.toNat_of_nonneg h.1
  have hlt : n.toNat < 0x80000000 := (Int.toNat_lt h.1).mpr h.2
  rw [hstr, Option.bind_some, parseCInt_decimal hlt, hn]

theorem reading_valid {t : Table} (dir : DirStream t) {n : RawFd} (h : t.reading dir.fd n ≠ none) :
    0 ≤ n ∧ n < 0x80000000 := by
  rw [Table.reading, FdTable.set] at h
  split at h
  · next hn => rw [hn]; exact dir.fd_valid
  · exact t.valid n h

/-- The descriptors that are closed are those above 2 whose entries were read. -/
theorem mem_collectFds {t : Table} (dir : DirStream t) {n : RawFd} :
    n ∈ collectFds dir.entries ↔ 2 < n ∧ t.reading dir.fd n ≠ none ∧
      .ok (decimal n.toNat) ∈ dir.entries := by
  rw [collectFds, List.mem_filterMap]
  refine ⟨?_, ?_⟩
  · intro h
    obtain ⟨entry, hmem, hentry⟩ := h
    cases entry with
    | error e => cases hentry
    | ok name =>
      obtain ⟨m, hopen, rfl⟩ := dir.sound name hmem
      have hparse := parse_entry (reading_valid dir hopen)
      obtain ⟨hn, hgt⟩ := Option.filter_eq_some_iff.mp hentry
      rw [show Except.toOption (.ok (decimal m.toNat) : Except Errno UnixStr) = some _ from rfl,
        Option.bind_some, hparse] at hn
      cases hn
      exact ⟨by simpa using hgt, hopen, hmem⟩
  · intro h
    obtain ⟨hgt, hopen, hmem⟩ := h
    refine ⟨_, hmem, Option.filter_eq_some_iff.mpr ⟨parse_entry (reading_valid dir hopen), ?_⟩⟩
    simpa using hgt

/-- What `close_random_fds` should leave: nothing above 2, and 0 to 2 as they were. -/
def ClosesAll (t : Table) (fds : FdTable) : Prop :=
  (∀ n, 2 < n → fds n = none) ∧ ∀ n ≤ 2, fds n = t.fds n

theorem reading_of_open {t : Table} {fd n : RawFd} (h : t.fds n ≠ none) : t.reading fd n ≠ none := by
  rw [Table.reading, FdTable.set]
  split
  · simp
  · exact h

/-- The second loop of the fallback closes everything above 2 when the entries of all that is
open there were read. -/
theorem closesAll_foldl_iff {t : Table} (dir : DirStream t) :
    ClosesAll t ((collectFds dir.entries).foldl FdTable.close t.fds) ↔
      ∀ n, 2 < n → t.fds n ≠ none → .ok (decimal n.toNat) ∈ dir.entries := by
  simp only [ClosesAll, foldl_close, mem_collectFds]
  refine ⟨?_, ?_⟩
  · intro h n hn hopen
    have hclosed := h.1 n hn
    split at hclosed
    · next hlisted => exact hlisted.2.2
    · exact absurd hclosed hopen
  · intro h
    refine ⟨fun n hn => ?_, fun n hn => if_neg fun hlisted => Int.not_lt.mpr hn hlisted.1⟩
    by_cases hopen : t.fds n = none
    · rw [hopen, ite_self]
    · exact if_pos ⟨hn, reading_of_open hopen, h n hn hopen⟩

theorem closeRandomFds_read {t : Table} {calls : Calls t} {dir : DirStream t}
    (hrange : calls.closeRange = false) (hdir : calls.readDir = .ok dir) :
    closeRandomFds t calls = (collectFds dir.entries).foldl FdTable.close t.fds := by
  rw [closeRandomFds, hrange, if_neg Bool.false_ne_true, hdir]
  dsimp only
  rw [close_reading]

theorem closesAll_closeRange {t : Table} {calls : Calls t} (h : calls.closeRange = true) :
    ClosesAll t (closeRandomFds t calls) := by
  rw [closeRandomFds, if_pos h]
  exact ⟨fun n hn => if_pos hn, fun n hn => if_neg (Int.not_le.mpr (Int.lt_add_one_of_le hn))⟩

/-- Everything above 2 is closed exactly when `close_range` succeeds, or else `/dev/fd` can be
read and the entry of every open descriptor above 2 is read. -/
theorem closes_all_iff (t : Table) (calls : Calls t) : ClosesAll t (closeRandomFds t calls) ↔
    calls.closeRange = true ∨ ∀ n, 2 < n → t.fds n ≠ none →
      ∃ dir, calls.readDir = .ok dir ∧ .ok (decimal n.toNat) ∈ dir.entries := by
  cases hrange : calls.closeRange with
  | true => exact iff_of_true (closesAll_closeRange hrange) (.inl rfl)
  | false =>
    rw [or_iff_right Bool.false_ne_true]
    cases hdir : calls.readDir with
    | error e =>
      have hfds : closeRandomFds t calls = t.fds := by
        rw [closeRandomFds, hrange, if_neg Bool.false_ne_true, hdir]
      simp only [hfds, ClosesAll, implies_true, and_true, reduceCtorEq, false_and, exists_false]
      exact forall₂_congr fun n _ => not_not.symm
    | ok dir =>
      rw [closeRandomFds_read hrange hdir, closesAll_foldl_iff]
      simp

/-- Read without an error, `/dev/fd` is as good as `close_range`. -/
theorem closesAll_of_read {t : Table} {calls : Calls t} {dir : DirStream t}
    (hdir : calls.readDir = .ok dir) (h : ∀ e, .error e ∉ dir.entries) :
    ClosesAll t (closeRandomFds t calls) := by
  cases hrange : calls.closeRange with
  | true => exact closesAll_closeRange hrange
  | false =>
    rw [closeRandomFds_read hrange hdir, closesAll_foldl_iff]
    exact fun n _ hopen => dir.complete h n (reading_of_open hopen)

/-- The descriptors 0 to 3. -/
def four : Table where
  fds n := if 0 ≤ n ∧ n ≤ 3 then some .other else none
  valid n h := by
    split at h
    · next hn => exact ⟨hn.1, Int.lt_of_le_of_lt hn.2 (by decide)⟩
    · exact absurd rfl h

/-- Without `close_range` and `/dev/fd`, descriptor 3 stays open. -/
theorem three_stays_open :
    closeRandomFds four { closeRange := false, readDir := .error ENOENT } 3 = some .other ∧
      ¬ ∀ (t : Table) (calls : Calls t), ClosesAll t (closeRandomFds t calls) := by
  refine ⟨rfl, fun h => ?_⟩
  have hclosed := (h four { closeRange := false, readDir := .error ENOENT }).1 3 (by decide)
  cases hclosed

end Xpty.CloseFds
