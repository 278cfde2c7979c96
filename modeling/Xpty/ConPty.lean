import Xpty.Common

/- The size of a ConPTY (`conpty.rs`): the one that `Inner` records, and the coordinates
   that the console was given. A `COORD` has signed 16-bit fields and a `PtySize` unsigned
   ones, and the cast between them changes the sign of the upper half.

   A failed call changes neither, so `get_size` is the size of the last call that
   succeeded; the console was given the same size exactly when its columns and rows are
   below 2^15: `sizes_agree_iff`. -/
namespace Xpty.ConPty

structure PtySize where
  rows : UInt16
  cols : UInt16
  pixelWidth : UInt16
  pixelHeight : UInt16
  deriving DecidableEq, Repr

structure COORD where
  X : Int16
  Y : Int16
  deriving DecidableEq

abbrev HRESULT := Int

def S_OK : HRESULT := 0

/-- A console, with the coordinates that it was given by the last call that succeeded. -/
structure PseudoCon where
  size : COORD
  deriving DecidableEq

/-- `Pipe`. -/
structure Pipe where
  read : RawFd
  write : RawFd

/-- `Inner`, behind the mutex of `ConPtyMasterPty`. -/
structure Inner where
  con : PseudoCon
  readable : RawFd
  writable : Option RawFd
  size : PtySize
  deriving DecidableEq

variable {S : Type}

/-- `PseudoCon::new`, `result` being what `CreatePseudoConsole` returns. -/
def PseudoCon.new (size : COORD) (result : HRESULT) : Except (Error S) PseudoCon :=
  if result ≠ S_OK then .error (.hresult result) else .ok { size }

/-- `PseudoCon::resize`, `result` being what `ResizePseudoConsole` returns. -/
def PseudoCon.resize (_con : PseudoCon) (size : COORD) (result : HRESULT) :
    Except (Error S) PseudoCon :=
  if result ≠ S_OK then .error (.hresult result) else .ok { size }

/-- `ConPtySystem::openpty`. -/
def openpty (size : PtySize) (stdin stdout : Except (Message S) Pipe) (result : HRESULT) :
    Except (Error S) Inner := do
  let stdin ← stdin.mapError .other
  let stdout ← stdout.mapError .other
  let con ← PseudoCon.new { X := size.cols.toInt16, Y := size.rows.toInt16 } result
  .ok { con, readable := stdout.read, writable := some stdin.write, size }

def Inner.resize (inner : Inner) (numRows numCols pixelWidth pixelHeight : UInt16)
    (result : HRESULT) : Except (Error S) Unit × Inner :=
  match inner.con.resize { X := numCols.toInt16, Y := numRows.toInt16 } result with
  | .error e => (.error e, inner)
  | .ok con =>
    (.ok (), { inner with
      con, size := { rows := numRows, cols := numCols, pixelWidth, pixelHeight } })

/-- A call of `resize`: the size, and the result of the system call. -/
structure Resize where
  size : PtySize
  result : HRESULT

/-- `MasterPty::resize`. -/
def Resize.call (inner : Inner) (r : Resize) : Except (Error S) Unit × Inner :=
  inner.resize r.size.rows r.size.cols r.size.pixelWidth r.size.pixelHeight r.result

/-- `MasterPty::get_size`. -/
def getSize (inner : Inner) : PtySize := inner.size

/-- The state after a sequence of calls of `resize`. -/
def Inner.after (inner : Inner) (calls : List Resize) : Inner :=
  calls.foldl (fun inner r => (r.call (S := Unit) inner).2) inner

/-- The size of the last call that succeeded, `size` being that of the calls before. -/
def lastSuccess (size : PtySize) (calls : List Resize) : PtySize :=
  calls.foldl (fun size r => if r.result = S_OK then r.size else size) size

/-- `con` was given the columns and rows of `size`, as integers. -/
def Matches (con : PseudoCon) (size : PtySize) : Prop :=
  con.size.X.toInt = size.cols.toNat ∧ con.size.Y.toInt = size.rows.toNat

instance (con : PseudoCon) (size : PtySize) : Decidable (Matches con size) :=
  inferInstanceAs (Decidable (_ ∧ _))

/-- The cast to a signed 16-bit integer keeps the value below 2^15, and only there. -/
theorem toInt16_eq_iff (x : UInt16) : x.toInt16.toInt = x.toNat ↔ x.toNat < 0x8000 := by
  have h : x.toInt16.toInt = x.toBitVec.toInt := rfl
  rw [h, BitVec.toInt_eq_toNat_cond, UInt16.toNat_toBitVec]
  split <;> omega

/-- The console that a call for `size` leaves when it succeeds. -/
def conOf (size : PtySize) : PseudoCon :=
  { size := { X := size.cols.toInt16, Y := size.rows.toInt16 } }

theorem conOf_matches_iff (size : PtySize) :
    Matches (conOf size) size ↔ size.cols.toNat < 0x8000 ∧ size.rows.toNat < 0x8000 :=
  and_congr (toInt16_eq_iff size.cols) (toInt16_eq_iff size.rows)

theorem openpty_failed {size : PtySize} {stdin stdout : Pipe} {result : HRESULT}
    (hr : result ≠ S_OK) :
    openpty (S := S) size (.ok stdin) (.ok stdout) result = .error (.hresult result) := by
  have hcon : PseudoCon.new (S := S) { X := size.cols.toInt16, Y := size.rows.toInt16 } result =
      .error (.hresult result) := if_pos hr
  show (PseudoCon.new _ result).bind _ = _
  rw [hcon]
  rfl

theorem openpty_ok {size : PtySize} {stdin stdout : Except (Message S) Pipe} {result : HRESULT}
    {inner : Inner} (h : openpty size stdin stdout result = .ok inner) :
    inner.size = size ∧ inner.con = conOf size := by
  cases stdin with
  | error e => cases h
  | ok stdin =>
    cases stdout with
    | error e => cases h
    | ok stdout =>
      by_cases hr : result = S_OK
      · subst hr
        cases h
        exact ⟨rfl, rfl⟩
      · rw [openpty_failed hr] at h
        cases h

/-- A call that succeeds sets both sizes, and one that fails neither. -/
theorem call_state (inner : Inner) (r : Resize) :
    (r.call (S := S) inner).2 =
      if r.result = S_OK then { inner with con := conOf r.size, size := r.size } else inner := by
  by_cases hr : r.result = S_OK <;>
    simp [Resize.call, Inner.resize, PseudoCon.resize, conOf, hr]

/-- Both sizes are those of the last call that succeeded. -/
theorem after_sizes (calls : List Resize) (inner : Inner) (h : inner.con = conOf inner.size) :
    (inner.after calls).size = lastSuccess inner.size calls ∧
      (inner.after calls).con = conOf (lastSuccess inner.size calls) := by
  induction calls generalizing inner with
  | nil => exact ⟨rfl, h⟩
  | cons r calls ih =>
    by_cases hr : r.result = S_OK
    · have := ih { inner with con := conOf r.size, size := r.size } rfl
      simpa only [Inner.after, lastSuccess, List.foldl_cons, call_state, if_pos hr] using this
    · simpa only [Inner.after, lastSuccess, List.foldl_cons, call_state, if_neg hr] using ih inner h

/-- After `openpty` and any calls of `resize`, the recorded size is that of the last call
that succeeded; the console has it too exactly when its columns and rows fit in a COORD. -/
theorem sizes_agree_iff (size : PtySize) (stdin stdout : Except (Message S) Pipe)
    (result : HRESULT) (inner : Inner) (h : openpty size stdin stdout result = .ok inner)
    (calls : List Resize) :
    let last := lastSuccess size calls
    getSize (inner.after calls) = last ∧ Matches (inner.after calls).con last ↔
      last.cols.toNat < 0x8000 ∧ last.rows.toNat < 0x8000 := by
  intro last
  obtain ⟨rfl, hcon⟩ := openpty_ok h
  obtain ⟨hsize, hcon⟩ := after_sizes calls inner hcon
  rw [hcon, conOf_matches_iff]
  exact and_iff_right hsize

theorem sizes_agree_after_failure :
    let calls := [{ size := ⟨50, 132, 0, 0⟩, result := S_OK },
      { size := ⟨9, 40000, 0, 0⟩, result := 5 }]
    ∃ inner : Inner,
      openpty (S := Unit) ⟨24, 80, 0, 0⟩ (.ok ⟨3, 4⟩) (.ok ⟨5, 6⟩) S_OK = .ok inner ∧
        getSize (inner.after calls) = ⟨50, 132, 0, 0⟩ ∧
        Matches (inner.after calls).con ⟨50, 132, 0, 0⟩ :=
  ⟨_, rfl, (sizes_agree_iff (S := Unit) ⟨24, 80, 0, 0⟩ (.ok ⟨3, 4⟩) (.ok ⟨5, 6⟩) S_OK _ rfl
    [⟨⟨50, 132, 0, 0⟩, S_OK⟩, ⟨⟨9, 40000, 0, 0⟩, 5⟩]).mpr ⟨by decide, by decide⟩⟩

/-- A console of 40000 columns, whose COORD has -25536. -/
theorem wide_console_disagrees :
    ∃ inner : Inner,
      openpty (S := Unit) ⟨24, 40000, 0, 0⟩ (.ok ⟨3, 4⟩) (.ok ⟨5, 6⟩) S_OK = .ok inner ∧
        getSize inner = ⟨24, 40000, 0, 0⟩ ∧ inner.con.size.X.toInt = -25536 ∧
        ¬ Matches inner.con (getSize inner) :=
  ⟨_, rfl, rfl, by decide, by decide⟩

end Xpty.ConPty
