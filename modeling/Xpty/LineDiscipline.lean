import Mathlib.Data.List.Basic

/- The input side of a terminal. In canonical mode what is received is gathered into
   lines, which a newline or the end-of-file character makes readable; the latter is not
   part of its line, and an empty line that it ends reads as the end of the file. Without
   canonical mode all input is readable at once.

   Input without the end-of-file character is delivered as it is: what was read and the
   line not yet ended are what was received (`Holds`). -/
namespace LineDiscipline

variable {α : Type}

/-- What a reader reads. -/
inductive Item (α : Type) where
  | byte (a : α)
  | eof
  deriving DecidableEq, Repr

/-- The bytes among what was read. -/
def bytesRead (items : List (Item α)) : List α :=
  items.filterMap fun item =>
    match item with
    | .byte a => some a
    | .eof => none

/-- `eof` is the end-of-file character, if there is one. -/
structure Mode (α : Type) where
  canonical : Bool
  eof : Option α
  deriving DecidableEq, Repr

/-- A terminal. Lines are gathered in canonical mode only. -/
structure Tty (α : Type) where
  mode : Mode α
  line : List α
  readable : List (Item α)
  raw : mode.canonical = false → line = []

namespace Tty

/-- A terminal that has received nothing. -/
def start (mode : Mode α) : Tty α := { mode, line := [], readable := [], raw := fun _ => rfl }

/-- Ends the line: it can be read. -/
def push (tty : Tty α) (items : List (Item α)) : Tty α :=
  { mode := tty.mode, line := [], readable := tty.readable ++ items, raw := fun _ => rfl }

/-- A change between the modes makes an unfinished line readable. -/
def setMode (tty : Tty α) (mode : Mode α) : Tty α :=
  if h : mode.canonical = tty.mode.canonical then
    { tty with mode, raw := fun hraw => tty.raw (h ▸ hraw) }
  else { tty.push (tty.line.map .byte) with mode, raw := fun _ => rfl }

/-- Adds to the line. -/
def extend (tty : Tty α) (h : tty.mode.canonical = true) (c : α) : Tty α :=
  { tty with line := tty.line ++ [c], raw := fun hraw => by rw [h] at hraw; cases hraw }

section
variable [DecidableEq α] (newline : α)

/-- One character of input. A newline is one even where it is the end-of-file character. -/
def receive (tty : Tty α) (c : α) : Tty α :=
  if h : tty.mode.canonical = true then
    if c = newline then tty.push ((tty.line ++ [newline]).map .byte)
    else if tty.mode.eof = some c then
      tty.push (if tty.line.isEmpty then [.eof] else tty.line.map .byte)
    else tty.extend h c
  else tty.push [.byte c]

def receiveAll (tty : Tty α) (input : List α) : Tty α := input.foldl (receive newline) tty

variable {newline} {tty : Tty α} {c : α}

theorem receive_raw (h : tty.mode.canonical = false) :
    tty.receive newline c = tty.push [.byte c] := dif_neg (by simp [h])

theorem receive_newline (h : tty.mode.canonical = true) :
    tty.receive newline newline = tty.push ((tty.line ++ [newline]).map .byte) := by
  rw [receive, dif_pos h, if_pos rfl]

theorem receive_eof (h : tty.mode.canonical = true) (hc : c ≠ newline)
    (heof : tty.mode.eof = some c) : tty.receive newline c =
      tty.push (if tty.line.isEmpty then [.eof] else tty.line.map .byte) := by
  rw [receive, dif_pos h, if_neg hc, if_pos heof]

theorem receive_other (h : tty.mode.canonical = true) (hc : c ≠ newline)
    (heof : tty.mode.eof ≠ some c) : tty.receive newline c = tty.extend h c := by
  rw [receive, dif_pos h, if_neg hc, if_neg heof]

/-- Input is added to the line, or makes something readable. -/
theorem receive_cases (newline : α) (tty : Tty α) (c : α) : (∃ h, tty.receive newline c = tty.extend h c) ∨
    ∃ items, tty.receive newline c = tty.push items := by
  rw [receive]
  split
  · next h =>
    split
    · exact .inr ⟨_, rfl⟩
    · split
      · exact .inr ⟨_, rfl⟩
      · exact .inl ⟨h, rfl⟩
  · exact .inr ⟨_, rfl⟩

@[simp] theorem mode_receive (tty : Tty α) (c : α) : (tty.receive newline c).mode = tty.mode := by
  obtain ⟨h, hc⟩ | ⟨items, hc⟩ := receive_cases newline tty c
  · rw [hc]; rfl
  · rw [hc]; rfl

@[simp] theorem mode_receiveAll (tty : Tty α) (input : List α) :
    (tty.receiveAll newline input).mode = tty.mode := by
  induction input generalizing tty with
  | nil => rfl
  | cons c input ih => exact (ih _).trans (mode_receive tty c)

/-- Input only adds to what can be read. -/
theorem readable_prefix_receive (newline : α) (tty : Tty α) (c : α) :
    tty.readable <+: (tty.receive newline c).readable := by
  obtain ⟨h, hc⟩ | ⟨items, hc⟩ := receive_cases newline tty c
  · rw [hc]; exact List.prefix_rfl
  · rw [hc]; exact List.prefix_append _ _

/-- After a newline, nothing is left to be read later. -/
theorem line_receive_newline (newline : α) (tty : Tty α) :
    (tty.receive newline newline).line = [] := by
  cases h : tty.mode.canonical with
  | false => rw [receive_raw h]; rfl
  | true => rw [receive_newline h]; rfl

end

/-- The bytes read, and those of the line, are what was received. -/
def Holds (tty : Tty α) (received : List α) : Prop :=
  tty.readable ++ tty.line.map .byte = received.map .byte

theorem holds_start (mode : Mode α) : (start mode).Holds [] := rfl

theorem Holds.setMode {tty : Tty α} {received : List α} (h : tty.Holds received) (mode : Mode α) :
    (tty.setMode mode).Holds received := by
  unfold Tty.setMode
  split
  · exact h
  · exact (List.append_nil _).trans h

theorem Holds.bytesRead_append {tty : Tty α} {received : List α} (h : tty.Holds received) :
    bytesRead tty.readable ++ tty.line = received := by
  have hbytes : ∀ l : List α, bytesRead (l.map .byte) = l := by
    intro l
    rw [bytesRead, List.filterMap_map]
    exact List.filterMap_some
  have := congrArg bytesRead h
  rwa [bytesRead, List.filterMap_append, ← bytesRead, ← bytesRead, hbytes, hbytes] at this

/-- No end of file is read. -/
theorem Holds.not_eof {tty : Tty α} {received : List α} (h : tty.Holds received) :
    .eof ∉ tty.readable := by
  intro hmem
  have hall : Item.eof ∈ received.map .byte := h ▸ List.mem_append_left _ hmem
  simp at hall

section
variable [DecidableEq α] {newline : α}

/-- A character is data unless it is the end-of-file character in canonical mode. -/
def Data (newline : α) (mode : Mode α) (c : α) : Prop :=
  mode.canonical = true → c ≠ newline → mode.eof ≠ some c

theorem Holds.receive {tty : Tty α} {received : List α} (h : tty.Holds received) {c : α}
    (hc : Data newline tty.mode c) : (tty.receive newline c).Holds (received ++ [c]) := by
  unfold Holds at h ⊢
  cases hmode : tty.mode.canonical with
  | false =>
    rw [tty.raw hmode] at h
    rw [receive_raw hmode]
    simpa [push] using h
  | true =>
    rw [List.map_append, ← h]
    by_cases hnl : c = newline
    · subst hnl
      rw [receive_newline hmode]
      simp [push]
    · rw [receive_other hmode hnl (hc hmode hnl)]
      simp [extend]

theorem Holds.receiveAll {input : List α} {tty : Tty α} {received : List α} (h : tty.Holds received)
    (hinput : ∀ c ∈ input, Data newline tty.mode c) :
    (tty.receiveAll newline input).Holds (received ++ input) := by
  induction input generalizing tty received with
  | nil => rwa [List.append_nil]
  | cons c input ih =>
    rw [List.forall_mem_cons] at hinput
    rw [Tty.receiveAll, List.foldl_cons, List.append_cons]
    refine ih (h.receive hinput.1) fun d hd => ?_
    rw [mode_receive]
    exact hinput.2 d hd

/-- A newline and the end-of-file character: the line is ended and then the file. -/
theorem readable_newline_eof {tty : Tty α} {e : α} (hmode : tty.mode.canonical = true)
    (heof : tty.mode.eof = some e) (he : e ≠ newline) :
    let after := (tty.receive newline newline).receive newline e
    after.readable = tty.readable ++ (tty.line ++ [newline]).map .byte ++ [.eof] ∧ after.line = [] := by
  intro after
  have hline := line_receive_newline newline tty
  have hafter : after = (tty.receive newline newline).push [.eof] := by
    have h : after = _ := receive_eof (by rw [mode_receive, hmode]) he (by rw [mode_receive, heof])
    rwa [hline] at h
  rw [hafter, receive_newline hmode]
  exact ⟨rfl, rfl⟩

end

end Tty

end LineDiscipline
