import Mathlib.Algebra.GroupWithZero.Nat
import Mathlib.Data.List.Basic
import Mathlib.Order.Lattice

/-!
# Drafts

A buffer that is written with the lengths added up: each write moves the position by the
length of its text, whether or not the text fits. A `Draft` keeps the text that a buffer
without end would hold, and the highest position so far; the buffer of `cap` bytes has been
kept to while that position stays below `cap`.

What is written comes in pieces, some of which look at the room that is left. `fits_iff` says
which lists of pieces keep to the buffer, by the lengths of their texts alone.
-/

namespace AimeeMemory.Lib

variable {α : Type*}

/-- What has been written, and the highest position so far. -/
structure Draft (α : Type*) where
  text : List α
  peak : ℕ
  pos_le_peak : text.length ≤ peak

/-- What is written: texts that look at no room, taken back where they are not kept; the same, but nothing at all
into a full buffer; texts each of which is written where it fits, up to the first that does not; texts each of which
is written where the position is still below the margin at the end. -/
inductive Piece (α : Type*) where
  | block (texts : List (List α)) (kept : Bool)
  | unlessFull (texts : List (List α)) (kept : Bool)
  | checked (texts : List (List α))
  | paused (margin : ℕ) (texts : List (List α))

namespace Draft

/-- The position. -/
abbrev pos (d : Draft α) : ℕ := d.text.length

/-- The draft of a text written into an empty buffer. -/
def start (t : List α) : Draft α := ⟨t, t.length, le_rfl⟩

def write (d : Draft α) (t : List α) : Draft α :=
  ⟨d.text ++ t, max d.peak (d.pos + t.length), by simp⟩

/-- The position is set back. -/
def rewind (d : Draft α) (n : ℕ) : Draft α := ⟨d.text.take n, d.peak, by simpa using Or.inr d.pos_le_peak⟩

def writeBlock (d : Draft α) (texts : List (List α)) (kept : Bool) : Draft α :=
  if kept then texts.foldl write d else (texts.foldl write d).rewind d.pos

def writeChecked (cap : ℕ) : Draft α → List (List α) → Draft α
  | d, [] => d
  | d, t :: ts => if d.pos + t.length < cap then writeChecked cap (d.write t) ts else d

def writePaused (cap margin : ℕ) : Draft α → List (List α) → Draft α
  | d, [] => d
  | d, t :: ts => if d.pos + margin < cap then writePaused cap margin (d.write t) ts else d

def writePiece (cap : ℕ) (d : Draft α) : Piece α → Draft α
  | .block texts kept => d.writeBlock texts kept
  | .unlessFull texts kept => if cap ≤ d.pos then d else d.writeBlock texts kept
  | .checked texts => writeChecked cap d texts
  | .paused margin texts => writePaused cap margin d texts

/-- The pieces are written in order. -/
def writeAll (cap : ℕ) (d : Draft α) (pieces : List (Piece α)) : Draft α := pieces.foldl (writePiece cap) d

end Draft

/-! ## The room that pieces need -/

def total (texts : List (List α)) : ℕ := (texts.map List.length).sum

/-- Where checked texts end. -/
def checkedEnd (cap : ℕ) : ℕ → List (List α) → ℕ
  | p, [] => p
  | p, t :: ts => if p + t.length < cap then checkedEnd cap (p + t.length) ts else p

/-- Where paused texts end. -/
def pausedEnd (cap margin : ℕ) : ℕ → List (List α) → ℕ
  | p, [] => p
  | p, t :: ts => if p + margin < cap then pausedEnd cap margin (p + t.length) ts else p

/-- Where a piece that starts at `p` ends. -/
def Piece.stop (cap p : ℕ) : Piece α → ℕ
  | .block texts kept | .unlessFull texts kept => if kept then p + total texts else p
  | .checked texts => checkedEnd cap p texts
  | .paused margin texts => pausedEnd cap margin p texts

/-- The room that a piece takes from `p` on is there. Texts that are checked need none. -/
def Piece.Room (cap p : ℕ) : Piece α → Prop
  | .block texts _ | .unlessFull texts _ => p + total texts < cap
  | .checked _ => True
  | .paused margin texts => pausedEnd cap margin p texts < cap

/-- From `p` on there is room for each piece where it starts. -/
def Fits (cap : ℕ) : ℕ → List (Piece α) → Prop
  | _, [] => True
  | p, piece :: pieces => piece.Room cap p ∧ Fits cap (piece.stop cap p) pieces

variable {cap margin p : ℕ} {d : Draft α} {texts : List (List α)}

theorem le_pausedEnd : p ≤ pausedEnd cap margin p texts := by
  induction texts generalizing p with
  | nil => exact le_rfl
  | cons t ts ih =>
    unfold pausedEnd
    split
    · exact (Nat.le_add_right p t.length).trans ih
    · exact le_rfl

namespace Draft

@[simp] theorem start_pos (t : List α) : (start t).pos = t.length := rfl
@[simp] theorem start_peak (t : List α) : (start t).peak = t.length := rfl
@[simp] theorem write_peak (d : Draft α) (t : List α) : (d.write t).peak = max d.peak (d.pos + t.length) := rfl
@[simp] theorem write_pos (d : Draft α) (t : List α) : (d.write t).pos = d.pos + t.length := List.length_append
@[simp] theorem rewind_peak (d : Draft α) (n : ℕ) : (d.rewind n).peak = d.peak := rfl

theorem foldl_write_pos (texts : List (List α)) (d : Draft α) : (texts.foldl write d).pos = d.pos + total texts := by
  induction texts generalizing d with
  | nil => rfl
  | cons t ts ih => rw [List.foldl_cons, ih, write_pos, total, total, List.map_cons, List.sum_cons, Nat.add_assoc]

theorem foldl_write_peak_lt (texts : List (List α)) (d : Draft α) :
    (texts.foldl write d).peak < cap ↔ d.peak < cap ∧ d.pos + total texts < cap := by
  induction texts generalizing d with
  | nil =>
    refine ⟨fun h => ⟨h, ?_⟩, And.left⟩
    exact d.pos_le_peak.trans_lt h
  | cons t ts ih =>
    have htotal : total (t :: ts) = t.length + total ts := by rw [total, List.map_cons, List.sum_cons, total]
    rw [List.foldl_cons, ih, write_peak, write_pos, Nat.max_lt, htotal, Nat.add_assoc]
    refine ⟨fun ⟨⟨hpeak, _⟩, hall⟩ => ⟨hpeak, hall⟩, fun ⟨hpeak, hall⟩ => ⟨⟨hpeak, ?_⟩, hall⟩⟩
    omega

theorem take_foldl_write (texts : List (List α)) (d : Draft α) : (texts.foldl write d).text.take d.pos = d.text := by
  induction texts generalizing d with
  | nil => exact List.take_length
  | cons t ts ih =>
    have hprefix := congrArg (List.take d.pos) (ih (d.write t))
    rw [List.take_take, write_pos, Nat.min_eq_left (Nat.le_add_right _ _)] at hprefix
    rw [List.foldl_cons, hprefix]
    exact List.take_left

theorem writeBlock_pos (d : Draft α) (texts : List (List α)) (kept : Bool) :
    (d.writeBlock texts kept).pos = if kept then d.pos + total texts else d.pos := by
  unfold writeBlock
  split
  · exact foldl_write_pos texts d
  · exact congrArg List.length (take_foldl_write texts d)

theorem writeBlock_peak_lt (d : Draft α) (texts : List (List α)) (kept : Bool) :
    (d.writeBlock texts kept).peak < cap ↔ d.peak < cap ∧ d.pos + total texts < cap := by
  unfold writeBlock
  split
  · exact foldl_write_peak_lt texts d
  · exact foldl_write_peak_lt texts d

theorem writeChecked_pos (d : Draft α) : (writeChecked cap d texts).pos = checkedEnd cap d.pos texts := by
  induction texts generalizing d with
  | nil => rfl
  | cons t ts ih =>
    unfold writeChecked checkedEnd
    split
    · rw [ih, write_pos]
    · rfl

theorem writeChecked_peak_lt (d : Draft α) : (writeChecked cap d texts).peak < cap ↔ d.peak < cap := by
  induction texts generalizing d with
  | nil => exact Iff.rfl
  | cons t ts ih =>
    unfold writeChecked
    split
    · rename_i hfits
      rw [ih, write_peak, Nat.max_lt, and_iff_left hfits]
    · exact Iff.rfl

theorem writePaused_pos (d : Draft α) : (writePaused cap margin d texts).pos = pausedEnd cap margin d.pos texts := by
  induction texts generalizing d with
  | nil => rfl
  | cons t ts ih =>
    unfold writePaused pausedEnd
    split
    · rw [ih, write_pos]
    · rfl

theorem writePaused_peak_lt (d : Draft α) :
    (writePaused cap margin d texts).peak < cap ↔ d.peak < cap ∧ pausedEnd cap margin d.pos texts < cap := by
  induction texts generalizing d with
  | nil => exact ⟨fun h => ⟨h, d.pos_le_peak.trans_lt h⟩, And.left⟩
  | cons t ts ih =>
    unfold writePaused pausedEnd
    split
    · rw [ih, write_peak, write_pos, Nat.max_lt]
      refine ⟨fun ⟨⟨hpeak, _⟩, hend⟩ => ⟨hpeak, hend⟩, fun ⟨hpeak, hend⟩ => ⟨⟨hpeak, ?_⟩, hend⟩⟩
      exact le_pausedEnd.trans_lt hend
    · exact ⟨fun h => ⟨h, d.pos_le_peak.trans_lt h⟩, And.left⟩

/-- A piece keeps to the buffer where there is room for it, and ends where its lengths say. -/
theorem writePiece_peak_lt (d : Draft α) (piece : Piece α) :
    (d.writePiece cap piece).peak < cap ↔ d.peak < cap ∧ piece.Room cap d.pos := by
  cases piece with
  | block texts kept => exact writeBlock_peak_lt d texts kept
  | unlessFull texts kept =>
    simp only [writePiece, Piece.Room]
    split
    · rename_i hfull
      have hpeak : d.pos ≤ d.peak := d.pos_le_peak
      exact ⟨fun h => absurd h (by omega), fun h => absurd h.1 (by omega)⟩
    · exact writeBlock_peak_lt d texts kept
  | checked texts => exact (writeChecked_peak_lt d).trans (and_iff_left trivial).symm
  | paused margin texts => exact writePaused_peak_lt d

theorem writePiece_pos (piece : Piece α) (h : d.peak < cap) : (d.writePiece cap piece).pos = piece.stop cap d.pos := by
  cases piece with
  | block texts kept => exact writeBlock_pos d texts kept
  | unlessFull texts kept =>
    have hroom : ¬ cap ≤ d.pos := not_le.2 (d.pos_le_peak.trans_lt h)
    rw [writePiece, if_neg hroom]
    exact writeBlock_pos d texts kept
  | checked texts => exact writeChecked_pos d
  | paused margin texts => exact writePaused_pos d

/-- **The pieces keep to the buffer iff each finds its room where it starts.** -/
theorem writeAll_peak_lt_iff (pieces : List (Piece α)) (d : Draft α) :
    (d.writeAll cap pieces).peak < cap ↔ d.peak < cap ∧ Fits cap d.pos pieces := by
  induction pieces generalizing d with
  | nil => exact (and_iff_left trivial).symm
  | cons piece pieces ih =>
    rw [writeAll, List.foldl_cons, ← writeAll, ih, writePiece_peak_lt, Fits, and_assoc]
    refine and_congr_right fun hpeak => and_congr_right fun _ => ?_
    rw [writePiece_pos piece hpeak]

end Draft

end AimeeMemory.Lib
