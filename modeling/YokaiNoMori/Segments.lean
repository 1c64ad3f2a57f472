import Mathlib.Data.List.Basic

namespace YokaiNoMori.Segments

/-! Byte sources whose reads may be cut short anywhere, and the loop that
repeats a read until it has what it wants. -/

variable {α : Type}

/-- What is still to be read, and for each read to come how far it may reach:
one byte more than the number says. Past the list a read reaches as far as it
asks. -/
structure Source (α : Type) where
  bytes : List α
  cuts : List Nat

def Source.reach (src : Source α) (want : Nat) : Nat := (src.cuts.head?.map fun cut => min want (cut + 1)).getD want

/-- A read of at most `want` bytes. It returns nothing at the end of the source only. -/
def Source.read (src : Source α) (want : Nat) : List α × Source α :=
  (src.bytes.take (src.reach want), ⟨src.bytes.drop (src.reach want), src.cuts.tail⟩)

/-- The loop stops early when a read returns nothing. Every other turn takes at
least one byte, so `want` turns are enough. -/
def readLoop : Nat → Nat → Source α → List α × Source α
  | 0, _, src => ([], src)
  | turns + 1, want, src =>
      if want = 0 then ([], src)
      else
        let r := src.read want
        if r.1 = [] then r
        else
          let rest := readLoop turns (want - r.1.length) r.2
          (r.1 ++ rest.1, rest.2)

theorem reach_pos (src : Source α) {want : Nat} (h : 0 < want) : 0 < src.reach want := by
  rw [Source.reach]
  cases src.cuts with
  | nil => exact h
  | cons cut cuts => exact Nat.lt_min.2 ⟨h, Nat.succ_pos cut⟩

theorem reach_le (src : Source α) (want : Nat) : src.reach want ≤ want := by
  rw [Source.reach]
  cases src.cuts with
  | nil => exact Nat.le_refl want
  | cons cut cuts => exact Nat.min_le_left want (cut + 1)

theorem read_append (src : Source α) (want : Nat) : (src.read want).1 ++ (src.read want).2.bytes = src.bytes :=
  List.take_append_drop _ _

theorem length_read_le (src : Source α) (want : Nat) : (src.read want).1.length ≤ want := by
  have := reach_le src want
  simp only [Source.read, List.length_take]
  omega

theorem read_eq_nil {src : Source α} {want : Nat} (hwant : 0 < want) (h : (src.read want).1 = []) :
    src.bytes = [] := by
  have hpos := reach_pos src hwant
  rcases List.take_eq_nil_iff.1 h with h | h
  · omega
  · exact h

/-- However the source is cut, the loop takes the bytes it wants, or all that
there are. -/
theorem readLoop_bytes {turns want : Nat} (src : Source α) (h : want ≤ turns) :
    (readLoop turns want src).1 = src.bytes.take want ∧
      (readLoop turns want src).2.bytes = src.bytes.drop want := by
  induction turns generalizing want src with
  | zero =>
      obtain rfl : want = 0 := by omega
      exact ⟨rfl, rfl⟩
  | succ turns ih =>
      rw [readLoop]
      split
      · rename_i hzero
        rw [hzero]
        exact ⟨rfl, rfl⟩
      · rename_i hpos
        have hwhole := read_append src want
        by_cases hnil : (src.read want).1 = []
        · have hend := read_eq_nil (by omega) hnil
          rw [hnil, hend, List.nil_append] at hwhole
          rw [if_pos hnil, hnil, hwhole, hend, List.take_nil, List.drop_nil]
          exact ⟨rfl, rfl⟩
        · have hle := length_read_le src want
          have hlt := List.length_pos_iff.2 hnil
          have hless : want - (src.read want).1.length ≤ turns := by omega
          obtain ⟨hgot, hleft⟩ := ih (src.read want).2 hless
          rw [if_neg hnil]
          simp only
          rw [hgot, hleft, ← hwhole, List.take_append, List.drop_append, List.take_of_length_le hle,
            List.drop_of_length_le hle, List.nil_append]
          exact ⟨rfl, rfl⟩

theorem readLoop_exact {want : Nat} {bytes : List α} (rest : List α) (cuts : List Nat) (h : bytes.length = want) :
    ∃ cuts', readLoop want want ⟨bytes ++ rest, cuts⟩ = (bytes, ⟨rest, cuts'⟩) := by
  obtain ⟨hgot, hleft⟩ := readLoop_bytes ⟨bytes ++ rest, cuts⟩ (Nat.le_refl want)
  simp only [← h, List.take_left, List.drop_left] at hgot hleft
  rw [h] at hgot hleft
  generalize readLoop want want ⟨bytes ++ rest, cuts⟩ = result at hgot hleft
  exact ⟨result.2.cuts, by rw [← hgot, ← hleft]⟩

theorem read_one {b : α} {rest : List α} (cuts : List Nat) :
    (Source.mk (b :: rest) cuts).read 1 = ([b], ⟨rest, cuts.tail⟩) := by
  have hreach : (Source.mk (b :: rest) cuts).reach 1 = 1 :=
    Nat.le_antisymm (reach_le _ 1) (reach_pos _ Nat.one_pos)
  rw [Source.read, hreach]
  rfl

section Frames

variable {frames : List (List α)} {n : Nat} {frame mem got : List α}

/-- A single read into memory: only the bytes that have come are written. -/
def overwrite (mem got : List α) : List α := got ++ mem.drop got.length

theorem overwrite_whole (h : mem.length ≤ got.length) : overwrite mem got = got := by
  rw [overwrite, List.drop_of_length_le h, List.append_nil]

/-- What is still to be read when the first `n` frames have been. -/
def remaining (frames : List (List α)) (n : Nat) : List α := (frames.drop n).flatten

theorem remaining_frame (h : frames[n]? = some frame) :
    remaining frames n = frame ++ remaining frames (n + 1) := by
  obtain ⟨hlt, rfl⟩ := List.getElem?_eq_some_iff.1 h
  rw [remaining, List.drop_eq_getElem_cons hlt, List.flatten_cons]
  rfl

theorem exists_frame (h : remaining frames n ≠ []) : ∃ frame, frames[n]? = some frame := by
  cases hframe : frames[n]? with
  | some frame => exact ⟨frame, rfl⟩
  | none =>
      rw [remaining, List.drop_of_length_le (List.getElem?_eq_none_iff.1 hframe)] at h
      exact absurd rfl h

/-- A read that takes as many bytes as the next frame has stores that frame and
leaves the stream at the one after it. -/
theorem read_frame (h : frames[n]? = some frame) (hmem : mem.length ≤ frame.length) :
    overwrite mem ((remaining frames n).take frame.length) = frame ∧
      (remaining frames n).drop frame.length = remaining frames (n + 1) := by
  rw [remaining_frame h, List.take_left, List.drop_left]
  exact ⟨overwrite_whole hmem, rfl⟩

/-- A read that takes all the bytes of its variable stores the next frame, when
that one has their number. -/
theorem read_next {stream : List α} {len size : Nat} (hstream : stream = remaining frames n) (hpos : 0 < len)
    (hlen : len ≤ stream.length) (hwhole : (stream.take len).length = size) (hmem : mem.length = size)
    (hsize : ∀ frame, frames[n]? = some frame → frame.length = size) :
    frames[n]? = some (overwrite mem (stream.take len)) ∧ stream.drop len = remaining frames (n + 1) := by
  rw [List.length_take_of_le hlen] at hwhole
  have hne : remaining frames n ≠ [] := by
    rw [← hstream]
    exact List.length_pos_iff.1 (by omega)
  obtain ⟨frame, hframe⟩ := exists_frame hne
  have hlength := hsize frame hframe
  have hfull : mem.length ≤ frame.length := by omega
  obtain ⟨hstored, hleft⟩ := read_frame hframe hfull
  rw [hwhole, ← hlength, hstream, hstored, hleft]
  exact ⟨hframe, rfl⟩

end Frames

end YokaiNoMori.Segments
