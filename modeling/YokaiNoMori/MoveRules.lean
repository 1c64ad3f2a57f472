import YokaiNoMori.TryMove

namespace YokaiNoMori.MoveRules

open Search Board TryMove

def forward : Side → Int
  | .north => 1
  | .south => -1

def Orthogonal (dx dy : Int) : Prop := dx.natAbs + dy.natAbs = 1

def Diagonal (dx dy : Int) : Prop := dx.natAbs = 1 ∧ dy.natAbs = 1

def Steps (side : Side) (type : Kind) (dx dy : Int) : Prop :=
  match type with
  | .kodama => dx = 0 ∧ dy = forward side
  | .oni => (dx = 0 ∧ dy = forward side) ∨ Diagonal dx dy
  | .kirin | .samourai | .superoni => Orthogonal dx dy ∨ (Diagonal dx dy ∧ dy = forward side)
  | .koropokkuru => Orthogonal dx dy ∨ Diagonal dx dy

def Occupies (side : Side) (x y : Int) (board : List Piece) : Prop :=
  ∃ p ∈ board, p.side = side ∧ p.x = x ∧ p.y = y

/-- The rules of the game, stated without the tables of the generator. -/
structure Legal (board : List Piece) (side : Side) (type : Kind) (x y nX nY capture : Int) : Prop where
  stands : ⟨side, type, x, y⟩ ∈ board
  inside : (1 ≤ nX ∧ nX ≤ 5) ∧ 1 ≤ nY ∧ nY ≤ 6
  steps : Steps side type (nX - x) (nY - y)
  free : ¬ Occupies side nX nY board
  flag : capture = 0 ∧ ¬ Occupies (opponent side) nX nY board ∨
    capture = 1 ∧ Occupies (opponent side) nX nY board

theorem mem_offsets {side : Side} {type : Kind} {dx dy : Int} :
    (dx, dy) ∈ offsets side type ↔ Steps side type dx dy := by
  cases side <;> cases type <;>
    simp only [offsets, Steps, Orthogonal, Diagonal, forward, List.mem_cons, List.not_mem_nil,
      Prod.mk.injEq, or_false] <;> omega

theorem steps_offset {side : Side} {type : Kind} {x y dx dy : Int} :
    Steps side type (x + dx - x) (y + dy - y) ↔ (dx, dy) ∈ offsets side type := by
  have hx : x + dx - x = dx := by omega
  have hy : y + dy - y = dy := by omega
  rw [hx, hy, mem_offsets]

theorem not_steps_zero (side : Side) (type : Kind) : ¬ Steps side type 0 0 := by
  cases side <;> cases type <;> simp [Steps, Orthogonal, Diagonal, forward]

theorem ne_opponent (side : Side) : side ≠ opponent side := by
  cases side <;> decide

theorem eq_or_opponent (side s : Side) : s = side ∨ s = opponent side := by
  cases side <;> cases s <;> simp [opponent]

/-- A square is empty when neither side stands on it. -/
theorem isEmpty_iff_free {board : List Piece} {x y : Int} (side : Side)
    (hin : (1 ≤ x ∧ x ≤ 5) ∧ 1 ≤ y ∧ y ≤ 6) :
    isEmpty x y board = true ↔ ¬ Occupies side x y board ∧ ¬ Occupies (opponent side) x y board := by
  rw [Board.isEmpty_iff]
  constructor
  · rintro ⟨_, _, h⟩
    constructor
    · rintro ⟨p, hp, _, ho⟩
      exact h p hp ho
    · rintro ⟨p, hp, _, ho⟩
      exact h p hp ho
  · rintro ⟨hs, ho⟩
    refine ⟨hin.1, hin.2, fun p hp hxy => ?_⟩
    rcases eq_or_opponent side p.side with h | h
    · exact hs ⟨p, hp, h, hxy⟩
    · exact ho ⟨p, hp, h, hxy⟩

theorem occupies_inside {board : List Piece} (hb : WellFormed board) {side : Side} {x y : Int}
    (h : Occupies side x y board) : (1 ≤ x ∧ x ≤ 5) ∧ 1 ≤ y ∧ y ≤ 6 := by
  obtain ⟨p, hp, _, rfl, rfl⟩ := h
  have hin := hb.inside p hp
  exact ⟨⟨hin.1, hin.2.1⟩, hin.2.2⟩

/-- Two pieces of a board with one piece a square that share their square are one. -/
theorem eq_of_square {board : List Piece} (hb : WellFormed board) {p q : Piece} (hp : p ∈ board)
    (hq : q ∈ board) (hx : p.x = q.x) (hy : p.y = q.y) : p = q := by
  by_contra hne
  have hsymm : Std.Symm Apart := ⟨fun _ _ h => h.symm⟩
  exact (List.Pairwise.forall hb.apart hp hq hne) ⟨hx, hy⟩

theorem occupies_one {board : List Piece} (hb : WellFormed board) {side : Side} {x y : Int}
    (h : Occupies (opponent side) x y board) : ¬ Occupies side x y board := by
  rintro ⟨q, hq, hqs, hqx, hqy⟩
  obtain ⟨p, hp, hps, hpx, hpy⟩ := h
  have he := eq_of_square hb hp hq (by omega) (by omega)
  subst he
  exact ne_opponent side (hqs.symm.trans hps)

end YokaiNoMori.MoveRules
