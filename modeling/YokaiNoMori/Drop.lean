import YokaiNoMori.ForceMove
import YokaiNoMori.MoveRules

namespace YokaiNoMori.Drop

open Search Board ForceMove MoveRules

def Rows : Side → Int → Prop
  | .north, y => 1 ≤ y ∧ y ≤ 5
  | .south, y => 2 ≤ y ∧ y ≤ 6

instance (side : Side) (y : Int) : Decidable (Rows side y) :=
  match side with
  | .north => inferInstanceAs (Decidable (1 ≤ y ∧ y ≤ 5))
  | .south => inferInstanceAs (Decidable (2 ≤ y ∧ y ≤ 6))

def PieceIn (side : Side) (x : Int) (board : List Piece) : Prop := ∃ p ∈ board, p.side = side ∧ p.x = x

def KodamaIn (side : Side) (x : Int) (board : List Piece) : Prop :=
  ∃ p ∈ board, p.side = side ∧ p.type = .kodama ∧ p.x = x

instance (side : Side) (x : Int) (board : List Piece) : Decidable (PieceIn side x board) :=
  inferInstanceAs (Decidable (∃ p ∈ board, p.side = side ∧ p.x = x))

instance (side : Side) (x : Int) (board : List Piece) : Decidable (KodamaIn side x board) :=
  inferInstanceAs (Decidable (∃ p ∈ board, p.side = side ∧ p.type = .kodama ∧ p.x = x))

/-- A drop with the column rule left aside. -/
structure Placeable (board capt : List Piece) (side : Side) (type : Kind) (x y : Int) : Prop where
  column : 1 ≤ x ∧ x ≤ 5
  row : Rows side y
  free : ∀ p ∈ board, ¬ (p.x = x ∧ p.y = y)
  hand : ∃ p ∈ capt, p.side = side ∧ p.type = type

/-- The rule in the comment of `put`: no second kodama in a column. -/
structure LegalDrop (board capt : List Piece) (side : Side) (type : Kind) (x y : Int) : Prop where
  placeable : Placeable board capt side type x y
  column : ¬ KodamaIn side x board

structure PutsLegally (board capt : List Piece) (side : Side) (type : Kind) (x y : Int) : Prop where
  accepts : put side (some type) x y board capt ≠ [] ↔ LegalDrop board capt side type x y
  newBoard : ∀ new ∈ put side (some type) x y board capt, new.1.Perm (⟨side, type, x, y⟩ :: board)
  newCapt : ∀ new ∈ put side (some type) x y board capt,
    ∃ p, p.side = side ∧ p.type = type ∧ capt.Perm (p :: new.2)

theorem rowAllowed_iff {side : Side} {y : Int} : rowAllowed side y = true ↔ Rows side y := by
  cases side <;> simp [rowAllowed, between, Rows]

theorem inColumn_iff {side : Side} {x : Int} {board : List Piece} :
    board.any (inColumn side x) = true ↔ PieceIn side x board := by
  simp [inColumn, PieceIn]

theorem rows_inside {side : Side} {y : Int} (h : Rows side y) : 1 ≤ y ∧ y ≤ 6 := by
  cases side with
  | north => exact ⟨h.1, Int.le_trans h.2 (by decide)⟩
  | south => exact ⟨Int.le_trans (by decide) h.1, h.2⟩

def Guards (side : Side) (x y : Int) (board : List Piece) : Prop :=
  ((1 ≤ x ∧ x ≤ 5) ∧ Rows side y) ∧ ¬ PieceIn side x board ∧ ∀ p ∈ board, ¬ (p.x = x ∧ p.y = y)

theorem guards_iff {side : Side} {x y : Int} {board : List Piece} :
    (between 1 5 x && rowAllowed side y && !board.any (inColumn side x) && isEmpty x y board) = true ↔
      Guards side x y board := by
  rw [Bool.and_eq_true, Bool.and_eq_true, Bool.and_eq_true, Bool.not_eq_true', Bool.eq_false_iff, Ne,
    inColumn_iff, rowAllowed_iff, Board.isEmpty_iff, between, decide_eq_true_eq, Guards]
  constructor
  · rintro ⟨⟨hin, hcol⟩, _, _, hfree⟩
    exact ⟨hin, hcol, hfree⟩
  · rintro ⟨hin, hcol, hfree⟩
    exact ⟨⟨hin, hcol⟩, hin.1, rows_inside hin.2, hfree⟩

theorem mem_put {side : Side} {type : Option Kind} {x y : Int} {board capt newBoard newCapt : List Piece} :
    (newBoard, newCapt) ∈ put side type x y board capt ↔
      Guards side x y board ∧ ∃ p, newBoard = ⟨side, p.type, x, y⟩ :: board ∧
        (p, newCapt) ∈ select (fun p => p.side == side && unifies type p.type) capt := by
  rw [put]
  split
  · rename_i h
    simp only [List.mem_map, Prod.mk.injEq, Prod.exists, guards_iff.1 h, true_and]
    constructor
    · rintro ⟨p, rest, hs, rfl, rfl⟩
      exact ⟨p, rfl, hs⟩
    · rintro ⟨p, rfl, hs⟩
      exact ⟨p, newCapt, hs, rfl, rfl⟩
  · rename_i h
    rw [guards_iff] at h
    simp only [List.not_mem_nil, h, false_and]

theorem put_ne_nil {side : Side} {type : Option Kind} {x y : Int} {board capt : List Piece} :
    put side type x y board capt ≠ [] ↔
      Guards side x y board ∧ ∃ p ∈ capt, p.side = side ∧ unifies type p.type = true := by
  constructor
  · intro h
    obtain ⟨⟨newBoard, newCapt⟩, hm⟩ := List.exists_mem_of_ne_nil _ h
    obtain ⟨hg, p, _, hs⟩ := mem_put.1 hm
    refine ⟨hg, p, select_mem hs, ?_⟩
    simpa using select_matches hs
  · rintro ⟨hg, p, hp, hside, htype⟩
    obtain ⟨newCapt, hs⟩ := exists_select (p := fun p => p.side == side && unifies type p.type) hp
      (by simp [hside, htype])
    exact List.ne_nil_of_mem (mem_put.2 ⟨hg, p, rfl, hs⟩)

theorem put_accepts {board capt : List Piece} {side : Side} {type : Kind} {x y : Int} :
    put side (some type) x y board capt ≠ [] ↔
      Placeable board capt side type x y ∧ ¬ PieceIn side x board := by
  simp only [put_ne_nil, unifies_some]
  constructor
  · rintro ⟨⟨⟨hx, hy⟩, hcol, hfree⟩, hhand⟩
    exact ⟨⟨hx, hy, hfree, hhand⟩, hcol⟩
  · rintro ⟨⟨hx, hy, hfree, hhand⟩, hcol⟩
    exact ⟨⟨⟨hx, hy⟩, hcol, hfree⟩, hhand⟩

theorem put_some {board capt newBoard newCapt : List Piece} {side : Side} {type : Kind} {x y : Int}
    (h : (newBoard, newCapt) ∈ put side (some type) x y board capt) :
    newBoard = ⟨side, type, x, y⟩ :: board ∧ ∃ p, p.side = side ∧ p.type = type ∧ capt.Perm (p :: newCapt) := by
  obtain ⟨_, p, rfl, hs⟩ := mem_put.1 h
  have hp : p.side = side ∧ p.type = type := by simpa [unifies_some] using select_matches hs
  rw [hp.2]
  exact ⟨rfl, p, hp.1, hp.2, select_perm hs⟩

theorem kodamaIn_pieceIn {side : Side} {x : Int} {board : List Piece} (h : KodamaIn side x board) :
    PieceIn side x board := by
  obtain ⟨p, hp, hside, _, hx⟩ := h
  exact ⟨p, hp, hside, hx⟩

/-- A piece of the side that is no kodama forbids the drop as well: the answers
are those of the rule exactly when no such piece stands alone in its column. -/
theorem put_legally_iff (board capt : List Piece) (side : Side) (type : Kind) (x y : Int) :
    PutsLegally board capt side type x y ↔
      (Placeable board capt side type x y → PieceIn side x board → KodamaIn side x board) := by
  constructor
  · intro h hplace hpiece
    by_contra hkodama
    have hput := h.accepts.2 ⟨hplace, hkodama⟩
    exact (put_accepts.1 hput).2 hpiece
  · intro hcond
    constructor
    · rw [put_accepts]
      constructor
      · rintro ⟨hplace, hcol⟩
        exact ⟨hplace, fun hk => hcol (kodamaIn_pieceIn hk)⟩
      · rintro ⟨hplace, hcol⟩
        exact ⟨hplace, fun hp => hcol (hcond hplace hp)⟩
    · rintro ⟨newBoard, newCapt⟩ hm
      rw [(put_some hm).1]
    · rintro ⟨newBoard, newCapt⟩ hm
      exact (put_some hm).2

def kings : List Piece := [⟨.north, .koropokkuru, 1, 1⟩, ⟨.south, .koropokkuru, 3, 6⟩]

/-- The koropokkuru on the first row keeps a kodama from being dropped in its column. -/
theorem kings_refused :
    WellFormed kings ∧ LegalDrop kings [⟨.north, .kodama, 0, 0⟩] .north .kodama 1 3 ∧
      put .north (some .kodama) 1 3 kings [⟨.north, .kodama, 0, 0⟩] = [] ∧
      ¬ PutsLegally kings [⟨.north, .kodama, 0, 0⟩] .north .kodama 1 3 := by
  have hlegal : LegalDrop kings [⟨.north, .kodama, 0, 0⟩] .north .kodama 1 3 :=
    ⟨⟨by decide, by decide, by decide, by decide⟩, by decide⟩
  have hrefused : put .north (some .kodama) 1 3 kings [⟨.north, .kodama, 0, 0⟩] = [] := by decide
  refine ⟨⟨?_, ?_⟩, hlegal, hrefused, fun h => h.accepts.2 hlegal hrefused⟩
  · simp [kings, Piece.OnBoard]
  · simp [kings, Apart]

end YokaiNoMori.Drop
