import YokaiNoMori.Search

namespace YokaiNoMori.Board

open Search

inductive Side
  | north | south
deriving DecidableEq, Repr

inductive Kind
  | kodama | samourai | oni | superoni | kirin | koropokkuru
deriving DecidableEq, Repr

/-- The term `piece(Side, Type, X, Y)`. A captured piece stands at `(0, 0)`. -/
structure Piece where
  side : Side
  type : Kind
  x : Int
  y : Int
deriving DecidableEq, Repr

def initialBoard : List Piece :=
  [⟨.north, .oni, 1, 1⟩, ⟨.north, .kirin, 2, 1⟩, ⟨.north, .koropokkuru, 3, 1⟩,
   ⟨.north, .kirin, 4, 1⟩, ⟨.north, .oni, 5, 1⟩, ⟨.north, .kodama, 2, 3⟩,
   ⟨.north, .kodama, 3, 3⟩, ⟨.north, .kodama, 4, 3⟩,
   ⟨.south, .oni, 1, 6⟩, ⟨.south, .kirin, 2, 6⟩, ⟨.south, .koropokkuru, 3, 6⟩,
   ⟨.south, .kirin, 4, 6⟩, ⟨.south, .oni, 5, 6⟩, ⟨.south, .kodama, 2, 4⟩,
   ⟨.south, .kodama, 3, 4⟩, ⟨.south, .kodama, 4, 4⟩]

def opponent : Side → Side
  | .north => .south
  | .south => .north

def between (low high n : Int) : Bool := decide (low ≤ n ∧ n ≤ high)

def Piece.stands (x y : Int) (p : Piece) : Bool := p.x == x && p.y == y

def isEmpty (x y : Int) (board : List Piece) : Bool :=
  between 1 5 x && between 1 6 y && !board.any (Piece.stands x y)

/-- The disjunction on `CorrectedType`: its last alternative has no guard, so
a promoted piece has a second answer in which it keeps its promotion. -/
def correctedTypes : Kind → List Kind
  | .samourai => [.kodama, .samourai]
  | .superoni => [.oni, .superoni]
  | type => [type]

def opposes (piece q : Piece) : Bool := q.side == opponent piece.side && q.stands piece.x piece.y

def capture (piece : Piece) (board capt : List Piece) : List (List Piece × List Piece) :=
  (select (opposes piece) board).flatMap fun (taken, tempBoard) =>
    (correctedTypes taken.type).map fun type => (piece :: tempBoard, ⟨piece.side, type, 0, 0⟩ :: capt)

def move (piece : Piece) (board : List Piece) : List Piece := piece :: board

def Piece.OnBoard (p : Piece) : Prop := 1 ≤ p.x ∧ p.x ≤ 5 ∧ 1 ≤ p.y ∧ p.y ≤ 6

def Apart (p q : Piece) : Prop := ¬ (p.x = q.x ∧ p.y = q.y)

structure WellFormed (board : List Piece) : Prop where
  inside : ∀ p ∈ board, p.OnBoard
  apart : board.Pairwise Apart

@[simp] theorem opponent_opponent (s : Side) : opponent (opponent s) = s := by cases s <;> rfl

theorem Apart.symm {p q : Piece} (h : Apart p q) : Apart q p := by
  unfold Apart at *
  omega

@[simp] theorem stands_iff {x y : Int} {p : Piece} : p.stands x y = true ↔ p.x = x ∧ p.y = y := by
  simp [Piece.stands]

theorem isEmpty_iff {x y : Int} {board : List Piece} :
    isEmpty x y board = true ↔
      (1 ≤ x ∧ x ≤ 5) ∧ (1 ≤ y ∧ y ≤ 6) ∧ ∀ p ∈ board, ¬ (p.x = x ∧ p.y = y) := by
  simp [isEmpty, between, and_assoc]

theorem opposes_iff {piece q : Piece} :
    opposes piece q = true ↔ q.side = opponent piece.side ∧ q.x = piece.x ∧ q.y = piece.y := by
  simp [opposes]

theorem wellFormed_perm {as bs : List Piece} (h : as.Perm bs) : WellFormed as ↔ WellFormed bs := by
  constructor
  · intro ha
    exact ⟨fun p hp => ha.inside p (h.mem_iff.2 hp), h.pairwise ha.apart (fun hx => hx.symm)⟩
  · intro hb
    exact ⟨fun p hp => hb.inside p (h.mem_iff.1 hp), h.symm.pairwise hb.apart (fun hx => hx.symm)⟩

theorem wellFormed_cons {p : Piece} {board : List Piece} :
    WellFormed (p :: board) ↔ p.OnBoard ∧ (∀ q ∈ board, Apart p q) ∧ WellFormed board := by
  constructor
  · intro h
    obtain ⟨hp, hb⟩ := List.pairwise_cons.1 h.apart
    exact ⟨h.inside p (by simp), hp, fun q hq => h.inside q (by simp [hq]), hb⟩
  · rintro ⟨hp, hq, hb⟩
    refine ⟨?_, List.pairwise_cons.2 ⟨hq, hb.apart⟩⟩
    intro q hm
    rcases List.mem_cons.1 hm with rfl | hm
    · exact hp
    · exact hb.inside q hm

theorem WellFormed.rest {p : Piece} {board tempBoard : List Piece} (h : WellFormed board)
    (hp : board.Perm (p :: tempBoard)) : WellFormed tempBoard :=
  (wellFormed_cons.1 ((wellFormed_perm hp).1 h)).2.2

theorem WellFormed.put {board : List Piece} (h : WellFormed board) {x y : Int} (he : isEmpty x y board = true)
    (side : Side) (type : Kind) : WellFormed (⟨side, type, x, y⟩ :: board) := by
  obtain ⟨hx, hy, hfree⟩ := isEmpty_iff.1 he
  refine wellFormed_cons.2 ⟨⟨hx.1, hx.2, hy.1, hy.2⟩, ?_, h⟩
  intro q hq hsame
  exact hfree q hq ⟨hsame.1.symm, hsame.2.symm⟩

/-- A piece that leaves its square for an empty one, as any piece. -/
theorem WellFormed.moved {p : Piece} {board tempBoard : List Piece} (h : WellFormed board)
    (hp : board.Perm (p :: tempBoard)) {x y : Int} (he : isEmpty x y board = true) (side : Side) (type : Kind) :
    WellFormed (⟨side, type, x, y⟩ :: tempBoard) := by
  have hswap : (⟨side, type, x, y⟩ :: board).Perm (p :: ⟨side, type, x, y⟩ :: tempBoard) :=
    (hp.cons _).trans (.swap _ _ _)
  exact (h.put he side type).rest hswap

theorem WellFormed.replaced {p : Piece} {board rest : List Piece} (h : WellFormed board)
    (hp : board.Perm (p :: rest)) (side : Side) (type : Kind) : WellFormed (⟨side, type, p.x, p.y⟩ :: rest) := by
  obtain ⟨hin, hapart, hrest⟩ := wellFormed_cons.1 ((wellFormed_perm hp).1 h)
  exact wellFormed_cons.2 ⟨hin, hapart, hrest⟩

theorem initialBoard_wellFormed : WellFormed initialBoard := by
  constructor
  · simp [initialBoard, Piece.OnBoard]
  · simp [initialBoard, Apart]

theorem WellFormed.select {pat : Piece → Bool} {p : Piece} {board tempBoard : List Piece}
    (h : WellFormed board) (hs : (p, tempBoard) ∈ select pat board) :
    p.OnBoard ∧ (∀ q ∈ tempBoard, Apart p q) ∧ WellFormed tempBoard :=
  wellFormed_cons.1 ((wellFormed_perm (select_perm hs)).1 h)

/-- On a board with one piece a square at most one piece matches a pattern
that fixes the square. -/
theorem WellFormed.pairwise_pattern {board : List Piece} (h : WellFormed board) (pat : Piece → Bool)
    (x y : Int) (hpat : ∀ p, pat p = true → p.x = x ∧ p.y = y) :
    board.Pairwise (fun p q => ¬ (pat p = true ∧ pat q = true)) := by
  refine h.apart.imp ?_
  rintro p q hpq ⟨hp, hq⟩
  obtain ⟨hpx, hpy⟩ := hpat p hp
  obtain ⟨hqx, hqy⟩ := hpat q hq
  exact hpq ⟨by omega, by omega⟩

theorem mem_capture {piece : Piece} {board capt newBoard newCapt : List Piece} :
    (newBoard, newCapt) ∈ capture piece board capt ↔
      ∃ taken tempBoard type, (taken, tempBoard) ∈ select (opposes piece) board ∧
        type ∈ correctedTypes taken.type ∧ newBoard = piece :: tempBoard ∧
        newCapt = ⟨piece.side, type, 0, 0⟩ :: capt := by
  simp only [capture, List.mem_flatMap, List.mem_map, Prod.mk.injEq, Prod.exists]
  constructor
  · rintro ⟨taken, tempBoard, hs, type, ht, rfl, rfl⟩
    exact ⟨taken, tempBoard, type, hs, ht, rfl, rfl⟩
  · rintro ⟨taken, tempBoard, type, hs, ht, rfl, rfl⟩
    exact ⟨taken, tempBoard, hs, type, ht, rfl, rfl⟩

def demoted : Kind → Kind
  | .samourai => .kodama
  | .superoni => .oni
  | type => type

theorem correctedTypes_head (type : Kind) : (correctedTypes type).head? = some (demoted type) := by
  cases type <;> rfl

theorem capture_head {piece : Piece} {board capt newBoard newCapt : List Piece}
    (h : (capture piece board capt).head? = some (newBoard, newCapt)) :
    ∃ taken tempBoard, (taken, tempBoard) ∈ select (opposes piece) board ∧
      newBoard = piece :: tempBoard ∧ newCapt = ⟨piece.side, demoted taken.type, 0, 0⟩ :: capt := by
  rw [capture] at h
  cases hs : select (opposes piece) board with
  | nil => simp [hs] at h
  | cons q qs =>
      obtain ⟨taken, tempBoard⟩ := q
      rw [hs, List.flatMap_cons] at h
      have ht : correctedTypes taken.type ≠ [] := by cases taken.type <;> simp [correctedTypes]
      obtain ⟨type, types, hc⟩ := List.exists_cons_of_ne_nil ht
      have hd : type = demoted taken.type := by
        have := correctedTypes_head taken.type
        rw [hc] at this
        simpa using this
      simp only [hc, List.map_cons, List.cons_append, List.head?_cons, Option.some.injEq,
        Prod.mk.injEq] at h
      exact ⟨taken, tempBoard, by simp, h.1.symm, by rw [← h.2, hd]⟩

end YokaiNoMori.Board
