import YokaiNoMori.Drop
import YokaiNoMori.Score

namespace YokaiNoMori.Mirror

open Search Board TryMove ForceMove GenerateMove MoveGeneration Score Drop

def mirror (p : Piece) : Piece := ⟨opponent p.side, p.type, p.x, 7 - p.y⟩

/-- A captured piece has no row: it changes hands and stays at `(0, 0)`. -/
def swap (p : Piece) : Piece := ⟨opponent p.side, p.type, p.x, p.y⟩

def mirrorMove (m : Move) : Move :=
  { board := m.board.map mirror, captN := m.captS.map swap, captS := m.captN.map swap
    side := opponent m.side, newBoard := m.newBoard.map mirror
    newCaptN := m.newCaptS.map swap, newCaptS := m.newCaptN.map swap
    type := m.type, x := m.x, y := 7 - m.y, nX := m.nX, nY := 7 - m.nY
    capture := m.capture, score := m.score }

def mirrorAnswer (new : List Piece × List Piece × List Piece) : List Piece × List Piece × List Piece :=
  (new.1.map mirror, new.2.2.map swap, new.2.1.map swap)

def mirrorPut (new : List Piece × List Piece) : List Piece × List Piece :=
  (new.1.map mirror, new.2.map swap)

def mirrorArrival (a : Arrival) : Arrival :=
  ⟨a.newBoard.map mirror, a.newCapt.map swap, a.capture⟩

theorem opponent_eq_iff {s t : Side} : opponent s = opponent t ↔ s = t := by
  cases s <;> cases t <;> decide

theorem hasType_mirror (side : Side) (type : Kind) (p : Piece) :
    hasType (opponent side) type (mirror p) = hasType side type p := by
  simp [hasType, mirror, Bool.beq_eq_decide_eq, opponent_eq_iff]

theorem stands_mirror (x y : Int) (p : Piece) : Piece.stands x (7 - y) (mirror p) = Piece.stands x y p := by
  rw [Bool.eq_iff_iff, stands_iff, stands_iff, mirror]
  dsimp only
  omega

theorem isEmpty_mirror (x y : Int) (board : List Piece) :
    isEmpty x (7 - y) (board.map mirror) = isEmpty x y board := by
  have hy : between 1 6 (7 - y) = between 1 6 y := by
    rw [between, between, decide_eq_decide]
    omega
  have hany : (board.map mirror).any (Piece.stands x (7 - y)) = board.any (Piece.stands x y) := by
    rw [List.any_map]
    congr 1
    funext p
    exact stands_mirror x y p
  rw [isEmpty, isEmpty, hy, hany]

theorem opposes_mirror (piece q : Piece) : opposes (mirror piece) (mirror q) = opposes piece q := by
  rw [opposes, opposes]
  have hs := stands_mirror piece.x piece.y q
  simp only [mirror, Bool.beq_eq_decide_eq, opponent_eq_iff] at hs ⊢
  rw [hs]

theorem capture_mirror (piece : Piece) (board capt : List Piece) :
    capture (mirror piece) (board.map mirror) (capt.map swap) = (capture piece board capt).map mirrorPut := by
  have hpat : (fun q => opposes (mirror piece) (mirror q)) = opposes piece := by
    funext q
    exact opposes_mirror piece q
  rw [capture, capture, select_map, hpat, List.flatMap_map, List.map_flatMap]
  apply List.flatMap_congr
  rintro ⟨taken, tempBoard⟩ _
  rw [List.map_map]
  rfl

theorem moveOrCapture_mirror (piece : Piece) (board tempBoard capt : List Piece) :
    moveOrCapture (mirror piece) (board.map mirror) (tempBoard.map mirror) (capt.map swap) =
      (moveOrCapture piece board tempBoard capt).map mirrorArrival := by
  rw [moveOrCapture, moveOrCapture, capture_mirror, List.map_append, List.map_map, List.map_map]
  congr 1
  have he : isEmpty (mirror piece).x (mirror piece).y (board.map mirror) = isEmpty piece.x piece.y board :=
    isEmpty_mirror piece.x piece.y board
  rw [he]
  split <;> rfl

theorem capturedBy_mirror (side : Side) (captN captS : List Piece) :
    capturedBy (opponent side) (captS.map swap) (captN.map swap) = (capturedBy side captN captS).map swap := by
  cases side <;> rfl

theorem toMove_mirror (board captN captS : List Piece) (side : Side) (type : Kind) (x y nX nY : Int)
    (a : Arrival) :
    toMove (board.map mirror) (captS.map swap) (captN.map swap) (opponent side) type x (7 - y) nX (7 - nY)
      (mirrorArrival a) = mirrorMove (toMove board captN captS side type x y nX nY a) := by
  cases side <;> rfl

/-- The promotion zones of the two sides are mirror images. -/
theorem promotionZone_mirror (side : Side) (nY : Int) :
    promotionZone (opponent side) (7 - nY) = promotionZone side nY := by
  cases side with
  | north =>
      rw [opponent, promotionZone, promotionZone, decide_eq_decide]
      omega
  | south =>
      rw [opponent, promotionZone, promotionZone, decide_eq_decide]
      omega

theorem arrivalTypes_mirror (side : Side) (type : Kind) (nY : Int) :
    arrivalTypes (opponent side) type (7 - nY) = arrivalTypes side type nY := by
  rw [arrivalTypes, arrivalTypes, promotionZone_mirror]

def mirrorOffset (offset : Int × Int) : Int × Int := (offset.1, -offset.2)

/-- The tables of a type agree as sets of steps, not in their order. -/
theorem offsets_mirror (side : Side) (type : Kind) :
    (offsets (opponent side) type).Perm ((offsets side type).map mirrorOffset) := by
  cases side <;> cases type <;> decide

theorem attempt_mirror (board captN captS : List Piece) (side : Side) (type : Kind) (p : Piece)
    (tempBoard : List Piece) (offset : Int × Int) :
    attempt (board.map mirror) (captS.map swap) (captN.map swap) (opponent side) type
        (arrivalTypes (opponent side) type) (mirror p) (tempBoard.map mirror) (mirrorOffset offset) =
      (attempt board captN captS side type (arrivalTypes side type) p tempBoard offset).map mirrorMove := by
  have hy : (mirror p).y + (mirrorOffset offset).2 = 7 - (p.y + offset.2) := by
    simp only [mirror, mirrorOffset]
    omega
  rw [attempt, attempt, hy, arrivalTypes_mirror, List.map_flatMap]
  apply List.flatMap_congr
  intro newType _
  have harrivals := moveOrCapture_mirror ⟨side, newType, p.x + offset.1, p.y + offset.2⟩ board tempBoard
    (capturedBy side captN captS)
  rw [capturedBy_mirror, List.map_map]
  change (moveOrCapture (mirror ⟨side, newType, p.x + offset.1, p.y + offset.2⟩) _ _ _).map _ = _
  rw [harrivals, List.map_map]
  apply List.map_congr_left
  intro a _
  exact toMove_mirror board captN captS side type p.x p.y (p.x + offset.1) (p.y + offset.2) a

theorem clause_mirror (board captN captS : List Piece) (side : Side) (type : Kind) :
    (clause (opponent side) type (offsets (opponent side) type) (arrivalTypes (opponent side) type)
      (board.map mirror) (captS.map swap) (captN.map swap)).Perm
        ((clause side type (offsets side type) (arrivalTypes side type) board captN captS).map mirrorMove) := by
  have hpat : (fun p => hasType (opponent side) type (mirror p)) = hasType side type := by
    funext p
    exact hasType_mirror side type p
  rw [clause, clause, select_map, hpat, List.flatMap_map, List.map_flatMap]
  apply List.Perm.flatMap_left
  rintro ⟨p, tempBoard⟩ _
  have hperm := (offsets_mirror side type).flatMap_right
    (attempt (board.map mirror) (captS.map swap) (captN.map swap) (opponent side) type
      (arrivalTypes (opponent side) type) (mirror p) (tempBoard.map mirror))
  rw [List.flatMap_map] at hperm
  rw [List.map_flatMap]
  refine hperm.trans (List.Perm.of_eq (List.flatMap_congr ?_))
  intro offset _
  exact attempt_mirror board captN captS side type p tempBoard offset

theorem getMoves_mirror (board captN captS : List Piece) (side : Side) :
    (getMoves (board.map mirror) (captS.map swap) (captN.map swap) (opponent side)).Perm
      ((getMoves board captN captS side).map mirrorMove) := by
  rw [getMoves, getMoves, tryMove_eq_clauses, tryMove_eq_clauses, List.map_flatMap]
  apply List.Perm.flatMap_left
  intro type _
  exact clause_mirror board captN captS side type

theorem newTypes_mirror (side : Side) (type : Option Kind) (nY : Int) :
    newTypes (opponent side) type (7 - nY) = newTypes side type nY := by
  cases side with
  | north =>
      have hy : 7 - nY ≤ 2 ↔ nY ≥ 5 := by omega
      simp [newTypes, opponent, hy]
  | south =>
      have hy : 7 - nY ≥ 5 ↔ nY ≤ 2 := by omega
      simp [newTypes, opponent, hy]

theorem isPiece_mirror (side : Side) (type : Option Kind) (x y : Int) (p : Piece) :
    isPiece (opponent side) type x (7 - y) (mirror p) = isPiece side type x y p := by
  rw [isPiece, isPiece, stands_mirror]
  simp only [mirror, Bool.beq_eq_decide_eq, opponent_eq_iff]

theorem withCaptured_mirror (side : Side) (captN captS newBoard newCapt : List Piece) :
    (newBoard.map mirror, withCaptured (opponent side) (captS.map swap) (captN.map swap) (newCapt.map swap)) =
      mirrorAnswer (newBoard, withCaptured side captN captS newCapt) := by
  cases side <;> rfl

theorem forceArrival_mirror (side : Side) (piece : Piece) (board tempBoard captN captS : List Piece) :
    forceArrival (opponent side) (mirror piece) (board.map mirror) (tempBoard.map mirror) (captS.map swap)
      (captN.map swap) = (forceArrival side piece board tempBoard captN captS).map mirrorAnswer := by
  rw [forceArrival_eq, forceArrival_eq, capturedBy_mirror, moveOrCapture_mirror, List.map_map, List.map_map]
  apply List.map_congr_left
  intro a _
  exact withCaptured_mirror side captN captS a.newBoard a.newCapt

theorem forceMove_mirror (side : Side) (type : Option Kind) (x y nX nY : Int) (board captN captS : List Piece) :
    forceMove (opponent side) type x (7 - y) nX (7 - nY) (board.map mirror) (captS.map swap) (captN.map swap) =
      (forceMove side type x y nX nY board captN captS).map mirrorAnswer := by
  rw [forceMove, forceMove, newTypes_mirror, List.map_flatMap]
  apply List.flatMap_congr
  rintro ⟨t, newType⟩ _
  have hpat : (fun p => isPiece (opponent side) t x (7 - y) (mirror p)) = isPiece side t x y := by
    funext p
    exact isPiece_mirror side t x y p
  dsimp only
  rw [select_map, hpat, List.flatMap_map, List.map_flatMap]
  apply List.flatMap_congr
  rintro ⟨p, tempBoard⟩ _
  exact forceArrival_mirror side ⟨side, newType.getD p.type, nX, nY⟩ board tempBoard captN captS

theorem rowAllowed_mirror (side : Side) (y : Int) : rowAllowed (opponent side) (7 - y) = rowAllowed side y := by
  rw [Bool.eq_iff_iff, rowAllowed_iff, rowAllowed_iff]
  cases side with
  | north =>
      simp only [opponent, Rows]
      omega
  | south =>
      simp only [opponent, Rows]
      omega

theorem column_mirror (side : Side) (x : Int) (board : List Piece) :
    (board.map mirror).any (inColumn (opponent side) x) = board.any (inColumn side x) := by
  rw [List.any_map]
  congr 1
  funext p
  simp only [Function.comp_apply, inColumn, mirror, Bool.beq_eq_decide_eq, opponent_eq_iff]

theorem put_mirror (side : Side) (type : Option Kind) (x y : Int) (board capt : List Piece) :
    put (opponent side) type x (7 - y) (board.map mirror) (capt.map swap) =
      (put side type x y board capt).map mirrorPut := by
  have hpat : (fun p => (swap p).side == opponent side && unifies type (swap p).type) =
      fun p => p.side == side && unifies type p.type := by
    funext p
    simp only [swap, Bool.beq_eq_decide_eq, opponent_eq_iff]
  rw [put, put, rowAllowed_mirror, column_mirror, isEmpty_mirror, select_map, hpat, List.map_map]
  split
  · rw [List.map_map]
    rfl
  · rfl

theorem oneKoropokkuru_mirror {board : List Piece} {side : Side} (hk : OneKoropokkuru board side) :
    OneKoropokkuru (board.map mirror) (opponent side) := by
  rw [OneKoropokkuru, List.countP_map, ← hk]
  apply List.countP_congr
  intro p _
  rw [Function.comp_apply, hasType_mirror]

theorem threatened_mirror (board captN captS : List Piece) (side : Side) (m : Move) :
    Threatened (getMoves (board.map mirror) (captS.map swap) (captN.map swap) (opponent side)) (mirrorMove m) ↔
      Threatened (getMoves board captN captS side) m := by
  have hperm := getMoves_mirror board captN captS side
  constructor
  · rintro ⟨n, hn, hx, hy⟩
    obtain ⟨o, ho, rfl⟩ := List.mem_map.1 (hperm.mem_iff.1 hn)
    simp only [mirrorMove] at hx hy
    exact ⟨o, ho, hx, by omega⟩
  · rintro ⟨o, ho, hx, hy⟩
    refine ⟨mirrorMove o, hperm.mem_iff.2 (List.mem_map_of_mem ho), hx, ?_⟩
    simp only [mirrorMove, hy]

theorem gain_mirror (board : List Piece) (side : Side) (m : Move) :
    gain (board.map mirror) (opponent side) (mirrorMove m) = gain board side m := by
  have hpat : standsFor (opponent (opponent side)) m.nX (7 - m.nY) ∘ mirror =
      standsFor (opponent side) m.nX m.nY := by
    funext p
    rw [Function.comp_apply, standsFor, standsFor, stands_mirror]
    simp only [mirror, Bool.beq_eq_decide_eq, opponent_eq_iff]
  rw [gain, gain, mirrorMove]
  simp only [List.find?_map, hpat, Option.map_map]
  rfl

theorem worth_mirror (board captN captS : List Piece) (side : Side) (kX kY : Int) (m : Move) :
    worth (board.map mirror) (captS.map swap) (captN.map swap) (opponent side) kX (7 - kY) (mirrorMove m) =
      worth board captN captS side kX kY m := by
  have hdistance : distance kX (7 - kY) (mirrorMove m) = distance kX kY m := by
    simp only [distance, mirrorMove]
    omega
  have htype : (mirrorMove m).type = m.type := rfl
  simp only [worth, hdistance, gain_mirror, htype, threatened_mirror]

theorem processScore_mirror {board captN captS : List Piece} {side : Side}
    (hk : OneKoropokkuru board (opponent side)) :
    ∃ scored scored',
      (processScore board (getMoves board captN captS (opponent side))
        (getMoves board captN captS side)).head? = some scored ∧
      (processScore (board.map mirror) (getMoves (board.map mirror) (captS.map swap) (captN.map swap) side)
        (getMoves (board.map mirror) (captS.map swap) (captN.map swap) (opponent side))).head? = some scored' ∧
      scored'.Perm (scored.map mirrorMove) := by
  obtain ⟨k, hmem, htype⟩ := exists_koropokkuru hk
  rw [eq_of_hasType htype] at hmem
  have hmirrored : OneKoropokkuru (board.map mirror) (opponent (opponent side)) := oneKoropokkuru_mirror hk
  have hat : ⟨opponent (opponent side), .koropokkuru, k.x, 7 - k.y⟩ ∈ board.map mirror :=
    List.mem_map_of_mem (f := mirror) hmem
  have hscored := processScore_first (captS.map swap) (captN.map swap) hmirrored hat
  rw [opponent_opponent] at hscored
  refine ⟨_, _, processScore_first captN captS hk hmem, hscored, ?_⟩
  refine ((getMoves_mirror board captN captS side).map _).trans (List.Perm.of_eq ?_)
  rw [List.map_map, List.map_map]
  apply List.map_congr_left
  intro m _
  simp only [Function.comp_apply, worth_mirror]
  rfl

/-- The two sides play by mirrored rules. -/
theorem rules_mirror (board captN captS : List Piece) (side : Side) :
    (getMoves (board.map mirror) (captS.map swap) (captN.map swap) (opponent side)).Perm
      ((getMoves board captN captS side).map mirrorMove) ∧
    (∀ type x y nX nY,
      forceMove (opponent side) type x (7 - y) nX (7 - nY) (board.map mirror) (captS.map swap)
        (captN.map swap) = (forceMove side type x y nX nY board captN captS).map mirrorAnswer) ∧
    (∀ type x y capt, put (opponent side) type x (7 - y) (board.map mirror) (capt.map swap) =
      (put side type x y board capt).map mirrorPut) ∧
    (OneKoropokkuru board .north → OneKoropokkuru board .south → ∃ scored scored',
      (processScore board (getMoves board captN captS (opponent side))
        (getMoves board captN captS side)).head? = some scored ∧
      (processScore (board.map mirror) (getMoves (board.map mirror) (captS.map swap) (captN.map swap) side)
        (getMoves (board.map mirror) (captS.map swap) (captN.map swap) (opponent side))).head? = some scored' ∧
      scored'.Perm (scored.map mirrorMove)) := by
  refine ⟨getMoves_mirror board captN captS side, ?_, ?_, ?_⟩
  · intro type x y nX nY
    exact forceMove_mirror side type x y nX nY board captN captS
  · intro type x y capt
    exact put_mirror side type x y board capt
  · intro hnorth hsouth
    cases side with
    | north => exact processScore_mirror hsouth
    | south => exact processScore_mirror hnorth

theorem rules_mirror_initialBoard : ∃ scored scored',
    (processScore initialBoard (getMoves initialBoard [] [] .south)
      (getMoves initialBoard [] [] .north)).head? = some scored ∧
    (processScore (initialBoard.map mirror) (getMoves (initialBoard.map mirror) [] [] .north)
      (getMoves (initialBoard.map mirror) [] [] .south)).head? = some scored' ∧
    scored'.Perm (scored.map mirrorMove) :=
  (rules_mirror initialBoard [] [] .north).2.2.2 (by decide) (by decide)

example : (initialBoard.map mirror).Perm initialBoard := by decide

end YokaiNoMori.Mirror
