import YokaiNoMori.ForceMove
import YokaiNoMori.Variants

namespace YokaiNoMori.Replay

open Search Board TryMove ForceMove MoveRules MoveGeneration Variants

def outputs (m : Move) : List Piece × List Piece × List Piece := (m.newBoard, m.newCaptN, m.newCaptS)

/-- The answers of `try_move` at given coordinates are those of one attempt. -/
theorem filter_key {board : List Piece} (captN captS : List Piece) {side : Side} (hb : WellFormed board)
    {a : Attempt} (ha : a ∈ listed board side) :
    (getMoves board captN captS side).filter (fun m => decide (key m = a.key)) =
      a.answers board captN captS side := by
  rw [getMoves_eq_flatMap]
  exact filter_flatMap_block (fun _ _ _ hm => answers_key hm) (listed_keys hb side) ha

theorem forceMove_answers {board : List Piece} (captN captS : List Piece) {side : Side}
    (hb : WellFormed board) {a : Attempt} (ha : a ∈ listed board side) :
    forceMove side (some a.type) a.piece.x a.piece.y (a.piece.x + a.offset.1) (a.piece.y + a.offset.2)
      board captN captS = (a.answers board captN captS side).map outputs :=
  forceMove_eq_attempt captN captS a.offset hb (mem_listed.1 ha).1

theorem forceMove_replays (board captN captS : List Piece) (side : Side) (hb : WellFormed board)
    (type : Kind) (x y nX nY : Int)
    (h : ∃ m ∈ tryMove board captN captS side, key m = (type, x, y, nX, nY)) :
    forceMove side (some type) x y nX nY board captN captS =
      ((tryMove board captN captS side).filter
        (fun m => decide (key m = (type, x, y, nX, nY)))).map outputs := by
  obtain ⟨m, hm, hkey⟩ := h
  have hm : m ∈ getMoves board captN captS side := hm
  rw [getMoves_eq_flatMap] at hm
  obtain ⟨a, ha, hma⟩ := List.mem_flatMap.1 hm
  have hkeys : a.key = (type, x, y, nX, nY) := (answers_key hma).symm.trans hkey
  have hfilter := filter_key captN captS hb ha
  rw [getMoves] at hfilter
  rw [← hkeys, hfilter, ← forceMove_answers captN captS hb ha]
  simp only [Attempt.key, Prod.mk.injEq] at hkeys
  obtain ⟨rfl, rfl, rfl, rfl, rfl⟩ := hkeys
  rfl

theorem forceMove_replays_kodama :
    forceMove .north (some .kodama) 1 4 1 5 kodamaAhead [] [] =
      ((tryMove kodamaAhead [] [] .north).filter
        (fun m => decide (key m = (.kodama, 1, 4, 1, 5)))).map outputs :=
  forceMove_replays kodamaAhead [] [] .north kodamaAhead_wellFormed .kodama 1 4 1 5
    (by decide)

end YokaiNoMori.Replay
