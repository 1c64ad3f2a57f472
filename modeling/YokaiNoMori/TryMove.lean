import YokaiNoMori.Board

namespace YokaiNoMori.TryMove

open Search Board

/-- The list of fourteen arguments that `get_moves` collects for an answer of
`try_move`, and that `process_score` and `best_move` pass on. -/
structure Move where
  board : List Piece
  captN : List Piece
  captS : List Piece
  side : Side
  newBoard : List Piece
  newCaptN : List Piece
  newCaptS : List Piece
  type : Kind
  x : Int
  y : Int
  nX : Int
  nY : Int
  capture : Int
  score : Int
deriving DecidableEq, Repr

structure Arrival where
  newBoard : List Piece
  newCapt : List Piece
  capture : Int
deriving DecidableEq

/-- `isEmpty, move, Capture = 0 ; capture, Capture = 1`. Emptiness is tested
on the board that still holds the moving piece. -/
def moveOrCapture (piece : Piece) (board tempBoard capt : List Piece) : List Arrival :=
  (if isEmpty piece.x piece.y board then [⟨move piece tempBoard, capt, 0⟩] else []) ++
    (capture piece tempBoard capt).map (fun q => ⟨q.1, q.2, 1⟩)

def capturedBy (side : Side) (captN captS : List Piece) : List Piece :=
  match side with
  | .north => captN
  | .south => captS

def withCaptured (side : Side) (captN captS newCapt : List Piece) : List Piece × List Piece :=
  match side with
  | .north => (newCapt, captS)
  | .south => (captN, newCapt)

def toMove (board captN captS : List Piece) (side : Side) (type : Kind) (x y nX nY : Int)
    (a : Arrival) : Move :=
  { board, captN, captS, side, newBoard := a.newBoard,
    newCaptN := (withCaptured side captN captS a.newCapt).1,
    newCaptS := (withCaptured side captN captS a.newCapt).2,
    type, x, y, nX, nY, capture := a.capture, score := 0 }

/-- All answers for one piece and one arrival square: the variants that differ
in the promotion of the mover and in the demotion of the captured piece. -/
def attempt (board captN captS : List Piece) (side : Side) (type : Kind) (newTypes : Int → List Kind)
    (p : Piece) (tempBoard : List Piece) (offset : Int × Int) : List Move :=
  (newTypes (p.y + offset.2)).flatMap fun newType =>
    (moveOrCapture ⟨side, newType, p.x + offset.1, p.y + offset.2⟩ board tempBoard
      (capturedBy side captN captS)).map
        (toMove board captN captS side type p.x p.y (p.x + offset.1) (p.y + offset.2))

def hasType (side : Side) (type : Kind) (p : Piece) : Bool := p.side == side && p.type == type

theorem hasType_iff {side : Side} {type : Kind} {p : Piece} :
    hasType side type p = true ↔ p.side = side ∧ p.type = type := by
  simp [hasType]

theorem eq_of_hasType {side : Side} {type : Kind} {p : Piece} (h : hasType side type p = true) :
    p = ⟨side, type, p.x, p.y⟩ := by
  obtain ⟨rfl, rfl⟩ := hasType_iff.1 h
  rfl

/-- The shape that the twelve clauses of `try_move` share. -/
def clause (side : Side) (type : Kind) (offsets : List (Int × Int)) (newTypes : Int → List Kind)
    (board captN captS : List Piece) : List Move :=
  (select (hasType side type) board).flatMap fun (p, tempBoard) =>
    offsets.flatMap (attempt board captN captS side type newTypes p tempBoard)

def tryMoveNorthKodama :=
  clause .north .kodama [(0, 1)] (fun nY => (if nY ≥ 5 then [.samourai] else []) ++ [.kodama])

def tryMoveSouthKodama :=
  clause .south .kodama [(0, -1)] (fun nY => (if nY ≤ 2 then [.samourai] else []) ++ [.kodama])

def tryMoveNorthSamourai :=
  clause .north .samourai [(0, 1), (0, -1), (1, 0), (-1, 0), (1, 1), (-1, 1)] (fun _ => [.samourai])

def tryMoveSouthSamourai :=
  clause .south .samourai [(0, 1), (0, -1), (1, 0), (-1, 0), (1, -1), (-1, -1)] (fun _ => [.samourai])

def tryMoveNorthOni :=
  clause .north .oni [(0, 1), (1, 1), (1, -1), (-1, 1), (-1, -1)]
    (fun nY => (if nY ≥ 5 then [.superoni] else []) ++ [.oni])

def tryMoveSouthOni :=
  clause .south .oni [(0, -1), (1, 1), (1, -1), (-1, 1), (-1, -1)]
    (fun nY => (if nY ≤ 2 then [.superoni] else []) ++ [.oni])

def tryMoveNorthSuperoni :=
  clause .north .superoni [(0, 1), (0, -1), (1, 0), (-1, 0), (1, 1), (-1, 1)] (fun _ => [.superoni])

def tryMoveSouthSuperoni :=
  clause .south .superoni [(0, 1), (0, -1), (1, 0), (-1, 0), (1, -1), (-1, -1)] (fun _ => [.superoni])

def tryMoveNorthKirin :=
  clause .north .kirin [(0, 1), (0, -1), (1, 0), (-1, 0), (1, 1), (-1, 1)] (fun _ => [.kirin])

def tryMoveSouthKirin :=
  clause .south .kirin [(0, 1), (0, -1), (1, 0), (-1, 0), (1, -1), (-1, -1)] (fun _ => [.kirin])

def tryMoveNorthKoropokkuru :=
  clause .north .koropokkuru
    [(0, 1), (0, -1), (1, 0), (-1, 0), (1, 1), (1, -1), (-1, 1), (-1, -1)] (fun _ => [.koropokkuru])

def tryMoveSouthKoropokkuru :=
  clause .south .koropokkuru
    [(0, 1), (0, -1), (1, 0), (-1, 0), (1, 1), (1, -1), (-1, 1), (-1, -1)] (fun _ => [.koropokkuru])

def tryMove (board captN captS : List Piece) (side : Side) : List Move :=
  match side with
  | .north =>
      tryMoveNorthKodama board captN captS ++ tryMoveNorthSamourai board captN captS ++
        tryMoveNorthOni board captN captS ++ tryMoveNorthSuperoni board captN captS ++
        tryMoveNorthKirin board captN captS ++ tryMoveNorthKoropokkuru board captN captS
  | .south =>
      tryMoveSouthKodama board captN captS ++ tryMoveSouthSamourai board captN captS ++
        tryMoveSouthOni board captN captS ++ tryMoveSouthSuperoni board captN captS ++
        tryMoveSouthKirin board captN captS ++ tryMoveSouthKoropokkuru board captN captS

def getMoves (board captN captS : List Piece) (side : Side) : List Move :=
  tryMove board captN captS side

def promotionZone (side : Side) (nY : Int) : Bool :=
  match side with
  | .north => decide (nY ≥ 5)
  | .south => decide (nY ≤ 2)

def promoted : Kind → Option Kind
  | .kodama => some .samourai
  | .oni => some .superoni
  | _ => none

def arrivalTypes (side : Side) (type : Kind) (nY : Int) : List Kind :=
  (if promotionZone side nY then (promoted type).toList else []) ++ [type]

def offsets : Side → Kind → List (Int × Int)
  | .north, .kodama => [(0, 1)]
  | .south, .kodama => [(0, -1)]
  | .north, .oni => [(0, 1), (1, 1), (1, -1), (-1, 1), (-1, -1)]
  | .south, .oni => [(0, -1), (1, 1), (1, -1), (-1, 1), (-1, -1)]
  | _, .koropokkuru => [(0, 1), (0, -1), (1, 0), (-1, 0), (1, 1), (1, -1), (-1, 1), (-1, -1)]
  | .north, _ => [(0, 1), (0, -1), (1, 0), (-1, 0), (1, 1), (-1, 1)]
  | .south, _ => [(0, 1), (0, -1), (1, 0), (-1, 0), (1, -1), (-1, -1)]

def clauseOrder : List Kind := [.kodama, .samourai, .oni, .superoni, .kirin, .koropokkuru]

theorem mem_clauseOrder (type : Kind) : type ∈ clauseOrder := by cases type <;> decide

/-- Every clause is the common shape at its own table of offsets, and promotes
exactly the kodama and the oni. -/
theorem tryMove_eq_clauses (board captN captS : List Piece) (side : Side) :
    tryMove board captN captS side =
      clauseOrder.flatMap fun type =>
        clause side type (offsets side type) (arrivalTypes side type) board captN captS := by
  have h (side : Side) (type : Kind) (hp : promoted type = none) :
      arrivalTypes side type = fun _ => [type] := by
    funext nY
    simp [arrivalTypes, hp]
  have hn (type newType : Kind) (hp : promoted type = some newType) :
      arrivalTypes .north type = fun nY => (if nY ≥ 5 then [newType] else []) ++ [type] := by
    funext nY
    simp [arrivalTypes, hp, promotionZone]
  have hs (type newType : Kind) (hp : promoted type = some newType) :
      arrivalTypes .south type = fun nY => (if nY ≤ 2 then [newType] else []) ++ [type] := by
    funext nY
    simp [arrivalTypes, hp, promotionZone]
  cases side with
  | north =>
      simp only [tryMove, clauseOrder, List.flatMap_cons, List.flatMap_nil, List.append_nil,
        List.append_assoc, tryMoveNorthKodama, tryMoveNorthSamourai, tryMoveNorthOni,
        tryMoveNorthSuperoni, tryMoveNorthKirin, tryMoveNorthKoropokkuru, offsets,
        hn .kodama .samourai rfl, h .north .samourai rfl, hn .oni .superoni rfl,
        h .north .superoni rfl, h .north .kirin rfl, h .north .koropokkuru rfl]
  | south =>
      simp only [tryMove, clauseOrder, List.flatMap_cons, List.flatMap_nil, List.append_nil,
        List.append_assoc, tryMoveSouthKodama, tryMoveSouthSamourai, tryMoveSouthOni,
        tryMoveSouthSuperoni, tryMoveSouthKirin, tryMoveSouthKoropokkuru, offsets,
        hs .kodama .samourai rfl, h .south .samourai rfl, hs .oni .superoni rfl,
        h .south .superoni rfl, h .south .kirin rfl, h .south .koropokkuru rfl]

def attempts (board captN captS : List Piece) (side : Side) : List (List Move) :=
  clauseOrder.flatMap fun type =>
    (select (hasType side type) board).flatMap fun q =>
      (offsets side type).map
        (attempt board captN captS side type (arrivalTypes side type) q.1 q.2)

theorem getMoves_eq_flatten (board captN captS : List Piece) (side : Side) :
    getMoves board captN captS side = (attempts board captN captS side).flatten := by
  simp only [getMoves, tryMove_eq_clauses, attempts, clause, List.flatMap_def, List.flatten_flatten,
    List.map_map, Function.comp_def]

theorem mem_attempts {board captN captS : List Piece} {side : Side} {g : List Move} :
    g ∈ attempts board captN captS side ↔
      ∃ type p tempBoard offset, (p, tempBoard) ∈ select (hasType side type) board ∧
        offset ∈ offsets side type ∧
        g = attempt board captN captS side type (arrivalTypes side type) p tempBoard offset := by
  simp only [attempts, List.mem_flatMap, List.mem_map]
  constructor
  · rintro ⟨type, _, ⟨p, tempBoard⟩, hs, offset, ho, rfl⟩
    exact ⟨type, p, tempBoard, offset, hs, ho, rfl⟩
  · rintro ⟨type, p, tempBoard, offset, hs, ho, rfl⟩
    exact ⟨type, mem_clauseOrder type, (p, tempBoard), hs, offset, ho, rfl⟩

theorem mem_moveOrCapture {piece : Piece} {board tempBoard capt : List Piece} {a : Arrival} :
    a ∈ moveOrCapture piece board tempBoard capt ↔
      (isEmpty piece.x piece.y board = true ∧ a = ⟨piece :: tempBoard, capt, 0⟩) ∨
        ∃ newBoard newCapt, (newBoard, newCapt) ∈ capture piece tempBoard capt ∧
          a = ⟨newBoard, newCapt, 1⟩ := by
  simp only [moveOrCapture, move, List.mem_append, List.mem_map, Prod.exists]
  by_cases he : isEmpty piece.x piece.y board <;> simp [he, eq_comm]

structure Records (board captN captS : List Piece) (side : Side) (type : Kind) (x y nX nY : Int)
    (m : Move) : Prop where
  board_eq : m.board = board
  captN_eq : m.captN = captN
  captS_eq : m.captS = captS
  side_eq : m.side = side
  type_eq : m.type = type
  x_eq : m.x = x
  y_eq : m.y = y
  nX_eq : m.nX = nX
  nY_eq : m.nY = nY
  score_eq : m.score = 0
  capture_eq : m.capture = if isEmpty nX nY board then 0 else 1

/-- An empty square cannot be captured on: the capture flag is decided by the
board alone. -/
theorem arrival_capture {piece : Piece} {board tempBoard capt : List Piece} {a : Arrival}
    (hsub : ∀ q ∈ tempBoard, q ∈ board) (ha : a ∈ moveOrCapture piece board tempBoard capt) :
    a.capture = if isEmpty piece.x piece.y board then 0 else 1 := by
  rcases mem_moveOrCapture.1 ha with ⟨he, rfl⟩ | ⟨newBoard, newCapt, hc, rfl⟩
  · simp [he]
  · obtain ⟨taken, rest, _, hs, _⟩ := mem_capture.1 hc
    have ho := opposes_iff.1 (select_matches hs)
    have hm : taken ∈ board := hsub taken (select_mem hs)
    have hn : isEmpty piece.x piece.y board = false := by
      rw [Bool.eq_false_iff]
      intro he
      exact (isEmpty_iff.1 he).2.2 taken hm ho.2
    simp [hn]

theorem attempt_records {board captN captS : List Piece} {side : Side} {type : Kind}
    {newTypes : Int → List Kind} {p : Piece} {tempBoard : List Piece} {offset : Int × Int} {m : Move}
    (hsub : ∀ q ∈ tempBoard, q ∈ board)
    (hm : m ∈ attempt board captN captS side type newTypes p tempBoard offset) :
    Records board captN captS side type p.x p.y (p.x + offset.1) (p.y + offset.2) m := by
  simp only [attempt, List.mem_flatMap, List.mem_map] at hm
  obtain ⟨newType, _, a, ha, rfl⟩ := hm
  exact ⟨rfl, rfl, rfl, rfl, rfl, rfl, rfl, rfl, rfl, rfl, arrival_capture hsub ha⟩

theorem select_subset {pat : Piece → Bool} {p : Piece} {board tempBoard : List Piece}
    (h : (p, tempBoard) ∈ select pat board) : ∀ q ∈ tempBoard, q ∈ board :=
  fun _ hq => (select_perm h).mem_iff.2 (List.mem_cons_of_mem _ hq)

theorem attempts_records {board captN captS : List Piece} {side : Side} {g : List Move}
    (hg : g ∈ attempts board captN captS side) :
    ∃ type x y nX nY, ∀ m ∈ g, Records board captN captS side type x y nX nY m := by
  obtain ⟨type, p, tempBoard, offset, hs, _, rfl⟩ := mem_attempts.1 hg
  exact ⟨type, p.x, p.y, p.x + offset.1, p.y + offset.2,
    fun m hm => attempt_records (select_subset hs) hm⟩

theorem attempt_taken {board captN captS : List Piece} {side : Side} {type : Kind}
    {newTypes : Int → List Kind} {p : Piece} {tempBoard : List Piece} {offset : Int × Int} {m : Move}
    (hm : m ∈ attempt board captN captS side type newTypes p tempBoard offset) (hc : m.capture = 1) :
    ∃ taken ∈ tempBoard, taken.side = opponent side ∧ taken.x = m.nX ∧ taken.y = m.nY := by
  simp only [attempt, List.mem_flatMap, List.mem_map] at hm
  obtain ⟨newType, _, a, ha, rfl⟩ := hm
  rcases mem_moveOrCapture.1 ha with ⟨_, rfl⟩ | ⟨newBoard, newCapt, hcap, rfl⟩
  · simp [toMove] at hc
  · obtain ⟨taken, rest, _, hs, _⟩ := mem_capture.1 hcap
    have ho := opposes_iff.1 (select_matches hs)
    exact ⟨taken, select_mem hs, ho⟩

theorem getMoves_taken {board captN captS : List Piece} {side : Side} {m : Move}
    (hm : m ∈ getMoves board captN captS side) (hc : m.capture = 1) :
    ∃ taken ∈ board, taken.side = opponent side ∧ taken.x = m.nX ∧ taken.y = m.nY := by
  rw [getMoves_eq_flatten, List.mem_flatten] at hm
  obtain ⟨g, hg, hm⟩ := hm
  obtain ⟨type, p, tempBoard, offset, hs, _, rfl⟩ := mem_attempts.1 hg
  obtain ⟨taken, ht, h⟩ := attempt_taken hm hc
  exact ⟨taken, select_subset hs taken ht, h⟩

theorem getMoves_records {board captN captS : List Piece} {side : Side} {m : Move}
    (hm : m ∈ getMoves board captN captS side) :
    ∃ type x y nX nY, Records board captN captS side type x y nX nY m := by
  rw [getMoves_eq_flatten, List.mem_flatten] at hm
  obtain ⟨g, hg, hm⟩ := hm
  obtain ⟨type, x, y, nX, nY, h⟩ := attempts_records hg
  exact ⟨type, x, y, nX, nY, h m hm⟩

end YokaiNoMori.TryMove
