import YokaiNoMori.TryMove

namespace YokaiNoMori.ForceMove

open Search Board TryMove

/-- Unification of a `Type` argument with a type. `none` is an unbound variable. -/
def unifies (type : Option Kind) (k : Kind) : Bool := type == none || type == some k

def promotions (type : Option Kind) : List (Option Kind × Option Kind) :=
  (if unifies type .kodama then [(some .kodama, some .samourai)] else []) ++
    (if unifies type .oni then [(some .oni, some .superoni)] else [])

/-- The answers for `Type` and `NewType` before the piece is selected. A
`NewType` of `none` is the variable `Type` itself. -/
def newTypes (side : Side) (type : Option Kind) (nY : Int) : List (Option Kind × Option Kind) :=
  (if side = .north ∧ nY ≥ 5 then promotions type else []) ++
    (if side = .south ∧ nY ≤ 2 then promotions type else []) ++ [(type, none)]

def isPiece (side : Side) (type : Option Kind) (x y : Int) (p : Piece) : Bool :=
  p.side == side && unifies type p.type && p.stands x y

def forceArrival (side : Side) (piece : Piece) (board tempBoard captN captS : List Piece) :
    List (List Piece × List Piece × List Piece) :=
  (if isEmpty piece.x piece.y board then [(move piece tempBoard, captN, captS)] else []) ++
    (if side = .north then (capture piece tempBoard captN).map (fun q => (q.1, q.2, captS)) else []) ++
    (if side = .south then (capture piece tempBoard captS).map (fun q => (q.1, captN, q.2)) else [])

def forceMove (side : Side) (type : Option Kind) (x y nX nY : Int) (board captN captS : List Piece) :
    List (List Piece × List Piece × List Piece) :=
  (newTypes side type nY).flatMap fun (type, newType) =>
    (select (isPiece side type x y) board).flatMap fun (p, tempBoard) =>
      forceArrival side ⟨side, newType.getD p.type, nX, nY⟩ board tempBoard captN captS

def rowAllowed (side : Side) (y : Int) : Bool :=
  (side == .north && between 1 5 y) || (side == .south && between 2 6 y)

def inColumn (side : Side) (x : Int) (p : Piece) : Bool := p.side == side && p.x == x

/-- The column test has `_` for the type: any piece of the side refuses the drop. -/
def put (side : Side) (type : Option Kind) (x y : Int) (board capt : List Piece) :
    List (List Piece × List Piece) :=
  if between 1 5 x && rowAllowed side y && !board.any (inColumn side x) && isEmpty x y board then
    (select (fun p => p.side == side && unifies type p.type) capt).map fun (p, newCapt) =>
      (⟨side, p.type, x, y⟩ :: board, newCapt)
  else []

theorem forceArrival_eq (side : Side) (piece : Piece) (board tempBoard captN captS : List Piece) :
    forceArrival side piece board tempBoard captN captS =
      (moveOrCapture piece board tempBoard (capturedBy side captN captS)).map
        (fun a => (a.newBoard, withCaptured side captN captS a.newCapt)) := by
  cases side <;> by_cases he : isEmpty piece.x piece.y board <;>
    simp [forceArrival, moveOrCapture, capturedBy, withCaptured, he, Function.comp_def]

theorem promotions_some (type : Kind) :
    promotions (some type) = (promoted type).toList.map (fun newType => (some type, some newType)) := by
  cases type <;> rfl

theorem newTypes_some (side : Side) (type : Kind) (nY : Int) :
    (newTypes side (some type) nY).map (fun q => (q.1, q.2.getD type)) =
      (arrivalTypes side type nY).map (fun newType => (some type, newType)) := by
  cases side with
  | north =>
      by_cases hy : nY ≥ 5 <;>
        simp [newTypes, arrivalTypes, promotionZone, promotions_some, hy, Function.comp_def]
  | south =>
      by_cases hy : nY ≤ 2 <;>
        simp [newTypes, arrivalTypes, promotionZone, promotions_some, hy, Function.comp_def]

theorem unifies_some {type k : Kind} : unifies (some type) k = true ↔ k = type := by
  cases type <;> cases k <;> decide

theorem isPiece_some {side : Side} {type : Kind} {x y : Int} {p : Piece} :
    isPiece side (some type) x y p = true ↔ p = ⟨side, type, x, y⟩ := by
  rcases p with ⟨s, t, u, v⟩
  simp [isPiece, unifies_some, and_assoc]

theorem isPiece_square {side : Side} {type : Option Kind} {x y : Int} {p : Piece}
    (h : isPiece side type x y p = true) : p.x = x ∧ p.y = y := by
  simp only [isPiece, Bool.and_eq_true, stands_iff] at h
  exact h.2

/-- `force_move` with a bound type is one selection followed by the types of
arrival in order. -/
theorem forceMove_some (side : Side) (type : Kind) (x y nX nY : Int) (board captN captS : List Piece) :
    forceMove side (some type) x y nX nY board captN captS =
      (arrivalTypes side type nY).flatMap fun newType =>
        (select (isPiece side (some type) x y) board).flatMap fun q =>
          forceArrival side ⟨side, newType, nX, nY⟩ board q.2 captN captS := by
  have hstep (q : Option Kind × Option Kind) (hq : q ∈ newTypes side (some type) nY) :
      ((select (isPiece side q.1 x y) board).flatMap fun r =>
        forceArrival side ⟨side, q.2.getD r.1.type, nX, nY⟩ board r.2 captN captS) =
      (select (isPiece side (q.1, q.2.getD type).1 x y) board).flatMap fun r =>
        forceArrival side ⟨side, (q.1, q.2.getD type).2, nX, nY⟩ board r.2 captN captS := by
    have hq1 : q.1 = some type := by
      have hm := List.mem_map_of_mem (f := fun q => (q.1, q.2.getD type)) hq
      rw [newTypes_some] at hm
      obtain ⟨_, _, he⟩ := List.mem_map.1 hm
      exact (congrArg Prod.fst he).symm
    apply List.flatMap_congr
    rintro ⟨p, tempBoard⟩ hr
    rw [hq1] at hr
    have hp := isPiece_some.1 (select_matches hr)
    simp [hp]
  have hmap := congrArg (fun l => l.flatMap fun q : Option Kind × Kind =>
    (select (isPiece side q.1 x y) board).flatMap fun r =>
      forceArrival side ⟨side, q.2, nX, nY⟩ board r.2 captN captS) (newTypes_some side type nY)
  simp only [List.flatMap_map] at hmap
  rw [← hmap]
  exact List.flatMap_congr hstep

/-- On a board with one piece a square, `force_move` at the coordinates of an
attempt of `try_move` answers as that attempt does, in the same order. -/
theorem forceMove_eq_attempt {board tempBoard : List Piece} {side : Side} {type : Kind} {p : Piece}
    (captN captS : List Piece) (offset : Int × Int) (hb : WellFormed board)
    (hs : (p, tempBoard) ∈ select (hasType side type) board) :
    forceMove side (some type) p.x p.y (p.x + offset.1) (p.y + offset.2) board captN captS =
      (attempt board captN captS side type (arrivalTypes side type) p tempBoard offset).map
        (fun m => (m.newBoard, m.newCaptN, m.newCaptS)) := by
  have ht := hasType_iff.1 (select_matches hs)
  have hsel : select (isPiece side (some type) p.x p.y) board = [(p, tempBoard)] := by
    apply select_unique (hb.pairwise_pattern _ p.x p.y (fun _ => isPiece_square)) hs
    rw [isPiece_some, ← ht.1, ← ht.2]
  rw [forceMove_some, hsel, attempt, List.map_flatMap]
  apply List.flatMap_congr
  intro newType _
  simp only [List.flatMap_cons, List.flatMap_nil, List.append_nil, forceArrival_eq, List.map_map]
  rfl

theorem mem_forceMove {side : Side} {type : Option Kind} {x y nX nY : Int} {board captN captS : List Piece}
    {new : List Piece × List Piece × List Piece} :
    new ∈ forceMove side type x y nX nY board captN captS ↔
      ∃ t newType p tempBoard a, (t, newType) ∈ newTypes side type nY ∧
        (p, tempBoard) ∈ select (isPiece side t x y) board ∧
        a ∈ moveOrCapture ⟨side, newType.getD p.type, nX, nY⟩ board tempBoard (capturedBy side captN captS) ∧
        (a.newBoard, withCaptured side captN captS a.newCapt) = new := by
  simp only [forceMove, List.mem_flatMap, forceArrival_eq, List.mem_map, Prod.exists]
  constructor
  · rintro ⟨t, newType, htypes, p, tempBoard, hs, a, ha, rfl⟩
    exact ⟨t, newType, p, tempBoard, a, htypes, hs, ha, rfl⟩
  · rintro ⟨t, newType, p, tempBoard, a, htypes, hs, ha, rfl⟩
    exact ⟨t, newType, htypes, p, tempBoard, hs, a, ha, rfl⟩

theorem head_flatMap {α β : Type} {f : α → List β} {as : List α} {b : β}
    (h : (as.flatMap f).head? = some b) : ∃ a ∈ as, (f a).head? = some b := by
  rw [List.head?_flatMap] at h
  exact List.exists_of_findSome?_eq_some h

theorem demoted_arrivalTypes {side : Side} {type newType : Kind} {nY : Int}
    (h : newType ∈ arrivalTypes side type nY) : demoted newType = demoted type := by
  simp only [arrivalTypes, List.mem_append, List.mem_singleton] at h
  rcases h with h | rfl
  · split at h
    · cases type <;> simp_all [promoted, demoted]
    · simp at h
  · rfl

/-- What the first answer of a move is: the mover leaves its square and stands
on the arrival square, and a captured piece goes demoted to the mover's list. -/
inductive Moved (side : Side) (type : Kind) (x y nX nY : Int) (board captN captS : List Piece) :
    List Piece × List Piece × List Piece → Prop
  | quiet {tempBoard newType} (hmover : board.Perm (⟨side, type, x, y⟩ :: tempBoard))
      (htype : demoted newType = demoted type) (hempty : isEmpty nX nY board = true) :
      Moved side type x y nX nY board captN captS (⟨side, newType, nX, nY⟩ :: tempBoard, captN, captS)
  | taking {tempBoard newType taken rest} (hmover : board.Perm (⟨side, type, x, y⟩ :: tempBoard))
      (htype : demoted newType = demoted type) (htaken : tempBoard.Perm (taken :: rest))
      (hside : taken.side = opponent side) (hx : taken.x = nX) (hy : taken.y = nY) :
      Moved side type x y nX nY board captN captS
        (⟨side, newType, nX, nY⟩ :: rest,
          withCaptured side captN captS
            (⟨side, demoted taken.type, 0, 0⟩ :: capturedBy side captN captS))

theorem forceMove_head {side : Side} {type : Kind} {x y nX nY : Int} {board captN captS : List Piece}
    {new : List Piece × List Piece × List Piece}
    (h : (forceMove side (some type) x y nX nY board captN captS).head? = some new) :
    Moved side type x y nX nY board captN captS new := by
  rw [forceMove_some] at h
  obtain ⟨newType, hnew, h⟩ := head_flatMap h
  obtain ⟨⟨p, tempBoard⟩, hsel, h⟩ := head_flatMap h
  have hp := isPiece_some.1 (select_matches hsel)
  have hmover := select_perm hsel
  rw [hp] at hmover
  have htype := demoted_arrivalTypes hnew
  rw [forceArrival_eq, List.head?_map, Option.map_eq_some_iff] at h
  obtain ⟨a, ha, rfl⟩ := h
  by_cases he : isEmpty nX nY board
  · have hq : a = ⟨⟨side, newType, nX, nY⟩ :: tempBoard, capturedBy side captN captS, 0⟩ := by
      simpa [moveOrCapture, he, move, eq_comm] using ha
    subst hq
    cases side with
    | north => exact .quiet hmover htype he
    | south => exact .quiet hmover htype he
  · have hq : ∃ q, (capture ⟨side, newType, nX, nY⟩ tempBoard (capturedBy side captN captS)).head? = some q ∧
        a = ⟨q.1, q.2, 1⟩ := by
      simp only [moveOrCapture, he, Bool.false_eq_true, if_false, List.nil_append, List.head?_map,
        Option.map_eq_some_iff] at ha
      obtain ⟨q, hq, hqa⟩ := ha
      exact ⟨q, hq, hqa.symm⟩
    obtain ⟨⟨newBoard, newCapt⟩, hcap, rfl⟩ := hq
    obtain ⟨taken, rest, hst, rfl, rfl⟩ := capture_head hcap
    have ho := opposes_iff.1 (select_matches hst)
    exact .taking hmover htype (select_perm hst) ho.1 ho.2.1 ho.2.2

end YokaiNoMori.ForceMove
