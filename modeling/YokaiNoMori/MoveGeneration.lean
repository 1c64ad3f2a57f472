import YokaiNoMori.MoveRules

namespace YokaiNoMori.MoveGeneration

open Search Board TryMove MoveRules

theorem hasType_self (side : Side) (type : Kind) (x y : Int) : hasType side type ⟨side, type, x, y⟩ = true := by
  simp [hasType]

theorem mem_attempt {board captN captS : List Piece} {side : Side} {type : Kind}
    {newTypes : Int → List Kind} {p : Piece} {tempBoard : List Piece} {offset : Int × Int} {m : Move} :
    m ∈ attempt board captN captS side type newTypes p tempBoard offset ↔
      ∃ newType ∈ newTypes (p.y + offset.2),
        ∃ a ∈ moveOrCapture ⟨side, newType, p.x + offset.1, p.y + offset.2⟩ board tempBoard
          (capturedBy side captN captS),
          m = toMove board captN captS side type p.x p.y (p.x + offset.1) (p.y + offset.2) a := by
  simp [attempt, eq_comm]

theorem mem_getMoves {board captN captS : List Piece} {side : Side} {m : Move} :
    m ∈ getMoves board captN captS side ↔
      ∃ type p tempBoard offset, (p, tempBoard) ∈ select (hasType side type) board ∧
        offset ∈ offsets side type ∧
        m ∈ attempt board captN captS side type (arrivalTypes side type) p tempBoard offset := by
  rw [getMoves_eq_flatten, List.mem_flatten]
  constructor
  · rintro ⟨g, hg, hm⟩
    obtain ⟨type, p, tempBoard, offset, hs, ho, rfl⟩ := mem_attempts.1 hg
    exact ⟨type, p, tempBoard, offset, hs, ho, hm⟩
  · rintro ⟨type, p, tempBoard, offset, hs, ho, hm⟩
    exact ⟨_, mem_attempts.2 ⟨type, p, tempBoard, offset, hs, ho, rfl⟩, hm⟩

/-- What an answer of `try_move` is: the mover leaves its square and stands on
an empty one, or on one that it takes from the opponent. -/
inductive Plays (board captN captS : List Piece) (side : Side) : Move → Prop
  | quiet {type x y nX nY tempBoard newType}
      (hmover : board.Perm (⟨side, type, x, y⟩ :: tempBoard))
      (hsteps : Steps side type (nX - x) (nY - y)) (htype : newType ∈ arrivalTypes side type nY)
      (hempty : isEmpty nX nY board = true) :
      Plays board captN captS side (toMove board captN captS side type x y nX nY
        ⟨⟨side, newType, nX, nY⟩ :: tempBoard, capturedBy side captN captS, 0⟩)
  | taking {type x y nX nY tempBoard rest newType takenType newTaken}
      (hmover : board.Perm (⟨side, type, x, y⟩ :: tempBoard))
      (hsteps : Steps side type (nX - x) (nY - y)) (htype : newType ∈ arrivalTypes side type nY)
      (htaken : tempBoard.Perm (⟨opponent side, takenType, nX, nY⟩ :: rest))
      (hnew : newTaken ∈ correctedTypes takenType) :
      Plays board captN captS side (toMove board captN captS side type x y nX nY
        ⟨⟨side, newType, nX, nY⟩ :: rest,
          ⟨side, newTaken, 0, 0⟩ :: capturedBy side captN captS, 1⟩)

theorem getMoves_plays {board captN captS : List Piece} {side : Side} {m : Move}
    (hm : m ∈ getMoves board captN captS side) : Plays board captN captS side m := by
  obtain ⟨type, p, tempBoard, ⟨dx, dy⟩, hs, ho, hm⟩ := mem_getMoves.1 hm
  obtain ⟨newType, htype, a, ha, rfl⟩ := mem_attempt.1 hm
  have hmover := select_perm hs
  rw [eq_of_hasType (select_matches hs)] at hmover
  have hsteps : Steps side type (p.x + dx - p.x) (p.y + dy - p.y) := steps_offset.2 ho
  rcases mem_moveOrCapture.1 ha with ⟨he, rfl⟩ | ⟨newBoard, newCapt, hc, rfl⟩
  · exact .quiet hmover hsteps htype he
  · obtain ⟨taken, rest, newTaken, hst, hnew, rfl, rfl⟩ := mem_capture.1 hc
    have hto := opposes_iff.1 (select_matches hst)
    have htaken := select_perm hst
    have ht : taken = ⟨opponent side, taken.type, p.x + dx, p.y + dy⟩ := by
      rcases taken with ⟨s, t, x, y⟩
      simpa using hto
    rw [ht] at htaken
    exact .taking hmover hsteps htype htaken hnew

theorem arrival_mem {board captN captS tempBoard : List Piece} {side : Side} {type newType : Kind}
    {x y nX nY : Int} {a : Arrival} (hs : (⟨side, type, x, y⟩, tempBoard) ∈ select (hasType side type) board)
    (hsteps : Steps side type (nX - x) (nY - y)) (htype : newType ∈ arrivalTypes side type nY)
    (ha : a ∈ moveOrCapture ⟨side, newType, nX, nY⟩ board tempBoard (capturedBy side captN captS)) :
    toMove board captN captS side type x y nX nY a ∈ getMoves board captN captS side := by
  obtain ⟨dx, rfl⟩ : ∃ dx, nX = x + dx := ⟨nX - x, by omega⟩
  obtain ⟨dy, rfl⟩ : ∃ dy, nY = y + dy := ⟨nY - y, by omega⟩
  refine mem_getMoves.2 ⟨type, _, tempBoard, (dx, dy), hs, steps_offset.1 hsteps, ?_⟩
  exact mem_attempt.2 ⟨newType, htype, a, ha, rfl⟩

theorem getMoves_quiet {board : List Piece} (captN captS : List Piece) {side : Side}
    {type newType : Kind} {x y nX nY : Int} (hmover : ⟨side, type, x, y⟩ ∈ board)
    (hsteps : Steps side type (nX - x) (nY - y)) (htype : newType ∈ arrivalTypes side type nY)
    (hempty : isEmpty nX nY board = true) :
    ∃ tempBoard, toMove board captN captS side type x y nX nY
      ⟨⟨side, newType, nX, nY⟩ :: tempBoard, capturedBy side captN captS, 0⟩ ∈
        getMoves board captN captS side := by
  obtain ⟨tempBoard, hs⟩ := exists_select hmover (hasType_self side type x y)
  exact ⟨tempBoard, arrival_mem hs hsteps htype (mem_moveOrCapture.2 (.inl ⟨hempty, rfl⟩))⟩

/-- An opposing piece on the square of arrival can be taken once the mover is lifted. -/
theorem taking_arrival {board tempBoard : List Piece} (capt : List Piece) {pattern : Piece → Bool}
    {mover piece taken : Piece} {newTaken : Kind} (hs : (mover, tempBoard) ∈ select pattern board)
    (htaken : taken ∈ board) (hopp : opposes piece taken = true) (hside : mover.side = piece.side)
    (hnew : newTaken ∈ correctedTypes taken.type) :
    ∃ rest, ⟨piece :: rest, ⟨piece.side, newTaken, 0, 0⟩ :: capt, 1⟩ ∈
      moveOrCapture piece board tempBoard capt := by
  have htemp : taken ∈ tempBoard := by
    rcases List.mem_cons.1 ((select_perm hs).mem_iff.1 htaken) with rfl | h
    · exact absurd (hside.symm.trans (opposes_iff.1 hopp).1) (ne_opponent piece.side)
    · exact h
  obtain ⟨rest, hst⟩ := exists_select htemp hopp
  have hc : (piece :: rest, ⟨piece.side, newTaken, 0, 0⟩ :: capt) ∈ capture piece tempBoard capt :=
    mem_capture.2 ⟨taken, rest, newTaken, hst, hnew, rfl, rfl⟩
  exact ⟨rest, mem_moveOrCapture.2 (.inr ⟨_, _, hc, rfl⟩)⟩

theorem getMoves_taking {board : List Piece} (captN captS : List Piece) {side : Side}
    {type newType takenType newTaken : Kind} {x y nX nY : Int} (hmover : ⟨side, type, x, y⟩ ∈ board)
    (hsteps : Steps side type (nX - x) (nY - y)) (htype : newType ∈ arrivalTypes side type nY)
    (htaken : ⟨opponent side, takenType, nX, nY⟩ ∈ board) (hnew : newTaken ∈ correctedTypes takenType) :
    ∃ rest, toMove board captN captS side type x y nX nY
      ⟨⟨side, newType, nX, nY⟩ :: rest, ⟨side, newTaken, 0, 0⟩ :: capturedBy side captN captS, 1⟩ ∈
        getMoves board captN captS side := by
  obtain ⟨tempBoard, hs⟩ := exists_select hmover (hasType_self side type x y)
  have hopp : opposes ⟨side, newType, nX, nY⟩ ⟨opponent side, takenType, nX, nY⟩ = true :=
    opposes_iff.2 ⟨rfl, rfl, rfl⟩
  obtain ⟨rest, ha⟩ := taking_arrival (capturedBy side captN captS) hs htaken hopp rfl hnew
  exact ⟨rest, arrival_mem hs hsteps htype ha⟩

theorem self_arrival (side : Side) (type : Kind) (nY : Int) : type ∈ arrivalTypes side type nY := by
  simp [arrivalTypes]

theorem self_corrected (type : Kind) : type ∈ correctedTypes type := by cases type <;> decide

theorem mem_of_perm {p : Piece} {as bs : List Piece} (h : as.Perm (p :: bs)) : p ∈ as :=
  h.mem_iff.2 List.mem_cons_self

theorem getMoves_legal {board captN captS : List Piece} {side : Side} (hb : WellFormed board)
    {m : Move} (hm : m ∈ getMoves board captN captS side) :
    Legal board side m.type m.x m.y m.nX m.nY m.capture := by
  cases getMoves_plays hm with
  | quiet hmover hsteps htype hempty =>
      obtain ⟨hx, hy, _⟩ := Board.isEmpty_iff.1 hempty
      obtain ⟨hs, ho⟩ := (isEmpty_iff_free side ⟨hx, hy⟩).1 hempty
      exact ⟨mem_of_perm hmover, ⟨hx, hy⟩, hsteps, hs, .inl ⟨rfl, ho⟩⟩
  | taking hmover hsteps htype htaken hnew =>
      have hmem := hmover.mem_iff.2 (List.mem_cons_of_mem _ (mem_of_perm htaken))
      have ho : Occupies (opponent side) _ _ board := ⟨_, hmem, rfl, rfl, rfl⟩
      exact ⟨mem_of_perm hmover, occupies_inside hb ho, hsteps, occupies_one hb ho,
        .inr ⟨rfl, ho⟩⟩

/-- A legal move has an entry whose mover keeps its type. -/
theorem legal_getMoves {board : List Piece} (captN captS : List Piece) {side : Side} {type : Kind}
    {x y nX nY capture : Int} (h : Legal board side type x y nX nY capture) :
    ∃ m ∈ getMoves board captN captS side, (m.type = type ∧ m.x = x ∧ m.y = y ∧ m.nX = nX ∧
      m.nY = nY ∧ m.capture = capture) ∧ ⟨side, type, nX, nY⟩ ∈ m.newBoard := by
  rcases h.flag with ⟨rfl, ho⟩ | ⟨rfl, p, hp, hps, hpx, hpy⟩
  · have hempty := (isEmpty_iff_free side h.inside).2 ⟨h.free, ho⟩
    obtain ⟨tempBoard, hm⟩ := getMoves_quiet captN captS h.stands h.steps (self_arrival side type nY) hempty
    exact ⟨_, hm, ⟨rfl, rfl, rfl, rfl, rfl, rfl⟩, List.mem_cons_self⟩
  · have htaken : ⟨opponent side, p.type, nX, nY⟩ ∈ board := by
      rw [← hps, ← hpx, ← hpy]
      exact hp
    obtain ⟨rest, hm⟩ := getMoves_taking captN captS h.stands h.steps (self_arrival side type nY) htaken
      (self_corrected p.type)
    exact ⟨_, hm, ⟨rfl, rfl, rfl, rfl, rfl, rfl⟩, List.mem_cons_self⟩

theorem getMoves_iff_legal {board : List Piece} (captN captS : List Piece) {side : Side}
    (hb : WellFormed board) {type : Kind} {x y nX nY capture : Int} :
    (∃ m ∈ getMoves board captN captS side, m.type = type ∧ m.x = x ∧ m.y = y ∧ m.nX = nX ∧
      m.nY = nY ∧ m.capture = capture) ↔ Legal board side type x y nX nY capture := by
  constructor
  · rintro ⟨m, hm, rfl, rfl, rfl, rfl, rfl, rfl⟩
    exact getMoves_legal hb hm
  · intro h
    obtain ⟨m, hm, hfields, _⟩ := legal_getMoves captN captS h
    exact ⟨m, hm, hfields⟩

/-- What an entry leads to: the new board as a multiset, and the two captured lists. -/
structure Outcome (board captN captS : List Piece) (side : Side) (m : Move) : Prop where
  newBoard_quiet : m.capture = 0 → ∃ newType,
    m.newBoard.Perm (⟨side, newType, m.nX, m.nY⟩ :: board.erase ⟨side, m.type, m.x, m.y⟩)
  newBoard_taking : m.capture = 1 → ∃ newType takenType, ⟨opponent side, takenType, m.nX, m.nY⟩ ∈ board ∧
    m.newBoard.Perm (⟨side, newType, m.nX, m.nY⟩ ::
      (board.erase ⟨side, m.type, m.x, m.y⟩).erase ⟨opponent side, takenType, m.nX, m.nY⟩)
  opponentCapt : capturedBy (opponent side) m.newCaptN m.newCaptS =
    capturedBy (opponent side) captN captS
  capt_quiet : m.capture = 0 → capturedBy side m.newCaptN m.newCaptS = capturedBy side captN captS
  capt_taking : m.capture = 1 → ∃ p, capturedBy side m.newCaptN m.newCaptS = p :: capturedBy side captN captS

@[simp] theorem capturedBy_withCaptured (side : Side) (captN captS newCapt : List Piece) :
    capturedBy side (withCaptured side captN captS newCapt).1
      (withCaptured side captN captS newCapt).2 = newCapt := by
  cases side <;> rfl

@[simp] theorem capturedBy_opponent (side : Side) (captN captS newCapt : List Piece) :
    capturedBy (opponent side) (withCaptured side captN captS newCapt).1
      (withCaptured side captN captS newCapt).2 = capturedBy (opponent side) captN captS := by
  cases side <;> rfl

theorem perm_erase {p : Piece} {as bs : List Piece} (h : as.Perm (p :: bs)) : bs.Perm (as.erase p) := by
  have he := h.erase p
  rw [List.erase_cons_head] at he
  exact he.symm

theorem getMoves_outcome {board captN captS : List Piece} {side : Side} {m : Move}
    (hm : m ∈ getMoves board captN captS side) : Outcome board captN captS side m := by
  cases getMoves_plays hm with
  | quiet hmover hsteps htype hempty =>
      constructor
      · intro _
        exact ⟨_, (perm_erase hmover).cons _⟩
      · intro h
        simp [toMove] at h
      · simp [toMove]
      · simp [toMove]
      · intro h
        simp [toMove] at h
  | @taking type x y nX nY tempBoard rest newType takenType newTaken hmover hsteps htype htaken hnew =>
      constructor
      · intro h
        simp [toMove] at h
      · intro _
        refine ⟨newType, takenType, hmover.mem_iff.2 (List.mem_cons_of_mem _ (mem_of_perm htaken)), ?_⟩
        exact ((perm_erase htaken).trans ((perm_erase hmover).erase _)).cons _
      · simp [toMove]
      · intro h
        simp [toMove] at h
      · simp [toMove]

theorem getMoves_wellFormed {board captN captS : List Piece} {side : Side} (hb : WellFormed board)
    {m : Move} (hm : m ∈ getMoves board captN captS side) : WellFormed m.newBoard := by
  cases getMoves_plays hm with
  | quiet hmover hsteps htype hempty => exact hb.moved hmover hempty _ _
  | taking hmover hsteps htype htaken hnew => exact (hb.rest hmover).replaced htaken _ _

/-- The generated moves are exactly the legal ones, and lead where they should. -/
theorem getMoves_exact (board captN captS : List Piece) (side : Side) (hb : WellFormed board) :
    (∀ type x y nX nY capture,
      (∃ m ∈ getMoves board captN captS side, m.type = type ∧ m.x = x ∧ m.y = y ∧ m.nX = nX ∧
        m.nY = nY ∧ m.capture = capture) ↔ Legal board side type x y nX nY capture) ∧
    ∀ m ∈ getMoves board captN captS side, Outcome board captN captS side m :=
  ⟨fun _ _ _ _ _ _ => getMoves_iff_legal captN captS hb, fun _ hm => getMoves_outcome hm⟩

theorem getMoves_exact_initialBoard :
    (∀ type x y nX nY capture,
      (∃ m ∈ getMoves initialBoard [] [] .north, m.type = type ∧ m.x = x ∧ m.y = y ∧ m.nX = nX ∧
        m.nY = nY ∧ m.capture = capture) ↔ Legal initialBoard .north type x y nX nY capture) ∧
    ∀ m ∈ getMoves initialBoard [] [] .north, Outcome initialBoard [] [] .north m :=
  getMoves_exact initialBoard [] [] .north initialBoard_wellFormed

end YokaiNoMori.MoveGeneration
