import YokaiNoMori.TryMove

namespace YokaiNoMori.GenerateMove

open Search Board TryMove

def distanceToKoropokkuru (board : List Piece) (side : Side) (nX nY score : Int) : List Int :=
  (select (hasType (opponent side) .koropokkuru) board).map fun q =>
    score - (q.1.x - nX).natAbs - (q.1.y - nY).natAbs

def captureGain : Kind → Int
  | .kodama => 1
  | .samourai => 3
  | .oni => 2
  | .superoni => 3
  | .kirin => 3
  | .koropokkuru => 10

def standsFor (side : Side) (x y : Int) (p : Piece) : Bool := p.side == side && p.stands x y

/-- A capturing koropokkuru has a first answer of its own, and the ordinary
gain as a second one. -/
def isCapturing (board : List Piece) (side : Side) (type : Kind) (nX nY capture score : Int) : List Int :=
  (if capture = 1 then
    (if type = .koropokkuru then [score - 5] else []) ++
      (select (standsFor (opponent side) nX nY) board).map (fun q => score + captureGain q.1.type)
  else []) ++ (if capture = 0 then [score] else [])

def oppoMoves : List Move → Kind → Int → Int → Int → List Int
  | [], _, _, _, score => [score]
  | head :: tail, type, nX, nY, score =>
      (if head.nX = nX ∧ head.nY = nY then
        (if type = .koropokkuru then [score - 1000] else []) ++ [score - 2]
      else []) ++ oppoMoves tail type nX nY score

def scores (board : List Piece) (oppoMoveList : List Move) (m : Move) : List Int :=
  (distanceToKoropokkuru board m.side m.nX m.nY m.score).flatMap fun newScore =>
    (isCapturing board m.side m.type m.nX m.nY m.capture newScore).flatMap fun newScore2 =>
      oppoMoves oppoMoveList m.type m.nX m.nY newScore2

/-- The output list is left open: its base clause `process_score(_, _, [], _)`
binds nothing, so an answer is the list of the cells that were bound. -/
def processScore (board : List Piece) (oppoMoveList : List Move) : List Move → List (List Move)
  | [] => [[]]
  | head :: tail =>
      if head.board = board then
        (scores board oppoMoveList head).flatMap fun newScore3 =>
          (processScore board oppoMoveList tail).map fun newTail => { head with score := newScore3 } :: newTail
      else []

/-- `best_move` on the cells of an open list. At the unbound tail the first
clause closes the list, and the second one compares an unbound score. -/
def bestMove : List Move → Move → Answers Move
  | [], best => ⟨[best], true⟩
  | head :: tail, best =>
      orElse (if head.score > best.score then bestMove tail head else ofList []) (bestMove tail best)

/-- On a list without any bound cell the answer is an unbound variable. -/
def bestMoveStart : List Move → Answers (Option Move)
  | [] => ⟨[none], true⟩
  | head :: tail => conj (bestMove tail head) (fun best => ofList [some best])

def unifiesQuery (board captN captS : List Piece) (side : Side) : Option Move → List (Option Move)
  | none => [none]
  | some m =>
      if m.board = board ∧ m.captN = captN ∧ m.captS = captS ∧ m.side = side then [some m] else []

/-- An answer `none` succeeds and leaves every output variable unbound. -/
def generateMove (board captN captS : List Piece) (side : Side) : Answers (Option Move) :=
  conj (ofList (processScore board (getMoves board captN captS (opponent side))
      (getMoves board captN captS side))) fun newMoveList =>
    conj (bestMoveStart newMoveList) fun best => ofList (unifiesQuery board captN captS side best)

theorem oppoMoves_ne_nil (ms : List Move) (type : Kind) (nX nY score : Int) :
    oppoMoves ms type nX nY score ≠ [] := by
  induction ms with
  | nil => simp [oppoMoves]
  | cons m ms ih => simp [oppoMoves, ih]

def firstScore (board : List Piece) (oppoMoveList : List Move) (m : Move) : Int :=
  (scores board oppoMoveList m).headD 0

def rescored (board : List Piece) (oppoMoveList : List Move) (m : Move) : Move :=
  { m with score := firstScore board oppoMoveList m }

theorem processScore_head {board : List Piece} (oppoMoveList : List Move) {ms : List Move}
    (hm : ∀ m ∈ ms, m.board = board ∧ scores board oppoMoveList m ≠ []) :
    (processScore board oppoMoveList ms).head? = some (ms.map (rescored board oppoMoveList)) := by
  induction ms with
  | nil => rfl
  | cons m ms ih =>
      obtain ⟨hb, hs⟩ := hm m (by simp)
      obtain ⟨score, more, hc⟩ := List.exists_cons_of_ne_nil hs
      have ih := ih (fun n hn => hm n (by simp [hn]))
      have hf : firstScore board oppoMoveList m = score := by simp [firstScore, hc]
      simp [processScore, hb, hc, ih, rescored, hf]

/-- Without an opposing koropokkuru no entry has a score, and the query fails. -/
theorem processScore_nil {board : List Piece} {oppoMoveList ms : List Move} {m : Move}
    (h : scores board oppoMoveList m = []) : processScore board oppoMoveList (m :: ms) = [] := by
  simp [processScore, h]

theorem bestMove_first (ms : List Move) (best : Move) :
    first (bestMove ms best) = some (firstMax Move.score best ms) := by
  induction ms generalizing best with
  | nil => rfl
  | cons m ms ih =>
      by_cases hs : m.score > best.score
      · simp only [bestMove, hs, if_true, firstMax]
        exact first_orElse (ih m)
      · simp only [bestMove, hs, if_false, firstMax]
        simpa [orElse, ofList, first] using ih best

theorem bestMoveStart_first (m : Move) (ms : List Move) :
    first (bestMoveStart (m :: ms)) = some (some (firstMax Move.score m ms)) :=
  first_conj (bestMove_first ms m) rfl

theorem firstMax_map {α β : Type} (key : β → Int) (f : α → β) (b : α) (as : List α) :
    firstMax key (f b) (as.map f) = f (firstMax (fun a => key (f a)) b as) := by
  induction as generalizing b with
  | nil => rfl
  | cons a as ih =>
      simp only [List.map_cons, firstMax]
      split <;> exact ih _

theorem scores_congr {board captN captS : List Piece} {side : Side} {type : Kind} {x y nX nY : Int}
    {oppoMoveList : List Move} {m n : Move} (hm : Records board captN captS side type x y nX nY m)
    (hn : Records board captN captS side type x y nX nY n) :
    scores board oppoMoveList m = scores board oppoMoveList n := by
  simp only [scores, hm.side_eq, hm.type_eq, hm.nX_eq, hm.nY_eq, hm.score_eq, hm.capture_eq,
    hn.side_eq, hn.type_eq, hn.nX_eq, hn.nY_eq, hn.score_eq, hn.capture_eq]

theorem isCapturing_ne_nil {board captN captS : List Piece} {side : Side} {m : Move} (score : Int)
    (hm : m ∈ getMoves board captN captS side) :
    isCapturing board m.side m.type m.nX m.nY m.capture score ≠ [] := by
  obtain ⟨type, x, y, nX, nY, h⟩ := getMoves_records hm
  by_cases he : isEmpty nX nY board
  · have hc : m.capture = 0 := by simp [h.capture_eq, he]
    simp [isCapturing, hc]
  · have hc : m.capture = 1 := by simp [h.capture_eq, he]
    obtain ⟨taken, ht, hs, hx, hy⟩ := getMoves_taken hm hc
    have hsel : select (standsFor (opponent m.side) m.nX m.nY) board ≠ [] :=
      select_ne_nil ht (by simp [standsFor, hs, hx, hy, h.side_eq])
    simp [isCapturing, hc, hsel]

theorem scores_ne_nil {board captN captS : List Piece} {side : Side} {oppoMoveList : List Move} {m : Move}
    (hk : ∃ p ∈ board, hasType (opponent side) .koropokkuru p = true)
    (hm : m ∈ getMoves board captN captS side) : scores board oppoMoveList m ≠ [] := by
  obtain ⟨type, x, y, nX, nY, h⟩ := getMoves_records hm
  obtain ⟨p, hp, hpk⟩ := hk
  have hd : distanceToKoropokkuru board m.side m.nX m.nY m.score ≠ [] := by
    simpa [distanceToKoropokkuru, h.side_eq] using select_ne_nil hp hpk
  obtain ⟨d, ds, hds⟩ := List.exists_cons_of_ne_nil hd
  obtain ⟨c, cs, hcs⟩ := List.exists_cons_of_ne_nil (isCapturing_ne_nil d hm)
  obtain ⟨o, os, hos⟩ := List.exists_cons_of_ne_nil (oppoMoves_ne_nil oppoMoveList m.type m.nX m.nY c)
  simp [scores, hds, hcs, hos]

/-- The first answer of `generate_move` is the earliest entry with the greatest first score. -/
theorem generateMove_best {board captN captS : List Piece} {side : Side}
    (hk : ∃ p ∈ board, hasType (opponent side) .koropokkuru p = true) {m : Move} {ms : List Move}
    (hms : getMoves board captN captS side = m :: ms) :
    first (generateMove board captN captS side) =
      some (some (rescored board (getMoves board captN captS (opponent side))
        (firstMax (firstScore board (getMoves board captN captS (opponent side))) m ms))) := by
  let oppo := getMoves board captN captS (opponent side)
  have hlisted : ∀ n ∈ m :: ms, n.board = board ∧ scores board oppo n ≠ [] := by
    intro n hn
    rw [← hms] at hn
    obtain ⟨_, _, _, _, _, h⟩ := getMoves_records hn
    exact ⟨h.board_eq, scores_ne_nil hk hn⟩
  have hscored := processScore_head oppo hlisted
  let best := firstMax (firstScore board oppo) m ms
  have hbest : first (bestMoveStart ((m :: ms).map (rescored board oppo))) =
      some (some (rescored board oppo best)) := by
    rw [List.map_cons, bestMoveStart_first, firstMax_map]
    rfl
  have hquery : unifiesQuery board captN captS side (some (rescored board oppo best)) =
      [some (rescored board oppo best)] := by
    have hin : best ∈ getMoves board captN captS side := by
      rw [hms]
      exact firstMax_mem (firstScore board oppo) m ms
    obtain ⟨_, _, _, _, _, hr⟩ := getMoves_records hin
    simp [unifiesQuery, rescored, hr.board_eq, hr.captN_eq, hr.captS_eq, hr.side_eq]
  rw [generateMove, hms]
  refine first_conj hscored (first_conj hbest ?_)
  rw [hquery]
  rfl

/-- The first answer of `generate_move` is the first variant of some attempt:
its other variants have the same score and come later. -/
theorem generateMove_first {board : List Piece} {side : Side} (captN captS : List Piece)
    (hk : ∃ p ∈ board, hasType (opponent side) .koropokkuru p = true)
    (hne : getMoves board captN captS side ≠ []) :
    ∃ g ∈ attempts board captN captS side, ∃ m, g.head? = some m ∧
      first (generateMove board captN captS side) =
        some (some (rescored board (getMoves board captN captS (opponent side)) m)) := by
  obtain ⟨m, ms, hms⟩ := List.exists_cons_of_ne_nil hne
  let oppo := getMoves board captN captS (opponent side)
  have hflat : (attempts board captN captS side).flatten = m :: ms := by
    rw [← getMoves_eq_flatten, hms]
  have hkeys : ∀ g ∈ attempts board captN captS side, ∀ a ∈ g, ∀ b ∈ g,
      firstScore board oppo a = firstScore board oppo b := by
    intro g hg a ha b hb
    obtain ⟨_, _, _, _, _, h⟩ := attempts_records hg
    rw [firstScore, firstScore, scores_congr (h a ha) (h b hb)]
  obtain ⟨g, hg, hhead⟩ := firstMax_head (firstScore board oppo) _ hkeys hflat
  exact ⟨g, hg, _, hhead, generateMove_best hk hms⟩

theorem generateMove_no_koropokkuru {board : List Piece} {side : Side} (captN captS : List Piece)
    (hk : ∀ p ∈ board, hasType (opponent side) .koropokkuru p = false)
    (hne : getMoves board captN captS side ≠ []) :
    generateMove board captN captS side = ⟨[], false⟩ := by
  obtain ⟨m, ms, hms⟩ := List.exists_cons_of_ne_nil hne
  obtain ⟨_, _, _, _, _, h⟩ := getMoves_records (m := m) (by rw [hms]; simp)
  have hs (oppoMoveList : List Move) : scores board oppoMoveList m = [] := by
    simp [scores, distanceToKoropokkuru, h.side_eq, select_eq_nil hk]
  rw [generateMove]
  rw [hms, processScore_nil (hs _)]
  rfl

theorem koropokkuru_of_first {board captN captS : List Piece} {side : Side} {answer : Option Move}
    (hne : getMoves board captN captS side ≠ [])
    (h : first (generateMove board captN captS side) = some answer) :
    ∃ p ∈ board, hasType (opponent side) .koropokkuru p = true := by
  by_contra hk
  have hnone : ∀ p ∈ board, hasType (opponent side) .koropokkuru p = false := by simpa using hk
  rw [generateMove_no_koropokkuru captN captS hnone hne] at h
  cases h

end YokaiNoMori.GenerateMove
