import YokaiNoMori.GenerateMove
import YokaiNoMori.MoveGeneration

namespace YokaiNoMori.Score

open Search Board TryMove GenerateMove MoveRules MoveGeneration

def OneKoropokkuru (board : List Piece) (side : Side) : Prop :=
  board.countP (hasType side .koropokkuru) = 1

instance (board : List Piece) (side : Side) : Decidable (OneKoropokkuru board side) :=
  inferInstanceAs (Decidable (board.countP (hasType side .koropokkuru) = 1))

def distance (kX kY : Int) (m : Move) : Int := (kX - m.nX).natAbs + (kY - m.nY).natAbs

/-- What a captured piece is worth. -/
def value : Kind → Int
  | .kodama => 1
  | .oni => 2
  | .samourai | .superoni | .kirin => 3
  | .koropokkuru => 10

theorem captureGain_eq (type : Kind) : captureGain type = value type := by
  cases type <;> rfl

def gain (board : List Piece) (side : Side) (m : Move) : Int :=
  if m.capture = 1 then
    if m.type = .koropokkuru then -5
    else ((board.find? (standsFor (opponent side) m.nX m.nY)).map fun taken => value taken.type).getD 0
  else 0

def Threatened (oppoMoveList : List Move) (m : Move) : Prop :=
  ∃ n ∈ oppoMoveList, n.nX = m.nX ∧ n.nY = m.nY

instance (oppoMoveList : List Move) (m : Move) : Decidable (Threatened oppoMoveList m) :=
  inferInstanceAs (Decidable (∃ n ∈ oppoMoveList, n.nX = m.nX ∧ n.nY = m.nY))

def malus (type : Kind) : Int := if type = .koropokkuru then 1000 else 2

/-- The worth of an entry of `get_moves`, with the opposing koropokkuru on `(kX, kY)`. -/
def worth (board captN captS : List Piece) (side : Side) (kX kY : Int) (m : Move) : Int :=
  -distance kX kY m + gain board side m -
    if Threatened (getMoves board captN captS (opponent side)) m then malus m.type else 0

theorem filter_koropokkuru {board : List Piece} {side : Side} (hk : OneKoropokkuru board side) {kX kY : Int}
    (hat : ⟨side, .koropokkuru, kX, kY⟩ ∈ board) :
    board.filter (hasType side .koropokkuru) = [⟨side, .koropokkuru, kX, kY⟩] := by
  rw [OneKoropokkuru, List.countP_eq_length_filter, List.length_eq_one_iff] at hk
  obtain ⟨p, hp⟩ := hk
  have hmem : ⟨side, .koropokkuru, kX, kY⟩ ∈ board.filter (hasType side .koropokkuru) :=
    List.mem_filter.2 ⟨hat, hasType_self side .koropokkuru kX kY⟩
  rw [hp, List.mem_singleton] at hmem
  rw [hp, hmem]

theorem exists_koropokkuru {board : List Piece} {side : Side} (hk : OneKoropokkuru board side) :
    ∃ p ∈ board, hasType side .koropokkuru p = true := by
  have hpos : 0 < board.countP (hasType side .koropokkuru) := by rw [hk]; exact Nat.one_pos
  exact List.countP_pos_iff.1 hpos

theorem distance_eq {board : List Piece} {side : Side} (hk : OneKoropokkuru board (opponent side))
    {kX kY : Int} (hat : ⟨opponent side, .koropokkuru, kX, kY⟩ ∈ board) (m : Move) (start : Int) :
    distanceToKoropokkuru board side m.nX m.nY start = [start - distance kX kY m] := by
  have h := select_map_fst (hasType (opponent side) .koropokkuru)
    (fun p => start - (p.x - m.nX).natAbs - (p.y - m.nY).natAbs) board
  rw [filter_koropokkuru hk hat] at h
  rw [distanceToKoropokkuru, h, distance]
  simp only [List.map_cons, List.map_nil, List.cons.injEq, and_true]
  omega

theorem capturing_head {board captN captS : List Piece} {side : Side} {m : Move} (start : Int)
    (hm : m ∈ getMoves board captN captS side) :
    (isCapturing board side m.type m.nX m.nY m.capture start).head? = some (start + gain board side m) := by
  obtain ⟨_, _, _, _, _, h⟩ := getMoves_records hm
  have hflag := h.capture_eq
  by_cases hc : m.capture = 1
  · by_cases ht : m.type = .koropokkuru
    · simp [isCapturing, gain, hc, ht, Int.sub_eq_add_neg]
    · obtain ⟨taken, htaken, hs, hx, hy⟩ := getMoves_taken hm hc
      have hstands : standsFor (opponent side) m.nX m.nY taken = true := by
        simp [standsFor, hs, hx, hy]
      obtain ⟨found, hfound⟩ := Option.isSome_iff_exists.1 (List.find?_isSome.2 ⟨taken, htaken, hstands⟩)
      have hsel := select_map_fst (standsFor (opponent side) m.nX m.nY)
        (fun q => start + value q.type) board
      simp [isCapturing, gain, hc, ht, captureGain_eq, hsel, hfound]
  · have hzero : m.capture = 0 := by
      by_contra hne
      split at hflag
      · exact hne hflag
      · exact hc hflag
    simp [isCapturing, gain, hzero]

theorem oppoMoves_head (ms : List Move) (m : Move) (start : Int) :
    (oppoMoves ms m.type m.nX m.nY start).head? =
      some (start - if Threatened ms m then malus m.type else 0) := by
  induction ms with
  | nil => simp [oppoMoves, Threatened]
  | cons n ms ih =>
      by_cases hn : n.nX = m.nX ∧ n.nY = m.nY
      · have ht : Threatened (n :: ms) m := ⟨n, List.mem_cons_self, hn⟩
        by_cases hk : m.type = .koropokkuru <;> simp [oppoMoves, hn, ht, malus, hk]
      · have ht : Threatened (n :: ms) m ↔ Threatened ms m := by
          simp only [Threatened, List.mem_cons, exists_eq_or_imp, hn, false_or]
        simp only [oppoMoves, hn, if_false, List.nil_append, ih, ht]

/-- The first of the scores that `process_score` finds for an entry is its worth. -/
theorem firstScore_eq {board captN captS : List Piece} {side : Side}
    (hk : OneKoropokkuru board (opponent side)) {kX kY : Int}
    (hat : ⟨opponent side, .koropokkuru, kX, kY⟩ ∈ board) {m : Move}
    (hm : m ∈ getMoves board captN captS side) :
    firstScore board (getMoves board captN captS (opponent side)) m =
      worth board captN captS side kX kY m := by
  obtain ⟨_, _, _, _, _, h⟩ := getMoves_records hm
  obtain ⟨cs, hcs⟩ := List.head?_eq_some_iff.1 (capturing_head (0 - distance kX kY m) hm)
  have hopp := oppoMoves_head (getMoves board captN captS (opponent side)) m
    (0 - distance kX kY m + gain board side m)
  rw [firstScore, scores, h.side_eq, h.score_eq, distance_eq hk hat, List.flatMap_singleton, hcs,
    List.flatMap_cons, List.headD_eq_head?_getD, List.head?_append, hopp, Option.some_or, Option.getD_some,
    worth]
  omega

theorem processScore_first {board : List Piece} (captN captS : List Piece) {side : Side}
    (hk : OneKoropokkuru board (opponent side)) {kX kY : Int}
    (hat : ⟨opponent side, .koropokkuru, kX, kY⟩ ∈ board) :
    (processScore board (getMoves board captN captS (opponent side))
      (getMoves board captN captS side)).head? =
        some ((getMoves board captN captS side).map
          fun m => { m with score := worth board captN captS side kX kY m }) := by
  have hlisted : ∀ m ∈ getMoves board captN captS side, m.board = board ∧
      scores board (getMoves board captN captS (opponent side)) m ≠ [] := by
    intro m hm
    obtain ⟨_, _, _, _, _, h⟩ := getMoves_records hm
    exact ⟨h.board_eq, scores_ne_nil (exists_koropokkuru hk) hm⟩
  rw [processScore_head _ hlisted, Option.some.injEq]
  apply List.map_congr_left
  intro m hm
  rw [rescored, firstScore_eq hk hat hm]

theorem generateMove_worth {board captN captS : List Piece} {side : Side}
    (hk : OneKoropokkuru board (opponent side)) {kX kY : Int}
    (hat : ⟨opponent side, .koropokkuru, kX, kY⟩ ∈ board) {m : Move} {ms : List Move}
    (hms : getMoves board captN captS side = m :: ms) :
    let best := firstMax (worth board captN captS side kX kY) m ms
    first (generateMove board captN captS side) =
      some (some { best with score := worth board captN captS side kX kY best }) := by
  have hscore : ∀ n ∈ m :: ms, firstScore board (getMoves board captN captS (opponent side)) n =
      worth board captN captS side kX kY n := by
    intro n hn
    rw [← hms] at hn
    exact firstScore_eq hk hat hn
  have hmem := firstMax_mem (worth board captN captS side kX kY) m ms
  have hbest := generateMove_best (exists_koropokkuru hk) hms
  rw [firstMax_congr hscore, rescored, hscore _ hmem] at hbest
  exact hbest

/-- The first answer is the earliest entry of the greatest worth. -/
theorem generateMove_earliest (board captN captS : List Piece) (side : Side)
    (hk : OneKoropokkuru board (opponent side)) (kX kY : Int)
    (hat : ⟨opponent side, .koropokkuru, kX, kY⟩ ∈ board) (hne : getMoves board captN captS side ≠ []) :
    ∃ before best after, getMoves board captN captS side = before ++ best :: after ∧
      (∀ m ∈ before, worth board captN captS side kX kY m < worth board captN captS side kX kY best) ∧
      (∀ m ∈ after, worth board captN captS side kX kY m ≤ worth board captN captS side kX kY best) ∧
      first (generateMove board captN captS side) =
        some (some { best with score := worth board captN captS side kX kY best }) := by
  obtain ⟨m, ms, hms⟩ := List.exists_cons_of_ne_nil hne
  obtain ⟨before, after, heq, hbefore, hafter⟩ := firstMax_split (worth board captN captS side kX kY) m ms
  exact ⟨before, _, after, hms.trans heq, hbefore, hafter, generateMove_worth hk hat hms⟩

theorem generateMove_earliest_initialBoard :
    ∃ before best after, getMoves initialBoard [] [] .north = before ++ best :: after ∧
      (∀ m ∈ before, worth initialBoard [] [] .north 3 6 m < worth initialBoard [] [] .north 3 6 best) ∧
      (∀ m ∈ after, worth initialBoard [] [] .north 3 6 m ≤ worth initialBoard [] [] .north 3 6 best) ∧
      first (generateMove initialBoard [] [] .north) =
        some (some { best with score := worth initialBoard [] [] .north 3 6 best }) :=
  generateMove_earliest initialBoard [] [] .north (by decide) 3 6 (by decide) (by decide)

/-- The outputs of a successful query are those of the entry. -/
structure Binds (m : Move) (answer : Move) : Prop where
  newBoard_eq : answer.newBoard = m.newBoard
  newCaptN_eq : answer.newCaptN = m.newCaptN
  newCaptS_eq : answer.newCaptS = m.newCaptS
  type_eq : answer.type = m.type
  x_eq : answer.x = m.x
  y_eq : answer.y = m.y
  nX_eq : answer.nX = m.nX
  nY_eq : answer.nY = m.nY
  capture_eq : answer.capture = m.capture

def AnswersRealMove (board captN captS : List Piece) (side : Side) : Prop :=
  ∀ answer, first (generateMove board captN captS side) = some answer →
    ∃ m ∈ getMoves board captN captS side, ∃ a, answer = some a ∧ Binds m a

theorem generateMove_nil {board captN captS : List Piece} {side : Side}
    (h : getMoves board captN captS side = []) :
    first (generateMove board captN captS side) = some none := by
  rw [generateMove, h]
  rfl

theorem getMoves_cons_answers {board captN captS : List Piece} {side : Side} {m : Move} {ms : List Move}
    (hms : getMoves board captN captS side = m :: ms) : AnswersRealMove board captN captS side := by
  intro answer ha
  have hne : getMoves board captN captS side ≠ [] := by rw [hms]; exact List.cons_ne_nil m ms
  have hk := koropokkuru_of_first hne ha
  rw [generateMove_best hk hms, Option.some.injEq] at ha
  refine ⟨firstMax (firstScore board (getMoves board captN captS (opponent side))) m ms, ?_, _,
    ha.symm, ⟨rfl, rfl, rfl, rfl, rfl, rfl, rfl, rfl, rfl⟩⟩
  rw [hms]
  exact firstMax_mem _ m ms

/-- Some piece of the side steps onto an empty square or onto an opposing piece. -/
def CanMove (board : List Piece) (side : Side) : Prop :=
  ∃ p ∈ board, p.side = side ∧ ∃ nX nY, Steps side p.type (nX - p.x) (nY - p.y) ∧
    (isEmpty nX nY board = true ∨ Occupies (opponent side) nX nY board)

theorem getMoves_ne_nil (board captN captS : List Piece) (side : Side) :
    getMoves board captN captS side ≠ [] ↔ CanMove board side := by
  constructor
  · intro hne
    obtain ⟨m, hm⟩ := List.exists_mem_of_ne_nil _ hne
    cases getMoves_plays hm with
    | quiet hmover hsteps htype hempty =>
        exact ⟨_, mem_of_perm hmover, rfl, _, _, hsteps, .inl hempty⟩
    | taking hmover hsteps htype htaken hnew =>
        have hmem := hmover.mem_iff.2 (List.mem_cons_of_mem _ (mem_of_perm htaken))
        exact ⟨_, mem_of_perm hmover, rfl, _, _, hsteps, .inr ⟨_, hmem, rfl, rfl, rfl⟩⟩
  · rintro ⟨p, hp, rfl, nX, nY, hsteps, hempty | ⟨q, hq, hside, rfl, rfl⟩⟩
    · obtain ⟨_, hm⟩ := getMoves_quiet captN captS hp hsteps (self_arrival p.side p.type nY) hempty
      exact List.ne_nil_of_mem hm
    · have htaken : ⟨opponent p.side, q.type, q.x, q.y⟩ ∈ board := by
        rw [← hside]
        exact hq
      obtain ⟨_, hm⟩ := getMoves_taking captN captS hp hsteps (self_arrival p.side p.type q.y) htaken
        (self_corrected q.type)
      exact List.ne_nil_of_mem hm

/-- Every answer is a real move exactly when the side has a move at all. -/
theorem answersRealMove_iff (board captN captS : List Piece) (side : Side) :
    AnswersRealMove board captN captS side ↔ CanMove board side := by
  rw [← getMoves_ne_nil board captN captS side]
  constructor
  · intro h hnil
    obtain ⟨m, hm, _⟩ := h none (generateMove_nil hnil)
    rw [hnil] at hm
    cases hm
  · intro hne
    obtain ⟨m, ms, hms⟩ := List.exists_cons_of_ne_nil hne
    exact getMoves_cons_answers hms

def cornered : List Piece :=
  [⟨.north, .koropokkuru, 1, 6⟩, ⟨.north, .kodama, 1, 5⟩, ⟨.north, .kodama, 2, 5⟩,
   ⟨.north, .kodama, 2, 6⟩, ⟨.south, .koropokkuru, 5, 1⟩]

/-- Without a move the query succeeds and leaves its outputs unbound. -/
theorem cornered_unbound :
    OneKoropokkuru cornered .north ∧ OneKoropokkuru cornered .south ∧
      getMoves cornered [] [] .north = [] ∧ ¬ AnswersRealMove cornered [] [] .north := by
  have hnil : getMoves cornered [] [] .north = [] := by decide
  refine ⟨by decide, by decide, hnil, fun h => ?_⟩
  obtain ⟨m, hm, _⟩ := h none (generateMove_nil hnil)
  rw [hnil] at hm
  cases hm

end YokaiNoMori.Score
