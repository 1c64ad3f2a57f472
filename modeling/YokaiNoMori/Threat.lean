import YokaiNoMori.Score

namespace YokaiNoMori.Threat

open Search Board TryMove GenerateMove MoveRules MoveGeneration Score

def Reached (board : List Piece) (side : Side) (x y : Int) : Prop :=
  ∃ q ∈ board, q.side = side ∧ Steps side q.type (x - q.x) (y - q.y)

theorem reached_perm {as bs : List Piece} (h : as.Perm bs) (side : Side) (x y : Int) :
    Reached as side x y ↔ Reached bs side x y := by
  simp only [Reached, h.mem_iff]

theorem lands_iff_reached {board : List Piece} (captN captS : List Piece) (hb : WellFormed board)
    {side : Side} {x y : Int} (hin : (1 ≤ x ∧ x ≤ 5) ∧ 1 ≤ y ∧ y ≤ 6) (hfree : ¬ Occupies side x y board) :
    (∃ n ∈ getMoves board captN captS side, n.nX = x ∧ n.nY = y) ↔ Reached board side x y := by
  constructor
  · rintro ⟨n, hn, rfl, rfl⟩
    have hl := getMoves_legal hb hn
    exact ⟨_, hl.stands, rfl, hl.steps⟩
  · rintro ⟨q, hq, rfl, hsteps⟩
    have hflag : ∃ capture : Int, capture = 0 ∧ ¬ Occupies (opponent q.side) x y board ∨
        capture = 1 ∧ Occupies (opponent q.side) x y board := by
      by_cases ho : Occupies (opponent q.side) x y board
      · exact ⟨1, .inr ⟨rfl, ho⟩⟩
      · exact ⟨0, .inl ⟨rfl, ho⟩⟩
    obtain ⟨capture, hflag⟩ := hflag
    have hl : Legal board q.side q.type q.x q.y x y capture := ⟨hq, hin, hsteps, hfree, hflag⟩
    obtain ⟨n, hn, ⟨_, _, _, hx, hy, _⟩, _⟩ := legal_getMoves captN captS hl
    exact ⟨n, hn, hx, hy⟩

theorem not_threatened_occupied {board captN captS : List Piece} (hb : WellFormed board) {side : Side}
    {m : Move} (ho : Occupies side m.nX m.nY board) : ¬ Threatened (getMoves board captN captS side) m := by
  rintro ⟨n, hn, hx, hy⟩
  have hfree := (getMoves_legal hb hn).free
  rw [hx, hy] at hfree
  exact hfree ho

/-- The mover and the captured piece are the only differences between the two
boards, and neither is an opposing piece that could step onto the square. -/
theorem reached_newBoard {board captN captS : List Piece} {side : Side} {m : Move}
    (hm : m ∈ getMoves board captN captS side) :
    Reached m.newBoard (opponent side) m.nX m.nY ↔ Reached board (opponent side) m.nX m.nY := by
  have hne : side ≠ opponent side := ne_opponent side
  cases getMoves_plays hm with
  | @quiet type x y nX nY tempBoard newType hmover hsteps htype hempty =>
      have h : Reached (⟨side, newType, nX, nY⟩ :: tempBoard) (opponent side) nX nY ↔
          Reached (⟨side, type, x, y⟩ :: tempBoard) (opponent side) nX nY := by
        simp only [Reached, List.mem_cons, exists_eq_or_imp, hne, false_and, false_or]
      exact h.trans (reached_perm hmover _ _ _).symm
  | @taking type x y nX nY tempBoard rest newType takenType newTaken hmover hsteps htype htaken hnew =>
      have hself : ¬ Steps (opponent side) takenType (nX - nX) (nY - nY) := by
        rw [Int.sub_self, Int.sub_self]
        exact not_steps_zero _ _
      have h : Reached (⟨side, newType, nX, nY⟩ :: rest) (opponent side) nX nY ↔
          Reached (⟨side, type, x, y⟩ :: tempBoard) (opponent side) nX nY := by
        simp only [Reached, List.mem_cons, htaken.mem_iff, exists_eq_or_imp, hne, hself, false_and,
          and_false, false_or]
      exact h.trans (reached_perm hmover _ _ _).symm

theorem landing_free {board captN captS : List Piece} (hb : WellFormed board) {side : Side} {m : Move}
    (hm : m ∈ getMoves board captN captS side) : ¬ Occupies (opponent side) m.nX m.nY m.newBoard := by
  have hnew := getMoves_wellFormed hb hm
  apply occupies_one hnew
  rw [opponent_opponent]
  cases getMoves_plays hm with
  | quiet => exact ⟨_, List.mem_cons_self, rfl, rfl, rfl⟩
  | taking => exact ⟨_, List.mem_cons_self, rfl, rfl, rfl⟩

/-- The opponent can take the piece that has just moved when one of its pieces
steps onto the square on the board before the move. -/
theorem recapture_iff_reached {board captN captS : List Piece} (hb : WellFormed board) {side : Side}
    {m : Move} (hm : m ∈ getMoves board captN captS side) :
    (∃ n ∈ tryMove m.newBoard m.newCaptN m.newCaptS (opponent side), n.nX = m.nX ∧ n.nY = m.nY) ↔
      Reached board (opponent side) m.nX m.nY := by
  rw [← reached_newBoard hm]
  exact lands_iff_reached _ _ (getMoves_wellFormed hb hm) (getMoves_legal hb hm).inside (landing_free hb hm)

theorem threatened_iff {board captN captS : List Piece} (hb : WellFormed board) {side : Side} {m : Move}
    (hm : m ∈ getMoves board captN captS side) :
    Threatened (getMoves board captN captS (opponent side)) m ↔
      m.capture = 0 ∧ Reached board (opponent side) m.nX m.nY := by
  have hl := getMoves_legal hb hm
  rcases hl.flag with ⟨hc, ho⟩ | ⟨hc, ho⟩
  · rw [Threatened, lands_iff_reached captN captS hb hl.inside ho]
    simp [hc]
  · simp [not_threatened_occupied hb ho, hc]

/-- The score of the entry in the first answer of `process_score` has the
deduction of `oppo_moves` in it. -/
def Deducted (board captN captS : List Piece) (side : Side) (kX kY : Int) (m : Move) : Prop :=
  firstScore board (getMoves board captN captS (opponent side)) m =
    -distance kX kY m + gain board side m - malus m.type

theorem deducted_iff {board captN captS : List Piece} {side : Side}
    (hk : OneKoropokkuru board (opponent side)) {kX kY : Int}
    (hat : ⟨opponent side, .koropokkuru, kX, kY⟩ ∈ board) {m : Move}
    (hm : m ∈ getMoves board captN captS side) :
    Deducted board captN captS side kX kY m ↔
      Threatened (getMoves board captN captS (opponent side)) m := by
  have hpos : malus m.type ≠ 0 := by
    rw [malus]
    split <;> decide
  rw [Deducted, firstScore_eq hk hat hm, worth]
  by_cases ht : Threatened (getMoves board captN captS (opponent side)) m
  · simp only [ht, if_true]
  · simp only [ht, if_false, iff_false]
    omega

/-- The deduction is right for quiet moves, and for captures that cannot be answered. -/
theorem deducted_iff_recapture (board captN captS : List Piece) (side : Side) (hb : WellFormed board)
    (hk : OneKoropokkuru board (opponent side)) (kX kY : Int)
    (hat : ⟨opponent side, .koropokkuru, kX, kY⟩ ∈ board) :
    (processScore board (getMoves board captN captS (opponent side))
      (getMoves board captN captS side)).head? =
        some ((getMoves board captN captS side).map fun m =>
          { m with score := firstScore board (getMoves board captN captS (opponent side)) m }) ∧
    ∀ m ∈ getMoves board captN captS side,
      ((Deducted board captN captS side kX kY m ↔
        ∃ n ∈ tryMove m.newBoard m.newCaptN m.newCaptS (opponent side), n.nX = m.nX ∧ n.nY = m.nY) ↔
      (m.capture = 0 ∨ ∀ q ∈ board, q.side = opponent side →
        ¬ Steps (opponent side) q.type (m.nX - q.x) (m.nY - q.y))) := by
  refine ⟨processScore_head _ fun m hm => ?_, fun m hm => ?_⟩
  · obtain ⟨_, _, _, _, _, h⟩ := getMoves_records hm
    exact ⟨h.board_eq, scores_ne_nil (exists_koropokkuru hk) hm⟩
  · rw [deducted_iff hk hat hm, recapture_iff_reached hb hm, threatened_iff hb hm]
    have hreached : (∀ q ∈ board, q.side = opponent side →
        ¬ Steps (opponent side) q.type (m.nX - q.x) (m.nY - q.y)) ↔
          ¬ Reached board (opponent side) m.nX m.nY := by
      simp only [Reached, not_exists, not_and]
    rw [hreached]
    tauto

def supported : List Piece :=
  [⟨.north, .koropokkuru, 3, 1⟩, ⟨.south, .koropokkuru, 3, 6⟩, ⟨.north, .kodama, 2, 3⟩,
   ⟨.south, .kodama, 2, 4⟩, ⟨.south, .kirin, 2, 5⟩]

theorem supported_wellFormed : WellFormed supported := by
  constructor
  · simp [supported, Piece.OnBoard]
  · simp [supported, Apart]

theorem deducted_iff_recapture_supported :
    (processScore supported (getMoves supported [] [] .south) (getMoves supported [] [] .north)).head? =
        some ((getMoves supported [] [] .north).map fun m =>
          { m with score := firstScore supported (getMoves supported [] [] .south) m }) ∧
    ∀ m ∈ getMoves supported [] [] .north,
      ((Deducted supported [] [] .north 3 6 m ↔
        ∃ n ∈ tryMove m.newBoard m.newCaptN m.newCaptS .south, n.nX = m.nX ∧ n.nY = m.nY) ↔
      (m.capture = 0 ∨ ∀ q ∈ supported, q.side = .south →
        ¬ Steps .south q.type (m.nX - q.x) (m.nY - q.y))) :=
  deducted_iff_recapture supported [] [] .north supported_wellFormed
    (by decide) 3 6 (by decide)

/-- The kodama takes a kodama that a kirin supports: it can be taken back, and
its score has no deduction. -/
theorem supported_undeducted :
    WellFormed supported ∧ OneKoropokkuru supported .north ∧ OneKoropokkuru supported .south ∧
      ∃ m ∈ getMoves supported [] [] .north, m.type = .kodama ∧ m.capture = 1 ∧
        (∃ n ∈ tryMove m.newBoard m.newCaptN m.newCaptS .south, n.nX = m.nX ∧ n.nY = m.nY) ∧
        ¬ Deducted supported [] [] .north 3 6 m := by
  refine ⟨supported_wellFormed, by decide, by decide, ?_⟩
  simp only [Deducted]
  decide

end YokaiNoMori.Threat
