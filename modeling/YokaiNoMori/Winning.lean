import YokaiNoMori.Threat

namespace YokaiNoMori.Winning

open Search Board TryMove GenerateMove MoveRules MoveGeneration Score Threat

def Lands (kX kY : Int) (m : Move) : Prop := m.nX = kX ∧ m.nY = kY

instance (kX kY : Int) (m : Move) : Decidable (Lands kX kY m) :=
  inferInstanceAs (Decidable (m.nX = kX ∧ m.nY = kY))

/-- The first answer is a move that takes the opposing koropokkuru on `(kX, kY)`. -/
def Wins (board captN captS : List Piece) (side : Side) (kX kY : Int) : Prop :=
  ∃ a, first (generateMove board captN captS side) = some (some a) ∧ Lands kX kY a ∧ a.capture = 1

theorem value_le (type : Kind) : value type ≤ 10 := by cases type <;> decide

theorem gain_le (board : List Piece) (side : Side) (m : Move) : gain board side m ≤ 10 := by
  rw [gain]
  split
  · split
    · decide
    · cases board.find? (standsFor (opponent side) m.nX m.nY) with
      | none => decide
      | some taken => exact value_le taken.type
  · decide

section

variable {board captN captS : List Piece} {side : Side} {kX kY : Int} {m : Move}

theorem lands_captures (hb : WellFormed board) (hat : ⟨opponent side, .koropokkuru, kX, kY⟩ ∈ board)
    (hm : m ∈ getMoves board captN captS side) (hl : Lands kX kY m) : m.capture = 1 := by
  obtain ⟨rfl, rfl⟩ := hl
  rcases (getMoves_legal hb hm).flag with ⟨_, ho⟩ | ⟨hc, _⟩
  · exact absurd ⟨_, hat, rfl, rfl, rfl⟩ ho
  · exact hc

/-- Taking the koropokkuru is never threatened, since its own side cannot land there. -/
theorem worth_lands (hb : WellFormed board) (hat : ⟨opponent side, .koropokkuru, kX, kY⟩ ∈ board)
    (hm : m ∈ getMoves board captN captS side) (hl : Lands kX kY m) :
    worth board captN captS side kX kY m = if m.type = .koropokkuru then -5 else 10 := by
  have hcapture := lands_captures hb hat hm hl
  obtain ⟨rfl, rfl⟩ := hl
  have hsafe : ¬ Threatened (getMoves board captN captS (opponent side)) m :=
    not_threatened_occupied hb ⟨_, hat, rfl, rfl, rfl⟩
  have hfind : board.find? (standsFor (opponent side) m.nX m.nY) =
      some ⟨opponent side, .koropokkuru, m.nX, m.nY⟩ := by
    have hstands : standsFor (opponent side) m.nX m.nY ⟨opponent side, .koropokkuru, m.nX, m.nY⟩ = true := by
      simp [standsFor]
    obtain ⟨found, hfound⟩ := Option.isSome_iff_exists.1 (List.find?_isSome.2 ⟨_, hat, hstands⟩)
    have hsquare : found.x = m.nX ∧ found.y = m.nY := by
      have := List.find?_some hfound
      simp only [standsFor, Bool.and_eq_true, stands_iff] at this
      exact this.2
    rw [hfound, eq_of_square hb (List.mem_of_find?_eq_some hfound) hat hsquare.1 hsquare.2]
  simp [worth, distance, gain, hcapture, hsafe, hfind, value]

theorem worth_elsewhere (hl : ¬ Lands kX kY m) : worth board captN captS side kX kY m ≤ 9 := by
  have hd : 1 ≤ distance kX kY m := by
    rw [Lands] at hl
    rw [distance]
    omega
  have hmalus : 0 ≤ malus m.type := by
    rw [malus]
    split <;> decide
  have hgain := gain_le board side m
  rw [worth]
  split <;> omega

theorem wins_iff (hb : WellFormed board) (hk : OneKoropokkuru board (opponent side))
    (hat : ⟨opponent side, .koropokkuru, kX, kY⟩ ∈ board) {ms : List Move}
    (hms : getMoves board captN captS side = m :: ms) :
    Wins board captN captS side kX kY ↔ Lands kX kY (firstMax (worth board captN captS side kX kY) m ms) := by
  have hfirst := generateMove_worth hk hat hms
  have hmem := firstMax_mem (worth board captN captS side kX kY) m ms
  rw [← hms] at hmem
  constructor
  · rintro ⟨a, ha, hl, _⟩
    rw [hfirst, Option.some.injEq, Option.some.injEq] at ha
    rw [← ha] at hl
    exact hl
  · intro hl
    have hcapture := lands_captures hb hat hmem hl
    exact ⟨_, hfirst, hl, hcapture⟩

theorem wins_of_lands (hb : WellFormed board) (hk : OneKoropokkuru board (opponent side))
    (hat : ⟨opponent side, .koropokkuru, kX, kY⟩ ∈ board) (hm : m ∈ getMoves board captN captS side)
    (hl : Lands kX kY m) (htype : m.type ≠ .koropokkuru) : Wins board captN captS side kX kY := by
  obtain ⟨n, ns, hns⟩ := List.exists_cons_of_ne_nil (List.ne_nil_of_mem hm)
  rw [wins_iff hb hk hat hns]
  by_contra hother
  have hle : worth board captN captS side kX kY m ≤
      worth board captN captS side kX kY (firstMax (worth board captN captS side kX kY) n ns) :=
    le_firstMax _ (by rw [← hns]; exact hm)
  have hnine : worth board captN captS side kX kY (firstMax (worth board captN captS side kX kY) n ns) ≤ 9 :=
    worth_elsewhere hother
  rw [worth_lands hb hat hm hl, if_neg htype] at hle
  omega

/-- When only the koropokkuru can take the other one, it does so exactly when
nothing else is worth more than the -5 of that capture. -/
theorem wins_iff_best (hb : WellFormed board) (hk : OneKoropokkuru board (opponent side))
    (hat : ⟨opponent side, .koropokkuru, kX, kY⟩ ∈ board)
    (honly : ∀ n ∈ getMoves board captN captS side, Lands kX kY n → n.type = .koropokkuru)
    {before after : List Move} (heq : getMoves board captN captS side = before ++ m :: after)
    (hl : Lands kX kY m) (hfirst : ∀ n ∈ before, ¬ Lands kX kY n) :
    Wins board captN captS side kX kY ↔
      (∀ n ∈ before, worth board captN captS side kX kY n < -5) ∧
        ∀ n ∈ after, worth board captN captS side kX kY n ≤ -5 := by
  have hin : m ∈ getMoves board captN captS side := by
    rw [heq]
    exact List.mem_append_right _ List.mem_cons_self
  have hfive {n : Move} (hn : n ∈ getMoves board captN captS side) (hln : Lands kX kY n) :
      worth board captN captS side kX kY n = -5 := by
    rw [worth_lands hb hat hn hln, if_pos (honly n hn hln)]
  obtain ⟨n, ns, hns⟩ := List.exists_cons_of_ne_nil (List.ne_nil_of_mem hin)
  rw [wins_iff hb hk hat hns]
  constructor
  · intro hbest
    have hmem := firstMax_mem (worth board captN captS side kX kY) n ns
    rw [← hns] at hmem
    have hworth := hfive hmem hbest
    constructor
    · rw [← hfive hin hl]
      apply lt_of_before (hns.symm.trans heq)
      · rw [hworth, hfive hin hl]
      · exact fun h => hfirst _ h hbest
    · intro a ha
      rw [← hworth]
      apply le_firstMax
      rw [← hns, heq]
      exact List.mem_append_right _ (List.mem_cons_of_mem _ ha)
  · rintro ⟨hbefore, hafter⟩
    have hm : firstMax (worth board captN captS side kX kY) n ns = m := by
      apply firstMax_eq (hns.symm.trans heq)
      · rw [hfive hin hl]
        exact hbefore
      · rw [hfive hin hl]
        exact hafter
    rw [hm]
    exact hl

end

/-- A won position is converted, except that the koropokkuru itself is made
reluctant to take. -/
theorem generateMove_wins (board captN captS : List Piece) (side : Side) (hb : WellFormed board)
    (hk : OneKoropokkuru board (opponent side)) (kX kY : Int)
    (hat : ⟨opponent side, .koropokkuru, kX, kY⟩ ∈ board) :
    ((∃ m ∈ getMoves board captN captS side, Lands kX kY m ∧ m.type ≠ .koropokkuru) →
      Wins board captN captS side kX kY) ∧
    ∀ before m after, getMoves board captN captS side = before ++ m :: after → Lands kX kY m →
      (∀ n ∈ before, ¬ Lands kX kY n) →
      (∀ n ∈ getMoves board captN captS side, Lands kX kY n → n.type = .koropokkuru) →
      (Wins board captN captS side kX kY ↔
        (∀ n ∈ before, worth board captN captS side kX kY n < -5) ∧
          ∀ n ∈ after, worth board captN captS side kX kY n ≤ -5) := by
  constructor
  · rintro ⟨m, hm, hl, htype⟩
    exact wins_of_lands hb hk hat hm hl htype
  · intro before m after heq hl hfirst honly
    exact wins_iff_best hb hk hat honly heq hl hfirst

def facing : List Piece := [⟨.north, .koropokkuru, 3, 3⟩, ⟨.south, .koropokkuru, 3, 4⟩]

theorem facing_wellFormed : WellFormed facing := by
  constructor
  · simp [facing, Piece.OnBoard]
  · simp [facing, Apart]

def escorted : List Piece :=
  [⟨.north, .koropokkuru, 4, 3⟩, ⟨.north, .kodama, 3, 3⟩, ⟨.south, .koropokkuru, 3, 4⟩]

theorem escorted_wellFormed : WellFormed escorted := by
  constructor
  · simp [escorted, Piece.OnBoard]
  · simp [escorted, Apart]

def cornered : List Piece := [⟨.north, .koropokkuru, 1, 1⟩, ⟨.south, .koropokkuru, 1, 2⟩]

theorem cornered_wellFormed : WellFormed cornered := by
  constructor
  · simp [cornered, Piece.OnBoard]
  · simp [cornered, Apart]

/-- The kodama takes, the koropokkuru takes when it must, and else it does not. -/
theorem generateMove_wins_koropokkuru :
    Wins escorted [] [] .north 3 4 ∧ Wins cornered [] [] .north 1 2 ∧ ¬ Wins facing [] [] .north 3 4 := by
  refine ⟨?_, ?_, ?_⟩
  · exact (generateMove_wins escorted [] [] .north escorted_wellFormed (by decide) 3 4 (by decide)).1 (by decide)
  · have heq : getMoves cornered [] [] .north = [] ++ (getMoves cornered [] [] .north).head (by decide) :: _ :=
      (List.cons_head_tail _).symm
    have hiff := (generateMove_wins cornered [] [] .north cornered_wellFormed (by decide) 1 2 (by decide)).2
      _ _ _ heq (by decide) (by decide) (by decide)
    exact hiff.2 (by decide)
  · have heq : getMoves facing [] [] .north = [] ++ (getMoves facing [] [] .north).head (by decide) :: _ :=
      (List.cons_head_tail _).symm
    have hiff := (generateMove_wins facing [] [] .north facing_wellFormed (by decide) 3 4 (by decide)).2
      _ _ _ heq (by decide) (by decide) (by decide)
    rw [hiff]
    decide

/-- Each koropokkuru could take the other, and the one to move steps back. -/
theorem facing_declined :
    WellFormed facing ∧ OneKoropokkuru facing .north ∧ OneKoropokkuru facing .south ∧
      (∃ m ∈ getMoves facing [] [] .north, Lands 3 4 m) ∧ ¬ Wins facing [] [] .north 3 4 := by
  refine ⟨facing_wellFormed, by decide, by decide, by decide, ?_⟩
  rintro ⟨a, ha, hl, _⟩
  have hfirst : (first (generateMove facing [] [] .north)).map (Option.map fun a => (a.nX, a.nY)) =
      some (some (3, 2)) := by decide
  rw [ha] at hfirst
  simp only [Option.map_some, Option.some.injEq, Prod.mk.injEq] at hfirst
  rw [Lands] at hl
  omega

end YokaiNoMori.Winning
