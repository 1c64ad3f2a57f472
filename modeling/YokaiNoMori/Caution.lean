import YokaiNoMori.SessionRefinement
import YokaiNoMori.Winning

namespace YokaiNoMori.Caution

open Search Board TryMove ForceMove JavaCoup PrologSession Runs Game Embodiment SessionRefinement
open AiPlayer (generateMove_has_moves)
open MoveRules (Steps Occupies ne_opponent)
open MoveGeneration (getMoves_legal legal_getMoves)
open Score (OneKoropokkuru Threatened worth distance value gain malus generateMove_worth)
open Threat (Reached threatened_iff)
open SessionInvariant (SoundSession)

/-! Where a session puts its koropokkuru. -/

/-- The koropokkuru goes to a free square, where the opponent can take it next. -/
structure Exposes (g : Position) (side : Side) (k : Kind) (src dst : Square) : Prop where
  king : k = .koropokkuru
  free : g.occupant dst = none
  taken : ∃ t start, Legal (g.advance demoted side (grown side k dst.2) src dst) (opponent side) t start dst

def Attacked (g : Position) (side : Side) (dst : Square) : Prop :=
  ∃ t start, g.occupant start = some (side, t) ∧ Steps side t (dst.1 - start.1) (dst.2 - start.2)

/-- A quiet move leaves the opposing men where they are. -/
theorem occupant_quiet {g : Position} {side : Side} {k k' t : Kind} {src dst q : Square}
    (hmover : g.occupant src = some (side, k)) (hfree : g.occupant dst = none) :
    (g.advance demoted side k' src dst).occupant q = some (opponent side, t) ↔
      g.occupant q = some (opponent side, t) := by
  have hother {u : Kind} : (some (side, u) : Option (Side × Kind)) ≠ some (opponent side, t) := by
    intro h
    exact ne_opponent side (Prod.mk.inj (Option.some.inj h)).1
  by_cases hdst : q = dst
  · subst hdst
    have hmoved : (g.advance demoted side k' src q).occupant q = some (side, k') := Function.update_self ..
    rw [hmoved, hfree]
    exact iff_of_false hother (Option.some_ne_none _).symm
  · have hleft : (g.advance demoted side k' src dst).occupant q = Function.update g.occupant src none q :=
      Function.update_of_ne hdst ..
    rw [hleft]
    by_cases hsrc : q = src
    · subst hsrc
      rw [Function.update_self, hmover]
      exact iff_of_false (Option.some_ne_none _).symm hother
    · rw [Function.update_of_ne hsrc]

/-- So it hides no attack on the square it goes to, and opens none. -/
theorem taken_iff {g : Position} {side : Side} {k k' : Kind} {src dst : Square}
    (hmover : g.occupant src = some (side, k)) (hin : Inside dst) (hfree : g.occupant dst = none) :
    (∃ t start, Legal (g.advance demoted side k' src dst) (opponent side) t start dst) ↔
      Attacked g (opponent side) dst := by
  constructor
  · rintro ⟨t, start, h⟩
    exact ⟨t, start, (occupant_quiet hmover hfree).1 h.displaces.mover, h.steps⟩
  · rintro ⟨t, start, hstart, hsteps⟩
    have hnamed : unifies (some t) t = true := by simp [unifies]
    refine ⟨t, start, ⟨(occupant_quiet hmover hfree).2 hstart, hnamed, hin, fun u hu => ?_⟩, hsteps⟩
    cases hfree.symm.trans ((occupant_quiet hmover hfree).1 hu)

section

variable {board captN captS : List Piece} {side : Side} {kX kY : Int} {m : Move}

theorem attacked_iff (captN captS : List Piece) (hb : WellFormed board) {x y : Int} :
    Attacked (placement board captN captS) side (x, y) ↔ Reached board side x y := by
  constructor
  · rintro ⟨t, start, hstart, hsteps⟩
    exact ⟨_, (occupant_iff hb).1 hstart, rfl, hsteps⟩
  · rintro ⟨q, hq, rfl, hsteps⟩
    exact ⟨q.type, (q.x, q.y), (occupant_iff hb).2 hq, hsteps⟩

theorem quiet_iff (hb : WellFormed board) (hm : m ∈ getMoves board captN captS side) :
    (placement board captN captS).occupant (m.nX, m.nY) = none ↔ m.capture = 0 := by
  have hl := getMoves_legal hb hm
  rcases hl.flag with ⟨hc, ho⟩ | ⟨hc, ho⟩
  · refine iff_of_true ?_ hc
    have hempty := (MoveRules.isEmpty_iff_free side hl.inside).2 ⟨hl.free, ho⟩
    exact occupant_none.2 (Board.isEmpty_iff.1 hempty).2.2
  · refine iff_of_false ?_ (by omega)
    obtain ⟨t, ht⟩ := (occupies_iff hb).1 ho
    rw [ht]
    simp

/-- What costs an entry the most. -/
def Risks (board captN captS : List Piece) (side : Side) (m : Move) : Prop :=
  m.type = .koropokkuru ∧ Threatened (getMoves board captN captS (opponent side)) m

theorem exposes_iff (hb : WellFormed board) (hm : m ∈ getMoves board captN captS side) :
    Exposes (placement board captN captS) side m.type (m.x, m.y) (m.nX, m.nY) ↔ Risks board captN captS side m := by
  have hl := getMoves_legal hb hm
  have hmover : (placement board captN captS).occupant (m.x, m.y) = some (side, m.type) := (occupant_iff hb).2 hl.stands
  have hin : Inside (m.nX, m.nY) := hl.inside
  rw [Risks, threatened_iff hb hm, ← quiet_iff hb hm, ← attacked_iff captN captS hb]
  constructor
  · rintro ⟨hking, hfree, htaken⟩
    exact ⟨hking, hfree, (taken_iff hmover hin hfree).1 htaken⟩
  · rintro ⟨hking, hfree, hattacked⟩
    exact ⟨hking, hfree, (taken_iff hmover hin hfree).2 hattacked⟩

theorem le_value (type : Kind) : -5 ≤ value type := by cases type <;> decide

theorem le_gain (board : List Piece) (side : Side) (m : Move) : -5 ≤ gain board side m := by
  rw [gain]
  split
  · split
    · decide
    · cases board.find? (GenerateMove.standsFor (opponent side) m.nX m.nY) with
      | none => decide
      | some taken => exact le_value taken.type
  · decide

theorem worth_risks (kX kY : Int) (h : Risks board captN captS side m) :
    worth board captN captS side kX kY m ≤ -990 := by
  have hgain := Winning.gain_le board side m
  have hdistance : 0 ≤ distance kX kY m := by
    rw [distance]
    omega
  rw [worth, if_pos h.2, malus, if_pos h.1]
  omega

theorem le_worth (hb : WellFormed board) (hat : ⟨opponent side, .koropokkuru, kX, kY⟩ ∈ board)
    (hm : m ∈ getMoves board captN captS side) (h : ¬Risks board captN captS side m) :
    -16 ≤ worth board captN captS side kX kY m := by
  have hgain := le_gain board side m
  have hdistance : distance kX kY m ≤ 9 := by
    have hking := hb.inside _ hat
    have hin := (getMoves_legal hb hm).inside
    rw [distance]
    simp only [Piece.OnBoard] at hking
    omega
  rw [worth]
  by_cases ht : Threatened (getMoves board captN captS (opponent side)) m
  · rw [if_pos ht, malus, if_neg fun hk => h ⟨hk, ht⟩]
    omega
  · rw [if_neg ht]
    omega

/-- The deduction for the koropokkuru outweighs the rest of the score. -/
theorem best_risks (hb : WellFormed board) (hat : ⟨opponent side, .koropokkuru, kX, kY⟩ ∈ board) {ms : List Move}
    (hms : getMoves board captN captS side = m :: ms)
    (h : Risks board captN captS side (firstMax (worth board captN captS side kX kY) m ms)) :
    ∀ n ∈ getMoves board captN captS side, Risks board captN captS side n := by
  intro n hn
  by_contra hrisks
  have hbest : worth board captN captS side kX kY n ≤ worth board captN captS side kX kY (firstMax _ m ms) :=
    le_firstMax _ (by rw [← hms]; exact hn)
  have hlow := worth_risks kX kY h
  have hhigh := le_worth hb hat hn hrisks
  omega

end

theorem countP_koropokkuru (side : Side) (board : List Piece) :
    board.countP (hasType side .koropokkuru) + board.countP (hasType (opponent side) .koropokkuru) =
      board.countP fun p => p.type = .koropokkuru := by
  induction board with
  | nil => rfl
  | cons p ps ih =>
      have hhead : (if hasType side .koropokkuru p = true then 1 else 0) +
          (if hasType (opponent side) .koropokkuru p = true then 1 else 0) =
            if decide (p.type = .koropokkuru) = true then 1 else 0 := by
        rcases p with ⟨s, type, x, y⟩
        cases side <;> cases s <;> cases type <;> rfl
      rw [List.countP_cons, List.countP_cons, List.countP_cons, ← ih, ← hhead]
      omega

variable {s s' r : Session} {coup : Coup}

/-- Two koropokkuru in all leave at most one for each side, once each has one. -/
theorem one_each (hs : SoundSession s) {side : Side}
    (hown : ∃ p ∈ s.currentBoard, hasType side .koropokkuru p = true)
    (hother : ∃ p ∈ s.currentBoard, hasType (opponent side) .koropokkuru p = true) :
    OneKoropokkuru s.currentBoard (opponent side) := by
  have hall : s.pieces.countP (fun p => p.type = .koropokkuru) = 2 :=
    SessionInvariant.count_of_conserved hs.conserved (· = .koropokkuru) (· = .koropokkuru)
      (by intro type; cases type <;> decide)
  have hboard : s.currentBoard.countP (fun p => p.type = .koropokkuru) ≤ 2 := by
    rw [← hall, Session.pieces, List.append_assoc, List.countP_append]
    exact Nat.le_add_right _ _
  rw [← countP_koropokkuru side] at hboard
  have hmine := List.countP_pos_iff.2 hown
  have htheirs := List.countP_pos_iff.2 hother
  rw [OneKoropokkuru]
  omega

theorem named_of_action {k : Kind} {src dst : Square} (h : actionOf coup = some (.displace (some k) src dst)) :
    coup.piece ≠ .aucun := by
  intro hpiece
  rcases coup with ⟨typeCoup, piece, fin, depl | depo⟩
  · obtain rfl : piece = .aucun := hpiece
    cases h
  · obtain rfl : piece = .aucun := hpiece
    cases h

/-- The entries of the list are the legal moves of the game. -/
theorem legal_iff_listed {board captN captS : List Piece} {side : Side} (hb : WellFormed board) {k : Kind}
    {src dst : Square} :
    Legal (placement board captN captS) side k src dst ↔
      ∃ m ∈ getMoves board captN captS side, m.type = k ∧ (m.x, m.y) = src ∧ (m.nX, m.nY) = dst := by
  constructor
  · intro h
    have hfree : ¬Occupies side dst.1 dst.2 board := by
      intro hown
      obtain ⟨t, ht⟩ := (occupies_iff hb).1 hown
      exact h.displaces.free t ht
    have hflag : ∃ capture : Int, capture = 0 ∧ ¬Occupies (opponent side) dst.1 dst.2 board ∨
        capture = 1 ∧ Occupies (opponent side) dst.1 dst.2 board := by
      by_cases ho : Occupies (opponent side) dst.1 dst.2 board
      · exact ⟨1, .inr ⟨rfl, ho⟩⟩
      · exact ⟨0, .inl ⟨rfl, ho⟩⟩
    obtain ⟨capture, hflag⟩ := hflag
    have hstands := (occupant_iff hb).1 h.displaces.mover
    obtain ⟨m, hm, ⟨htype, hx, hy, hnX, hnY, _⟩, _⟩ :=
      legal_getMoves captN captS ⟨hstands, h.displaces.inside, h.steps, hfree, hflag⟩
    exact ⟨m, hm, htype, Prod.ext hx hy, Prod.ext hnX hnY⟩
  · rintro ⟨m, hm, rfl, rfl, rfl⟩
    have hl := getMoves_legal hb hm
    have hnamed : unifies (some m.type) m.type = true := by simp [unifies]
    refine ⟨⟨(occupant_iff hb).2 hl.stands, hnamed, hl.inside, fun t ht => ?_⟩, hl.steps⟩
    exact hl.free ((occupies_iff hb).2 ⟨t, ht⟩)

theorem generate_best (hs : SoundSession s) (hcall : generateMove s = some (coup, s')) {kX kY : Int}
    (hone : OneKoropokkuru s.currentBoard (opponent s.side))
    (hat : ⟨opponent s.side, .koropokkuru, kX, kY⟩ ∈ s.currentBoard) :
    ∃ m ms best, getMoves s.currentBoard s.currentCaptN s.currentCaptS s.side = m :: ms ∧
      firstMax (worth s.currentBoard s.currentCaptN s.currentCaptS s.side kX kY) m ms = best ∧
      best ∈ getMoves s.currentBoard s.currentCaptN s.currentCaptS s.side ∧
      actionOf coup = some (.displace (some best.type) (best.x, best.y) (best.nX, best.nY)) := by
  obtain ⟨m, ms, hms⟩ := List.exists_cons_of_ne_nil (generateMove_has_moves hcall)
  have hms : getMoves s.currentBoard s.currentCaptN s.currentCaptS s.side = m :: ms := hms
  have hfirst := generateMove_worth hone hat hms
  have hbest := firstMax_mem (worth s.currentBoard s.currentCaptN s.currentCaptS s.side kX kY) m ms
  rw [← hms] at hbest
  have hl := getMoves_legal hs.wellFormed hbest
  simp only [generateMove, hfirst] at hcall
  obtain ⟨rfl, _⟩ := Prod.mk.inj (Option.some.inj hcall)
  exact ⟨m, ms, _, hms, rfl, hbest, actionOf_coupOf _ _ (hs.wellFormed.inside _ hl.stands)
    ⟨hl.inside.1.1, hl.inside.1.2, hl.inside.2⟩⟩

theorem other_koropokkuru (hcall : generateMove s = some (coup, s')) (hpiece : coup.piece ≠ .aucun) :
    ∃ p ∈ s.currentBoard, hasType (opponent s.side) .koropokkuru p = true := by
  rw [← s.opposed]
  by_contra hnone
  have hidle := generateMove_idle (s := s) (by simpa using hnone) (generateMove_has_moves hcall)
  rw [hidle] at hcall
  obtain ⟨rfl, _⟩ := Prod.mk.inj (Option.some.inj hcall)
  exact hpiece rfl

/-- The koropokkuru is put where it can be taken only when it has to be. -/
theorem generate_cautious (hs : SoundSession s) (hcall : generateMove s = some (coup, s')) {k : Kind} {src dst : Square}
    (haction : actionOf coup = some (.displace (some k) src dst)) :
    Exposes (positionOf s) s.side k src dst ↔
      ∀ k src dst, Legal (positionOf s) s.side k src dst → Exposes (positionOf s) s.side k src dst := by
  have hb := hs.wellFormed
  have hpiece := named_of_action haction
  obtain ⟨_, hlawful, _⟩ := generate_refines hs hcall
  obtain ⟨_, _, _, hsame, hlegal⟩ := hlawful hpiece
  cases haction.symm.trans hsame
  constructor
  · intro hexposes
    have hown : ∃ p ∈ s.currentBoard, hasType s.side .koropokkuru p = true := by
      have hmover := (occupant_iff hb).1 hlegal.displaces.mover
      rw [hexposes.king] at hmover
      exact ⟨_, hmover, hasType_iff.2 ⟨rfl, rfl⟩⟩
    have hother := other_koropokkuru hcall hpiece
    have hone := one_each hs hown hother
    obtain ⟨⟨_, _, kX, kY⟩, hat, hking⟩ := hother
    obtain ⟨rfl, rfl⟩ := hasType_iff.1 hking
    obtain ⟨m, ms, best, hms, rfl, hbest, hchosen⟩ := generate_best hs hcall hone hat
    cases haction.symm.trans hchosen
    have hall := best_risks hb hat hms ((exposes_iff hb hbest).1 hexposes)
    intro k src dst h
    obtain ⟨n, hn, rfl, rfl, rfl⟩ := (legal_iff_listed hb).1 h
    exact (exposes_iff hb hn).2 (hall n hn)
  · intro hall
    exact hall k src dst hlegal

/-- In every run of a session its koropokkuru goes to a free square where it can
be taken only when every legal move does the same. -/
theorem session_cautious (side : Side) {tr : List Call} (hrun : Run CallStep (init side) tr s) (front back : List Call)
    (htr : tr = front ++ .generate coup :: back) {k : Kind} {src dst : Square}
    (haction : actionOf coup = some (.displace (some k) src dst)) :
    Exposes (front.foldl (played side) opening) side k src dst ↔
      ∀ k src dst, Legal (front.foldl (played side) opening) side k src dst →
        Exposes (front.foldl (played side) opening) side k src dst := by
  subst htr
  obtain ⟨r, hfront, hrest⟩ := hrun.split
  obtain ⟨r', hstep, _⟩ := hrest.uncons
  have hplays := plays_run hfront
  cases hstep with
  | generate _ _ hcall =>
      have h := generate_cautious hplays.sound hcall haction
      rw [hplays.position, hplays.own] at h
      exact h

section Raid

/-- An oni takes five of north's men and ends beside the koropokkuru. -/
def raid : List Coup :=
  [coupOf .oni 1 6 2 3 1, coupOf .oni 2 3 3 3 1, coupOf .oni 3 3 4 3 1, coupOf .oni 4 3 4 1 1,
    coupOf .superOni 4 1 2 1 1]

def raided : Session := (raid.foldlM forceEnnemyStrike (init .north)).getD (init .north)

theorem forced_run {s s' : Session} {coups : List Coup} (hnamed : ∀ coup ∈ coups, Named coup)
    (h : coups.foldlM forceEnnemyStrike s = some s') : Run CallStep s (coups.map .force) s' := by
  induction coups generalizing s with
  | nil =>
      obtain rfl := Option.some.inj h
      exact .nil
  | cons coup coups ih =>
      rw [List.foldlM_cons, Option.bind_eq_bind, Option.bind_eq_some_iff] at h
      obtain ⟨t, hcall, hrest⟩ := h
      obtain ⟨hfirst, hlast⟩ := List.forall_mem_cons.1 hnamed
      exact (Run.single (.force s t coup hfirst hcall)).append (ih hlast hrest)

theorem raided_run : Run CallStep (init .north) (raid.map .force) raided :=
  forced_run (by simp [raid, Named, coupOf]) (by decide +kernel)

theorem raided_generates : ∃ s', CallStep raided (.generate (coupOf .koropokkuru 3 1 3 2 0)) s' := by
  have h : (generateMove raided).map Prod.fst = some (coupOf .koropokkuru 3 1 3 2 0) := by decide +kernel
  obtain ⟨⟨_, s'⟩, hcall, rfl⟩ := Option.map_eq_some_iff.1 h
  exact ⟨s', .generate _ _ _ hcall⟩

/-- Beside the oni the koropokkuru could be taken, and it goes elsewhere. -/
theorem session_cautious_raided :
    (Legal ((raid.map .force).foldl (played .north) opening) .north .koropokkuru (3, 1) (2, 2) ∧
      Exposes ((raid.map .force).foldl (played .north) opening) .north .koropokkuru (3, 1) (2, 2)) ∧
    ¬Exposes ((raid.map .force).foldl (played .north) opening) .north .koropokkuru (3, 1) (3, 2) := by
  have hplays := plays_run raided_run
  have hb := hplays.sound.wellFormed
  obtain ⟨s', hgenerates⟩ := raided_generates
  have haction : actionOf (coupOf .koropokkuru 3 1 3 2 0) = some (.displace (some .koropokkuru) (3, 1) (3, 2)) :=
    actionOf_coupOf .koropokkuru 0 (by decide) (by decide)
  have hcautious := session_cautious .north (raided_run.snoc hgenerates) (raid.map .force) [] rfl haction
  rw [← hplays.position, positionOf] at hcautious ⊢
  have hbeside : ∃ m ∈ raided.moves, m.type = .koropokkuru ∧ (m.x, m.y) = (3, 1) ∧ (m.nX, m.nY) = (2, 2) ∧
      Threatened (getMoves raided.currentBoard raided.currentCaptN raided.currentCaptS .south) m := by
    decide +kernel
  have honi : ∃ m ∈ raided.moves, m.type = .oni ∧ (m.x, m.y) = (1, 1) ∧ (m.nX, m.nY) = (1, 2) := by
    decide +kernel
  refine ⟨?_, fun hexposes => ?_⟩
  · obtain ⟨m, hm, htype, hsrc, hdst, ht⟩ := hbeside
    have hexposes := (exposes_iff hb hm).2 ⟨htype, ht⟩
    rw [htype, hsrc, hdst] at hexposes
    exact ⟨(legal_iff_listed hb).2 ⟨m, hm, htype, hsrc, hdst⟩, hexposes⟩
  · have hking := (hcautious.1 hexposes .oni (1, 1) (1, 2) ((legal_iff_listed hb).2 honi)).king
    cases hking

end Raid

end YokaiNoMori.Caution
