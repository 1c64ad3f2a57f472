import YokaiNoMori.Progress
import YokaiNoMori.SessionRefinement

namespace YokaiNoMori.MatchRefinement

open Search Board TryMove ForceMove JavaCoup PrologSession Runs Game Embodiment SessionRefinement
open AiPlayer (generateMove_has_moves)
open Delivery Orientations Lines FirstGame Progress
open SessionInvariant (SoundSession)

/-! The first game is a game by the rules. -/

def Crowned (side : Side) (r : Session) : Prop := ∃ p ∈ r.currentBoard, hasType side .koropokkuru p = true

theorem crowned_moved {side s : Side} {type : Kind} {x y nX nY : Int} {board captN captS : List Piece}
    {new : List Piece × List Piece × List Piece} (hmoved : Moved s type x y nX nY board captN captS new)
    (h : ∃ p ∈ new.1, hasType side .koropokkuru p = true) : ∃ p ∈ board, hasType side .koropokkuru p = true := by
  have hcrown {tempBoard rest : List Piece} {newType : Kind} (hmover : board.Perm (⟨s, type, x, y⟩ :: tempBoard))
      (hsub : ∀ p ∈ rest, p ∈ tempBoard) (htype : demoted newType = demoted type)
      (h : ∃ p ∈ (⟨s, newType, nX, nY⟩ :: rest : List Piece), hasType side .koropokkuru p = true) :
      ∃ p ∈ board, hasType side .koropokkuru p = true := by
    obtain ⟨p, hp, hking⟩ := h
    rcases List.mem_cons.1 hp with rfl | hp
    · obtain ⟨hside, hnew⟩ := hasType_iff.1 hking
      have hking' : type = .koropokkuru := by
        rw [show newType = .koropokkuru from hnew] at htype
        cases type <;> first | rfl | cases htype
      exact ⟨_, hmover.mem_iff.2 List.mem_cons_self, hasType_iff.2 ⟨hside, hking'⟩⟩
    · exact ⟨p, hmover.mem_iff.2 (List.mem_cons_of_mem _ (hsub p hp)), hking⟩
  cases hmoved with
  | quiet hmover htype _ => exact hcrown hmover (fun _ hp => hp) htype h
  | taking hmover htype htaken _ _ _ =>
      exact hcrown hmover (fun _ hp => htaken.mem_iff.2 (List.mem_cons_of_mem _ hp)) htype h

/-- No AI brings a koropokkuru back. -/
theorem crowned_generate {side : Side} {r r' : Session} {coup : Coup} (hs : SoundSession r)
    (hgen : generateMove r = some (coup, r')) (h : Crowned side r') : Crowned side r := by
  have hmoves := generateMove_has_moves hgen
  by_cases hk : ∃ p ∈ r.currentBoard, hasType r.opposide .koropokkuru p = true
  · obtain ⟨type, x, y, nX, nY, capture, new, hfound, hcall⟩ := generateMove_found hs.wellFormed hk hmoves
    rw [hcall] at hgen
    obtain ⟨_, rfl⟩ := Prod.mk.inj (Option.some.inj hgen)
    exact crowned_moved (forceMove_head hfound.head) h
  · have hidle := generateMove_idle (s := r) (by simpa using hk) hmoves
    rw [hidle] at hgen
    obtain ⟨_, rfl⟩ := Prod.mk.inj (Option.some.inj hgen)
    exact h

theorem line_returns (n : Nat) : line (26 + 4 * n) = some shuffle := by
  induction n with
  | zero => exact line_shuffle
  | succ n ih => rw [← ih, ← line_repeats (n := 26 + 4 * n) (by omega), Nat.mul_succ, Nat.add_assoc]

theorem crowned_back {side : Side} {m n : Nat} {r r' : Session} (hline : line n = some r) (hle : n ≤ m)
    (hline' : line m = some r') (h : Crowned side r') : Crowned side r := by
  induction m, hle using Nat.le_induction generalizing r' with
  | base =>
      obtain rfl := Option.some.inj (hline.symm.trans hline')
      exact h
  | succ m _ ih =>
      obtain ⟨r'', coup, answer, hbefore, hgen, rfl, _⟩ := line_succ hline'
      exact ih hbefore (crowned_generate (line_sound hbefore) hgen h)

/-- Both koropokkuru are still there when the line comes back to the shuffle. -/
theorem line_crowned (side : Side) {n : Nat} {r : Session} (hline : line n = some r) : Crowned side r := by
  have hshuffle : Crowned side shuffle := by
    rw [Crowned]
    cases side <;> decide
  exact crowned_back hline (by omega) (line_returns n) hshuffle

theorem sideOf_mover (n : Nat) : AiPlayer.sideOf (sensOf (mover n)) = sideToMove n := by
  induction n with
  | zero => rfl
  | succ n ih =>
      rw [sideToMove, ← ih, mover]
      cases mover n <;> rfl

theorem line_turns {n : Nat} {r r' : Session} (hline : line n = some r) (hline' : line (n + 1) = some r') :
    Turns (sideToMove n) (positionOf r) (positionOf r') := by
  obtain ⟨_, coup, answer, hbefore, hgen, rfl, _⟩ := line_succ hline'
  obtain rfl := Option.some.inj (hline.symm.trans hbefore)
  obtain ⟨hposition, hlawful, _⟩ := generate_refines (line_sound hline) hgen
  have hpiece : coup.piece ≠ .aucun := by
    obtain ⟨type, x, y, nX, nY, capture, new, _, hcall⟩ := generateMove_found (line_sound hline).wellFormed
      (line_crowned r.opposide hline) (generateMove_has_moves hgen)
    rw [hcall] at hgen
    obtain ⟨rfl, _⟩ := Prod.mk.inj (Option.some.inj hgen)
    intro hnone
    cases type <;> cases hnone
  obtain ⟨k, src, dst, haction, hlegal⟩ := hlawful hpiece
  rw [← sideOf_mover, ← line_side hline]
  refine ⟨k, src, dst, hlegal, ?_⟩
  rw [play, haction, Option.elim_some, exec_displace hlegal.displaces] at hposition
  exact hposition

/-- There is one game by the rules of the game, without end, that all first games
of two AIs follow: after so many moves made and obeyed an AI holds the position
that the game has come to. -/
theorem match_refines_game : ∃ g : Nat → Position, g 0 = opening ∧ (∀ n, Turns (sideToMove n) (g n) (g (n + 1))) ∧
    ∀ s tr t, FullMatch.Initial s → Run FullMatch.Step s tr t → (∀ e ∈ tr, Open e) →
      ∀ p, (t.ai p).main.pc ≠ .readSens →
        positionOf (t.ai p).prolog = g ((tr.flatMap (generated p)).length + (tr.flatMap (forced p)).length) := by
  have hline (n : Nat) : ∃ r, line n = some r := line_total n
  choose at_ hat using hline
  refine ⟨fun n => positionOf (at_ n), ?_, fun n => line_turns (hat n) (hat (n + 1)), ?_⟩
  · obtain h := Option.some.inj (hat 0)
    change positionOf (at_ 0) = opening
    rw [← h]
    rfl
  · intro s tr t hinit hrun hopen p hpc
    obtain ⟨m, hfollows⟩ := joint hinit (open_run hinit hrun hopen).1 p
    have hown : tr.flatMap (generatedStrikes p) = _ := strikes_of (generated p) tr
    have hheard : tr.flatMap (forcedStrikes p) = _ := strikes_of (forced p) tr
    rw [hown, hheard] at hfollows
    obtain ⟨r, hline, hsame, _⟩ := follows_oriented hfollows hpc
    rw [follows_counts hfollows]
    obtain rfl := Option.some.inj (hline.symm.trans (hat m))
    rw [SessionAgreement.position, SessionAgreement.position, Prod.mk.injEq, Prod.mk.injEq] at hsame
    obtain ⟨hboard, hcaptN, hcaptS⟩ := hsame
    simp only [positionOf, hboard, hcaptN, hcaptS]

/-- North has moved, and the AI of the second player has obeyed. -/
theorem match_refines_game_opening : ∃ (after : Position) (tr : List FullMatch.Label) (t : FullMatch.State),
    Turns .north opening after ∧ Run FullMatch.Step kickoff tr t ∧
      tr.flatMap (forced .p2) = [SessionAgreement.openingCoup] ∧ positionOf (t.ai .p2).prolog = after := by
  obtain ⟨g, hstart, hturns, hgame⟩ := match_refines_game
  obtain ⟨tr, t, hrun, hopen, hpc, _, _, hnone, hforced⟩ := opening_run
  have hposition := hgame kickoff tr t kickoff_initial hrun hopen .p2 (by rw [hpc]; simp)
  rw [hnone, hforced] at hposition
  have hfirst := hturns 0
  rw [hstart] at hfirst
  exact ⟨g 1, tr, t, hfirst, hrun, hforced, hposition⟩

end YokaiNoMori.MatchRefinement
