import YokaiNoMori.FirstGame
import YokaiNoMori.SessionRefinement

namespace YokaiNoMori.WholeMatch

open Runs FullMatch Strikes Channels Carriers Delivery JavaCoup PrologSession
open Serveur (Player)
open SessionInvariant (SoundSession initial_sound generateMove_sound put_sound)

/-! Both games, whatever the referee decides and whatever is read between them. -/

/-- Also when the move does not name its piece. -/
theorem strike_sound {r r' : Session} {coup : Coup} (hs : SoundSession r) (hcall : forceEnnemyStrike r coup = some r') :
    SoundSession r' := by
  rw [forceEnnemyStrike_eq, Option.map_eq_some_iff] at hcall
  obtain ⟨answers, hanswers, rfl⟩ := hcall
  rcases strikeAnswers_cases hanswers with ⟨depl, rfl⟩ | ⟨depo, rfl⟩
  · exact (SessionRefinement.displace_refines hs coup.piece depl).2
  · rw [List.head?_map]
    cases hfirst : (putQuery r coup.piece depo).head? with
    | none => exact hs
    | some new => exact put_sound hs (List.mem_of_head? hfirst)

def Sound (a : AiPlayer.State) : Prop := a.main.pc ≠ .readSens → SoundSession a.prolog

theorem ai_sound {a b : AiPlayer.State} {e : AiPlayer.Event} {bytes rest out : List UInt8} (h : Sound a)
    (hstep : AiPlayer.Step a bytes e b rest out) : Sound b := by
  intro _
  cases hstep with
  | readBoolean | skip => exact initial_sound
  | generate coup main prolog rest hmain hcall =>
      cases hmain with
      | sendToNetwork b _ hpc =>
          exact generateMove_sound (h (by simp [hpc])) (AiPlayer.generateMove_has_moves hcall) hcall
  | force coup main prolog rest hmain hcall =>
      cases hmain with
      | readFromNetwork b _ _ _ hpc => exact strike_sound (h (by simp [hpc])) hcall
  | finPartie main rest hmain =>
      cases hmain with
      | readFromNetwork b _ _ _ hpc => exact h (by simp [hpc])

variable {s t u : FullMatch.State} {tr : List Label} {e : Label}

theorem sound_step {p : Player} (h : Sound (t.ai p)) (hstep : FullMatch.Step t e u) : Sound (u.ai p) := by
  rcases seat_steps p hstep with ⟨_, hsame⟩ | ⟨d, _, hseat⟩
  · have hai : u.ai p = t.ai p := congrArg Seat.State.ai hsame
    rw [hai]
    exact h
  · cases d with
    | client e =>
        have hai : u.ai p = t.ai p := Seat.client_keeps hseat
        rw [hai]
        exact h
    | ai e =>
        obtain ⟨_, _, _, hai⟩ := Seat.ai_acts hseat
        exact ai_sound h hai

/-- No AI ever loses a piece, has one twice or has two on a square. -/
theorem sessions_sound (hinit : FullMatch.Initial s) (hrun : Run FullMatch.Step s tr t) (p : Player)
    (hpc : (t.ai p).main.pc ≠ .readSens) : SoundSession (t.ai p).prolog := by
  have hsound : Sound (t.ai p) := hrun.invariant (fun _ t => Sound (t.ai p))
    (fun hlate => absurd (hinit.pc p) hlate) (fun _ _ _ _ h hstep => sound_step h hstep)
  exact hsound hpc

theorem sessions_sound_opening : ∃ tr t, Run FullMatch.Step FirstGame.kickoff tr t ∧
    tr.flatMap (forced .p2) = [SessionAgreement.openingCoup] ∧ SoundSession (t.ai .p2).prolog := by
  obtain ⟨tr, t, hrun, _, hpc, _, _, _, hforced⟩ := FirstGame.opening_run
  exact ⟨tr, t, hrun, hforced, sessions_sound FirstGame.kickoff_initial hrun .p2 (by rw [hpc]; simp)⟩

/-- A client is given the moves of its AI in order, and the end of a game loses none. -/
theorem client_given (hinit : FullMatch.Initial s) (hrun : Run FullMatch.Step s tr t) (p : Player) :
    ∃ flying, unread p t flying ∧
      (tr.flatMap (generated p)).map coupStrike = tr.flatMap (ofGame (ofClient p got)) ++ flying := by
  obtain ⟨flying, hflying, hgiven⟩ := (match_unread p).run hrun (unread_initial hinit p) (generated_run hrun p)
  have hgenerated : tr.flatMap (generatedStrikes p) = _ := strikes_of (generated p) tr
  rw [List.nil_append, hgenerated] at hgiven
  exact ⟨flying, hflying, hgiven⟩

theorem client_given_opening : ∃ tr t flying, Run FullMatch.Step FirstGame.kickoff tr t ∧ unread .p1 t flying ∧
    [coupStrike SessionAgreement.openingCoup] = tr.flatMap (ofGame (ofClient .p1 got)) ++ flying := by
  obtain ⟨tr, t, hrun, _, _, _, hgenerated, _⟩ := FirstGame.opening_run
  obtain ⟨flying, hflying, hgiven⟩ := client_given FirstGame.kickoff_initial hrun .p1
  rw [hgenerated] at hgiven
  exact ⟨tr, t, flying, hrun, hflying, hgiven⟩

end YokaiNoMori.WholeMatch
