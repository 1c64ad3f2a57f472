import YokaiNoMori.Progress

namespace YokaiNoMori.Pace

open ProtocolYokai Runs Serveur FullMatch Handling Strikes Conveyor Channels Carriers Delivery JavaCoup CoupFromAI
open Completion (work isVerdict match_work)
open FirstGame Progress
open Seat (made obeyed plays_after stays step_oriented)

/-! The first game does not stand still. -/

variable {s t u : FullMatch.State} {tr : List FullMatch.Label}

/-- The move that the server has received and the referee has not seen. -/
def waiting (s : Serveur.State) : List Strike :=
  match s.pc with
  | .validate _ => [reqStrike s.moveReq]
  | _ => []

def taken : Serveur.Event → List Strike
  | .recv _ m => msgStrikes m
  | _ => []

def judged : Serveur.Event → List Strike
  | .validationCoup _ coup _ _ => [reqStrike coup]
  | _ => []

theorem waiting_vacant {s : Serveur.State} (h : Vacant s.pc) : waiting s = [] := by
  cases hpc : s.pc with
  | validate t =>
      rw [hpc] at h
      exact h.elim
  | _ => rw [waiting, hpc]

/-- The referee judges every move that the server receives, once. -/
theorem judged_conveys : Conveys (fun _ => True) ServerStep (fun s xs => xs = waiting s) taken judged := by
  apply Conveys.of_eq
  rintro s e d ⟨_, hcall, hstep⟩ _
  cases server_handles hcall hstep with
  | take t d hvacant hpc =>
      rw [waiting_vacant hvacant, waiting, hpc]
      rfl
  | judge t valid prop hpc =>
      rw [waiting, hpc]
      rfl
  | tellMover t hpc | tellOther t hpc hprop | tellEnd t hpc hprop =>
      rw [waiting, hpc]
      rfl
  | relay t d hpc hvacant =>
      rw [waiting_vacant hvacant, waiting, hpc]
      rfl
  | rest e d hvacant hvacant' hquiet =>
      rw [waiting_vacant hvacant, waiting_vacant hvacant']
      cases e with
      | recv q m => exact greeting_strikes m hquiet
      | validationCoup => exact hquiet.elim
      | _ => rfl

/-- The moves that the two AIs make, and the ones that they obey. -/
def moves (e : FullMatch.Label) : List Coup := generated .p1 e ++ generated .p2 e

def obeyedMoves (e : FullMatch.Label) : List Coup := forced .p1 e ++ forced .p2 e

def verdict : FullMatch.Label → List Strike := ofGame (ofServer judged)

def sideless (a : AiPlayer.State) : Nat := if a.main.pc = .readSens then 1 else 0

def fullWork (t : FullMatch.State) : Nat := work t.game + (sideless (t.ai .p1) + sideless (t.ai .p2))

theorem added_verdict (e : Match.Label) : Completion.added e = 19 * (verdict (.game e)).length := by
  cases e with
  | client => rfl
  | server e => cases e <;> rfl

theorem game_paced {e : Match.Label} (hstep : Match.Step t.game e u.game) (hai : u.ai = t.ai) :
    fullWork u + 1 ≤ fullWork t + 19 * (verdict (.game e)).length := by
  have hwork := match_work hstep
  rw [added_verdict] at hwork
  rw [fullWork, fullWork, hai]
  omega

theorem ai_paced {p : Player} {e : AiPlayer.Event} (hgame : u.game = t.game) (hother : u.ai p.other = t.ai p.other)
    (h : sideless (u.ai p) + 1 ≤ sideless (t.ai p) + (made e).length + (obeyed e).length) :
    fullWork u + 1 ≤ fullWork t + (moves (.ai p e)).length + (obeyedMoves (.ai p e)).length := by
  rw [fullWork, fullWork, hgame]
  cases p <;> simp [moves, obeyedMoves, generated, forced, Player.other] at hother ⊢ <;> rw [hother] <;> omega

/-- A step of an AI gives it its side, makes a move or obeys one. -/
theorem turn_paced {a b : AiPlayer.State} {e : AiPlayer.Event} {bytes rest out : List UInt8}
    (hstays : e ≠ .finPartie ∧ e ≠ .skip) (hstep : AiPlayer.Step a bytes e b rest out) :
    sideless b + 1 ≤ sideless a + (made e).length + (obeyed e).length := by
  have hlate {s : JSicstus.State} {d : JSicstus.Event} {bytes rest : List UInt8} {prolog : PrologSession.Session}
      (hmain : JSicstus.Step a.main bytes d s rest) : sideless ⟨s, prolog⟩ = 0 := if_neg (step_oriented hmain)
  cases hstep with
  | readBoolean sens main rest hmain =>
      rw [hlate hmain]
      cases hmain with
      | readBoolean byte rest hpc =>
          rw [sideless, if_pos hpc]
          exact Nat.le_refl 1
  | generate coup main prolog rest hmain hcall =>
      rw [hlate hmain]
      exact Nat.le_add_left 1 _
  | force coup main prolog rest hmain hcall =>
      rw [hlate hmain]
      exact Nat.le_add_left 1 _
  | finPartie => exact absurd rfl hstays.1
  | skip => exact absurd rfl hstays.2

theorem step_paced {e : FullMatch.Label} (hinit : FullMatch.Initial s) (hrun : Run OpenStep s tr t)
    (hstep : OpenStep t e u) :
    fullWork u + 1 ≤ fullWork t + 19 * (verdict e).length + (moves e).length + (obeyedMoves e).length := by
  have hactive {p : Player} {d : AiPlayer.Event} {a : AiPlayer.State} {bytes rest out : List UInt8} (he : e = .ai p d)
      (hu : u.ai = Function.update t.ai p a) (hgame : u.game = t.game)
      (hai : AiPlayer.Step (t.ai p) bytes d a rest out) :
      fullWork u + 1 ≤ fullWork t + 19 * (verdict e).length + (moves e).length + (obeyedMoves e).length := by
    obtain ⟨hnb, ha⟩ := ai_plays hinit hrun p
    obtain ⟨_, hb⟩ := ai_plays hinit (hrun.snoc hstep) p
    have hself : u.ai p = a := by rw [hu, Function.update_self]
    have hother : u.ai p.other = t.ai p.other := by rw [hu, Function.update_of_ne (other_ne_self p)]
    rw [← hself] at hai
    subst he
    exact ai_paced hgame hother (turn_paced (stays hnb ha hb hai) hai)
  obtain ⟨hplay, hstep'⟩ := hstep
  cases hstep' with
  | game e g he hgame => exact game_paced (u := { t with game := g }) hgame rfl
  | toAi p e g he hsent hgame => exact game_paced (u := { t with game := g }) hgame rfl
  | fromAi p res coupIa bytes rest g hbytes hreceive hgame => exact game_paced (u := { t with game := g }) hgame rfl
  | ai p d a rest out he hai => exact hactive rfl rfl rfl hai
  | skip p n a rest out hai => exact hactive rfl rfl rfl hai

theorem run_paced (hinit : FullMatch.Initial s) (hrun : Run OpenStep s tr t) :
    tr.length + fullWork t ≤
      32 + 19 * (tr.flatMap verdict).length + (tr.flatMap moves).length + (tr.flatMap obeyedMoves).length := by
  induction hrun with
  | nil =>
      have hwork : fullWork s = 32 := by
        rw [fullWork, Completion.work_initial hinit.game, sideless, sideless, hinit.pc, hinit.pc]
        rfl
      rw [hwork]
      exact Nat.le_refl 32
  | @snoc tr t e u hrun hstep ih =>
      have hpaced := step_paced hinit hrun hstep
      simp only [List.flatMap_append, List.flatMap_singleton, List.length_append, List.length_singleton]
      omega

theorem length_flatMap_both {α : Type} {f g h : FullMatch.Label → List α}
    (hboth : ∀ e, (f e).length = (g e).length + (h e).length) (tr : List FullMatch.Label) :
    (tr.flatMap f).length = (tr.flatMap g).length + (tr.flatMap h).length := by
  induction tr with
  | nil => rfl
  | cons e tr ih =>
      simp only [List.flatMap_cons, List.length_append, hboth e, ih]
      omega

theorem length_moves (tr : List FullMatch.Label) :
    (tr.flatMap moves).length = (tr.flatMap (generated .p1)).length + (tr.flatMap (generated .p2)).length :=
  length_flatMap_both (fun _ => List.length_append) tr

theorem obeyed_le (hinit : FullMatch.Initial s) (hrun : Run OpenStep s tr t) :
    (tr.flatMap obeyedMoves).length ≤ (tr.flatMap moves).length := by
  have hless (p : Player) : (tr.flatMap (forced p.other)).length ≤ (tr.flatMap (generated p)).length := by
    obtain ⟨flying, _, hdelivered⟩ := delivered hinit hrun p
    have hmade : tr.flatMap (generatedStrikes p) = _ := strikes_of (generated p) tr
    have hheard : tr.flatMap (forcedStrikes p.other) = _ := strikes_of (forced p.other) tr
    have hlength := congrArg List.length hdelivered
    rw [hmade, hheard, List.length_append, List.length_map, List.length_map] at hlength
    omega
  have hp1 := hless .p1
  have hp2 := hless .p2
  have hboth : (tr.flatMap obeyedMoves).length = (tr.flatMap (forced .p1)).length + (tr.flatMap (forced .p2)).length :=
    length_flatMap_both (fun _ => List.length_append) tr
  rw [hboth, length_moves]
  change (tr.flatMap (forced .p2)).length ≤ _ at hp1
  change (tr.flatMap (forced .p1)).length ≤ _ at hp2
  omega

/-- What the server has read of a player is what the player's AI has made, but
for the moves that are still in between. -/
theorem arrived (hinit : FullMatch.Initial s) (hrun : Run OpenStep s tr t) (p : Player) :
    ∃ xs, tr.flatMap (generatedStrikes p) = tr.flatMap (ofGame (ofServer (received msgStrikes p))) ++ xs := by
  have hclient := outgoing_conveys.lift (fun m : Match.State => m.client p) (clientEvent p)
    (fun _ _ _ => client_projects p)
  have hup : Conveys Displaces MatchStep _ _ _ := (up_conveys msgStrikes p).restrict fun _ _ _ h => h.2
  have hgame := (hclient.series hup).lift (fun s : FullMatch.State => s.game) gameEvent (fun _ _ _ => game_projects)
  have hout : outgoing (s.game.client p) = [] := by rw [outgoing, (hinit.game.client p).pc]
  have hup : strikes (s.game.up p) = [] := by rw [hinit.game.up, strikes_nil]
  obtain ⟨xs, _, harrived⟩ := ((seat_unread p).series hgame).run hrun
    ⟨[], [], ⟨[], [], hup.symm, hout.symm, rfl⟩, unread_initial hinit p, rfl⟩ (generated_run (match_run hrun) p)
  exact ⟨xs, harrived⟩

theorem taken_received (e : FullMatch.Label) :
    (ofGame (ofServer taken) e).length =
      (ofGame (ofServer (received msgStrikes .p1)) e).length +
        (ofGame (ofServer (received msgStrikes .p2)) e).length := by
  rcases e with (e | _) | _
  · cases e with
    | recv q m => cases q <;> simp [ofGame, gameEvent, ofServer, serverEvent, taken, received]
    | _ => rfl
  · rfl
  · rfl

theorem judged_le (hinit : FullMatch.Initial s) (hrun : Run OpenStep s tr t) :
    (tr.flatMap verdict).length ≤ (tr.flatMap moves).length := by
  have hserver := (judged_conveys.lift (fun m : Match.State => m.server) serverEvent fun _ _ _ => server_projects).lift
    (fun s : FullMatch.State => s.game) gameEvent fun _ _ _ => game_projects
  have hwaiting : waiting s.game.server = [] := by rw [waiting, hinit.game.server.pc]
  obtain ⟨ys, _, hjudged⟩ := hserver.run hrun hwaiting.symm fun _ _ => trivial
  have hverdicts : tr.flatMap (ofGame (ofServer taken)) = tr.flatMap verdict ++ ys := hjudged
  have hless (p : Player) :
      (tr.flatMap (ofGame (ofServer (received msgStrikes p)))).length ≤ (tr.flatMap (generated p)).length := by
    obtain ⟨xs, harrived⟩ := arrived hinit hrun p
    have hmade : tr.flatMap (generatedStrikes p) = _ := strikes_of (generated p) tr
    have hlength := congrArg List.length harrived
    rw [hmade, List.length_append, List.length_map] at hlength
    omega
  have hp1 := hless .p1
  have hp2 := hless .p2
  have htaken := length_flatMap_both taken_received tr
  rw [hverdicts, List.length_append] at htaken
  rw [length_moves]
  omega

theorem goes_further (hinit : FullMatch.Initial s) (hrun : Run FullMatch.Step s tr t) (hopen : ∀ e ∈ tr, Open e)
    (n : Nat) : ∃ tr' u, Run FullMatch.Step t tr' u ∧ (∀ e ∈ tr', Open e) ∧ tr'.length = n := by
  induction n with
  | zero => exact ⟨[], t, .nil, List.forall_mem_nil _, rfl⟩
  | succ n ih =>
      obtain ⟨tr', u, hmore, hopen', hlength⟩ := ih
      have hall : ∀ e ∈ tr ++ tr', Open e := List.forall_mem_append.2 ⟨hopen, hopen'⟩
      obtain ⟨e, v, hstep, he⟩ := goes_on hinit (open_run hinit (hrun.append hmore) hall).1
      refine ⟨tr' ++ [e], v, hmore.snoc hstep, List.forall_mem_append.2 ⟨hopen', ?_⟩, ?_⟩
      · rintro d hd
        rwa [List.mem_singleton.1 hd]
      · rw [List.length_append, hlength, List.length_singleton]

/-- As long as the referee ends no game, each move costs a bounded number of
steps, and the match can be carried on to any number of moves. -/
theorem first_game_advances (hinit : FullMatch.Initial s) (hrun : Run FullMatch.Step s tr t)
    (hopen : ∀ e ∈ tr, Open e) :
    tr.length ≤ 32 + 21 * (tr.flatMap moves).length ∧
      ∀ n, ∃ tr' u, Run FullMatch.Step t tr' u ∧ (∀ e ∈ tr', Open e) ∧
        n ≤ ((tr ++ tr').flatMap moves).length := by
  have hbound {tr : List FullMatch.Label} {t : FullMatch.State} (hrun : Run FullMatch.Step s tr t)
      (hopen : ∀ e ∈ tr, Open e) : tr.length ≤ 32 + 21 * (tr.flatMap moves).length := by
    obtain ⟨hrun', _⟩ := open_run hinit hrun hopen
    have hpaced := run_paced hinit hrun'
    have hobeyed := obeyed_le hinit hrun'
    have hjudged := judged_le hinit hrun'
    omega
  refine ⟨hbound hrun hopen, fun n => ?_⟩
  obtain ⟨tr', u, hmore, hopen', hlength⟩ := goes_further hinit hrun hopen (32 + 21 * n)
  have hall := hbound (hrun.append hmore) (List.forall_mem_append.2 ⟨hopen, hopen'⟩)
  refine ⟨tr', u, hmore, hopen', ?_⟩
  rw [List.length_append, hlength] at hall
  omega

theorem first_game_advances_opening : ∃ tr t, Run FullMatch.Step kickoff tr t ∧ tr.length ≤ 53 ∧
    ∀ n, ∃ tr' u, Run FullMatch.Step t tr' u ∧ n ≤ ((tr ++ tr').flatMap moves).length := by
  obtain ⟨tr, t, hrun, hopen, _, _, hfirst, hsecond, _⟩ := opening_run
  obtain ⟨hlength, hmore⟩ := first_game_advances kickoff_initial hrun hopen
  rw [length_moves, hfirst, hsecond] at hlength
  refine ⟨tr, t, hrun, hlength, fun n => ?_⟩
  obtain ⟨tr', u, hrun', _, hn⟩ := hmore n
  exact ⟨tr', u, hrun', hn⟩

end YokaiNoMori.Pace
