import YokaiNoMori.Completion
import YokaiNoMori.FirstGame

namespace YokaiNoMori.Progress

open ProtocolYokai Runs Serveur FullMatch Strikes Conveyor Channels Carriers Delivery JavaCoup PrologSession CoupFromAI
open Dialogue ClientDialogue ServerDialogue Lockstep Completion Orientations Lines FirstGame
open Seat (Plays firstGame)
open SessionAgreement (position)

/-! The first game does not end unless the referee ends it. -/

variable {s t u : FullMatch.State} {tr : List FullMatch.Label} {p : Player}

def Unfinished (s : Serveur.State) : Prop := ∀ u, s.pc ≠ .restart u ∧ s.pc ≠ .store u

theorem server_unfinished {s t : Serveur.State} {e : Serveur.Event} (h : Unfinished s) (hstep : ServerStep s e t) :
    Unfinished t ∧ ∀ os, note os e = os := by
  obtain ⟨hcont, _, hstep⟩ := hstep
  have htop (sud : Bool) (number : Int) (u : Turn) :
      loopTop sud number ≠ .restart u ∧ loopTop sud number ≠ .store u := by
    rw [loopTop]
    split_ifs <;> simp
  cases hstep with
  | recvPartie1 | recvPartie2 | sendPartie1 | recvCoup | validate | sendMover | recvError | sendError | sigpipe
  | endGame =>
      exact ⟨fun u => by simp [State.answer, State.judge], fun _ => rfl⟩
  | sendPartie2 hpc =>
      refine ⟨fun u => ?_, fun _ => rfl⟩
      rw [State.orient]
      split_ifs <;> simp
  | initialise hpc => exact ⟨fun u => htop _ _ u, fun _ => rfl⟩
  | sendOther v hpc =>
      refine ⟨fun u => ?_, fun _ => rfl⟩
      rw [if_pos (hcont v (.inr hpc))]
      simp
  | relay v hpc =>
      refine ⟨fun u => ?_, fun _ => rfl⟩
      rcases v with ⟨r, _ | _⟩
      · simp [State.continue]
      · exact htop _ _ u
  | restart v hpc => exact absurd hpc (h v).1
  | store v hpc => exact absurd hpc (h v).2

/-- As long as the referee ends no game, none is over. -/
theorem unfinished_run (hinit : FullMatch.Initial s) (hrun : Run OpenStep s tr t) :
    ∃ tr', Run Match.Step s.game tr' t.game ∧ outcomes tr' = [] ∧ Unfinished t.game.server := by
  induction hrun with
  | nil =>
      refine ⟨[], .nil, rfl, fun u => ?_⟩
      rw [hinit.game.server.pc]
      exact ⟨nofun, nofun⟩
  | snoc _ hstep ih =>
      obtain ⟨tr', hgame, hos, hserver⟩ := ih
      rcases game_projects hstep with ⟨_, hsame⟩ | ⟨d, _, hmatch⟩
      · refine ⟨tr', ?_, hos, ?_⟩ <;> rw [hsame]
        · exact hgame
        · exact hserver
      · refine ⟨tr' ++ [d], hgame.snoc hmatch.2, ?_⟩
        rw [outcomes_snoc, hos]
        rcases server_projects hmatch with ⟨hnone, hsame⟩ | ⟨e, hsome, hstep⟩
        · rw [hsame]
          refine ⟨?_, hserver⟩
          cases d with
          | server => cases hnone
          | client => rfl
        · obtain ⟨hserver', hnote⟩ := server_unfinished hserver hstep
          refine ⟨?_, hserver'⟩
          cases d with
          | server => obtain rfl := Option.some.inj hsome; exact hnote []
          | client => cases hsome

theorem server_open (hinit : FullMatch.Initial s) (hrun : Run OpenStep s tr t) : t.game.server.pc ≠ .exited := by
  intro hexited
  obtain ⟨tr', hgame, hos, _⟩ := unfinished_run hinit hrun
  have hplaced := (together hinit.game hgame).aligned.placed
  simp only [Placed, hexited, hos] at hplaced
  cases hplaced

/-- The client is in the first game, with one move to make more than it has made
when it waits for one, and one to hear more than it has heard when it started. -/
structure Even (c : Client.State) (made heard : Nat) : Prop where
  nbPartie : c.nbPartie = 1
  playing : c.pc ≠ .done
  early : AiLink.Early c.pc → made = 0 ∧ heard = 0
  late : ¬AiLink.Early c.pc → made + (if c.pc = .getCoup (firstGame c.sens) then 1 else 0) = heard + c.sens.toNat

theorem inGame_first {c : Client.State} {b : Client.Branch} (h : InGame c b ∧ c.nbPartie = number b.game)
    (hnb : c.nbPartie = 1) : b = firstGame c.sens := by
  rcases b with ⟨_ | _, r⟩
  · rw [firstGame, ← h.1.role]
  · cases h.2.symm.trans hnb

theorem loop_firstGame (sens : Bool) : Client.loopTop .game1 sens 1 =
    if sens then .getCoup (firstGame sens) else .recvEnnemyRep (firstGame sens) := by
  cases sens <;> rfl

theorem answered_firstGame {c : Client.State} {rep : TCoupRep} (hnb : c.nbPartie = 1) (hprop : rep.propCoup = .cont) :
    c.answered (firstGame c.sens) rep = { c with repCoup := rep, pc := .recvEnnemyRep (firstGame c.sens) } := by
  rcases c with ⟨pc, name, nbPartie, sens, first, second, coupIa, recvIa, repCoup⟩
  obtain rfl : nbPartie = 1 := hnb
  rw [Client.State.answered, if_neg (not_not.2 hprop)]
  cases sens <;> rfl

theorem forwarded_firstGame {c : Client.State} (hnb : c.nbPartie = 1) :
    c.forwarded (firstGame c.sens) = { c with pc := .getCoup (firstGame c.sens) } := by
  rcases c with ⟨pc, name, nbPartie, sens, first, second, coupIa, recvIa, repCoup⟩
  obtain rfl : nbPartie = 1 := hnb
  cases sens <;> rfl

theorem even_step {c d : Client.State} {e : Client.Event} {made heard : Nat} (h : Even c made heard)
    (hcons : Consistent c) (hstep : ClientStep c e d) :
    Even d (made + (got e).length) (heard + (forwarded e).length) := by
  obtain ⟨hplay, hgo, hstep⟩ := hstep
  have hnb := h.nbPartie
  cases hstep with
  | sendPartie hpc | recvPartie _ hpc =>
      obtain ⟨rfl, rfl⟩ := h.early (by rw [hpc]; trivial)
      exact ⟨hnb, (by simp), fun _ => ⟨rfl, rfl⟩, fun hlate => absurd trivial hlate⟩
  | sendSens hpc =>
      obtain ⟨rfl, rfl⟩ := h.early (by rw [hpc]; trivial)
      have hloop : Client.loop1 c.sens c.nbPartie = _ := hnb ▸ loop_firstGame c.sens
      simp only [hloop]
      cases c.sens <;> exact ⟨hnb, (by simp), False.elim, fun _ => rfl⟩
  | getCoup b coupIa hpc =>
      simp only [Consistent, hpc] at hcons
      obtain rfl := inGame_first hcons hnb
      have hlate := h.late (by rw [hpc]; exact not_false)
      rw [hpc, if_pos rfl] at hlate
      exact ⟨hnb, (by simp), False.elim, fun _ => hlate⟩
  | sendCoup b req hpc =>
      have hlate := h.late (by rw [hpc]; exact not_false)
      rw [hpc, if_neg (by simp)] at hlate
      exact ⟨hnb, (by simp), False.elim, fun _ => hlate⟩
  | recvRep b rep hpc =>
      simp only [Consistent, hpc] at hcons
      obtain rfl := inGame_first hcons hnb
      have hlate := h.late (by rw [hpc]; exact not_false)
      rw [hpc, if_neg (by simp)] at hlate
      rw [answered_firstGame hnb (hgo rep rfl)]
      exact ⟨hnb, (by simp), False.elim, fun _ => hlate⟩
  | notify b hpc => exact absurd hpc (hplay.notify b)
  | recvEnnemyRep b rep recvIa coup hpc =>
      have hlate := h.late (by rw [hpc]; exact not_false)
      rw [hpc, if_neg (by simp)] at hlate
      rw [Client.State.ennemyAnswered, if_pos (hgo rep rfl)]
      exact ⟨hnb, (by simp), False.elim, fun _ => hlate⟩
  | recvEnnemyCoup b recvIa coup hpc =>
      have hlate := h.late (by rw [hpc]; exact not_false)
      rw [hpc, if_neg (by simp)] at hlate
      exact ⟨hnb, (by simp), False.elim, fun _ => hlate⟩
  | notifyEnnemy b hpc => exact absurd hpc (hplay.notifyEnnemy b)
  | forward b hpc =>
      simp only [Consistent, hpc] at hcons
      obtain rfl := inGame_first hcons hnb
      have hlate := h.late (by rw [hpc]; exact not_false)
      rw [hpc, if_neg (by simp)] at hlate
      rw [forwarded_firstGame hnb]
      refine ⟨hnb, (by simp), False.elim, fun _ => ?_⟩
      rw [if_pos rfl]
      change made + 1 = heard + 1 + c.sens.toNat
      omega

def gotFrom (p : Player) (e : FullMatch.Label) : List Strike := ofGame (ofClient p got) e

def passedTo (p : Player) (e : FullMatch.Label) : List Strike := ofGame (ofClient p forwarded) e

theorem even_run (hinit : FullMatch.Initial s) (hrun : Run OpenStep s tr t) (p : Player) :
    Even (t.game.client p) (tr.flatMap (gotFrom p)).length (tr.flatMap (passedTo p)).length := by
  induction hrun with
  | nil =>
      have hclient := hinit.game.client p
      refine ⟨hclient.nbPartie, ?_, fun _ => ⟨rfl, rfl⟩, fun hlate => absurd ?_ hlate⟩ <;> rw [hclient.pc]
      · nofun
      · trivial
  | @snoc tr t e u hrun hstep ih =>
      obtain ⟨tr', hgame⟩ := game_run hrun
      have hcons := (together hinit.game hgame).consistent p
      rw [List.flatMap_append, List.flatMap_append, List.flatMap_singleton, List.flatMap_singleton,
        List.length_append, List.length_append, gotFrom, passedTo, ofGame, ofGame]
      rcases game_projects hstep with ⟨hnone, hsame⟩ | ⟨d, hsome, hmatch⟩
      · rw [hnone, hsame]
        exact ih
      · rw [hsome, Option.elim_some, Option.elim_some, ofClient, ofClient]
        rcases client_projects p hmatch with ⟨hnone, hsame⟩ | ⟨c, hsome, hclient⟩
        · rw [hnone, hsame]
          exact ih
        · rw [hsome]
          exact even_step ih hcons hclient

theorem share_turn (p : Player) {n : Nat} {r : Session} (h : line n = some r) :
    (share p n).length + (if mover n = p then 1 else 0) = (share p.other n).length + (sensOf p).toNat := by
  induction n generalizing r with
  | zero => cases p <;> rfl
  | succ n ih =>
      obtain ⟨r', coup, answer, hline, hgen, rfl, hmove⟩ := line_succ h
      have hn := ih hline
      rcases mover_cases p n with ⟨hmine, hnot⟩ | ⟨hmine, hnot⟩
      · rw [share_mine hmine hmove, share_other hnot, List.length_append, List.length_singleton, mover, hmine,
          if_neg (other_ne_self p)]
        rw [if_pos hmine] at hn
        omega
      · rw [share_mine hmine hmove, share_other hnot, List.length_append, List.length_singleton, mover, hmine,
          other_other, if_pos rfl]
        rw [if_neg hnot] at hn
        omega

/-- A client does not wait for an AI that waits for it. -/
theorem ai_owes (hinit : FullMatch.Initial s) (hrun : Run OpenStep s tr t)
    (hclient : (t.game.client p).pc = .getCoup (firstGame (sensOf p))) (hsens : (t.game.client p).sens = sensOf p)
    (hpc : (t.ai p).main.pc = .read (firstGame (sensOf p))) (hfrom : t.fromAi p = []) (hto : t.toAi p = []) :
    False := by
  obtain ⟨n, hfollows⟩ := joint hinit hrun p
  obtain ⟨r, hline, hown, hheard⟩ := follows_share hfollows
  obtain ⟨_, _, _, hturn⟩ := follows_oriented hfollows (by rw [hpc]; nofun)
  have hmover : mover n ≠ p := by
    intro hmine
    rw [hpc, if_pos hmine] at hturn
    cases hturn
  have heven := (even_run hinit hrun p).late (by rw [hclient]; exact not_false)
  have hcount := share_turn p hline
  obtain ⟨⟨xs, hxs, hgot⟩, ys, hys, hpassed⟩ := linked hinit hrun p
  rw [Seat.unread_nil hfrom hxs, List.append_nil, hown] at hgot
  rw [Seat.pending_nil hto hys, List.append_nil, hheard] at hpassed
  have hmade : (tr.flatMap (gotFrom p)).length = (share p n).length := congrArg List.length hgot.symm
  have htaken : (tr.flatMap (passedTo p)).length = (share p.other n).length := congrArg List.length hpassed
  rw [hmade, htaken, hclient, hsens, if_pos rfl] at heven
  rw [if_neg hmover] at hcount
  omega

theorem caseOf_caseWords (k : Case) : AiStream.caseOf (caseWords k) = some k := by
  rcases k with ⟨col, lig⟩
  cases col <;> cases lig <;> rfl

/-- A move that comes from an AI can be read by one. -/
theorem reads_strike {ia : TCoupIa} {coup : Coup} (hfin : ia.finPartie = 0) (hstrike : iaStrike ia = coupStrike coup)
    (hmatch : Matching coup) (hdisplaces : Displaces (coupStrike coup)) (more : List UInt8) :
    ∃ move, AiStream.readFromNetwork.run (AiStream.sendCoupToAI ia ++ more) = .ok (some move, more) := by
  obtain ⟨_, depl, hparams⟩ := depl_of_displaces hdisplaces hmatch
  have htype : ia.typeCoup = deplacer := by
    rw [← hstrike] at hdisplaces
    exact hdisplaces
  simp only [coupStrike, iaStrike, hparams, Strike.mk.injEq] at hstrike
  obtain ⟨htypeCoup, hpiece, hdep, harr⟩ := hstrike
  have hvalue : EnumCoup.values[ia.typeCoup.toNat]? = some coup.typeCoup := by
    rw [htypeCoup]
    cases coup.typeCoup <;> rfl
  have hpieceValue : EnumPiece.values[ia.piece.toNat]? = some coup.piece := by
    rw [hpiece]
    cases coup.piece <;> rfl
  have hdepOf : AiStream.caseOf ia.params.deplPiece.caseDep = some depl.caseDep := by rw [hdep, caseOf_caseWords]
  have harrOf : AiStream.caseOf ia.params.deplPiece.caseArr = some depl.caseArr := by rw [harr, caseOf_caseWords]
  have hdeplOf : AiStream.deplOf ia.params.deplPiece (AiStream.captRead ia.params.deplPiece) = some _ :=
    AiStream.deplOf_eq_some.2 ⟨_, _, hdepOf, harrOf, rfl⟩
  have hcoup := AiStream.coupOf_eq_some.2 ⟨_, _, _, hvalue, hpieceValue, hdeplOf, rfl⟩
  exact ⟨_, by rw [AiStream.yields_deplacer hfin htype more, hcoup]; rfl⟩

theorem force_possible {move : Coup} (hdisplaces : Displaces (coupStrike move)) (hmatch : Matching move) (r : Session) :
    ∃ r', forceEnnemyStrike r move = some r' := by
  obtain ⟨htype, depl, hparams⟩ := depl_of_displaces hdisplaces hmatch
  have hanswers : strikeAnswers r move = some (forceMoveQuery r move.piece depl) := by
    simp only [strikeAnswers, htype, hparams]
  exact ⟨_, by rw [forceEnnemyStrike_eq, hanswers, Option.map_some]⟩

/-- An AI that has a move to read reads and obeys it. -/
theorem ai_reads (hinit : FullMatch.Initial s) (hrun : Run OpenStep s tr t)
    (hpc : (t.ai p).main.pc = .read (firstGame (sensOf p))) (hto : t.toAi p ≠ []) :
    ∃ e u, FullMatch.Step t e u ∧ Open e := by
  obtain ⟨flying, ⟨front, back, hfront, _, rfl⟩, hdelivered⟩ := delivered hinit hrun p.other
  rw [other_other] at hfront
  obtain ⟨ias, hstage, _, hfin, rfl⟩ := hfront
  simp only [seat] at hstage
  generalize hbytes : t.toAi p = bytes at hstage
  cases hstage with
  | early _ hpc' | oriented _ _ hpc' => rw [hpc] at hpc'; cases hpc'
  | playing _ hlate =>
      cases ias with
      | nil => exact absurd hbytes hto
      | cons ia more =>
          have hmem : iaStrike ia ∈ tr.flatMap (generatedStrikes p.other) := by
            rw [hdelivered]
            exact List.mem_append_right _ (List.mem_append_left back List.mem_cons_self)
          obtain ⟨coup, hmatch, hdisplaces, hstrike⟩ := generated_strike (match_run hrun) p.other hmem
          have hia := hfin ia List.mem_cons_self
          obtain ⟨move, hread⟩ := reads_strike hia hstrike hmatch hdisplaces (more.flatMap AiStream.sendCoupToAI)
          rw [← hstrike] at hdisplaces
          obtain ⟨_, _, hmove, hsame, hmatch'⟩ := read_displacement hia hdisplaces hread
          obtain rfl := Option.some.inj hmove
          rw [← hsame] at hdisplaces
          obtain ⟨r', hcall⟩ := force_possible hdisplaces hmatch' (t.ai p).prolog
          rw [← List.flatMap_cons, ← hbytes] at hread
          have hai := AiPlayer.Step.force _ _ _ _ _ _ (.readFromNetwork _ _ _ _ _ hpc hread) hcall
          exact ⟨_, _, .ai t p (.force move) _ _ _ (by simp) hai, by simp [Open]⟩

/-- An AI whose client waits for it goes on, or has no answer. -/
theorem ai_goes_on (hinit : FullMatch.Initial s) (hrun : Run OpenStep s tr t) {b : Client.Branch}
    (hclient : (t.game.client p).pc = .getCoup b) (hfrom : t.fromAi p = []) :
    (∃ e u, FullMatch.Step t e u ∧ Open e) ∨
      ((t.ai p).main.pc = .play (firstGame (sensOf p)) ∧ generateMove (t.ai p).prolog = none) := by
  obtain ⟨tr', hgame⟩ := game_run hrun
  have hlate : ¬AiLink.Early (t.game.client p).pc := by rw [hclient]; exact not_false
  have hsens := client_oriented hinit.game hgame hlate
  have hcons := (together hinit.game hgame).consistent p
  simp only [Consistent, hclient] at hcons
  obtain rfl := inGame_first hcons (even_run hinit hrun p).nbPartie
  rw [hsens] at hclient
  obtain ⟨hnb, hpc | hplays⟩ := ai_plays hinit hrun p
  · obtain ⟨xs, ⟨ias, hstage, _⟩, _⟩ := (linked hinit hrun p).2
    simp only [seat] at hstage
    generalize hbytes : t.toAi p = bytes at hstage
    cases hstage with
    | early hearly => exact absurd hearly hlate
    | playing _ _ _ _ hpc' => rw [hpc] at hpc'; rcases hpc' with hpc' | hpc' <;> cases hpc'
    | oriented ias =>
        exact .inl ⟨_, _, .ai t p (.readBoolean _) _ _ _ (by simp) (reads_sens hbytes hpc), by simp [Open]⟩
  · rcases hplays.pc with hpc | hpc
    · cases hgen : generateMove (t.ai p).prolog with
      | none => exact .inr ⟨hpc, rfl⟩
      | some answer =>
          obtain ⟨coup, r⟩ := answer
          exact .inl ⟨_, _, .ai t p (.generate coup) _ _ _ (by simp)
            (.generate _ _ _ _ _ _ (.sendToNetwork _ _ _ hpc) hgen), by simp [Open]⟩
    · by_cases hto : t.toAi p = []
      · exact (ai_owes hinit hrun hclient hsens hpc hfrom hto).elim
      · exact .inl (ai_reads hinit hrun hpc hto)

def GoesOn (t : FullMatch.State) : Prop := ∃ e u, FullMatch.Step t e u ∧ Open e

theorem server_goesOn {e : Serveur.Event} {g : Match.State} (he : Continues e)
    (hstep : Match.Step t.game (.server e) g) : GoesOn t := by
  refine ⟨_, _, .game t (.server e) g trivial hstep, ?_⟩
  rintro joueur coup valid prop hlabel
  obtain rfl : e = _ := Match.Label.server.inj (FullMatch.Label.game.inj hlabel)
  exact he

theorem client_goesOn {e : Client.Event} {g : Match.State} (he : ¬Client.WithAi e)
    (hstep : Match.Step t.game (.client p e) g) : GoesOn t :=
  ⟨_, _, .game t (.client p e) g he hstep, nofun⟩

theorem written_goesOn {e : Client.Event} {c : Client.State} (he : Client.WithAi e) (hwritten : AiLink.written e ≠ [])
    (hstep : Client.Step (t.game.client p) e c) : GoesOn t :=
  ⟨_, _, .toAi t p e _ he hwritten (.clientAi _ p e c he hstep), nofun⟩

theorem written_coup (ia : TCoupIa) : AiLink.written (.sendCoupToAI ia) ≠ [] := by
  intro hnil
  have hlength : (AiLink.written (.sendCoupToAI ia)).length = 32 := AiStream.length_sendCoupToAI ia
  rw [hnil] at hlength
  cases hlength

/-- A client of a match that cannot go on waits for the server or for its AI. -/
theorem client_blocked (hinit : FullMatch.Initial s) (hrun : Run OpenStep s tr t) (hstuck : ¬GoesOn t) (p : Player) :
    (Client.Receiving (t.game.client p).pc ∧ t.game.down p = []) ∨
      ∃ b, (t.game.client p).pc = .getCoup b ∧ t.fromAi p = [] := by
  obtain ⟨tr', hgame⟩ := game_run hrun
  rcases client_acts (t.game.client p) with hrecv | hdone | ⟨b, hpc⟩ | ⟨msg, d, hstep⟩ | ⟨sens, d, hstep⟩ | ⟨ia, d, hstep⟩
  · refine .inl ⟨hrecv, ?_⟩
    cases hdown : t.game.down p with
    | nil => rfl
    | cons msg rest =>
        obtain ⟨v, hm, _⟩ := (hdown ▸ (together hinit.game hgame).inStep p).hear
        obtain ⟨d, hstep⟩ := client_takes hrecv (client_expects hrecv hm)
        exact absurd (client_goesOn (e := .recv msg) not_false (.clientRecv _ p msg rest d hdown hstep)) hstuck
  · exact absurd hdone (even_run hinit hrun p).playing
  · refine .inr ⟨b, hpc, ?_⟩
    by_contra hfrom
    obtain ⟨xs, ⟨coups, hcoups, hmatch, _⟩, _⟩ := (linked hinit hrun p).1
    cases coups with
    | nil => exact hfrom hcoups
    | cons coup coups =>
        have hcoup := (List.forall_mem_cons.1 hmatch).1
        rw [List.flatMap_cons] at hcoups
        exact hstuck ⟨_, _, .fromAi t p (t.game.client p).coupIa _ _ _ _ hcoups (receives_coup hcoup _)
          (.clientAi _ p (.getCoupFromAI _) _ trivial (.getCoup _ b _ hpc)), nofun⟩
  · exact absurd (client_goesOn (e := .send msg) not_false (.clientSend _ p msg d hstep)) hstuck
  · exact absurd (written_goesOn (e := .sendSens sens) trivial (List.cons_ne_nil _ _) hstep) hstuck
  · exact absurd (written_goesOn (e := .sendCoupToAI ia) trivial (written_coup ia) hstep) hstuck

/-- As long as the referee ends no game, the match with both AIs goes on, unless
the AI whose turn it is has no answer. -/
theorem goesOn_or_lost (hinit : FullMatch.Initial s) (hrun : Run OpenStep s tr t) :
    GoesOn t ∨
      ∃ p, (t.ai p).main.pc = .play (firstGame (sensOf p)) ∧ generateMove (t.ai p).prolog = none := by
  obtain ⟨tr', hgame⟩ := game_run hrun
  have hinv := together hinit.game hgame
  refine or_iff_not_imp_left.2 fun hstops => ?_
  rcases server_acts t.game.server (aligned_alive hinv.aligned) with
    ⟨p, playerId, hpc⟩ | hexited | ⟨p, msg, g, hstep⟩ | ⟨e, g, he, hgoes, hstep⟩
  · have hin := hinv.inStep p
    cases hup : t.game.up p with
    | nil =>
        rcases client_blocked hinit hrun hstops p with ⟨hrecv, hdown⟩ | ⟨b, hclient, hfrom⟩
        · have hhears := client_turn hrecv
          rcases unheard hin (server_turn _ hpc) hup hdown with hasks | hasks
          · exact absurd hasks hhears.1
          · exact absurd hasks hhears.2
        · rcases ai_goes_on hinit hrun hclient hfrom with hgoes | hlost
          · exact absurd hgoes hstops
          · exact ⟨p, hlost⟩
    | cons msg rest =>
        obtain ⟨v, hm, _⟩ := (hup ▸ hin).symm.hear
        obtain ⟨g, hstep⟩ := server_takes hpc (server_expects hinv.aligned hpc hm).1
        exact absurd (server_goesOn (e := .recv p msg) trivial (.serverRecv _ p msg rest g hup hstep)) hstops
  · exact absurd hexited (server_open hinit hrun)
  · exact absurd (server_goesOn (e := .send p msg) trivial (.serverSend _ p msg g hstep)) hstops
  · exact absurd (server_goesOn hgoes (.serverInside _ e g he hstep)) hstops

def next (r : Session) : Option Session := (generateMove r).map fun answer => handOver answer.2

/-- Neither king can be reached, and no move wins anything. -/
def shuffle : Session where
  side := .north
  opposide := .south
  currentBoard :=
    [⟨.south, .koropokkuru, 4, 6⟩, ⟨.north, .kirin, 3, 4⟩, ⟨.north, .koropokkuru, 3, 1⟩, ⟨.north, .oni, 5, 1⟩]
  currentCaptN :=
    [⟨.north, .kirin, 0, 0⟩, ⟨.north, .oni, 0, 0⟩, ⟨.north, .oni, 0, 0⟩, ⟨.north, .kirin, 0, 0⟩,
     ⟨.north, .kodama, 0, 0⟩, ⟨.north, .kodama, 0, 0⟩, ⟨.north, .kodama, 0, 0⟩]
  currentCaptS :=
    [⟨.south, .kirin, 0, 0⟩, ⟨.south, .oni, 0, 0⟩, ⟨.south, .kodama, 0, 0⟩, ⟨.south, .kodama, 0, 0⟩,
     ⟨.south, .kodama, 0, 0⟩]
  opposed := rfl

theorem line_shuffle : line 26 = some shuffle := by
  decide +kernel

theorem shuffle_repeats : (((next shuffle).bind next).bind next).bind next = some shuffle := by
  decide +kernel

theorem line_repeats {n : Nat} (h : 26 ≤ n) : line (n + 4) = line n := by
  induction n, h using Nat.le_induction with
  | base =>
      change ((((line 26).bind next).bind next).bind next).bind next = line 26
      rw [line_shuffle, Option.bind_some, shuffle_repeats]
  | succ n _ ih =>
      change (line (n + 4)).bind next = (line n).bind next
      rw [ih]

theorem line_total (n : Nat) : ∃ r, line n = some r := by
  induction n using Nat.strong_induction_on with
  | _ n ih =>
      by_cases hearly : n ≤ 30
      · have hline : line 30 = some shuffle := (line_repeats (le_refl 26)).trans line_shuffle
        exact line_le hline hearly
      · obtain ⟨r, hline⟩ := ih (n - 4) (by omega)
        have hrepeat := line_repeats (n := n - 4) (by omega)
        rw [Nat.sub_add_cancel (by omega)] at hrepeat
        exact ⟨r, hrepeat.trans hline⟩

theorem line_cycle {n : Nat} (h : 26 ≤ n) : ∃ k < 4, line n = line (26 + k) := by
  induction n using Nat.strong_induction_on with
  | _ n ih =>
      by_cases hearly : n < 30
      · exact ⟨n - 26, by omega, by rw [Nat.add_sub_cancel' h]⟩
      · obtain ⟨k, hk, hline⟩ := ih (n - 4) (by omega) (by omega)
        have hrepeat := line_repeats (n := n - 4) (by omega)
        rw [Nat.sub_add_cancel (by omega)] at hrepeat
        exact ⟨k, hk, hrepeat.trans hline⟩

theorem ai_answers (hinit : FullMatch.Initial s) (hrun : Run OpenStep s tr t)
    (hpc : (t.ai p).main.pc = .play (firstGame (sensOf p))) : generateMove (t.ai p).prolog ≠ none := by
  obtain ⟨n, hfollows⟩ := joint hinit hrun p
  obtain ⟨r, hline, hsame, hturn⟩ := follows_oriented hfollows (by rw [hpc]; nofun)
  have hplays : Plays p (t.ai p) := (ai_plays hinit hrun p).2.resolve_left (by rw [hpc]; nofun)
  have hmover : mover n = p := by
    rw [hpc] at hturn
    split at hturn
    · assumption
    · cases hturn
  obtain rfl := session_ext (by rw [hplays.side, line_side hline, hmover]) hsame
  obtain ⟨r', hnext⟩ := line_total (n + 1)
  obtain ⟨_, _, _, hline', hgen, _⟩ := line_succ hnext
  obtain rfl := Option.some.inj (hline.symm.trans hline')
  rw [hgen]
  nofun

/-- Every position of the line is one of its first thirty, the last four of them
coming back for ever. -/
theorem line_early (n : Nat) : ∃ k < 30, (k = n ∨ 26 ≤ k) ∧ line n = line k := by
  rcases Nat.lt_or_ge n 26 with hlt | hge
  · exact ⟨n, by omega, .inl rfl, rfl⟩
  · obtain ⟨k, hk, hline⟩ := line_cycle hge
    exact ⟨26 + k, by omega, .inr (by omega), hline⟩

theorem goes_on (hinit : FullMatch.Initial s) (hrun : Run OpenStep s tr t) : GoesOn t := by
  refine (goesOn_or_lost hinit hrun).resolve_right ?_
  rintro ⟨p, hpc, hlost⟩
  exact ai_answers hinit hrun hpc hlost

/-- As long as the referee ends no game, the match with both AIs never stops, and
the AIs only stand in the first thirty positions of the line. -/
theorem first_game_endless (hinit : FullMatch.Initial s) (hrun : Run FullMatch.Step s tr t)
    (hopen : ∀ e ∈ tr, Open e) :
    (∃ e u, FullMatch.Step t e u ∧ Open e) ∧
      ∀ p, (t.ai p).main.pc ≠ .readSens →
        ∃ k < 30, (k = (tr.flatMap (generated p)).length + (tr.flatMap (forced p)).length ∨ 26 ≤ k) ∧
          (line k).map position = some (position (t.ai p).prolog) := by
  obtain ⟨hrun', _⟩ := open_run hinit hrun hopen
  refine ⟨goes_on hinit hrun', fun p hpc => ?_⟩
  obtain ⟨n, hfollows⟩ := joint hinit hrun' p
  obtain ⟨r, hline, hsame, _⟩ := follows_oriented hfollows hpc
  have hown : tr.flatMap (generatedStrikes p) = _ := strikes_of (generated p) tr
  have hheard : tr.flatMap (forcedStrikes p) = _ := strikes_of (forced p) tr
  rw [hown, hheard] at hfollows
  obtain ⟨k, hk, hcycle, hline'⟩ := line_early n
  rw [follows_counts hfollows]
  exact ⟨k, hk, hcycle, by rw [← hline', hline, Option.map_some, hsame]⟩

theorem first_game_endless_opening : ∃ tr t, Run FullMatch.Step kickoff tr t ∧
    (∃ e u, FullMatch.Step t e u ∧ Open e) ∧
      ∃ k < 30, (line k).map position = some (position (t.ai .p2).prolog) := by
  obtain ⟨tr, t, hrun, hopen, hpc, _⟩ := opening_run
  obtain ⟨hgoes, hstands⟩ := first_game_endless kickoff_initial hrun hopen
  obtain ⟨k, hk, _, hline⟩ := hstands .p2 (by rw [hpc]; nofun)
  exact ⟨tr, t, hrun, hgoes, k, hk, hline⟩

end YokaiNoMori.Progress
