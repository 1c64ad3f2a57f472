import YokaiNoMori.Dialogue
import YokaiNoMori.ServerHistory

namespace YokaiNoMori.ServerDialogue

open ProtocolYokai Serveur ServerHistory Dialogue
open CString (overwrite)

/-- The player who scored in each finished game, if any. -/
abbrev Outcomes := List (Option Player)

def note (os : Outcomes) : Event → Outcomes
  | .store t prop _ _ => os ++ [credited t.call.conn prop]
  | _ => os

def winsOf (p : Player) (os : Outcomes) : List Bool := os.map (fun o => decide (o = some p))

def playing (phase : Phase) (p : Player) (os : Outcomes) : View := ⟨phase, decide (p = .p1), winsOf p os⟩

def between (p : Player) (os : Outcomes) : View := opening (decide (p = .p1)) (winsOf p os)

/-- The conversation with `p`, seen from the server. -/
def serverView (s : State) (os : Outcomes) (p : Player) : View :=
  match s.pc with
  | .recvPartie .p1 => ⟨.request, false, []⟩
  | .recvPartie .p2 => ⟨if p = .p1 then .reply else .request, false, []⟩
  | .sendPartie .p1 => ⟨.reply, false, []⟩
  | .sendPartie .p2 => if p = .p1 then between p os else ⟨.reply, false, []⟩
  | .initialise | .closing | .exited | .killed => between p os
  | .recvCoup t => playing (if p = t.call.conn then .move else .listen) p os
  | .validate t | .sendMover t => playing (if p = t.call.conn then .answer else .listen) p os
  | .sendOther t =>
      if p = t.call.conn ∧ s.moveRep.propCoup ≠ .cont then between p (os ++ [credited t.call.conn s.moveRep.propCoup])
      else playing .listen p os
  | .relay t => playing (if p = t.call.conn then .listen else .relay) p os
  | .restart t | .store t => between p (os ++ [credited t.call.conn s.moveRep.propCoup])

/-- Both clients have asked for the south. -/
def Placed (s : State) (os : Outcomes) : Prop :=
  match s.pc with
  | .recvPartie .p1 => os = []
  | .recvPartie .p2 => os = [] ∧ s.player1.idReq = .partie ∧ s.player1.piece = .sud
  | .sendPartie .p1 => os = [] ∧ s.res = 1 ∧ s.answerP1.validSensTete = .ok ∧ s.answerP2.validSensTete = .ko
  | .sendPartie .p2 => os = [] ∧ s.res = 1 ∧ s.answerP2.validSensTete = .ko
  | .initialise => os = [] ∧ s.player1Sud = true
  | .closing | .exited => os.length = 2
  | .killed => False
  | .relay t => s.player1Sud = true ∧ os.length < 2 ∧ t.round = chooseRound true s.game.gameNumber ∧
      s.moveRep.propCoup = .cont
  | .restart t | .store t => s.player1Sud = true ∧ os.length < 2 ∧
      t.round = chooseRound true s.game.gameNumber ∧ s.moveRep.propCoup ≠ .cont
  | .recvCoup t | .validate t | .sendMover t | .sendOther t =>
      s.player1Sud = true ∧ os.length < 2 ∧ t.round = chooseRound true s.game.gameNumber

structure Aligned (s : State) (os : Outcomes) : Prop where
  gameNumber : s.game.gameNumber = os.length + 1
  scores (p : Player) : s.game.score p = os.count (some p)
  placed : Placed s os

theorem winsOf_concat (p : Player) (os : Outcomes) (o : Option Player) :
    winsOf p (os ++ [o]) = winsOf p os ++ [decide (o = some p)] := by
  simp [winsOf]

theorem credited_mover (mover : Player) (prop : TPropCoup) :
    decide (credited mover prop = some mover) = decide (prop = .gagne) := by
  cases prop <;> cases mover <;> rfl

theorem credited_other (mover : Player) (prop : TPropCoup) :
    decide (credited mover prop = some mover.other) = decide (prop = .perdu) := by
  cases prop <;> cases mover <;> rfl

theorem between_first {s : State} {os : Outcomes} (hos : os.length < 2) (hnum : s.game.gameNumber = os.length + 1)
    (p : Player) : between p os =
      playing (if p = (Turn.mk (chooseRound true s.game.gameNumber) .first).call.conn then .move else .listen) p os := by
  rw [hnum]
  match os with
  | [] => cases p <;> rfl
  | [o] => cases p <;> rfl

variable {s s' : State} {os : Outcomes}

theorem Aligned.frame (h : Aligned s os) (hnum : s'.game.gameNumber = s.game.gameNumber)
    (hscore : ∀ p, s'.game.score p = s.game.score p) (hplaced : Placed s' os) : Aligned s' os where
  gameNumber := hnum.trans h.gameNumber
  scores p := (hscore p).trans (h.scores p)
  placed := hplaced

/-- At the top of the main loop the next game is about to start, or goes on
with a move of the player who started it. -/
theorem top_dialogue (hpc : s.pc = loopTop true s.game.gameNumber) (hsud : s.player1Sud = true)
    (hos : os.length < 2) (hnum : s.game.gameNumber = os.length + 1) :
    Placed s os ∧ ∀ p, serverView s os p = between p os := by
  have htop : loopTop true s.game.gameNumber = .recvCoup ⟨chooseRound true s.game.gameNumber, .first⟩ := by
    rw [loopTop, if_pos (by omega)]
  rw [htop] at hpc
  simp only [Placed, serverView, hpc]
  exact ⟨⟨hsud, hos, trivial⟩, fun p => (between_first hos hnum p).symm⟩

theorem sendAnswers_sud {req1 req2 : TPartieReq} (answerP1 answerP2 : TPartieRep) (hid1 : req1.idReq = .partie)
    (hsud1 : req1.piece = .sud) (hid2 : req2.idReq = .partie) (hsud2 : req2.piece = .sud) :
    sendAnswers req1 req2 answerP1 answerP2 =
      (1, ⟨.errOk, overwrite 0 answerP1.nomAdvers req2.nomJoueur, .ok⟩,
        ⟨.errOk, overwrite 0 answerP2.nomAdvers req1.nomJoueur, .ko⟩) := by
  simp [sendAnswers, hid1, hsud1, hid2, hsud2]

theorem server_hears {p : Player} {m : Msg} {v : View} (h : Aligned s os)
    (hm : asks (serverView s os p) m = some v) (hstep : Step s (.recv p m) s') :
    Aligned s' os ∧ serverView s' os p = v ∧ ∀ q, q ≠ p → serverView s' os q = serverView s os q := by
  have hplaced := h.placed
  cases hstep with
  | recvPartie1 req hpc =>
      simp only [Placed, hpc] at hplaced
      simp only [serverView, hpc, asks] at hm
      split at hm
      next hreq =>
        refine ⟨h.frame rfl (fun _ => rfl) ⟨hplaced, hreq⟩, Option.some.inj hm, fun q hq => ?_⟩
        simp [serverView, hpc, hq]
      next => cases hm
  | recvPartie2 req hpc =>
      simp only [Placed, hpc] at hplaced
      obtain ⟨hos, hid, hpiece⟩ := hplaced
      have hp2 : Player.p2 ≠ .p1 := by decide
      simp only [serverView, hpc, asks, if_neg hp2] at hm
      split at hm
      next hreq =>
        have hanswers := sendAnswers_sud s.answerP1 s.answerP2 hid hpiece hreq.1 hreq.2
        refine ⟨h.frame rfl (fun _ => rfl) ?_, Option.some.inj hm, fun q hq => ?_⟩
        · simp only [Placed, State.answer, hanswers]
          exact ⟨hos, trivial, trivial, trivial⟩
        · cases q with
          | p1 => simp only [serverView, State.answer, hpc, if_true]
          | p2 => exact absurd rfl hq
      next => cases hm
  | recvCoup t req hpc =>
      simp only [Placed, hpc] at hplaced
      simp only [serverView, hpc, asks, playing, if_true] at hm
      split at hm
      next hnum =>
        refine ⟨h.frame rfl (fun _ => rfl) hplaced, ?_, fun q hq => ?_⟩
        · rw [← Option.some.inj hm]
          simp [serverView, playing]
        · simp [serverView, hpc, hq]
      next => cases hm

theorem ne_conn {p q : Player} (h : q ≠ p) : q = p.other := by
  cases p <;> cases q <;> first | rfl | exact absurd rfl h

theorem other_ne (p : Player) : p.other ≠ p := by
  cases p <;> nofun

theorem continue_dialogue {t : Turn} (hpc : s.pc = .relay t) (h : Aligned s os) :
    Aligned (s.continue t) os ∧
      ∀ p, serverView (s.continue t) os p = playing (if p = t.call.conn then .listen else .move) p os := by
  have hplaced := h.placed
  simp only [Placed, hpc] at hplaced
  obtain ⟨hsud, hos, hround, hprop⟩ := hplaced
  rcases t with ⟨r, _ | _⟩
  · refine ⟨h.frame rfl (fun _ => rfl) ⟨hsud, hos, hround⟩, fun p => ?_⟩
    cases r <;> cases p <;> rfl
  · obtain rfl : r = _ := hround
    obtain ⟨hplaced, hview⟩ := top_dialogue (s := s.iterate s.game) (by rw [← hsud]; rfl) hsud hos h.gameNumber
    refine ⟨h.frame rfl (fun p => by cases p <;> rfl) hplaced, fun p => ?_⟩
    rw [State.continue, hview, between_first hos h.gameNumber]
    cases chooseRound true s.game.gameNumber <;> cases p <;> rfl

theorem hears_answer (mover : Player) (os : Outcomes) (rep : TCoupRep) :
    hears (playing .answer mover os) (.coupRep rep) =
      some (if rep.propCoup ≠ .cont then between mover (os ++ [credited mover rep.propCoup])
        else playing .listen mover os) := by
  by_cases hprop : rep.propCoup = .cont
  · simp [hears, playing, hprop]
  · simp only [hears, playing, between, winsOf_concat, credited_mover, hprop, ne_eq, not_false_eq_true, if_true,
      if_false]

theorem hears_listen (mover : Player) (os : Outcomes) (rep : TCoupRep) :
    hears (playing .listen mover.other os) (.coupRep rep) =
      some (if rep.propCoup = .cont then playing .relay mover.other os
        else between mover.other (os ++ [credited mover rep.propCoup])) := by
  by_cases hprop : rep.propCoup = .cont
  · simp [hears, playing, hprop]
  · simp only [hears, playing, between, winsOf_concat, credited_other, hprop, if_false]

theorem server_speaks {p : Player} {m : Msg} (h : Aligned s os) (hstep : Step s (.send p m) s') :
    Aligned s' os ∧ hears (serverView s os p) m = some (serverView s' os p) ∧
      ∀ q, q ≠ p → serverView s' os q = serverView s os q := by
  have hplaced := h.placed
  cases hstep with
  | sendPartie1 hpc =>
      simp only [Placed, hpc] at hplaced
      obtain ⟨rfl, hres, hok, hko⟩ := hplaced
      refine ⟨h.frame rfl (fun _ => rfl) ⟨rfl, hres, hko⟩, ?_, fun q hq => ?_⟩
      · simp [serverView, hpc, hears, hok, between, winsOf]
      · simp [serverView, hpc, hq]
  | sendPartie2 hpc =>
      simp only [Placed, hpc] at hplaced
      obtain ⟨rfl, hres, hko⟩ := hplaced
      have hpc' : s.orient.pc = .initialise := by simp [State.orient, hres]
      refine ⟨h.frame (orient_gameNumber s) (orient_score s) ?_, ?_, fun q hq => ?_⟩
      · simp [Placed, State.orient, hres]
      · simp [serverView, hpc, hpc', hears, hko, between, winsOf]
      · obtain rfl := ne_conn hq
        simp [serverView, hpc, hpc', Player.other]
  | sendMover t hpc =>
      simp only [Placed, hpc] at hplaced
      rw [call_sock1]
      refine ⟨h.frame rfl (fun _ => rfl) hplaced, ?_, fun q hq => ?_⟩
      · simp only [serverView, hpc, if_true, hears_answer, true_and]
      · simp [serverView, hpc, hq]
  | sendOther t hpc =>
      simp only [Placed, hpc] at hplaced
      rw [call_sock2]
      have hother := other_ne t.call.conn
      by_cases hprop : s.moveRep.propCoup = .cont
      · simp only [hprop, if_true]
        refine ⟨h.frame rfl (fun _ => rfl) ⟨hplaced.1, hplaced.2.1, hplaced.2.2, hprop⟩, ?_, fun q hq => ?_⟩
        · simp [serverView, hpc, hears_listen, hprop, hother]
        · obtain rfl := ne_conn hq
          simp [serverView, hpc, hprop]
      · simp only [hprop, if_false]
        refine ⟨h.frame rfl (fun _ => rfl) ⟨hplaced.1, hplaced.2.1, hplaced.2.2, hprop⟩, ?_, fun q hq => ?_⟩
        · simp [serverView, hpc, hears_listen, hprop, hother]
        · obtain rfl := ne_conn hq
          simp [serverView, hpc, hprop]
  | relay t hpc =>
      simp only [Placed, hpc] at hplaced
      obtain ⟨haligned, hview⟩ := continue_dialogue hpc h
      refine ⟨haligned, ?_, fun q hq => ?_⟩
      · rw [hview]
        simp [serverView, hpc, hears, playing, other_ne]
      · rw [call_sock2] at hq
        obtain rfl := ne_conn hq
        rw [hview]
        simp [serverView, hpc]

theorem storeScore_aligned (t : Turn) (prop : TPropCoup) (h : Aligned s os) :
    (storeScore t prop s.game).gameNumber = (os ++ [credited t.call.conn prop]).length + 1 ∧
      ∀ p, (storeScore t prop s.game).score p = (os ++ [credited t.call.conn prop]).count (some p) := by
  refine ⟨by rw [storeScore_gameNumber, h.gameNumber]; simp, fun p => ?_⟩
  rw [storeScore_score, h.scores, List.count_append, List.count_singleton]
  simp

theorem server_works {e : Event} (h : Aligned s os) (he : Inside e) (hstep : Step s e s') :
    Aligned s' (note os e) ∧ ∀ p, serverView s' (note os e) p = serverView s os p := by
  have hplaced := h.placed
  cases hstep with
  | recvPartie1 | recvPartie2 | sendPartie1 | sendPartie2 | recvCoup | sendMover | sendOther | relay | recvError
  | sendError | sigpipe => exact he.elim
  | initialise hpc =>
      simp only [Placed, hpc] at hplaced
      obtain ⟨rfl, hsud⟩ := hplaced
      obtain ⟨hplaced, hview⟩ := top_dialogue (s := { s with pc := loopTop s.player1Sud s.game.gameNumber })
        (by rw [← hsud]) hsud (by simp) h.gameNumber
      exact ⟨h.frame rfl (fun _ => rfl) hplaced, fun p => (hview p).trans (by simp only [serverView, hpc])⟩
  | validate t valid prop hpc =>
      simp only [Placed, hpc] at hplaced
      exact ⟨h.frame rfl (fun _ => rfl) hplaced, fun p => by simp only [serverView, hpc]; rfl⟩
  | restart t hpc =>
      simp only [Placed, hpc] at hplaced
      exact ⟨h.frame rfl (fun _ => rfl) hplaced, fun p => by simp only [serverView, hpc]; rfl⟩
  | store t hpc =>
      simp only [Placed, hpc] at hplaced
      obtain ⟨hnum, hscores⟩ := storeScore_aligned t s.moveRep.propCoup h
      simp only [State.finish]
      split
      next hend =>
        have hlength : (os ++ [credited t.call.conn s.moveRep.propCoup]).length = 2 := by omega
        exact ⟨⟨hnum, hscores, hlength⟩, fun p => by simp only [serverView, hpc]; rfl⟩
      next hend =>
        have hlength : (os ++ [credited t.call.conn s.moveRep.propCoup]).length < 2 := by
          simp only [List.length_append, List.length_singleton] at hnum ⊢
          omega
        obtain ⟨hplaced', hview⟩ := top_dialogue (s := s.iterate (storeScore t s.moveRep.propCoup s.game))
          (by rw [← hplaced.1]; rfl) hplaced.1 hlength hnum
        refine ⟨⟨hnum, fun p => ?_, hplaced'⟩, fun p => (hview p).trans (by simp only [serverView, hpc])⟩
        exact Eq.trans (by cases p <;> rfl) (hscores p)
  | endGame hpc =>
      simp only [Placed, hpc] at hplaced
      exact ⟨h.frame rfl (fun _ => rfl) hplaced, fun p => by simp only [serverView, hpc]; rfl⟩

end YokaiNoMori.ServerDialogue
