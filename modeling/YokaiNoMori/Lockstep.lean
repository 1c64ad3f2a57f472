import YokaiNoMori.ClientDialogue
import YokaiNoMori.Match
import YokaiNoMori.ServerDialogue
import YokaiNoMori.ServerRuns

namespace YokaiNoMori.Lockstep

open ProtocolYokai Runs Serveur Match Conversation Dialogue ClientDialogue ServerDialogue

def noteLabel (os : Outcomes) : Label → Outcomes
  | .server e => note os e
  | .client _ _ => os

def outcomes (tr : List Label) : Outcomes := tr.foldl noteLabel []

@[simp] theorem outcomes_nil : outcomes [] = [] := rfl

@[simp] theorem outcomes_snoc (tr : List Label) (e : Label) : outcomes (tr ++ [e]) = noteLabel (outcomes tr) e := by
  simp [outcomes]

/-- Each client and the server are in step with each other. -/
structure Together (tr : List Label) (m : Match.State) : Prop where
  aligned : Aligned m.server (outcomes tr)
  consistent (p : Player) : Consistent (m.client p)
  inStep (p : Player) :
    InStep asks hears (clientView (m.client p)) (serverView m.server (outcomes tr) p) (m.up p) (m.down p)

@[simp] theorem noteLabel_server (os : Outcomes) (e : Serveur.Event) : noteLabel os (.server e) = note os e := rfl

@[simp] theorem noteLabel_client (os : Outcomes) (p : Player) (e : Client.Event) :
    noteLabel os (.client p e) = os := rfl

@[simp] theorem note_recv (os : Outcomes) (p : Player) (m : Msg) : note os (.recv p m) = os := rfl

@[simp] theorem note_send (os : Outcomes) (p : Player) (m : Msg) : note os (.send p m) = os := rfl

theorem together_initial {m : Match.State} (h : Match.Initial m) : Together [] m where
  aligned := by
    refine ⟨h.server.gameNumber, fun p => ?_, by simp [Placed, h.server.pc]⟩
    cases p <;> simp [TPartie.score, h.server.scorePlayer1, h.server.scorePlayer2]
  consistent p := by
    have hc := h.client p
    simp [Consistent, hc.pc, hc.nbPartie, hc.winFirstGame, hc.winSecondGame]
  inStep p := by
    simp only [clientView, (h.client p).pc, serverView, h.server.pc, h.up, h.down]
    exact .start _

/-- A step of client `p` leaves the other client and its channels as they are. -/
theorem together_client {tr : List Label} {m m' : Match.State} {p : Player} {e : Client.Event} {c : Client.State}
    (h : Together tr m) (hserver : m'.server = m.server) (hclient : m'.client = Function.update m.client p c)
    (hothers : ∀ q, q ≠ p → m'.up q = m.up q ∧ m'.down q = m.down q) (hcons : Consistent c)
    (hin : InStep asks hears (clientView c) (serverView m.server (outcomes tr) p) (m'.up p) (m'.down p)) :
    Together (tr ++ [.client p e]) m' := by
  refine ⟨by simpa [hserver] using h.aligned, ?_, fun q => ?_⟩
  · rw [hclient]
    exact (Function.forall_update_iff _ (fun _ => Consistent)).2 ⟨hcons, fun q _ => h.consistent q⟩
  · by_cases hq : q = p
    · subst q
      simpa [hserver, hclient] using hin
    · obtain ⟨hup, hdown⟩ := hothers q hq
      simpa [hserver, hclient, hup, hdown, hq] using h.inStep q

theorem together_step {tr : List Label} {m m' : Match.State} {e : Label} (h : Together tr m)
    (hstep : Match.Step m e m') : Together (tr ++ [e]) m' := by
  cases hstep with
  | serverRecv p msg rest s hup hs =>
      obtain ⟨v, hm, hin⟩ := (hup ▸ h.inStep p).symm.hear
      obtain ⟨haligned, hview, hothers⟩ := server_hears h.aligned hm hs
      rw [← hview] at hin
      refine ⟨by simpa using haligned, h.consistent, fun q => ?_⟩
      by_cases hq : q = p
      · subst q
        simpa using hin.symm
      · simpa [hq, hothers q hq] using h.inStep q
  | serverSend p msg s hs =>
      obtain ⟨haligned, hm, hothers⟩ := server_speaks h.aligned hs
      refine ⟨by simpa using haligned, h.consistent, fun q => ?_⟩
      by_cases hq : q = p
      · subst q
        simpa using ((h.inStep p).symm.say oneSpeaker.symm hm).symm
      · simpa [hq, hothers q hq] using h.inStep q
  | serverInside e s he hs =>
      obtain ⟨haligned, hview⟩ := server_works h.aligned he hs
      refine ⟨by simpa using haligned, h.consistent, fun q => ?_⟩
      simpa [hview q] using h.inStep q
  | clientRecv p msg rest c hdown hc =>
      obtain ⟨v, hm, hin⟩ := (hdown ▸ h.inStep p).hear
      obtain ⟨hcons, rfl⟩ := client_hears (h.consistent p) hm hc
      exact together_client h rfl rfl (fun q hq => by simp [hq]) hcons (by simpa using hin)
  | clientSend p msg c hc =>
      obtain ⟨hcons, hm⟩ := client_speaks (h.consistent p) hc
      have hin := (h.inStep p).say oneSpeaker hm
      exact together_client h rfl rfl (fun q hq => by simp [hq]) hcons (by simpa using hin)
  | clientAi p e c he hc =>
      obtain ⟨hcons, hview⟩ := client_works (h.consistent p) he hc
      have hin := h.inStep p
      rw [← hview] at hin
      exact together_client h rfl rfl (fun q _ => ⟨rfl, rfl⟩) hcons hin

theorem together {m₀ m : Match.State} {tr : List Label} (h₀ : Match.Initial m₀) (h : Run Match.Step m₀ tr m) :
    Together tr m :=
  h.invariant Together (together_initial h₀) (fun _ _ _ _ => together_step)

theorem asks_request {v w : View} {msg : Msg} (hv : v.phase = .request) (hm : asks v msg = some w) :
    ∃ req, msg = .partieReq req := by
  cases msg with
  | partieReq req => exact ⟨req, rfl⟩
  | _ => simp [asks, hv] at hm

theorem asks_move {v w : View} {msg : Msg} (hv : v.phase = .move) (hm : asks v msg = some w) :
    ∃ req, msg = .coupReq req ∧ req.numPartie = v.wins.length + 1 := by
  cases msg with
  | coupReq req =>
      refine ⟨req, rfl, ?_⟩
      simp only [asks, hv] at hm
      split at hm
      next hnum => exact hnum
      next => cases hm
  | _ => simp [asks, hv] at hm

theorem request_turn {s : Serveur.State} (os : Outcomes) {p : Player} (hpc : s.pc = .recvPartie p) :
    (serverView s os p).phase = .request := by
  cases p <;> simp only [serverView, hpc]
  rfl

theorem move_turn {s : Serveur.State} (os : Outcomes) {t : Turn} (hpc : s.pc = .recvCoup t) :
    serverView s os t.call.conn = playing .move t.call.conn os := by
  simp only [serverView, hpc, if_true]

theorem server_expects {s : Serveur.State} {os : Outcomes} {p playerId : Player} {msg : Msg} {v : View}
    (h : Aligned s os) (hpc : recvCheck s.pc = some (p, playerId)) (hm : asks (serverView s os p) msg = some v) :
    Serveur.Expects s.pc msg ∧ ∀ req, msg = .coupReq req → req.numPartie = s.game.gameNumber := by
  obtain ⟨_, hrecv | ⟨t, hrecv, rfl⟩⟩ := recvCheck_eq_some hpc
  · obtain ⟨req, rfl⟩ := asks_request (request_turn os hrecv) hm
    exact ⟨by rw [hrecv]; trivial, nofun⟩
  · rw [move_turn os hrecv] at hm
    obtain ⟨req, rfl, hnum⟩ := asks_move rfl hm
    refine ⟨by rw [hrecv]; trivial, fun _ hreq => ?_⟩
    obtain rfl := Msg.coupReq.inj hreq
    rw [hnum, h.gameNumber]
    simp [playing, winsOf]

theorem client_expects {c : Client.State} {msg : Msg} {v : View} (hpc : Client.Receiving c.pc)
    (hm : hears (clientView c) msg = some v) : Client.Expects c.pc msg := by
  cases hrecv : c.pc with
  | recvPartie | recvRep | recvEnnemyRep | recvEnnemyCoup =>
      simp only [clientView, hrecv] at hm
      cases msg with
      | _ => first | exact trivial | cases hm
  | _ => simp [hrecv, Client.Receiving] at hpc

theorem client_turn {c : Client.State} (hpc : Client.Receiving c.pc) :
    (clientView c).phase ≠ .request ∧ (clientView c).phase ≠ .move := by
  cases hrecv : c.pc with
  | recvPartie | recvRep | recvEnnemyRep | recvEnnemyCoup => simp [clientView, hrecv]
  | _ => simp [hrecv, Client.Receiving] at hpc

theorem server_turn {s : Serveur.State} (os : Outcomes) {p playerId : Player}
    (hpc : recvCheck s.pc = some (p, playerId)) :
    (serverView s os p).phase = .request ∨ (serverView s os p).phase = .move := by
  obtain ⟨_, hrecv | ⟨t, hrecv, rfl⟩⟩ := recvCheck_eq_some hpc
  · exact .inl (request_turn os hrecv)
  · exact .inr (by rw [move_turn os hrecv]; rfl)

theorem lockstep {m₀ m : Match.State} {tr : List Label} (h₀ : Match.Initial m₀) (h : Run Match.Step m₀ tr m) :
    (∀ p playerId msg rest, recvCheck m.server.pc = some (p, playerId) → m.up p = msg :: rest →
      Serveur.Expects m.server.pc msg ∧ ∀ req, msg = .coupReq req → req.numPartie = m.server.game.gameNumber) ∧
    (∀ p msg rest, Client.Receiving (m.client p).pc → m.down p = msg :: rest →
      Client.Expects (m.client p).pc msg) ∧
    ¬ ∃ p playerId, recvCheck m.server.pc = some (p, playerId) ∧ m.up p = [] ∧
      ∀ q, Client.Receiving (m.client q).pc ∧ m.down q = [] := by
  have hinv := together h₀ h
  refine ⟨?_, ?_, ?_⟩
  · intro p playerId msg rest hpc hup
    obtain ⟨v, hm, _⟩ := (hup ▸ hinv.inStep p).symm.hear
    exact server_expects hinv.aligned hpc hm
  · intro p msg rest hpc hdown
    obtain ⟨v, hm, _⟩ := (hdown ▸ hinv.inStep p).hear
    exact client_expects hpc hm
  · rintro ⟨p, playerId, hpc, hup, hclients⟩
    obtain ⟨hrecv, hdown⟩ := hclients p
    have hin := hinv.inStep p
    -- with nothing on its way, it is both the client's turn and the server's
    rw [hup, hdown] at hin
    have hturn := client_turn hrecv
    rw [hin.quiet] at hturn
    rcases server_turn (outcomes tr) hpc with hphase | hphase
    · exact hturn.1 hphase
    · exact hturn.2 hphase

def joueur : Client.State where
  pc := .sendPartie
  name := []
  nbPartie := 1
  sens := false
  winFirstGame := false
  winSecondGame := false
  coupIa := ⟨0, 0, 0, ServerRuns.start.moveReq.params⟩
  recvIa := ⟨0, 0, 0, ServerRuns.start.moveReq.params⟩
  repCoup := ServerRuns.start.moveRep

def kickoff : Match.State := ⟨ServerRuns.start, fun _ => joueur, fun _ => [], fun _ => []⟩

theorem kickoff_initial : Match.Initial kickoff :=
  ⟨ServerRuns.start_initial, fun _ => ⟨rfl, rfl, rfl, rfl⟩, fun _ => rfl, fun _ => rfl⟩

section ShortMatch

/-- The first player wins game 1 with its first move, and game 2 is a draw after
its first move. Three moments of game 2: nothing sent yet, the move on its way,
the answer on its way. -/
theorem shortMatch : ∃ tr m, (Run Match.Step kickoff tr m ∧ m.server.pc = .exited ∧ (∀ p, (m.client p).pc = .done) ∧
      outcomes tr = [some .p1, none]) ∧
    (∃ before u, Run Match.Step kickoff before u ∧ before <+: tr ∧
      u.server.pc = .recvCoup ⟨.player2First, .first⟩ ∧ u.up .p2 = []) ∧
    (∃ before u req, Run Match.Step kickoff before u ∧ before <+: tr ∧
      u.server.pc = .recvCoup ⟨.player2First, .first⟩ ∧ u.up .p2 = [.coupReq req] ∧ u.server.game.gameNumber = 2) ∧
    ∃ before u rep, Run Match.Step kickoff before u ∧ before <+: tr ∧
      (u.client .p1).pc = .recvEnnemyRep ⟨.game2, .second⟩ ∧ u.down .p1 = [.coupRep rep] := by
  have h : Run Match.Step kickoff [] kickoff := .nil
  have h := h.snoc (.clientSend _ .p1 _ _ (.sendPartie _ rfl))
  have h := h.snoc (.clientSend _ .p2 _ _ (.sendPartie _ rfl))
  have h := h.snoc (.serverRecv _ .p1 _ _ _ rfl (.recvPartie1 _ _ rfl))
  have h := h.snoc (.serverRecv _ .p2 _ _ _ rfl (.recvPartie2 _ _ rfl))
  have h := h.snoc (.serverSend _ .p1 _ _ (.sendPartie1 _ rfl))
  have h := h.snoc (.serverSend _ .p2 _ _ (.sendPartie2 _ rfl))
  have h := h.snoc (.serverInside _ .initialiserPartie _ trivial (.initialise _ rfl))
  have h := h.snoc (.clientRecv _ .p1 _ _ _ rfl (.recvPartie _ _ rfl))
  have h := h.snoc (.clientRecv _ .p2 _ _ _ rfl (.recvPartie _ _ rfl))
  have h := h.snoc (.clientAi _ .p1 (.sendSens _) _ trivial (.sendSens _ rfl))
  have h := h.snoc (.clientAi _ .p2 (.sendSens _) _ trivial (.sendSens _ rfl))
  -- game 1
  have h := h.snoc (.clientAi _ .p1 (.getCoupFromAI joueur.coupIa) _ trivial (.getCoup _ _ _ rfl))
  have h := h.snoc (.clientSend _ .p1 _ _ (.sendCoup _ _ ServerRuns.start.moveReq rfl))
  have h := h.snoc (.serverRecv _ .p1 _ _ _ rfl (.recvCoup _ ⟨.player1First, .first⟩ _ rfl))
  have h := h.snoc (.serverInside _ (.validationCoup _ _ _ _) _ trivial (.validate _ _ true .gagne rfl))
  have h := h.snoc (.serverSend _ .p1 _ _ (.sendMover _ ⟨.player1First, .first⟩ rfl))
  have h := h.snoc (.serverSend _ .p2 _ _ (.sendOther _ ⟨.player1First, .first⟩ rfl))
  have h := h.snoc (.serverInside _ .initialiserPartie _ trivial (.restart _ _ rfl))
  have h := h.snoc (.serverInside _ (.store _ _ _ _) _ trivial (.store _ _ rfl))
  have h := h.snoc (.clientRecv _ .p1 _ _ _ rfl (.recvRep _ _ _ rfl))
  have h := h.snoc (.clientAi _ .p1 (.sendCoupToAI _) _ trivial (.notify _ _ rfl))
  have h := h.snoc (.clientRecv _ .p2 _ _ _ rfl (.recvEnnemyRep _ _ _ joueur.recvIa ServerRuns.start.moveReq rfl))
  have h := h.snoc (.clientAi _ .p2 (.sendCoupToAI _) _ trivial (.notifyEnnemy _ _ rfl))
  -- game 2
  have hwaiting := h
  have h := h.snoc (.clientAi _ .p2 (.getCoupFromAI joueur.coupIa) _ trivial (.getCoup _ _ _ rfl))
  have h := h.snoc (.clientSend _ .p2 _ _ (.sendCoup _ _ ServerRuns.start.moveReq rfl))
  have hmove := h
  have h := h.snoc (.serverRecv _ .p2 _ _ _ rfl (.recvCoup _ ⟨.player2First, .first⟩ _ rfl))
  have h := h.snoc (.serverInside _ (.validationCoup _ _ _ _) _ trivial (.validate _ _ true .nul rfl))
  have h := h.snoc (.serverSend _ .p2 _ _ (.sendMover _ ⟨.player2First, .first⟩ rfl))
  have h := h.snoc (.serverSend _ .p1 _ _ (.sendOther _ ⟨.player2First, .first⟩ rfl))
  have hanswer := h
  have h := h.snoc (.serverInside _ .initialiserPartie _ trivial (.restart _ _ rfl))
  have h := h.snoc (.serverInside _ (.store _ _ _ _) _ trivial (.store _ _ rfl))
  have h := h.snoc (.clientRecv _ .p2 _ _ _ rfl (.recvRep _ _ _ rfl))
  have h := h.snoc (.clientAi _ .p2 (.sendCoupToAI _) _ trivial (.notify _ _ rfl))
  have h := h.snoc (.clientRecv _ .p1 _ _ _ rfl (.recvEnnemyRep _ _ _ joueur.recvIa ServerRuns.start.moveReq rfl))
  have h := h.snoc (.clientAi _ .p1 (.sendCoupToAI _) _ trivial (.notifyEnnemy _ _ rfl))
  have h := h.snoc (.serverInside _ (.endGame _) _ trivial (.endGame _ rfl))
  refine ⟨_, _, ⟨h, rfl, fun p => by cases p <;> rfl, rfl⟩, ⟨_, _, hwaiting, ?_, rfl, rfl⟩,
    ⟨_, _, _, hmove, ?_, rfl, rfl, rfl⟩, ⟨_, _, _, hanswer, ?_, rfl, rfl⟩⟩ <;>
  repeat' first | exact List.prefix_rfl | apply List.prefix_append_of_prefix

theorem lockstep_shortMatch : ∃ tr m, (Run Match.Step kickoff tr m ∧ m.server.pc = .exited) ∧
    (∃ before u q, Run Match.Step kickoff before u ∧ before <+: tr ∧ u.up .p2 = [] ∧
      ¬ (Client.Receiving (u.client q).pc ∧ u.down q = [])) ∧
    (∃ before u req, Run Match.Step kickoff before u ∧ before <+: tr ∧ u.up .p2 = [.coupReq req] ∧
      Serveur.Expects u.server.pc (.coupReq req) ∧ req.numPartie = 2) ∧
    ∃ before u rep, Run Match.Step kickoff before u ∧ before <+: tr ∧ u.down .p1 = [.coupRep rep] ∧
      Client.Expects (u.client .p1).pc (.coupRep rep) := by
  obtain ⟨tr, m, ⟨h, hserver, _, _⟩, hwaiting, hmove, hanswer⟩ := shortMatch
  refine ⟨tr, m, ⟨h, hserver⟩, ?_, ?_, ?_⟩
  · obtain ⟨before, u, hrun, hbefore, hpc, hup⟩ := hwaiting
    have hfree := (lockstep kickoff_initial hrun).2.2
    obtain ⟨q, hq⟩ : ∃ q, ¬ (Client.Receiving (u.client q).pc ∧ u.down q = []) := by
      by_contra hblocked
      exact hfree ⟨.p2, .p2, by rw [hpc]; rfl, hup, by simpa using hblocked⟩
    exact ⟨before, u, q, hrun, hbefore, hup, hq⟩
  · obtain ⟨before, u, req, hrun, hbefore, hpc, hup, hnumber⟩ := hmove
    obtain ⟨hexpects, hnum⟩ := (lockstep kickoff_initial hrun).1 .p2 .p2 _ [] (by rw [hpc]; rfl) hup
    refine ⟨before, u, req, hrun, hbefore, hup, hexpects, ?_⟩
    rw [hnum req rfl, hnumber]
  · obtain ⟨before, u, rep, hrun, hbefore, hpc, hdown⟩ := hanswer
    have hreceiving : Client.Receiving (u.client .p1).pc := by rw [hpc]; trivial
    exact ⟨before, u, rep, hrun, hbefore, hdown, (lockstep kickoff_initial hrun).2.1 .p1 _ [] hreceiving hdown⟩

end ShortMatch

end YokaiNoMori.Lockstep
