import YokaiNoMori.Channels
import YokaiNoMori.Handling
import YokaiNoMori.Strikes

namespace YokaiNoMori.Carriers

open ProtocolYokai Runs Serveur Match Handling Channels Strikes Conveyor

/-! The parts of a match that hold moves on their way, as long as the referee
lets the game continue. -/

/-- The move of `p` that the server has received and not passed on yet. -/
def holding (p : Player) (s : Serveur.State) : List Strike :=
  match s.pc with
  | .validate t | .sendMover t | .sendOther t | .relay t => if t.call.conn = p then [reqStrike s.moveReq] else []
  | _ => []

def Continuing (s : Serveur.State) : Prop :=
  ∀ t, s.pc = .sendMover t ∨ s.pc = .sendOther t → s.moveRep.propCoup = .cont

def ServerStep (s : Serveur.State) (e : Serveur.Event) (t : Serveur.State) : Prop :=
  Continuing s ∧ Succeeds e ∧ Serveur.Step s e t

theorem holding_vacant {s : Serveur.State} (p : Player) (h : Vacant s.pc) : holding p s = [] := by
  cases hpc : s.pc with
  | validate t | sendMover t | sendOther t | relay t =>
      rw [hpc] at h
      exact h.elim
  | _ => rw [holding, hpc]

theorem greeting_strikes (m : Msg) (h : Greeting m) : msgStrikes m = [] := by
  cases m with
  | coupReq => exact h.elim
  | _ => rfl

/-- The server passes the moves of `p` on to the other player. -/
theorem server_conveys (p : Player) :
    Conveys Displaces ServerStep (fun s xs => xs = holding p s) (received msgStrikes p)
      (relayed msgStrikes p.other) := by
  apply Conveys.of_eq
  rintro s e d ⟨hcont, hcall, hstep⟩ _
  cases server_handles hcall hstep with
  | take t d hvacant hpc =>
      rw [holding_vacant p hvacant]
      simp only [holding, hpc, received, relayed, msgStrikes, List.nil_append]
  | judge t valid prop hpc =>
      simp only [holding, hpc, received, relayed, State.judge, List.append_nil, List.nil_append]
  | tellMover t hpc =>
      simp only [holding, hpc, received, relayed, msgStrikes, ite_self, List.append_nil, List.nil_append]
  | tellOther t hpc hprop =>
      simp only [holding, hpc, received, relayed, msgStrikes, ite_self, List.append_nil, List.nil_append]
  | tellEnd t hpc hprop => exact absurd (hcont t (.inr hpc)) hprop
  | relay t d hpc hvacant =>
      rw [holding_vacant p hvacant]
      simp only [holding, hpc, received, relayed, msgStrikes, other_inj, List.append_nil]
  | rest e d hvacant hvacant' hquiet =>
      rw [holding_vacant p hvacant, holding_vacant p hvacant', received_quiet _ p greeting_strikes hquiet,
        relayed_quiet _ p.other greeting_strikes hquiet]

def got : Client.Event → List Strike
  | .getCoupFromAI ia => [iaStrike ia]
  | _ => []

def forwarded : Client.Event → List Strike
  | .sendCoupToAI ia => [iaStrike ia]
  | _ => []

def outgoing (c : Client.State) : List Strike :=
  match c.pc with
  | .sendCoup _ => [iaStrike c.coupIa]
  | _ => []

def incoming (c : Client.State) : List Strike :=
  match c.pc with
  | .forward _ => [iaStrike c.recvIa]
  | _ => []

/-- The client has not been told of the end of a game. -/
structure InPlay (c : Client.State) : Prop where
  notify (b : Client.Branch) : c.pc ≠ .notify b
  notifyEnnemy (b : Client.Branch) : c.pc ≠ .notifyEnnemy b
  finPartie (b : Client.Branch) (hpc : c.pc = .forward b) : c.recvIa.finPartie = 0

def GoesOn (e : Client.Event) : Prop := ∀ rep, e = .recv (.coupRep rep) → rep.propCoup = .cont

def ClientStep (c : Client.State) (e : Client.Event) (d : Client.State) : Prop :=
  InPlay c ∧ GoesOn e ∧ Client.Step c e d

/-- The client holds no move and has no end of game to tell. -/
structure Free (pc : Client.Pc) : Prop where
  sendCoup (b : Client.Branch) : pc ≠ .sendCoup b
  forward (b : Client.Branch) : pc ≠ .forward b
  notify (b : Client.Branch) : pc ≠ .notify b
  notifyEnnemy (b : Client.Branch) : pc ≠ .notifyEnnemy b

theorem free_loopTop (g : Client.Game) (sens : Bool) (nbPartie : Nat) : Free (Client.loopTop g sens nbPartie) := by
  cases g <;> simp only [Client.loopTop, Client.loop1, Client.loop2] <;> split_ifs <;>
    exact ⟨nofun, nofun, nofun, nofun⟩

theorem free_answered {c : Client.State} {b : Client.Branch} {rep : TCoupRep} (h : rep.propCoup = .cont) :
    Free (c.answered b rep).pc := by
  rw [Client.State.answered, if_neg (not_not.2 h)]
  split
  · exact ⟨nofun, nofun, nofun, nofun⟩
  · exact free_loopTop _ _ _

theorem free_forwarded (c : Client.State) (b : Client.Branch) : Free (c.forwarded b).pc := by
  rw [Client.State.forwarded]
  split
  · exact free_loopTop _ _ _
  · exact ⟨nofun, nofun, nofun, nofun⟩

/-- What a client does with the moves as long as the game continues. -/
inductive Handles (c : Client.State) : Client.Event → Client.State → Prop
  | take (b) (d : Client.State) (hfree : Free c.pc) (hpc : d.pc = .sendCoup b) : Handles c (.getCoupFromAI d.coupIa) d
  | ask (b) (req) (d : Client.State) (hpc : c.pc = .sendCoup b) (hfree : Free d.pc) :
      Handles c (.send (.coupReq (convertAItoServer c.coupIa req c.sens c.nbPartie))) d
  | hear (b) (recvIa) (coup) (d : Client.State) (hfree : Free c.pc) (hpc : d.pc = .forward b)
      (hrecv : d.recvIa = convertServerToAI recvIa coup false) : Handles c (.recv (.coupReq coup)) d
  | pass (b) (d : Client.State) (hpc : c.pc = .forward b) (hfree : Free d.pc) : Handles c (.sendCoupToAI c.recvIa) d
  | rest (e) (d : Client.State) (hfree : Free c.pc) (hfree' : Free d.pc)
      (hquiet : got e = [] ∧ asked msgStrikes e = []) (hquiet' : heard msgStrikes e = [] ∧ forwarded e = []) : Handles c e d

theorem client_handles {c d : Client.State} {e : Client.Event} (h : ClientStep c e d) : Handles c e d := by
  obtain ⟨hplay, hgo, hstep⟩ := h
  have hfree (hcoup : ∀ b, c.pc ≠ .sendCoup b) (hforward : ∀ b, c.pc ≠ .forward b) : Free c.pc :=
    ⟨hcoup, hforward, hplay.notify, hplay.notifyEnnemy⟩
  cases hstep with
  | sendPartie hpc | recvPartie _ hpc =>
      exact .rest _ _ (hfree (by simp [hpc]) (by simp [hpc])) ⟨nofun, nofun, nofun, nofun⟩ ⟨rfl, rfl⟩ ⟨rfl, rfl⟩
  | sendSens hpc =>
      exact .rest _ _ (hfree (by simp [hpc]) (by simp [hpc])) (free_loopTop .game1 _ _) ⟨rfl, rfl⟩ ⟨rfl, rfl⟩
  | getCoup b coupIa hpc =>
      exact .take b { c with coupIa := coupIa, pc := .sendCoup b } (hfree (by simp [hpc]) (by simp [hpc])) rfl
  | sendCoup b req hpc => exact .ask b req _ hpc ⟨nofun, nofun, nofun, nofun⟩
  | recvRep b rep hpc =>
      exact .rest _ _ (hfree (by simp [hpc]) (by simp [hpc])) (free_answered (hgo rep rfl)) ⟨rfl, rfl⟩ ⟨rfl, rfl⟩
  | notify b hpc => exact absurd hpc (hplay.notify b)
  | recvEnnemyRep b rep recvIa coup hpc =>
      refine .rest _ _ (hfree (by simp [hpc]) (by simp [hpc])) ?_ ⟨rfl, rfl⟩ ⟨rfl, rfl⟩
      rw [Client.State.ennemyAnswered, if_pos (hgo rep rfl)]
      exact ⟨nofun, nofun, nofun, nofun⟩
  | recvEnnemyCoup b recvIa coup hpc =>
      exact .hear b recvIa coup _ (hfree (by simp [hpc]) (by simp [hpc])) rfl rfl
  | notifyEnnemy b hpc => exact absurd hpc (hplay.notifyEnnemy b)
  | forward b hpc => exact .pass b _ hpc (free_forwarded c b)

theorem outgoing_free {c : Client.State} (h : Free c.pc) : outgoing c = [] := by
  rw [outgoing]
  split
  · rename_i b hpc
    exact absurd hpc (h.sendCoup b)
  · rfl

theorem incoming_free {c : Client.State} (h : Free c.pc) : incoming c = [] := by
  rw [incoming]
  split
  · rename_i b hpc
    exact absurd hpc (h.forward b)
  · rfl

/-- The client sends its server the moves of its AI. -/
theorem outgoing_conveys : Conveys Displaces ClientStep (fun c xs => xs = outgoing c) got (asked msgStrikes) := by
  apply Conveys.of_eq
  intro c e d hstep hok
  cases client_handles hstep with
  | take b d hfree hpc => rw [outgoing_free hfree, outgoing, hpc]; rfl
  | ask b req d hpc hfree =>
      have hheld : outgoing c = [iaStrike c.coupIa] := by rw [outgoing, hpc]
      have hia := hok (iaStrike c.coupIa) (by rw [hheld]; exact List.mem_cons_self)
      rw [outgoing_free hfree, hheld, asked, msgStrikes, toServer_strike hia]
      rfl
  | hear b recvIa coup d hfree hpc hrecv =>
      rw [outgoing_free hfree, outgoing, hpc]
      rfl
  | pass b d hpc hfree => rw [outgoing_free hfree, outgoing, hpc]; rfl
  | rest e d hfree hfree' hquiet hquiet' =>
      rw [outgoing_free hfree, outgoing_free hfree', hquiet.1, hquiet.2]

/-- And it gives its AI the moves that the server relays. -/
theorem incoming_conveys : Conveys Displaces ClientStep (fun c xs => xs = incoming c) (heard msgStrikes) forwarded := by
  apply Conveys.of_eq
  intro c e d hstep hok
  cases client_handles hstep with
  | take b d hfree hpc =>
      rw [incoming_free hfree, incoming, hpc]
      rfl
  | ask b req d hpc hfree =>
      rw [incoming_free hfree, incoming, hpc]
      rfl
  | hear b recvIa coup d hfree hpc hrecv =>
      have hreq : Displaces (reqStrike coup) := hok (reqStrike coup) (List.mem_append_right _ List.mem_cons_self)
      rw [incoming_free hfree, incoming, hpc, hrecv]
      exact congrArg (fun k => [k]) (toAI_strike hreq recvIa false).symm
  | pass b d hpc hfree =>
      rw [incoming_free hfree, incoming, hpc]
      rfl
  | rest e d hfree hfree' hquiet hquiet' =>
      rw [incoming_free hfree, incoming_free hfree', hquiet'.1, hquiet'.2]

theorem inPlay_step {c d : Client.State} {e : Client.Event} (h : ClientStep c e d) : InPlay d := by
  have hplay (hfree : Free d.pc) : InPlay d :=
    ⟨hfree.notify, hfree.notifyEnnemy, fun b hpc => absurd hpc (hfree.forward b)⟩
  cases client_handles h with
  | take b d hfree hpc => exact ⟨by simp [hpc], by simp [hpc], by simp [hpc]⟩
  | ask b req d hpc hfree | pass b d hpc hfree => exact hplay hfree
  | hear b recvIa coup d hfree hpc hrecv =>
      refine ⟨by simp [hpc], by simp [hpc], fun _ _ => ?_⟩
      rw [hrecv]
      rfl
  | rest e d hfree hfree' hquiet hquiet' => exact hplay hfree'

/-- The referee has not ended a game by this event. -/
def Continues : Serveur.Event → Prop
  | .validationCoup _ _ _ prop => prop = .cont
  | _ => True

/-- Nothing in the match tells of the end of a game. -/
structure Playing (m : Match.State) : Prop where
  server : Continuing m.server
  down (p : Player) (rep : TCoupRep) (hmem : .coupRep rep ∈ m.down p) : rep.propCoup = .cont
  client (p : Player) : InPlay (m.client p)

def MatchStep (m : Match.State) (e : Label) (n : Match.State) : Prop := Playing m ∧ Match.Step m e n

theorem server_projects {m n : Match.State} {e : Label} (h : MatchStep m e n) :
    (serverEvent e = none ∧ n.server = m.server) ∨
      ∃ d, serverEvent e = some d ∧ ServerStep m.server d n.server := by
  refine (server_steps h.2).imp_right ?_
  rintro ⟨d, hsome, hcall, hstep⟩
  exact ⟨d, hsome, h.1.server, hcall, hstep⟩

theorem client_projects (p : Player) {m n : Match.State} {e : Label} (h : MatchStep m e n) :
    (clientEvent p e = none ∧ n.client p = m.client p) ∨
      ∃ d, clientEvent p e = some d ∧ ClientStep (m.client p) d (n.client p) := by
  obtain ⟨hplay, hstep⟩ := h
  refine (client_steps p hstep).imp_right ?_
  rintro ⟨d, hsome, hclient⟩
  refine ⟨d, hsome, hplay.client p, ?_, hclient⟩
  rintro rep rfl
  cases e with
  | server e => cases hsome
  | client q e =>
      obtain ⟨rfl, hd⟩ := Option.ite_none_right_eq_some.1 hsome
      obtain rfl := Option.some.inj hd
      cases hstep with
      | clientRecv _ _ rest c hdown => exact hplay.down q rep (by rw [hdown]; exact List.mem_cons_self)
      | clientAi _ _ c he => exact he.elim

theorem continuing_step {s t : Serveur.State} {e : Serveur.Event} (hstep : ServerStep s e t) (he : Continues e) :
    Continuing t := by
  obtain ⟨hcont, _, hstep⟩ := hstep
  have houtside (h : ∀ u, t.pc ≠ .sendMover u ∧ t.pc ≠ .sendOther u) : Continuing t :=
    fun u hpc => hpc.elim (fun hpc => absurd hpc (h u).1) fun hpc => absurd hpc (h u).2
  have htop (sud : Bool) (number : Int) (u : Turn) :
      loopTop sud number ≠ .sendMover u ∧ loopTop sud number ≠ .sendOther u := by
    rw [loopTop]
    split_ifs <;> simp
  cases hstep with
  | recvPartie1 | recvPartie2 | sendPartie1 | recvCoup | restart | recvError | sendError | sigpipe | endGame =>
      exact houtside fun u => by simp [State.answer]
  | initialise hpc => exact houtside fun u => htop _ _ u
  | sendPartie2 hpc =>
      refine houtside fun u => ?_
      rw [State.orient]
      split_ifs <;> simp
  | validate u valid prop hpc =>
      intro v _
      rw [State.judge, prepareStrikeAnswer_propCoup]
      exact he
  | sendMover u hpc => exact fun v _ => hcont u (.inl hpc)
  | sendOther u hpc =>
      refine houtside fun v => ?_
      dsimp only
      split_ifs <;> simp
  | relay u hpc =>
      refine houtside fun v => ?_
      rcases u with ⟨r, _ | _⟩
      · simp [State.continue]
      · exact htop _ _ v
  | store u hpc =>
      refine houtside fun v => ?_
      rw [State.finish]
      split_ifs
      · simp
      · exact htop _ _ v

theorem answer_continues {s t : Serveur.State} {p : Player} {rep : TCoupRep} (hcont : Continuing s)
    (hstep : Serveur.Step s (.send p (.coupRep rep)) t) : rep.propCoup = .cont := by
  cases hstep with
  | sendMover u hpc => exact hcont u (.inl hpc)
  | sendOther u hpc => exact hcont u (.inr hpc)

/-- A match in which the referee has ended no game keeps playing. -/
theorem playing_step {m n : Match.State} {e : Label} (h : MatchStep m e n)
    (he : ∀ d, serverEvent e = some d → Continues d) : Playing n := by
  refine ⟨?_, fun p rep hmem => ?_, fun p => ?_⟩
  · rcases server_projects h with ⟨_, hsame⟩ | ⟨d, hsome, hstep⟩
    · rw [hsame]
      exact h.1.server
    · exact continuing_step hstep (he d hsome)
  · obtain ⟨hplay, hstep⟩ := h
    cases hstep with
    | serverRecv | serverInside | clientSend | clientAi => exact hplay.down p rep hmem
    | serverSend q msg s hstep =>
        change _ ∈ Function.update m.down q (m.down q ++ [msg]) p at hmem
        rcases update_cases m.down q p (m.down q ++ [msg]) with ⟨_, hsame⟩ | ⟨rfl, hsame⟩
        · rw [hsame] at hmem
          exact hplay.down p rep hmem
        · rw [hsame, List.mem_append, List.mem_singleton] at hmem
          rcases hmem with hmem | rfl
          · exact hplay.down q rep hmem
          · exact answer_continues hplay.server hstep
    | clientRecv q msg rest c hdown hstep =>
        change _ ∈ Function.update m.down q rest p at hmem
        rcases update_cases m.down q p rest with ⟨_, hsame⟩ | ⟨rfl, hsame⟩
        · rw [hsame] at hmem
          exact hplay.down p rep hmem
        · rw [hsame] at hmem
          exact hplay.down q rep (by rw [hdown]; exact List.mem_cons_of_mem msg hmem)
  · rcases client_projects p h with ⟨_, hsame⟩ | ⟨d, _, hstep⟩
    · rw [hsame]
      exact h.1.client p
    · exact inPlay_step hstep

theorem playing_initial {m : Match.State} (h : Match.Initial m) : Playing m := by
  refine ⟨fun t hpc => ?_, fun p rep hmem => ?_, fun p => ?_⟩
  · rw [h.server.pc] at hpc
    rcases hpc with hpc | hpc <;> cases hpc
  · rw [h.down p] at hmem
    cases hmem
  · have hpc := (h.client p).pc
    exact ⟨by simp [hpc], by simp [hpc], by simp [hpc]⟩

/-- The moves of `p` on their way, from its client to that of the other player. -/
def crossing (p : Player) : Match.State → List Strike → Prop :=
  Series (Series (Series (Series (fun m xs => xs = outgoing (m.client p)) fun m xs => xs = strikes (m.up p))
    fun m xs => xs = holding p m.server) fun m xs => xs = strikes (m.down p.other))
    fun m xs => xs = incoming (m.client p.other)

theorem crossing_conveys (p : Player) :
    Conveys Displaces MatchStep (crossing p) (ofClient p got) (ofClient p.other forwarded) := by
  have hclient := outgoing_conveys.lift (fun m : Match.State => m.client p) (clientEvent p)
    (fun _ _ _ => client_projects p)
  have hserver := (server_conveys p).lift (fun m : Match.State => m.server) serverEvent (fun _ _ _ => server_projects)
  have hclient' := incoming_conveys.lift (fun m : Match.State => m.client p.other) (clientEvent p.other)
    (fun _ _ _ => client_projects p.other)
  have hup : Conveys Displaces MatchStep _ _ _ := (up_conveys msgStrikes p).restrict fun _ _ _ h => h.2
  have hdown : Conveys Displaces MatchStep _ _ _ := (down_conveys msgStrikes p.other).restrict fun _ _ _ h => h.2
  exact (((hclient.series hup).series hserver).series hdown).series hclient'

theorem crossing_initial {m : Match.State} (h : Match.Initial m) (p : Player) : crossing p m [] := by
  have hout : outgoing (m.client p) = [] := by rw [outgoing, (h.client p).pc]
  have hin : incoming (m.client p.other) = [] := by rw [incoming, (h.client p.other).pc]
  have hheld : holding p m.server = [] := by rw [holding, h.server.pc]
  have hup : strikes (m.up p) = [] := by rw [h.up, strikes_nil]
  have hdown : strikes (m.down p.other) = [] := by rw [h.down, strikes_nil]
  exact ⟨[], [], hin.symm, ⟨[], [], hdown.symm, ⟨[], [], hheld.symm, ⟨[], [], hup.symm, hout.symm, rfl⟩, rfl⟩, rfl⟩,
    rfl⟩

end YokaiNoMori.Carriers
