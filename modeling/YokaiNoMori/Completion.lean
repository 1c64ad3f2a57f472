import YokaiNoMori.Carriers
import YokaiNoMori.Lockstep

namespace YokaiNoMori.Completion

open ProtocolYokai Runs Serveur Match Conversation Dialogue ClientDialogue ServerDialogue Lockstep
open Carriers (Continues)

/-! A match between its two clients always comes to its end. -/

def clientWork : Client.Pc → Nat
  | .sendPartie => 15
  | .sendSens | .notify _ | .notifyEnnemy _ | .forward _ => 4
  | .getCoup _ => 3
  | .sendCoup _ => 2
  | .recvPartie | .recvRep _ | .recvEnnemyRep _ | .recvEnnemyCoup _ | .done => 0

/-- The referee is not counted: what follows its answer is the work that the
answer adds. -/
def serverWork : Pc → Nat
  | .sendPartie .p1 => 13
  | .sendPartie .p2 => 7
  | .sendMover _ => 18
  | .sendOther _ => 12
  | .relay _ => 6
  | .restart _ => 3
  | .store _ => 2
  | .initialise | .closing => 1
  | .recvPartie _ | .recvCoup _ | .validate _ | .exited | .killed => 0

def upWork : Msg → Nat
  | .partieReq _ => 14
  | _ => 1

def downWork : Msg → Nat := fun _ => 5

def sideWork (m : Match.State) (p : Player) : Nat :=
  clientWork (m.client p).pc + ((m.up p).map upWork).sum + ((m.down p).map downWork).sum

def work (m : Match.State) : Nat := serverWork m.server.pc + (sideWork m .p1 + sideWork m .p2)

def isVerdict : Label → Bool
  | .server (.validationCoup _ _ _ _) => true
  | _ => false

def verdicts (tr : List Label) : Nat := tr.countP isVerdict

def added (e : Label) : Nat := if isVerdict e then 19 else 0

theorem client_loop (g : Client.Game) (sens : Bool) (nbPartie : Nat) :
    clientWork (Client.loopTop g sens nbPartie) ≤ 3 := by
  cases g <;> simp only [Client.loopTop, Client.loop1, Client.loop2] <;> split_ifs <;> simp [clientWork]

theorem server_loop (player1Sud : Bool) (gameNumber : Int) : serverWork (loopTop player1Sud gameNumber) = 0 := by
  rw [loopTop]
  split <;> rfl

theorem iterate_work (c : Client.State) (b : Client.Branch) : clientWork (c.iterate b).pc ≤ 3 :=
  client_loop b.game c.sens c.nbPartie

theorem answered_work (c : Client.State) (b : Client.Branch) (rep : TCoupRep) :
    clientWork (c.answered b rep).pc ≤ 4 := by
  rw [Client.State.answered]
  split
  · exact Nat.le_refl 4
  · split
    · exact Nat.zero_le 4
    · exact (iterate_work { c with repCoup := rep } b).trans (by omega)

theorem ennemyAnswered_work (c : Client.State) (b : Client.Branch) (rep : TCoupRep) (recvIa : TCoupIa)
    (coup : TCoupReq) : clientWork (c.ennemyAnswered b rep recvIa coup).pc ≤ 4 := by
  rw [Client.State.ennemyAnswered]
  split
  · exact Nat.zero_le 4
  · exact Nat.le_refl 4

theorem forwarded_work (c : Client.State) (b : Client.Branch) : clientWork (c.forwarded b).pc ≤ 3 := by
  rw [Client.State.forwarded]
  split
  · exact iterate_work c b
  · exact Nat.le_refl 3

def sent : Client.Event → Nat
  | .send msg => upWork msg
  | _ => 0

def heard : Client.Event → Nat
  | .recv msg => downWork msg
  | _ => 0

theorem client_work {c d : Client.State} {e : Client.Event} (h : Client.Step c e d) :
    clientWork d.pc + sent e + 1 ≤ clientWork c.pc + heard e := by
  cases h with
  | sendPartie hpc | recvPartie _ hpc | getCoup _ _ hpc | sendCoup _ _ hpc | recvEnnemyCoup _ _ _ hpc =>
      simp [hpc, clientWork, sent, heard, upWork, downWork]
  | sendSens hpc =>
      have hloop : clientWork (Client.loop1 c.sens c.nbPartie) ≤ 3 := client_loop .game1 c.sens c.nbPartie
      rw [hpc]
      change clientWork (Client.loop1 c.sens c.nbPartie) + 0 + 1 ≤ 4 + 0
      omega
  | recvRep b rep hpc =>
      have hanswered := answered_work c b rep
      rw [hpc]
      change clientWork (c.answered b rep).pc + 0 + 1 ≤ 0 + 5
      omega
  | notify b hpc =>
      have hloop : clientWork (c.notified b).pc ≤ 3 := iterate_work _ b
      rw [hpc]
      change clientWork (c.notified b).pc + 0 + 1 ≤ 4 + 0
      omega
  | recvEnnemyRep b rep recvIa coup hpc =>
      have hanswered := ennemyAnswered_work c b rep recvIa coup
      rw [hpc]
      change clientWork (c.ennemyAnswered b rep recvIa coup).pc + 0 + 1 ≤ 0 + 5
      omega
  | notifyEnnemy b hpc =>
      have hloop := iterate_work c b
      rw [hpc]
      change clientWork (c.iterate b).pc + 0 + 1 ≤ 4 + 0
      omega
  | forward b hpc =>
      have hloop := forwarded_work c b
      rw [hpc]
      change clientWork (c.forwarded b).pc + 0 + 1 ≤ 4 + 0
      omega

def told : Serveur.Event → Nat
  | .recv _ msg => upWork msg
  | _ => 0

def tells : Serveur.Event → Nat
  | .send _ msg => downWork msg
  | _ => 0

def judged : Serveur.Event → Nat
  | .validationCoup _ _ _ _ => 19
  | _ => 0

theorem server_work {s t : Serveur.State} {e : Serveur.Event} (h : Serveur.Step s e t)
    (he : Succeeds e) :
    serverWork t.pc + tells e + 1 ≤ serverWork s.pc + told e + judged e := by
  cases h with
  | recvError | sendError | sigpipe => exact he.elim
  | recvPartie1 req hpc | recvPartie2 req hpc | sendPartie1 hpc | recvCoup _ _ hpc | validate _ _ _ hpc
  | sendMover _ hpc | restart _ hpc | endGame hpc =>
      simp [hpc, serverWork, told, tells, judged, upWork, downWork, State.answer, State.judge]
  | sendPartie2 hpc =>
      have horient : serverWork s.orient.pc ≤ 1 := by
        rw [State.orient]
        split
        · exact Nat.zero_le 1
        · exact Nat.le_refl 1
      rw [hpc]
      change serverWork s.orient.pc + 5 + 1 ≤ 7 + 0 + 0
      omega
  | initialise hpc =>
      rw [hpc]
      change serverWork (loopTop s.player1Sud s.game.gameNumber) + 0 + 1 ≤ 1 + 0 + 0
      rw [server_loop]
  | sendOther u hpc =>
      rw [hpc]
      change serverWork (if s.moveRep.propCoup = .cont then .relay u else .restart u) + 5 + 1 ≤ 12 + 0 + 0
      split
      · exact Nat.le_refl 12
      · exact Nat.le_add_right 9 3
  | relay u hpc =>
      have hloop : serverWork (s.continue u).pc = 0 := by
        rcases u with ⟨r, _ | _⟩
        · rfl
        · exact server_loop _ _
      rw [hpc]
      change serverWork (s.continue u).pc + 5 + 1 ≤ 6 + 0 + 0
      rw [hloop]
  | store u hpc =>
      have hloop : serverWork (s.finish u).pc ≤ 1 := by
        rw [State.finish]
        split
        · exact Nat.le_refl 1
        · exact (server_loop _ _).le.trans (Nat.zero_le 1)
      rw [hpc]
      change serverWork (s.finish u).pc + 0 + 1 ≤ 2 + 0 + 0
      omega

theorem work_step {m n : Match.State} {added : Nat} (p : Player) (hother : sideWork n p.other = sideWork m p.other)
    (h : serverWork n.server.pc + sideWork n p + 1 ≤ serverWork m.server.pc + sideWork m p + added) :
    work n + 1 ≤ work m + added := by
  cases p <;> simp only [work, Player.other] at hother ⊢ <;> omega

theorem match_work {m n : Match.State} {e : Label} (h : Match.Step m e n) : work n + 1 ≤ work m + added e := by
  cases h with
  | serverRecv p msg rest s hup hstep =>
      have hserver := server_work hstep trivial
      apply work_step p
      · simp [sideWork, other_ne]
      · simp only [sideWork, Function.update_self, hup, List.map_cons, List.sum_cons]
        simp only [tells, told, judged, added, isVerdict] at hserver ⊢
        omega
  | serverSend p msg s hstep =>
      have hserver := server_work hstep trivial
      apply work_step p
      · simp [sideWork, other_ne]
      · simp only [sideWork, Function.update_self, List.map_append, List.sum_append, List.map_singleton,
          List.sum_singleton]
        simp only [tells, told, judged, added, isVerdict] at hserver ⊢
        omega
  | serverInside e s he hstep =>
      have hserver := server_work hstep (succeeds_inside he)
      have hquiet : tells e = 0 ∧ told e = 0 ∧ judged e = added (.server e) := by
        cases e <;> first | exact ⟨rfl, rfl, rfl⟩ | exact he.elim
      refine work_step (m := m) (n := { m with server := s }) .p1 rfl ?_
      simp only [hquiet.1, hquiet.2.1, hquiet.2.2] at hserver
      change serverWork s.pc + sideWork m .p1 + 1 ≤ serverWork m.server.pc + sideWork m .p1 + added (.server e)
      omega
  | clientRecv p msg rest c hdown hstep =>
      have hclient := client_work hstep
      apply work_step p
      · simp [sideWork, other_ne]
      · simp only [sideWork, Function.update_self, hdown, List.map_cons, List.sum_cons]
        simp only [sent, heard, added, isVerdict] at hclient ⊢
        omega
  | clientSend p msg c hstep =>
      have hclient := client_work hstep
      apply work_step p
      · simp [sideWork, other_ne]
      · simp only [sideWork, Function.update_self, List.map_append, List.sum_append, List.map_singleton,
          List.sum_singleton]
        simp only [sent, heard, added, isVerdict] at hclient ⊢
        omega
  | clientAi p e c he hstep =>
      have hclient := client_work hstep
      have hquiet : sent e = 0 ∧ heard e = 0 := by cases e <;> first | exact ⟨rfl, rfl⟩ | exact he.elim
      apply work_step p
      · simp [sideWork, other_ne]
      · simp only [hquiet.1, hquiet.2] at hclient
        simp only [sideWork, Function.update_self, added, isVerdict]
        omega

theorem added_verdicts (tr : List Label) : (tr.map added).sum = 19 * verdicts tr := by
  induction tr with
  | nil => rfl
  | cons e tr ih =>
      rw [List.map_cons, List.sum_cons, ih, verdicts, verdicts, List.countP_cons, added]
      split <;> omega

theorem work_initial {m : Match.State} (h : Match.Initial m) : work m = 30 := by
  simp [work, sideWork, h.server.pc, (h.client _).pc, h.up, h.down, clientWork, serverWork]

/-- A match does not go on without the referee: each of its answers leads to a
bounded number of steps. -/
theorem match_bounded {m₀ m : Match.State} {tr : List Label} (h₀ : Match.Initial m₀) (h : Run Match.Step m₀ tr m) :
    tr.length ≤ 30 + 19 * verdicts tr := by
  have hlength := h.length_le work added (fun _ _ _ hstep => match_work hstep)
  rw [added_verdicts, work_initial h₀] at hlength
  omega

theorem match_bounded_shortMatch : ∃ tr m, Run Match.Step kickoff tr m ∧ m.server.pc = .exited ∧
    tr.length ≤ 30 + 19 * verdicts tr := by
  obtain ⟨tr, m, ⟨h, hserver, _⟩, _⟩ := shortMatch
  exact ⟨tr, m, h, hserver, match_bounded kickoff_initial h⟩

/-! Who can act. -/

/-- Only a read makes the server wait. -/
theorem server_acts (s : Serveur.State) (halive : s.pc ≠ .killed) :
    (∃ p playerId, recvCheck s.pc = some (p, playerId)) ∨ s.pc = .exited ∨
      (∃ p msg t, Serveur.Step s (.send p msg) t) ∨ ∃ e t, Inside e ∧ Continues e ∧ Serveur.Step s e t := by
  cases hpc : s.pc with
  | recvPartie p => exact .inl (by cases p <;> exact ⟨_, _, rfl⟩)
  | recvCoup t => exact .inl ⟨_, _, rfl⟩
  | exited => exact .inr (.inl rfl)
  | killed => exact absurd hpc halive
  | sendPartie p =>
      cases p with
      | p1 => exact .inr (.inr (.inl ⟨_, _, _, .sendPartie1 s hpc⟩))
      | p2 => exact .inr (.inr (.inl ⟨_, _, _, .sendPartie2 s hpc⟩))
  | sendMover t => exact .inr (.inr (.inl ⟨_, _, _, .sendMover s t hpc⟩))
  | sendOther t => exact .inr (.inr (.inl ⟨_, _, _, .sendOther s t hpc⟩))
  | relay t => exact .inr (.inr (.inl ⟨_, _, _, .relay s t hpc⟩))
  | initialise => exact .inr (.inr (.inr ⟨.initialiserPartie, _, trivial, trivial, .initialise s hpc⟩))
  | validate t =>
      exact .inr (.inr (.inr ⟨.validationCoup _ _ true .cont, _, trivial, rfl, .validate s t true .cont hpc⟩))
  | restart t => exact .inr (.inr (.inr ⟨.initialiserPartie, _, trivial, trivial, .restart s t hpc⟩))
  | store t => exact .inr (.inr (.inr ⟨.store _ _ _ _, _, trivial, trivial, .store s t hpc⟩))
  | closing => exact .inr (.inr (.inr ⟨.endGame _, _, trivial, trivial, .endGame s hpc⟩))

theorem server_takes {s : Serveur.State} {p playerId : Player} {msg : Msg}
    (hpc : recvCheck s.pc = some (p, playerId)) (hexpects : Serveur.Expects s.pc msg) :
    ∃ t, Serveur.Step s (.recv p msg) t := by
  obtain ⟨_, hrecv | ⟨t, hrecv, rfl⟩⟩ := recvCheck_eq_some hpc
  · rw [hrecv] at hexpects
    cases msg with
    | partieReq req =>
        cases p with
        | p1 => exact ⟨_, .recvPartie1 s req hrecv⟩
        | p2 => exact ⟨_, .recvPartie2 s req hrecv⟩
    | _ => exact hexpects.elim
  · rw [hrecv] at hexpects
    cases msg with
    | coupReq req => exact ⟨_, .recvCoup s t req hrecv⟩
    | _ => exact hexpects.elim

theorem client_acts (c : Client.State) :
    Client.Receiving c.pc ∨ c.pc = .done ∨ (∃ b, c.pc = .getCoup b) ∨ (∃ msg d, Client.Step c (.send msg) d) ∨
      (∃ sens d, Client.Step c (.sendSens sens) d) ∨ ∃ coupIa d, Client.Step c (.sendCoupToAI coupIa) d := by
  cases hpc : c.pc with
  | recvPartie | recvRep | recvEnnemyRep | recvEnnemyCoup => exact .inl trivial
  | done => exact .inr (.inl rfl)
  | getCoup b => exact .inr (.inr (.inl ⟨b, rfl⟩))
  | sendPartie => exact .inr (.inr (.inr (.inl ⟨_, _, .sendPartie c hpc⟩)))
  | sendCoup b => exact .inr (.inr (.inr (.inl ⟨_, _, .sendCoup c b ServerRuns.start.moveReq hpc⟩)))
  | sendSens => exact .inr (.inr (.inr (.inr (.inl ⟨_, _, .sendSens c hpc⟩))))
  | notify b => exact .inr (.inr (.inr (.inr (.inr ⟨_, _, .notify c b hpc⟩))))
  | notifyEnnemy b => exact .inr (.inr (.inr (.inr (.inr ⟨_, _, .notifyEnnemy c b hpc⟩))))
  | forward b => exact .inr (.inr (.inr (.inr (.inr ⟨_, _, .forward c b hpc⟩))))

theorem client_takes {c : Client.State} {msg : Msg} (hpc : Client.Receiving c.pc) (hexpects : Client.Expects c.pc msg) :
    ∃ d, Client.Step c (.recv msg) d := by
  cases hrecv : c.pc with
  | recvPartie =>
      rw [hrecv] at hexpects
      cases msg with
      | partieRep rep => exact ⟨_, .recvPartie c rep hrecv⟩
      | _ => exact hexpects.elim
  | recvRep b =>
      rw [hrecv] at hexpects
      cases msg with
      | coupRep rep => exact ⟨_, .recvRep c b rep hrecv⟩
      | _ => exact hexpects.elim
  | recvEnnemyRep b =>
      rw [hrecv] at hexpects
      cases msg with
      | coupRep rep => exact ⟨_, .recvEnnemyRep c b rep c.recvIa ServerRuns.start.moveReq hrecv⟩
      | _ => exact hexpects.elim
  | recvEnnemyCoup b =>
      rw [hrecv] at hexpects
      cases msg with
      | coupReq coup => exact ⟨_, .recvEnnemyCoup c b c.recvIa coup hrecv⟩
      | _ => exact hexpects.elim
  | _ => rw [hrecv] at hpc; exact hpc.elim

theorem asks_over {v w : View} {msg : Msg} (h : asks v msg = some w) : v.phase ≠ .over ∧ w.phase ≠ .over := by
  rcases v with ⟨phase, sens, wins⟩
  cases phase <;> cases msg <;> simp only [asks, reduceCtorEq, Option.ite_none_right_eq_some] at h
  · obtain ⟨_, hreply⟩ := h
    obtain rfl := Option.some.inj hreply
    simp
  · obtain ⟨_, hanswer⟩ := h
    obtain rfl := Option.some.inj hanswer
    simp

theorem hears_over {v w : View} {msg : Msg} (h : hears v msg = some w) : v.phase ≠ .over := by
  rcases v with ⟨phase, sens, wins⟩
  rintro rfl
  cases msg <;> cases h

section

variable {a b : View} {out inbox : List Msg}

theorem quiet_over (h : InStep asks hears a b out inbox) (ha : a.phase = .over) : out = [] ∧ inbox = [] := by
  rcases h with ⟨hin, hout⟩ | ⟨hout, hin⟩
  · refine ⟨?_, hin⟩
    rcases List.eq_nil_or_concat out with rfl | ⟨front, msg, rfl⟩
    · rfl
    · rw [List.concat_eq_append, List.foldlM_append] at hout
      obtain ⟨v, _, hlast⟩ := Option.bind_eq_some_iff.1 hout
      rw [List.foldlM_cons] at hlast
      obtain ⟨w, hasks, hw⟩ := Option.bind_eq_some_iff.1 hlast
      obtain rfl := Option.some.inj hw
      exact absurd ha (asks_over hasks).2
  · refine ⟨hout, ?_⟩
    cases inbox with
    | nil => rfl
    | cons msg rest =>
        rw [List.foldlM_cons] at hin
        obtain ⟨v, hhears, _⟩ := Option.bind_eq_some_iff.1 hin
        exact absurd ha (hears_over hhears)

theorem over_unasked (h : InStep asks hears a b out inbox) (hb : b.phase = .over) : out = [] := by
  rcases h with ⟨_, hout⟩ | ⟨hout, _⟩
  · cases out with
    | nil => rfl
    | cons msg rest =>
        rw [List.foldlM_cons] at hout
        obtain ⟨v, hasks, _⟩ := Option.bind_eq_some_iff.1 hout
        exact absurd hb (asks_over hasks).1
  · exact hout

theorem unheard (h : InStep asks hears a b out inbox) (hturn : b.phase = .request ∨ b.phase = .move)
    (hout : out = []) (hin : inbox = []) : a.phase = .request ∨ a.phase = .move := by
  subst hout hin
  rw [h.quiet]
  exact hturn

end

theorem between_over {os : Outcomes} (p : Player) (h : os.length = 2) : (between p os).phase = .over := by
  match os with
  | [o, o'] => rfl

theorem client_over {c : Client.State} (h : (clientView c).phase = .over) : ¬Client.Receiving c.pc := by
  intro hpc
  cases hrecv : c.pc with
  | recvPartie | recvRep | recvEnnemyRep | recvEnnemyCoup => simp [clientView, hrecv] at h
  | _ => simp [hrecv, Client.Receiving] at hpc

theorem done_over {c : Client.State} (hpc : c.pc = .done) : (clientView c).phase = .over := by
  simp only [clientView, hpc]
  rfl

theorem client_waits {tr : List Label} {m : Match.State} (hinv : Together tr m)
    (hstuck : ∀ e n, ¬Match.Step m e n) (p : Player) :
    (Client.Receiving (m.client p).pc ∧ m.down p = []) ∨ (m.client p).pc = .done := by
  rcases client_acts (m.client p) with hrecv | hdone | ⟨b, hpc⟩ | ⟨msg, d, hstep⟩ | ⟨sens, d, hstep⟩ | ⟨ia, d, hstep⟩
  · refine .inl ⟨hrecv, ?_⟩
    cases hdown : m.down p with
    | nil => rfl
    | cons msg rest =>
        obtain ⟨v, hm, _⟩ := (hdown ▸ hinv.inStep p).hear
        obtain ⟨d, hstep⟩ := client_takes hrecv (client_expects hrecv hm)
        exact absurd (.clientRecv m p msg rest d hdown hstep) (hstuck _ _)
  · exact .inr hdone
  · exact absurd (.clientAi m p (.getCoupFromAI (m.client p).coupIa) _ trivial (.getCoup _ b _ hpc)) (hstuck _ _)
  · exact absurd (.clientSend m p msg d hstep) (hstuck _ _)
  · exact absurd (.clientAi m p (.sendSens sens) d trivial hstep) (hstuck _ _)
  · exact absurd (.clientAi m p (.sendCoupToAI ia) d trivial hstep) (hstuck _ _)

theorem aligned_alive {s : Serveur.State} {os : Outcomes} (h : Aligned s os) : s.pc ≠ .killed := by
  intro hpc
  have hplaced := h.placed
  rw [Placed, hpc] at hplaced
  exact hplaced

theorem server_exited {tr : List Label} {m : Match.State} (hinv : Together tr m)
    (hstuck : ∀ e n, ¬Match.Step m e n) : m.server.pc = .exited := by
  rcases server_acts m.server (aligned_alive hinv.aligned) with
    ⟨p, playerId, hpc⟩ | hexited | ⟨p, msg, t, hstep⟩ | ⟨e, t, he, _, hstep⟩
  · have hin := hinv.inStep p
    have hturn := server_turn (outcomes tr) hpc
    cases hup : m.up p with
    | nil =>
        -- the server waits for this client, so the client must be able to go on
        rcases client_waits hinv hstuck p with ⟨hrecv, hdown⟩ | hdone
        · have hasks := unheard hin hturn hup hdown
          have hhears := client_turn hrecv
          rcases hasks with hasks | hasks
          · exact absurd hasks hhears.1
          · exact absurd hasks hhears.2
        · have hover := done_over hdone
          rcases unheard hin hturn hup (quiet_over hin hover).2 with hasks | hasks
          · rw [hover] at hasks
            cases hasks
          · rw [hover] at hasks
            cases hasks
    | cons msg rest =>
        obtain ⟨v, hm, _⟩ := (hup ▸ hin).symm.hear
        obtain ⟨t, hstep⟩ := server_takes hpc (server_expects hinv.aligned hpc hm).1
        exact absurd (.serverRecv m p msg rest t hup hstep) (hstuck _ _)
  · exact hexited
  · exact absurd (.serverSend m p msg t hstep) (hstuck _ _)
  · exact absurd (.serverInside m e t he hstep) (hstuck _ _)

/-- A match that cannot go on has been played to its end: both games are over,
the server and both clients have left and no message is left behind. -/
theorem match_completes {m₀ m : Match.State} {tr : List Label} (h₀ : Match.Initial m₀) (h : Run Match.Step m₀ tr m)
    (hstuck : ∀ e n, ¬Match.Step m e n) :
    m.server.pc = .exited ∧ (outcomes tr).length = 2 ∧
      ∀ p, (m.client p).pc = .done ∧ m.up p = [] ∧ m.down p = [] := by
  have hinv := together h₀ h
  have hexited := server_exited hinv hstuck
  have hplaced := hinv.aligned.placed
  simp only [Placed, hexited] at hplaced
  refine ⟨hexited, hplaced, fun p => ?_⟩
  have hin := hinv.inStep p
  rcases client_waits hinv hstuck p with ⟨hrecv, hdown⟩ | hdone
  · have hover : (serverView m.server (outcomes tr) p).phase = .over := by
      simp only [serverView, hexited]
      exact between_over p hplaced
    have hup := over_unasked hin hover
    rw [hup, hdown] at hin
    rw [← hin.quiet] at hover
    exact absurd hrecv (client_over hover)
  · exact ⟨hdone, quiet_over hin (done_over hdone)⟩

theorem client_idle {c d : Client.State} {e : Client.Event} (hpc : c.pc = .done) : ¬Client.Step c e d := by
  intro h
  cases h <;> simp_all

theorem finished_stuck {m : Match.State} (hserver : m.server.pc = .exited) (hclient : ∀ p, (m.client p).pc = .done)
    (e : Label) (n : Match.State) : ¬Match.Step m e n := by
  intro h
  cases h with
  | serverRecv p msg rest s hup hstep => exact gone_step (.inl hserver) hstep
  | serverSend p msg s hstep => exact gone_step (.inl hserver) hstep
  | serverInside e s he hstep => exact gone_step (.inl hserver) hstep
  | clientRecv p msg rest c hdown hstep => exact client_idle (hclient p) hstep
  | clientSend p msg c hstep => exact client_idle (hclient p) hstep
  | clientAi p e c he hstep => exact client_idle (hclient p) hstep

theorem match_completes_shortMatch : ∃ tr m, Run Match.Step kickoff tr m ∧ (outcomes tr).length = 2 ∧
    ∀ p, m.up p = [] ∧ m.down p = [] := by
  obtain ⟨tr, m, ⟨h, hserver, hclient, _⟩, _⟩ := shortMatch
  obtain ⟨_, hlength, hquiet⟩ := match_completes kickoff_initial h (finished_stuck hserver hclient)
  exact ⟨tr, m, h, hlength, fun p => (hquiet p).2⟩

end YokaiNoMori.Completion
