import YokaiNoMori.ServerHistory
import YokaiNoMori.ServerRuns

namespace YokaiNoMori.Referee

open ProtocolYokai Runs Serveur ServerHistory ServerRuns

/-- A call of the referee library. The source of a move is the connection that
the last move was received on, with that move. -/
inductive RefereeCall
  | initialiserPartie
  | validationCoup (joueur : Nat) (source : Option (Player × TCoupReq)) (coup : TCoupReq) (prop : TPropCoup)

structure Heard where
  request : Option TPartieReq
  source : Option (Player × TCoupReq)
  calls : List RefereeCall

def listen (h : Heard) : Event → Heard
  | .recv .p1 (.partieReq req) => { h with request := some req }
  | .recv p (.coupReq coup) => { h with source := some (p, coup) }
  | .initialiserPartie => { h with calls := h.calls ++ [.initialiserPartie] }
  | .validationCoup joueur coup _ prop => { h with calls := h.calls ++ [.validationCoup joueur h.source coup prop] }
  | _ => h

def heard (tr : List Event) : Heard := tr.foldl listen ⟨none, none, []⟩

@[simp] theorem heard_nil : heard [] = ⟨none, none, []⟩ := rfl

@[simp] theorem heard_snoc (tr : List Event) (e : Event) : heard (tr ++ [e]) = listen (heard tr) e := by
  simp [heard]

/-- The player oriented SUD: player 1 when it has asked for it, and player 2
otherwise. -/
def Heard.sud (h : Heard) : Player := if h.request.map TPartieReq.piece = some .sud then .p1 else .p2

def nextHalf : Half → Half
  | .first => .second
  | .second => .first

def joueurOf : Half → Nat
  | .first => 1
  | .second => 2

def moverOf (first : Player) : Half → Player
  | .first => first
  | .second => first.other

abbrev Play := TCoupReq × TPropCoup

/-- The calls for the moves of a game: the players alternate, and every move
comes from its player's connection. -/
def turns (first : Player) : Half → List Play → List RefereeCall
  | _, [] => []
  | half, (coup, prop) :: plays =>
      .validationCoup (joueurOf half) (some (moverOf first half, coup)) coup prop ::
        turns first (nextHalf half) plays

def halfAfter : Half → List Play → Half
  | half, [] => half
  | half, _ :: plays => halfAfter (nextHalf half) plays

def Open (plays : List Play) : Prop := ∀ play ∈ plays, play.2 = .cont

def Complete (plays : List Play) : Prop :=
  ∃ opened coup prop, plays = opened ++ [(coup, prop)] ∧ Open opened ∧ prop ≠ .cont

def gameCalls (first : Player) (plays : List Play) : List RefereeCall :=
  .initialiserPartie :: turns first .first plays

def matchCalls (sud : Player) (game1 game2 : List Play) : List RefereeCall :=
  gameCalls sud game1 ++ gameCalls sud.other game2 ++ [.initialiserPartie]

theorem turns_append (first : Player) (half : Half) (plays more : List Play) :
    turns first half (plays ++ more) = turns first half plays ++ turns first (halfAfter half plays) more := by
  induction plays generalizing half with
  | nil => rfl
  | cons play plays ih => simp [turns, halfAfter, ih]

theorem halfAfter_snoc (half : Half) (plays : List Play) (play : Play) :
    halfAfter half (plays ++ [play]) = nextHalf (halfAfter half plays) := by
  induction plays generalizing half with
  | nil => rfl
  | cons head plays ih => exact ih (nextHalf half)

theorem Open.snoc {plays : List Play} (h : Open plays) (coup : TCoupReq) : Open (plays ++ [(coup, .cont)]) := by
  intro play hp
  rcases List.mem_append.1 hp with hp | hp
  · exact h play hp
  · rw [List.mem_singleton.1 hp]

theorem Open.complete {plays : List Play} (h : Open plays) (coup : TCoupReq) (prop : TPropCoup)
    (hprop : prop ≠ .cont) : Complete (plays ++ [(coup, prop)]) :=
  ⟨plays, coup, prop, rfl, h, hprop⟩

def starter (r : Round) : Player := (Turn.mk r .first).call.conn

theorem call_conn (t : Turn) : t.call.conn = moverOf (starter t.round) t.half := by
  rcases t with ⟨_ | _, _ | _⟩ <;> rfl

theorem call_joueur (t : Turn) : t.call.joueur = joueurOf t.half := by
  rcases t with ⟨_ | _, _ | _⟩ <;> rfl

/-- The calls made before the first move of the game in progress, by its number
and the player who starts it. -/
inductive Before (sud : Player) : Int → Player → List RefereeCall → Prop
  | game1 : Before sud 1 sud [.initialiserPartie]
  | game2 {game1} (h : Complete game1) :
      Before sud 2 sud.other (gameCalls sud game1 ++ [.initialiserPartie])

structure Playing (h : Heard) (s : State) (r : Round) (plays : List Play) (rest : List RefereeCall) : Prop where
  sud : h.sud = if s.player1Sud then .p1 else .p2
  calls : ∃ before, Before h.sud s.game.gameNumber (starter r) before ∧
    h.calls = before ++ turns (starter r) .first plays ++ rest

def Underway (h : Heard) : Prop :=
  ∃ game1 game2, Complete game1 ∧ Complete game2 ∧ h.calls <+: matchCalls h.sud game1 game2

def Whole (h : Heard) : Prop :=
  ∃ game1 game2, Complete game1 ∧ Complete game2 ∧ h.calls = matchCalls h.sud game1 game2

theorem before_underway {h : Heard} {n : Int} {first : Player} {before : List RefereeCall} {plays : List Play}
    (hbefore : Before h.sud n first before) (hplays : Complete plays)
    (hcalls : h.calls <+: before ++ turns first .first plays ++ [.initialiserPartie]) : Underway h := by
  cases hbefore with
  | game1 =>
      refine ⟨plays, plays, hplays, hplays, hcalls.trans ?_⟩
      simp [matchCalls, gameCalls]
  | game2 hgame =>
      refine ⟨_, plays, hgame, hplays, ?_⟩
      simpa [matchCalls, gameCalls] using hcalls

theorem before_start (b : Bool) {sud : Player} (hsud : sud = if b then .p1 else .p2) :
    Before sud 1 (starter (chooseRound b 1)) [.initialiserPartie] := by
  have hstarter : starter (chooseRound b 1) = sud := by
    rw [hsud]
    cases b <;> rfl
  rw [hstarter]
  exact .game1

theorem before_second (b : Bool) {sud : Player} (hsud : sud = if b then .p1 else .p2) {game1 : List Play}
    (h : Complete game1) :
    Before sud 2 (starter (chooseRound b 2)) (gameCalls sud game1 ++ [.initialiserPartie]) := by
  have hstarter : starter (chooseRound b 2) = sud.other := by
    rw [hsud]
    cases b <;> rfl
  rw [hstarter]
  exact .game2 h

structure Silent (h : Heard) (s : State) : Prop where
  calls : h.calls = []
  gameNumber : s.game.gameNumber = 1

/-- The turn `t` has judged a last move, after moves that left the game open. -/
def Judging (h : Heard) (s : State) (t : Turn) : Prop :=
  ∃ plays coup, Open plays ∧ halfAfter .first plays = t.half ∧
    Playing h s t.round (plays ++ [(coup, s.moveRep.propCoup)]) []

def Ended (tr : List Event) (s : State) : Prop :=
  Underway (heard tr) ∧ (Clean tr → s.res ≠ -1 → Whole (heard tr))

/-- The calls so far, place by place. -/
def Called (tr : List Event) (s : State) : Prop :=
  match s.pc with
  | .recvPartie .p1 => Silent (heard tr) s
  | .recvPartie .p2 => Silent (heard tr) s ∧ (heard tr).request = some s.player1
  | .sendPartie _ => Silent (heard tr) s ∧ (heard tr).request = some s.player1 ∧
      ∃ answerP1 answerP2, s.res = (sendAnswers s.player1 s.player2 answerP1 answerP2).1
  | .initialise => Silent (heard tr) s ∧ (heard tr).sud = if s.player1Sud then .p1 else .p2
  | .recvCoup t => ∃ plays, Open plays ∧ halfAfter .first plays = t.half ∧
      Playing (heard tr) s t.round plays []
  | .validate t => (heard tr).source = some (t.call.conn, s.moveReq) ∧
      ∃ plays, Open plays ∧ halfAfter .first plays = t.half ∧ Playing (heard tr) s t.round plays []
  | .sendMover t | .sendOther t => Judging (heard tr) s t
  | .relay t => Judging (heard tr) s t ∧ s.moveRep.propCoup = .cont
  | .restart t => Judging (heard tr) s t ∧ s.moveRep.propCoup ≠ .cont
  | .store t => ∃ plays, Complete plays ∧ Playing (heard tr) s t.round plays [.initialiserPartie]
  | .closing | .exited => Ended tr s
  | .killed => Underway (heard tr)

theorem Silent.underway {h : Heard} {s : State} (hs : Silent h s) : Underway h := by
  have hplays : Complete [(s.moveReq, .nul)] := ⟨[], s.moveReq, .nul, rfl, by simp [Open], by decide⟩
  refine ⟨_, _, hplays, hplays, ?_⟩
  rw [hs.calls]
  exact List.nil_prefix

theorem Playing.underway {h : Heard} {s : State} {r : Round} {plays : List Play}
    {rest : List RefereeCall} (hp : Playing h s r plays rest) (more : List Play) (hmore : Complete (plays ++ more))
    (hrest : rest <+: turns (starter r) (halfAfter .first plays) more ++ [.initialiserPartie]) : Underway h := by
  obtain ⟨before, hbefore, hcalls⟩ := hp.calls
  apply before_underway hbefore hmore
  rw [hcalls, turns_append, List.append_assoc, List.append_assoc, List.append_assoc]
  exact (List.prefix_append_right_inj _).2 ((List.prefix_append_right_inj _).2 hrest)

theorem Judging.underway {h : Heard} {s : State} {t : Turn} (hj : Judging h s t) : Underway h := by
  obtain ⟨plays, coup, hopen, _, hplaying⟩ := hj
  by_cases hprop : s.moveRep.propCoup = .cont
  · rw [hprop] at hplaying
    exact hplaying.underway _ ((hopen.snoc coup).complete coup .nul (by decide)) List.nil_prefix
  · exact hplaying.underway [] (by rw [List.append_nil]; exact hopen.complete coup _ hprop)
      List.nil_prefix

theorem called_underway {tr : List Event} {s : State} (h : Called tr s) : Underway (heard tr) := by
  rw [Called] at h
  split at h
  · exact h.underway
  · exact h.1.underway
  · exact h.1.underway
  · exact h.1.underway
  · obtain ⟨plays, hopen, _, hplaying⟩ := h
    exact hplaying.underway _ (hopen.complete s.moveReq .nul (by decide)) List.nil_prefix
  · obtain ⟨_, plays, hopen, _, hplaying⟩ := h
    exact hplaying.underway _ (hopen.complete s.moveReq .nul (by decide)) List.nil_prefix
  · exact h.underway
  · exact h.underway
  · exact h.1.underway
  · exact h.1.underway
  · obtain ⟨plays, hplays, hplaying⟩ := h
    exact hplaying.underway [] (by rw [List.append_nil]; exact hplays) (List.prefix_refl _)
  · exact h.1
  · exact h.1
  · exact h

theorem sud_request {h : Heard} {player1 : TPartieReq} (hr : h.request = some player1) :
    h.sud = if player1.piece = .sud then .p1 else .p2 := by
  simp [Heard.sud, hr]

theorem oriented_sud {h : Heard} {s : State} (hr : h.request = some s.player1)
    {answerP1 answerP2 : TPartieRep} (hanswer : s.res = (sendAnswers s.player1 s.player2 answerP1 answerP2).1)
    (hres : s.res ≠ -1) : h.sud = if decide (s.res ≠ 0) then .p1 else .p2 := by
  rw [sud_request hr]
  rw [hanswer] at hres ⊢
  rw [sendAnswers] at hres ⊢
  split at hres
  · simp at hres
  · split at hres
    · simp at hres
    · split at hres <;> simp_all

theorem before_round {b : Bool} {sud : Player} (hsud : sud = if b then .p1 else .p2) {n : Int} {r : Round}
    {before : List RefereeCall} (h : Before sud n (starter r) before) :
    (n = 1 ∨ n = 2) ∧ r = chooseRound b n := by
  generalize hfirst : starter r = first at h
  cases h with
  | game1 =>
      refine ⟨.inl rfl, ?_⟩
      rw [hsud] at hfirst
      cases b <;> cases r <;> first | rfl | cases hfirst
  | game2 hgame =>
      refine ⟨.inr rfl, ?_⟩
      rw [hsud] at hfirst
      cases b <;> cases r <;> first | rfl | cases hfirst

theorem called_loopTop {tr : List Event} {s : State} {r : Round} {plays : List Play} (hopen : Open plays)
    (hhalf : halfAfter .first plays = .first) (hp : Playing (heard tr) s r plays [])
    (hpc : s.pc = loopTop s.player1Sud s.game.gameNumber) : Called tr s := by
  obtain ⟨before, hbefore, _⟩ := hp.calls
  obtain ⟨hn, rfl⟩ := before_round hp.sud hbefore
  rw [loopTop, if_pos (by omega)] at hpc
  simp only [Called, hpc]
  exact ⟨plays, hopen, hhalf, hp⟩

/-- The state in which a game ends: the second game follows the first one, and
the calls are complete after the second. -/
theorem called_finish {tr : List Event} {s : State} {t : Turn} {plays : List Play} (hplays : Complete plays)
    (hp : Playing (heard tr) s t.round plays [.initialiserPartie]) : Called tr (s.finish t) := by
  obtain ⟨before, hbefore, hcalls⟩ := hp.calls
  have hnumber := storeScore_gameNumber t s.moveRep.propCoup s.game
  generalize hn : s.game.gameNumber = n at hbefore
  generalize hfirst : starter t.round = first at hbefore
  rw [hfirst] at hcalls
  rw [hn] at hnumber
  cases hbefore with
  | game1 =>
      have hcount : (storeScore t s.moveRep.propCoup s.game).gameNumber = 2 := hnumber
      rw [State.finish, if_neg (by rw [hcount]; decide)]
      have hnext : Playing (heard tr) (s.iterate (storeScore t s.moveRep.propCoup s.game))
          (chooseRound s.player1Sud 2) [] [] := by
        refine ⟨hp.sud, gameCalls (heard tr).sud plays ++ [.initialiserPartie], ?_, ?_⟩
        · simp only [State.iterate, countStrike, hcount]
          exact before_second s.player1Sud hp.sud hplays
        · rw [hcalls]
          simp [gameCalls, turns]
      exact called_loopTop (by simp [Open]) rfl hnext rfl
  | @game2 game1 hgame =>
      have hcount : (storeScore t s.moveRep.propCoup s.game).gameNumber = 3 := hnumber
      have hwhole : (heard tr).calls = matchCalls (heard tr).sud game1 plays := by
        rw [hcalls]
        simp [matchCalls, gameCalls]
      rw [State.finish, if_pos hcount]
      refine ⟨⟨game1, plays, hgame, hplays, ?_⟩, fun _ _ => ⟨game1, plays, hgame, hplays, hwhole⟩⟩
      rw [hwhole]

theorem Playing.judged {h : Heard} {s s' : State} {t : Turn} {plays : List Play} {coup : TCoupReq}
    {valid : Bool} {prop : TPropCoup} (hp : Playing h s t.round plays [])
    (hsource : h.source = some (t.call.conn, coup)) (hhalf : halfAfter .first plays = t.half)
    (hsud : s'.player1Sud = s.player1Sud) (hgame : s'.game.gameNumber = s.game.gameNumber) :
    Playing (listen h (.validationCoup t.call.joueur coup valid prop)) s' t.round
      (plays ++ [(coup, prop)]) [] := by
  obtain ⟨before, hbefore, hcalls⟩ := hp.calls
  refine ⟨by rw [hsud]; exact hp.sud, before, by rw [hgame]; exact hbefore, ?_⟩
  rw [turns_append, hhalf]
  simp [listen, hsource, hcalls, turns, call_conn, call_joueur]

theorem Playing.of_state {h : Heard} {s s' : State} {r : Round} {plays : List Play}
    {rest : List RefereeCall} (hp : Playing h s r plays rest) (hsud : s'.player1Sud = s.player1Sud)
    (hgame : s'.game.gameNumber = s.game.gameNumber) : Playing h s' r plays rest := by
  obtain ⟨before, hbefore, hcalls⟩ := hp.calls
  exact ⟨by rw [hsud]; exact hp.sud, before, by rw [hgame]; exact hbefore, hcalls⟩

theorem not_clean_recvError (tr : List Event) (p : Player) : ¬ Clean (tr ++ [.recvError p]) :=
  fun h => (h p).1 (List.mem_append_right _ List.mem_cons_self)

theorem not_clean_sendError (tr : List Event) (p : Player) : ¬ Clean (tr ++ [.sendError p]) :=
  fun h => (h p).2 (List.mem_append_right _ List.mem_cons_self)

theorem Clean.before {tr : List Event} {e : Event} (h : Clean (tr ++ [e])) : Clean tr :=
  fun p => ⟨fun hr => (h p).1 (List.mem_append_left _ hr), fun hs => (h p).2 (List.mem_append_left _ hs)⟩

theorem called_step {tr : List Event} {s s' : State} {e : Event} (hinv : Called tr s) (h : Step s e s') :
    Called (tr ++ [e]) s' := by
  cases h with
  | recvPartie1 req hpc =>
      simp only [Called, hpc] at hinv
      simp only [Called, heard_snoc, listen]
      exact ⟨⟨hinv.calls, hinv.gameNumber⟩, trivial⟩
  | recvPartie2 req hpc =>
      simp only [Called, hpc] at hinv
      simp only [Called, State.answer, heard_snoc, listen]
      exact ⟨⟨hinv.1.calls, hinv.1.gameNumber⟩, hinv.2, _, _, rfl⟩
  | sendPartie1 hpc =>
      simp only [Called, hpc] at hinv
      simp only [Called, heard_snoc, listen]
      exact ⟨⟨hinv.1.calls, hinv.1.gameNumber⟩, hinv.2⟩
  | sendPartie2 hpc =>
      simp only [Called, hpc] at hinv
      obtain ⟨hsilent, hr, _, _, hanswer⟩ := hinv
      by_cases hres : s.res = -1
      · simp only [State.orient, hres, if_true, Called, Ended, heard_snoc, listen]
        exact ⟨hsilent.underway, fun _ h => absurd rfl h⟩
      · simp only [State.orient, hres, if_false, Called, heard_snoc, listen]
        exact ⟨⟨hsilent.calls, hsilent.gameNumber⟩, oriented_sud hr hanswer hres⟩
  | initialise hpc =>
      simp only [Called, hpc] at hinv
      obtain ⟨hsilent, hsud⟩ := hinv
      have hstart : Playing (listen (heard tr) .initialiserPartie)
          { s with pc := loopTop s.player1Sud s.game.gameNumber } (chooseRound s.player1Sud 1) [] [] := by
        refine ⟨hsud, [.initialiserPartie], ?_, by simp [listen, hsilent.calls, turns]⟩
        rw [hsilent.gameNumber]
        exact before_start s.player1Sud hsud
      rw [← heard_snoc] at hstart
      exact called_loopTop (by simp [Open]) rfl hstart rfl
  | recvCoup t req hpc =>
      simp only [Called, hpc] at hinv
      obtain ⟨plays, hopen, hhalf, hp⟩ := hinv
      simp only [Called, heard_snoc, listen]
      exact ⟨trivial, plays, hopen, hhalf, hp.sud, hp.calls⟩
  | validate t valid prop hpc =>
      simp only [Called, hpc] at hinv
      obtain ⟨hsource, plays, hopen, hhalf, hp⟩ := hinv
      simp only [Called, State.judge, heard_snoc]
      refine ⟨plays, s.moveReq, hopen, hhalf, ?_⟩
      rw [prepareStrikeAnswer_propCoup]
      exact hp.judged hsource hhalf rfl rfl
  | sendMover t hpc =>
      simp only [Called, hpc] at hinv
      obtain ⟨plays, coup, hopen, hhalf, hp⟩ := hinv
      simp only [Called, heard_snoc, listen]
      exact ⟨plays, coup, hopen, hhalf, hp.of_state rfl rfl⟩
  | sendOther t hpc =>
      simp only [Called, hpc] at hinv
      obtain ⟨plays, coup, hopen, hhalf, hp⟩ := hinv
      by_cases hprop : s.moveRep.propCoup = .cont
      · simp only [hprop, if_true, Called, heard_snoc, listen]
        exact ⟨⟨plays, coup, hopen, hhalf, hp.of_state rfl rfl⟩, trivial⟩
      · simp only [hprop, if_false, Called, heard_snoc, listen]
        exact ⟨⟨plays, coup, hopen, hhalf, hp.of_state rfl rfl⟩, hprop⟩
  | relay t hpc =>
      simp only [Called, hpc] at hinv
      obtain ⟨⟨plays, coup, hopen, hhalf, hp⟩, hprop⟩ := hinv
      rw [hprop] at hp
      have hnext := halfAfter_snoc .first plays (coup, .cont)
      rw [hhalf] at hnext
      rcases t with ⟨r, _ | _⟩
      · simp only [State.continue, Called, heard_snoc, listen]
        exact ⟨_, hopen.snoc coup, hnext, hp.of_state rfl rfl⟩
      · have hp' : Playing (heard (tr ++ [.send (Turn.mk r .second).call.sock2 (.coupReq s.moveReq)]))
            (s.iterate s.game) r (plays ++ [(coup, .cont)]) [] := by
          rw [heard_snoc]
          exact hp.of_state rfl rfl
        exact called_loopTop (hopen.snoc coup) hnext hp' rfl
  | restart t hpc =>
      simp only [Called, hpc] at hinv
      obtain ⟨⟨plays, coup, hopen, _, hp⟩, hprop⟩ := hinv
      obtain ⟨before, hbefore, hcalls⟩ := hp.calls
      simp only [Called, heard_snoc, listen]
      exact ⟨_, hopen.complete coup _ hprop, hp.sud, before, hbefore, by simp [hcalls]⟩
  | store t hpc =>
      simp only [Called, hpc] at hinv
      obtain ⟨plays, hplays, hp⟩ := hinv
      exact called_finish hplays (by rw [heard_snoc]; exact hp)
  | recvError p playerId err game hpc hcheck =>
      have hunderway := called_underway hinv
      exact ⟨by rw [heard_snoc]; exact hunderway, fun hclean => absurd hclean (not_clean_recvError tr p)⟩
  | sendError p playerId err game hpc hcheck =>
      have hunderway := called_underway hinv
      exact ⟨by rw [heard_snoc]; exact hunderway, fun hclean => absurd hclean (not_clean_sendError tr p)⟩
  | sigpipe p playerId hpc =>
      have hunderway := called_underway hinv
      simp only [Called, heard_snoc]
      exact hunderway
  | endGame hpc =>
      simp only [Called, hpc] at hinv
      refine ⟨by rw [heard_snoc]; exact hinv.1, fun hclean hres => ?_⟩
      rw [heard_snoc]
      exact hinv.2 (Clean.before hclean) hres

theorem called {s₀ s : State} {tr : List Event} (h₀ : Initial s₀) (h : Run Step s₀ tr s) : Called tr s := by
  refine h.invariant Called ?_ (fun _ _ _ _ => called_step)
  simp only [Called, h₀.pc]
  exact ⟨rfl, h₀.gameNumber⟩

/-- Every run calls the referee as its contract asks, up to the point where it
stands, and a match without failures to the end. -/
theorem referee_contract (s₀ s : State) (tr : List Event) (h₀ : Initial s₀) (h : Run Step s₀ tr s) :
    (∃ game1 game2, Complete game1 ∧ Complete game2 ∧
      (heard tr).calls <+: matchCalls (heard tr).sud game1 game2) ∧
    (Clean tr → s.pc = .exited → s.res ≠ -1 → ∃ game1 game2, Complete game1 ∧ Complete game2 ∧
      (heard tr).calls = matchCalls (heard tr).sud game1 game2) := by
  have hcalled := called h₀ h
  refine ⟨called_underway hcalled, fun hclean hpc hres => ?_⟩
  simp only [Called, hpc] at hcalled
  exact hcalled.2 hclean hres

section TwoGames

/-- The second player wins game 1 with the answer to the first move, and game 2
is a draw at once. -/
def reached : State := (answered (joined start sud sud) ⟨.player1First, .first⟩ start.moveReq true .cont).continue
  ⟨.player1First, .first⟩

def won : State := ended reached ⟨.player1First, .second⟩ start.moveReq true .gagne

def drawn : State := ended won ⟨.player2First, .first⟩ start.moveReq true .nul

def twoGames : List Event :=
  joining start sud sud ++ relaying ⟨.player1First, .first⟩ start.moveReq true ++
    ending reached ⟨.player1First, .second⟩ start.moveReq true .gagne ++
    ending won ⟨.player2First, .first⟩ start.moveReq true .nul ++ [.endGame drawn.game]

theorem twoGames_run : Run Step start twoGames { drawn with pc := .exited } := by
  have h := joining_run start sud sud rfl rfl rfl
  have h := h.append (relaying_run (joined start sud sud) ⟨.player1First, .first⟩ start.moveReq true rfl)
  have h := h.append (ending_run reached ⟨.player1First, .second⟩ start.moveReq true .gagne rfl nofun)
  have h := h.append (ending_run won ⟨.player2First, .first⟩ start.moveReq true .nul rfl nofun)
  exact h.snoc (.endGame drawn rfl)

theorem twoGames_clean : Clean twoGames := by
  intro p
  simp [twoGames, joining, relaying, ending, answering]

theorem referee_contract_twoGames : (heard twoGames).sud = .p1 ∧
    (∃ game1 game2, Complete game1 ∧ Complete game2 ∧ (heard twoGames).calls <+: matchCalls .p1 game1 game2) ∧
    ∃ game1 game2, Complete game1 ∧ Complete game2 ∧ (heard twoGames).calls = matchCalls .p1 game1 game2 := by
  have hsud : (heard twoGames).sud = .p1 := rfl
  obtain ⟨hcalls, hwhole⟩ := referee_contract start _ twoGames start_initial twoGames_run
  have hexact := hwhole twoGames_clean rfl (by decide)
  rw [hsud] at hcalls hexact
  exact ⟨hsud, hcalls, hexact⟩

end TwoGames

end YokaiNoMori.Referee
