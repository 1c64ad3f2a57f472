import YokaiNoMori.ServerHistory
import YokaiNoMori.ServerRuns

namespace YokaiNoMori.Forfeit

open ProtocolYokai Runs Serveur ServerHistory ServerRuns

/-- Scores never shrink below zero, and an open match has given out at most one
point for each finished game. -/
structure Scores (s : State) : Prop where
  nonneg (p : Player) : 0 ≤ s.game.score p
  given : s.pc ≠ .closing → s.pc ≠ .exited →
    s.game.scorePlayer1 + s.game.scorePlayer2 ≤ s.game.gameNumber - 1 ∧ s.game.gameNumber ≤ 2

theorem Scores.of_game {s s' : State} (hinv : Scores s) (hpc : s.pc ≠ .closing ∧ s.pc ≠ .exited)
    (hnumber : s'.game.gameNumber = s.game.gameNumber) (hscore : ∀ p, s'.game.score p = s.game.score p) :
    Scores s' where
  nonneg p := by rw [hscore]; exact hinv.nonneg p
  given _ _ := by
    have h := hinv.given hpc.1 hpc.2
    have h1 : s'.game.scorePlayer1 = s.game.scorePlayer1 := hscore .p1
    have h2 : s'.game.scorePlayer2 = s.game.scorePlayer2 := hscore .p2
    omega

theorem storeScore_nonneg (t : Turn) (prop : TPropCoup) {game : TPartie} (h : ∀ p, 0 ≤ game.score p) (p : Player) :
    0 ≤ (storeScore t prop game).score p := by
  have hp := h p
  rw [storeScore_score]
  split <;> omega

theorem storeScore_sum (t : Turn) (prop : TPropCoup) (game : TPartie) :
    (storeScore t prop game).scorePlayer1 + (storeScore t prop game).scorePlayer2 ≤
      game.scorePlayer1 + game.scorePlayer2 + 1 := by
  have h1 : (storeScore t prop game).scorePlayer1 = game.scorePlayer1 + _ := storeScore_score t prop game .p1
  have h2 : (storeScore t prop game).scorePlayer2 = game.scorePlayer2 + _ := storeScore_score t prop game .p2
  rw [h1, h2]
  cases credited t.call.conn prop with
  | none => simp
  | some p => cases p <;> simp <;> omega

theorem forfeit_nonneg (playerId : Player) {game : TPartie} (h : ∀ p, 0 ≤ game.score p) (p : Player) :
    0 ≤ (forfeit playerId game).score p := by
  have hp := h p
  cases playerId <;> cases p <;> simp_all [forfeit, TPartie.score]

@[simp] theorem countStrike_score (game : TPartie) (p : Player) : (countStrike game).score p = game.score p := by
  cases p <;> rfl

theorem checkRecvrError_eq_some {err : Int} {game game' : TPartie} {playerId : Player} :
    checkRecvrError err game playerId = some game' ↔ err ≤ 0 ∧ forfeit playerId game = game' := by
  simp [checkRecvrError]

theorem checkSendError_eq_some {err : Int} {game game' : TPartie} {playerId : Player} :
    checkSendError err game playerId = some game' ↔ err ≤ 0 ∧ forfeit playerId game = game' := by
  simp [checkSendError]

theorem scores_step {s s' : State} {e : Event} (hinv : Scores s) (h : Step s e s') : Scores s' := by
  cases h with
  | recvPartie1 req hpc | recvPartie2 req hpc | recvCoup t req hpc =>
      exact hinv.of_game (by simp [hpc]) rfl (fun _ => rfl)
  | sendPartie2 hpc => exact hinv.of_game (by simp [hpc]) (orient_gameNumber s) (orient_score s)
  | sendPartie1 hpc | sendMover t hpc | sendOther t hpc | validate t valid prop hpc =>
      exact hinv.of_game (by simp [hpc]) rfl (fun _ => rfl)
  | initialise hpc | restart t hpc => exact hinv.of_game (by simp [hpc]) rfl (fun _ => rfl)
  | relay t hpc =>
      refine hinv.of_game (by simp [hpc]) ?_ ?_
      · rcases t with ⟨_, _ | _⟩ <;> rfl
      · intro p
        rcases t with ⟨_, _ | _⟩ <;> cases p <;> rfl
  | store t hpc =>
      have hgiven := hinv.given (by simp [hpc]) (by simp [hpc])
      have hsum := storeScore_sum t s.moveRep.propCoup s.game
      have hnumber := storeScore_gameNumber t s.moveRep.propCoup s.game
      have hnonneg := storeScore_nonneg t s.moveRep.propCoup hinv.nonneg
      simp only [State.finish]
      split
      · exact ⟨hnonneg, fun hclosing => absurd rfl hclosing⟩
      · refine ⟨fun p => ?_, fun _ _ => ?_⟩
        · simpa only [State.iterate, countStrike_score] using hnonneg p
        · simp only [State.iterate, countStrike]
          omega
  | recvError p playerId err game hpc hcheck =>
      obtain ⟨_, rfl⟩ := checkRecvrError_eq_some.1 hcheck
      exact ⟨forfeit_nonneg playerId hinv.nonneg, fun hclosing => absurd rfl hclosing⟩
  | sendError p playerId err game hpc hcheck =>
      obtain ⟨_, rfl⟩ := checkSendError_eq_some.1 hcheck
      exact ⟨forfeit_nonneg playerId hinv.nonneg, fun hclosing => absurd rfl hclosing⟩
  | sigpipe p playerId hpc =>
      refine ⟨hinv.nonneg, fun _ _ => hinv.given ?_ ?_⟩ <;> intro hclosed <;> simp [hclosed, sendCheck] at hpc
  | endGame hpc => exact ⟨hinv.nonneg, fun _ hexited => absurd rfl hexited⟩

theorem scores {s₀ s : State} {tr : List Event} (h₀ : Initial s₀) (h : Run Step s₀ tr s) : Scores s := by
  refine h.invariant (fun _ s => Scores s) ?_ (fun _ _ _ _ => scores_step)
  refine ⟨fun p => ?_, fun _ _ => ?_⟩
  · cases p <;> simp [TPartie.score, h₀.scorePlayer1, h₀.scorePlayer2]
  · simp [h₀.gameNumber, h₀.scorePlayer1, h₀.scorePlayer2]

theorem sendCheck_playerId {pc : Pc} {p playerId : Player} (h : sendCheck pc = some (p, playerId)) :
    playerId = p := by
  cases pc with
  | sendPartie q =>
      cases q <;> simp only [sendCheck, Option.some.injEq, Prod.mk.injEq] at h <;> exact h.2.symm.trans h.1
  | sendMover t | sendOther t | relay t =>
      simp only [sendCheck, call_sock1, call_sock2, call_playerId, secondPlayerId_eq, Option.some.injEq,
        Prod.mk.injEq] at h
      exact h.2.symm.trans h.1
  | _ => simp [sendCheck] at h

def Calls (s : State) (p : Player) : Prop :=
  ∃ playerId, recvCheck s.pc = some (p, playerId) ∨ sendCheck s.pc = some (p, playerId)

/-- The event of a failed call to `p`, whether or not the call returns. -/
def Failure (p : Player) (e : Event) : Prop := e = .recvError p ∨ e = .sendError p ∨ e = .sigpipe p

def Fails (s : State) (p : Player) (e : Event) (s' : State) : Prop := Failure p e ∧ Step s e s'

theorem fails_calls {s s' : State} {p : Player} {e : Event} (h : Fails s p e s') : Calls s p := by
  obtain ⟨rfl | rfl | rfl, hstep⟩ := h
  · cases hstep with
    | recvError _ playerId err game hpc => exact ⟨playerId, .inl hpc⟩
  · cases hstep with
    | sendError _ playerId err game hpc => exact ⟨playerId, .inr hpc⟩
  · cases hstep with
    | sigpipe _ playerId hpc => exact ⟨playerId, .inr hpc⟩

/-- A call that returns ends the match through `endGame`. -/
theorem returned {s s' : State} {p : Player} {e : Event} (h : Fails s p e s') (he : e ≠ .sigpipe p) :
    s' = { s with game := forfeit p s.game, pc := .closing } := by
  obtain ⟨rfl | rfl | rfl, hstep⟩ := h
  · cases hstep with
    | recvError _ playerId err game hpc hcheck =>
        obtain rfl := (recvCheck_eq_some hpc).1
        obtain ⟨_, rfl⟩ := checkRecvrError_eq_some.1 hcheck
        rfl
  · cases hstep with
    | sendError _ playerId err game hpc hcheck =>
        obtain rfl := sendCheck_playerId hpc
        obtain ⟨_, rfl⟩ := checkSendError_eq_some.1 hcheck
        rfl
  · exact absurd rfl he

theorem piped {s s' : State} {p : Player} (h : Step s (.sigpipe p) s') : s' = { s with pc := .killed } := by
  cases h with
  | sigpipe _ playerId hpc => rfl

/-- Every call of the server can fail and return. -/
theorem calls_fail {s : State} {p : Player} (h : Calls s p) : ∃ e s', Fails s p e s' ∧ e ≠ .sigpipe p := by
  obtain ⟨playerId, hpc | hpc⟩ := h
  · exact ⟨_, _, ⟨.inl rfl, .recvError s p playerId 0 _ hpc (checkRecvrError_eq_some.2 ⟨le_refl 0, rfl⟩)⟩, by simp⟩
  · exact ⟨_, _, ⟨.inr (.inl rfl), .sendError s p playerId 0 _ hpc (checkSendError_eq_some.2 ⟨le_refl 0, rfl⟩)⟩,
      by simp⟩

theorem Calls.open {s : State} {p : Player} (h : Calls s p) : s.pc ≠ .closing ∧ s.pc ≠ .exited := by
  obtain ⟨playerId, hpc | hpc⟩ := h <;> constructor <;> intro h <;> simp [h, recvCheck, sendCheck] at hpc

theorem forfeit_score {game : TPartie} (p : Player) (hnonneg : 0 ≤ game.score p.other)
    (hgiven : game.scorePlayer1 + game.scorePlayer2 ≤ 1) :
    (forfeit p game).score p < (forfeit p game).score p.other := by
  cases p <;> simp only [Player.other, TPartie.score, forfeit] at hnonneg ⊢ <;> simp <;> omega

theorem winner_of_lt {game : TPartie} {p : Player} (h : game.score p < game.score p.other) :
    winner game = some p.other := by
  cases p <;> simp only [Player.other, TPartie.score] at h ⊢ <;> unfold winner
  · rw [if_neg (by omega), if_pos h]
  · rw [if_pos h]

structure Lost (p : Player) (s : State) : Prop where
  behind : s.game.score p < s.game.score p.other
  declared : winner s.game = some p.other
  ends (e : Event) (s' : State) : Step s e s' ↔ e = .endGame s.game ∧ s' = { s with pc := .exited }

theorem closing_step {s s' : State} {e : Event} (hpc : s.pc = .closing) :
    Step s e s' ↔ e = .endGame s.game ∧ s' = { s with pc := .exited } := by
  constructor
  · intro h
    obtain ⟨_, game, rfl⟩ := stopped_step (.inl hpc) h
    cases h with
    | endGame => exact ⟨rfl, rfl⟩
  · rintro ⟨rfl, rfl⟩
    exact .endGame s hpc

theorem fails_lost {s s' : State} {p : Player} {e : Event} (hinv : Scores s) (h : Fails s p e s')
    (he : e ≠ .sigpipe p) : Lost p s' := by
  have hopen := (fails_calls h).open
  obtain rfl := returned h he
  obtain ⟨hgiven, hnumber⟩ := hinv.given hopen.1 hopen.2
  have hbehind := forfeit_score p (hinv.nonneg p.other) (by omega)
  exact ⟨hbehind, winner_of_lt hbehind, fun e s' => closing_step rfl⟩

/-- The server whose send has raised `SIGPIPE` declares no winner. -/
theorem piped_not_lost {s s' : State} {p : Player} (h : Step s (.sigpipe p) s') : ¬ Lost p s' := by
  obtain rfl := piped h
  intro hlost
  exact gone_step (.inr rfl) ((hlost.ends _ _).2 ⟨rfl, rfl⟩)

/-- A player whose connection fails loses the match exactly when the call that
fails returns to the server. -/
theorem failed_player_loses_iff {s₀ s : State} {tr : List Event} (h₀ : Initial s₀) (h : Run Step s₀ tr s)
    (p : Player) (hcalls : Calls s p) :
    s.game.scorePlayer1 + s.game.scorePlayer2 ≤ s.game.gameNumber - 1 ∧
      (∃ e s', Fails s p e s' ∧ e ≠ .sigpipe p) ∧ ∀ e s', Fails s p e s' → (Lost p s' ↔ e ≠ .sigpipe p) := by
  have hinv := scores h₀ h
  refine ⟨(hinv.given hcalls.open.1 hcalls.open.2).1, calls_fail hcalls, fun e s' hfails => ?_⟩
  constructor
  · rintro hlost rfl
    exact piped_not_lost hfails.2 hlost
  · intro he
    exact fails_lost hinv hfails he

section HangUp

def hungUp : List Event :=
  joining start sud sud ++ answering ⟨.player1First, .first⟩ start.moveReq true .cont

def atRelay : State := answered (joined start sud sud) ⟨.player1First, .first⟩ start.moveReq true .cont

theorem hungUp_run : Run Step start hungUp atRelay :=
  (joining_run start sud sud rfl rfl rfl).append
    (answering_run (joined start sud sud) ⟨.player1First, .first⟩ start.moveReq true .cont rfl)

theorem atRelay_piped : Step atRelay (.sigpipe .p2) { atRelay with pc := .killed } :=
  .sigpipe atRelay .p2 .p2 rfl

theorem atRelay_calls : Calls atRelay .p2 := ⟨.p2, .inr rfl⟩

theorem failed_player_loses_iff_hungUp :
    (∃ e s', Fails atRelay .p2 e s' ∧ winner s'.game = some .p1) ∧
      ∃ s', Fails atRelay .p2 (.sigpipe .p2) s' ∧ ¬ Lost .p2 s' := by
  obtain ⟨_, ⟨e, s', hfails, he⟩, hiff⟩ := failed_player_loses_iff start_initial hungUp_run .p2 atRelay_calls
  refine ⟨⟨e, s', hfails, ((hiff e s' hfails).2 he).declared⟩, _, ⟨.inr (.inr rfl), atRelay_piped⟩, fun hlost => ?_⟩
  exact (hiff _ _ ⟨.inr (.inr rfl), atRelay_piped⟩).1 hlost rfl

/-- Player 2 has hung up: its answer still goes out, and the relay kills the
server, which then does nothing more. -/
theorem hungUp_undecided :
    (∀ e s', ¬ Step { atRelay with pc := .killed } e s') ∧
      (∀ game, .endGame game ∉ hungUp ++ [.sigpipe .p2]) ∧
      ¬ ∀ (s₀ s s' : State) (tr : List Event) (p : Player) (e : Event), Initial s₀ → Run Step s₀ tr s →
        Fails s p e s' → Lost p s' := by
  refine ⟨fun e s' => gone_step (.inr rfl), fun game hmem => ?_, fun hall => ?_⟩
  · simp [hungUp, joining, answering] at hmem
  · exact piped_not_lost atRelay_piped
      (hall start atRelay _ hungUp .p2 _ start_initial hungUp_run ⟨.inr (.inr rfl), atRelay_piped⟩)

end HangUp

/-- The player who is still connected is told before the sockets are closed. -/
def Announced (p : Player) (tr : List Event) : Prop :=
  ∃ before rep after, tr = before ++ .send p.other (.coupRep rep) :: after ∧ rep.err = .errCoup ∧
    rep.validCoup = .timeout ∧ ∀ game, .endGame game ∉ before

def NotTimeout (e : Event) : Prop := ∀ p rep, e = .send p (.coupRep rep) → rep.validCoup ≠ .timeout

theorem prepareStrikeAnswer_ne_timeout (validation : Bool) (moveProp : TPropCoup) :
    (prepareStrikeAnswer validation moveProp).validCoup ≠ .timeout := by
  cases validation <;> simp [prepareStrikeAnswer]

theorem history_notTimeout {tr : List Event} {s s' : State} {e : Event} (hinv : History tr s)
    (h : Step s e s') : NotTimeout e := by
  rintro p rep rfl
  cases h with
  | sendMover t hpc | sendOther t hpc =>
      simp only [History, hpc] at hinv
      rw [hinv.rep]
      exact prepareStrikeAnswer_ne_timeout _ _

theorem not_announced {s₀ s : State} {tr : List Event} (h₀ : Initial s₀) (h : Run Step s₀ tr s) (p : Player) :
    ¬ Announced p tr := by
  rintro ⟨before, rep, after, rfl, _, htimeout, _⟩
  have hgood : Throughout (fun _ e => NotTimeout e) (before ++ .send p.other (.coupRep rep) :: after) :=
    h.throughout (fun _ _ => history h₀) (fun _ _ _ _ => history_notTimeout)
  exact hgood before _ after rfl p.other rep rfl htimeout

theorem stopped_run {s s' : State} {tr : List Event} (h : Run Step s tr s') (hstopped : Stopped s) :
    ∀ e ∈ tr, ∃ game, e = .endGame game := by
  refine (h.invariant (fun tr s => Stopped s ∧ ∀ e ∈ tr, ∃ game, e = .endGame game)
    ⟨hstopped, List.forall_mem_nil _⟩ ?_).2
  rintro tr t e u ⟨hstopped, htr⟩ hstep
  obtain ⟨hstopped', hend⟩ := stopped_step hstopped hstep
  exact ⟨hstopped', List.forall_mem_append.2 ⟨htr, List.forall_mem_singleton.2 hend⟩⟩

/-- A forfeit by a failed receive is never announced: the answer with `TIMEOUT`
is filled in and dropped, and nothing at all is sent after the failure. -/
theorem forfeit_not_announced {s₀ s : State} {before after : List Event} {p : Player} (h₀ : Initial s₀)
    (h : Run Step s₀ (before ++ .recvError p :: after) s) :
    ¬ Announced p (before ++ .recvError p :: after) ∧ ∀ q m, .send q m ∉ after := by
  refine ⟨not_announced h₀ h p, fun q m hsend => ?_⟩
  obtain ⟨t, _, hrest⟩ := h.split
  obtain ⟨u, hfail, hafter⟩ := hrest.uncons
  have hstopped : Stopped u := by cases hfail; exact .inl rfl
  obtain ⟨game, hgame⟩ := stopped_run hafter hstopped _ hsend
  cases hgame

section CutOff

def cutOff : List Event :=
  joining start sud sud ++ .recvError .p1 :: [.endGame (forfeit .p1 (joined start sud sud).game)]

theorem cutOff_run : ∃ s, Run Step start cutOff s ∧ s.pc = .exited := by
  have hjoin := joining_run start sud sud rfl rfl rfl
  have hfail := Step.recvError (joined start sud sud) .p1 .p1 0 (forfeit .p1 (joined start sud sud).game) rfl rfl
  refine ⟨_, hjoin.append (Run.append (.single hfail) (.single (.endGame _ rfl))), rfl⟩

theorem forfeit_not_announced_cutOff :
    ¬ Announced .p1 cutOff ∧ ∀ q m, .send q m ∉ [Event.endGame (forfeit .p1 (joined start sud sud).game)] := by
  obtain ⟨_, hrun, _⟩ := cutOff_run
  exact forfeit_not_announced start_initial hrun

theorem cutOff_silent : ¬ ∀ (s₀ s : State) (tr : List Event) (p : Player), Initial s₀ → Run Step s₀ tr s →
    s.pc = .exited → .recvError p ∈ tr → Announced p tr := by
  intro hall
  obtain ⟨s, hrun, hpc⟩ := cutOff_run
  exact not_announced start_initial hrun .p1 (hall start s cutOff .p1 start_initial hrun hpc (by simp [cutOff]))

end CutOff

end YokaiNoMori.Forfeit
