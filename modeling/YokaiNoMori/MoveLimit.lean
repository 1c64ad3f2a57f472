import YokaiNoMori.ServerHistory
import YokaiNoMori.ServerRuns

namespace YokaiNoMori.MoveLimit

open ProtocolYokai Runs Serveur ServerHistory ServerRuns

/-- The move limit, event by event: no game has a move after its 60th one, that
one is answered `NUL` and changes no score, and the answers before it are the
referee's own. -/
def Limited (before : List Event) : Event → Prop
  | .recv _ (.coupReq _) | .validationCoup _ _ _ _ | .send _ (.coupReq _) => strikes before < 2 * nbCoupMax
  | .send _ (.coupRep rep) =>
      (strikes before = 2 * nbCoupMax → rep.propCoup = .nul) ∧
        (strikes before < 2 * nbCoupMax → Verdict before rep.propCoup)
  | .store _ _ game game' => strikes before = 2 * nbCoupMax → ∀ p, game'.score p = game.score p
  | _ => True

/-- The referee itself says `NUL` of every 60th move that is answered. -/
def RefereeDraws (before : List Event) : Event → Prop
  | .send _ (.coupRep _) => strikes before = 2 * nbCoupMax → Verdict before .nul
  | _ => True

def Bounded (tr : List Event) (s : State) : Prop :=
  match s.pc with
  | .recvCoup _ | .validate _ | .relay _ => strikes tr < 2 * nbCoupMax
  | .sendOther _ | .restart _ | .store _ =>
      strikes tr ≤ 2 * nbCoupMax ∧ (strikes tr = 2 * nbCoupMax → s.moveRep.propCoup = .nul)
  | .sendMover _ | .closing | .exited | .killed => strikes tr ≤ 2 * nbCoupMax
  | _ => strikes tr = 0

theorem bounded_le {tr : List Event} {s : State} (h : Bounded tr s) : strikes tr ≤ 2 * nbCoupMax := by
  rw [Bounded] at h
  split at h <;> omega

theorem bounded_loopTop {tr : List Event} {s : State} {b : Bool} {n : Int} (h : strikes tr < 2 * nbCoupMax)
    (hpc : s.pc = loopTop b n) : Bounded tr s := by
  rw [loopTop] at hpc
  split at hpc <;> simp only [Bounded, hpc] <;> omega

theorem bounded_step {tr : List Event} {s s' : State} {e : Event} (hhist : History tr s)
    (hinv : Bounded tr s) (hdraws : RefereeDraws tr e) (h : Step s e s') : Bounded (tr ++ [e]) s' := by
  cases h with
  | recvPartie1 req hpc | recvPartie2 req hpc | sendPartie1 hpc =>
      simp only [Bounded, hpc] at hinv
      simp [Bounded, State.answer, hinv, tick]
  | sendPartie2 hpc =>
      simp only [Bounded, hpc] at hinv
      by_cases hres : s.res = -1 <;> simp [Bounded, State.orient, hres, hinv, tick]
  | initialise hpc =>
      simp only [Bounded, hpc] at hinv
      exact bounded_loopTop (by simp [hinv, tick, nbCoupMax]) rfl
  | recvCoup t req hpc =>
      simp only [Bounded, hpc] at hinv
      simpa [Bounded, tick] using hinv
  | validate t valid prop hpc =>
      simp only [Bounded, hpc] at hinv
      simp only [Bounded, State.judge, strikes_snoc, tick]
      omega
  | sendMover t hpc =>
      have hverdict := sent_verdict hhist (.sendMover s t hpc)
      simp only [Bounded, hpc] at hinv
      simp only [Bounded, strikes_snoc, tick]
      exact ⟨hinv, fun hlast => hverdict.unique (hdraws hlast)⟩
  | sendOther t hpc =>
      simp only [Bounded, hpc] at hinv
      by_cases hprop : s.moveRep.propCoup = .cont
      · simp only [Bounded, hprop, if_true, strikes_snoc, tick]
        have hne : strikes tr ≠ 2 * nbCoupMax := fun hlast => by simp [hinv.2 hlast] at hprop
        omega
      · simpa only [Bounded, hprop, if_false, strikes_snoc, tick] using hinv
  | relay t hpc =>
      simp only [Bounded, hpc] at hinv
      have hlt : strikes (tr ++ [.send t.call.sock2 (.coupReq s.moveReq)]) < 2 * nbCoupMax := by
        simpa [tick] using hinv
      rw [State.continue]
      split
      · exact hlt
      · exact bounded_loopTop hlt rfl
  | restart t hpc =>
      simp only [Bounded, hpc] at hinv
      simpa [Bounded, tick] using hinv
  | store t hpc =>
      simp only [State.finish]
      split
      · simp [Bounded, tick]
      · exact bounded_loopTop (by simp [tick, nbCoupMax]) rfl
  | recvError p playerId err game hpc hcheck | sendError p playerId err game hpc hcheck | sigpipe p playerId hpc
  | endGame hpc =>
      simpa [Bounded, tick] using bounded_le hinv

theorem bounded {s₀ s : State} {tr : List Event} (h₀ : Initial s₀) (h : Run Step s₀ tr s)
    (hdraws : Throughout RefereeDraws tr) : Bounded tr s := by
  induction h with
  | nil => simp [Bounded, h₀.pc]
  | snoc hr hs ih =>
      obtain ⟨hdraws, hlast⟩ := (throughout_snoc _ _ _).1 hdraws
      exact bounded_step (history h₀ hr) (ih hdraws) hlast hs

theorem limited_step {tr : List Event} {s s' : State} {e : Event} (hhist : History tr s)
    (hinv : Bounded tr s) (hdraws : RefereeDraws tr e) (h : Step s e s') : Limited tr e := by
  cases h with
  | recvCoup t req hpc | validate t valid prop hpc | relay t hpc =>
      simp only [Bounded, hpc] at hinv
      exact hinv
  | sendMover t hpc =>
      have hverdict := sent_verdict hhist (.sendMover s t hpc)
      exact ⟨fun hlast => hverdict.unique (hdraws hlast), fun _ => hverdict⟩
  | sendOther t hpc =>
      have hverdict := sent_verdict hhist (.sendOther s t hpc)
      exact ⟨fun hlast => hverdict.unique (hdraws hlast), fun _ => hverdict⟩
  | store t hpc =>
      simp only [Bounded, hpc] at hinv
      intro hlast p
      rw [hinv.2 hlast]
      cases p <;> rfl
  | _ => trivial

theorem refereeDraws_step {tr : List Event} {s s' : State} {e : Event} (hhist : History tr s)
    (hlimited : Limited tr e) (h : Step s e s') : RefereeDraws tr e := by
  cases h with
  | sendMover t hpc =>
      intro hlast
      exact hlimited.1 hlast ▸ sent_verdict hhist (.sendMover s t hpc)
  | sendOther t hpc =>
      intro hlast
      exact hlimited.1 hlast ▸ sent_verdict hhist (.sendOther s t hpc)
  | _ => trivial

/-- The server does not enforce the limit itself. -/
theorem limited_iff_refereeDraws {s₀ s : State} {tr : List Event} (h₀ : Initial s₀) (h : Run Step s₀ tr s) :
    Throughout Limited tr ↔ Throughout RefereeDraws tr := by
  apply h.throughout_iff
  intro tr s e s' hrun _ hdraws hstep
  have hhist := history h₀ hrun
  constructor
  · intro hlimited
    exact refereeDraws_step hhist hlimited hstep
  · intro hlast
    exact limited_step hhist (bounded h₀ hrun hdraws) hlast hstep

/-- What `nbStrike` makes of the length of a game: it counts iterations of two
moves, and game 2 starts with one. -/
def counted (game : TPartie) : Half → Int
  | .first => 2 * (game.nbStrike - if game.gameNumber = 1 then 0 else 1)
  | .second => 2 * (game.nbStrike - if game.gameNumber = 1 then 0 else 1) + 1

def Counted (tr : List Event) (s : State) : Prop :=
  match s.pc with
  | .recvCoup t | .validate t => 1 ≤ s.game.gameNumber ∧ strikes tr = counted s.game t.half
  | .sendMover t | .sendOther t | .relay t | .restart t | .store t =>
      1 ≤ s.game.gameNumber ∧ strikes tr = counted s.game t.half + 1
  | .closing | .exited | .killed => True
  | _ => s.game.gameNumber = 1 ∧ strikes tr = 0 ∧ s.game.nbStrike = 0

theorem counted_loopTop {tr : List Event} {s : State} {b : Bool} {n : Int} (hnumber : 1 ≤ s.game.gameNumber)
    (h : strikes tr = counted s.game .first) (hpc : s.pc = loopTop b n) : Counted tr s := by
  rw [loopTop] at hpc
  split at hpc <;> simp only [Counted, hpc]
  exact ⟨hnumber, h⟩

theorem counted_step {tr : List Event} {s s' : State} {e : Event} (hinv : Counted tr s) (h : Step s e s') :
    Counted (tr ++ [e]) s' := by
  cases h with
  | recvPartie1 req hpc | recvPartie2 req hpc | sendPartie1 hpc =>
      simp only [Counted, hpc] at hinv
      simp [Counted, State.answer, hinv, tick]
  | sendPartie2 hpc =>
      simp only [Counted, hpc] at hinv
      by_cases hres : s.res = -1 <;> simp [Counted, State.orient, hres, hinv, tick]
  | initialise hpc =>
      simp only [Counted, hpc] at hinv
      exact counted_loopTop (by simp [hinv]) (by simp [counted, hinv, tick]) rfl
  | recvCoup t req hpc | sendMover t hpc | restart t hpc =>
      simp only [Counted, hpc] at hinv
      simpa [Counted, tick] using hinv
  | validate t valid prop hpc =>
      simp only [Counted, hpc] at hinv
      simp [Counted, State.judge, tick, hinv]
  | sendOther t hpc =>
      simp only [Counted, hpc] at hinv
      by_cases hprop : s.moveRep.propCoup = .cont <;> simpa [Counted, hprop, tick] using hinv
  | relay t hpc =>
      simp only [Counted, hpc] at hinv
      rcases t with ⟨r, _ | _⟩
      · simp only [Counted, State.continue, strikes_snoc, tick]
        exact hinv
      · refine counted_loopTop hinv.1 ?_ rfl
        simp only [counted] at hinv
        simp only [strikes_snoc, tick, counted, State.continue, State.iterate, countStrike]
        omega
  | store t hpc =>
      simp only [Counted, hpc] at hinv
      have hnumber := storeScore_gameNumber t s.moveRep.propCoup s.game
      have hstrike : (storeScore t s.moveRep.propCoup s.game).nbStrike = 0 := rfl
      have hne : (storeScore t s.moveRep.propCoup s.game).gameNumber ≠ 1 := by omega
      rw [State.finish]
      split
      · trivial
      · refine counted_loopTop ?_ ?_ rfl
        · simp only [State.iterate, countStrike]
          omega
        · simp [tick, counted, State.iterate, countStrike, hstrike, hne]
  | recvError p playerId err game hpc hcheck | sendError p playerId err game hpc hcheck | sigpipe p playerId hpc
  | endGame hpc =>
      trivial

/-- The test for a draw first succeeds on the 121st move of game 1 and on the
119th move of game 2, twice as late as `nbCoupMax` asks for. -/
theorem draw_test {s₀ s : State} {tr : List Event} {t : Turn} (h₀ : Initial s₀) (h : Run Step s₀ tr s)
    (hpc : s.pc = .validate t) :
    s.game.nbStrike ≥ 60 ↔ strikes tr ≥ if s.game.gameNumber = 1 then 120 else 118 := by
  have hinv : Counted tr s := by
    apply h.invariant Counted
    · simp [Counted, h₀.pc, h₀.gameNumber, h₀.nbStrike]
    · intro tr t e u hinv hstep
      exact counted_step hinv hstep
  simp only [Counted, hpc] at hinv
  by_cases hgame : s.game.gameNumber = 1
  · rw [if_pos hgame]
    rcases t with ⟨r, _ | _⟩ <;> simp only [counted, if_pos hgame] at hinv <;> omega
  · rw [if_neg hgame]
    rcases t with ⟨r, _ | _⟩ <;> simp only [counted, if_neg hgame] at hinv <;> omega

theorem strikes_openGame (tr : List Event) (r : Round) (coup : TCoupReq) (n : Nat) :
    strikes (tr ++ openGame r coup n) = strikes tr + 2 * n := by
  induction n with
  | zero => simp [openGame]
  | succ n ih =>
      rw [openGame, ← List.append_assoc, strikes, List.foldl_append, ← strikes, ih]
      simp [openTurn, relaying, answering, tick]
      omega

theorem clean_openGame (r : Round) (coup : TCoupReq) (n : Nat) : Clean (openGame r coup n) := by
  intro p
  induction n with
  | zero => simp [openGame]
  | succ n ih => simpa [openGame, openTurn, relaying, answering] using ih

def longGame : List Event :=
  joining start sud sud ++ openGame .player1First start.moveReq nbCoupMax ++ [.recv .p1 (.coupReq start.moveReq)]

theorem longGame_run : ∃ s, Run Step start longGame s := by
  obtain ⟨s, hrun, hpc⟩ := openGame_run (joined start sud sud) .player1First start.moveReq rfl rfl nbCoupMax
  have hmore := Step.recvCoup s ⟨.player1First, .first⟩ start.moveReq hpc
  exact ⟨_, .snoc ((joining_run start sud sud rfl rfl rfl).append hrun) hmore⟩

theorem longGame_clean : Clean longGame := by
  intro p
  have h := clean_openGame .player1First start.moveReq nbCoupMax p
  simp [longGame, joining, h.1, h.2]

theorem limited_iff_refereeDraws_longGame : Throughout Limited longGame ↔ Throughout RefereeDraws longGame := by
  obtain ⟨_, hrun⟩ := longGame_run
  exact limited_iff_refereeDraws start_initial hrun

theorem longGame_unlimited : ¬ ∀ (s₀ s : State) (tr : List Event), Initial s₀ → Run Step s₀ tr s → Clean tr →
    Throughout Limited tr := by
  intro hall
  obtain ⟨s, hrun⟩ := longGame_run
  have hlimited := hall start s longGame start_initial hrun longGame_clean
  have hlast : strikes (joining start sud sud ++ openGame .player1First start.moveReq nbCoupMax) < 2 * nbCoupMax :=
    ((throughout_snoc _ _ _).1 hlimited).2
  rw [strikes_openGame] at hlast
  omega

end YokaiNoMori.MoveLimit
