import YokaiNoMori.Client
import YokaiNoMori.Dialogue

namespace YokaiNoMori.ClientDialogue

open ProtocolYokai Client Dialogue

variable {c c' : State}

def number : Game → Nat
  | .game1 => 1
  | .game2 => 2

def role (sens : Bool) : Game → Role
  | .game1 => if sens then .first else .second
  | .game2 => if sens then .second else .first

/-- The results of the games before this one. -/
def won (c : State) : Game → List Bool
  | .game1 => []
  | .game2 => [c.winFirstGame]

def clientView (c : State) : View :=
  match c.pc with
  | .sendPartie => ⟨.request, false, []⟩
  | .recvPartie => ⟨.reply, false, []⟩
  | .sendSens => opening c.sens []
  | .getCoup b | .sendCoup b | .forward b => ⟨.move, c.sens, won c b.game⟩
  | .recvRep b => ⟨.answer, c.sens, won c b.game⟩
  | .recvEnnemyRep b => ⟨.listen, c.sens, won c b.game⟩
  | .recvEnnemyCoup b => ⟨.relay, c.sens, won c b.game⟩
  | .notify b => opening c.sens (won c b.game ++ [decide (c.repCoup.propCoup = .gagne)])
  | .notifyEnnemy b => opening c.sens (won c b.game ++ [c.win b.game])
  | .done => opening c.sens [c.winFirstGame, c.winSecondGame]

/-- The branch is the one the orientation asks for, and the flags from its game
on are down. -/
structure InGame (c : State) (b : Branch) : Prop where
  role : b.role = role c.sens b.game
  winSecondGame : c.winSecondGame = false
  winFirstGame : b.game = .game1 → c.winFirstGame = false

theorem InGame.frame {b : Branch} (h : InGame c b) (hsens : c'.sens = c.sens)
    (hfirst : c'.winFirstGame = c.winFirstGame) (hsecond : c'.winSecondGame = c.winSecondGame) : InGame c' b where
  role := by rw [hsens]; exact h.role
  winSecondGame := hsecond.trans h.winSecondGame
  winFirstGame hgame := hfirst.trans (h.winFirstGame hgame)

theorem InGame.win {b : Branch} (h : InGame c b) : c.win b.game = false := by
  rcases b with ⟨_ | _, r⟩
  · exact h.winFirstGame rfl
  · exact h.winSecondGame

def Consistent (c : State) : Prop :=
  match c.pc with
  | .sendPartie | .recvPartie | .sendSens =>
      c.nbPartie = 1 ∧ c.winFirstGame = false ∧ c.winSecondGame = false
  | .getCoup b | .sendCoup b | .forward b | .recvRep b | .recvEnnemyRep b | .recvEnnemyCoup b =>
      InGame c b ∧ c.nbPartie = number b.game
  | .notify b => InGame c b ∧ c.nbPartie = number b.game + 1
  | .notifyEnnemy b => (b.game = .game1 → c.winSecondGame = false) ∧ c.nbPartie = number b.game + 1
  | .done => True

theorem won_length (c : State) (g : Game) : (won c g).length + 1 = number g := by
  cases g <;> rfl

theorem loopTop_open (sens : Bool) (g : Game) :
    loopTop g sens (number g) =
      match role sens g with
      | .first => .getCoup ⟨g, .first⟩
      | .second => .recvEnnemyRep ⟨g, .second⟩ := by
  cases g <;> cases sens <;> rfl

theorem iterate_open {b : Branch} (h : InGame c b) (hnb : c.nbPartie = number b.game) :
    Consistent (c.iterate b) ∧
      clientView (c.iterate b) = ⟨if b.role = .first then .move else .listen, c.sens, won c b.game⟩ := by
  rcases b with ⟨g, r⟩
  obtain rfl : r = role c.sens g := h.role
  have htop : loopTop g c.sens c.nbPartie = _ := hnb ▸ loopTop_open c.sens g
  cases hr : role c.sens g with
  | first | second =>
      simp only [hr] at h htop
      simp only [State.iterate, htop, Consistent, clientView]
      exact ⟨⟨h.frame rfl rfl rfl, hnb⟩, rfl⟩

theorem opening_won (c : State) (g : Game) :
    (⟨if role c.sens g = .first then .move else .listen, c.sens, won c g⟩ : View) = opening c.sens (won c g) := by
  cases g <;> cases hs : c.sens <;> rfl

theorem iterate_over {b : Branch} (h : b.game = .game1 → c.winSecondGame = false)
    (hnb : c.nbPartie = number b.game + 1) :
    Consistent (c.iterate b) ∧ clientView (c.iterate b) = opening c.sens (won c b.game ++ [c.win b.game]) := by
  rcases b with ⟨_ | _, r⟩
  · have hloop : c.iterate ⟨.game1, r⟩ = c.iterate ⟨.game2, role c.sens .game2⟩ := by
      simp only [State.iterate, hnb]
      rfl
    obtain ⟨hcons, hview⟩ := iterate_open (⟨rfl, h rfl, nofun⟩ : InGame c ⟨.game2, role c.sens .game2⟩) hnb
    rw [hloop]
    exact ⟨hcons, hview.trans (opening_won c .game2)⟩
  · have hpc : (c.iterate ⟨.game2, r⟩).pc = .done := by
      simp only [State.iterate, hnb]
      rfl
    simp only [Consistent, clientView, hpc]
    exact ⟨trivial, rfl⟩

theorem answered_dialogue {b : Branch} (rep : TCoupRep) (h : InGame c b) (hnb : c.nbPartie = number b.game) :
    Consistent (c.answered b rep) ∧
      some (clientView (c.answered b rep)) = hears ⟨.answer, c.sens, won c b.game⟩ (.coupRep rep) := by
  by_cases hprop : rep.propCoup = .cont
  · have hview : hears ⟨.answer, c.sens, won c b.game⟩ (.coupRep rep) = some ⟨.listen, c.sens, won c b.game⟩ := by
      simp [hears, hprop]
    rw [hview, State.answered, if_neg (not_not.2 hprop)]
    cases hr : b.role with
    | first => exact ⟨⟨h.frame rfl rfl rfl, hnb⟩, rfl⟩
    | second =>
        obtain ⟨hcons, hopen⟩ := iterate_open (h.frame rfl rfl rfl : InGame { c with repCoup := rep } b) hnb
        exact ⟨hcons, by rw [hopen, hr]; rfl⟩
  · have hview : hears ⟨.answer, c.sens, won c b.game⟩ (.coupRep rep) =
        some (opening c.sens (won c b.game ++ [decide (rep.propCoup = .gagne)])) := by
      simp [hears, hprop]
    rw [hview, State.answered, if_pos hprop]
    exact ⟨⟨h.frame rfl rfl rfl, by rw [hnb]⟩, rfl⟩

theorem setWin_dialogue {b : Branch} (h : InGame c b) (p : Prop) [Decidable p] :
    (if p then c.setWin b.game else c).win b.game = decide p ∧
      won (if p then c.setWin b.game else c) b.game = won c b.game ∧
      (if p then c.setWin b.game else c).sens = c.sens ∧
      (if p then c.setWin b.game else c).nbPartie = c.nbPartie ∧
      (b.game = .game1 → (if p then c.setWin b.game else c).winSecondGame = false) := by
  have hwin := h.win
  have hsecond := h.winSecondGame
  by_cases hp : p
  · rcases b with ⟨_ | _, r⟩ <;> simp [hp, State.setWin, State.win, won, hsecond]
  · simp [hp, hwin, hsecond]

theorem notified_dialogue {b : Branch} (h : InGame c b) (hnb : c.nbPartie = number b.game + 1) :
    Consistent (c.notified b) ∧ clientView (c.notified b) =
      opening c.sens (won c b.game ++ [decide (c.repCoup.propCoup = .gagne)]) := by
  obtain ⟨hwin, hwon, hsens, hnb', hsecond⟩ := setWin_dialogue h (c.repCoup.propCoup = .gagne)
  obtain ⟨hcons, hview⟩ := iterate_over hsecond (hnb'.trans hnb)
  exact ⟨hcons, by rw [State.notified, hview, hwin, hwon, hsens]⟩

theorem ennemyAnswered_dialogue {b : Branch} (rep : TCoupRep) (recvIa : TCoupIa) (coup : TCoupReq)
    (h : InGame c b) (hnb : c.nbPartie = number b.game) :
    Consistent (c.ennemyAnswered b rep recvIa coup) ∧
      some (clientView (c.ennemyAnswered b rep recvIa coup)) =
        hears ⟨.listen, c.sens, won c b.game⟩ (.coupRep rep) := by
  by_cases hprop : rep.propCoup = .cont
  · rw [State.ennemyAnswered, if_pos hprop]
    exact ⟨⟨h.frame rfl rfl rfl, hnb⟩, by simp only [hears, hprop, if_true]; rfl⟩
  · obtain ⟨hwin, hwon, hsens, _, hsecond⟩ := setWin_dialogue h (rep.propCoup = .perdu)
    have hview : hears ⟨.listen, c.sens, won c b.game⟩ (.coupRep rep) =
        some (opening c.sens (won c b.game ++ [decide (rep.propCoup = .perdu)])) := by
      simp [hears, hprop]
    rw [hview, ← hwin, ← hwon, ← hsens, State.ennemyAnswered, if_neg hprop]
    exact ⟨⟨hsecond, by rw [hnb]⟩, rfl⟩

theorem forwarded_dialogue {b : Branch} (h : InGame c b) (hnb : c.nbPartie = number b.game) :
    Consistent (c.forwarded b) ∧ clientView (c.forwarded b) = ⟨.move, c.sens, won c b.game⟩ := by
  cases hr : b.role with
  | first =>
      obtain ⟨hcons, hview⟩ := iterate_open h hnb
      simp only [State.forwarded, hr]
      exact ⟨hcons, by rw [hview, hr]; rfl⟩
  | second =>
      simp only [State.forwarded, hr]
      exact ⟨⟨h.frame rfl rfl rfl, hnb⟩, rfl⟩

theorem client_speaks {m : Msg} (h : Consistent c) (hstep : Step c (.send m) c') :
    Consistent c' ∧ asks (clientView c) m = some (clientView c') := by
  cases hstep with
  | sendPartie hpc =>
      simp only [Consistent, hpc] at h
      exact ⟨h, by simp [clientView, hpc, asks]⟩
  | sendCoup b reqCoup hpc =>
      simp only [Consistent, hpc] at h
      have hnum : (c.nbPartie : Int) = (won c b.game).length + 1 := by
        rw [h.2, ← won_length c]
        rfl
      exact ⟨⟨h.1.frame rfl rfl rfl, h.2⟩,
        by simp [clientView, hpc, asks, convertAItoServer, hnum]; rfl⟩

theorem client_hears {m : Msg} {v : View} (h : Consistent c) (hm : hears (clientView c) m = some v)
    (hstep : Step c (.recv m) c') : Consistent c' ∧ clientView c' = v := by
  cases hstep with
  | recvPartie rep hpc =>
      simp only [Consistent, hpc] at h
      simp only [clientView, hpc] at hm
      exact ⟨h, Option.some.inj hm⟩
  | recvRep b rep hpc =>
      simp only [Consistent, hpc] at h
      simp only [clientView, hpc] at hm
      obtain ⟨hcons, hview⟩ := answered_dialogue rep h.1 h.2
      exact ⟨hcons, Option.some.inj (hview.trans hm)⟩
  | recvEnnemyRep b rep recvIa coup hpc =>
      simp only [Consistent, hpc] at h
      simp only [clientView, hpc] at hm
      obtain ⟨hcons, hview⟩ := ennemyAnswered_dialogue rep recvIa coup h.1 h.2
      exact ⟨hcons, Option.some.inj (hview.trans hm)⟩
  | recvEnnemyCoup b recvIa coup hpc =>
      simp only [Consistent, hpc] at h
      simp only [clientView, hpc] at hm
      exact ⟨⟨h.1.frame rfl rfl rfl, h.2⟩, Option.some.inj hm⟩

/-- What passes between a client and its AI is no part of the conversation. -/
theorem client_works {e : Event} (h : Consistent c) (he : WithAi e) (hstep : Step c e c') :
    Consistent c' ∧ clientView c' = clientView c := by
  cases hstep with
  | sendPartie | recvPartie | sendCoup | recvRep | recvEnnemyRep | recvEnnemyCoup => exact he.elim
  | sendSens hpc =>
      simp only [Consistent, hpc] at h
      obtain ⟨hcons, hview⟩ := iterate_open (⟨rfl, h.2.2, fun _ => h.2.1⟩ : InGame c ⟨.game1, role c.sens .game1⟩) h.1
      exact ⟨hcons, by simp only [clientView, hpc]; exact hview.trans (opening_won c .game1)⟩
  | getCoup b coupIa hpc =>
      simp only [Consistent, hpc] at h
      exact ⟨⟨h.1.frame rfl rfl rfl, h.2⟩, by simp only [clientView, hpc]; rfl⟩
  | notify b hpc =>
      simp only [Consistent, hpc] at h
      obtain ⟨hcons, hview⟩ := notified_dialogue h.1 h.2
      exact ⟨hcons, by rw [hview]; simp only [clientView, hpc]⟩
  | notifyEnnemy b hpc =>
      simp only [Consistent, hpc] at h
      obtain ⟨hcons, hview⟩ := iterate_over h.1 h.2
      exact ⟨hcons, by rw [hview]; simp only [clientView, hpc]⟩
  | forward b hpc =>
      simp only [Consistent, hpc] at h
      obtain ⟨hcons, hview⟩ := forwarded_dialogue h.1 h.2
      exact ⟨hcons, by rw [hview]; simp only [clientView, hpc]⟩

end YokaiNoMori.ClientDialogue
