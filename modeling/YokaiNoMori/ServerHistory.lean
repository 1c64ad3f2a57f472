import YokaiNoMori.Serveur

namespace YokaiNoMori.ServerHistory

open ProtocolYokai Runs Serveur

/-- The last move of the game in progress: the connection it was received on,
and what the referee has said about it. -/
structure Played where
  mover : Player
  coup : TCoupReq
  verdict : Option (Bool × TPropCoup)
deriving DecidableEq

def record (last : Option Played) : Event → Option Played
  | .recv p (.coupReq coup) => some ⟨p, coup, none⟩
  | .validationCoup _ _ valid prop => last.map (fun m => { m with verdict := some (valid, prop) })
  | .store _ _ _ _ => none
  | _ => last

def lastMove (tr : List Event) : Option Played := tr.foldl record none

def tick (n : Nat) : Event → Nat
  | .validationCoup _ _ _ _ => n + 1
  | .store _ _ _ _ => 0
  | _ => n

def strikes (tr : List Event) : Nat := tr.foldl tick 0

@[simp] theorem lastMove_nil : lastMove [] = none := rfl

@[simp] theorem lastMove_snoc (tr : List Event) (e : Event) :
    lastMove (tr ++ [e]) = record (lastMove tr) e := by
  simp [lastMove]

@[simp] theorem strikes_nil : strikes [] = 0 := rfl

@[simp] theorem strikes_snoc (tr : List Event) (e : Event) :
    strikes (tr ++ [e]) = tick (strikes tr) e := by
  simp [strikes]

def credited (mover : Player) : TPropCoup → Option Player
  | .gagne => some mover
  | .perdu => some mover.other
  | _ => none

theorem storeScore_score (t : Turn) (prop : TPropCoup) (game : TPartie) (p : Player) :
    (storeScore t prop game).score p = game.score p + if credited t.call.conn prop = some p then 1 else 0 := by
  cases prop <;> cases p <;> cases hc : t.call.conn <;>
    simp [storeScore, TPartie.score, TPartie.incr, credited, hc, Player.other]

theorem storeScore_gameNumber (t : Turn) (prop : TPropCoup) (game : TPartie) :
    (storeScore t prop game).gameNumber = game.gameNumber + 1 := by
  cases prop <;> cases hc : t.call.conn <;> simp [storeScore, TPartie.incr, hc, Player.other]

def Clean (tr : List Event) : Prop := ∀ p, .recvError p ∉ tr ∧ .sendError p ∉ tr

def Verdict (tr : List Event) (prop : TPropCoup) : Prop :=
  ∃ m valid, lastMove tr = some m ∧ m.verdict = some (valid, prop)

structure Judged (tr : List Event) (s : State) (t : Turn) : Prop where
  last : lastMove tr = some ⟨t.call.conn, s.moveReq, some (s.validation, s.moveRep.propCoup)⟩
  rep : s.moveRep = prepareStrikeAnswer s.validation s.moveRep.propCoup

/-- A game is waiting for its next move: for its first one, or right after the
relay of a move that left the game open. -/
def Awaiting (tr : List Event) : Prop :=
  lastMove tr = none ∨
    ∃ before m coup valid, tr = before ++ [.send m (.coupReq coup)] ∧
      lastMove tr = some ⟨m.other, coup, some (valid, .cont)⟩

/-- What the trace says about the last move, place by place. -/
def History (tr : List Event) (s : State) : Prop :=
  match s.pc with
  | .recvCoup _ => Awaiting tr
  | .validate t => lastMove tr = some ⟨t.call.conn, s.moveReq, none⟩
  | .sendMover t | .sendOther t => Judged tr s t
  | .relay t => Judged tr s t ∧ s.moveRep.propCoup = .cont
  | .restart t | .store t => Judged tr s t ∧ s.moveRep.propCoup ≠ .cont
  | .closing | .exited | .killed => True
  | _ => lastMove tr = none

theorem history_loopTop {tr : List Event} {s : State} {b : Bool} {n : Int} (h : Awaiting tr)
    (hpc : s.pc = loopTop b n) : History tr s := by
  rw [loopTop] at hpc
  split at hpc <;> simp only [History, hpc]
  exact h

theorem history_step {tr : List Event} {s s' : State} {e : Event} (hinv : History tr s) (h : Step s e s') :
    History (tr ++ [e]) s' := by
  cases h with
  | recvPartie1 req hpc | recvPartie2 req hpc =>
      simp only [History, hpc] at hinv
      simp [History, State.answer, hinv, record]
  | sendPartie1 hpc =>
      simp only [History, hpc] at hinv
      simp [History, hinv, record]
  | sendPartie2 hpc =>
      simp only [History, hpc] at hinv
      by_cases hres : s.res = -1 <;> simp [History, State.orient, hres, hinv, record]
  | initialise hpc =>
      simp only [History, hpc] at hinv
      exact history_loopTop (.inl (by simp [hinv, record])) rfl
  | recvCoup t req hpc => simp [History, record]
  | validate t valid prop hpc =>
      simp only [History, hpc] at hinv
      refine ⟨?_, ?_⟩
      · cases valid <;> simp [hinv, record, State.judge, prepareStrikeAnswer]
      · cases valid <;> simp [State.judge, prepareStrikeAnswer]
  | sendMover t hpc =>
      simp only [History, hpc] at hinv
      exact ⟨by simp [hinv.last, record], hinv.rep⟩
  | sendOther t hpc =>
      simp only [History, hpc] at hinv
      have hj : Judged (tr ++ [.send t.call.sock2 (.coupRep s.moveRep)])
          { s with pc := if s.moveRep.propCoup = .cont then .relay t else .restart t } t :=
        ⟨by simp [hinv.last, record], hinv.rep⟩
      by_cases hprop : s.moveRep.propCoup = .cont
      · simp only [hprop, if_true] at hj
        simpa only [History, hprop, if_true] using ⟨hj, trivial⟩
      · simp only [hprop, if_false] at hj
        simpa only [History, hprop, if_false] using ⟨hj, hprop⟩
  | relay t hpc =>
      simp only [History, hpc] at hinv
      obtain ⟨hj, hprop⟩ := hinv
      have hawait : Awaiting (tr ++ [.send t.call.sock2 (.coupReq s.moveReq)]) := by
        refine .inr ⟨tr, t.call.sock2, s.moveReq, s.validation, rfl, ?_⟩
        simp [record, hj.last, hprop]
      rw [State.continue]
      split
      · exact hawait
      · exact history_loopTop hawait rfl
  | restart t hpc =>
      simp only [History, hpc] at hinv
      exact ⟨⟨by simp [hinv.1.last, record], hinv.1.rep⟩, hinv.2⟩
  | store t hpc =>
      simp only [State.finish]
      split
      · trivial
      · exact history_loopTop (.inl (by simp [record])) rfl
  | recvError p playerId err game hpc hcheck | sendError p playerId err game hpc hcheck | sigpipe p playerId hpc
  | endGame hpc =>
      trivial

theorem history {s₀ s : State} {tr : List Event} (h₀ : Initial s₀) (h : Run Step s₀ tr s) : History tr s := by
  refine h.invariant History ?_ (fun _ _ _ _ => history_step)
  simp [History, h₀.pc]

theorem Verdict.unique {tr : List Event} {prop prop' : TPropCoup} (h : Verdict tr prop)
    (h' : Verdict tr prop') : prop = prop' := by
  obtain ⟨m, valid, hlast, hverdict⟩ := h
  obtain ⟨m', valid', hlast', hverdict'⟩ := h'
  obtain rfl : m = m' := Option.some.inj (hlast.symm.trans hlast')
  exact congrArg Prod.snd (Option.some.inj (hverdict.symm.trans hverdict'))

theorem sent_verdict {tr : List Event} {s s' : State} {p : Player} {rep : TCoupRep} (hinv : History tr s)
    (h : Step s (.send p (.coupRep rep)) s') : Verdict tr rep.propCoup := by
  cases h with
  | sendMover t hpc | sendOther t hpc =>
      simp only [History, hpc] at hinv
      exact ⟨_, _, hinv.last, rfl⟩

end YokaiNoMori.ServerHistory
