import YokaiNoMori.ProtocolYokai

namespace YokaiNoMori.Client

open ProtocolYokai

inductive Game
  | game1 | game2
deriving DecidableEq, Repr

/-- The two branches of a loop: the client moves first, or its opponent does. -/
inductive Role
  | first | second
deriving DecidableEq, Repr

structure Branch where
  game : Game
  role : Role
deriving DecidableEq, Repr

/-- Where `main` stands. In `notify` and `notifyEnnemy` the end of the game is
known, and the AI is about to be told. -/
inductive Pc
  | sendPartie
  | recvPartie
  | sendSens
  | getCoup (b : Branch)
  | sendCoup (b : Branch)
  | recvRep (b : Branch)
  | notify (b : Branch)
  | recvEnnemyRep (b : Branch)
  | recvEnnemyCoup (b : Branch)
  | notifyEnnemy (b : Branch)
  | forward (b : Branch)
  | done
deriving DecidableEq, Repr

structure State where
  pc : Pc
  name : Nom
  nbPartie : Nat
  sens : Bool
  winFirstGame : Bool
  winSecondGame : Bool
  coupIa : TCoupIa
  recvIa : TCoupIa
  repCoup : TCoupRep

structure Initial (s : State) : Prop where
  pc : s.pc = .sendPartie
  nbPartie : s.nbPartie = 1
  winFirstGame : s.winFirstGame = false
  winSecondGame : s.winSecondGame = false

def loop2 (sens : Bool) (nbPartie : Nat) : Pc :=
  if nbPartie = 2 then
    if sens = false then .getCoup ⟨.game2, .first⟩ else .recvEnnemyRep ⟨.game2, .second⟩
  else .done

def loop1 (sens : Bool) (nbPartie : Nat) : Pc :=
  if nbPartie = 1 then
    if sens = true then .getCoup ⟨.game1, .first⟩ else .recvEnnemyRep ⟨.game1, .second⟩
  else loop2 sens nbPartie

def loopTop : Game → Bool → Nat → Pc
  | .game1 => loop1
  | .game2 => loop2

def State.win (s : State) : Game → Bool
  | .game1 => s.winFirstGame
  | .game2 => s.winSecondGame

def State.setWin (s : State) : Game → State
  | .game1 => { s with winFirstGame := true }
  | .game2 => { s with winSecondGame := true }

def State.iterate (s : State) (b : Branch) : State :=
  { s with pc := loopTop b.game s.sens s.nbPartie }

def State.answered (s : State) (b : Branch) (rep : TCoupRep) : State :=
  if rep.propCoup ≠ .cont then
    { s with repCoup := rep, nbPartie := s.nbPartie + 1, coupIa := { s.coupIa with finPartie := 1 }, pc := .notify b }
  else
    match b.role with
    | .first => { s with repCoup := rep, pc := .recvEnnemyRep b }
    | .second => State.iterate { s with repCoup := rep } b

def State.notified (s : State) (b : Branch) : State :=
  (if s.repCoup.propCoup = .gagne then s.setWin b.game else s).iterate b

/-- `readEnnemyAction` has received its `TCoupRep`. When that ends the game, the
move it converts is a local variable it has not written. -/
def State.ennemyAnswered (s : State) (b : Branch) (rep : TCoupRep) (recvIa : TCoupIa) (coup : TCoupReq) : State :=
  if rep.propCoup = .cont then { s with pc := .recvEnnemyCoup b }
  else
    let won := if rep.propCoup = .perdu then s.setWin b.game else s
    { won with recvIa := convertServerToAI recvIa coup true, nbPartie := s.nbPartie + 1, pc := .notifyEnnemy b }

def State.forwarded (s : State) (b : Branch) : State :=
  match b.role with
  | .first => s.iterate b
  | .second => { s with pc := .getCoup b }

inductive Event
  | send (m : Msg)
  | recv (m : Msg)
  | sendSens (sens : Bool)
  | getCoupFromAI (coupIa : TCoupIa)
  | sendCoupToAI (coupIa : TCoupIa)

def WithAi : Event → Prop
  | .sendSens _ | .getCoupFromAI _ | .sendCoupToAI _ => True
  | _ => False

/-- One call of `main` on a socket. The variables a loop declares start each
iteration with any content. -/
inductive Step : State → Event → State → Prop
  | sendPartie (s) (hpc : s.pc = .sendPartie) :
      Step s (.send (.partieReq ⟨.partie, s.name, .sud⟩)) { s with pc := .recvPartie }
  | recvPartie (s) (rep) (hpc : s.pc = .recvPartie) :
      Step s (.recv (.partieRep rep)) { s with sens := decide (rep.validSensTete = .ok), pc := .sendSens }
  | sendSens (s) (hpc : s.pc = .sendSens) :
      Step s (.sendSens s.sens) { s with pc := loop1 s.sens s.nbPartie }
  | getCoup (s) (b) (coupIa) (hpc : s.pc = .getCoup b) :
      Step s (.getCoupFromAI coupIa) { s with coupIa := coupIa, pc := .sendCoup b }
  | sendCoup (s) (b) (reqCoup) (hpc : s.pc = .sendCoup b) :
      Step s (.send (.coupReq (convertAItoServer s.coupIa reqCoup s.sens s.nbPartie))) { s with pc := .recvRep b }
  | recvRep (s) (b) (rep) (hpc : s.pc = .recvRep b) : Step s (.recv (.coupRep rep)) (s.answered b rep)
  | notify (s) (b) (hpc : s.pc = .notify b) : Step s (.sendCoupToAI s.coupIa) (s.notified b)
  | recvEnnemyRep (s) (b) (rep) (recvIa) (coup) (hpc : s.pc = .recvEnnemyRep b) :
      Step s (.recv (.coupRep rep)) (s.ennemyAnswered b rep recvIa coup)
  | recvEnnemyCoup (s) (b) (recvIa) (coup) (hpc : s.pc = .recvEnnemyCoup b) :
      Step s (.recv (.coupReq coup)) { s with recvIa := convertServerToAI recvIa coup false, pc := .forward b }
  | notifyEnnemy (s) (b) (hpc : s.pc = .notifyEnnemy b) : Step s (.sendCoupToAI s.recvIa) (s.iterate b)
  | forward (s) (b) (hpc : s.pc = .forward b) : Step s (.sendCoupToAI s.recvIa) (s.forwarded b)

def Receiving : Pc → Prop
  | .recvPartie | .recvRep _ | .recvEnnemyRep _ | .recvEnnemyCoup _ => True
  | _ => False

def Expects : Pc → Msg → Prop
  | .recvPartie, .partieRep _ | .recvRep _, .coupRep _ | .recvEnnemyRep _, .coupRep _
  | .recvEnnemyCoup _, .coupReq _ => True
  | _, _ => False

end YokaiNoMori.Client
