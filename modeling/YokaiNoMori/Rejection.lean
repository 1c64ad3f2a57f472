import YokaiNoMori.ServerHistory
import YokaiNoMori.ServerRuns

namespace YokaiNoMori.Rejection

open ProtocolYokai Runs Serveur ServerHistory ServerRuns

inductive Owed
  | answer (p : Player) (rep : TCoupRep)
  | relay (p : Player) (coup : TCoupReq)
  | restart
  | score (mover : Player) (prop : TPropCoup)

/-- The game goes on with the relay of the move, or ends with its score. -/
def outcome (mover : Player) (coup : TCoupReq) (prop : TPropCoup) : List Owed :=
  if prop = .cont then [.relay mover.other coup] else [.restart, .score mover prop]

variable {mover : Player} {coup : TCoupReq} {rep : TCoupRep} {s s' : State} {e : Event}

/-- The server is dealing with this move. -/
structure Holds (mover : Player) (coup : TCoupReq) (rep : TCoupRep) (t : Turn) (s : State) : Prop where
  mover_eq : t.call.conn = mover
  coup_eq : s.moveReq = coup
  rep_eq : s.moveRep = rep

/-- What is left to do, place by place. -/
inductive Underway (mover : Player) (coup : TCoupReq) (rep : TCoupRep) : List Owed → State → Prop
  | toMover (t) (s) (hpc : s.pc = .sendMover t) (h : Holds mover coup rep t s) :
      Underway mover coup rep (.answer mover rep :: .answer mover.other rep :: outcome mover coup rep.propCoup) s
  | toOther (t) (s) (hpc : s.pc = .sendOther t) (h : Holds mover coup rep t s) :
      Underway mover coup rep (.answer mover.other rep :: outcome mover coup rep.propCoup) s
  | toRelay (t) (s) (hpc : s.pc = .relay t) (h : Holds mover coup rep t s) :
      Underway mover coup rep [.relay mover.other coup] s
  | toRestart (t) (s) (hpc : s.pc = .restart t) (h : Holds mover coup rep t s) :
      Underway mover coup rep [.restart, .score mover rep.propCoup] s
  | toScore (t) (s) (hpc : s.pc = .store t) (h : Holds mover coup rep t s) :
      Underway mover coup rep [.score mover rep.propCoup] s

variable {os : List Owed} {tr : List Event}

end YokaiNoMori.Rejection
