import YokaiNoMori.CString
import YokaiNoMori.ProtocolYokai
import YokaiNoMori.Runs

namespace YokaiNoMori.Serveur

open ProtocolYokai Runs
open CString (overwrite)

/-- A connection, and also the id of the player behind it. -/
inductive Player
  | p1 | p2
deriving DecidableEq, Repr

def Player.other : Player → Player
  | .p1 => .p2
  | .p2 => .p1

structure TPartie where
  gameNumber : Int
  scorePlayer1 : Int
  scorePlayer2 : Int
  player1Name : Nom
  player2Name : Nom
  nbStrike : Int
deriving DecidableEq, Repr

def TPartie.score (game : TPartie) : Player → Int
  | .p1 => game.scorePlayer1
  | .p2 => game.scorePlayer2

def TPartie.incr (game : TPartie) : Player → TPartie
  | .p1 => { game with scorePlayer1 := game.scorePlayer1 + 1 }
  | .p2 => { game with scorePlayer2 := game.scorePlayer2 + 1 }

/-- The score that a failing check overwrites. The answer `timeOut` that both
checks fill in is a local variable they never send. -/
def forfeit (playerId : Player) (game : TPartie) : TPartie :=
  if playerId = .p1 then { game with scorePlayer2 := 2 } else { game with scorePlayer1 := 2 }

/-- `some game` when the check ends the match through `endGame` with that data. -/
def checkRecvrError (err : Int) (game : TPartie) (playerId : Player) : Option TPartie :=
  if err ≤ 0 then some (forfeit playerId game) else none

def checkSendError (err : Int) (game : TPartie) (playerId : Player) : Option TPartie :=
  if err ≤ 0 then some (forfeit playerId game) else none

def winner (game : TPartie) : Option Player :=
  if game.scorePlayer1 > game.scorePlayer2 then some .p1
  else if game.scorePlayer2 > game.scorePlayer1 then some .p2
  else none

/-- The orientation and the two answers. The answers start uninitialised, and
a name is copied up to its terminator. -/
def sendAnswers (player1 player2 : TPartieReq) (answerP1 answerP2 : TPartieRep) :
    Int × TPartieRep × TPartieRep :=
  if player1.idReq ≠ .partie then (-1, { answerP1 with err := .errPartie }, answerP2)
  else if player2.idReq ≠ .partie then (-1, answerP1, { answerP2 with err := .errPartie })
  else if player1.piece = .sud then
    (1, ⟨.errOk, overwrite 0 answerP1.nomAdvers player2.nomJoueur, .ok⟩,
      ⟨.errOk, overwrite 0 answerP2.nomAdvers player1.nomJoueur, if player2.piece = .sud then .ko else .ok⟩)
  else
    (0, ⟨.errOk, overwrite 0 answerP1.nomAdvers player2.nomJoueur, .ok⟩,
      ⟨.errOk, overwrite 0 answerP2.nomAdvers player1.nomJoueur, if player2.piece = .sud then .ok else .ko⟩)

def prepareStrikeAnswer (validation : Bool) (moveProp : TPropCoup) : TCoupRep :=
  if validation then ⟨.errOk, .valid, moveProp⟩ else ⟨.errCoup, .triche, moveProp⟩

inductive Round
  | player1First | player2First
deriving DecidableEq, Repr

inductive Half
  | first | second
deriving DecidableEq, Repr

structure Turn where
  round : Round
  half : Half
deriving DecidableEq, Repr

/-- What one of the four copies of the move code names: the connection it
reads, the id for the check of that read, the player number for the referee,
the sockets and the id for `sendStrikeAnswer`, and whom its switch credits. -/
structure Call where
  conn : Player
  recvId : Player
  joueur : Nat
  sock1 : Player
  sock2 : Player
  playerId : Player
  gagne : Player
  perdu : Player

def Turn.call : Turn → Call
  | ⟨.player1First, .first⟩ => ⟨.p1, .p1, 1, .p1, .p2, .p1, .p1, .p2⟩
  | ⟨.player1First, .second⟩ => ⟨.p2, .p2, 2, .p2, .p1, .p2, .p2, .p1⟩
  | ⟨.player2First, .first⟩ => ⟨.p2, .p2, 1, .p2, .p1, .p2, .p2, .p1⟩
  | ⟨.player2First, .second⟩ => ⟨.p1, .p1, 2, .p1, .p2, .p1, .p1, .p2⟩

def secondPlayerId (playerId : Player) : Player := if playerId = .p1 then .p2 else .p1

@[simp] theorem other_other (p : Player) : p.other.other = p := by
  cases p <;> rfl

theorem other_ne_self (p : Player) : p.other ≠ p := by
  cases p <;> decide

theorem other_of_ne {p q : Player} (h : q ≠ p) : q.other = p := by
  cases p <;> cases q <;> first | rfl | exact absurd rfl h

theorem other_inj {p q : Player} : p.other = q.other ↔ p = q := by
  cases p <;> cases q <;> decide

@[simp] theorem call_sock1 (t : Turn) : t.call.sock1 = t.call.conn := by
  rcases t with ⟨_ | _, _ | _⟩ <;> rfl

@[simp] theorem call_sock2 (t : Turn) : t.call.sock2 = t.call.conn.other := by
  rcases t with ⟨_ | _, _ | _⟩ <;> rfl

@[simp] theorem call_recvId (t : Turn) : t.call.recvId = t.call.conn := by
  rcases t with ⟨_ | _, _ | _⟩ <;> rfl

@[simp] theorem call_playerId (t : Turn) : t.call.playerId = t.call.conn := by
  rcases t with ⟨_ | _, _ | _⟩ <;> rfl

@[simp] theorem call_gagne (t : Turn) : t.call.gagne = t.call.conn := by
  rcases t with ⟨_ | _, _ | _⟩ <;> rfl

@[simp] theorem call_perdu (t : Turn) : t.call.perdu = t.call.conn.other := by
  rcases t with ⟨_ | _, _ | _⟩ <;> rfl

@[simp] theorem secondPlayerId_eq (p : Player) : secondPlayerId p = p.other := by
  cases p <;> rfl

@[simp] theorem prepareStrikeAnswer_propCoup (validation : Bool) (moveProp : TPropCoup) :
    (prepareStrikeAnswer validation moveProp).propCoup = moveProp := by
  cases validation <;> rfl

def chooseRound (player1Sud : Bool) (gameNumber : Int) : Round :=
  if (player1Sud = true ∧ gameNumber = 1) ∨ (player1Sud = false ∧ gameNumber = 2) then .player1First
  else .player2First

def storeScore (t : Turn) (propCoup : TPropCoup) (game : TPartie) : TPartie :=
  let scored := match propCoup with
    | .gagne => game.incr t.call.gagne
    | .perdu => game.incr t.call.perdu
    | _ => game
  { scored with gameNumber := scored.gameNumber + 1, nbStrike := 0 }

/-- Where `main` stands. `restart` and `store` are the two halves of the block
run when a game ends, `closing` is inside `endGame`, and a signal has `killed`
the process. -/
inductive Pc
  | recvPartie (p : Player)
  | sendPartie (p : Player)
  | initialise
  | recvCoup (t : Turn)
  | validate (t : Turn)
  | sendMover (t : Turn)
  | sendOther (t : Turn)
  | relay (t : Turn)
  | restart (t : Turn)
  | store (t : Turn)
  | closing
  | exited
  | killed
deriving DecidableEq, Repr

structure State where
  pc : Pc
  player1 : TPartieReq
  player2 : TPartieReq
  answerP1 : TPartieRep
  answerP2 : TPartieRep
  res : Int
  player1Sud : Bool
  game : TPartie
  moveReq : TCoupReq
  moveRep : TCoupRep
  validation : Bool
  propCoup : TPropCoup

/-- The variables that `main` does not initialise may hold anything. -/
structure Initial (s : State) : Prop where
  pc : s.pc = .recvPartie .p1
  player1Sud : s.player1Sud = false
  gameNumber : s.game.gameNumber = 1
  scorePlayer1 : s.game.scorePlayer1 = 0
  scorePlayer2 : s.game.scorePlayer2 = 0
  nbStrike : s.game.nbStrike = 0

def loopTop (player1Sud : Bool) (gameNumber : Int) : Pc :=
  if gameNumber < 3 then .recvCoup ⟨chooseRound player1Sud gameNumber, .first⟩ else .exited

def countStrike (game : TPartie) : TPartie := { game with nbStrike := game.nbStrike + 1 }

def State.iterate (s : State) (game : TPartie) : State :=
  { s with game := countStrike game, pc := loopTop s.player1Sud game.gameNumber }

def State.continue (s : State) (t : Turn) : State :=
  match t.half with
  | .first => { s with pc := .recvCoup ⟨t.round, .second⟩ }
  | .second => s.iterate s.game

def State.finish (s : State) (t : Turn) : State :=
  let game := storeScore t s.moveRep.propCoup s.game
  if game.gameNumber = 3 then { s with game := game, pc := .closing } else s.iterate game

def State.answer (s : State) (req : TPartieReq) : State :=
  let answers := sendAnswers s.player1 req s.answerP1 s.answerP2
  { s with player2 := req, res := answers.1, answerP1 := answers.2.1, answerP2 := answers.2.2,
           pc := .sendPartie .p1 }

/-- Both answers are out: `main` returns when a request was wrong, and saves the
orientation and the names otherwise. -/
def State.orient (s : State) : State :=
  if s.res = -1 then { s with pc := .exited }
  else
    { s with player1Sud := decide (s.res ≠ 0),
             game := { s.game with player1Name := overwrite 0 s.game.player1Name s.player1.nomJoueur,
                                   player2Name := overwrite 0 s.game.player2Name s.player2.nomJoueur },
             pc := .initialise }

@[simp] theorem orient_gameNumber (s : State) : s.orient.game.gameNumber = s.game.gameNumber := by
  rw [State.orient]
  split <;> rfl

@[simp] theorem orient_score (s : State) (p : Player) : s.orient.game.score p = s.game.score p := by
  rw [State.orient]
  split <;> cases p <;> rfl

/-- The referee has answered. A draw by length is written to `propCoup` after
`moveRep` has copied it. -/
def State.judge (s : State) (t : Turn) (valid : Bool) (prop : TPropCoup) : State :=
  { s with validation := valid, moveRep := prepareStrikeAnswer valid prop,
           propCoup := if s.game.nbStrike ≥ 60 then .nul else prop, pc := .sendMover t }

def recvCheck : Pc → Option (Player × Player)
  | .recvPartie .p1 => some (.p1, .p1)
  | .recvPartie .p2 => some (.p2, .p2)
  | .recvCoup t => some (t.call.conn, t.call.recvId)
  | _ => none

theorem recvCheck_eq_some {pc : Pc} {p playerId : Player} (h : recvCheck pc = some (p, playerId)) :
    playerId = p ∧ (pc = .recvPartie p ∨ ∃ t, pc = .recvCoup t ∧ t.call.conn = p) := by
  cases pc with
  | recvPartie q => cases q <;> obtain ⟨rfl, rfl⟩ := Prod.mk.inj (Option.some.inj h) <;> exact ⟨rfl, .inl rfl⟩
  | recvCoup t =>
      obtain ⟨rfl, rfl⟩ := Prod.mk.inj (Option.some.inj h)
      exact ⟨call_recvId t, .inr ⟨t, rfl, rfl⟩⟩
  | _ => cases h

def sendCheck : Pc → Option (Player × Player)
  | .sendPartie .p1 => some (.p1, .p1)
  | .sendPartie .p2 => some (.p2, .p2)
  | .sendMover t => some (t.call.sock1, t.call.playerId)
  | .sendOther t => some (t.call.sock2, secondPlayerId t.call.playerId)
  | .relay t => some (t.call.sock2, secondPlayerId t.call.playerId)
  | _ => none

inductive Event
  | recv (p : Player) (m : Msg)
  | recvError (p : Player)
  | send (p : Player) (m : Msg)
  | sendError (p : Player)
  | sigpipe (p : Player)
  | initialiserPartie
  | validationCoup (joueur : Nat) (coup : TCoupReq) (valid : Bool) (prop : TPropCoup)
  | store (t : Turn) (prop : TPropCoup) (before after : TPartie)
  | endGame (game : TPartie)

def Inside : Event → Prop
  | .initialiserPartie | .validationCoup _ _ _ _ | .store _ _ _ _ | .endGame _ => True
  | _ => False

/-- The event is not that of a failed call. -/
def Succeeds : Event → Prop
  | .recvError _ | .sendError _ | .sigpipe _ => False
  | _ => True

theorem succeeds_inside {e : Event} (h : Inside e) : Succeeds e := by
  cases e <;> trivial

/-- One system call, referee call or score update of `main`. No send has a flag and
`SIGPIPE` keeps its default action: a send to a connection that the other end has
closed may return an error, and may not return. -/
inductive Step : State → Event → State → Prop
  | recvPartie1 (s) (req) (hpc : s.pc = .recvPartie .p1) :
      Step s (.recv .p1 (.partieReq req)) { s with player1 := req, pc := .recvPartie .p2 }
  | recvPartie2 (s) (req) (hpc : s.pc = .recvPartie .p2) :
      Step s (.recv .p2 (.partieReq req)) (s.answer req)
  | sendPartie1 (s) (hpc : s.pc = .sendPartie .p1) :
      Step s (.send .p1 (.partieRep s.answerP1)) { s with pc := .sendPartie .p2 }
  | sendPartie2 (s) (hpc : s.pc = .sendPartie .p2) :
      Step s (.send .p2 (.partieRep s.answerP2)) s.orient
  | initialise (s) (hpc : s.pc = .initialise) :
      Step s .initialiserPartie { s with pc := loopTop s.player1Sud s.game.gameNumber }
  | recvCoup (s) (t) (req) (hpc : s.pc = .recvCoup t) :
      Step s (.recv t.call.conn (.coupReq req)) { s with moveReq := req, pc := .validate t }
  | validate (s) (t) (valid) (prop) (hpc : s.pc = .validate t) :
      Step s (.validationCoup t.call.joueur s.moveReq valid prop) (s.judge t valid prop)
  | sendMover (s) (t) (hpc : s.pc = .sendMover t) :
      Step s (.send t.call.sock1 (.coupRep s.moveRep)) { s with pc := .sendOther t }
  | sendOther (s) (t) (hpc : s.pc = .sendOther t) :
      Step s (.send t.call.sock2 (.coupRep s.moveRep))
        { s with pc := if s.moveRep.propCoup = .cont then .relay t else .restart t }
  | relay (s) (t) (hpc : s.pc = .relay t) :
      Step s (.send t.call.sock2 (.coupReq s.moveReq)) (s.continue t)
  | restart (s) (t) (hpc : s.pc = .restart t) : Step s .initialiserPartie { s with pc := .store t }
  | store (s) (t) (hpc : s.pc = .store t) :
      Step s (.store t s.moveRep.propCoup s.game (storeScore t s.moveRep.propCoup s.game)) (s.finish t)
  | recvError (s) (p playerId) (err : Int) (game) (hpc : recvCheck s.pc = some (p, playerId))
      (hcheck : checkRecvrError err s.game playerId = some game) :
      Step s (.recvError p) { s with game := game, pc := .closing }
  | sendError (s) (p playerId) (err : Int) (game) (hpc : sendCheck s.pc = some (p, playerId))
      (hcheck : checkSendError err s.game playerId = some game) :
      Step s (.sendError p) { s with game := game, pc := .closing }
  | sigpipe (s) (p playerId) (hpc : sendCheck s.pc = some (p, playerId)) :
      Step s (.sigpipe p) { s with pc := .killed }
  | endGame (s) (hpc : s.pc = .closing) : Step s (.endGame s.game) { s with pc := .exited }

/-- Only a call to a player can fail. -/
theorem Step.succeeds {s s' : State} {e : Event} (h : Step s e s') (hrecv : recvCheck s.pc = none)
    (hsend : sendCheck s.pc = none) : Succeeds e := by
  cases h with
  | recvError p playerId err game hpc => cases hpc.symm.trans hrecv
  | sendError p playerId err game hpc | sigpipe p playerId hpc => cases hpc.symm.trans hsend
  | _ => trivial

/-- The server is out of its loop. -/
def Stopped (s : State) : Prop := s.pc = .closing ∨ s.pc = .exited ∨ s.pc = .killed

theorem stopped_step {s s' : State} {e : Event} (h : Stopped s) (hstep : Step s e s') :
    Stopped s' ∧ ∃ game, e = .endGame game := by
  have hsucceeds := hstep.succeeds (by rcases h with h | h | h <;> rw [h] <;> rfl)
    (by rcases h with h | h | h <;> rw [h] <;> rfl)
  cases hstep with
  | endGame hpc => exact ⟨.inr (.inl rfl), s.game, rfl⟩
  | recvError | sendError | sigpipe => exact hsucceeds.elim
  | _ => rcases h with h | h | h <;> simp_all

theorem gone_step {s s' : State} {e : Event} (h : s.pc = .exited ∨ s.pc = .killed) : ¬ Step s e s' := by
  intro hstep
  obtain ⟨_, game, rfl⟩ := stopped_step (.inr h) hstep
  cases hstep with
  | endGame hpc => rcases h with h | h <;> cases h.symm.trans hpc

def Expects : Pc → Msg → Prop
  | .recvPartie _, .partieReq _ | .recvCoup _, .coupReq _ => True
  | _, _ => False

end YokaiNoMori.Serveur
