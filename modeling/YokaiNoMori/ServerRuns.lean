import YokaiNoMori.Serveur

namespace YokaiNoMori.ServerRuns

open ProtocolYokai Runs Serveur

def sud : TPartieReq := ⟨.partie, [], .sud⟩

/-- A state `main` can start in, with zeros in the variables it leaves open. -/
def start : State where
  pc := .recvPartie .p1
  player1 := sud
  player2 := sud
  answerP1 := ⟨.errOk, [], .ok⟩
  answerP2 := ⟨.errOk, [], .ok⟩
  res := 0
  player1Sud := false
  game := ⟨1, 0, 0, [], [], 0⟩
  moveReq := ⟨.partie, 0, 0, ⟨.nord, 0⟩, ⟨⟨⟨0, 0⟩, ⟨0, 0⟩, 0, (0, 0, 0)⟩⟩⟩
  moveRep := ⟨.errOk, .valid, .cont⟩
  validation := false
  propCoup := .cont

theorem start_initial : Initial start := ⟨rfl, rfl, rfl, rfl, rfl, rfl⟩

section Handshake

variable (s : State) (req1 req2 : TPartieReq)

def joining : List Event :=
  let answers := sendAnswers req1 req2 s.answerP1 s.answerP2
  [.recv .p1 (.partieReq req1), .recv .p2 (.partieReq req2), .send .p1 (.partieRep answers.2.1),
    .send .p2 (.partieRep answers.2.2), .initialiserPartie]

def joined : State :=
  let oriented := (State.answer { s with player1 := req1 } req2).orient
  { oriented with pc := loopTop oriented.player1Sud oriented.game.gameNumber }

theorem sendAnswers_ne (hid1 : req1.idReq = .partie) (hid2 : req2.idReq = .partie) :
    (sendAnswers req1 req2 s.answerP1 s.answerP2).1 ≠ -1 := by
  rw [sendAnswers]
  rw [if_neg (by simp [hid1]), if_neg (by simp [hid2])]
  split <;> simp

theorem joining_run (hpc : s.pc = .recvPartie .p1) (hid1 : req1.idReq = .partie) (hid2 : req2.idReq = .partie) :
    Run Step s (joining s req1 req2) (joined s req1 req2) := by
  let heard : State := { s with player1 := req1, pc := .recvPartie .p2 }
  have hres : (heard.answer req2).res ≠ -1 := sendAnswers_ne s req1 req2 hid1 hid2
  have h1 := Step.recvPartie1 s req1 hpc
  have h2 := Step.recvPartie2 heard req2 rfl
  have h3 := Step.sendPartie1 (heard.answer req2) rfl
  have h4 := Step.sendPartie2 { heard.answer req2 with pc := .sendPartie .p2 } rfl
  have h5 := Step.initialise (State.orient { heard.answer req2 with pc := .sendPartie .p2 })
    (by simp [State.orient, hres])
  exact .snoc (.snoc (.snoc (.snoc (.single h1) h2) h3) h4) h5

end Handshake

section Moves

variable (s : State) (t : Turn) (coup : TCoupReq) (valid : Bool) (prop : TPropCoup)

def answering : List Event :=
  let rep := prepareStrikeAnswer valid prop
  [.recv t.call.conn (.coupReq coup), .validationCoup t.call.joueur coup valid prop,
    .send t.call.sock1 (.coupRep rep), .send t.call.sock2 (.coupRep rep)]

def answered : State :=
  { State.judge { s with moveReq := coup } t valid prop with
    pc := if (prepareStrikeAnswer valid prop).propCoup = .cont then .relay t else .restart t }

theorem answering_run (hpc : s.pc = .recvCoup t) :
    Run Step s (answering t coup valid prop) (answered s t coup valid prop) := by
  let judged := State.judge { s with moveReq := coup, pc := .validate t } t valid prop
  have h1 := Step.recvCoup s t coup hpc
  have h2 := Step.validate { s with moveReq := coup, pc := .validate t } t valid prop rfl
  have h3 := Step.sendMover judged t rfl
  have h4 := Step.sendOther { judged with pc := .sendOther t } t rfl
  exact .snoc (.snoc (.snoc (.single h1) h2) h3) h4

def relaying : List Event :=
  answering t coup valid .cont ++ [.send t.call.sock2 (.coupReq coup)]

theorem relaying_run (hpc : s.pc = .recvCoup t) :
    Run Step s (relaying t coup valid) ((answered s t coup valid .cont).continue t) :=
  .snoc (answering_run s t coup valid .cont hpc)
    (.relay (answered s t coup valid .cont) t (by simp [answered]))

/-- The last move of a game. -/
def ending : List Event :=
  answering t coup valid prop ++ [.initialiserPartie] ++ [.store t prop s.game (storeScore t prop s.game)]

def ended : State := State.finish { answered s t coup valid prop with pc := .store t } t

theorem ending_run (hpc : s.pc = .recvCoup t) (hprop : prop ≠ .cont) :
    Run Step s (ending s t coup valid prop) (ended s t coup valid prop) := by
  have h1 := Step.restart (answered s t coup valid prop) t (by simp [answered, hprop])
  have h2 := Step.store { answered s t coup valid prop with pc := .store t } t rfl
  have hkept : (answered s t coup valid prop).moveRep.propCoup = prop := prepareStrikeAnswer_propCoup valid prop
  rw [hkept] at h2
  exact .snoc (.snoc (answering_run s t coup valid prop hpc) h1) h2

end Moves

section OpenGame

variable (s : State) (r : Round) (coup : TCoupReq)

def openTurn : List Event := relaying ⟨r, .first⟩ coup true ++ relaying ⟨r, .second⟩ coup true

def openGame : Nat → List Event
  | 0 => []
  | n + 1 => openGame n ++ openTurn r coup

theorem openTurn_run (hpc : s.pc = .recvCoup ⟨r, .first⟩)
    (htop : loopTop s.player1Sud s.game.gameNumber = .recvCoup ⟨r, .first⟩) :
    ∃ s', Run Step s (openTurn r coup) s' ∧ s'.pc = .recvCoup ⟨r, .first⟩ ∧
      loopTop s'.player1Sud s'.game.gameNumber = .recvCoup ⟨r, .first⟩ := by
  have hfirst := relaying_run s ⟨r, .first⟩ coup true hpc
  have hsecond := relaying_run ((answered s ⟨r, .first⟩ coup true .cont).continue ⟨r, .first⟩) ⟨r, .second⟩ coup true rfl
  exact ⟨_, hfirst.append hsecond, htop, htop⟩

theorem openGame_run (hpc : s.pc = .recvCoup ⟨r, .first⟩)
    (htop : loopTop s.player1Sud s.game.gameNumber = .recvCoup ⟨r, .first⟩) (n : Nat) :
    ∃ s', Run Step s (openGame r coup n) s' ∧ s'.pc = .recvCoup ⟨r, .first⟩ := by
  suffices h : ∃ s', Run Step s (openGame r coup n) s' ∧ s'.pc = .recvCoup ⟨r, .first⟩ ∧
      loopTop s'.player1Sud s'.game.gameNumber = .recvCoup ⟨r, .first⟩ by
    obtain ⟨s', hrun, hpc', _⟩ := h
    exact ⟨s', hrun, hpc'⟩
  induction n with
  | zero => exact ⟨s, .nil, hpc, htop⟩
  | succ n ih =>
      obtain ⟨t, hrun, hpc', htop'⟩ := ih
      obtain ⟨u, hturn, hu⟩ := openTurn_run t r coup hpc' htop'
      exact ⟨u, hrun.append hturn, hu⟩

end OpenGame

end YokaiNoMori.ServerRuns
