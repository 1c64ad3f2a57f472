import YokaiNoMori.Serveur

namespace YokaiNoMori.Handling

open ProtocolYokai Serveur

/-! What the server does with one move, from its reception to its relay. -/

/-- No move is being dealt with. -/
def Vacant : Pc → Prop
  | .validate _ | .sendMover _ | .sendOther _ | .relay _ => False
  | _ => True

theorem vacant_loopTop (player1Sud : Bool) (gameNumber : Int) : Vacant (loopTop player1Sud gameNumber) := by
  rw [loopTop]
  split
  · trivial
  · trivial

theorem vacant_orient (s : State) : Vacant s.orient.pc := by
  rw [State.orient]
  split
  · trivial
  · trivial

theorem vacant_continue (s : State) (t : Turn) : Vacant (s.continue t).pc := by
  rcases t with ⟨r, _ | _⟩
  · trivial
  · exact vacant_loopTop s.player1Sud s.game.gameNumber

theorem vacant_finish (s : State) (t : Turn) : Vacant (s.finish t).pc := by
  rw [State.finish]
  split
  · trivial
  · exact vacant_loopTop s.player1Sud _

def Greeting : Msg → Prop
  | .partieReq _ | .partieRep _ => True
  | _ => False

/-- The event has to do with no move. -/
def Quiet : Event → Prop
  | .recv _ m | .send _ m => Greeting m
  | .validationCoup _ _ _ _ => False
  | _ => True

inductive Handles (s : State) : Event → State → Prop
  | take (t) (d : State) (hvacant : Vacant s.pc) (hpc : d.pc = .validate t) :
      Handles s (.recv t.call.conn (.coupReq d.moveReq)) d
  | judge (t) (valid) (prop) (hpc : s.pc = .validate t) :
      Handles s (.validationCoup t.call.joueur s.moveReq valid prop) (s.judge t valid prop)
  | tellMover (t) (hpc : s.pc = .sendMover t) :
      Handles s (.send t.call.conn (.coupRep s.moveRep)) { s with pc := .sendOther t }
  | tellOther (t) (hpc : s.pc = .sendOther t) (hprop : s.moveRep.propCoup = .cont) :
      Handles s (.send t.call.conn.other (.coupRep s.moveRep)) { s with pc := .relay t }
  | tellEnd (t) (hpc : s.pc = .sendOther t) (hprop : s.moveRep.propCoup ≠ .cont) :
      Handles s (.send t.call.conn.other (.coupRep s.moveRep)) { s with pc := .restart t }
  | relay (t) (d : State) (hpc : s.pc = .relay t) (hvacant : Vacant d.pc) :
      Handles s (.send t.call.conn.other (.coupReq s.moveReq)) d
  | rest (e) (d : State) (hvacant : Vacant s.pc) (hvacant' : Vacant d.pc) (hquiet : Quiet e) : Handles s e d

/-- A failed call is the only way out while a move is dealt with. -/
theorem server_handles {s d : State} {e : Event} (hcall : Succeeds e) (h : Step s e d) :
    Handles s e d := by
  cases h with
  | recvPartie1 req hpc | recvPartie2 req hpc => exact .rest _ _ (by rw [hpc]; trivial) trivial trivial
  | sendPartie1 hpc => exact .rest _ _ (by rw [hpc]; trivial) trivial trivial
  | sendPartie2 hpc => exact .rest _ _ (by rw [hpc]; trivial) (vacant_orient s) trivial
  | initialise hpc => exact .rest _ _ (by rw [hpc]; trivial) (vacant_loopTop _ _) trivial
  | recvCoup t req hpc =>
      exact .take t { s with moveReq := req, pc := .validate t } (by rw [hpc]; trivial) rfl
  | validate t valid prop hpc => exact .judge t valid prop hpc
  | sendMover t hpc =>
      rw [call_sock1]
      exact .tellMover t hpc
  | sendOther t hpc =>
      rw [call_sock2]
      by_cases hprop : s.moveRep.propCoup = .cont
      · rw [if_pos hprop]
        exact .tellOther t hpc hprop
      · rw [if_neg hprop]
        exact .tellEnd t hpc hprop
  | relay t hpc =>
      rw [call_sock2]
      exact .relay t _ hpc (vacant_continue s t)
  | restart t hpc => exact .rest _ _ (by rw [hpc]; trivial) trivial trivial
  | store t hpc => exact .rest _ _ (by rw [hpc]; trivial) (vacant_finish s t) trivial
  | recvError | sendError | sigpipe => exact hcall.elim
  | endGame hpc => exact .rest _ _ (by rw [hpc]; trivial) trivial trivial

end YokaiNoMori.Handling
