import YokaiNoMori.Conversation
import YokaiNoMori.ProtocolYokai

namespace YokaiNoMori.Dialogue

open ProtocolYokai Conversation

inductive Phase
  | request | reply | move | answer | listen | relay | over
deriving DecidableEq

/-- Where the conversation of one client stands, with its orientation and
whether it has won each finished game. -/
structure View where
  phase : Phase
  sens : Bool
  wins : List Bool
deriving DecidableEq

def opening (sens : Bool) : List Bool → View
  | [] => ⟨if sens then .move else .listen, sens, []⟩
  | [w] => ⟨if sens then .listen else .move, sens, [w]⟩
  | wins => ⟨.over, sens, wins⟩

/-- What the client may say. -/
def asks (v : View) (m : Msg) : Option View :=
  match v.phase, m with
  | .request, .partieReq req => if req.idReq = .partie ∧ req.piece = .sud then some { v with phase := .reply } else none
  | .move, .coupReq req => if req.numPartie = v.wins.length + 1 then some { v with phase := .answer } else none
  | _, _ => none

/-- What the server may say. -/
def hears (v : View) (m : Msg) : Option View :=
  match v.phase, m with
  | .reply, .partieRep rep => some (opening (decide (rep.validSensTete = .ok)) v.wins)
  | .answer, .coupRep rep =>
      if rep.propCoup = .cont then some { v with phase := .listen }
      else some (opening v.sens (v.wins ++ [decide (rep.propCoup = .gagne)]))
  | .listen, .coupRep rep =>
      if rep.propCoup = .cont then some { v with phase := .relay }
      else some (opening v.sens (v.wins ++ [decide (rep.propCoup = .perdu)]))
  | .relay, .coupReq _ => some { v with phase := .move }
  | _, _ => none

theorem oneSpeaker : OneSpeaker asks hears := by
  rintro ⟨phase, sens, wins⟩ m m'
  cases phase <;> simp [asks, hears]

end YokaiNoMori.Dialogue
