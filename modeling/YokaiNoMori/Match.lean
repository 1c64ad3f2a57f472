import YokaiNoMori.Client
import YokaiNoMori.Serveur
import Mathlib.Logic.Function.Basic

namespace YokaiNoMori.Match

open ProtocolYokai Runs Serveur

structure State where
  server : Serveur.State
  client : Player → Client.State
  up : Player → List Msg
  down : Player → List Msg

inductive Label
  | server (e : Serveur.Event)
  | client (p : Player) (e : Client.Event)

structure Initial (m : State) : Prop where
  server : Serveur.Initial m.server
  client (p : Player) : Client.Initial (m.client p)
  up (p : Player) : m.up p = []
  down (p : Player) : m.down p = []

/-- No call fails, and a channel delivers whole messages in order, at any time. -/
inductive Step : State → Label → State → Prop
  | serverRecv (m) (p) (msg) (rest) (s) (hup : m.up p = msg :: rest)
      (hstep : Serveur.Step m.server (.recv p msg) s) :
      Step m (.server (.recv p msg)) { m with server := s, up := Function.update m.up p rest }
  | serverSend (m) (p) (msg) (s) (hstep : Serveur.Step m.server (.send p msg) s) :
      Step m (.server (.send p msg)) { m with server := s, down := Function.update m.down p (m.down p ++ [msg]) }
  | serverInside (m) (e) (s) (he : Inside e) (hstep : Serveur.Step m.server e s) :
      Step m (.server e) { m with server := s }
  | clientRecv (m) (p) (msg) (rest) (c) (hdown : m.down p = msg :: rest)
      (hstep : Client.Step (m.client p) (.recv msg) c) :
      Step m (.client p (.recv msg))
        { m with client := Function.update m.client p c, down := Function.update m.down p rest }
  | clientSend (m) (p) (msg) (c) (hstep : Client.Step (m.client p) (.send msg) c) :
      Step m (.client p (.send msg))
        { m with client := Function.update m.client p c, up := Function.update m.up p (m.up p ++ [msg]) }
  | clientAi (m) (p) (e) (c) (he : Client.WithAi e) (hstep : Client.Step (m.client p) e c) :
      Step m (.client p e) { m with client := Function.update m.client p c }

end YokaiNoMori.Match
