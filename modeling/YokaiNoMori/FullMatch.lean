import YokaiNoMori.AiLink
import YokaiNoMori.AiPlayer
import YokaiNoMori.Match

namespace YokaiNoMori.FullMatch

open ProtocolYokai Runs Serveur CoupFromAI

/-- The server, two clients and their AIs. `toAi` and `fromAi` are the bytes
that are written and not taken yet. -/
structure State where
  game : Match.State
  ai : Player → AiPlayer.State
  toAi : Player → List UInt8
  fromAi : Player → List UInt8

inductive Label
  | game (e : Match.Label)
  | ai (p : Player) (e : AiPlayer.Event)

structure Initial (s : State) : Prop where
  game : Match.Initial s.game
  pc (p : Player) : (s.ai p).main.pc = .readSens
  nbPartie (p : Player) : (s.ai p).main.nbPartie = 1
  toAi (p : Player) : s.toAi p = []
  fromAi (p : Player) : s.fromAi p = []

def Between : Match.Label → Prop
  | .server _ => True
  | .client _ e => ¬ Client.WithAi e

/-- No call fails and no program exits. A read that blocks waits for all it
wants, so a client takes the bytes of one whole move; a skip takes those that
have arrived, whichever they are. -/
inductive Step : State → Label → State → Prop
  | game (s) (e) (g) (he : Between e) (hstep : Match.Step s.game e g) : Step s (.game e) { s with game := g }
  | toAi (s) (p) (e) (g) (he : Client.WithAi e) (hsent : AiLink.written e ≠ [])
      (hstep : Match.Step s.game (.client p e) g) :
      Step s (.game (.client p e))
        { s with game := g, toAi := Function.update s.toAi p (s.toAi p ++ AiLink.written e) }
  | fromAi (s) (p) (res) (coupIa) (bytes) (rest) (g) (hbytes : s.fromAi p = bytes ++ rest)
      (hreceive : Receives (getCoupFromAI res) bytes coupIa)
      (hstep : Match.Step s.game (.client p (.getCoupFromAI coupIa)) g) :
      Step s (.game (.client p (.getCoupFromAI coupIa)))
        { s with game := g, fromAi := Function.update s.fromAi p rest }
  | ai (s) (p) (e) (a) (rest) (out) (he : e ≠ .skip) (hstep : AiPlayer.Step (s.ai p) (s.toAi p) e a rest out) :
      Step s (.ai p e)
        { s with ai := Function.update s.ai p a, toAi := Function.update s.toAi p rest,
                 fromAi := Function.update s.fromAi p (s.fromAi p ++ out) }
  | skip (s) (p) (n) (a) (rest) (out) (hstep : AiPlayer.Step (s.ai p) ((s.toAi p).take n) .skip a rest out) :
      Step s (.ai p .skip)
        { s with ai := Function.update s.ai p a, toAi := Function.update s.toAi p (rest ++ (s.toAi p).drop n),
                 fromAi := Function.update s.fromAi p (s.fromAi p ++ out) }

end YokaiNoMori.FullMatch
