import YokaiNoMori.SessionAgreement
import YokaiNoMori.MoveGeneration
import YokaiNoMori.Variants
import YokaiNoMori.Replay
import YokaiNoMori.Score
import YokaiNoMori.Winning
import YokaiNoMori.Forfeit
import YokaiNoMori.MoveLimit
import YokaiNoMori.Rejection
import YokaiNoMori.Referee
import YokaiNoMori.Results
import YokaiNoMori.Framing
import YokaiNoMori.AiLink
import YokaiNoMori.CoupFromAI
import YokaiNoMori.Drop
import YokaiNoMori.KodamaRuns
import YokaiNoMori.Mirror
import YokaiNoMori.Aucun
import YokaiNoMori.Names
import YokaiNoMori.JavaInt
import YokaiNoMori.Completion
import YokaiNoMori.FirstGame
import YokaiNoMori.Progress
import YokaiNoMori.MatchRefinement
import YokaiNoMori.Pace
import YokaiNoMori.Caution
import YokaiNoMori.AnyOpponent
import YokaiNoMori.WholeMatch
import YokaiNoMori.Relay
