import YokaiNoMori.CoupFromAI
import YokaiNoMori.JSicstus
import YokaiNoMori.Score

namespace YokaiNoMori.AiPlayer

open Board JavaCoup PrologSession CoupFromAI

/-- `main` of `jSicstus` with its `Prolog` object, which exists from the
orientation on. -/
structure State where
  main : JSicstus.State
  prolog : Session

def sideOf (sens : Bool) : Side := if sens = false then .south else .north

inductive Event
  | readBoolean (sens : Bool)
  | generate (coup : Coup)
  | force (coup : Coup)
  | finPartie
  | skip

/-- A step takes its input from the bytes at hand, leaves the others, and writes
some. There is no step where a call of `Prolog` exits. -/
inductive Step : State → List UInt8 → Event → State → List UInt8 → List UInt8 → Prop
  | readBoolean (s) (bytes) (sens) (main) (rest) (hmain : JSicstus.Step s.main bytes (.readBoolean sens) main rest) :
      Step s bytes (.readBoolean sens) ⟨main, init (sideOf sens)⟩ rest []
  | generate (s) (bytes) (coup) (main) (prolog) (rest) (hmain : JSicstus.Step s.main bytes .sendToNetwork main rest)
      (hcall : generateMove s.prolog = some (coup, prolog)) :
      Step s bytes (.generate coup) ⟨main, prolog⟩ rest (Coup.sendToNetwork coup)
  | force (s) (bytes) (coup) (main) (prolog) (rest)
      (hmain : JSicstus.Step s.main bytes (.readFromNetwork (some coup)) main rest)
      (hcall : forceEnnemyStrike s.prolog coup = some prolog) :
      Step s bytes (.force coup) ⟨main, prolog⟩ rest []
  | finPartie (s) (bytes) (main) (rest) (hmain : JSicstus.Step s.main bytes (.readFromNetwork none) main rest) :
      Step s bytes .finPartie ⟨main, s.prolog⟩ rest []
  | skip (s) (bytes) (main) (rest) (hmain : JSicstus.Step s.main bytes .skip main rest) :
      Step s bytes .skip ⟨main, init s.prolog.side⟩ rest []

theorem generateMove_side {r r' : Session} {coup : Coup} (h : generateMove r = some (coup, r')) :
    r'.side = r.side := by
  rw [generateMove] at h
  split at h
  · rw [← (Prod.mk.inj (Option.some.inj h)).2]
  · cases h
  · split at h
    · cases h
    · rw [← (Prod.mk.inj (Option.some.inj h)).2]

theorem generateMove_has_moves {r r' : Session} {coup : Coup} (h : generateMove r = some (coup, r')) : r.moves ≠ [] := by
  intro hnil
  rw [generateMove, Score.generateMove_nil hnil] at h
  cases h

end YokaiNoMori.AiPlayer
