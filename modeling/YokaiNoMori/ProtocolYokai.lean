import Mathlib.Data.UInt

namespace YokaiNoMori.ProtocolYokai

/-! The structures of `protocolYokai.h` and `protocoleIa.h`. Values that come
from the AI as ordinals stay raw words, as in the C code. -/

def nbCoupMax : Nat := 30

inductive TIdReq
  | partie | coup
deriving DecidableEq, Repr

inductive TCodeRep
  | errOk | errPartie | errCoup | errTyp
deriving DecidableEq, Repr

inductive TSensTetePiece
  | nord | sud
deriving DecidableEq, Repr

abbrev Nom := List UInt8

structure TPartieReq where
  idReq : TIdReq
  nomJoueur : Nom
  piece : TSensTetePiece
deriving DecidableEq, Repr

inductive TValidSensTete
  | ok | ko
deriving DecidableEq, Repr

structure TPartieRep where
  err : TCodeRep
  nomAdvers : Nom
  validSensTete : TValidSensTete
deriving DecidableEq, Repr

structure TCase where
  c : UInt32
  l : UInt32
deriving DecidableEq, Repr

/-- The three padding bytes after `estCapt` are part of the object. -/
structure TDeplPiece where
  caseDep : TCase
  caseArr : TCase
  estCapt : UInt8
  padding : UInt8 × UInt8 × UInt8
deriving DecidableEq, Repr

abbrev TDeposerPiece := TCase

/-- The union of a `TDeplPiece` and a `TDeposerPiece`. The second one lies on
the first two words of the first one. -/
structure Params where
  deplPiece : TDeplPiece
deriving DecidableEq, Repr

def Params.deposerPiece (p : Params) : TDeposerPiece := p.deplPiece.caseDep

def Params.setDeposerPiece (p : Params) (k : TDeposerPiece) : Params :=
  ⟨{ p.deplPiece with caseDep := k }⟩

abbrev TCoup := UInt32

def deplacer : TCoup := 0

def deposer : TCoup := 1

abbrev TTypePiece := UInt32

structure TPiece where
  sensTetePiece : TSensTetePiece
  typePiece : TTypePiece
deriving DecidableEq, Repr

structure TCoupReq where
  idRequest : TIdReq
  numPartie : Int
  typeCoup : TCoup
  piece : TPiece
  params : Params
deriving DecidableEq, Repr

inductive TValCoup
  | valid | timeout | triche
deriving DecidableEq, Repr

inductive TPropCoup
  | cont | gagne | nul | perdu
deriving DecidableEq, Repr

structure TCoupRep where
  err : TCodeRep
  validCoup : TValCoup
  propCoup : TPropCoup
deriving DecidableEq, Repr

inductive Msg
  | partieReq (req : TPartieReq)
  | partieRep (rep : TPartieRep)
  | coupReq (req : TCoupReq)
  | coupRep (rep : TCoupRep)
deriving DecidableEq, Repr

structure TCoupIa where
  finPartie : UInt32
  typeCoup : TCoup
  piece : TTypePiece
  params : Params
deriving DecidableEq, Repr

/-- `req` is the structure the caller passes, whose union is left as it is when
the move is neither a displacement nor a drop. -/
def convertAItoServer (ai : TCoupIa) (req : TCoupReq) (sens : Bool) (nbPartie : Int) : TCoupReq where
  idRequest := .coup
  numPartie := nbPartie
  typeCoup := ai.typeCoup
  piece := ⟨if sens then .sud else .nord, ai.piece⟩
  params :=
    if ai.typeCoup = deplacer then { req.params with deplPiece := ai.params.deplPiece }
    else if ai.typeCoup = deposer then req.params.setDeposerPiece ai.params.deposerPiece
    else req.params

def convertServerToAI (ai : TCoupIa) (req : TCoupReq) (fin : Bool) : TCoupIa where
  typeCoup := req.typeCoup
  piece := req.piece.typePiece
  finPartie := if fin then 1 else 0
  params :=
    if req.typeCoup = deplacer then { ai.params with deplPiece := req.params.deplPiece }
    else if req.typeCoup = deposer then ai.params.setDeposerPiece req.params.deposerPiece
    else ai.params

end YokaiNoMori.ProtocolYokai
