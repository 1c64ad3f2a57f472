import YokaiNoMori.AiStream
import YokaiNoMori.Client

namespace YokaiNoMori.JSicstus

open ByteReader JavaCoup
open Client (Game Role Branch)

inductive Pc
  | readSens
  | play (b : Branch)
  | read (b : Branch)
  | skip
  | done
deriving DecidableEq, Repr

structure State where
  pc : Pc
  sens : Bool
  nbPartie : Nat
deriving DecidableEq, Repr

def loop1 (sens : Bool) (nbPartie : Nat) : Pc :=
  if nbPartie = 1 then
    if sens = true then .play ⟨.game1, .first⟩ else .read ⟨.game1, .second⟩
  else .skip

def loop2 (sens : Bool) (nbPartie : Nat) : Pc :=
  if nbPartie = 2 then
    if sens = false then .play ⟨.game2, .first⟩ else .read ⟨.game2, .second⟩
  else .done

def loopTop : Game → Bool → Nat → Pc
  | .game1 => loop1
  | .game2 => loop2

def State.iterate (s : State) (b : Branch) : State := { s with pc := loopTop b.game s.sens s.nbPartie }

def State.played (s : State) (b : Branch) : State :=
  match b.role with
  | .first => { s with pc := .read b }
  | .second => s.iterate b

def State.received (s : State) (b : Branch) : Option Coup → State
  | none => State.iterate { s with nbPartie := s.nbPartie + 1 } b
  | some _ =>
    match b.role with
    | .first => s.iterate b
    | .second => { s with pc := .play b }

inductive Event
  | readBoolean (sens : Bool)
  | sendToNetwork
  | readFromNetwork (coup : Option Coup)
  | skip
deriving DecidableEq

/-- A step takes what it reads from the bytes at hand. -/
inductive Step : State → List UInt8 → Event → State → List UInt8 → Prop
  | readBoolean (s) (byte) (rest) (hpc : s.pc = .readSens) :
      Step s (byte :: rest) (.readBoolean (decide (byte ≠ 0)))
        { s with sens := decide (byte ≠ 0), pc := loop1 (decide (byte ≠ 0)) s.nbPartie } rest
  | sendToNetwork (s) (b) (bytes) (hpc : s.pc = .play b) : Step s bytes .sendToNetwork (s.played b) bytes
  | readFromNetwork (s) (b) (bytes) (coup) (rest) (hpc : s.pc = .read b)
      (hread : AiStream.readFromNetwork.run bytes = .ok (coup, rest)) :
      Step s bytes (.readFromNetwork coup) (s.received b coup) rest
  | skip (s) (bytes) (hpc : s.pc = .skip) : Step s bytes .skip { s with pc := loop2 s.sens s.nbPartie } []

end YokaiNoMori.JSicstus
