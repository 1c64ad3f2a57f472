import Mathlib.Data.Int.Init

namespace YokaiNoMori.JavaCoup

inductive EnumCoup
  | deplacer | deposer | aucun
deriving DecidableEq, Repr

inductive EnumPiece
  | kodama | kodamaSamourai | kirin | koropokkuru | oni | superOni | aucun
deriving DecidableEq, Repr

inductive EnumCol
  | a | b | c | d | e | aucun
deriving DecidableEq, Repr

inductive EnumLig
  | un | deux | trois | quatre | cinq | six | aucun
deriving DecidableEq, Repr

def EnumCoup.values : List EnumCoup := [.deplacer, .deposer, .aucun]

def EnumPiece.values : List EnumPiece :=
  [.kodama, .kodamaSamourai, .kirin, .koropokkuru, .oni, .superOni, .aucun]

def EnumCol.values : List EnumCol := [.a, .b, .c, .d, .e, .aucun]

def EnumLig.values : List EnumLig := [.un, .deux, .trois, .quatre, .cinq, .six, .aucun]

def EnumCoup.ordinal (t : EnumCoup) : Nat := EnumCoup.values.idxOf t

def EnumPiece.ordinal (p : EnumPiece) : Nat := EnumPiece.values.idxOf p

def EnumCol.ordinal (col : EnumCol) : Nat := EnumCol.values.idxOf col

def EnumLig.ordinal (l : EnumLig) : Nat := EnumLig.values.idxOf l

structure Case where
  c : EnumCol
  l : EnumLig
deriving DecidableEq, Repr

/-- The narrowing conversion of a `long` to an `int`. -/
def narrow (n : Int) : Int := n.bmod 4294967296

/-- The second constructor, from the coordinates of a Prolog answer. -/
def Case.ofXY (x y : Int) : Case where
  c := if narrow x = 1 then .a else if narrow x = 2 then .b else if narrow x = 3 then .c
    else if narrow x = 4 then .d else if narrow x = 5 then .e else .aucun
  l := if narrow y = 1 then .un else if narrow y = 2 then .deux else if narrow y = 3 then .trois
    else if narrow y = 4 then .quatre else if narrow y = 5 then .cinq
    else if narrow y = 6 then .six else .aucun

def Case.getX (k : Case) : Int := k.c.ordinal + 1

def Case.getY (k : Case) : Int := k.l.ordinal + 1

structure DeplPiece where
  caseDep : Case
  caseArr : Case
  estCapt : Bool
deriving DecidableEq, Repr

structure DeposerPiece where
  casePos : Case
deriving DecidableEq, Repr

inductive Action
  | depl (params : DeplPiece)
  | depose (params : DeposerPiece)
deriving DecidableEq, Repr

structure Coup where
  typeCoup : EnumCoup
  piece : EnumPiece
  finPartie : Bool
  params : Action
deriving DecidableEq, Repr

theorem Case.getX_ofXY {x y : Int} (hl : 1 ≤ x) (hh : x ≤ 5) : (Case.ofXY x y).getX = x := by
  obtain rfl | rfl | rfl | rfl | rfl : x = 1 ∨ x = 2 ∨ x = 3 ∨ x = 4 ∨ x = 5 := by omega
  all_goals rfl

theorem Case.getY_ofXY {x y : Int} (hl : 1 ≤ y) (hh : y ≤ 6) : (Case.ofXY x y).getY = y := by
  obtain rfl | rfl | rfl | rfl | rfl | rfl :
    y = 1 ∨ y = 2 ∨ y = 3 ∨ y = 4 ∨ y = 5 ∨ y = 6 := by omega
  all_goals rfl

end YokaiNoMori.JavaCoup
