import YokaiNoMori.Drop
import Mathlib.Algebra.Order.Group.Multiset
import Mathlib.Logic.Function.Basic

namespace YokaiNoMori.Game

open Board ForceMove MoveRules Drop

/-- The men of sides `σ` and types `τ` on squares `κ`, and the types that each side holds. -/
@[ext] structure Placement (σ τ κ : Type) where
  occupant : κ → Option (σ × τ)
  hand : σ → Multiset τ

namespace Placement

variable {σ τ κ : Type} [DecidableEq σ] [DecidableEq κ] (g : Placement σ τ κ)

/-- A man goes from `src` to `dst`, where it stands as a `t`, and whoever stood
there goes to its side, as the type that `held` makes of it. -/
def advance (held : τ → τ) (s : σ) (t : τ) (src dst : κ) : Placement σ τ κ where
  occupant := Function.update (Function.update g.occupant src none) dst (some (s, t))
  hand := Function.update g.hand s (((g.occupant dst).toList.map fun m => held m.2 : Multiset τ) + g.hand s)

def enter [DecidableEq τ] (s : σ) (t : τ) (dst : κ) : Placement σ τ κ where
  occupant := Function.update g.occupant dst (some (s, t))
  hand := Function.update g.hand s ((g.hand s).erase t)

end Placement

/-- A column and a row. -/
abbrev Square : Type := Int × Int

abbrev Position : Type := Placement Side Kind Square

inductive Action
  | displace (type : Option Kind) (src dst : Square)
  | drop (type : Kind) (dst : Square)

def Inside (q : Square) : Prop := (1 ≤ q.1 ∧ q.1 ≤ 5) ∧ 1 ≤ q.2 ∧ q.2 ≤ 6

/-- The two rows in front of the opponent. -/
def Far : Side → Int → Prop
  | .north, row => 5 ≤ row
  | .south, row => row ≤ 2

instance (side : Side) (row : Int) : Decidable (Far side row) :=
  match side with
  | .north => inferInstanceAs (Decidable (5 ≤ row))
  | .south => inferInstanceAs (Decidable (row ≤ 2))

def grown (side : Side) (type : Kind) (row : Int) : Kind :=
  match type with
  | .kodama => if Far side row then .samourai else .kodama
  | .oni => if Far side row then .superoni else .oni
  | type => type

/-- What is asked of a displacement that somebody else has checked. -/
structure Displaces (g : Position) (side : Side) (type : Option Kind) (k : Kind) (src dst : Square) : Prop where
  mover : g.occupant src = some (side, k)
  named : unifies type k = true
  inside : Inside dst
  free : ∀ t, g.occupant dst ≠ some (side, t)

/-- A displacement by the rules. -/
structure Legal (g : Position) (side : Side) (k : Kind) (src dst : Square) : Prop where
  displaces : Displaces g side (some k) k src dst
  steps : Steps side k (dst.1 - src.1) (dst.2 - src.2)

/-- No man of the side in the column, whatever its type. -/
structure Enters (g : Position) (side : Side) (k : Kind) (dst : Square) : Prop where
  column : 1 ≤ dst.1 ∧ dst.1 ≤ 5
  rows : Rows side dst.2
  alone : ∀ y t, g.occupant (dst.1, y) ≠ some (side, t)
  free : g.occupant dst = none
  held : k ∈ g.hand side

/-- A turn by the rules: a displacement, with whatever it captures. -/
def Turns (side : Side) (g g' : Position) : Prop :=
  ∃ k src dst, Legal g side k src dst ∧ g' = g.advance demoted side (grown side k dst.2) src dst

/-- North moves first. -/
def sideToMove : Nat → Side
  | 0 => .north
  | n + 1 => opponent (sideToMove n)

open Classical in
/-- What an action makes of a position: one that cannot be done is ignored. -/
noncomputable def exec (side : Side) (g : Position) : Action → Position
  | .displace type src dst =>
      match g.occupant src with
      | some (_, k) =>
          if Displaces g side type k src dst then g.advance demoted side (grown side k dst.2) src dst else g
      | none => g
  | .drop k dst => if Enters g side k dst then g.enter side k dst else g

theorem exec_displace {g : Position} {side : Side} {type : Option Kind} {k : Kind} {src dst : Square}
    (h : Displaces g side type k src dst) :
    exec side g (.displace type src dst) = g.advance demoted side (grown side k dst.2) src dst := by
  simp only [exec, h.mover]
  rw [if_pos h]

theorem exec_displace_refused {g : Position} {side : Side} {type : Option Kind} {src dst : Square}
    (h : ∀ k, ¬Displaces g side type k src dst) : exec side g (.displace type src dst) = g := by
  rw [exec]
  split
  · exact if_neg (h _)
  · rfl

theorem exec_drop {g : Position} {side : Side} {k : Kind} {dst : Square} (h : Enters g side k dst) :
    exec side g (.drop k dst) = g.enter side k dst := if_pos h

theorem exec_drop_refused {g : Position} {side : Side} {k : Kind} {dst : Square} (h : ¬Enters g side k dst) :
    exec side g (.drop k dst) = g := if_neg h

end YokaiNoMori.Game
