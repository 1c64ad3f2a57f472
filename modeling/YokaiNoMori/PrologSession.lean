import YokaiNoMori.ForceMove
import YokaiNoMori.GenerateMove
import YokaiNoMori.JavaCoup

namespace YokaiNoMori.PrologSession

open Search Board TryMove ForceMove GenerateMove JavaCoup

/-- The fields of `Prolog` that survive a call. The lists `newBoard`,
`newCaptN` and `newCaptS` are fresh at the start of every call. -/
structure Session where
  side : Side
  opposide : Side
  currentBoard : List Piece
  currentCaptN : List Piece
  currentCaptS : List Piece
  opposed : opposide = opponent side
deriving DecidableEq

def init (side : Side) : Session := ⟨side, opponent side, initialBoard, [], [], rfl⟩

/-- The text put into the query. `AUCUN` is a variable for Prolog. -/
def oppopiece : EnumPiece → Option Kind
  | .kodama => some .kodama
  | .kodamaSamourai => some .samourai
  | .oni => some .oni
  | .superOni => some .superoni
  | .kirin => some .kirin
  | .koropokkuru => some .koropokkuru
  | .aucun => none

def enumPiece : Kind → EnumPiece
  | .kodama => .kodama
  | .samourai => .kodamaSamourai
  | .oni => .oni
  | .superoni => .superOni
  | .kirin => .kirin
  | .koropokkuru => .koropokkuru

def forceMoveQuery (s : Session) (piece : EnumPiece) (depl : DeplPiece) :
    List (List Piece × List Piece × List Piece) :=
  forceMove s.opposide (oppopiece piece) depl.caseDep.getX depl.caseDep.getY depl.caseArr.getX
    depl.caseArr.getY s.currentBoard s.currentCaptN s.currentCaptS

def putQuery (s : Session) (piece : EnumPiece) (depo : DeposerPiece) : List (List Piece × List Piece) :=
  put s.opposide (oppopiece piece) depo.casePos.getX depo.casePos.getY s.currentBoard
    (capturedBy s.opposide s.currentCaptN s.currentCaptS)

/-- Only the first solution of the query is read, and a query without one
leaves the lists alone. `none` is the failure of a cast of `params`. -/
def forceEnnemyStrike (s : Session) (coup : Coup) : Option Session :=
  match coup.typeCoup, coup.params with
  | .deplacer, .depl depl =>
      match (forceMoveQuery s coup.piece depl).head? with
      | some (newBoard, newCaptN, newCaptS) =>
          some { s with currentBoard := newBoard, currentCaptN := newCaptN, currentCaptS := newCaptS }
      | none => some s
  | .deplacer, .depose _ => none
  | _, .depl _ => none
  | _, .depose depo =>
      match (putQuery s coup.piece depo).head? with
      | some (newBoard, newCapt) =>
          let capts := withCaptured s.opposide s.currentCaptN s.currentCaptS newCapt
          some { s with currentBoard := newBoard, currentCaptN := capts.1, currentCaptS := capts.2 }
      | none => some s

def coupOf (type : EnumPiece) (x y nX nY capture : Int) : Coup :=
  ⟨.deplacer, type, false, .depl ⟨Case.ofXY x y, Case.ofXY nX nY, capture != 0⟩⟩

/-- `none` is the exit of the program: the query raises, or its answer leaves
`Type` unbound and `getString` raises. -/
def generateMove (s : Session) : Option (Coup × Session) :=
  let answers := GenerateMove.generateMove s.currentBoard s.currentCaptN s.currentCaptS s.side
  match first answers with
  | some (some m) =>
      some (coupOf (enumPiece m.type) m.x m.y m.nX m.nY m.capture,
        { s with currentBoard := m.newBoard, currentCaptN := m.newCaptN, currentCaptS := m.newCaptS })
  | some none => none
  | none => if answers.raised then none else some (coupOf .aucun 0 0 0 0 0, s)

def Session.moves (s : Session) : List Move := getMoves s.currentBoard s.currentCaptN s.currentCaptS s.side

def Session.pieces (s : Session) : List Piece := s.currentBoard ++ s.currentCaptN ++ s.currentCaptS

@[simp] theorem oppopiece_enumPiece (type : Kind) : oppopiece (enumPiece type) = some type := by
  cases type <;> rfl

def Session.update (s : Session) (new : List Piece × List Piece × List Piece) : Session :=
  { s with currentBoard := new.1, currentCaptN := new.2.1, currentCaptS := new.2.2 }

/-- The answers of the query behind `forceEnnemyStrike`, each as the lists it leaves. -/
def strikeAnswers (s : Session) (coup : Coup) : Option (List (List Piece × List Piece × List Piece)) :=
  match coup.typeCoup, coup.params with
  | .deplacer, .depl depl => some (forceMoveQuery s coup.piece depl)
  | .deplacer, .depose _ => none
  | _, .depl _ => none
  | _, .depose depo => some ((putQuery s coup.piece depo).map fun new =>
      (new.1, withCaptured s.opposide s.currentCaptN s.currentCaptS new.2))

theorem strikeAnswers_cases {s : Session} {coup : Coup} {answers : List (List Piece × List Piece × List Piece)}
    (h : strikeAnswers s coup = some answers) :
    (∃ depl, answers = forceMoveQuery s coup.piece depl) ∨
      ∃ depo, answers = (putQuery s coup.piece depo).map fun new =>
        (new.1, withCaptured s.opposide s.currentCaptN s.currentCaptS new.2) := by
  rw [strikeAnswers] at h
  split at h
  · exact .inl ⟨_, (Option.some.inj h).symm⟩
  · cases h
  · cases h
  · exact .inr ⟨_, (Option.some.inj h).symm⟩

theorem forceEnnemyStrike_eq (s : Session) (coup : Coup) :
    forceEnnemyStrike s coup = (strikeAnswers s coup).map fun answers => (answers.head?.map s.update).getD s := by
  rw [forceEnnemyStrike, strikeAnswers]
  split
  · rw [Option.map_some]
    cases (forceMoveQuery s coup.piece _).head? <;> rfl
  · rfl
  · rfl
  · rw [Option.map_some, List.head?_map]
    cases (putQuery s coup.piece _).head? <;> rfl

theorem strike_first {s : Session} {coup : Coup} {answers : List (List Piece × List Piece × List Piece)}
    {new : List Piece × List Piece × List Piece} (h : strikeAnswers s coup = some answers)
    (hhead : answers.head? = some new) : forceEnnemyStrike s coup = some (s.update new) := by
  rw [forceEnnemyStrike_eq, h, Option.map_some, hhead]
  rfl

theorem strike_cases {s s' : Session} {coup : Coup} (hcall : forceEnnemyStrike s coup = some s') :
    ∃ answers, strikeAnswers s coup = some answers ∧
      (s' = s ∨ ∃ new, answers.head? = some new ∧ s' = s.update new) := by
  rw [forceEnnemyStrike_eq, Option.map_eq_some_iff] at hcall
  obtain ⟨answers, h, rfl⟩ := hcall
  refine ⟨answers, h, ?_⟩
  cases answers.head? with
  | none => exact .inl rfl
  | some new => exact .inr ⟨new, rfl, rfl⟩

/-- A move that `generateMove` found: `force_move` at its coordinates has the
same first answer, and both squares lie on the board. -/
structure Found (s : Session) (type : Kind) (x y nX nY : Int)
    (new : List Piece × List Piece × List Piece) : Prop where
  head : (forceMove s.side (some type) x y nX nY s.currentBoard s.currentCaptN s.currentCaptS).head? = some new
  source : 1 ≤ x ∧ x ≤ 5 ∧ 1 ≤ y ∧ y ≤ 6
  target : 1 ≤ nX ∧ nX ≤ 5 ∧ 1 ≤ nY ∧ nY ≤ 6

theorem moved_target {side : Side} {type : Kind} {x y nX nY : Int} {board captN captS : List Piece}
    {new : List Piece × List Piece × List Piece} (hb : WellFormed board)
    (h : Moved side type x y nX nY board captN captS new) : 1 ≤ nX ∧ nX ≤ 5 ∧ 1 ≤ nY ∧ nY ≤ 6 := by
  cases h with
  | quiet hmover htype hempty =>
      obtain ⟨hx, hy, _⟩ := isEmpty_iff.1 hempty
      exact ⟨hx.1, hx.2, hy⟩
  | @taking tempBoard newType taken rest hmover htype htaken hside hx hy =>
      subst hx hy
      exact hb.inside taken (hmover.mem_iff.2 (by simp [htaken.mem_iff]))

theorem generateMove_found {s : Session} (hb : WellFormed s.currentBoard)
    (hk : ∃ p ∈ s.currentBoard, hasType s.opposide .koropokkuru p = true) (hmoves : s.moves ≠ []) :
    ∃ type x y nX nY capture new, Found s type x y nX nY new ∧
      generateMove s = some (coupOf (enumPiece type) x y nX nY capture, s.update new) := by
  rw [s.opposed] at hk
  obtain ⟨g, hg, m, hhead, hfirst⟩ := generateMove_first s.currentCaptN s.currentCaptS hk hmoves
  obtain ⟨type, p, tempBoard, offset, hsel, _, rfl⟩ := mem_attempts.1 hg
  have hr := attempt_records (select_subset hsel) (List.mem_of_head? hhead)
  have hforce := forceMove_eq_attempt s.currentCaptN s.currentCaptS offset hb hsel
  have hnew := congrArg List.head? hforce
  rw [List.head?_map, hhead, Option.map_some] at hnew
  refine ⟨type, p.x, p.y, _, _, m.capture, _, ⟨hnew, (hb.select hsel).1, ?_⟩, ?_⟩
  · exact moved_target hb (forceMove_head hnew)
  · simp only [generateMove, hfirst, rescored, hr.type_eq, hr.x_eq, hr.y_eq, hr.nX_eq, hr.nY_eq,
      Session.update]

theorem generateMove_idle {s : Session}
    (hk : ∀ p ∈ s.currentBoard, hasType s.opposide .koropokkuru p = false) (hmoves : s.moves ≠ []) :
    generateMove s = some (coupOf .aucun 0 0 0 0 0, s) := by
  rw [s.opposed] at hk
  have h := generateMove_no_koropokkuru s.currentCaptN s.currentCaptS hk hmoves
  simp only [generateMove, h, first, List.head?_nil, Bool.false_eq_true, if_false]

end YokaiNoMori.PrologSession
