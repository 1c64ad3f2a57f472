import YokaiNoMori.Drop
import YokaiNoMori.MoveGeneration
import YokaiNoMori.PrologSession

namespace YokaiNoMori.Aucun

open Search Board TryMove ForceMove MoveRules MoveGeneration JavaCoup PrologSession Drop

def Unchanged (s : Session) (coup : Coup) : Prop :=
  ∀ s', forceEnnemyStrike s coup = some s' → s'.currentBoard = s.currentBoard ∧
    s'.currentCaptN = s.currentCaptN ∧ s'.currentCaptS = s.currentCaptS

/-- The opponent has some piece on the square of departure that could land. -/
def Displaces (s : Session) (depl : DeplPiece) : Prop :=
  Occupies s.opposide depl.caseDep.getX depl.caseDep.getY s.currentBoard ∧
    (isEmpty depl.caseArr.getX depl.caseArr.getY s.currentBoard = true ∨
      Occupies (opponent s.opposide) depl.caseArr.getX depl.caseArr.getY s.currentBoard)

/-- The opponent has some captured piece that could be dropped. -/
def Drops (s : Session) (depo : DeposerPiece) : Prop :=
  Guards s.opposide depo.casePos.getX depo.casePos.getY s.currentBoard ∧
    ∃ p ∈ capturedBy s.opposide s.currentCaptN s.currentCaptS, p.side = s.opposide

def Answered (s : Session) (coup : Coup) : Prop :=
  match coup.typeCoup, coup.params with
  | .deplacer, .depl depl => Displaces s depl
  | .deplacer, .depose _ => False
  | _, .depl _ => False
  | _, .depose depo => Drops s depo

theorem open_type (side : Side) (nY : Int) : (none, none) ∈ newTypes side none nY := by simp [newTypes]

/-- With an open type the query only asks for a piece to move and a square to land on. -/
theorem forceMove_open {side : Side} {x y nX nY : Int} {board captN captS : List Piece} :
    forceMove side none x y nX nY board captN captS ≠ [] ↔
      Occupies side x y board ∧ (isEmpty nX nY board = true ∨ Occupies (opponent side) nX nY board) := by
  constructor
  · intro h
    obtain ⟨new, hm⟩ := List.exists_mem_of_ne_nil _ h
    obtain ⟨t, newType, p, tempBoard, a, _, hs, ha, _⟩ := mem_forceMove.1 hm
    have hpiece : (p.side = side ∧ unifies t p.type = true) ∧ p.x = x ∧ p.y = y := by
      simpa [isPiece] using select_matches hs
    refine ⟨⟨p, select_mem hs, hpiece.1.1, hpiece.2⟩, ?_⟩
    rcases mem_moveOrCapture.1 ha with ⟨he, _⟩ | ⟨newBoard, newCapt, hc, _⟩
    · exact .inl he
    · obtain ⟨taken, rest, _, hst, _⟩ := mem_capture.1 hc
      have htaken := select_subset hs taken (select_mem hst)
      exact .inr ⟨taken, htaken, opposes_iff.1 (select_matches hst)⟩
  · rintro ⟨⟨p, hp, hside, hx, hy⟩, hland⟩
    have hpat : isPiece side none x y p = true := by simp [isPiece, unifies, hside, hx, hy]
    obtain ⟨tempBoard, hs⟩ := exists_select hp hpat
    have harrival : ∃ a, a ∈ moveOrCapture ⟨side, p.type, nX, nY⟩ board tempBoard
        (capturedBy side captN captS) := by
      rcases hland with he | ⟨q, hq, hqs, hqx, hqy⟩
      · exact ⟨_, mem_moveOrCapture.2 (.inl ⟨he, rfl⟩)⟩
      · have hopp : opposes ⟨side, p.type, nX, nY⟩ q = true := opposes_iff.2 ⟨hqs, hqx, hqy⟩
        obtain ⟨rest, ha⟩ := taking_arrival (capturedBy side captN captS) hs hq hopp hside
          (self_corrected q.type)
        exact ⟨_, ha⟩
    obtain ⟨a, ha⟩ := harrival
    exact List.ne_nil_of_mem (mem_forceMove.2 ⟨none, none, p, tempBoard, a, open_type side nY, hs, ha, rfl⟩)

/-- A move to an empty square puts a piece on it, and a capture takes one off the board. -/
theorem forceMove_changes {side : Side} {type : Option Kind} {x y nX nY : Int} {board captN captS : List Piece}
    {new : List Piece × List Piece × List Piece} (h : new ∈ forceMove side type x y nX nY board captN captS) :
    new.1 ≠ board := by
  obtain ⟨t, newType, p, tempBoard, a, _, hs, ha, rfl⟩ := mem_forceMove.1 h
  intro heq
  rcases mem_moveOrCapture.1 ha with ⟨he, rfl⟩ | ⟨newBoard, newCapt, hc, rfl⟩
  · have hnew : ⟨side, newType.getD p.type, nX, nY⟩ ∈ board := by
      rw [← heq]
      exact List.mem_cons_self
    exact (Board.isEmpty_iff.1 he).2.2 _ hnew ⟨rfl, rfl⟩
  · obtain ⟨taken, rest, _, hst, _, rfl, _⟩ := mem_capture.1 hc
    have hboard := (select_perm hs).length_eq
    have htemp := (select_perm hst).length_eq
    have hlength := congrArg List.length heq
    simp only [List.length_cons] at hboard htemp hlength
    omega

theorem put_changes {side : Side} {type : Option Kind} {x y : Int} {board capt : List Piece}
    {new : List Piece × List Piece} (h : new ∈ put side type x y board capt) : new.1 ≠ board := by
  obtain ⟨_, p, hnew, _⟩ := mem_put.1 h
  intro heq
  have hlength := congrArg List.length (hnew.symm.trans heq)
  simp at hlength

theorem put_open {side : Side} {x y : Int} {board capt : List Piece} :
    put side none x y board capt ≠ [] ↔ Guards side x y board ∧ ∃ p ∈ capt, p.side = side := by
  have hopen (k : Kind) : unifies none k = true := rfl
  simp only [put_ne_nil, hopen, and_true]

theorem forceMoveQuery_answers (s : Session) (depl : DeplPiece) :
    forceMoveQuery s .aucun depl ≠ [] ↔ Displaces s depl := forceMove_open

theorem putQuery_answers (s : Session) (depo : DeposerPiece) :
    putQuery s .aucun depo ≠ [] ↔ Drops s depo := put_open

theorem answered_iff {s : Session} {coup : Coup} (hpiece : coup.piece = .aucun) :
    Answered s coup ↔ ∃ answers, strikeAnswers s coup = some answers ∧ answers ≠ [] := by
  rcases coup with ⟨typeCoup, piece, fin, params⟩
  obtain rfl : piece = .aucun := hpiece
  cases params with
  | depl depl => cases typeCoup <;> simp [Answered, strikeAnswers, forceMoveQuery_answers]
  | depose depo => cases typeCoup <;> simp [Answered, strikeAnswers, putQuery_answers]

/-- Every answer replaces the board by another one. -/
theorem strikeAnswers_change {s : Session} {coup : Coup} {answers : List (List Piece × List Piece × List Piece)}
    {new : List Piece × List Piece × List Piece} (h : strikeAnswers s coup = some answers) (hm : new ∈ answers) :
    new.1 ≠ s.currentBoard := by
  rcases strikeAnswers_cases h with ⟨depl, rfl⟩ | ⟨depo, rfl⟩
  · exact forceMove_changes hm
  · obtain ⟨put, hput, rfl⟩ := List.mem_map.1 hm
    exact put_changes hput

theorem strike_ignored {s s' : Session} {coup : Coup} (hpiece : coup.piece = .aucun)
    (hnone : ¬ Answered s coup) (hcall : forceEnnemyStrike s coup = some s') : s' = s := by
  obtain ⟨answers, hanswers, hcase⟩ := strike_cases hcall
  rcases hcase with rfl | ⟨new, hhead, _⟩
  · rfl
  · have hne : answers ≠ [] := List.ne_nil_of_mem (List.mem_of_head? hhead)
    exact absurd ((answered_iff hpiece).2 ⟨answers, hanswers, hne⟩) hnone

theorem strike_changes {s : Session} {coup : Coup} (hpiece : coup.piece = .aucun)
    (hanswered : Answered s coup) :
    ∃ s', forceEnnemyStrike s coup = some s' ∧ s'.currentBoard ≠ s.currentBoard := by
  obtain ⟨answers, hanswers, hne⟩ := (answered_iff hpiece).1 hanswered
  obtain ⟨new, more, rfl⟩ := List.exists_cons_of_ne_nil hne
  exact ⟨s.update new, strike_first hanswers rfl, strikeAnswers_change hanswers List.mem_cons_self⟩

theorem unchanged_iff {s : Session} {coup : Coup} (hpiece : coup.piece = .aucun) :
    Unchanged s coup ↔ ¬ Answered s coup := by
  constructor
  · intro h hanswered
    obtain ⟨s', hcall, hne⟩ := strike_changes hpiece hanswered
    exact hne (h s' hcall).1
  · intro hnone s' hcall
    rw [strike_ignored hpiece hnone hcall]
    exact ⟨rfl, rfl, rfl⟩

inductive Call
  | generate
  | force (coup : Coup)

def call (s : Session) : Call → Option Session
  | .generate => (generateMove s).map Prod.snd
  | .force coup => forceEnnemyStrike s coup

def calls : Session → List Call → Option Session
  | s, [] => some s
  | s, c :: cs => (call s c).bind fun s' => calls s' cs

def named : Call → Bool
  | .generate => true
  | .force coup => coup.piece != .aucun

/-- In this run no received move without a piece finds an answer. -/
def Harmless : Session → List Call → Prop
  | _, [] => True
  | s, c :: cs => (∀ coup, c = .force coup → coup.piece = .aucun → ¬ Answered s coup) ∧
      ∀ s', call s c = some s' → Harmless s' cs

theorem calls_named {s s' : Session} {cs : List Call} (h : Harmless s cs) (hrun : calls s cs = some s') :
    calls s (cs.filter named) = some s' := by
  induction cs generalizing s with
  | nil => exact hrun
  | cons c cs ih =>
      obtain ⟨hnone, hrest⟩ := h
      obtain ⟨r, hcall, hrun⟩ := Option.bind_eq_some_iff.1 hrun
      have ih := ih (hrest r hcall) hrun
      by_cases hc : named c
      · rw [List.filter_cons_of_pos hc, calls, hcall]
        exact ih
      · rw [List.filter_cons_of_neg hc]
        cases c with
        | generate => exact absurd rfl hc
        | force coup =>
            have hpiece : coup.piece = .aucun := by simpa [named] using hc
            rw [strike_ignored hpiece (hnone coup rfl hpiece) hcall] at ih
            exact ih

/-- `AUCUN` reads as a variable, so such a move is ignored exactly when no
piece would do; a run in which it never finds one is the run without it. -/
theorem aucun_ignored (s : Session) :
    (∀ coup, coup.piece = .aucun → (Unchanged s coup ↔ ¬ Answered s coup)) ∧
    ∀ cs s', Harmless s cs → calls s cs = some s' → calls s (cs.filter named) = some s' :=
  ⟨fun _ hpiece => unchanged_iff hpiece, fun _ _ h hrun => calls_named h hrun⟩

def emptyHanded : Coup := ⟨.deposer, .aucun, false, .depose ⟨⟨.c, .deux⟩⟩⟩

theorem aucun_ignored_emptyHanded :
    Unchanged (init .north) emptyHanded ∧
      calls (init .north) ([.force emptyHanded].filter named) = some (init .north) := by
  have hnone : ¬ Answered (init .north) emptyHanded := by
    rintro ⟨_, p, hp, _⟩
    cases hp
  refine ⟨((aucun_ignored (init .north)).1 emptyHanded rfl).2 hnone,
    (aucun_ignored (init .north)).2 [.force emptyHanded] (init .north) ⟨?_, fun _ _ => trivial⟩ (by decide)⟩
  intro coup hc _
  obtain rfl : emptyHanded = coup := by simpa using hc
  exact hnone

def nameless : Coup := ⟨.deplacer, .aucun, false, .depl ⟨⟨.c, .quatre⟩, ⟨.c, .trois⟩, true⟩⟩

/-- The nameless move takes the kodama in front of the opponent's own. -/
theorem nameless_captures :
    nameless.piece = .aucun ∧ ¬ Unchanged (init .north) nameless ∧
      (forceEnnemyStrike (init .north) nameless).map Session.currentCaptS =
        some [⟨.south, .kodama, 0, 0⟩] := by
  refine ⟨rfl, ?_, by decide⟩
  rw [unchanged_iff rfl, not_not]
  refine ⟨⟨⟨.south, .kodama, 3, 4⟩, by decide, by decide⟩, .inr ⟨⟨.north, .kodama, 3, 3⟩, by decide, by decide⟩⟩

end YokaiNoMori.Aucun
