import YokaiNoMori.AiPlayer
import YokaiNoMori.Embodiment
import YokaiNoMori.Runs

namespace YokaiNoMori.SessionRefinement

open Search Board TryMove ForceMove JavaCoup PrologSession Runs Game Embodiment
open AiPlayer (generateMove_has_moves generateMove_side)
open GenerateMove (generateMove_first rescored)
open SessionInvariant (SoundSession moved_sound put_sound initial_sound Held)

/-! The two methods of a session play the game. -/

def positionOf (s : Session) : Position := placement s.currentBoard s.currentCaptN s.currentCaptS

/-- A drop of nothing is no action of the game. -/
def actionOf (coup : Coup) : Option Game.Action :=
  match coup.params with
  | .depl depl =>
      some (.displace (oppopiece coup.piece) (depl.caseDep.getX, depl.caseDep.getY)
        (depl.caseArr.getX, depl.caseArr.getY))
  | .depose depo =>
      (oppopiece coup.piece).map fun k => .drop k (depo.casePos.getX, depo.casePos.getY)

noncomputable def play (side : Side) (g : Position) (coup : Coup) : Position := (actionOf coup).elim g (exec side g)

/-- A drop names its piece. A displacement need not. -/
def Named (coup : Coup) : Prop := ∀ depo, coup.params = .depose depo → coup.piece ≠ .aucun

variable {s s' : Session} {coup : Coup}

theorem sound_held (h : SoundSession s) (side : Side) :
    ∀ p ∈ capturedBy side s.currentCaptN s.currentCaptS, Held side p :=
  SessionInvariant.held_capturedBy h.captN h.captS

theorem displace_refines (hs : SoundSession s) (piece : EnumPiece) (depl : DeplPiece) :
    positionOf (((forceMoveQuery s piece depl).head?.map s.update).getD s) =
        exec s.opposide (positionOf s) (.displace (oppopiece piece) (depl.caseDep.getX, depl.caseDep.getY)
          (depl.caseArr.getX, depl.caseArr.getY)) ∧
      SoundSession (((forceMoveQuery s piece depl).head?.map s.update).getD s) := by
  change positionOf _ = exec s.opposide (placement s.currentBoard s.currentCaptN s.currentCaptS) _ ∧ _
  rw [← forceMove_exec hs.wellFormed, forceMoveQuery]
  cases hfirst : (forceMove s.opposide (oppopiece piece) depl.caseDep.getX depl.caseDep.getY depl.caseArr.getX
      depl.caseArr.getY s.currentBoard s.currentCaptN s.currentCaptS).head? with
  | none => exact ⟨rfl, hs⟩
  | some new =>
      obtain ⟨_, hmoved, _⟩ := forceMove_first hs.wellFormed hfirst
      exact ⟨rfl, moved_sound hs hmoved⟩

theorem drop_refines (hs : SoundSession s) {piece : EnumPiece} {k : Kind} (hk : oppopiece piece = some k)
    (depo : DeposerPiece) {answers : List (List Piece × List Piece × List Piece)}
    (hanswers : answers = (putQuery s piece depo).map fun new =>
      (new.1, withCaptured s.opposide s.currentCaptN s.currentCaptS new.2)) :
    positionOf ((answers.head?.map s.update).getD s) =
        exec s.opposide (positionOf s) (.drop k (depo.casePos.getX, depo.casePos.getY)) ∧
      SoundSession ((answers.head?.map s.update).getD s) := by
  change positionOf _ = exec s.opposide (placement s.currentBoard s.currentCaptN s.currentCaptS) _ ∧ _
  rw [← put_exec hs.wellFormed (sound_held hs s.opposide), hanswers, List.head?_map, putQuery, hk]
  cases hfirst : (put s.opposide (some k) depo.casePos.getX depo.casePos.getY s.currentBoard
      (capturedBy s.opposide s.currentCaptN s.currentCaptS)).head? with
  | none => exact ⟨rfl, hs⟩
  | some new => exact ⟨rfl, put_sound hs (List.mem_of_head? hfirst)⟩

/-- The received move is played for the opponent, or ignored where the game has
no such action. -/
theorem strike_refines (hs : SoundSession s) (hnamed : Named coup) (hcall : forceEnnemyStrike s coup = some s') :
    positionOf s' = play s.opposide (positionOf s) coup ∧ SoundSession s' := by
  rw [forceEnnemyStrike_eq, Option.map_eq_some_iff] at hcall
  obtain ⟨answers, hanswers, rfl⟩ := hcall
  rcases coup with ⟨typeCoup, piece, fin, depl | depo⟩
  · cases typeCoup with
    | deplacer =>
        obtain rfl := Option.some.inj hanswers
        exact displace_refines hs piece depl
    | deposer | aucun => cases hanswers
  · obtain ⟨k, hk⟩ := SessionInvariant.oppopiece_playable (hnamed depo rfl)
    cases typeCoup with
    | deplacer => cases hanswers
    | deposer | aucun =>
        rw [play, actionOf, hk]
        exact drop_refines hs hk depo (Option.some.inj hanswers).symm

/-- What `generateMove` finds is legal, and `force_move` at its coordinates
leads to the same lists. -/
theorem generateMove_legal (hs : SoundSession s) (hk : ∃ p ∈ s.currentBoard, hasType s.opposide .koropokkuru p = true)
    (hmoves : s.moves ≠ []) :
    ∃ type x y nX nY capture new, Found s type x y nX nY new ∧
      MoveRules.Legal s.currentBoard s.side type x y nX nY capture ∧
      generateMove s = some (coupOf (enumPiece type) x y nX nY capture, s.update new) := by
  rw [s.opposed] at hk
  obtain ⟨g, hg, m, hhead, hfirst⟩ := generateMove_first s.currentCaptN s.currentCaptS hk hmoves
  have hlisted : m ∈ getMoves s.currentBoard s.currentCaptN s.currentCaptS s.side := by
    rw [getMoves_eq_flatten]
    exact List.mem_flatten.2 ⟨g, hg, List.mem_of_head? hhead⟩
  have hlegal := MoveGeneration.getMoves_legal hs.wellFormed hlisted
  obtain ⟨type, p, tempBoard, offset, hsel, _, rfl⟩ := mem_attempts.1 hg
  have hr := attempt_records (select_subset hsel) (List.mem_of_head? hhead)
  have hnew := congrArg List.head? (forceMove_eq_attempt s.currentCaptN s.currentCaptS offset hs.wellFormed hsel)
  rw [List.head?_map, hhead, Option.map_some] at hnew
  rw [hr.type_eq, hr.x_eq, hr.y_eq, hr.nX_eq, hr.nY_eq] at hlegal
  have hin := hlegal.inside
  refine ⟨type, p.x, p.y, _, _, m.capture, _, ⟨hnew, (hs.wellFormed.select hsel).1, hin.1.1, hin.1.2, hin.2⟩, hlegal, ?_⟩
  simp only [generateMove, hfirst, rescored, hr.type_eq, hr.x_eq, hr.y_eq, hr.nX_eq, hr.nY_eq, Session.update]

theorem actionOf_coupOf (type : Kind) {x y nX nY : Int} (capture : Int)
    (hsource : 1 ≤ x ∧ x ≤ 5 ∧ 1 ≤ y ∧ y ≤ 6) (htarget : 1 ≤ nX ∧ nX ≤ 5 ∧ 1 ≤ nY ∧ nY ≤ 6) :
    actionOf (coupOf (enumPiece type) x y nX nY capture) = some (.displace (some type) (x, y) (nX, nY)) := by
  obtain ⟨hx, hx', hy, hy'⟩ := hsource
  obtain ⟨hnX, hnX', hnY, hnY'⟩ := htarget
  simp only [actionOf, coupOf, oppopiece_enumPiece, Case.getX_ofXY hx hx', Case.getY_ofXY hy hy',
    Case.getX_ofXY hnX hnX', Case.getY_ofXY hnY hnY']

/-- A generated move is legal, unless it is the one without a piece, which stands
for no move at all. -/
def Lawful (side : Side) (g : Position) (coup : Coup) : Prop :=
  coup.piece ≠ .aucun →
    ∃ k src dst, actionOf coup = some (.displace (some k) src dst) ∧ Game.Legal g side k src dst

theorem generate_refines (hs : SoundSession s) (hcall : generateMove s = some (coup, s')) :
    positionOf s' = play s.side (positionOf s) coup ∧ Lawful s.side (positionOf s) coup ∧ SoundSession s' := by
  have hmoves := generateMove_has_moves hcall
  have hsound := SessionInvariant.generateMove_sound hs hmoves hcall
  by_cases hk : ∃ p ∈ s.currentBoard, hasType s.opposide .koropokkuru p = true
  · obtain ⟨type, x, y, nX, nY, capture, new, hfound, hlegal, hgen⟩ := generateMove_legal hs hk hmoves
    rw [hgen] at hcall
    obtain ⟨rfl, rfl⟩ := Prod.mk.inj (Option.some.inj hcall)
    have haction := actionOf_coupOf type capture hfound.source hfound.target
    obtain ⟨k, _, hdisplaces, hplacement⟩ := forceMove_first hs.wellFormed hfound.head
    obtain rfl : type = k := by
      have hstands : (positionOf s).occupant (x, y) = some (s.side, type) :=
        (occupant_iff hs.wellFormed).2 hlegal.stands
      exact (Prod.mk.inj (Option.some.inj (hstands.symm.trans hdisplaces.mover))).2
    refine ⟨?_, fun _ => ⟨type, _, _, haction, hdisplaces, hlegal.steps⟩, hsound⟩
    rw [play, haction, Option.elim_some]
    exact hplacement.trans (exec_displace hdisplaces).symm
  · have hidle := generateMove_idle (s := s) (by simpa using hk) hmoves
    rw [hidle] at hcall
    obtain ⟨rfl, rfl⟩ := Prod.mk.inj (Option.some.inj hcall)
    refine ⟨?_, fun hpiece => absurd rfl hpiece, hsound⟩
    have hrefused : ∀ k, ¬Displaces (positionOf s) s.side none k (6, 7) (6, 7) := by
      intro k h
      have hin : (6 : Int) ≤ 5 := h.inside.1.2
      omega
    exact (exec_displace_refused hrefused).symm

/-! Runs of a session. -/

inductive Call
  | generate (coup : Coup)
  | force (coup : Coup)

inductive CallStep : Session → Call → Session → Prop
  | generate (s s' : Session) (coup : Coup) (hcall : generateMove s = some (coup, s')) :
      CallStep s (.generate coup) s'
  | force (s s' : Session) (coup : Coup) (hnamed : Named coup) (hcall : forceEnnemyStrike s coup = some s') :
      CallStep s (.force coup) s'

noncomputable def played (side : Side) (g : Position) : Call → Position
  | .generate coup => play side g coup
  | .force coup => play (opponent side) g coup

def opening : Position := placement initialBoard [] []

/-- A session holds the position that its calls have played, and generates
moves that are legal there. -/
structure Plays (side : Side) (tr : List Call) (s : Session) : Prop where
  own : s.side = side
  sound : SoundSession s
  position : positionOf s = tr.foldl (played side) opening
  lawful : ∀ front coup back, tr = front ++ .generate coup :: back →
    Lawful side (front.foldl (played side) opening) coup

theorem plays_initial (side : Side) : Plays side [] (init side) := by
  refine ⟨rfl, initial_sound, rfl, ?_⟩
  intro front coup back h
  have hlength := congrArg List.length h
  rw [List.length_append, List.length_cons, List.length_nil] at hlength
  omega

theorem plays_step {side : Side} {tr : List Call} {c : Call} (h : Plays side tr s) (hstep : CallStep s c s') :
    Plays side (tr ++ [c]) s' := by
  have hfold : (tr ++ [c]).foldl (played side) opening = played side (positionOf s) c := by
    rw [List.foldl_append, ← h.position]
    rfl
  have hprefix {front back : List Call} {coup : Coup} (htr : tr ++ [c] = front ++ .generate coup :: back) :
      (back = [] ∧ front = tr ∧ c = .generate coup) ∨ ∃ more, tr = front ++ .generate coup :: more := by
    rcases List.eq_nil_or_concat back with rfl | ⟨more, last, rfl⟩
    · obtain ⟨rfl, hc⟩ := List.append_inj' htr rfl
      exact .inl ⟨rfl, rfl, List.singleton_inj.1 hc⟩
    · rw [List.concat_eq_append, ← List.cons_append, ← List.append_assoc] at htr
      obtain ⟨rfl, _⟩ := List.append_inj' htr rfl
      exact .inr ⟨more, rfl⟩
  cases hstep with
  | generate coup _ hcall =>
      obtain ⟨hposition, hlawful, hsound⟩ := generate_refines h.sound hcall
      rw [h.own] at hposition hlawful
      refine ⟨(generateMove_side hcall).trans h.own, hsound, hposition.trans hfold.symm, ?_⟩
      intro front coup' back htr
      rcases hprefix htr with ⟨_, rfl, hc⟩ | ⟨more, hmore⟩
      · obtain rfl := Call.generate.inj hc
        rw [← h.position]
        exact hlawful
      · exact h.lawful front coup' more hmore
  | force coup _ hnamed hcall =>
      obtain ⟨hposition, hsound⟩ := strike_refines h.sound hnamed hcall
      rw [s.opposed, h.own] at hposition
      refine ⟨?_, hsound, hposition.trans hfold.symm, ?_⟩
      · obtain ⟨_, _, rfl | ⟨_, _, rfl⟩⟩ := strike_cases hcall
        · exact h.own
        · exact h.own
      · intro front coup' back htr
        rcases hprefix htr with ⟨_, _, hc⟩ | ⟨more, hmore⟩
        · cases hc
        · exact h.lawful front coup' more hmore

theorem plays_run {side : Side} {tr : List Call} (hrun : Run CallStep (init side) tr s) : Plays side tr s := by
  induction hrun with
  | nil => exact plays_initial side
  | snoc _ hstep ih => exact plays_step ih hstep

/-- Whatever moves a session makes and receives, its lists embody the position
that these moves lead to in the game, and the moves it makes are legal there. -/
theorem session_refines (side : Side) {tr : List Call} (hrun : Run CallStep (init side) tr s) :
    positionOf s = tr.foldl (played side) opening ∧
      ∀ front coup back, tr = front ++ .generate coup :: back →
        Lawful side (front.foldl (played side) opening) coup :=
  ⟨(plays_run hrun).position, (plays_run hrun).lawful⟩

theorem session_refines_afterReply :
    positionOf SessionInvariant.afterReply =
        play .south (play .north opening (coupOf .kodama 3 3 3 4 1)) SessionInvariant.reply ∧
      Lawful .north opening (coupOf .kodama 3 3 3 4 1) := by
  have hopened : CallStep (init .north) (.generate (coupOf .kodama 3 3 3 4 1)) SessionInvariant.opening :=
    .generate _ _ _ (by decide +kernel)
  have hreplied : CallStep SessionInvariant.opening (.force SessionInvariant.reply) SessionInvariant.afterReply :=
    .force _ _ _ nofun (by decide +kernel)
  obtain ⟨hposition, hlawful⟩ := session_refines .north ((Run.single hopened).snoc hreplied)
  exact ⟨hposition, hlawful [] _ [.force SessionInvariant.reply] rfl⟩

end YokaiNoMori.SessionRefinement
