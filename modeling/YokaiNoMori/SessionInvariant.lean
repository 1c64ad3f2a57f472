import YokaiNoMori.Drop
import YokaiNoMori.PrologSession
import Mathlib.Algebra.Order.Group.Multiset
import Mathlib.Logic.Relation
import Mathlib.Tactic.Abel

namespace YokaiNoMori.SessionInvariant

open Search Board TryMove ForceMove Drop JavaCoup PrologSession

/-- One call of either method. `generateMove` is only called with a move at
hand, and a received move names one of the six piece types. -/
inductive Step : Session → Session → Prop
  | generate {s s'} (coup : Coup) (hmoves : s.moves ≠ []) (hcall : generateMove s = some (coup, s')) :
      Step s s'
  | force {s s'} (coup : Coup) (hpiece : coup.piece ≠ .aucun) (hcall : forceEnnemyStrike s coup = some s') :
      Step s s'

/-- The piece types of a list, promotions taken back. -/
def material (ps : List Piece) : Multiset Kind := ps.map (fun p => demoted p.type)

def Held (side : Side) (p : Piece) : Prop :=
  p.side = side ∧ p.x = 0 ∧ p.y = 0 ∧ p.type ≠ .samourai ∧ p.type ≠ .superoni

structure Sound (board captN captS : List Piece) : Prop where
  wellFormed : WellFormed board
  conserved : material (board ++ captN ++ captS) = material initialBoard
  captN : ∀ p ∈ captN, Held .north p
  captS : ∀ p ∈ captS, Held .south p

@[simp] theorem material_nil : material [] = 0 := rfl

@[simp] theorem material_cons (p : Piece) (ps : List Piece) :
    material (p :: ps) = {demoted p.type} + material ps := rfl

@[simp] theorem material_append (ps qs : List Piece) :
    material (ps ++ qs) = material ps + material qs := by
  induction ps with
  | nil => simp
  | cons p ps ih => simp [ih]

theorem material_perm {ps qs : List Piece} (h : ps.Perm qs) : material ps = material qs :=
  Multiset.coe_eq_coe.2 (h.map _)

@[simp] theorem demoted_demoted (type : Kind) : demoted (demoted type) = demoted type := by
  cases type <;> rfl

theorem held_demoted (side : Side) (type : Kind) : Held side ⟨side, demoted type, 0, 0⟩ := by
  cases type <;> simp [Held, demoted]

theorem initial_sound : Sound initialBoard [] [] :=
  ⟨initialBoard_wellFormed, by simp, by simp, by simp⟩

theorem material_withCaptured (side : Side) (captN captS : List Piece) (p : Piece) :
    material (withCaptured side captN captS (p :: capturedBy side captN captS)).1 +
      material (withCaptured side captN captS (p :: capturedBy side captN captS)).2 =
      {demoted p.type} + (material captN + material captS) := by
  cases side with
  | north => simp [withCaptured, capturedBy]
  | south => simp only [withCaptured, capturedBy, material_cons]; abel

theorem held_withCaptured {captN captS : List Piece} (side : Side) (newCapt : List Piece)
    (hn : ∀ p ∈ captN, Held .north p) (hs : ∀ p ∈ captS, Held .south p) (h : ∀ p ∈ newCapt, Held side p) :
    (∀ p ∈ (withCaptured side captN captS newCapt).1, Held .north p) ∧
      ∀ p ∈ (withCaptured side captN captS newCapt).2, Held .south p := by
  cases side with
  | north => exact ⟨h, hs⟩
  | south => exact ⟨hn, h⟩

theorem held_capturedBy {side : Side} {captN captS : List Piece}
    (hn : ∀ p ∈ captN, Held .north p) (hs : ∀ p ∈ captS, Held .south p) :
    ∀ p ∈ capturedBy side captN captS, Held side p := by
  cases side with
  | north => exact hn
  | south => exact hs

/-- A first answer of `force_move` keeps the board well formed, conserves the
material and only puts demoted pieces into the captured lists. -/
theorem moved_sound {side : Side} {type : Kind} {x y nX nY : Int} {board captN captS : List Piece}
    {new : List Piece × List Piece × List Piece} (hs : Sound board captN captS)
    (h : Moved side type x y nX nY board captN captS new) : Sound new.1 new.2.1 new.2.2 := by
  cases h with
  | @quiet tempBoard newType hmover htype hempty =>
      refine ⟨hs.wellFormed.moved hmover hempty side newType, ?_, hs.captN, hs.captS⟩
      rw [← hs.conserved]
      simp [material_perm hmover, htype]
  | @taking tempBoard newType taken rest hmover htype htaken hside hx hy =>
      have htemp := hs.wellFormed.rest hmover
      have hheld := held_withCaptured side (⟨side, demoted taken.type, 0, 0⟩ :: capturedBy side captN captS)
        hs.captN hs.captS (by
          intro p hp
          rcases List.mem_cons.1 hp with rfl | hp
          · exact held_demoted side taken.type
          · exact held_capturedBy hs.captN hs.captS p hp)
      subst hx hy
      refine ⟨htemp.replaced htaken side newType, ?_, hheld.1, hheld.2⟩
      have hmat := material_withCaptured side captN captS ⟨side, demoted taken.type, 0, 0⟩
      rw [← hs.conserved]
      simp only [material_append, material_cons, material_perm hmover, material_perm htaken, htype,
        demoted_demoted] at hmat ⊢
      rw [add_assoc, hmat]
      abel

theorem put_sound {side : Side} {type : Option Kind} {x y : Int} {board captN captS newBoard newCapt : List Piece}
    (hs : Sound board captN captS)
    (h : (newBoard, newCapt) ∈ put side type x y board (capturedBy side captN captS)) :
    Sound newBoard (withCaptured side captN captS newCapt).1 (withCaptured side captN captS newCapt).2 := by
  obtain ⟨⟨⟨hx, hy⟩, _, hfree⟩, p, rfl, hsel⟩ := mem_put.1 h
  have hperm := select_perm hsel
  have hempty : isEmpty x y board = true := Board.isEmpty_iff.2 ⟨hx, rows_inside hy, hfree⟩
  have hhands := held_withCaptured side newCapt hs.captN hs.captS
    (fun q hq => held_capturedBy hs.captN hs.captS q (hperm.mem_iff.2 (by simp [hq])))
  refine ⟨hs.wellFormed.put hempty _ _, ?_, hhands.1, hhands.2⟩
  rw [← hs.conserved]
  have hcapt := material_perm hperm
  cases side with
  | north =>
      simp only [capturedBy, withCaptured, material_append, material_cons] at hcapt ⊢
      rw [hcapt]
      abel
  | south =>
      simp only [capturedBy, withCaptured, material_append, material_cons] at hcapt ⊢
      rw [hcapt]
      abel

def SoundSession (s : Session) : Prop := Sound s.currentBoard s.currentCaptN s.currentCaptS

theorem generateMove_sound {s s' : Session} {coup : Coup} (hs : SoundSession s) (hmoves : s.moves ≠ [])
    (hcall : generateMove s = some (coup, s')) : SoundSession s' := by
  by_cases hk : ∃ p ∈ s.currentBoard, hasType s.opposide .koropokkuru p = true
  · obtain ⟨type, x, y, nX, nY, capture, new, hfound, he⟩ := generateMove_found hs.wellFormed hk hmoves
    rw [he] at hcall
    obtain ⟨_, rfl⟩ : _ ∧ s.update new = s' := by simpa using hcall
    exact moved_sound hs (forceMove_head hfound.head)
  · have hidle := generateMove_idle (s := s) (by simpa using hk) hmoves
    rw [hidle] at hcall
    obtain ⟨_, rfl⟩ : _ ∧ s = s' := by simpa using hcall
    exact hs

theorem oppopiece_playable {piece : EnumPiece} (h : piece ≠ .aucun) : ∃ type, oppopiece piece = some type := by
  cases piece <;> simp_all [oppopiece]

theorem forceEnnemyStrike_sound {s s' : Session} {coup : Coup} (hs : SoundSession s)
    (hpiece : coup.piece ≠ .aucun) (hcall : forceEnnemyStrike s coup = some s') : SoundSession s' := by
  obtain ⟨type, htype⟩ := oppopiece_playable hpiece
  obtain ⟨answers, hanswers, hcase⟩ := strike_cases hcall
  rcases hcase with rfl | ⟨new, hhead, rfl⟩
  · exact hs
  · rcases strikeAnswers_cases hanswers with ⟨depl, rfl⟩ | ⟨depo, rfl⟩
    · rw [forceMoveQuery, htype] at hhead
      exact moved_sound hs (forceMove_head hhead)
    · obtain ⟨⟨newBoard, newCapt⟩, hm, rfl⟩ := List.mem_map.1 (List.mem_of_head? hhead)
      exact put_sound hs hm

theorem step_sound {s s' : Session} (hs : SoundSession s) (h : Step s s') : SoundSession s' := by
  cases h with
  | generate coup hmoves hcall => exact generateMove_sound hs hmoves hcall
  | force coup hpiece hcall => exact forceEnnemyStrike_sound hs hpiece hcall

theorem run_sound {s s' : Session} (hs : SoundSession s) (h : Relation.ReflTransGen Step s s') :
    SoundSession s' := by
  induction h with
  | refl => exact hs
  | tail _ hstep ih => exact step_sound ih hstep

theorem countP_material (ps : List Piece) (P : Kind → Prop) [DecidablePred P] :
    ps.countP (fun p => P (demoted p.type)) = (material ps).countP P := by
  simp [material, List.countP_map, Function.comp_def]

theorem count_of_conserved {ps : List Piece} (h : material ps = material initialBoard) (P Q : Kind → Prop)
    [DecidablePred P] [DecidablePred Q] (hPQ : ∀ type, Q type ↔ P (demoted type)) :
    ps.countP (fun p => Q p.type) = (material initialBoard).countP P := by
  rw [← h, ← countP_material]
  exact List.countP_congr (fun p _ => by simp [hPQ])

/-- Whatever the two methods are called with, the pieces stay on distinct
squares of the board, none is lost or duplicated, and captured pieces are kept
unpromoted in the list of their captor. -/
theorem session_invariant (side : Side) {s : Session} (h : Relation.ReflTransGen Step (init side) s) :
    (∀ p ∈ s.currentBoard, 1 ≤ p.x ∧ p.x ≤ 5 ∧ 1 ≤ p.y ∧ p.y ≤ 6) ∧
      s.currentBoard.Pairwise (fun p q => ¬ (p.x = q.x ∧ p.y = q.y)) ∧
      (s.pieces.countP (fun p => p.type = .kodama ∨ p.type = .samourai) = 6 ∧
        s.pieces.countP (fun p => p.type = .oni ∨ p.type = .superoni) = 4 ∧
        s.pieces.countP (fun p => p.type = .kirin) = 4 ∧
        s.pieces.countP (fun p => p.type = .koropokkuru) = 2) ∧
      (∀ p ∈ s.currentCaptN, p.side = .north ∧ p.x = 0 ∧ p.y = 0 ∧ p.type ≠ .samourai ∧ p.type ≠ .superoni) ∧
      (∀ p ∈ s.currentCaptS, p.side = .south ∧ p.x = 0 ∧ p.y = 0 ∧ p.type ≠ .samourai ∧ p.type ≠ .superoni) := by
  have hinit : SoundSession (init side) := initial_sound
  have hs := run_sound hinit h
  have hmat : material s.pieces = material initialBoard := hs.conserved
  refine ⟨hs.wellFormed.inside, hs.wellFormed.apart, ⟨?_, ?_, ?_, ?_⟩, hs.captN, hs.captS⟩
  · rw [count_of_conserved hmat (· = .kodama) (fun type => type = .kodama ∨ type = .samourai)
      (by intro type; cases type <;> decide)]
    rfl
  · rw [count_of_conserved hmat (· = .oni) (fun type => type = .oni ∨ type = .superoni)
      (by intro type; cases type <;> decide)]
    rfl
  · rw [count_of_conserved hmat (· = .kirin) (· = .kirin) (by intro type; cases type <;> decide)]
    rfl
  · rw [count_of_conserved hmat (· = .koropokkuru) (· = .koropokkuru)
      (by intro type; cases type <;> decide)]
    rfl

def opening : Session where
  side := .north
  opposide := .south
  currentBoard :=
    [⟨.north, .kodama, 3, 4⟩, ⟨.north, .oni, 1, 1⟩, ⟨.north, .kirin, 2, 1⟩, ⟨.north, .koropokkuru, 3, 1⟩,
     ⟨.north, .kirin, 4, 1⟩, ⟨.north, .oni, 5, 1⟩, ⟨.north, .kodama, 2, 3⟩, ⟨.north, .kodama, 4, 3⟩,
     ⟨.south, .oni, 1, 6⟩, ⟨.south, .kirin, 2, 6⟩, ⟨.south, .koropokkuru, 3, 6⟩, ⟨.south, .kirin, 4, 6⟩,
     ⟨.south, .oni, 5, 6⟩, ⟨.south, .kodama, 2, 4⟩, ⟨.south, .kodama, 4, 4⟩]
  currentCaptN := [⟨.north, .kodama, 0, 0⟩]
  currentCaptS := []
  opposed := rfl

def reply : Coup := ⟨.deplacer, .kodama, false, .depl ⟨⟨.b, .quatre⟩, ⟨.b, .trois⟩, true⟩⟩

def afterReply : Session := (forceEnnemyStrike opening reply).getD opening

theorem afterReply_reachable : Relation.ReflTransGen Step (init .north) afterReply := by
  refine Relation.ReflTransGen.tail (Relation.ReflTransGen.single (b := opening) ?_) ?_
  · exact .generate (coupOf .kodama 3 3 3 4 1) (by decide +kernel) (by decide +kernel)
  · exact .force reply (by decide) (by decide +kernel)

theorem session_invariant_afterReply :
    afterReply.currentCaptS = [⟨.south, .kodama, 0, 0⟩] ∧
      afterReply.pieces.countP (fun p => p.type = .kodama ∨ p.type = .samourai) = 6 :=
  ⟨by decide +kernel, (session_invariant .north afterReply_reachable).2.2.1.1⟩

end YokaiNoMori.SessionInvariant
