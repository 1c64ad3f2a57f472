import YokaiNoMori.Drop
import YokaiNoMori.GenerateMove
import YokaiNoMori.Replay
import Mathlib.Logic.Relation

namespace YokaiNoMori.KodamaRuns

open Search Board TryMove ForceMove GenerateMove MoveRules MoveGeneration Variants Replay Drop

structure Position where
  board : List Piece
  captN : List Piece
  captS : List Piece
deriving DecidableEq

def start : Position := ⟨initialBoard, [], []⟩

/-- `force_move` is asked for coordinates of an answer of `try_move`, with any
type or none, and `put` for anything, its list of captured pieces included. -/
inductive Step : Position → Position → Prop
  | generate (P : Position) (side : Side) (m : Move) (hmoves : getMoves P.board P.captN P.captS side ≠ [])
      (hfirst : first (generateMove P.board P.captN P.captS side) = some (some m)) :
      Step P ⟨m.newBoard, m.newCaptN, m.newCaptS⟩
  | force (P : Position) (side : Side) (type : Option Kind) (m : Move)
      (new : List Piece × List Piece × List Piece) (hallowed : m ∈ tryMove P.board P.captN P.captS side)
      (hfirst : (forceMove side type m.x m.y m.nX m.nY P.board P.captN P.captS).head? = some new) :
      Step P ⟨new.1, new.2.1, new.2.2⟩
  | put (P : Position) (side : Side) (type : Option Kind) (x y : Int)
      (capt newBoard newCapt : List Piece) (hanswer : (newBoard, newCapt) ∈ put side type x y P.board capt) :
      Step P ⟨newBoard, (withCaptured side P.captN P.captS newCapt).1,
        (withCaptured side P.captN P.captS newCapt).2⟩

def kodamaAt (side : Side) (x : Int) (p : Piece) : Bool := hasType side .kodama p && p.x == x

def lastRow : Side → Int
  | .north => 6
  | .south => 1

structure KodamaRule (board : List Piece) : Prop where
  column : ∀ side x, board.countP (kodamaAt side x) ≤ 1
  row : ∀ p ∈ board, p.type = .kodama → p.y ≠ lastRow p.side

theorem kodamaAt_iff {side : Side} {x : Int} {p : Piece} :
    kodamaAt side x p = true ↔ (p.side = side ∧ p.type = .kodama) ∧ p.x = x := by
  rw [kodamaAt, Bool.and_eq_true, hasType_iff, beq_iff_eq]

theorem rule_subperm {board rest : List Piece} (hr : KodamaRule board) (hsub : rest.Subperm board) :
    KodamaRule rest := by
  constructor
  · intro side x
    exact Nat.le_trans (hsub.countP_le _) (hr.column side x)
  · intro p hp
    exact hr.row p (hsub.subset hp)

theorem rule_cons {q : Piece} {board : List Piece} (hr : KodamaRule board)
    (hq : q.type = .kodama → q.y ≠ lastRow q.side ∧ board.countP (kodamaAt q.side q.x) = 0) :
    KodamaRule (q :: board) := by
  constructor
  · intro side x
    rw [List.countP_cons]
    split
    · rename_i hat
      obtain ⟨⟨rfl, htype⟩, rfl⟩ := kodamaAt_iff.1 hat
      exact Nat.le_of_eq (congrArg (· + 1) (hq htype).2)
    · exact hr.column side x
  · intro p hp htype
    rcases List.mem_cons.1 hp with rfl | hp
    · exact (hq htype).1
    · exact hr.row p hp htype

def arrivalType (side : Side) (type : Kind) (nY : Int) : Kind :=
  if promotionZone side nY then (promoted type).getD type else type

theorem arrivalTypes_cons (side : Side) (type : Kind) (nY : Int) :
    ∃ types, arrivalTypes side type nY = arrivalType side type nY :: types := by
  rw [arrivalTypes, arrivalType]
  split
  · cases promoted type with
    | none => exact ⟨[], rfl⟩
    | some newType => exact ⟨[type], rfl⟩
  · exact ⟨[], rfl⟩

/-- A kodama is still one after its move only short of the promotion zone. -/
theorem arrivalType_kodama {side : Side} {type : Kind} {nY : Int} (h : arrivalType side type nY = .kodama) :
    type = .kodama ∧ nY ≠ lastRow side := by
  rw [arrivalType] at h
  split at h
  · cases type <;> cases h
  · rename_i hz
    refine ⟨h, fun hlast => hz ?_⟩
    rw [hlast]
    cases side <;> rfl

theorem moveOrCapture_eq_nil {side : Side} {type newType : Kind} {x y : Int} {board tempBoard capt : List Piece}
    (h : moveOrCapture ⟨side, type, x, y⟩ board tempBoard capt = []) :
    moveOrCapture ⟨side, newType, x, y⟩ board tempBoard capt = [] := by
  have ho : opposes ⟨side, newType, x, y⟩ = opposes ⟨side, type, x, y⟩ := rfl
  have hlength : (moveOrCapture ⟨side, newType, x, y⟩ board tempBoard capt).length =
      (moveOrCapture ⟨side, type, x, y⟩ board tempBoard capt).length := by
    by_cases he : isEmpty x y board <;> simp [moveOrCapture, capture, ho, he, List.length_flatMap]
  rw [h] at hlength
  exact List.eq_nil_of_length_eq_zero hlength

/-- The first variant of an attempt is the promoted one. -/
theorem attempt_head {board captN captS tempBoard : List Piece} {side : Side} {type : Kind} {p : Piece}
    {offset : Int × Int} {m : Move}
    (h : (attempt board captN captS side type (arrivalTypes side type) p tempBoard offset).head? = some m) :
    ∃ rest, rest.Subperm tempBoard ∧ m.newBoard =
      ⟨side, arrivalType side type (p.y + offset.2), p.x + offset.1, p.y + offset.2⟩ :: rest := by
  obtain ⟨types, htypes⟩ := arrivalTypes_cons side type (p.y + offset.2)
  rw [attempt, htypes] at h
  have hhead := head_flatMap_cons (fun hnil newType _ => by
    rw [List.map_eq_nil_iff] at hnil ⊢
    exact moveOrCapture_eq_nil hnil) h
  obtain ⟨a, ha, rfl⟩ := List.mem_map.1 (List.mem_of_head? hhead)
  rcases mem_moveOrCapture.1 ha with ⟨_, rfl⟩ | ⟨newBoard, newCapt, hc, rfl⟩
  · exact ⟨tempBoard, List.Subperm.refl tempBoard, rfl⟩
  · obtain ⟨taken, rest, newTaken, hst, _, rfl, rfl⟩ := mem_capture.1 hc
    have hsub : rest.Subperm (taken :: rest) := (List.sublist_cons_self taken rest).subperm
    exact ⟨rest, hsub.trans (select_perm hst).symm.subperm, rfl⟩

/-- A kodama steps straight ahead, so it stays alone in its column. -/
theorem moved_rule {board tempBoard rest : List Piece} {side : Side} {type : Kind} {x y nX nY : Int}
    (hr : KodamaRule board) (hmover : board.Perm (⟨side, type, x, y⟩ :: tempBoard))
    (hsteps : Steps side type (nX - x) (nY - y)) (hsub : rest.Subperm tempBoard) :
    KodamaRule (⟨side, arrivalType side type nY, nX, nY⟩ :: rest) := by
  have htemp : tempBoard.Subperm board :=
    (List.sublist_cons_self _ tempBoard).subperm.trans hmover.symm.subperm
  apply rule_cons (rule_subperm hr (hsub.trans htemp))
  intro hkodama
  obtain ⟨rfl, hrow⟩ := arrivalType_kodama hkodama
  refine ⟨hrow, ?_⟩
  have hx : nX = x := by
    have hstraight : nX - x = 0 := hsteps.1
    omega
  have hself : kodamaAt side x ⟨side, .kodama, x, y⟩ = true := kodamaAt_iff.2 ⟨⟨rfl, rfl⟩, rfl⟩
  have hcount := hmover.countP_eq (kodamaAt side x)
  rw [List.countP_cons_of_pos hself] at hcount
  have hcolumn := hr.column side x
  have hrest := hsub.countP_le (kodamaAt side x)
  rw [hx]
  dsimp only
  omega

structure Inv (board : List Piece) : Prop where
  wellFormed : WellFormed board
  rule : KodamaRule board

theorem attempt_keeps {board captN captS tempBoard : List Piece} {side : Side} {type : Kind} {p : Piece}
    {offset : Int × Int} {m : Move} (hb : Inv board)
    (hs : (p, tempBoard) ∈ select (hasType side type) board) (ho : offset ∈ offsets side type)
    (h : (attempt board captN captS side type (arrivalTypes side type) p tempBoard offset).head? = some m) :
    Inv m.newBoard := by
  have hm : m ∈ getMoves board captN captS side :=
    mem_getMoves.2 ⟨type, p, tempBoard, offset, hs, ho, List.mem_of_head? h⟩
  refine ⟨getMoves_wellFormed hb.wellFormed hm, ?_⟩
  obtain ⟨rest, hsub, hnew⟩ := attempt_head h
  have hmover := select_perm hs
  rw [eq_of_hasType (select_matches hs)] at hmover
  rw [hnew]
  exact moved_rule hb.rule hmover (steps_offset.2 ho) hsub

theorem generate_keeps {board captN captS : List Piece} {side : Side} {m : Move} (hb : Inv board)
    (hmoves : getMoves board captN captS side ≠ [])
    (hfirst : first (generateMove board captN captS side) = some (some m)) : Inv m.newBoard := by
  have hk := koropokkuru_of_first hmoves hfirst
  obtain ⟨g, hg, n, hhead, hn⟩ := generateMove_first captN captS hk hmoves
  obtain ⟨type, p, tempBoard, offset, hs, ho, rfl⟩ := mem_attempts.1 hg
  rw [hfirst, Option.some.injEq, Option.some.injEq] at hn
  have hkeeps := attempt_keeps hb hs ho hhead
  rw [hn]
  exact hkeeps

theorem select_isPiece {board tempBoard : List Piece} {side : Side} {type : Kind} {p : Piece}
    (hb : WellFormed board) (hs : (p, tempBoard) ∈ select (hasType side type) board) (t : Option Kind) :
    select (isPiece side t p.x p.y) board = if unifies t type then [(p, tempBoard)] else [] := by
  have hp := hasType_iff.1 (select_matches hs)
  split
  · rename_i ht
    apply select_unique (hb.pairwise_pattern _ p.x p.y fun _ => isPiece_square) hs
    simp [isPiece, hp.1, hp.2, ht]
  · rename_i ht
    apply select_eq_nil
    intro q hq
    rw [Bool.eq_false_iff]
    intro hpiece
    obtain ⟨hx, hy⟩ := isPiece_square hpiece
    have heq := eq_of_square hb hq (select_mem hs) hx hy
    rw [heq, isPiece, hp.2] at hpiece
    simp [ht] at hpiece

/-- An open or fitting type selects the piece on the square, any other none. -/
theorem forceMove_type {board tempBoard : List Piece} (captN captS : List Piece) {side : Side} {type : Kind}
    {p : Piece} (hb : WellFormed board) (hs : (p, tempBoard) ∈ select (hasType side type) board)
    (t : Option Kind) (nX nY : Int) :
    forceMove side t p.x p.y nX nY board captN captS =
      if unifies t type then forceMove side (some type) p.x p.y nX nY board captN captS else [] := by
  have hsel := select_isPiece hb hs
  cases t with
  | none =>
      let block := fun q : Option Kind × Option Kind =>
        (select (isPiece side q.1 p.x p.y) board).flatMap fun r =>
          forceArrival side ⟨side, q.2.getD r.1.type, nX, nY⟩ board r.2 captN captS
      have hpromotions : (promotions none).flatMap block = (promotions (some type)).flatMap block := by
        cases type <;> simp [promotions, unifies, block, hsel]
      have hzone (c : Prop) [Decidable c] : (if c then promotions none else []).flatMap block =
          (if c then promotions (some type) else []).flatMap block := by
        split
        · exact hpromotions
        · rfl
      have hlast : [(none, none)].flatMap block = [(some type, none)].flatMap block := by
        simp [block, hsel, unifies]
      have hu : unifies none type = true := rfl
      rw [if_pos hu]
      change (newTypes side none nY).flatMap block = (newTypes side (some type) nY).flatMap block
      simp only [newTypes, List.flatMap_append, hzone, hlast]
  | some t =>
      by_cases ht : t = type
      · subst ht
        rw [if_pos (unifies_some.2 rfl)]
      · have hu : ¬ unifies (some t) type = true := fun h => ht (unifies_some.1 h).symm
        rw [if_neg hu, forceMove_some, hsel, if_neg hu]
        simp

theorem force_keeps {board captN captS : List Piece} {side : Side} {type : Option Kind} {m : Move}
    {new : List Piece × List Piece × List Piece} (hb : Inv board) (hm : m ∈ tryMove board captN captS side)
    (hfirst : (forceMove side type m.x m.y m.nX m.nY board captN captS).head? = some new) : Inv new.1 := by
  have hlisted : m ∈ getMoves board captN captS side := hm
  rw [getMoves_eq_flatMap] at hlisted
  obtain ⟨a, ha, hma⟩ := List.mem_flatMap.1 hlisted
  obtain ⟨hs, ho⟩ := mem_listed.1 ha
  have hkey := answers_key hma
  simp only [key, Attempt.key, Prod.mk.injEq] at hkey
  obtain ⟨_, hx, hy, hnX, hnY⟩ := hkey
  rw [hx, hy, hnX, hnY, forceMove_type captN captS hb.wellFormed hs type] at hfirst
  split at hfirst
  · rw [forceMove_answers captN captS hb.wellFormed ha, List.head?_map, Option.map_eq_some_iff] at hfirst
    obtain ⟨n, hn, rfl⟩ := hfirst
    exact attempt_keeps hb hs ho hn
  · cases hfirst

theorem put_keeps {board capt newBoard newCapt : List Piece} {side : Side} {type : Option Kind} {x y : Int}
    (hb : Inv board) (h : (newBoard, newCapt) ∈ put side type x y board capt) : Inv newBoard := by
  obtain ⟨⟨⟨hx, hy⟩, hcol, hfree⟩, p, rfl, _⟩ := mem_put.1 h
  have hempty : isEmpty x y board = true := Board.isEmpty_iff.2 ⟨hx, rows_inside hy, hfree⟩
  refine ⟨hb.wellFormed.put hempty _ _, rule_cons hb.rule fun _ => ⟨?_, ?_⟩⟩
  · cases side with
    | north => exact Int.ne_of_lt (Int.lt_add_one_of_le hy.2)
    | south => exact Int.ne_of_gt hy.1
  · rw [List.countP_eq_zero]
    intro q hq hat
    obtain ⟨⟨hside, _⟩, hx⟩ := kodamaAt_iff.1 hat
    exact hcol ⟨q, hq, hside, hx⟩

theorem step_keeps {P Q : Position} (hP : Inv P.board) (h : Step P Q) : Inv Q.board := by
  cases h with
  | generate side m hmoves hfirst => exact generate_keeps hP hmoves hfirst
  | force side type m new hallowed hfirst => exact force_keeps hP hallowed hfirst
  | put side type x y capt newBoard newCapt hanswer => exact put_keeps hP hanswer

theorem start_inv : Inv start.board := by
  refine ⟨initialBoard_wellFormed, ?_, ?_⟩
  · intro side x
    have hnodup : ((initialBoard.filter (hasType side .kodama)).map Piece.x).Nodup := by
      cases side <;> decide
    have hcount := List.nodup_iff_count_le_one.1 hnodup x
    rw [List.count, List.countP_map, List.countP_filter] at hcount
    have hsame : initialBoard.countP (kodamaAt side x) =
        initialBoard.countP (fun p => ((· == x) ∘ Piece.x) p && hasType side .kodama p) := by
      apply List.countP_congr
      intro p _
      simp [kodamaAt, and_comm]
    exact Nat.le_trans (Nat.le_of_eq hsame) hcount
  · decide

theorem run_keeps {P : Position} (h : Relation.ReflTransGen Step start P) : Inv P.board := by
  induction h with
  | refl => exact start_inv
  | tail _ hstep ih => exact step_keeps ih hstep

/-- No side ever has two kodama in a column, nor one on its last row. -/
theorem kodama_rule {P : Position} (h : Relation.ReflTransGen Step start P) : KodamaRule P.board :=
  (run_keeps h).rule

def opened : Position where
  board := ⟨.north, .kodama, 3, 4⟩ :: (initialBoard.erase ⟨.north, .kodama, 3, 3⟩).erase ⟨.south, .kodama, 3, 4⟩
  captN := [⟨.north, .kodama, 0, 0⟩]
  captS := []

def replied : Position where
  board := ⟨.south, .kodama, 2, 3⟩ :: (opened.board.erase ⟨.south, .kodama, 2, 4⟩).erase ⟨.north, .kodama, 2, 3⟩
  captN := [⟨.north, .kodama, 0, 0⟩]
  captS := [⟨.south, .kodama, 0, 0⟩]

def opening : Move :=
  toMove initialBoard [] [] .north .kodama 3 3 3 4 ⟨opened.board, opened.captN, 1⟩

def reply : Move :=
  toMove opened.board opened.captN [] .south .kodama 2 4 2 3 ⟨replied.board, replied.captS, 1⟩

theorem replied_reachable : Relation.ReflTransGen Step start replied := by
  refine Relation.ReflTransGen.tail (Relation.ReflTransGen.single (b := opened) ?_) ?_
  · exact .generate start .north { opening with score := -1 } (by decide +kernel) (by decide +kernel)
  · exact .force opened .south (some .kodama) reply (replied.board, replied.captN, replied.captS)
      (by decide +kernel) (by decide +kernel)

theorem kodama_rule_replied : replied.captS = [⟨.south, .kodama, 0, 0⟩] ∧ KodamaRule replied.board :=
  ⟨rfl, kodama_rule replied_reachable⟩

end YokaiNoMori.KodamaRuns
