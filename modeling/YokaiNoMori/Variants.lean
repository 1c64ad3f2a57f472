import Mathlib.Data.List.Nodup
import YokaiNoMori.MoveGeneration

namespace YokaiNoMori.Variants

open Search Board TryMove MoveRules MoveGeneration

abbrev Key := Kind × Int × Int × Int × Int

def key (m : Move) : Key := (m.type, m.x, m.y, m.nX, m.nY)

/-- A piece that `try_move` selects, with the board that remains and an offset. -/
structure Attempt where
  type : Kind
  piece : Piece
  tempBoard : List Piece
  offset : Int × Int

namespace Attempt

def key (a : Attempt) : Key :=
  (a.type, a.piece.x, a.piece.y, a.piece.x + a.offset.1, a.piece.y + a.offset.2)

def answers (board captN captS : List Piece) (side : Side) (a : Attempt) : List Move :=
  attempt board captN captS side a.type (arrivalTypes side a.type) a.piece a.tempBoard a.offset

end Attempt

def ofType (board : List Piece) (side : Side) (type : Kind) : List Attempt :=
  (select (hasType side type) board).flatMap fun q =>
    (offsets side type).map fun offset => ⟨type, q.1, q.2, offset⟩

def listed (board : List Piece) (side : Side) : List Attempt := clauseOrder.flatMap (ofType board side)

theorem mem_listed {board : List Piece} {side : Side} {a : Attempt} :
    a ∈ listed board side ↔
      (a.piece, a.tempBoard) ∈ select (hasType side a.type) board ∧ a.offset ∈ offsets side a.type := by
  rcases a with ⟨type, p, tempBoard, offset⟩
  simp only [listed, ofType, List.mem_flatMap, List.mem_map, Attempt.mk.injEq]
  constructor
  · rintro ⟨_, _, ⟨q, rest⟩, hs, _, ho, rfl, rfl, rfl, rfl⟩
    exact ⟨hs, ho⟩
  · rintro ⟨hs, ho⟩
    exact ⟨type, mem_clauseOrder type, (p, tempBoard), hs, offset, ho, rfl, rfl, rfl, rfl⟩

theorem getMoves_eq_flatMap (board captN captS : List Piece) (side : Side) :
    getMoves board captN captS side = (listed board side).flatMap (Attempt.answers board captN captS side) := by
  rw [getMoves, tryMove_eq_clauses, listed, List.flatMap_assoc]
  apply List.flatMap_congr
  intro type _
  rw [clause, ofType, List.flatMap_assoc]
  apply List.flatMap_congr
  rintro ⟨p, tempBoard⟩ _
  rw [List.flatMap_map]
  rfl

theorem answers_key {board captN captS : List Piece} {side : Side} {a : Attempt}
    {m : Move} (hm : m ∈ a.answers board captN captS side) : key m = a.key := by
  obtain ⟨newType, _, arrival, _, rfl⟩ := mem_attempt.1 hm
  rfl

theorem select_apart {board : List Piece} (hb : WellFormed board) (pat : Piece → Bool) :
    (select pat board).Pairwise (fun q r => Apart q.1 r.1) := by
  have h : ((select pat board).map Prod.fst).Pairwise Apart := by
    rw [select_fst]
    exact hb.apart.filter pat
  exact List.pairwise_map.1 h

theorem offsets_nodup (side : Side) (type : Kind) : (offsets side type).Nodup := by
  cases side <;> cases type <;> decide

theorem ofType_keys {board : List Piece} (hb : WellFormed board) (side : Side) (type : Kind) :
    ((ofType board side type).map Attempt.key).Nodup := by
  rw [ofType, List.map_flatMap, List.nodup_flatMap]
  constructor
  · intro q _
    rw [List.map_map]
    apply (offsets_nodup side type).map
    intro o o' h
    simp only [Function.comp_apply, Attempt.key, Prod.mk.injEq, true_and] at h
    exact Prod.ext (by omega) (by omega)
  · apply (select_apart hb _).imp
    intro q r hqr k hk hk'
    simp only [List.map_map, List.mem_map, Function.comp_apply, Attempt.key] at hk hk'
    obtain ⟨_, _, rfl⟩ := hk
    obtain ⟨_, _, he⟩ := hk'
    simp only [Prod.mk.injEq] at he
    exact hqr ⟨he.2.1.symm, he.2.2.1.symm⟩

/-- On a board with one piece a square no two attempts share their coordinates. -/
theorem listed_keys {board : List Piece} (hb : WellFormed board) (side : Side) :
    ((listed board side).map Attempt.key).Nodup := by
  have htypes (type : Kind) : ∀ k ∈ (ofType board side type).map Attempt.key, k.1 = type := by
    intro k hk
    simp only [ofType, List.mem_map, List.mem_flatMap] at hk
    obtain ⟨_, ⟨_, _, _, _, rfl⟩, rfl⟩ := hk
    rfl
  have horder : clauseOrder.Nodup := by decide
  rw [listed, List.map_flatMap, List.nodup_flatMap]
  constructor
  · intro type _
    exact ofType_keys hb side type
  · apply horder.imp
    intro type type' hne k hk hk'
    exact hne ((htypes type k hk).symm.trans (htypes type' k hk'))

structure OneOutcome (board captN captS : List Piece) (side : Side) : Prop where
  unique : ((getMoves board captN captS side).map key).Nodup
  promotes : ∀ m ∈ getMoves board captN captS side, ∀ newType, promoted m.type = some newType →
    promotionZone side m.nY = true → ⟨side, newType, m.nX, m.nY⟩ ∈ m.newBoard
  demotes : ∀ m ∈ getMoves board captN captS side, ∀ takenType, m.capture = 1 →
    ⟨opponent side, takenType, m.nX, m.nY⟩ ∈ board → takenType = .samourai ∨ takenType = .superoni →
      capturedBy side m.newCaptN m.newCaptS =
        ⟨side, demoted takenType, 0, 0⟩ :: capturedBy side captN captS

/-- No legal move lands a kodama or an oni in its promotion zone, and none
takes a samourai or a superoni. -/
structure Plain (board : List Piece) (side : Side) : Prop where
  arrival : ∀ type x y nX nY capture, Legal board side type x y nX nY capture →
    promotionZone side nY = true → promoted type = none
  taking : ∀ type x y nX nY capture, Legal board side type x y nX nY capture →
    ∀ takenType, ⟨opponent side, takenType, nX, nY⟩ ∈ board →
      takenType ≠ .samourai ∧ takenType ≠ .superoni

theorem length_capture {piece : Piece} {board : List Piece} (capt : List Piece) (hb : WellFormed board)
    (hplain : ∀ q ∈ board, opposes piece q = true → q.type ≠ .samourai ∧ q.type ≠ .superoni) :
    (capture piece board capt).length ≤ 1 := by
  rw [capture]
  cases hs : select (opposes piece) board with
  | nil => simp
  | cons q qs =>
      obtain ⟨taken, rest⟩ := q
      have hq : (taken, rest) ∈ select (opposes piece) board := by simp [hs]
      have hone : select (opposes piece) board = [(taken, rest)] :=
        select_unique (hb.pairwise_pattern _ piece.x piece.y fun _ h => (opposes_iff.1 h).2) hq
          (select_matches hq)
      have hqs : qs = [] := by
        rw [hone, List.cons.injEq] at hs
        exact hs.2.symm
      have hne := hplain taken (select_mem hq) (select_matches hq)
      have htypes : correctedTypes taken.type = [taken.type] := by
        cases ht : taken.type <;> simp_all [correctedTypes]
      simp [hqs, htypes]

theorem capture_eq_nil {piece : Piece} {board tempBoard : List Piece} (capt : List Piece)
    (hsub : ∀ q ∈ tempBoard, q ∈ board) (he : isEmpty piece.x piece.y board = true) :
    capture piece tempBoard capt = [] := by
  have hs : select (opposes piece) tempBoard = [] := by
    apply select_eq_nil
    intro q hq
    rw [Bool.eq_false_iff]
    intro ho
    exact (Board.isEmpty_iff.1 he).2.2 q (hsub q hq) (opposes_iff.1 ho).2
  rw [capture, hs, List.flatMap_nil]

theorem length_answers {board : List Piece} (captN captS : List Piece) {side : Side}
    (hb : WellFormed board) (hplain : Plain board side) {a : Attempt} (ha : a ∈ listed board side) :
    (a.answers board captN captS side).length ≤ 1 := by
  cases hans : a.answers board captN captS side with
  | nil => simp
  | cons m ms =>
      rw [← hans]
      obtain ⟨hs, _⟩ := mem_listed.1 ha
      have hm : m ∈ a.answers board captN captS side := by simp [hans]
      have hin : m ∈ getMoves board captN captS side := by
        rw [getMoves_eq_flatMap]
        exact List.mem_flatMap.2 ⟨a, ha, hm⟩
      have hlegal := getMoves_legal hb hin
      have hkey := answers_key hm
      simp only [key, Attempt.key, Prod.mk.injEq] at hkey
      obtain ⟨htype, _, _, hnX, hnY⟩ := hkey
      have harrival : arrivalTypes side a.type (a.piece.y + a.offset.2) = [a.type] := by
        by_cases hz : promotionZone side (a.piece.y + a.offset.2)
        · have hp := hplain.arrival _ _ _ _ _ _ hlegal (by rw [hnY]; exact hz)
          rw [htype] at hp
          simp [arrivalTypes, hp]
        · simp [arrivalTypes, hz]
      rw [Attempt.answers, attempt, harrival, List.flatMap_cons, List.flatMap_nil, List.append_nil,
        List.length_map, moveOrCapture]
      split
      · rename_i he
        rw [capture_eq_nil _ (select_subset hs) he]
        simp
      · rw [List.nil_append, List.length_map]
        apply length_capture _ (hb.select hs).2.2
        intro q hq ho
        apply hplain.taking _ _ _ _ _ _ hlegal
        obtain ⟨hside, hx, hy⟩ := opposes_iff.1 ho
        dsimp only at hside hx hy
        have hqe : q = ⟨opponent side, q.type, m.nX, m.nY⟩ := by
          rw [hnX, hnY, ← hside, ← hx, ← hy]
        rw [← hqe]
        exact select_subset hs q hq

theorem unique_of_plain {board : List Piece} (captN captS : List Piece) {side : Side}
    (hb : WellFormed board) (hplain : Plain board side) :
    ((getMoves board captN captS side).map key).Nodup := by
  rw [getMoves_eq_flatMap]
  have hkey : ∀ a ∈ listed board side, ∀ m ∈ a.answers board captN captS side, key m = a.key :=
    fun a _ m hm => answers_key hm
  exact (flatMap_keys_sublist hkey fun a ha => length_answers captN captS hb hplain ha).nodup
    (listed_keys hb side)

/-- The generator also lists the variant without promotion. -/
theorem arrival_of_promotes {board captN captS : List Piece} {side : Side} (hb : WellFormed board)
    (h : OneOutcome board captN captS side) {type : Kind} {x y nX nY capture : Int}
    (hlegal : Legal board side type x y nX nY capture) (hz : promotionZone side nY = true) :
    promoted type = none := by
  cases hp : promoted type with
  | none => rfl
  | some newType =>
      exfalso
      obtain ⟨m, hm, ⟨rfl, rfl, rfl, rfl, rfl, rfl⟩, hkept⟩ := legal_getMoves captN captS hlegal
      have hnew := h.promotes m hm newType hp hz
      have he := eq_of_square (getMoves_wellFormed hb hm) hkept hnew rfl rfl
      have htype : m.type = newType := congrArg Piece.type he
      rw [htype] at hp
      cases newType <;> cases hp

/-- The generator also lists the capture without demotion. -/
theorem taking_of_demotes {board captN captS : List Piece} {side : Side}
    (h : OneOutcome board captN captS side) {type takenType : Kind} {x y nX nY capture : Int}
    (hlegal : Legal board side type x y nX nY capture)
    (htaken : ⟨opponent side, takenType, nX, nY⟩ ∈ board) :
    takenType ≠ .samourai ∧ takenType ≠ .superoni := by
  obtain ⟨rest, hm⟩ := getMoves_taking captN captS hlegal.stands hlegal.steps
    (self_arrival side type nY) htaken (self_corrected takenType)
  have hd := h.demotes _ hm takenType rfl htaken
  have hkept : takenType = .samourai ∨ takenType = .superoni → takenType = demoted takenType := by
    intro ht
    have hcapt := hd ht
    simp only [toMove, capturedBy_withCaptured, List.cons.injEq, Piece.mk.injEq] at hcapt
    exact hcapt.1.2.1
  constructor
  · rintro rfl
    cases hkept (.inl rfl)
  · rintro rfl
    cases hkept (.inr rfl)

/-- Each move has one outcome exactly when no promotion and no demotion is at stake. -/
theorem oneOutcome_iff_plain (board captN captS : List Piece) (side : Side) (hb : WellFormed board) :
    OneOutcome board captN captS side ↔ Plain board side := by
  constructor
  · intro h
    exact ⟨fun _ _ _ _ _ _ hlegal hz => arrival_of_promotes hb h hlegal hz,
      fun _ _ _ _ _ _ hlegal _ htaken => taking_of_demotes h hlegal htaken⟩
  · intro hplain
    constructor
    · exact unique_of_plain captN captS hb hplain
    · intro m hm newType hp hz
      have hnone := hplain.arrival _ _ _ _ _ _ (getMoves_legal hb hm) hz
      rw [hp] at hnone
      cases hnone
    · intro m hm takenType _ htaken ht
      obtain ⟨hs, ho⟩ := hplain.taking _ _ _ _ _ _ (getMoves_legal hb hm) takenType htaken
      exact absurd ht (not_or.2 ⟨hs, ho⟩)

theorem oneOutcome_iff_plain_initialBoard :
    OneOutcome initialBoard [] [] .north ↔ Plain initialBoard .north :=
  oneOutcome_iff_plain initialBoard [] [] .north initialBoard_wellFormed

def kodamaAhead : List Piece :=
  [⟨.north, .koropokkuru, 3, 1⟩, ⟨.south, .koropokkuru, 3, 6⟩, ⟨.north, .kodama, 1, 4⟩]

theorem kodamaAhead_wellFormed : WellFormed kodamaAhead := by
  constructor
  · simp [kodamaAhead, Piece.OnBoard]
  · simp [kodamaAhead, Apart]

/-- A kodama one step from its zone is listed both promoted and unpromoted. -/
theorem kodamaAhead_twice : WellFormed kodamaAhead ∧ ¬ OneOutcome kodamaAhead [] [] .north := by
  refine ⟨kodamaAhead_wellFormed, fun h => ?_⟩
  have hdup : ¬ ((getMoves kodamaAhead [] [] .north).map key).Nodup := by decide
  exact hdup h.unique

end YokaiNoMori.Variants
