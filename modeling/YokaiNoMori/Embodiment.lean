import YokaiNoMori.Aucun
import YokaiNoMori.Game
import YokaiNoMori.Keyed
import YokaiNoMori.KodamaRuns
import YokaiNoMori.SessionInvariant

namespace YokaiNoMori.Embodiment

open Search Board TryMove ForceMove MoveRules MoveGeneration Drop Keyed Game
open KodamaRuns (arrivalType arrivalTypes_cons moveOrCapture_eq_nil attempt_head forceMove_type)
open SessionInvariant (Held Sound)

/-! The lists of a session embody a position of the game. -/

def square (p : Piece) : Square := (p.x, p.y)

def man (p : Piece) : Side × Kind := (p.side, p.type)

def placement (board captN captS : List Piece) : Position where
  occupant q := (entry square board q).map man
  hand side := ((capturedBy side captN captS).map Piece.type : Multiset Kind)

variable {board captN captS : List Piece} {side : Side}

theorem distinct_of_wellFormed (h : WellFormed board) : Distinct square board := by
  refine h.apart.imp fun hapart hkey => hapart ?_
  exact Prod.mk.inj hkey

theorem occupant_iff (h : WellFormed board) {k : Kind} {q : Square} :
    (placement board captN captS).occupant q = some (side, k) ↔ ⟨side, k, q.1, q.2⟩ ∈ board := by
  rw [placement, Option.map_eq_some_iff]
  constructor
  · rintro ⟨p, hp, hman⟩
    obtain ⟨hmem, rfl⟩ := entry_mem hp
    obtain ⟨rfl, rfl⟩ := Prod.mk.inj hman
    exact hmem
  · intro hmem
    exact ⟨_, (entry_eq_some (distinct_of_wellFormed h)).2 ⟨hmem, rfl⟩, rfl⟩

theorem occupant_none {q : Square} :
    (placement board captN captS).occupant q = none ↔ ∀ p ∈ board, ¬(p.x = q.1 ∧ p.y = q.2) := by
  rw [placement, Option.map_eq_none_iff, entry_eq_none]
  constructor
  · rintro h p hp ⟨hx, hy⟩
    exact h p hp (Prod.ext hx hy)
  · rintro h p hp rfl
    exact h p hp ⟨rfl, rfl⟩

theorem occupies_iff (h : WellFormed board) {x y : Int} :
    Occupies side x y board ↔ ∃ k, (placement board captN captS).occupant (x, y) = some (side, k) := by
  constructor
  · rintro ⟨p, hp, rfl, rfl, rfl⟩
    exact ⟨p.type, (occupant_iff h).2 hp⟩
  · rintro ⟨k, hk⟩
    exact ⟨_, (occupant_iff h).1 hk, rfl, rfl, rfl⟩

theorem arrivalType_grown (side : Side) (type : Kind) (row : Int) : arrivalType side type row = grown side type row := by
  have hfar : promotionZone side row = decide (Far side row) := by cases side <;> rfl
  rw [arrivalType, hfar]
  by_cases h : Far side row <;> cases type <;> simp [grown, promoted, h]

/-- The first answer puts the mover down as the type it grows to. -/
theorem forceMove_arrival {tempBoard : List Piece} {type : Kind} {p : Piece} {nX nY : Int}
    {new : List Piece × List Piece × List Piece} (hb : WellFormed board)
    (hs : (p, tempBoard) ∈ select (hasType side type) board)
    (h : (forceMove side (some type) p.x p.y nX nY board captN captS).head? = some new) :
    ∃ rest, new.1 = ⟨side, grown side type nY, nX, nY⟩ :: rest := by
  obtain ⟨dx, rfl⟩ : ∃ dx, nX = p.x + dx := ⟨nX - p.x, by omega⟩
  obtain ⟨dy, rfl⟩ : ∃ dy, nY = p.y + dy := ⟨nY - p.y, by omega⟩
  rw [forceMove_eq_attempt captN captS (dx, dy) hb hs, List.head?_map, Option.map_eq_some_iff] at h
  obtain ⟨m, hm, rfl⟩ := h
  obtain ⟨rest, _, hnew⟩ := attempt_head hm
  rw [← arrivalType_grown]
  exact ⟨rest, hnew⟩

theorem placement_hand (side : Side) (captN captS newCapt : List Piece) (b b' : List Piece) :
    (placement b (withCaptured side captN captS newCapt).1 (withCaptured side captN captS newCapt).2).hand =
      Function.update (placement b' captN captS).hand side (newCapt.map Piece.type : Multiset Kind) := by
  funext s
  by_cases hs : s = side
  · subst hs
    rw [Function.update_self]
    change (Multiset.ofList ((capturedBy s _ _).map Piece.type)) = _
    rw [capturedBy_withCaptured]
  · rw [Function.update_of_ne hs]
    cases s <;> cases side <;> first | rfl | exact absurd rfl hs

/-- A first answer of `force_move` is the displacement, of whatever stands on
the square when the type is open. -/
theorem moved_advance {type : Kind} {x y nX nY : Int} {rest : List Piece}
    {new : List Piece × List Piece × List Piece} (hb : WellFormed board)
    (hmoved : Moved side type x y nX nY board captN captS new)
    (hnew : new.1 = ⟨side, grown side type nY, nX, nY⟩ :: rest) {t : Option Kind} (ht : unifies t type = true) :
    Displaces (placement board captN captS) side t type (x, y) (nX, nY) ∧
      placement new.1 new.2.1 new.2.2 =
        (placement board captN captS).advance demoted side (grown side type nY) (x, y) (nX, nY) := by
  have hdistinct := distinct_of_wellFormed hb
  cases hmoved with
  | @quiet tempBoard newType hmover _ hempty =>
      obtain ⟨hx, hy, hfree⟩ := Board.isEmpty_iff.1 hempty
      obtain ⟨hpiece, rfl⟩ := List.cons.inj hnew
      obtain ⟨_, rfl, _⟩ := Piece.mk.inj hpiece
      have hnone : (placement board captN captS).occupant (nX, nY) = none := occupant_none.2 hfree
      refine ⟨⟨(occupant_iff hb).2 (mem_of_perm hmover), ht, ⟨hx, hy⟩, fun t => by rw [hnone]; simp⟩, ?_⟩
      apply Placement.ext
      · change Option.map man ∘ entry square _ = _
        rw [entry_replace hdistinct hmover, Function.comp_update, Function.comp_update]
        rfl
      · rw [Placement.advance, hnone]
        change (placement board captN captS).hand = Function.update _ side (0 + (placement board captN captS).hand side)
        rw [zero_add, Function.update_eq_self]
  | @taking tempBoard newType taken rest' hmover _ htaken hside hx hy =>
      obtain ⟨hpiece, rfl⟩ := List.cons.inj hnew
      obtain ⟨_, rfl, _⟩ := Piece.mk.inj hpiece
      subst hx hy
      have hmem : ⟨taken.side, taken.type, taken.x, taken.y⟩ ∈ board :=
        hmover.mem_iff.2 (List.mem_cons_of_mem _ (mem_of_perm htaken))
      have hstands : (placement board captN captS).occupant (taken.x, taken.y) = some (taken.side, taken.type) :=
        (occupant_iff hb).2 hmem
      have hin := hb.inside taken hmem
      refine ⟨⟨(occupant_iff hb).2 (mem_of_perm hmover), ht, ⟨⟨hin.1, hin.2.1⟩, hin.2.2⟩, fun t => ?_⟩, ?_⟩
      · rw [hstands, hside]
        intro hsame
        exact ne_opponent side (Prod.mk.inj (Option.some.inj hsame)).1.symm
      · apply Placement.ext
        · let arrived : Piece := ⟨side, grown side type taken.y, taken.x, taken.y⟩
          have hboard := entry_replace_two (c := arrived) hdistinct hmover htaken rfl
          change Option.map man ∘ entry square (arrived :: rest') = _
          rw [hboard, Function.comp_update, Function.comp_update]
          rfl
        · rw [placement_hand side captN captS _ _ board, Placement.advance, hstands]
          rfl

/-- What is displaced is the piece on the square, whose type an open one takes. -/
theorem forceMove_first {t : Option Kind} {x y nX nY : Int} {new : List Piece × List Piece × List Piece}
    (hb : WellFormed board) (h : (forceMove side t x y nX nY board captN captS).head? = some new) :
    ∃ k, Moved side k x y nX nY board captN captS new ∧
      Displaces (placement board captN captS) side t k (x, y) (nX, nY) ∧
      placement new.1 new.2.1 new.2.2 =
        (placement board captN captS).advance demoted side (grown side k nY) (x, y) (nX, nY) := by
  obtain ⟨t', newType, p, _, a, _, hs, _⟩ := mem_forceMove.1 (List.mem_of_head? h)
  have hpiece : (p.side = side ∧ unifies t' p.type = true) ∧ p.x = x ∧ p.y = y := by
    simpa [isPiece] using select_matches hs
  obtain ⟨⟨hside, _⟩, rfl, rfl⟩ := hpiece
  obtain ⟨tempBoard, hsel⟩ := exists_select (select_mem hs) (hasType_iff.2 ⟨hside, rfl⟩)
  rw [forceMove_type captN captS hb hsel] at h
  split at h
  · rename_i ht
    obtain ⟨rest, hnew⟩ := forceMove_arrival hb hsel h
    have hmoved := forceMove_head h
    exact ⟨p.type, hmoved, moved_advance hb hmoved hnew ht⟩
  · cases h

theorem forceMove_displaces {t : Option Kind} {k : Kind} {x y nX nY : Int} (hb : WellFormed board)
    (h : Displaces (placement board captN captS) side t k (x, y) (nX, nY)) :
    forceMove side t x y nX nY board captN captS ≠ [] := by
  have hmover := (occupant_iff hb).1 h.mover
  have hland : isEmpty nX nY board = true ∨ Occupies (opponent side) nX nY board := by
    rw [isEmpty_iff_free side h.inside]
    by_cases ho : Occupies (opponent side) nX nY board
    · exact .inr ho
    · refine .inl ⟨fun hown => ?_, ho⟩
      obtain ⟨k', hk'⟩ := (occupies_iff hb).1 hown
      exact h.free k' hk'
  have hopen : forceMove side none x y nX nY board captN captS ≠ [] :=
    Aucun.forceMove_open.2 ⟨⟨_, hmover, rfl, rfl, rfl⟩, hland⟩
  obtain ⟨tempBoard, hsel⟩ := exists_select hmover (hasType_self side k x y)
  have hk : forceMove side (some k) x y nX nY board captN captS ≠ [] := by
    have hnamed : unifies none k = true := rfl
    have hsame := forceMove_type captN captS hb hsel none nX nY
    rw [if_pos hnamed] at hsame
    rwa [← hsame]
  have htype := forceMove_type captN captS hb hsel t nX nY
  rw [if_pos h.named] at htype
  rwa [htype]

theorem forceMove_exec {t : Option Kind} {x y nX nY : Int} (hb : WellFormed board) :
    ((forceMove side t x y nX nY board captN captS).head?.elim (placement board captN captS)
        fun new => placement new.1 new.2.1 new.2.2) =
      exec side (placement board captN captS) (.displace t (x, y) (nX, nY)) := by
  cases hfirst : (forceMove side t x y nX nY board captN captS).head? with
  | none =>
      have hnil := List.head?_eq_none_iff.1 hfirst
      rw [exec_displace_refused fun k h => forceMove_displaces hb h hnil]
      rfl
  | some new =>
      obtain ⟨k, _, hdisplaces, hplacement⟩ := forceMove_first hb hfirst
      rw [exec_displace hdisplaces]
      exact hplacement

theorem pieceIn_iff (captN captS : List Piece) (hb : WellFormed board) {x : Int} :
    PieceIn side x board ↔ ∃ y k, (placement board captN captS).occupant (x, y) = some (side, k) := by
  constructor
  · rintro ⟨p, hp, rfl, rfl⟩
    exact ⟨p.y, p.type, (occupant_iff hb).2 hp⟩
  · rintro ⟨y, k, hk⟩
    exact ⟨_, (occupant_iff hb).1 hk, rfl, rfl⟩

theorem mem_hand (hheld : ∀ p ∈ capturedBy side captN captS, Held side p) {k : Kind} :
    k ∈ (placement board captN captS).hand side ↔
      ∃ p ∈ capturedBy side captN captS, p.side = side ∧ p.type = k := by
  rw [placement, Multiset.mem_coe, List.mem_map]
  constructor
  · rintro ⟨p, hp, rfl⟩
    exact ⟨p, hp, (hheld p hp).1, rfl⟩
  · rintro ⟨p, hp, _, rfl⟩
    exact ⟨p, hp, rfl⟩

theorem enters_iff (hb : WellFormed board) (hheld : ∀ p ∈ capturedBy side captN captS, Held side p) {k : Kind}
    {x y : Int} :
    Enters (placement board captN captS) side k (x, y) ↔
      put side (some k) x y board (capturedBy side captN captS) ≠ [] := by
  rw [put_accepts, pieceIn_iff captN captS hb, not_exists]
  constructor
  · intro h
    refine ⟨⟨h.column, h.rows, occupant_none.1 h.free, (mem_hand hheld).1 h.held⟩, ?_⟩
    rintro y' ⟨k', hk'⟩
    exact h.alone y' k' hk'
  · rintro ⟨h, halone⟩
    exact ⟨h.column, h.row, fun y' k' hk' => halone y' ⟨k', hk'⟩, occupant_none.2 h.free, (mem_hand hheld).2 h.hand⟩

theorem put_enter {k : Kind} {x y : Int} {newBoard newCapt : List Piece}
    (h : (newBoard, newCapt) ∈ put side (some k) x y board (capturedBy side captN captS)) :
    placement newBoard (withCaptured side captN captS newCapt).1 (withCaptured side captN captS newCapt).2 =
      (placement board captN captS).enter side k (x, y) := by
  obtain ⟨rfl, p, _, rfl, hperm⟩ := put_some h
  apply Placement.ext
  · change Option.map man ∘ entry square _ = _
    rw [entry_cons, Function.comp_update]
    rfl
  · rw [placement_hand side captN captS newCapt _ board, Placement.enter]
    have hhand : (placement board captN captS).hand side = p.type ::ₘ (newCapt.map Piece.type : Multiset Kind) :=
      Multiset.coe_eq_coe.2 (hperm.map Piece.type)
    dsimp only
    rw [hhand, Multiset.erase_cons_head]

theorem put_exec {k : Kind} {x y : Int} (hb : WellFormed board)
    (hheld : ∀ p ∈ capturedBy side captN captS, Held side p) :
    ((put side (some k) x y board (capturedBy side captN captS)).head?.elim (placement board captN captS)
        fun new => placement new.1 (withCaptured side captN captS new.2).1 (withCaptured side captN captS new.2).2) =
      exec side (placement board captN captS) (.drop k (x, y)) := by
  cases hfirst : (put side (some k) x y board (capturedBy side captN captS)).head? with
  | none =>
      have hnil := List.head?_eq_none_iff.1 hfirst
      rw [exec_drop_refused fun h => (enters_iff hb hheld).1 h hnil]
      rfl
  | some new =>
      have hmem := List.mem_of_head? hfirst
      rw [exec_drop ((enters_iff hb hheld).2 (List.ne_nil_of_mem hmem))]
      exact put_enter hmem

end YokaiNoMori.Embodiment
