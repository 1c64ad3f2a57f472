import YokaiNoMori.AiPlayer
import YokaiNoMori.Aucun
import YokaiNoMori.Orientations
import YokaiNoMori.Strikes

namespace YokaiNoMori.Lines

open ProtocolYokai Serveur Strikes JavaCoup PrologSession CoupFromAI AiPlayer Orientations
open Board (Side opponent opponent_opponent)
open SessionInvariant (SoundSession generateMove_sound)
open SessionAgreement (position receiver_follows)

theorem strike_open {r : Session} {fin flag : Bool} (hsound : SoundSession r) :
    forceEnnemyStrike r ⟨.deplacer, .aucun, fin, .depl ⟨Case.ofXY 0 0, Case.ofXY 0 0, flag⟩⟩ = some r := by
  have hnone : forceMoveQuery r .aucun ⟨Case.ofXY 0 0, Case.ofXY 0 0, flag⟩ = [] := by
    by_contra hne
    obtain ⟨⟨p, hp, _, hx, _⟩, _⟩ := Aucun.forceMove_open.1 hne
    have hinside := (hsound.wellFormed.inside p hp).2.1
    have hx' : p.x = 6 := hx
    omega
  rw [forceEnnemyStrike]
  dsimp only
  rw [hnone]
  rfl

/-- What one AI generates the other one applies, when both start from the same
position, and even when there was nothing to generate. -/
theorem strike_follows {r r' s : Session} {coup coup' : Coup} (hsound : SoundSession r)
    (hgen : generateMove r = some (coup, r')) (hside : s.opposide = r.side) (hsame : position s = position r)
    (hmatch : Matching coup') (hstrike : coupStrike coup' = coupStrike coup) :
    ∃ s', forceEnnemyStrike s coup' = some s' ∧ position s' = position r' := by
  have hmoves := generateMove_has_moves hgen
  have hother {piece : EnumPiece} {x y nX nY capture : Int}
      (hcoup : coupStrike coup' = coupStrike (PrologSession.coupOf piece x y nX nY capture)) :
      ∃ fin flag, coup' = ⟨.deplacer, piece, fin, .depl ⟨Case.ofXY x y, Case.ofXY nX nY, flag⟩⟩ :=
    coupStrike_inj hcoup.symm rfl hmatch rfl
  by_cases hk : ∃ p ∈ r.currentBoard, TryMove.hasType r.opposide .koropokkuru p = true
  · obtain ⟨type, x, y, nX, nY, capture, new, hfound, hcall⟩ := generateMove_found hsound.wellFormed hk hmoves
    rw [hcall] at hgen
    obtain ⟨rfl, rfl⟩ := Prod.mk.inj (Option.some.inj hgen)
    obtain ⟨fin, flag, rfl⟩ := hother hstrike
    exact ⟨_, receiver_follows hfound hside hsame, rfl⟩
  · have hidle := generateMove_idle (s := r) (by simpa using hk) hmoves
    rw [hidle] at hgen
    obtain ⟨rfl, rfl⟩ := Prod.mk.inj (Option.some.inj hgen)
    obtain ⟨fin, flag, rfl⟩ := hother hstrike
    refine ⟨s, strike_open ?_, hsame⟩
    rw [position, position] at hsame
    obtain ⟨hboard, hcapt⟩ := Prod.mk.inj hsame
    obtain ⟨hcaptN, hcaptS⟩ := Prod.mk.inj hcapt
    rw [SoundSession, hboard, hcaptN, hcaptS]
    exact hsound

def handOver (r : Session) : Session where
  side := r.opposide
  opposide := r.side
  currentBoard := r.currentBoard
  currentCaptN := r.currentCaptN
  currentCaptS := r.currentCaptS
  opposed := by rw [r.opposed, opponent_opponent]

/-- The positions of the first game, each as the side to move holds it. -/
def line : Nat → Option Session
  | 0 => some (init .north)
  | n + 1 => (line n).bind fun r => (generateMove r).map fun answer => handOver answer.2

def moveAt (n : Nat) : Option Coup := (line n).bind fun r => (generateMove r).map Prod.fst

def mover : Nat → Player
  | 0 => .p1
  | n + 1 => (mover n).other

/-- The moves of `p` among the first `n` ones. -/
def share (p : Player) : Nat → List Strike
  | 0 => []
  | n + 1 => share p n ++ if mover n = p then (moveAt n).toList.map coupStrike else []

theorem line_succ {n : Nat} {r' : Session} (h : line (n + 1) = some r') :
    ∃ r coup answer, line n = some r ∧ generateMove r = some (coup, answer) ∧ r' = handOver answer ∧
      moveAt n = some coup := by
  obtain ⟨r, hline, hmap⟩ := Option.bind_eq_some_iff.1 h
  obtain ⟨⟨coup, answer⟩, hgen, rfl⟩ := Option.map_eq_some_iff.1 hmap
  refine ⟨r, coup, answer, hline, hgen, rfl, ?_⟩
  rw [moveAt, hline, Option.bind_some, hgen]
  rfl

theorem line_of_generate {n : Nat} {r answer : Session} {coup : Coup} (hline : line n = some r)
    (hgen : generateMove r = some (coup, answer)) :
    line (n + 1) = some (handOver answer) ∧ moveAt n = some coup := by
  constructor
  · rw [line, hline, Option.bind_some, hgen, Option.map_some]
  · rw [moveAt, hline, Option.bind_some, hgen, Option.map_some]

theorem line_le {m n : Nat} {r : Session} (h : line n = some r) (hle : m ≤ n) : ∃ r', line m = some r' := by
  induction n generalizing r with
  | zero =>
      obtain rfl := Nat.le_zero.1 hle
      exact ⟨r, h⟩
  | succ n ih =>
      rcases Nat.le_succ_iff.1 hle with hle | rfl
      · obtain ⟨r', _, _, hline, _⟩ := line_succ h
        exact ih hline hle
      · exact ⟨r, h⟩

theorem line_side {n : Nat} {r : Session} (h : line n = some r) : r.side = AiPlayer.sideOf (sensOf (mover n)) := by
  induction n generalizing r with
  | zero =>
      obtain rfl := Option.some.inj h
      rfl
  | succ n ih =>
      obtain ⟨r', coup, answer, hline, hgen, rfl, _⟩ := line_succ h
      have hside : answer.side = AiPlayer.sideOf (sensOf (mover n)) := (generateMove_side hgen).trans (ih hline)
      change answer.opposide = AiPlayer.sideOf (sensOf (mover n).other)
      rw [answer.opposed, hside]
      cases mover n <;> rfl

theorem line_sound {n : Nat} {r : Session} (h : line n = some r) : SoundSession r := by
  induction n generalizing r with
  | zero =>
      obtain rfl := Option.some.inj h
      exact SessionInvariant.initial_sound
  | succ n ih =>
      obtain ⟨r', coup, answer, hline, hgen, rfl, _⟩ := line_succ h
      have hsound : SoundSession answer := generateMove_sound (ih hline) (generateMove_has_moves hgen) hgen
      exact hsound

theorem share_le (p : Player) {m n : Nat} (h : m ≤ n) : share p m <+: share p n := by
  induction n with
  | zero =>
      obtain rfl := Nat.le_zero.1 h
      exact List.prefix_rfl
  | succ n ih =>
      rcases Nat.le_succ_iff.1 h with h | rfl
      · exact (ih h).trans (List.prefix_append _ _)
      · exact List.prefix_rfl

theorem share_mine {p : Player} {n : Nat} {coup : Coup} (hmover : mover n = p) (hmove : moveAt n = some coup) :
    share p (n + 1) = share p n ++ [coupStrike coup] := by
  rw [share, if_pos hmover, hmove]
  rfl

theorem share_other {p : Player} {n : Nat} (hmover : mover n ≠ p) : share p (n + 1) = share p n := by
  rw [share, if_neg hmover, List.append_nil]

theorem mover_cases (p : Player) (n : Nat) : (mover n = p ∧ mover n ≠ p.other) ∨ (mover n = p.other ∧ mover n ≠ p) := by
  cases p <;> cases mover n <;> decide

theorem share_length (p : Player) {n : Nat} {r : Session} (h : line n = some r) :
    (share p n).length + (share p.other n).length = n := by
  induction n generalizing r with
  | zero => rfl
  | succ n ih =>
      obtain ⟨r', coup, answer, hline, hgen, rfl, hmove⟩ := line_succ h
      have hn := ih hline
      rcases mover_cases p n with ⟨hmine, hnot⟩ | ⟨hmine, hnot⟩
      · rw [share_mine hmine hmove, share_other hnot, List.length_append, List.length_singleton]
        omega
      · rw [share_mine hmine hmove, share_other hnot, List.length_append, List.length_singleton]
        omega

/-- What comes after the moves of `p` among the first `n` ones is the next move. -/
theorem share_next {p : Player} {m n : Nat} {r : Session} {x : Strike} (hline : line m = some r)
    (hmover : mover n = p) (h : share p n ++ [x] <+: share p m) :
    n < m ∧ ∃ coup, moveAt n = some coup ∧ x = coupStrike coup := by
  have hlt : n < m := by
    by_contra hge
    have hlength := (h.trans (share_le p (Nat.le_of_not_lt hge))).length_le
    rw [List.length_append, List.length_singleton] at hlength
    omega
  obtain ⟨r', hline'⟩ := line_le hline hlt
  obtain ⟨_, coup, _, _, _, _, hmove⟩ := line_succ hline'
  have hnext := share_le p hlt
  rw [Nat.succ_eq_add_one, share_mine hmover hmove] at hnext
  have hsame := List.prefix_of_prefix_length_le h hnext (by simp)
  have heq := hsame.eq_of_length (by simp)
  refine ⟨hlt, coup, hmove, ?_⟩
  exact List.singleton_inj.1 (List.append_cancel_left heq)

variable {p : Player}

theorem share_grows {m n : Nat} {r : Session} (hline : line m = some r) (hmover : mover n = p) (hlt : n < m) :
    (share p n).length < (share p m).length := by
  obtain ⟨r', hline'⟩ := line_le hline hlt
  obtain ⟨_, coup, _, _, _, _, hmove⟩ := line_succ hline'
  have hle := (share_le p hlt).length_le
  rw [Nat.succ_eq_add_one, share_mine hmover hmove, List.length_append, List.length_singleton] at hle
  exact hle

/-- When the next move is one of `p`, who has been given all moves before it,
the other player has been given the same ones. -/
theorem same_count {m n : Nat} {r r' : Session} (hline : line n = some r) (hline' : line m = some r')
    (hmover : mover n = p) (hmine : share p m <+: share p n) (hother : share p.other n <+: share p.other m) : m = n := by
  rcases Nat.lt_trichotomy n m with hlt | rfl | hlt
  · have hgrows := share_grows hline' hmover hlt
    have hle := hmine.length_le
    omega
  · rfl
  · obtain ⟨k, rfl⟩ := Nat.exists_eq_succ_of_ne_zero (Nat.ne_zero_of_lt hlt)
    have hbefore : mover k = p.other := by
      rw [← hmover, mover, other_other]
    have hgrows := share_grows hline hbefore (Nat.lt_succ_self k)
    have hle := hother.length_le
    have hle' := (share_le p.other (Nat.le_of_lt_succ hlt)).length_le
    omega

end YokaiNoMori.Lines
