import YokaiNoMori.FullMatch
import YokaiNoMori.Seat

namespace YokaiNoMori.Delivery

open ProtocolYokai Runs Serveur FullMatch Strikes Conveyor Channels Carriers JavaCoup CoupFromAI
open Seat (made obeyed madeStrikes obeyedStrikes PlayStep unread_conveys pending_conveys)

/-! Between the two AIs of the first game. -/

def gameEvent : FullMatch.Label → Option Match.Label
  | .game e => some e
  | .ai _ _ => none

def ofGame {α : Type} (items : Match.Label → List α) (e : FullMatch.Label) : List α := (gameEvent e).elim [] items

def generated (p : Player) : FullMatch.Label → List Coup
  | .ai q e => if q = p then made e else []
  | .game _ => []

def forced (p : Player) : FullMatch.Label → List Coup
  | .ai q e => if q = p then obeyed e else []
  | .game _ => []

def generatedStrikes (p : Player) (e : FullMatch.Label) : List Strike := (generated p e).map coupStrike

def forcedStrikes (p : Player) (e : FullMatch.Label) : List Strike := (forced p e).map coupStrike

/-- The referee lets the game continue. -/
def Open (e : FullMatch.Label) : Prop :=
  ∀ joueur coup valid prop, e = .game (.server (.validationCoup joueur coup valid prop)) → prop = .cont

def OpenStep (s : FullMatch.State) (e : FullMatch.Label) (t : FullMatch.State) : Prop :=
  Playing s.game ∧ FullMatch.Step s e t

variable {s t : FullMatch.State} {e : FullMatch.Label}

theorem game_projects (h : OpenStep s e t) :
    (gameEvent e = none ∧ t.game = s.game) ∨ ∃ d, gameEvent e = some d ∧ MatchStep s.game d t.game := by
  obtain ⟨hplay, hstep⟩ := h
  cases hstep with
  | game e g he hstep => exact .inr ⟨e, rfl, hplay, hstep⟩
  | toAi p e g he hsent hstep => exact .inr ⟨_, rfl, hplay, hstep⟩
  | fromAi p res coupIa bytes rest g hbytes hreceive hstep => exact .inr ⟨_, rfl, hplay, hstep⟩
  | ai | skip => exact .inl ⟨rfl, rfl⟩

theorem open_continues {e : FullMatch.Label} {d : Match.Label} (he : Open e) (hsome : gameEvent e = some d) :
    ∀ d', serverEvent d = some d' → Continues d' := by
  intro d' hd'
  cases e with
  | ai => cases hsome
  | game e =>
      obtain rfl := Option.some.inj hsome
      cases e with
      | client => cases hd'
      | server e =>
          obtain rfl := Option.some.inj hd'
          cases e with
          | validationCoup joueur coup valid prop => exact he joueur coup valid prop rfl
          | _ => exact trivial

/-- Around any match whose referee ends no game. -/
theorem playing_run {S : Type} {step : S → FullMatch.Label → S → Prop} (game : S → Match.State)
    (hproject : ∀ s e t, Playing (game s) ∧ step s e t →
      (gameEvent e = none ∧ game t = game s) ∨ ∃ d, gameEvent e = some d ∧ MatchStep (game s) d (game t))
    {s t : S} {tr : List FullMatch.Label} (hplay : Playing (game s)) (hrun : Run step s tr t)
    (hopen : ∀ e ∈ tr, Open e) : Run (fun s e t => Playing (game s) ∧ step s e t) s tr t ∧ Playing (game t) := by
  induction hrun with
  | nil => exact ⟨.nil, hplay⟩
  | @snoc tr t e u _ hstep ih =>
      obtain ⟨hrun, hplay⟩ := ih fun d hd => hopen d (List.mem_append_left [e] hd)
      have he : Open e := hopen e (List.mem_append_right tr List.mem_cons_self)
      refine ⟨hrun.snoc ⟨hplay, hstep⟩, ?_⟩
      rcases hproject t e u ⟨hplay, hstep⟩ with ⟨_, hsame⟩ | ⟨d, hsome, hmatch⟩
      · rw [hsame]
        exact hplay
      · exact playing_step hmatch (open_continues he hsome)

theorem open_run {tr : List FullMatch.Label} (hinit : FullMatch.Initial s) (hrun : Run FullMatch.Step s tr t)
    (hopen : ∀ e ∈ tr, Open e) : Run OpenStep s tr t ∧ Playing t.game :=
  playing_run (fun s : FullMatch.State => s.game) (fun _ _ _ => game_projects) (playing_initial hinit.game) hrun hopen

def seat (p : Player) (s : FullMatch.State) : Seat.State := ⟨s.game.client p, s.ai p, s.toAi p, s.fromAi p⟩

def seatEvent (p : Player) : FullMatch.Label → Option Seat.Label
  | .game e => (clientEvent p e).map .client
  | .ai q e => if q = p then some (.ai e) else none

theorem seat_steps (p : Player) (h : FullMatch.Step s e t) :
    (seatEvent p e = none ∧ seat p t = seat p s) ∨
      ∃ d, seatEvent p e = some d ∧ Seat.Step (seat p s) d (seat p t) := by
  cases h with
  | game e g he hstep =>
      rcases client_steps p hstep with ⟨hnone, hsame⟩ | ⟨d, hsome, hclient⟩
      · refine .inl ⟨by rw [seatEvent, hnone, Option.map_none], ?_⟩
        simp only [seat, hsame]
      · refine .inr ⟨.client d, by rw [seatEvent, hsome, Option.map_some], .client _ d _ ?_ hclient⟩
        cases e with
        | server e => cases hsome
        | client q e =>
            obtain ⟨_, hd⟩ := Option.ite_none_right_eq_some.1 hsome
            obtain rfl := Option.some.inj hd
            exact he
  | toAi q e g he hsent hstep =>
      rcases client_steps p hstep with ⟨hnone, hsame⟩ | ⟨d, hsome, hclient⟩
      · have hne : p ≠ q := by
          rintro rfl
          simp [clientEvent] at hnone
        refine .inl ⟨by rw [seatEvent, hnone, Option.map_none], ?_⟩
        simp only [seat, hsame, Function.update_of_ne hne]
      · obtain ⟨rfl, hd⟩ := Option.ite_none_right_eq_some.1 hsome
        obtain rfl := Option.some.inj hd
        refine .inr ⟨.client e, by rw [seatEvent, hsome, Option.map_some], ?_⟩
        simp only [seat, Function.update_self]
        exact .toAi (seat q s) e _ he hsent hclient
  | fromAi q res coupIa bytes rest g hbytes hreceive hstep =>
      rcases client_steps p hstep with ⟨hnone, hsame⟩ | ⟨d, hsome, hclient⟩
      · have hne : p ≠ q := by
          rintro rfl
          simp [clientEvent] at hnone
        refine .inl ⟨by rw [seatEvent, hnone, Option.map_none], ?_⟩
        simp only [seat, hsame, Function.update_of_ne hne]
      · obtain ⟨rfl, hd⟩ := Option.ite_none_right_eq_some.1 hsome
        obtain rfl := Option.some.inj hd
        refine .inr ⟨.client _, by rw [seatEvent, hsome, Option.map_some], ?_⟩
        simp only [seat, Function.update_self]
        exact .fromAi (seat q s) res coupIa bytes rest _ hbytes hreceive hclient
  | ai q e a rest out he hai =>
      by_cases hq : q = p
      · subst hq
        refine .inr ⟨.ai e, if_pos rfl, ?_⟩
        simp only [seat, Function.update_self]
        exact .ai (seat q s) e a rest out he hai
      · refine .inl ⟨if_neg hq, ?_⟩
        simp only [seat, Function.update_of_ne (Ne.symm hq)]
  | skip q n a rest out hai =>
      by_cases hq : q = p
      · subst hq
        refine .inr ⟨.ai .skip, if_pos rfl, ?_⟩
        simp only [seat, Function.update_self]
        exact .skip (seat q s) n a rest out hai
      · refine .inl ⟨if_neg hq, ?_⟩
        simp only [seat, Function.update_of_ne (Ne.symm hq)]

theorem seat_projects (p : Player) (h : OpenStep s e t) :
    (seatEvent p e = none ∧ seat p t = seat p s) ∨
      ∃ d, seatEvent p e = some d ∧ PlayStep (seat p s) d (seat p t) :=
  (seat_steps p h.2).imp_right fun ⟨d, hsome, hseat⟩ => ⟨d, hsome, h.1.client p, hseat⟩

theorem generated_seat (p : Player) : generatedStrikes p = fun e => (seatEvent p e).elim [] madeStrikes := by
  funext e
  cases e with
  | game e => cases h : clientEvent p e <;> simp [generatedStrikes, generated, seatEvent, madeStrikes, h]
  | ai q e => by_cases hq : q = p <;> simp [generatedStrikes, generated, seatEvent, madeStrikes, hq]

theorem forced_seat (p : Player) : forcedStrikes p = fun e => (seatEvent p e).elim [] obeyedStrikes := by
  funext e
  cases e with
  | game e => cases h : clientEvent p e <;> simp [forcedStrikes, forced, seatEvent, obeyedStrikes, h]
  | ai q e => by_cases hq : q = p <;> simp [forcedStrikes, forced, seatEvent, obeyedStrikes, hq]

theorem ofClient_seat (p : Player) (items : Client.Event → List Strike) :
    ofGame (ofClient p items) = fun e => (seatEvent p e).elim [] (Seat.ofClient items) := by
  funext e
  cases e with
  | game e => cases h : clientEvent p e <;> simp [ofGame, gameEvent, ofClient, seatEvent, Seat.ofClient, h]
  | ai q e => by_cases hq : q = p <;> simp [ofGame, gameEvent, seatEvent, Seat.ofClient, hq]

def unread (p : Player) (s : FullMatch.State) : List Strike → Prop := Seat.unread (seat p s)

def pending (p : Player) (s : FullMatch.State) : List Strike → Prop := Seat.pending (seat p s)

/-- Over the whole match. -/
theorem match_unread (p : Player) :
    Conveys Displaces FullMatch.Step (unread p) (generatedStrikes p) (ofGame (ofClient p got)) := by
  rw [generated_seat, ofClient_seat]
  exact unread_conveys.lift (seat p) (seatEvent p) fun _ _ _ => seat_steps p

theorem seat_unread (p : Player) :
    Conveys Displaces OpenStep (unread p) (generatedStrikes p) (ofGame (ofClient p got)) :=
  (match_unread p).restrict fun _ _ _ h => h.2

theorem seat_pending (p : Player) :
    Conveys Displaces OpenStep (pending p) (ofGame (ofClient p forwarded)) (forcedStrikes p) := by
  rw [forced_seat, ofClient_seat]
  exact pending_conveys.lift (seat p) (seatEvent p) fun _ _ _ => seat_projects p

/-- The moves of `p` between its AI and the other one. -/
def inTransit (p : Player) : FullMatch.State → List Strike → Prop :=
  Series (Series (unread p) fun s => crossing p s.game) (pending p.other)

theorem delivery_conveys (p : Player) :
    Conveys Displaces OpenStep (inTransit p) (generatedStrikes p) (forcedStrikes p.other) := by
  have hgame := (crossing_conveys p).lift (fun s : FullMatch.State => s.game) gameEvent (fun _ _ _ => game_projects)
  exact ((seat_unread p).series hgame).series (seat_pending p.other)

theorem fresh_initial (h : FullMatch.Initial s) (p : Player) : Seat.Fresh (seat p s) :=
  ⟨(h.game.client p).pc, h.pc p, h.nbPartie p, h.toAi p, h.fromAi p⟩

theorem unread_initial (h : FullMatch.Initial s) (p : Player) : unread p s [] :=
  Seat.unread_fresh (fresh_initial h p)

theorem pending_initial (h : FullMatch.Initial s) (p : Player) : pending p s [] :=
  Seat.pending_fresh (fresh_initial h p)

theorem inTransit_initial (h : FullMatch.Initial s) (p : Player) : inTransit p s [] :=
  ⟨[], [], pending_initial h p.other, ⟨[], [], crossing_initial h.game p, unread_initial h p, rfl⟩, rfl⟩

theorem generated_displaces (hstep : FullMatch.Step s e t) (p : Player) :
    ∀ coup ∈ generated p e, Matching coup ∧ Displaces (coupStrike coup) := by
  have hai {q : Player} {d : AiPlayer.Event} (hd : ∀ coup ∈ made d, Matching coup ∧ Displaces (coupStrike coup)) :
      ∀ coup ∈ generated p (.ai q d), Matching coup ∧ Displaces (coupStrike coup) := by
    rw [generated]
    split
    · exact hd
    · exact List.forall_mem_nil _
  cases hstep with
  | game | toAi | fromAi => exact List.forall_mem_nil _
  | ai q d a rest out he hstep => exact hai (Seat.writes_made hstep).2
  | skip q n a rest out hstep => exact hai (Seat.writes_made hstep).2

theorem match_run {tr : List FullMatch.Label} (hrun : Run OpenStep s tr t) : Run FullMatch.Step s tr t := by
  induction hrun with
  | nil => exact .nil
  | snoc _ hstep ih => exact ih.snoc hstep.2

theorem generated_coups {tr : List FullMatch.Label} (hrun : Run FullMatch.Step s tr t) (p : Player) :
    ∀ coup ∈ tr.flatMap (generated p), Matching coup ∧ Displaces (coupStrike coup) := by
  induction hrun with
  | nil => exact List.forall_mem_nil _
  | @snoc tr t e u _ hstep ih =>
      rw [List.flatMap_append, List.flatMap_singleton]
      exact List.forall_mem_append.2 ⟨ih, generated_displaces hstep p⟩

theorem strikes_of (f : FullMatch.Label → List Coup) (tr : List FullMatch.Label) :
    tr.flatMap (fun e => (f e).map coupStrike) = (tr.flatMap f).map coupStrike := by
  rw [List.map_flatMap]

theorem generated_strike {tr : List FullMatch.Label} (hrun : Run FullMatch.Step s tr t) (p : Player) {x : Strike}
    (hx : x ∈ tr.flatMap (generatedStrikes p)) :
    ∃ coup, Matching coup ∧ Displaces (coupStrike coup) ∧ x = coupStrike coup := by
  have hstrikes : tr.flatMap (generatedStrikes p) = _ := strikes_of (generated p) tr
  rw [hstrikes] at hx
  obtain ⟨coup, hcoup, rfl⟩ := List.mem_map.1 hx
  obtain ⟨hmatch, hdisplaces⟩ := generated_coups hrun p coup hcoup
  exact ⟨coup, hmatch, hdisplaces, rfl⟩

theorem generated_run {tr : List FullMatch.Label} (hrun : Run FullMatch.Step s tr t) (p : Player) :
    ∀ x ∈ tr.flatMap (generatedStrikes p), Displaces x := by
  intro x hx
  obtain ⟨coup, _, hdisplaces, rfl⟩ := generated_strike hrun p hx
  exact hdisplaces

theorem delivered {tr : List FullMatch.Label} (hinit : FullMatch.Initial s) (hrun : Run OpenStep s tr t)
    (p : Player) :
    ∃ flying, inTransit p t flying ∧
      tr.flatMap (generatedStrikes p) = tr.flatMap (forcedStrikes p.other) ++ flying :=
  (delivery_conveys p).run hrun (inTransit_initial hinit p) (generated_run (match_run hrun) p)

/-- The two links of an AI, each on its own. -/
theorem linked {tr : List FullMatch.Label} (hinit : FullMatch.Initial s) (hrun : Run OpenStep s tr t) (p : Player) :
    (∃ xs, unread p t xs ∧ tr.flatMap (generatedStrikes p) = tr.flatMap (ofGame (ofClient p got)) ++ xs) ∧
      ∃ xs, pending p t xs ∧ tr.flatMap (ofGame (ofClient p forwarded)) = tr.flatMap (forcedStrikes p) ++ xs := by
  refine ⟨(seat_unread p).run hrun (unread_initial hinit p) (generated_run (match_run hrun) p), ?_⟩
  have hgame := (crossing_conveys p.other).lift (fun s : FullMatch.State => s.game) gameEvent
    (fun _ _ _ => game_projects)
  obtain ⟨ys, _, hcrossed⟩ := ((seat_unread p.other).series hgame).run hrun
    ⟨[], [], crossing_initial hinit.game p.other, unread_initial hinit p.other, rfl⟩
    (generated_run (match_run hrun) p.other)
  rw [other_other] at hcrossed
  have hall : tr.flatMap (generatedStrikes p.other) = tr.flatMap (ofGame (ofClient p forwarded)) ++ ys := hcrossed
  refine (seat_pending p).run hrun (pending_initial hinit p) fun x hx => generated_run (match_run hrun) p.other x ?_
  rw [hall]
  exact List.mem_append_left ys hx

end YokaiNoMori.Delivery
