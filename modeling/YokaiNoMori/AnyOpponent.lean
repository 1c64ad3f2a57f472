import YokaiNoMori.FirstGame
import YokaiNoMori.SessionRefinement

namespace YokaiNoMori.AnyOpponent

open ProtocolYokai Runs Strikes Conveyor Channels Carriers JavaCoup PrologSession
open Serveur (Player other_other)
open FullMatch (Label)
open Delivery (gameEvent ofGame generated forced generatedStrikes forcedStrikes Open seatEvent generated_seat
  forced_seat ofClient_seat strikes_of)
open Orientations (sensOf client_oriented)
open Seat (Plays PlayStep made obeyed firstGame played_firstGame received_firstGame plays_after stays)
open AiPlayer (sideOf)
open Game (Position sideToMove)
open SessionRefinement (Call CallStep Named Lawful played opening positionOf session_refines)
open Board (Side opponent)

/-! One AI in a match, against whatever plays behind the other client. -/

structure State where
  game : Match.State
  ai : AiPlayer.State
  toAi : List UInt8
  fromAi : List UInt8

def State.seat (s : State) (p : Player) : Seat.State := ⟨s.game.client p, s.ai, s.toAi, s.fromAi⟩

structure Initial (p : Player) (s : State) : Prop where
  game : Match.Initial s.game
  fresh : Seat.Fresh (s.seat p)

/-- Only the client of `p` has its moves from the AI. The other one may be given any. -/
inductive Step (p : Player) : State → Label → State → Prop
  | game (s) (e) (g) (he : clientEvent p e = none) (hstep : Match.Step s.game e g) :
      Step p s (.game e) { s with game := g }
  | client (s) (e) (t : State) (hstep : Match.Step s.game (.client p e) t.game)
      (hseat : Seat.Step (s.seat p) (.client e) (t.seat p)) : Step p s (.game (.client p e)) t
  | ai (s) (e) (t : State) (hgame : t.game = s.game) (hseat : Seat.Step (s.seat p) (.ai e) (t.seat p)) :
      Step p s (.ai p e) t

def OpenStep (p : Player) (s : State) (e : Label) (t : State) : Prop := Playing s.game ∧ Step p s e t

/-- The moves that the other client is given. -/
def met (p : Player) : Label → List Strike := ofGame (ofClient p.other got)

/-- The moves that the other client passes on. -/
def shown (p : Player) : Label → List Strike := ofGame (ofClient p.other forwarded)

variable {p : Player} {s t u : State} {tr : List Label} {e : Label}

theorem game_projects (h : OpenStep p s e t) :
    (gameEvent e = none ∧ t.game = s.game) ∨ ∃ d, gameEvent e = some d ∧ MatchStep s.game d t.game := by
  obtain ⟨hplay, hstep⟩ := h
  cases hstep with
  | game e g he hstep => exact .inr ⟨e, rfl, hplay, hstep⟩
  | client e t hstep hseat => exact .inr ⟨_, rfl, hplay, hstep⟩
  | ai e t hgame hseat => exact .inl ⟨rfl, hgame⟩

theorem seat_projects (h : OpenStep p s e t) :
    (seatEvent p e = none ∧ t.seat p = s.seat p) ∨
      ∃ d, seatEvent p e = some d ∧ PlayStep (s.seat p) d (t.seat p) := by
  obtain ⟨hplay, hstep⟩ := h
  have hinPlay := hplay.client p
  cases hstep with
  | game e g he hstep =>
      rcases client_projects p ⟨hplay, hstep⟩ with ⟨hnone, hsame⟩ | ⟨d, hsome, _⟩
      · refine .inl ⟨by rw [seatEvent, hnone, Option.map_none], ?_⟩
        simp only [State.seat, hsame]
      · rw [he] at hsome
        cases hsome
  | client e t hstep hseat =>
      have hown : clientEvent p (.client p e) = some e := if_pos rfl
      exact .inr ⟨.client e, by rw [seatEvent, hown, Option.map_some], hinPlay, hseat⟩
  | ai e t hgame hseat => exact .inr ⟨.ai e, if_pos rfl, hinPlay, hseat⟩

theorem open_run (hinit : Initial p s) (hrun : Run (Step p) s tr t) (hopen : ∀ e ∈ tr, Open e) :
    Run (OpenStep p) s tr t ∧ Playing t.game :=
  Delivery.playing_run (fun s : State => s.game) (fun _ _ _ => game_projects) (playing_initial hinit.game) hrun hopen

theorem game_run (hrun : Run (OpenStep p) s tr t) : ∃ tr', Run Match.Step s.game tr' t.game :=
  ⟨_, hrun.project (fun s => s.game) gameEvent fun _ _ _ h => (game_projects h).imp_right
    fun ⟨d, hsome, hmatch⟩ => ⟨d, hsome, hmatch.2⟩⟩

/-- The moves between the AI and the program behind the other client. -/
def outbound (p : Player) : State → List Strike → Prop :=
  Series (fun s => Seat.unread (s.seat p)) fun s => crossing p s.game

/-- The moves between that program and the AI. -/
def inbound (p : Player) : State → List Strike → Prop :=
  Series (fun s => crossing p.other s.game) fun s => Seat.pending (s.seat p)

theorem shown_conveys (p : Player) :
    Conveys Displaces (OpenStep p) (outbound p) (generatedStrikes p) (shown p) := by
  have hgame := (crossing_conveys p).lift (fun s : State => s.game) gameEvent (fun _ _ _ => game_projects (p := p))
  have hunread := Seat.unread_conveys.restrict (fun _ _ _ (h : PlayStep _ _ _) => h.2)
  have hseat := hunread.lift (fun s : State => s.seat p) (seatEvent p) (fun _ _ _ => seat_projects)
  rw [← generated_seat, ← ofClient_seat] at hseat
  exact hseat.series hgame

theorem met_conveys (p : Player) : Conveys Displaces (OpenStep p) (inbound p) (met p) (forcedStrikes p) := by
  have hgame := (crossing_conveys p.other).lift (fun s : State => s.game) gameEvent
    (fun _ _ _ => game_projects (p := p))
  have hseat := Seat.pending_conveys.lift (fun s : State => s.seat p) (seatEvent p) (fun _ _ _ => seat_projects)
  rw [← forced_seat, ← ofClient_seat] at hseat
  rw [other_other] at hgame
  exact hgame.series hseat

theorem generated_displaces (hrun : Run (OpenStep p) s tr t) :
    ∀ x ∈ tr.flatMap (generatedStrikes p), Displaces x := by
  induction hrun with
  | nil => exact List.forall_mem_nil _
  | @snoc tr t e u _ hstep ih =>
      rw [List.flatMap_append, List.flatMap_singleton]
      refine List.forall_mem_append.2 ⟨ih, ?_⟩
      have hmade : generatedStrikes p e = (seatEvent p e).elim [] Seat.madeStrikes := congrFun (generated_seat p) e
      rw [hmade]
      rcases seat_projects hstep with ⟨hnone, _⟩ | ⟨d, hsome, _, hseat⟩
      · rw [hnone]
        exact List.forall_mem_nil _
      · rw [hsome]
        exact Seat.made_displaces hseat

theorem all_shown (hinit : Initial p s) (hrun : Run (OpenStep p) s tr t) :
    ∃ flying, outbound p t flying ∧ tr.flatMap (generatedStrikes p) = tr.flatMap (shown p) ++ flying := by
  have hstart : outbound p s [] := ⟨[], [], crossing_initial hinit.game p, Seat.unread_fresh hinit.fresh, rfl⟩
  exact (shown_conveys p).run hrun hstart (generated_displaces hrun)

theorem all_forced (hinit : Initial p s) (hrun : Run (OpenStep p) s tr t)
    (hmet : ∀ x ∈ tr.flatMap (met p), Displaces x) :
    ∃ flying, inbound p t flying ∧ tr.flatMap (met p) = tr.flatMap (forcedStrikes p) ++ flying := by
  have hstart : inbound p s [] :=
    ⟨[], [], Seat.pending_fresh hinit.fresh, crossing_initial hinit.game p.other, rfl⟩
  exact (met_conveys p).run hrun hstart hmet

/-! The calls that `main` makes. -/

def callsOf : AiPlayer.Event → List Call
  | .generate coup => [.generate coup]
  | .force coup => [.force coup]
  | _ => []

def calls : Label → List Call
  | .ai _ e => callsOf e
  | .game _ => []

def author (side : Side) : Call → Side
  | .generate _ => side
  | .force _ => opponent side

/-- Each call is a move of the side to move. -/
def InTurn (side : Side) : List Call → Prop := Throughout fun before c => author side c = sideToMove before.length

/-- The AI of `p` has made these calls since it has read its side. -/
inductive Called (p : Player) (a : AiPlayer.State) : List Call → Prop
  | waiting (hpc : a.main.pc = .readSens) : Called p a []
  | playing (cs : List Call) (hrun : Run CallStep (init (sideOf (sensOf p))) cs a.prolog)
      (horder : InTurn (sideOf (sensOf p)) cs)
      (hturn : a.main.pc = if sideToMove cs.length = sideOf (sensOf p) then .play (firstGame (sensOf p))
        else .read (firstGame (sensOf p))) : Called p a cs

theorem called_readBoolean {a : AiPlayer.State} {sens : Bool} {main : JSicstus.State} {bytes rest : List UInt8}
    {cs : List Call} (h : Called p a cs) (hnb : a.main.nbPartie = 1)
    (hmain : JSicstus.Step a.main bytes (.readBoolean sens) main rest)
    (hplays : Plays p ⟨main, init (sideOf sens)⟩) :
    Called p ⟨main, init (sideOf sens)⟩ cs := by
  cases hmain with
  | readBoolean byte rest hpc =>
      cases h with
      | playing _ _ _ hturn =>
          rw [hpc] at hturn
          split at hturn <;> cases hturn
      | waiting =>
          have hsens : decide (byte ≠ 0) = sensOf p := hplays.sens
          rw [hsens]
          refine .playing [] .nil (throughout_nil _) ?_
          simp only [JSicstus.loop1, hnb, if_true]
          cases p <;> rfl

theorem called_generate {a : AiPlayer.State} {coup : Coup} {main : JSicstus.State} {prolog : Session}
    {bytes rest : List UInt8} {cs : List Call} (h : Called p a cs) (hnb : a.main.nbPartie = 1) (hplays : Plays p a)
    (hmain : JSicstus.Step a.main bytes .sendToNetwork main rest)
    (hcall : generateMove a.prolog = some (coup, prolog)) :
    Called p ⟨main, prolog⟩ (cs ++ [.generate coup]) := by
  cases hmain with
  | sendToNetwork b _ hpc =>
      cases h with
      | waiting hpc' => rw [hpc] at hpc'; cases hpc'
      | playing _ hrun horder hturn =>
          rw [hpc] at hturn
          split at hturn
          · rename_i hmover
            obtain rfl := JSicstus.Pc.play.inj hturn
            rw [played_firstGame hnb hplays.sens]
            refine .playing _ (hrun.snoc (.generate _ _ coup hcall))
              ((throughout_snoc _ _ _).2 ⟨horder, hmover.symm⟩) ?_
            rw [List.length_append, List.length_singleton, sideToMove, hmover,
              if_neg (MoveRules.ne_opponent _).symm]
          · cases hturn

theorem called_force {a : AiPlayer.State} {coup : Coup} {main : JSicstus.State} {prolog : Session}
    {bytes rest : List UInt8} {cs : List Call} (h : Called p a cs) (hnb : a.main.nbPartie = 1) (hplays : Plays p a)
    (hmain : JSicstus.Step a.main bytes (.readFromNetwork (some coup)) main rest)
    (hcall : forceEnnemyStrike a.prolog coup = some prolog) (hdisplaces : Displaces (coupStrike coup)) :
    Called p ⟨main, prolog⟩ (cs ++ [.force coup]) := by
  cases hmain with
  | readFromNetwork b _ _ _ hpc hread =>
      cases h with
      | waiting hpc' => rw [hpc] at hpc'; cases hpc'
      | playing _ hrun horder hturn =>
          rw [hpc] at hturn
          split at hturn
          · cases hturn
          · rename_i hmover
            obtain rfl := JSicstus.Pc.read.inj hturn
            obtain ⟨_, depl, hparams⟩ := depl_of_displaces hdisplaces (read_matching hread)
            have hnamed : Named coup := by
              intro depo hdepo
              rw [hparams] at hdepo
              cases hdepo
            have hside := (MoveRules.eq_or_opponent (sideOf (sensOf p)) (sideToMove cs.length)).resolve_left hmover
            rw [received_firstGame hnb hplays.sens]
            refine .playing _ (hrun.snoc (.force _ _ coup hnamed hcall))
              ((throughout_snoc _ _ _).2 ⟨horder, hside.symm⟩) ?_
            rw [List.length_append, List.length_singleton, sideToMove, hside, Board.opponent_opponent, if_pos rfl]

theorem called_ai {a b : AiPlayer.State} {e : AiPlayer.Event} {bytes rest out : List UInt8} {cs : List Call}
    (h : Called p a cs) (hnb : a.main.nbPartie = 1) (ha : a.main.pc = .readSens ∨ Plays p a)
    (hb : b.main.pc = .readSens ∨ Plays p b) (hstep : AiPlayer.Step a bytes e b rest out)
    (hobeyed : ∀ coup ∈ obeyed e, Displaces (coupStrike coup)) : Called p b (cs ++ callsOf e) := by
  have hplays {pc : JSicstus.Pc} (hpc : a.main.pc = pc) (hne : pc ≠ .readSens) : Plays p a :=
    ha.resolve_left (fun hearly => hne (hpc.symm.trans hearly))
  have hstays := stays hnb ha hb hstep
  have hplays' := plays_after hb hstep
  cases hstep with
  | readBoolean sens main rest hmain =>
      simp only [callsOf, List.append_nil]
      exact called_readBoolean h hnb hmain hplays'
  | generate coup main prolog rest hmain hcall =>
      have ha' : Plays p a := by cases hmain with | sendToNetwork b _ hpc => exact hplays hpc (by simp)
      exact called_generate h hnb ha' hmain hcall
  | force coup main prolog rest hmain hcall =>
      have ha' : Plays p a := by cases hmain with | readFromNetwork b _ _ _ hpc _ => exact hplays hpc (by simp)
      exact called_force h hnb ha' hmain hcall (hobeyed coup List.mem_cons_self)
  | finPartie => exact absurd rfl hstays.1
  | skip => exact absurd rfl hstays.2

theorem ai_plays (hinit : Initial p s) (hrun : Run (OpenStep p) s tr t)
    (hmet : ∀ x ∈ tr.flatMap (met p), Displaces x) : t.ai.main.nbPartie = 1 ∧ (t.ai.main.pc = .readSens ∨ Plays p t.ai) := by
  obtain ⟨_, ⟨_, _, hpending, _, _⟩, _⟩ := all_forced hinit hrun hmet
  obtain ⟨tr', hgame⟩ := game_run hrun
  exact Seat.plays_pending hpending fun hlate => client_oriented hinit.game hgame hlate

theorem called_step (hinit : Initial p s) (hrun : Run (OpenStep p) s tr t) (hstep : OpenStep p t e u)
    (hmet : ∀ x ∈ (tr ++ [e]).flatMap (met p), Displaces x) (h : Called p t.ai (tr.flatMap calls)) :
    Called p u.ai ((tr ++ [e]).flatMap calls) := by
  have hbefore : ∀ x ∈ tr.flatMap (met p), Displaces x := by
    rw [List.flatMap_append] at hmet
    exact (List.forall_mem_append.1 hmet).1
  obtain ⟨hnb, ha⟩ := ai_plays hinit hrun hbefore
  obtain ⟨_, hb⟩ := ai_plays hinit (hrun.snoc hstep) hmet
  obtain ⟨flying, _, hforced⟩ := all_forced hinit (hrun.snoc hstep) hmet
  rw [hforced, List.flatMap_append, List.flatMap_singleton] at hmet
  have hobeyed : ∀ x ∈ forcedStrikes p e, Displaces x := fun x hx =>
    hmet x (List.mem_append_left flying (List.mem_append_right _ hx))
  rw [List.flatMap_append, List.flatMap_singleton]
  obtain ⟨_, hstep⟩ := hstep
  cases hstep with
  | game e g he hgame =>
      rw [calls, List.append_nil]
      exact h
  | client e u hgame hseat =>
      have hai : u.ai = t.ai := Seat.client_keeps hseat
      rw [calls, List.append_nil, hai]
      exact h
  | ai e u hgame hseat =>
      obtain ⟨bytes, rest, out, hai⟩ := Seat.ai_acts hseat
      refine called_ai h hnb ha hb hai fun coup hcoup => hobeyed _ ?_
      rw [forcedStrikes, forced, if_pos rfl]
      exact List.mem_map_of_mem hcoup

theorem called (hinit : Initial p s) (hrun : Run (OpenStep p) s tr t)
    (hmet : ∀ x ∈ tr.flatMap (met p), Displaces x) : Called p t.ai (tr.flatMap calls) := by
  induction hrun with
  | nil => exact .waiting hinit.fresh.pc
  | @snoc tr t e u hrun hstep ih =>
      refine called_step hinit hrun hstep hmet (ih ?_)
      rw [List.flatMap_append] at hmet
      exact (List.forall_mem_append.1 hmet).1

/-- Whatever is played against it, as long as it is displacements, an AI plays the
game: its position is the one that its moves and the received ones lead to, each
in its turn, its moves are legal, and what has not got through the match is in its
streams or held by its programs. -/
theorem any_opponent (hinit : Initial p s) (hrun : Run (Step p) s tr t) (hopen : ∀ e ∈ tr, Open e)
    (hmet : ∀ x ∈ tr.flatMap (met p), Displaces x) (hpc : t.ai.main.pc ≠ .readSens) :
    let side := sideOf (sensOf p)
    positionOf t.ai.prolog = (tr.flatMap calls).foldl (played side) opening ∧
      InTurn side (tr.flatMap calls) ∧
      (∀ front coup back, tr.flatMap calls = front ++ .generate coup :: back →
        Lawful side (front.foldl (played side) opening) coup) ∧
      (∃ flying, outbound p t flying ∧
        (tr.flatMap (generated p)).map coupStrike = tr.flatMap (shown p) ++ flying) ∧
      ∃ flying, inbound p t flying ∧ tr.flatMap (met p) = (tr.flatMap (forced p)).map coupStrike ++ flying := by
  intro side
  obtain ⟨hrun', _⟩ := open_run hinit hrun hopen
  obtain ⟨flying, hout, hshown⟩ := all_shown hinit hrun'
  obtain ⟨flying', hin, hforced⟩ := all_forced hinit hrun' hmet
  have hgenerated : tr.flatMap (generatedStrikes p) = _ := strikes_of (generated p) tr
  have hobeyed : tr.flatMap (forcedStrikes p) = _ := strikes_of (forced p) tr
  rw [hgenerated] at hshown
  rw [hobeyed] at hforced
  have hcalled := called hinit hrun' hmet
  generalize tr.flatMap calls = cs at hcalled ⊢
  cases hcalled with
  | waiting hpc' => exact absurd hpc' hpc
  | playing _ hsession horder _ =>
      have hplays := SessionRefinement.plays_run hsession
      exact ⟨hplays.position, horder, hplays.lawful, ⟨flying, hout, hshown⟩, flying', hin, hforced⟩

/-! Each of two AIs is in such a match. -/

def view (p : Player) (s : FullMatch.State) : State := ⟨s.game, s.ai p, s.toAi p, s.fromAi p⟩

def viewEvent (p : Player) : Label → Option Label
  | .game e => some (.game e)
  | .ai q e => if q = p then some (.ai q e) else none

theorem viewEvent_same {d : Label} (h : viewEvent p e = some d) : d = e := by
  cases e with
  | game e => exact (Option.some.inj h).symm
  | ai q e => exact (Option.some.inj (Option.ite_none_right_eq_some.1 h).2).symm

theorem view_projects (p : Player) {s t : FullMatch.State} (h : Delivery.OpenStep s e t) :
    (viewEvent p e = none ∧ view p t = view p s) ∨
      ∃ d, viewEvent p e = some d ∧ Step p (view p s) d (view p t) := by
  have hseat := Delivery.seat_projects p h
  have hgame := Delivery.game_projects h
  cases e with
  | game e =>
      refine .inr ⟨_, rfl, ?_⟩
      obtain ⟨hnone, _⟩ | ⟨_, hsome, _, hstep⟩ := hgame
      · cases hnone
      · obtain rfl := Option.some.inj hsome
        rcases hseat with ⟨hnone, hsame⟩ | ⟨d, hsome, _, hseat⟩
        · obtain ⟨_, hai, hto, hfrom⟩ := Seat.State.mk.inj hsame
          have hview : view p t = { view p s with game := t.game } := by
            simp only [view, hai, hto, hfrom]
          rw [hview]
          exact .game _ e _ (Option.map_eq_none_iff.1 hnone) hstep
        · obtain ⟨d, hd, rfl⟩ := Option.map_eq_some_iff.1 hsome
          cases e with
          | server e => cases hd
          | client q e =>
              obtain ⟨rfl, hsame⟩ := Option.ite_none_right_eq_some.1 hd
              obtain rfl := Option.some.inj hsame
              exact .client _ e _ hstep hseat
  | ai q e =>
      have hsame : t.game = s.game := by
        obtain ⟨_, hsame⟩ | ⟨_, hsome, _⟩ := hgame
        · exact hsame
        · cases hsome
      rcases hseat with ⟨hnone, hseat⟩ | ⟨d, hsome, _, hseat⟩
      · obtain ⟨_, hai, hto, hfrom⟩ := Seat.State.mk.inj hseat
        refine .inl ⟨?_, by simp only [view, hsame, hai, hto, hfrom]⟩
        have hq : q ≠ p := by
          rintro rfl
          simp [seatEvent] at hnone
        exact if_neg hq
      · obtain ⟨rfl, hd⟩ := Option.ite_none_right_eq_some.1 hsome
        obtain rfl := Option.some.inj hd
        exact .inr ⟨_, if_pos rfl, .ai _ e _ hsame hseat⟩

/-- What the client of an AI is given by the other client's AI can be read. -/
theorem view_run (p : Player) {s t : FullMatch.State} (hinit : FullMatch.Initial s)
    (hrun : Run Delivery.OpenStep s tr t) :
    Initial p (view p s) ∧ Run (Step p) (view p s) (tr.filterMap (viewEvent p)) (view p t) ∧
      ∀ x ∈ (tr.filterMap (viewEvent p)).flatMap (met p), Displaces x := by
  refine ⟨⟨hinit.game, Delivery.fresh_initial hinit p⟩,
    hrun.project (view p) (viewEvent p) (fun _ _ _ => view_projects p), fun x hx => ?_⟩
  obtain ⟨d, hd, hx⟩ := List.mem_flatMap.1 hx
  obtain ⟨e, he, hsame⟩ := List.mem_filterMap.1 hd
  obtain rfl := viewEvent_same hsame
  obtain ⟨⟨xs, _, hgot⟩, _⟩ := Delivery.linked hinit hrun p.other
  refine Delivery.generated_run (Delivery.match_run hrun) p.other x ?_
  rw [hgot]
  exact List.mem_append_left xs (List.mem_flatMap.2 ⟨d, he, hx⟩)

theorem any_opponent_opening : ∃ tr t flying, Run (Step .p2) (view .p2 FirstGame.kickoff) tr t ∧
    t.ai.main.pc = .play (firstGame false) ∧
      positionOf t.ai.prolog = (tr.flatMap calls).foldl (played .south) opening ∧
      inbound .p2 t flying ∧ tr.flatMap (met .p2) = (tr.flatMap (forced .p2)).map coupStrike ++ flying := by
  obtain ⟨tr, t, hrun, hopen, hpc, _⟩ := FirstGame.opening_run
  obtain ⟨hrun', _⟩ := Delivery.open_run FirstGame.kickoff_initial hrun hopen
  obtain ⟨hinit, hview, hmet⟩ := view_run .p2 FirstGame.kickoff_initial hrun'
  have hopen' : ∀ e ∈ tr.filterMap (viewEvent .p2), Open e := by
    intro d hd
    obtain ⟨e, he, hsame⟩ := List.mem_filterMap.1 hd
    obtain rfl := viewEvent_same hsame
    exact hopen d he
  have hlate : (t.ai .p2).main.pc ≠ .readSens := by
    rw [hpc]
    simp
  obtain ⟨hposition, _, _, _, flying, hin, hforced⟩ := any_opponent hinit hview hopen' hmet hlate
  exact ⟨_, _, flying, hview, hpc, hposition, hin, hforced⟩

end YokaiNoMori.AnyOpponent
