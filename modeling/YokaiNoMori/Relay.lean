import YokaiNoMori.Channels
import YokaiNoMori.Lockstep
import YokaiNoMori.ServerHistory

namespace YokaiNoMori.Relay

open ProtocolYokai Runs Serveur Handling ServerHistory Match Conveyor Channels
open Lockstep (kickoff kickoff_initial)

/-! What becomes of every move and of every verdict of a match, however its
games end. -/

variable {X : Type}

def msgCoups : Msg → List TCoupReq
  | .coupReq coup => [coup]
  | _ => []

def msgReps : Msg → List TCoupRep
  | .coupRep rep => [rep]
  | _ => []

theorem greeting_coups (m : Msg) (h : Greeting m) : msgCoups m = [] := by
  cases m with
  | coupReq => exact h.elim
  | _ => rfl

theorem greeting_reps (m : Msg) (h : Greeting m) : msgReps m = [] := by
  cases m with
  | coupRep => exact h.elim
  | _ => rfl

/-- A step of a server none of whose calls fails. -/
def Sound (s : Serveur.State) (e : Serveur.Event) (d : Serveur.State) : Prop :=
  Succeeds e ∧ Serveur.Step s e d

section Verdicts

def judgements : Serveur.Event → List TCoupRep
  | .validationCoup _ _ valid prop => [prepareStrikeAnswer valid prop]
  | _ => []

/-- The answer of the referee that the server still has to give to `p`. -/
def untold (p : Player) (s : Serveur.State) : List TCoupRep :=
  match s.pc with
  | .sendMover _ => [s.moveRep]
  | .sendOther t => if t.call.conn.other = p then [s.moveRep] else []
  | _ => []

theorem untold_vacant {s : Serveur.State} (p : Player) (h : Vacant s.pc) : untold p s = [] := by
  cases hpc : s.pc with
  | sendMover t | sendOther t =>
      rw [hpc] at h
      exact h.elim
  | _ => rw [untold, hpc]

/-- Both players are told every verdict of the referee. -/
theorem verdicts_conveyed (p : Player) :
    Conveys (fun _ => True) Sound (fun s xs => xs = untold p s) judgements (relayed msgReps p) := by
  apply Conveys.of_eq
  rintro s e d ⟨hcall, hstep⟩ _
  cases server_handles hcall hstep with
  | take t d hvacant hpc =>
      rw [untold_vacant p hvacant, untold, hpc]
      rfl
  | judge t valid prop hpc =>
      rw [untold, hpc]
      rfl
  | tellMover t hpc =>
      rw [untold, hpc]
      by_cases hp : t.call.conn = p
      · have hother : t.call.conn.other ≠ p := by
          rw [hp]
          exact other_ne_self p
        simp only [untold, judgements, relayed, msgReps, if_pos hp, if_neg hother, List.append_nil]
      · have hother : t.call.conn.other = p := other_of_ne hp
        simp only [untold, judgements, relayed, if_neg hp, if_pos hother, List.append_nil, List.nil_append]
  | tellOther t hpc hprop | tellEnd t hpc hprop =>
      rw [untold, hpc]
      rfl
  | relay t d hpc hvacant =>
      rw [untold_vacant p hvacant, untold, hpc]
      simp [judgements, relayed, msgReps]
  | rest e d hvacant hvacant' hquiet =>
      have hjudge : judgements e = [] := by
        cases e with
        | validationCoup => exact hquiet.elim
        | _ => rfl
      rw [untold_vacant p hvacant, untold_vacant p hvacant', hjudge, relayed_quiet _ p greeting_reps hquiet]

end Verdicts

section Moves

/-- The move that the referee judges, and what it says, when it is one of `p`. -/
def rules (p : Player) (last : Option Played) : Serveur.Event → List (TCoupReq × TPropCoup)
  | .validationCoup _ coup _ prop => if last.map Played.mover = some p then [(coup, prop)] else []
  | _ => []

def ruling (p : Player) (acc : Option Played × List (TCoupReq × TPropCoup)) (e : Serveur.Event) :
    Option Played × List (TCoupReq × TPropCoup) :=
  (record acc.1 e, acc.2 ++ rules p acc.1 e)

/-- The moves of `p` that the referee has judged, with what it said of each. -/
def judged (p : Player) (tr : List Serveur.Event) : List (TCoupReq × TPropCoup) :=
  (tr.foldl (ruling p) (none, [])).2

/-- The moves after which the game went on. -/
def accepted (js : List (TCoupReq × TPropCoup)) : List TCoupReq := (js.filter fun j => j.2 = .cont).map Prod.fst

theorem ruling_last (p : Player) (tr : List Serveur.Event) : (tr.foldl (ruling p) (none, [])).1 = lastMove tr := by
  induction tr using List.reverseRecOn with
  | nil => rfl
  | append_singleton tr e ih => rw [List.foldl_append, List.foldl_cons, List.foldl_nil, ruling, ih, lastMove_snoc]

theorem judged_snoc (p : Player) (tr : List Serveur.Event) (e : Serveur.Event) :
    judged p (tr ++ [e]) = judged p tr ++ rules p (lastMove tr) e := by
  rw [judged, List.foldl_append, List.foldl_cons, List.foldl_nil, ruling, ruling_last]
  rfl

theorem accepted_append (js ks : List (TCoupReq × TPropCoup)) : accepted (js ++ ks) = accepted js ++ accepted ks := by
  rw [accepted, List.filter_append, List.map_append]
  rfl

/-- The move of `p` that the referee has not seen. -/
def unjudged (p : Player) (s : Serveur.State) : List TCoupReq :=
  match s.pc with
  | .validate t => if t.call.conn = p then [s.moveReq] else []
  | _ => []

/-- The move of `p` that the referee has accepted and the other player has not been sent. -/
def unrelayed (p : Player) (s : Serveur.State) : List TCoupReq :=
  match s.pc with
  | .sendMover t | .sendOther t => if t.call.conn = p ∧ s.moveRep.propCoup = .cont then [s.moveReq] else []
  | .relay t => if t.call.conn = p then [s.moveReq] else []
  | _ => []

theorem unjudged_vacant {s : Serveur.State} (p : Player) (h : Vacant s.pc) : unjudged p s = [] := by
  cases hpc : s.pc with
  | validate t =>
      rw [hpc] at h
      exact h.elim
  | _ => rw [unjudged, hpc]

theorem unrelayed_vacant {s : Serveur.State} (p : Player) (h : Vacant s.pc) : unrelayed p s = [] := by
  cases hpc : s.pc with
  | sendMover t | sendOther t | relay t =>
      rw [hpc] at h
      exact h.elim
  | _ => rw [unrelayed, hpc]

theorem rules_quiet (p : Player) (last : Option Played) {e : Serveur.Event} (h : Quiet e) : rules p last e = [] := by
  cases e with
  | validationCoup => exact h.elim
  | _ => rfl

/-- Every move that the server receives of `p` is judged as a move of `p`. -/
theorem received_judged {s d : Serveur.State} {e : Serveur.Event} {tr : List Serveur.Event} (p : Player)
    (hhist : History tr s) (h : Sound s e d) :
    unjudged p s ++ received msgCoups p e = (rules p (lastMove tr) e).map Prod.fst ++ unjudged p d := by
  cases server_handles h.1 h.2 with
  | take t d hvacant hpc =>
      rw [unjudged_vacant p hvacant, unjudged, hpc]
      rfl
  | judge t valid prop hpc =>
      simp only [History, hpc] at hhist
      simp only [unjudged, hpc, hhist, rules, received, State.judge, Option.map_some, Option.some.injEq,
        List.append_nil]
      split <;> rfl
  | tellMover t hpc | tellOther t hpc hprop | tellEnd t hpc hprop =>
      rw [unjudged, hpc]
      rfl
  | relay t d hpc hvacant =>
      rw [unjudged_vacant p hvacant, unjudged, hpc]
      rfl
  | rest e d hvacant hvacant' hquiet =>
      rw [unjudged_vacant p hvacant, unjudged_vacant p hvacant', received_quiet _ p greeting_coups hquiet,
        rules_quiet p _ hquiet]
      rfl

/-- And a move that the referee has accepted is relayed to the other player. -/
theorem accepted_relayed {s d : Serveur.State} {e : Serveur.Event} {tr : List Serveur.Event} (p : Player)
    (hhist : History tr s) (h : Sound s e d) :
    unrelayed p s ++ accepted (rules p (lastMove tr) e) = relayed msgCoups p.other e ++ unrelayed p d := by
  cases server_handles h.1 h.2 with
  | take t d hvacant hpc =>
      rw [unrelayed_vacant p hvacant, unrelayed, hpc]
      rfl
  | judge t valid prop hpc =>
      simp only [History, hpc] at hhist
      simp only [unrelayed, hpc, hhist, rules, relayed, State.judge, prepareStrikeAnswer_propCoup, Option.map_some,
        Option.some.injEq]
      by_cases hconn : t.call.conn = p
      · by_cases hprop : prop = .cont <;> simp [accepted, hconn, hprop]
      · simp [accepted, hconn]
  | tellMover t hpc =>
      simp only [unrelayed, hpc, relayed, msgCoups, ite_self, rules]
      exact List.append_nil _
  | tellOther t hpc hprop | tellEnd t hpc hprop =>
      simp [unrelayed, hpc, relayed, msgCoups, rules, accepted, hprop]
  | relay t d hpc hvacant =>
      rw [unrelayed_vacant p hvacant, unrelayed, hpc]
      simp [rules, accepted, relayed, msgCoups, other_inj]
  | rest e d hvacant hvacant' hquiet =>
      rw [unrelayed_vacant p hvacant, unrelayed_vacant p hvacant', relayed_quiet _ p.other greeting_coups hquiet,
        rules_quiet p _ hquiet]
      rfl

/-- What the server has done with the moves of `p`. -/
structure Settled (p : Player) (tr : List Serveur.Event) (s : Serveur.State) : Prop where
  history : History tr s
  received : tr.flatMap (received msgCoups p) = (judged p tr).map Prod.fst ++ unjudged p s
  relayed : accepted (judged p tr) = tr.flatMap (relayed msgCoups p.other) ++ unrelayed p s

theorem settled_step {s d : Serveur.State} {e : Serveur.Event} {tr : List Serveur.Event} {p : Player}
    (h : Settled p tr s) (hstep : Sound s e d) : Settled p (tr ++ [e]) d := by
  refine ⟨history_step h.history hstep.2, ?_, ?_⟩
  · rw [List.flatMap_append, List.flatMap_singleton, h.received, judged_snoc, List.map_append, List.append_assoc,
      received_judged p h.history hstep, List.append_assoc]
  · rw [List.flatMap_append, List.flatMap_singleton, judged_snoc, accepted_append, h.relayed, List.append_assoc,
      accepted_relayed p h.history hstep, List.append_assoc]

theorem settled {s₀ s : Serveur.State} {tr : List Serveur.Event} (h₀ : Serveur.Initial s₀)
    (h : Run Sound s₀ tr s) (p : Player) : Settled p tr s := by
  refine h.invariant (Settled p) ⟨?_, ?_, ?_⟩ (fun _ _ _ _ => settled_step)
  · simp [History, h₀.pc]
  · rw [unjudged, h₀.pc]
    rfl
  · rw [unrelayed, h₀.pc]
    rfl

end Moves

section Matches

variable {m₀ m : Match.State} {tr : List Label}

theorem server_run (hrun : Run Match.Step m₀ tr m) : Run Sound m₀.server (tr.filterMap serverEvent) m.server := by
  refine hrun.project (fun m => m.server) serverEvent fun _ _ _ hstep => ?_
  refine (server_steps hstep).imp_right ?_
  rintro ⟨d, hsome, hcall, hserver⟩
  exact ⟨d, hsome, hcall, hserver⟩

theorem ofServer_flatMap (items : Serveur.Event → List X) (tr : List Label) :
    tr.flatMap (ofServer items) = (tr.filterMap serverEvent).flatMap items := by
  induction tr with
  | nil => rfl
  | cons e tr ih =>
      rw [List.flatMap_cons, ih, ofServer]
      cases h : serverEvent e with
      | none => rw [List.filterMap_cons_none h, Option.elim_none, List.nil_append]
      | some d => rw [List.filterMap_cons_some h, Option.elim_some, List.flatMap_cons]

theorem up_run (hinit : Match.Initial m₀) (hrun : Run Match.Step m₀ tr m) (items : Msg → List X) (p : Player) :
    tr.flatMap (ofClient p (asked items)) =
      (tr.filterMap serverEvent).flatMap (received items p) ++ (m.up p).flatMap items := by
  have hconveys : Conveys (fun _ => True) Match.Step _ _ _ := up_conveys items p
  obtain ⟨xs, hheld, hmoved⟩ := hconveys.run hrun rfl fun _ _ => trivial
  rw [hinit.up, List.flatMap_nil, List.nil_append] at hmoved
  rw [hmoved, hheld, ofServer_flatMap]

theorem down_run (hinit : Match.Initial m₀) (hrun : Run Match.Step m₀ tr m) (items : Msg → List X) (p : Player) :
    (tr.filterMap serverEvent).flatMap (relayed items p) =
      tr.flatMap (ofClient p (heard items)) ++ (m.down p).flatMap items := by
  have hconveys : Conveys (fun _ => True) Match.Step _ _ _ := down_conveys items p
  obtain ⟨xs, hheld, hmoved⟩ := hconveys.run hrun rfl fun _ _ => trivial
  rw [hinit.down, List.flatMap_nil, List.nil_append] at hmoved
  rw [← ofServer_flatMap, hmoved, hheld]

/-- Each move that a client sends is judged once, in the order of the moves, as
a move of its player, and those after which the game goes on reach the other
client: a move that has not got there is in a socket or in the server. -/
theorem moves_relayed (hinit : Match.Initial m₀) (hrun : Run Match.Step m₀ tr m) (p : Player) :
    let served := tr.filterMap serverEvent
    tr.flatMap (ofClient p (asked msgCoups)) =
        (judged p served).map Prod.fst ++ (unjudged p m.server ++ (m.up p).flatMap msgCoups) ∧
      accepted (judged p served) = tr.flatMap (ofClient p.other (heard msgCoups)) ++
        ((m.down p.other).flatMap msgCoups ++ unrelayed p m.server) := by
  have hsettled := settled hinit.server (server_run hrun) p
  constructor
  · rw [up_run hinit hrun, hsettled.received, List.append_assoc]
  · rw [hsettled.relayed, down_run hinit hrun, List.append_assoc]

theorem moves_relayed_shortMatch : ∃ tr m, Run Match.Step kickoff tr m ∧ m.server.pc = .exited ∧ ∀ p,
    let served := tr.filterMap serverEvent
    tr.flatMap (ofClient p (asked msgCoups)) =
        (judged p served).map Prod.fst ++ (unjudged p m.server ++ (m.up p).flatMap msgCoups) ∧
      accepted (judged p served) = tr.flatMap (ofClient p.other (heard msgCoups)) ++
        ((m.down p.other).flatMap msgCoups ++ unrelayed p m.server) := by
  obtain ⟨tr, m, ⟨h, hserver, _⟩, _⟩ := Lockstep.shortMatch
  exact ⟨tr, m, h, hserver, moves_relayed kickoff_initial h⟩

/-- Each player is told every verdict of the referee once, in order. -/
theorem verdicts_told (hinit : Match.Initial m₀) (hrun : Run Match.Step m₀ tr m) (p : Player) :
    (tr.filterMap serverEvent).flatMap judgements =
      tr.flatMap (ofClient p (heard msgReps)) ++ ((m.down p).flatMap msgReps ++ untold p m.server) := by
  have hquiet : untold p m₀.server = [] := by rw [untold, hinit.server.pc]
  obtain ⟨xs, hheld, hmoved⟩ := (verdicts_conveyed p).run (server_run hrun) hquiet.symm fun _ _ => trivial
  rw [List.nil_append] at hmoved
  rw [hmoved, hheld, down_run hinit hrun, List.append_assoc]

theorem verdicts_told_shortMatch : ∃ tr m, Run Match.Step kickoff tr m ∧ m.server.pc = .exited ∧ ∀ p,
    (tr.filterMap serverEvent).flatMap judgements =
      tr.flatMap (ofClient p (heard msgReps)) ++ ((m.down p).flatMap msgReps ++ untold p m.server) := by
  obtain ⟨tr, m, ⟨h, hserver, _⟩, _⟩ := Lockstep.shortMatch
  exact ⟨tr, m, h, hserver, verdicts_told kickoff_initial h⟩

end Matches

end YokaiNoMori.Relay
