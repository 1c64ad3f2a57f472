import YokaiNoMori.Lockstep

namespace YokaiNoMori.Results

open ProtocolYokai Runs Serveur Match Conversation Dialogue ClientDialogue ServerDialogue Lockstep ServerHistory

def noteEnding (props : List TPropCoup) : Label → List TPropCoup
  | .server (.store _ prop _ _) => props ++ [prop]
  | _ => props

def endings (tr : List Label) : List TPropCoup := tr.foldl noteEnding []

@[simp] theorem endings_snoc (tr : List Label) (e : Label) : endings (tr ++ [e]) = noteEnding (endings tr) e := by
  simp [endings]

theorem credited_eq_none {mover : Player} {prop : TPropCoup} (hprop : prop ≠ .cont) :
    credited mover prop = none ↔ prop = .nul := by
  cases prop <;> simp_all [credited]

/-- A finished game has no scorer when it ended with `NUL`. -/
def Settled (tr : List Label) : Prop :=
  List.Forall₂ (fun o prop => o = none ↔ prop = TPropCoup.nul) (outcomes tr) (endings tr)

theorem settled_step {tr : List Label} {m m' : Match.State} {e : Label} (h : Together tr m) (hinv : Settled tr)
    (hstep : Match.Step m e m') : Settled (tr ++ [e]) := by
  cases hstep with
  | serverInside e s he hs =>
      cases hs with
      | store t hpc =>
          have hplaced := h.aligned.placed
          simp only [Placed, hpc] at hplaced
          simp only [Settled, outcomes_snoc, endings_snoc]
          exact List.rel_append hinv (.cons (credited_eq_none hplaced.2.2.2) .nil)
      | _ => simpa [Settled, noteEnding, note] using hinv
  | _ => simpa [Settled, noteEnding] using hinv

theorem settled {m₀ m : Match.State} {tr : List Label} (h₀ : Match.Initial m₀) (h : Run Match.Step m₀ tr m) :
    Settled tr := by
  induction h with
  | nil => exact .nil
  | snoc hr hs ih => exact settled_step (together h₀ hr) ih hs

theorem over_eq {a b : View} {out inbox : List Msg} (ha : a.phase = .over) (hb : b.phase = .over)
    (h : InStep asks hears a b out inbox) : a = b := by
  rcases h with ⟨rfl, h⟩ | ⟨rfl, h⟩
  · cases out with
    | nil => exact (Option.some.inj h).symm
    | cons msg out => simp [List.foldlM_cons, asks, hb] at h
  · cases inbox with
    | nil => exact Option.some.inj h
    | cons msg inbox => simp [List.foldlM_cons, hears, ha] at h

def entry {α : Type} (first second : α) : Client.Game → α
  | .game1 => first
  | .game2 => second

/-- When the server has exited and the clients have left their loops, the flags
of a client are the games that the server gave it. -/
theorem flags_eq {tr : List Label} {m : Match.State} {o1 o2 : Option Player} (h : Together tr m)
    (hserver : m.server.pc = .exited) {p : Player} (hclient : (m.client p).pc = .done)
    (hos : outcomes tr = [o1, o2]) (g : Client.Game) :
    (m.client p).win g = decide (entry o1 o2 g = some p) := by
  have hviews := over_eq (by simp [clientView, hclient, opening])
    (by simp [serverView, hserver, between, winsOf, hos, opening]) (h.inStep p)
  have hwins : [(m.client p).winFirstGame, (m.client p).winSecondGame] = winsOf p [o1, o2] := by
    simpa [clientView, hclient, serverView, hserver, between, winsOf, hos, opening] using congrArg View.wins hviews
  obtain ⟨hfirst, hsecond⟩ := List.cons.inj hwins
  cases g with
  | game1 => exact hfirst
  | game2 => exact (List.cons.inj hsecond).1

theorem results_agree {m₀ m : Match.State} {tr : List Label} (h₀ : Match.Initial m₀)
    (h : Run Match.Step m₀ tr m) (hserver : m.server.pc = .exited) (hclient : ∀ p, (m.client p).pc = .done) :
    (∀ p, m.server.game.score p = (m.client p).winFirstGame.toNat + (m.client p).winSecondGame.toNat) ∧
    ∃ prop1 prop2, endings tr = [prop1, prop2] ∧
      ∀ g, ¬ ((m.client .p1).win g = true ∧ (m.client .p2).win g = true) ∧
        ((m.client .p1).win g = false ∧ (m.client .p2).win g = false ↔ entry prop1 prop2 g = .nul) := by
  have hinv := together h₀ h
  have hlength := hinv.aligned.placed
  simp only [Placed, hserver] at hlength
  obtain ⟨o1, o2, hos⟩ := List.length_eq_two.1 hlength
  have hflags (p : Player) (g : Client.Game) := flags_eq hinv hserver (hclient p) hos g
  constructor
  · intro p
    have hfirst : (m.client p).winFirstGame = decide (o1 = some p) := hflags p .game1
    have hsecond : (m.client p).winSecondGame = decide (o2 = some p) := hflags p .game2
    rw [hinv.aligned.scores p, hos, hfirst, hsecond]
    by_cases h1 : o1 = some p <;> by_cases h2 : o2 = some p <;> simp [h1, h2]
  · have hsettled := settled h₀ h
    rw [Settled, hos] at hsettled
    obtain ⟨prop1, rest, hprop1, hrest, hends⟩ := List.forall₂_cons_left_iff.1 hsettled
    obtain ⟨prop2, rest, hprop2, hnil, rfl⟩ := List.forall₂_cons_left_iff.1 hrest
    obtain rfl := List.forall₂_nil_left_iff.1 hnil
    refine ⟨prop1, prop2, hends, fun g => ?_⟩
    have hnul : entry o1 o2 g = none ↔ entry prop1 prop2 g = .nul := by
      cases g
      · exact hprop1
      · exact hprop2
    rw [hflags, hflags, ← hnul]
    cases entry o1 o2 g with
    | none => simp
    | some p => cases p <;> simp

theorem results_agree_shortMatch : ∃ tr m, Run Match.Step kickoff tr m ∧ m.server.pc = .exited ∧
    ∀ p, m.server.game.score p = (m.client p).winFirstGame.toNat + (m.client p).winSecondGame.toNat := by
  obtain ⟨tr, m, ⟨h, hserver, hclient, _⟩, _⟩ := shortMatch
  exact ⟨tr, m, h, hserver, (results_agree kickoff_initial h hserver hclient).1⟩

end YokaiNoMori.Results
