import Mathlib.Algebra.GroupWithZero.Nat
import Mathlib.Data.List.Basic

namespace YokaiNoMori.Runs

variable {S L : Type}

/-- The runs of a labelled step relation from a state, with the trace of
their labels, the latest one last. -/
inductive Run (step : S → L → S → Prop) (s : S) : List L → S → Prop
  | nil : Run step s [] s
  | snoc {tr t e u} (hrun : Run step s tr t) (hstep : step t e u) : Run step s (tr ++ [e]) u

/-- A property of every label of a trace, given the trace before it. -/
def Throughout (good : List L → L → Prop) (tr : List L) : Prop :=
  ∀ before e after, tr = before ++ e :: after → good before e

@[simp] theorem throughout_nil (good : List L → L → Prop) : Throughout good [] := by
  intro before e after h
  simp at h

@[simp] theorem throughout_snoc (good : List L → L → Prop) (tr : List L) (e : L) :
    Throughout good (tr ++ [e]) ↔ Throughout good tr ∧ good tr e := by
  constructor
  · intro h
    refine ⟨?_, h tr e [] rfl⟩
    intro before d after htr
    exact h before d (after ++ [e]) (by simp [htr])
  · rintro ⟨htr, he⟩ before d after hsplit
    rcases List.eq_nil_or_concat after with rfl | ⟨after, c, rfl⟩
    · obtain ⟨rfl, hd⟩ := List.append_inj' hsplit rfl
      obtain rfl : e = d := by simpa using hd
      exact he
    · rw [List.concat_eq_append, ← List.cons_append, ← List.append_assoc] at hsplit
      obtain ⟨rfl, _⟩ := List.append_inj' hsplit rfl
      exact htr before d after rfl

theorem throughout_of_forall {P : L → Prop} {tr : List L} (h : ∀ e ∈ tr, P e) : Throughout (fun _ e => P e) tr := by
  intro before e after htr
  exact h e (by simp [htr])

namespace Run

variable {step : S → L → S → Prop} {s t u : S} {tr tr' : List L}

theorem invariant (h : Run step s tr t) (inv : List L → S → Prop) (hinit : inv [] s)
    (hstep : ∀ tr t e u, inv tr t → step t e u → inv (tr ++ [e]) u) : inv tr t := by
  induction h with
  | nil => exact hinit
  | snoc _ hs ih => exact hstep _ _ _ _ ih hs

theorem throughout {inv : List L → S → Prop} {good : List L → L → Prop} (h : Run step s tr t)
    (hinv : ∀ tr t, Run step s tr t → inv tr t)
    (hgood : ∀ tr t e u, inv tr t → step t e u → good tr e) : Throughout good tr := by
  induction h with
  | nil => exact throughout_nil good
  | snoc hr hs ih => exact (throughout_snoc good _ _).2 ⟨ih, hgood _ _ _ _ (hinv _ _ hr) hs⟩

/-- What each step guarantees as long as its label meets an assumption. -/
theorem assuming {cond good : List L → L → Prop} (h : Run step s tr t) (inv : List L → S → Prop)
    (hcond : Throughout cond tr) (hinit : inv [] s)
    (hstep : ∀ tr t e u, inv tr t → step t e u → cond tr e → good tr e ∧ inv (tr ++ [e]) u) :
    Throughout good tr ∧ inv tr t := by
  induction h with
  | nil => exact ⟨throughout_nil good, hinit⟩
  | snoc _ hs ih =>
      obtain ⟨hbefore, hlast⟩ := (throughout_snoc cond _ _).1 hcond
      obtain ⟨hgood, hinv⟩ := ih hbefore
      obtain ⟨hnext, hinv'⟩ := hstep _ _ _ _ hinv hs hlast
      exact ⟨(throughout_snoc good _ _).2 ⟨hgood, hnext⟩, hinv'⟩

/-- Two properties that agree on every next label, as long as both have held so
far, hold throughout the same runs. -/
theorem throughout_iff {good good' : List L → L → Prop} (h : Run step s tr t)
    (hiff : ∀ tr t e u, Run step s tr t → Throughout good tr → Throughout good' tr → step t e u →
      (good tr e ↔ good' tr e)) : Throughout good tr ↔ Throughout good' tr := by
  induction h with
  | nil => simp only [throughout_nil]
  | snoc hr hs ih =>
      rw [throughout_snoc, throughout_snoc, ← ih]
      apply and_congr_right
      intro hgood
      exact hiff _ _ _ _ hr hgood (ih.1 hgood) hs

/-- A run is no longer than what it started with and what its labels have added
to the work. -/
theorem length_le (work : S → Nat) (added : L → Nat) (hstep : ∀ s e t, step s e t → work t + 1 ≤ work s + added e)
    (h : Run step s tr t) : tr.length + work t ≤ work s + (tr.map added).sum := by
  induction h with
  | nil => simp
  | @snoc tr t e u _ hs ih =>
      have hlast := hstep t e u hs
      rw [List.length_append, List.length_singleton, List.map_append, List.sum_append, List.map_singleton,
        List.sum_singleton]
      omega

theorem single {e : L} (h : step s e t) : Run step s [e] t := snoc nil h

theorem append (h : Run step s tr t) (h' : Run step t tr' u) : Run step s (tr ++ tr') u := by
  induction h' with
  | nil => simpa using h
  | snoc _ hs ih => rw [← List.append_assoc]; exact snoc ih hs

/-- A run of a system that simulates another one label by label. -/
theorem map {S' L' : Type} {step' : S' → L' → S' → Prop} (f : S → S') (g : L → L')
    (hsim : ∀ t e u, step t e u → step' (f t) (g e) (f u)) (h : Run step s tr t) :
    Run step' (f s) (tr.map g) (f t) := by
  induction h with
  | nil => exact nil
  | snoc _ hs ih =>
      rw [List.map_append]
      exact snoc ih (hsim _ _ _ hs)

/-- A run of a system whose steps are steps of another one, or leave it alone. -/
theorem project {S' L' : Type} {step' : S' → L' → S' → Prop} (f : S → S') (g : L → Option L')
    (hproject : ∀ t e u, step t e u → (g e = none ∧ f u = f t) ∨ ∃ d, g e = some d ∧ step' (f t) d (f u))
    (h : Run step s tr t) : Run step' (f s) (tr.filterMap g) (f t) := by
  induction h with
  | nil => exact nil
  | @snoc tr t e u _ hs ih =>
      rw [List.filterMap_append]
      rcases hproject t e u hs with ⟨hnone, hsame⟩ | ⟨d, hsome, hstep⟩
      · rw [List.filterMap_cons_none hnone, List.filterMap_nil, List.append_nil, hsame]
        exact ih
      · rw [List.filterMap_cons_some hsome, List.filterMap_nil]
        exact snoc ih hstep

theorem of_nil (h : Run step s [] t) : t = s := by
  generalize htrace : [] = trace at h
  cases h with
  | nil => rfl
  | snoc hr hs => simp at htrace

theorem uncons {e : L} (h : Run step s (e :: tr) u) : ∃ t, step s e t ∧ Run step t tr u := by
  generalize htrace : e :: tr = trace at h
  induction h generalizing tr with
  | nil => simp at htrace
  | @snoc trace v d u hr hs ih =>
      cases trace with
      | nil =>
          obtain ⟨rfl, rfl⟩ : e = d ∧ tr = [] := by simpa using htrace
          obtain rfl := hr.of_nil
          exact ⟨u, hs, nil⟩
      | cons c rest =>
          obtain ⟨rfl, rfl⟩ : e = c ∧ tr = rest ++ [d] := by simpa using htrace
          obtain ⟨w, hw, hrun⟩ := ih rfl
          exact ⟨w, hw, snoc hrun hs⟩

theorem split (h : Run step s (tr ++ tr') u) : ∃ t, Run step s tr t ∧ Run step t tr' u := by
  induction tr generalizing s with
  | nil => exact ⟨s, nil, h⟩
  | cons e tr ih =>
      obtain ⟨v, hv, hrest⟩ := h.uncons
      obtain ⟨t, ht, hrun⟩ := ih hrest
      exact ⟨t, (single hv).append ht, hrun⟩

end Run

end YokaiNoMori.Runs
