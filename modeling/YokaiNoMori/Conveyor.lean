import YokaiNoMori.Runs

namespace YokaiNoMori.Conveyor

open Runs

variable {S L X : Type} {ok : X → Prop} {step : S → L → S → Prop}

/-- Part of a system that holds items and hands them on in order: with what a
step takes in, what was held is what the step gives away and what is held then.
Nothing is promised about items that are not `ok`. -/
def Conveys (ok : X → Prop) (step : S → L → S → Prop) (held : S → List X → Prop) (takes gives : L → List X) : Prop :=
  ∀ s e t xs, step s e t → held s xs → (∀ x ∈ xs ++ takes e, ok x) →
    ∃ ys, held t ys ∧ xs ++ takes e = gives e ++ ys

/-- Two parts in a row: what stands in the second one is ahead. -/
def Series (held held' : S → List X → Prop) (s : S) (xs : List X) : Prop :=
  ∃ front back, held' s front ∧ held s back ∧ xs = front ++ back

theorem Conveys.series {held held' : S → List X → Prop} {takes between gives : L → List X}
    (h : Conveys ok step held takes between) (h' : Conveys ok step held' between gives) :
    Conveys ok step (Series held held') takes gives := by
  rintro s e t xs hstep ⟨front, back, hfront, hback, rfl⟩ hok
  rw [List.append_assoc] at hok
  obtain ⟨back', hback', hmoved⟩ := h s e t back hstep hback fun x hx => hok x (List.mem_append_right front hx)
  rw [hmoved, ← List.append_assoc] at hok
  obtain ⟨front', hfront', hmoved'⟩ :=
    h' s e t front hstep hfront fun x hx => hok x (List.mem_append_left back' hx)
  refine ⟨front' ++ back', ⟨front', back', hfront', hback', rfl⟩, ?_⟩
  rw [List.append_assoc, hmoved, ← List.append_assoc, hmoved', List.append_assoc]

/-- Over a run nothing is lost, duplicated or overtaken. -/
theorem Conveys.run {held : S → List X → Prop} {takes gives : L → List X} {s t : S} {tr : List L} {xs : List X}
    (h : Conveys ok step held takes gives) (hrun : Run step s tr t) (hheld : held s xs)
    (hok : ∀ x ∈ xs ++ tr.flatMap takes, ok x) :
    ∃ ys, held t ys ∧ xs ++ tr.flatMap takes = tr.flatMap gives ++ ys := by
  induction hrun with
  | nil => exact ⟨xs, hheld, List.append_nil xs⟩
  | @snoc tr t e u _ hstep ih =>
      rw [List.flatMap_append, List.flatMap_singleton, ← List.append_assoc] at hok
      obtain ⟨ys, hys, hsofar⟩ := ih fun x hx => hok x (List.mem_append_left _ hx)
      rw [hsofar, List.append_assoc] at hok
      obtain ⟨zs, hzs, hmoved⟩ := h t e u ys hstep hys fun x hx => hok x (List.mem_append_right _ hx)
      refine ⟨zs, hzs, ?_⟩
      rw [List.flatMap_append, List.flatMap_append, List.flatMap_singleton, List.flatMap_singleton,
        ← List.append_assoc, hsofar, List.append_assoc, hmoved, List.append_assoc]

/-- A part that is only looked at through a function of the state. -/
theorem Conveys.of_eq {f : S → List X} {takes gives : L → List X}
    (h : ∀ s e t, step s e t → (∀ x ∈ f s ++ takes e, ok x) → f s ++ takes e = gives e ++ f t) :
    Conveys ok step (fun s xs => xs = f s) takes gives := by
  rintro s e t _ hstep rfl hok
  exact ⟨f t, rfl, h s e t hstep hok⟩

theorem Conveys.restrict {step' : S → L → S → Prop} {held : S → List X → Prop} {takes gives : L → List X}
    (h : Conveys ok step held takes gives) (hsub : ∀ s e t, step' s e t → step s e t) :
    Conveys ok step' held takes gives :=
  fun s e t xs hstep => h s e t xs (hsub s e t hstep)

/-- A part of a component is a part of every system that contains it. -/
theorem Conveys.lift {S' L' : Type} {step' : S' → L' → S' → Prop} {held : S' → List X → Prop}
    {takes gives : L' → List X} (h : Conveys ok step' held takes gives) (f : S → S') (g : L → Option L')
    (hproject : ∀ s e t, step s e t → (g e = none ∧ f t = f s) ∨ ∃ d, g e = some d ∧ step' (f s) d (f t)) :
    Conveys ok step (fun s => held (f s)) (fun e => (g e).elim [] takes) (fun e => (g e).elim [] gives) := by
  intro s e t xs hstep hheld hok
  rcases hproject s e t hstep with ⟨hnone, hsame⟩ | ⟨d, hsome, hstep'⟩
  · refine ⟨xs, ?_, ?_⟩
    · dsimp only
      rw [hsame]
      exact hheld
    · simp only [hnone, Option.elim_none, List.append_nil, List.nil_append]
  · simp only [hsome, Option.elim_some] at hok ⊢
    exact h (f s) d (f t) xs hstep' hheld hok

end YokaiNoMori.Conveyor
