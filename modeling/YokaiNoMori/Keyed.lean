import Mathlib.Data.List.Pairwise
import Mathlib.Data.List.Perm.Basic
import Mathlib.Logic.Function.Basic

namespace YokaiNoMori.Keyed

variable {α κ : Type} {key : α → κ} {xs ys : List α} {a : α} {k : κ}

def Distinct (key : α → κ) (xs : List α) : Prop := xs.Pairwise fun a b => key a ≠ key b

theorem Distinct.perm (h : Distinct key xs) (hp : xs.Perm ys) : Distinct key ys :=
  hp.pairwise h fun hne => hne.symm

theorem Distinct.eq_of_key (h : Distinct key xs) {b : α} (ha : a ∈ xs) (hb : b ∈ xs) (hk : key a = key b) : a = b := by
  by_contra hne
  have hsymm : Std.Symm (fun a b : α => key a ≠ key b) := ⟨fun _ _ h => h.symm⟩
  exact List.Pairwise.forall h ha hb hne hk

variable [DecidableEq κ]

/-- A list read as a partial function of the key of its elements. -/
def entry (key : α → κ) (xs : List α) (k : κ) : Option α := xs.find? fun a => key a = k

theorem entry_cons (a : α) (xs : List α) :
    entry key (a :: xs) = Function.update (entry key xs) (key a) (some a) := by
  funext k
  by_cases hk : key a = k
  · subst hk
    rw [Function.update_self]
    exact List.find?_cons_of_pos (decide_eq_true rfl)
  · rw [Function.update_of_ne (Ne.symm hk)]
    exact List.find?_cons_of_neg (decide_eq_false hk ▸ Bool.false_ne_true)

theorem entry_eq_none : entry key xs k = none ↔ ∀ a ∈ xs, key a ≠ k := by
  simp [entry]

theorem entry_mem (h : entry key xs k = some a) : a ∈ xs ∧ key a = k := by
  obtain ⟨hkey, front, back, hxs, _⟩ := List.find?_eq_some_iff_append.1 h
  exact ⟨hxs ▸ List.mem_append_right front List.mem_cons_self, of_decide_eq_true hkey⟩

theorem entry_eq_some (h : Distinct key xs) : entry key xs k = some a ↔ a ∈ xs ∧ key a = k := by
  refine ⟨entry_mem, ?_⟩
  rintro ⟨ha, rfl⟩
  cases hb : entry key xs (key a) with
  | none => exact absurd rfl (entry_eq_none.1 hb a ha)
  | some b =>
      obtain ⟨hmem, hkey⟩ := entry_mem hb
      rw [h.eq_of_key hmem ha hkey]

theorem entry_perm (h : Distinct key xs) (hp : xs.Perm ys) : entry key xs = entry key ys := by
  funext k
  apply Option.ext
  intro a
  rw [entry_eq_some h, entry_eq_some (h.perm hp), hp.mem_iff]

/-- Taking an element out leaves its key without one. -/
theorem entry_rest (h : Distinct key xs) (hp : xs.Perm (a :: ys)) :
    entry key ys = Function.update (entry key xs) (key a) none := by
  have hfresh : entry key ys (key a) = none := by
    rw [entry_eq_none]
    intro b hb
    exact ((List.pairwise_cons.1 (h.perm hp)).1 b hb).symm
  rw [entry_perm h hp, entry_cons, Function.update_idem, ← hfresh, Function.update_eq_self]

/-- One element replaces another one. -/
theorem entry_replace (h : Distinct key xs) (hp : xs.Perm (a :: ys)) (b : α) :
    entry key (b :: ys) = Function.update (Function.update (entry key xs) (key a) none) (key b) (some b) := by
  rw [entry_cons, entry_rest h hp]

/-- One element replaces two, and takes the key of the second one. -/
theorem entry_replace_two {b : α} {zs : List α} (h : Distinct key xs) (hp : xs.Perm (a :: ys))
    (hp' : ys.Perm (b :: zs)) {c : α} (hk : key b = key c) :
    entry key (c :: zs) = Function.update (Function.update (entry key xs) (key a) none) (key c) (some c) := by
  have hys : Distinct key ys := (List.pairwise_cons.1 (h.perm hp)).2
  rw [entry_cons, entry_rest hys hp', entry_rest h hp, hk, Function.update_idem]

end YokaiNoMori.Keyed
