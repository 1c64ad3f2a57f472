import Mathlib.Data.List.Perm.Basic
import Mathlib.Data.List.Pairwise

namespace YokaiNoMori.Search

variable {α β γ : Type}

/-- The answers of a query in backtracking order. After the last one the
search either fails or, when `raised` is set, ends in an exception. -/
structure Answers (α : Type) where
  found : List α
  raised : Bool

def ofList (as : List α) : Answers α := ⟨as, false⟩

def first (m : Answers α) : Option α := m.found.head?

/-- Disjunction: the second goal is only reached when the first one fails. -/
def orElse (m n : Answers α) : Answers α :=
  if m.raised then m else ⟨m.found ++ n.found, n.raised⟩

def conjList (f : α → Answers β) (raised : Bool) : List α → Answers β
  | [] => ⟨[], raised⟩
  | a :: as => orElse (f a) (conjList f raised as)

def conj (m : Answers α) (f : α → Answers β) : Answers β := conjList f m.raised m.found

theorem first_orElse {m n : Answers α} {a : α} (h : first m = some a) : first (orElse m n) = some a := by
  rw [orElse]
  split
  · exact h
  · rcases m with ⟨found, raised⟩
    cases found with
    | nil => simp [first] at h
    | cons b bs => simpa [first] using h

theorem first_conj {m : Answers α} {f : α → Answers β} {a : α} {b : β}
    (hm : first m = some a) (hf : first (f a) = some b) : first (conj m f) = some b := by
  rcases m with ⟨found, raised⟩
  cases found with
  | nil => simp [first] at hm
  | cons c cs =>
      have hc : c = a := by simpa [first] using hm
      subst hc
      exact first_orElse hf

/-- `select/3` with a pattern: every matching element with the list that
remains without it, from left to right. -/
def select (p : α → Bool) : List α → List (α × List α)
  | [] => []
  | a :: as => (if p a then [(a, as)] else []) ++ (select p as).map (fun q => (q.1, a :: q.2))

theorem mem_select_cons {p : α → Bool} {a b : α} {as bs : List α} :
    (b, bs) ∈ select p (a :: as) ↔
      (p a = true ∧ b = a ∧ bs = as) ∨ ∃ cs, (b, cs) ∈ select p as ∧ bs = a :: cs := by
  by_cases ha : p a <;> simp [select, ha, eq_comm, and_comm]

theorem select_matches {p : α → Bool} {a : α} {as bs : List α} (h : (a, bs) ∈ select p as) :
    p a = true := by
  induction as generalizing bs with
  | nil => simp [select] at h
  | cons c cs ih =>
      rcases mem_select_cons.1 h with ⟨hp, rfl, _⟩ | ⟨ds, hd, _⟩
      · exact hp
      · exact ih hd

theorem select_perm {p : α → Bool} {a : α} {as bs : List α} (h : (a, bs) ∈ select p as) :
    as.Perm (a :: bs) := by
  induction as generalizing bs with
  | nil => simp [select] at h
  | cons c cs ih =>
      rcases mem_select_cons.1 h with ⟨_, rfl, rfl⟩ | ⟨ds, hd, rfl⟩
      · exact List.Perm.refl _
      · exact ((ih hd).cons c).trans (List.Perm.swap a c ds)

theorem select_mem {p : α → Bool} {a : α} {as bs : List α} (h : (a, bs) ∈ select p as) : a ∈ as :=
  (select_perm h).mem_iff.2 List.mem_cons_self

theorem select_eq_nil {p : α → Bool} {as : List α} (h : ∀ a ∈ as, p a = false) : select p as = [] := by
  induction as with
  | nil => rfl
  | cons a as ih => simp [select, h a (by simp), ih (fun b hb => h b (by simp [hb]))]

theorem select_ne_nil {p : α → Bool} {a : α} {as : List α} (ha : a ∈ as) (hp : p a = true) :
    select p as ≠ [] := by
  induction as with
  | nil => simp at ha
  | cons b bs ih =>
      by_cases hb : p b
      · simp [select, hb]
      · rcases List.mem_cons.1 ha with rfl | hm
        · exact absurd hp hb
        · simpa [select, hb] using ih hm

/-- A narrower pattern that at most one element matches has exactly one
answer, the one the wider pattern gives for that element. -/
theorem select_unique {p q : α → Bool} {a : α} {as bs : List α}
    (hd : as.Pairwise (fun b c => ¬ (q b = true ∧ q c = true)))
    (h : (a, bs) ∈ select p as) (hq : q a = true) : select q as = [(a, bs)] := by
  induction as generalizing bs with
  | nil => simp [select] at h
  | cons c cs ih =>
      obtain ⟨hc, hcs⟩ := List.pairwise_cons.1 hd
      rcases mem_select_cons.1 h with ⟨_, rfl, rfl⟩ | ⟨ds, hd', rfl⟩
      · have hn : select q bs = [] := by
          apply select_eq_nil
          intro b hb
          have := hc b hb
          simp_all
        simp [select, hq, hn]
      · have hac : a ∈ cs := (select_perm hd').mem_iff.2 (by simp)
        have hqc : q c = false := by
          have := hc a hac
          simp_all
        simp [select, hqc, ih hcs hd']

theorem exists_select {p : α → Bool} {a : α} {as : List α} (ha : a ∈ as) (hp : p a = true) :
    ∃ bs, (a, bs) ∈ select p as := by
  induction as with
  | nil => simp at ha
  | cons b bs ih =>
      rcases List.mem_cons.1 ha with rfl | hm
      · exact ⟨bs, mem_select_cons.2 (.inl ⟨hp, rfl, rfl⟩)⟩
      · obtain ⟨cs, hcs⟩ := ih hm
        exact ⟨b :: cs, mem_select_cons.2 (.inr ⟨cs, hcs, rfl⟩)⟩

theorem select_map (p : β → Bool) (f : α → β) (as : List α) :
    select p (as.map f) = (select (fun a => p (f a)) as).map (fun q => (f q.1, q.2.map f)) := by
  induction as with
  | nil => rfl
  | cons a as ih =>
      rw [List.map_cons, select, select, ih, List.map_append, List.map_map, List.map_map]
      congr 1
      split <;> rfl

theorem select_fst (p : α → Bool) (as : List α) : (select p as).map Prod.fst = as.filter p := by
  induction as with
  | nil => rfl
  | cons a as ih =>
      have htail : ((select p as).map fun q => (q.1, a :: q.2)).map Prod.fst = as.filter p := by
        rw [List.map_map]
        exact ih
      by_cases ha : p a <;> simp only [select, ha, if_true, if_false, Bool.false_eq_true,
        List.map_append, htail, List.map_cons, List.map_nil, List.filter_cons] <;> rfl

theorem select_map_fst (p : α → Bool) (g : α → β) (as : List α) :
    (select p as).map (fun q => g q.1) = (as.filter p).map g := by
  rw [← select_fst, List.map_map]
  rfl

/-- When an empty first block leaves every block empty, the first answer of a
concatenation is the one of its first block. -/
theorem head_flatMap_cons {f : α → List β} {a : α} {as : List α} {b : β}
    (hnil : f a = [] → ∀ c ∈ as, f c = []) (h : ((a :: as).flatMap f).head? = some b) :
    (f a).head? = some b := by
  rw [List.flatMap_cons] at h
  cases hf : f a with
  | nil =>
      have hrest : as.flatMap f = [] := List.flatMap_eq_nil_iff.2 (hnil hf)
      rw [hf, hrest] at h
      cases h
  | cons c cs =>
      rw [hf] at h
      exact h

section Blocks

variable {κ : Type} {f : α → List β} {key : β → κ} {block : α → κ} {as : List α}

theorem flatMap_keys_sublist (hkey : ∀ a ∈ as, ∀ b ∈ f a, key b = block a)
    (hone : ∀ a ∈ as, (f a).length ≤ 1) : ((as.flatMap f).map key).Sublist (as.map block) := by
  induction as with
  | nil => exact List.Sublist.refl _
  | cons a as ih =>
      have ih := ih (fun b hb => hkey b (by simp [hb])) (fun b hb => hone b (by simp [hb]))
      rw [List.flatMap_cons, List.map_append, List.map_cons]
      cases hf : f a with
      | nil => exact ih.cons _
      | cons b bs =>
          have hbs : bs = [] := by
            have := hone a (by simp)
            rw [hf, List.length_cons] at this
            exact List.eq_nil_of_length_eq_zero (by omega)
          have hb : key b = block a := hkey a (by simp) b (by simp [hf])
          rw [hbs, List.map_cons, List.map_nil, hb]
          exact ih.cons_cons _

/-- When the blocks of a concatenation have different keys, filtering by a key
gives back its block. -/
theorem filter_flatMap_block [DecidableEq κ] (hkey : ∀ a ∈ as, ∀ b ∈ f a, key b = block a)
    (hd : (as.map block).Nodup) {a : α} (ha : a ∈ as) :
    (as.flatMap f).filter (fun b => decide (key b = block a)) = f a := by
  induction as with
  | nil => simp at ha
  | cons c as ih =>
      rw [List.map_cons, List.nodup_cons] at hd
      have htail : ∀ e ∈ as, ∀ b ∈ f e, key b = block e := fun e he => hkey e (by simp [he])
      rw [List.flatMap_cons, List.filter_append]
      rcases List.mem_cons.1 ha with rfl | hm
      · have hhead : (f a).filter (fun b => decide (key b = block a)) = f a := by
          apply List.filter_eq_self.2
          intro b hb
          simpa using hkey a (by simp) b hb
        have hrest : (as.flatMap f).filter (fun b => decide (key b = block a)) = [] := by
          apply List.filter_eq_nil_iff.2
          intro b hb
          obtain ⟨e, he, hbe⟩ := List.mem_flatMap.1 hb
          have hne : block e ≠ block a := fun h => hd.1 (by rw [← h]; exact List.mem_map_of_mem he)
          simpa [htail e he b hbe] using hne
        rw [hhead, hrest, List.append_nil]
      · have hhead : (f c).filter (fun b => decide (key b = block a)) = [] := by
          apply List.filter_eq_nil_iff.2
          intro b hb
          have hne : block c ≠ block a := fun h => hd.1 (by rw [h]; exact List.mem_map_of_mem hm)
          simpa [hkey c (by simp) b hb] using hne
        rw [hhead, List.nil_append]
        exact ih htail hd.2 hm

end Blocks

def firstMax (key : α → Int) : α → List α → α
  | b, [] => b
  | b, a :: as => if key a > key b then firstMax key a as else firstMax key b as

theorem firstMax_append (key : α → Int) (b : α) (as bs : List α) :
    firstMax key b (as ++ bs) = firstMax key (firstMax key b as) bs := by
  induction as generalizing b with
  | nil => rfl
  | cons a as ih =>
      simp only [List.cons_append, firstMax]
      split <;> exact ih _

theorem firstMax_of_le (key : α → Int) (b : α) (as : List α) (h : ∀ a ∈ as, key a ≤ key b) :
    firstMax key b as = b := by
  induction as with
  | nil => rfl
  | cons a as ih =>
      have ha : ¬ key a > key b := by have := h a (by simp); omega
      simp only [firstMax, ha, if_false]
      exact ih (fun c hc => h c (by simp [hc]))

theorem firstMax_block (key : α → Int) (b : α) (g : List α) (hg : ∀ x ∈ g, ∀ y ∈ g, key x = key y) :
    firstMax key b g = b ∨ g.head? = some (firstMax key b g) := by
  cases g with
  | nil => exact .inl rfl
  | cons a as =>
      have ha : ∀ c ∈ as, key c ≤ key a := fun c hc => Int.le_of_eq (hg c (by simp [hc]) a (by simp))
      rw [firstMax]
      split
      · rw [firstMax_of_le key a as ha]
        exact .inr rfl
      · left
        apply firstMax_of_le
        intro c hc
        have := ha c hc
        omega

theorem firstMax_blocks (key : α → Int) (b : α) (gs : List (List α))
    (hg : ∀ g ∈ gs, ∀ x ∈ g, ∀ y ∈ g, key x = key y) :
    firstMax key b gs.flatten = b ∨ ∃ g ∈ gs, g.head? = some (firstMax key b gs.flatten) := by
  induction gs generalizing b with
  | nil => exact .inl rfl
  | cons g gs ih =>
      rw [List.flatten_cons, firstMax_append]
      have hgs : ∀ h ∈ gs, ∀ x ∈ h, ∀ y ∈ h, key x = key y := fun h hh => hg h (by simp [hh])
      rcases ih (firstMax key b g) hgs with h | ⟨h, hh, he⟩
      · rw [h]
        rcases firstMax_block key b g (hg g (by simp)) with hb | hb
        · exact .inl hb
        · exact .inr ⟨g, by simp, hb⟩
      · exact .inr ⟨h, by simp [hh], he⟩

/-- When the keys are constant on every block of a concatenation, the earliest
greatest element is the head of a block: later variants never win. -/
theorem firstMax_head (key : α → Int) {b : α} {as : List α} (gs : List (List α))
    (hg : ∀ g ∈ gs, ∀ x ∈ g, ∀ y ∈ g, key x = key y) (hgs : gs.flatten = b :: as) :
    ∃ g ∈ gs, g.head? = some (firstMax key b as) := by
  have hb : firstMax key b gs.flatten = firstMax key b as := by
    rw [hgs]; simp [firstMax]
  have hhead : ∃ g ∈ gs, g.head? = some b := by
    clear hg hb
    induction gs with
    | nil => simp at hgs
    | cons g gs ih =>
        cases g with
        | nil =>
            obtain ⟨g, hg, hh⟩ := ih (by simpa using hgs)
            exact ⟨g, by simp [hg], hh⟩
        | cons c cs =>
            refine ⟨c :: cs, by simp, ?_⟩
            simp only [List.flatten_cons, List.cons_append, List.cons.injEq] at hgs
            simp [hgs.1]
  rcases firstMax_blocks key b gs hg with h | h
  · rw [← hb, h]; exact hhead
  · rwa [hb] at h

theorem firstMax_congr {key key' : α → Int} {b : α} {as : List α} (h : ∀ c ∈ b :: as, key c = key' c) :
    firstMax key b as = firstMax key' b as := by
  induction as generalizing b with
  | nil => rfl
  | cons a as ih =>
      have ha := h a (by simp)
      have hb := h b (by simp)
      have hrest : ∀ c ∈ as, key c = key' c := fun c hc => h c (by simp [hc])
      rw [firstMax, firstMax, ha, hb]
      split
      · exact ih (List.forall_mem_cons.2 ⟨ha, hrest⟩)
      · exact ih (List.forall_mem_cons.2 ⟨hb, hrest⟩)

/-- The element found is the earliest of the greatest: everything before it is
smaller, and nothing after it is greater. -/
theorem firstMax_split (key : α → Int) (b : α) (as : List α) :
    ∃ before after, b :: as = before ++ firstMax key b as :: after ∧
      (∀ c ∈ before, key c < key (firstMax key b as)) ∧ ∀ c ∈ after, key c ≤ key (firstMax key b as) := by
  induction as generalizing b with
  | nil => exact ⟨[], [], rfl, by simp, by simp⟩
  | cons a as ih =>
      rw [firstMax]
      split
      · rename_i hab
        obtain ⟨before, after, heq, hbefore, hafter⟩ := ih a
        generalize firstMax key a as = best at heq hbefore hafter ⊢
        have ha : key a ≤ key best := by
          have hmem : a ∈ before ++ best :: after := by rw [← heq]; exact List.mem_cons_self
          rcases List.mem_append.1 hmem with h | h
          · exact Int.le_of_lt (hbefore a h)
          · rcases List.mem_cons.1 h with rfl | h
            · exact Int.le_refl _
            · exact hafter a h
        refine ⟨b :: before, after, by rw [heq, List.cons_append], fun c hc => ?_, hafter⟩
        rcases List.mem_cons.1 hc with rfl | hc
        · omega
        · exact hbefore c hc
      · rename_i hab
        obtain ⟨before, after, heq, hbefore, hafter⟩ := ih b
        generalize firstMax key b as = best at heq hbefore hafter ⊢
        cases before with
        | nil =>
            rw [List.nil_append, List.cons.injEq] at heq
            obtain ⟨rfl, rfl⟩ := heq
            refine ⟨[], a :: as, rfl, by simp, fun c hc => ?_⟩
            rcases List.mem_cons.1 hc with rfl | hc
            · omega
            · exact hafter c hc
        | cons d before =>
            rw [List.cons_append, List.cons.injEq] at heq
            obtain ⟨rfl, rfl⟩ := heq
            have hb := hbefore b List.mem_cons_self
            refine ⟨b :: a :: before, after, rfl, fun c hc => ?_, hafter⟩
            rcases List.mem_cons.1 hc with rfl | hc
            · exact hb
            · rcases List.mem_cons.1 hc with rfl | hc
              · omega
              · exact hbefore c (List.mem_cons_of_mem _ hc)

theorem firstMax_mem (key : α → Int) (b : α) (as : List α) : firstMax key b as ∈ b :: as := by
  obtain ⟨before, after, heq, _⟩ := firstMax_split key b as
  rw [heq]
  exact List.mem_append_right _ List.mem_cons_self

theorem le_firstMax (key : α → Int) {b c : α} {as : List α} (hc : c ∈ b :: as) :
    key c ≤ key (firstMax key b as) := by
  obtain ⟨before, after, heq, hbefore, hafter⟩ := firstMax_split key b as
  rw [heq] at hc
  rcases List.mem_append.1 hc with h | h
  · exact Int.le_of_lt (hbefore c h)
  · rcases List.mem_cons.1 h with h | h
    · exact Int.le_of_eq (congrArg key h)
    · exact hafter c h

theorem firstMax_eq {key : α → Int} {b c : α} {as before after : List α}
    (heq : b :: as = before ++ c :: after) (hbefore : ∀ d ∈ before, key d < key c)
    (hafter : ∀ d ∈ after, key d ≤ key c) : firstMax key b as = c := by
  cases before with
  | nil =>
      rw [List.nil_append, List.cons.injEq] at heq
      obtain ⟨rfl, rfl⟩ := heq
      exact firstMax_of_le key b as hafter
  | cons d before =>
      rw [List.cons_append, List.cons.injEq] at heq
      obtain ⟨rfl, rfl⟩ := heq
      have hlt : key c > key (firstMax key b before) := hbefore _ (firstMax_mem key b before)
      rw [firstMax_append, firstMax, if_pos hlt]
      exact firstMax_of_le key c after hafter

/-- The greatest key is not reached before the element found. -/
theorem lt_of_before {key : α → Int} {b c : α} {as before after : List α}
    (heq : b :: as = before ++ c :: after) (hkey : key c = key (firstMax key b as))
    (hbest : firstMax key b as ∉ before) : ∀ d ∈ before, key d < key c := by
  obtain ⟨pre, post, hsplit, hpre, _⟩ := firstMax_split key b as
  generalize firstMax key b as = best at hkey hbest hsplit hpre
  rw [hkey]
  rcases List.append_eq_append_iff.1 (heq.symm.trans hsplit) with ⟨cs, hcs, _⟩ | ⟨cs, hcs, hrest⟩
  · intro d hd
    exact hpre d (by rw [hcs]; exact List.mem_append_left _ hd)
  · cases cs with
    | nil =>
        rw [List.append_nil] at hcs
        rw [hcs]
        exact hpre
    | cons e cs =>
        rw [List.cons_append, List.cons.injEq] at hrest
        exact absurd (by rw [hcs, hrest.1]; simp) hbest

end YokaiNoMori.Search
