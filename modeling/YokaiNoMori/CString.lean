import Mathlib.Data.List.TakeWhile

namespace YokaiNoMori.CString

variable {α : Type} [DecidableEq α]

/-- An access outside the bounds of its array, at the given index. -/
inductive Fault
  | read (i : Nat)
  | write (i : Nat)
deriving DecidableEq

/-- `while ((dst[i] = src[i]) != nul) i++;` where the list is `src` from `i` on. -/
def copyFrom (nul : α) : Nat → List α → List α → Except Fault (List α)
  | i, [], _ => .error (.read i)
  | i, c :: rest, dst =>
      if i < dst.length then
        if c = nul then .ok (dst.set i c) else copyFrom nul (i + 1) rest (dst.set i c)
      else .error (.write i)

def strcpy (nul : α) (dst src : List α) : Except Fault (List α) := copyFrom nul 0 src dst

def text (nul : α) (bytes : List α) : List α := bytes.takeWhile (fun c => c ≠ nul)

/-- The destination after the copy: the string, its terminator and what stood behind. -/
def overwrite (nul : α) (dst src : List α) : List α :=
  text nul src ++ nul :: dst.drop ((text nul src).length + 1)

omit [DecidableEq α] in
theorem set_written (written free : List α) (c d : α) :
    (written ++ d :: free).set written.length c = written ++ [c] ++ free := by
  rw [List.set_append_right _ _ (Nat.le_refl _), Nat.sub_self, List.set_cons_zero, List.append_assoc]
  rfl

omit [DecidableEq α] in
theorem length_snoc (written : List α) (c : α) : (written ++ [c]).length = written.length + 1 := by simp

omit [DecidableEq α] in
theorem lt_length_append (written free : List α) (d : α) :
    written.length < (written ++ d :: free).length := by simp

theorem copyFrom_cons {nul c : α} (hc : c ≠ nul) (rest written free : List α) (d : α) :
    copyFrom nul written.length (c :: rest) (written ++ d :: free) =
      copyFrom nul (written ++ [c]).length rest (written ++ [c] ++ free) := by
  rw [copyFrom, if_pos (lt_length_append written free d), if_neg hc, set_written, length_snoc]

theorem copyFrom_text {nul : α} {pre : List α} (hpre : nul ∉ pre) (post written free : List α)
    (hlen : pre.length < free.length) :
    copyFrom nul written.length (pre ++ nul :: post) (written ++ free) =
      .ok (written ++ pre ++ nul :: free.drop (pre.length + 1)) := by
  induction pre generalizing written free with
  | nil =>
      cases free with
      | nil => simp at hlen
      | cons d free =>
          rw [List.nil_append, copyFrom, if_pos (lt_length_append written free d), if_pos rfl, set_written]
          simp
  | cons c pre ih =>
      cases free with
      | nil => simp at hlen
      | cons d free =>
          obtain ⟨hc, hpre⟩ := List.ne_and_not_mem_of_not_mem_cons hpre
          rw [List.cons_append, copyFrom_cons (Ne.symm hc), ih hpre _ _ (Nat.lt_of_succ_lt_succ hlen)]
          simp

theorem copyFrom_read {nul : α} {rest : List α} (hrest : nul ∉ rest) (written free : List α)
    (hlen : rest.length ≤ free.length) :
    copyFrom nul written.length rest (written ++ free) = .error (.read (written.length + rest.length)) := by
  induction rest generalizing written free with
  | nil => rfl
  | cons c rest ih =>
      cases free with
      | nil => simp at hlen
      | cons d free =>
          obtain ⟨hc, hrest⟩ := List.ne_and_not_mem_of_not_mem_cons hrest
          rw [copyFrom_cons (Ne.symm hc), ih hrest _ _ (Nat.le_of_succ_le_succ hlen), length_snoc,
            List.length_cons, Nat.add_right_comm, Nat.add_assoc]

theorem copyFrom_write {nul : α} {rest : List α} (written free : List α)
    (hrest : nul ∉ rest.take free.length) (hlen : free.length < rest.length) :
    copyFrom nul written.length rest (written ++ free) = .error (.write (written.length + free.length)) := by
  induction rest generalizing written free with
  | nil => simp at hlen
  | cons c rest ih =>
      cases free with
      | nil => simp [copyFrom]
      | cons d free =>
          rw [List.length_cons, List.take_succ_cons] at hrest
          obtain ⟨hc, hrest⟩ := List.ne_and_not_mem_of_not_mem_cons hrest
          rw [copyFrom_cons (Ne.symm hc), ih _ _ hrest (Nat.lt_of_succ_lt_succ hlen), length_snoc,
            List.length_cons, Nat.add_right_comm, Nat.add_assoc]

theorem exists_text {nul : α} {src : List α} (h : nul ∈ src) :
    ∃ post, src = text nul src ++ nul :: post := by
  induction src with
  | nil => cases h
  | cons c src ih =>
      by_cases hc : c = nul
      · subst hc
        exact ⟨src, by simp [text]⟩
      · have hmem : nul ∈ src := (List.mem_cons.1 h).resolve_left (Ne.symm hc)
        obtain ⟨post, hpost⟩ := ih hmem
        refine ⟨post, ?_⟩
        rw [text, List.takeWhile_cons_of_pos (by simpa using hc), List.cons_append]
        exact congrArg (c :: ·) hpost

theorem not_mem_text (nul : α) (src : List α) : nul ∉ text nul src := by
  intro h
  simpa using List.mem_takeWhile_imp h

theorem text_append {nul : α} {pre : List α} (hpre : nul ∉ pre) (post : List α) :
    text nul (pre ++ nul :: post) = pre := by
  induction pre with
  | nil => simp [text]
  | cons c pre ih =>
      obtain ⟨hc, hpre⟩ := List.ne_and_not_mem_of_not_mem_cons hpre
      have hne : c ≠ nul := Ne.symm hc
      rw [List.cons_append, text, List.takeWhile_cons_of_pos (by simpa using hne)]
      exact congrArg (c :: ·) (ih hpre)

theorem length_text_lt {nul : α} {src : List α} {n : Nat} (h : nul ∈ src.take n) :
    (text nul src).length < n := by
  obtain ⟨post, hpost⟩ := exists_text (List.mem_of_mem_take h)
  by_contra hge
  rw [hpost, List.take_append_of_le_length (Nat.le_of_not_lt hge)] at h
  exact not_mem_text nul src (List.mem_of_mem_take h)

theorem nul_mem_overwrite (nul : α) (dst src : List α) : nul ∈ overwrite nul dst src := by
  simp [overwrite]

theorem text_overwrite (nul : α) (dst src : List α) : text nul (overwrite nul dst src) = text nul src :=
  text_append (not_mem_text nul src) _

theorem length_overwrite {nul : α} {dst src : List α} (h : nul ∈ src.take dst.length) :
    (overwrite nul dst src).length = dst.length := by
  have hlen := length_text_lt h
  simp only [overwrite, List.length_append, List.length_cons, List.length_drop]
  omega

theorem strcpy_ok {nul : α} {dst src : List α} (h : nul ∈ src.take dst.length) :
    strcpy nul dst src = .ok (overwrite nul dst src) := by
  obtain ⟨post, hpost⟩ := exists_text (List.mem_of_mem_take h)
  have hcopy := copyFrom_text (not_mem_text nul src) post [] dst (length_text_lt h)
  rw [← hpost] at hcopy
  exact hcopy

/-- A string without a zero in its array is read past the end of the array. -/
theorem strcpy_read {nul : α} {dst src : List α} (h : nul ∉ src) (hlen : src.length ≤ dst.length) :
    strcpy nul dst src = .error (.read src.length) := by
  have hcopy := copyFrom_read h [] dst hlen
  rw [List.length_nil, Nat.zero_add] at hcopy
  exact hcopy

theorem strcpy_write {nul : α} {dst src : List α} (h : nul ∉ src.take dst.length)
    (hlen : dst.length < src.length) : strcpy nul dst src = .error (.write dst.length) := by
  have hcopy := copyFrom_write [] dst h hlen
  rw [List.length_nil, Nat.zero_add] at hcopy
  exact hcopy

theorem strcpy_ok_iff {nul : α} {dst src : List α} :
    (∃ out, strcpy nul dst src = .ok out) ↔ nul ∈ src.take dst.length := by
  constructor
  · rintro ⟨out, hout⟩
    by_contra hnone
    rcases Nat.lt_or_ge dst.length src.length with hlen | hlen
    · rw [strcpy_write hnone hlen] at hout
      cases hout
    · rw [List.take_of_length_le hlen] at hnone
      rw [strcpy_read hnone hlen] at hout
      cases hout
  · intro h
    exact ⟨_, strcpy_ok h⟩

theorem strcpy_spec {nul : α} {dst src out : List α} (h : strcpy nul dst src = .ok out) :
    out = overwrite nul dst src ∧ out.length = dst.length := by
  have hmem := strcpy_ok_iff.1 ⟨out, h⟩
  rw [strcpy_ok hmem, Except.ok.injEq] at h
  rw [← h]
  exact ⟨rfl, length_overwrite hmem⟩

end YokaiNoMori.CString
