import Mathlib.Data.List.Basic

namespace YokaiNoMori.Conversation

variable {V M : Type} {mine yours : V → M → Option V} {a a' b : V} {m : M} {out inbox : List M}

/-- Two parties talk over two FIFO channels, and `mine` and `yours` say how a
message of either moves the view of the conversation. One of the views is ahead
of the other by the messages in flight, which all go the same way. -/
def InStep (mine yours : V → M → Option V) (a b : V) (out inbox : List M) : Prop :=
  (inbox = [] ∧ out.foldlM mine b = some a) ∨ (out = [] ∧ inbox.foldlM yours a = some b)

/-- It is never the turn of both parties. -/
def OneSpeaker (mine yours : V → M → Option V) : Prop := ∀ v m m', mine v m = none ∨ yours v m' = none

theorem InStep.start (v : V) : InStep mine yours v v [] [] := .inl ⟨rfl, rfl⟩

theorem InStep.symm (h : InStep mine yours a b out inbox) : InStep yours mine b a inbox out := Or.symm h

theorem OneSpeaker.symm (h : OneSpeaker mine yours) : OneSpeaker yours mine := fun v m m' => (h v m' m).symm

theorem InStep.say (hone : OneSpeaker mine yours) (h : InStep mine yours a b out inbox) (hm : mine a m = some a') :
    InStep mine yours a' b (out ++ [m]) inbox := by
  rcases h with ⟨rfl, hout⟩ | ⟨rfl, hin⟩
  · exact .inl ⟨rfl, by simp [List.foldlM_append, hout, hm]⟩
  · cases inbox with
    | nil =>
        obtain rfl : a = b := by simpa using hin
        exact .inl ⟨rfl, by simp [hm]⟩
    | cons m' inbox =>
        rcases hone a m m' with hmine | hyours
        · simp [hmine] at hm
        · simp [List.foldlM_cons, hyours] at hin

theorem InStep.hear (h : InStep mine yours a b out (m :: inbox)) :
    ∃ a', yours a m = some a' ∧ InStep mine yours a' b out inbox := by
  rcases h with ⟨hin, _⟩ | ⟨rfl, hin⟩
  · simp at hin
  · rw [List.foldlM_cons] at hin
    obtain ⟨a', hm, hrest⟩ := Option.bind_eq_some_iff.1 hin
    exact ⟨a', hm, .inr ⟨rfl, hrest⟩⟩

theorem InStep.quiet (h : InStep mine yours a b [] []) : a = b := by
  rcases h with ⟨_, h⟩ | ⟨_, h⟩
  · exact (Option.some.inj h).symm
  · exact Option.some.inj h

end YokaiNoMori.Conversation
