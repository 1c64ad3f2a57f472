import YokaiNoMori.AiLink
import YokaiNoMori.Lockstep

namespace YokaiNoMori.Orientations

open ProtocolYokai Runs Serveur Conversation Dialogue ClientDialogue ServerDialogue Lockstep

def Settled (v : View) : Prop := v.phase ≠ .request ∧ v.phase ≠ .reply

theorem settled_opening (sens : Bool) (wins : List Bool) :
    Settled (opening sens wins) ∧ (opening sens wins).sens = sens := by
  match wins with
  | [] => cases sens <;> exact ⟨⟨nofun, nofun⟩, rfl⟩
  | [w] => cases sens <;> exact ⟨⟨nofun, nofun⟩, rfl⟩
  | _ :: _ :: _ => exact ⟨⟨nofun, nofun⟩, rfl⟩

theorem asks_sens {v w : View} {msg : Msg} (h : asks v msg = some w) (hw : Settled w) :
    Settled v ∧ w.sens = v.sens := by
  rcases v with ⟨phase, sens, wins⟩
  cases phase <;> cases msg <;> simp only [asks, reduceCtorEq, Option.ite_none_right_eq_some] at h
  · obtain ⟨_, hreply⟩ := h
    obtain rfl := Option.some.inj hreply
    exact absurd rfl hw.2
  · obtain ⟨_, hanswer⟩ := h
    obtain rfl := Option.some.inj hanswer
    exact ⟨by simp [Settled], rfl⟩

theorem hears_sens {v w : View} {msg : Msg} (h : hears v msg = some w) (hv : Settled v) :
    Settled w ∧ w.sens = v.sens := by
  rcases v with ⟨phase, sens, wins⟩
  cases phase <;> cases msg <;> simp only [hears, reduceCtorEq] at h
  · exact absurd rfl hv.2
  · split at h <;> obtain rfl := Option.some.inj h
    · exact ⟨by simp [Settled], rfl⟩
    · exact settled_opening _ _
  · split at h <;> obtain rfl := Option.some.inj h
    · exact ⟨by simp [Settled], rfl⟩
    · exact settled_opening _ _
  · obtain rfl := Option.some.inj h
    exact ⟨by simp [Settled], rfl⟩

/-- However many messages one side is ahead, both have the same orientation. -/
theorem inStep_sens {a b : View} {out inbox : List Msg} (h : InStep asks hears a b out inbox) (ha : Settled a) :
    Settled b ∧ a.sens = b.sens := by
  rcases h with ⟨_, hout⟩ | ⟨_, hin⟩
  · induction out generalizing b with
    | nil =>
        obtain rfl := Option.some.inj hout
        exact ⟨ha, rfl⟩
    | cons msg out ih =>
        rw [List.foldlM_cons] at hout
        obtain ⟨c, hmsg, hrest⟩ := Option.bind_eq_some_iff.1 hout
        obtain ⟨hc, hsens⟩ := ih hrest
        obtain ⟨hb, hsens'⟩ := asks_sens hmsg hc
        exact ⟨hb, hsens.trans hsens'⟩
  · induction inbox generalizing a with
    | nil =>
        obtain rfl := Option.some.inj hin
        exact ⟨ha, rfl⟩
    | cons msg inbox ih =>
        rw [List.foldlM_cons] at hin
        obtain ⟨c, hmsg, hrest⟩ := Option.bind_eq_some_iff.1 hin
        obtain ⟨hc, hsens⟩ := hears_sens hmsg ha
        obtain ⟨hb, hsens'⟩ := ih hc hrest
        exact ⟨hb, hsens.symm.trans hsens'⟩

def sensOf (p : Player) : Bool := decide (p = .p1)

theorem serverView_sens {s : Serveur.State} {os : Outcomes} {p : Player} (h : Settled (serverView s os p)) :
    (serverView s os p).sens = sensOf p := by
  have hbetween (os : Outcomes) : (between p os).sens = sensOf p := (settled_opening _ _).2
  simp only [serverView] at h ⊢
  split at h
  · exact absurd rfl h.1
  · cases p
    · exact absurd rfl h.2
    · exact absurd rfl h.1
  · exact absurd rfl h.2
  · cases p
    · exact hbetween os
    · exact absurd rfl h.2
  · exact hbetween os
  · exact hbetween os
  · exact hbetween os
  · exact hbetween os
  · rfl
  · rfl
  · rfl
  · split
    · exact hbetween _
    · rfl
  · rfl
  · exact hbetween _
  · exact hbetween _

theorem clientView_sens {c : Client.State} (h : ¬AiLink.Early c.pc) :
    Settled (clientView c) ∧ (clientView c).sens = c.sens := by
  rw [clientView]
  split
  · rename_i hpc
    exact absurd (by rw [hpc]; trivial) h
  · rename_i hpc
    exact absurd (by rw [hpc]; trivial) h
  · exact settled_opening _ _
  all_goals first | exact settled_opening _ _ | exact ⟨by simp [Settled], rfl⟩

/-- The first player to connect gets the north, and the other one the south. -/
theorem client_oriented {m₀ m : Match.State} {tr : List Match.Label} (hinit : Match.Initial m₀)
    (hrun : Run Match.Step m₀ tr m) {p : Player} (hlate : ¬AiLink.Early (m.client p).pc) :
    (m.client p).sens = sensOf p := by
  obtain ⟨hsettled, hsens⟩ := clientView_sens hlate
  obtain ⟨hserver, hsame⟩ := inStep_sens ((together hinit hrun).inStep p) hsettled
  rw [← hsens, hsame, serverView_sens hserver]

end YokaiNoMori.Orientations
