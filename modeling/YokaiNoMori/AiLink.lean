import YokaiNoMori.JSicstus
import YokaiNoMori.Runs
import Mathlib.Data.List.TakeWhile

namespace YokaiNoMori.AiLink

open ProtocolYokai Runs ByteReader AiStream JavaCoup

/-- A client and its AI. The client has written `sent`, of which `arrived` bytes
have reached the AI and `taken` are gone. The server may answer anything. -/
structure State where
  client : Client.State
  ai : JSicstus.State
  sent : List UInt8
  arrived : Nat
  taken : Nat
  moves : Nat

/-- The bytes that the AI can read without blocking. -/
def State.available (s : State) : List UInt8 := (s.sent.take s.arrived).drop s.taken

inductive Label
  | client (e : Client.Event)
  | arrive (n : Nat)
  | ai (e : JSicstus.Event) (taken : Nat)

def written : Client.Event → List UInt8
  | .sendSens sens => [if sens then 1 else 0]
  | .sendCoupToAI coupIa => sendCoupToAI coupIa
  | _ => []

structure Initial (s : State) : Prop where
  client : Client.Initial s.client
  ai : s.ai.pc = .readSens
  nbPartie : s.ai.nbPartie = 1
  sent : s.sent = []
  arrived : s.arrived = 0
  taken : s.taken = 0
  moves : s.moves = 0

/-- `moves` counts the moves of the AI that the client has not read yet. -/
inductive Step : State → Label → State → Prop
  | client (s) (e) (c) (he : ∀ coupIa, e ≠ .getCoupFromAI coupIa) (hstep : Client.Step s.client e c) :
      Step s (.client e) { s with client := c, sent := s.sent ++ written e }
  | getCoup (s) (coupIa) (c) (moves) (hmoves : s.moves = moves + 1)
      (hstep : Client.Step s.client (.getCoupFromAI coupIa) c) :
      Step s (.client (.getCoupFromAI coupIa)) { s with client := c, moves := moves }
  | arrive (s) (n) (hn : s.arrived + n ≤ s.sent.length) : Step s (.arrive n) { s with arrived := s.arrived + n }
  | play (s) (a) (rest) (hstep : JSicstus.Step s.ai s.available .sendToNetwork a rest) :
      Step s (.ai .sendToNetwork s.taken) { s with ai := a, moves := s.moves + 1 }
  | ai (s) (e) (a) (rest) (he : e ≠ .sendToNetwork) (hstep : JSicstus.Step s.ai s.available e a rest) :
      Step s (.ai e (s.arrived - rest.length)) { s with ai := a, taken := s.arrived - rest.length }

def sentCoup : Label → List TCoupIa
  | .client (.sendCoupToAI coupIa) => [coupIa]
  | _ => []

def sentCoups (tr : List Label) : List TCoupIa := tr.flatMap sentCoup

def arrivedBy : Label → Nat
  | .arrive n => n
  | _ => 0

def arrivedBytes (tr : List Label) : Nat := (tr.map arrivedBy).sum

/-- Whether the AI has done nothing since it skipped. -/
def justSkipped (tr : List Label) : Bool :=
  tr.foldl (fun skipped e => match e with
    | .ai .skip _ => true
    | .ai _ _ => false
    | _ => skipped) false

def Ended (coups : List TCoupIa) : Prop := ∃ coupIa ∈ coups, coupIa.finPartie ≠ 0

def game1 (coups : List TCoupIa) : List TCoupIa := coups.takeWhile (fun coupIa => coupIa.finPartie = 0)

def game2 (coups : List TCoupIa) : List TCoupIa := (coups.dropWhile (fun coupIa => coupIa.finPartie = 0)).tail

/-- Where game 2 starts in the stream, behind the orientation, the moves of game
1 and the message that ends it. -/
def boundary (coups : List TCoupIa) : Nat := 1 + 32 * ((game1 coups).length + 1)

/-- The AI starts game 2 at the right place, and takes the first move of its
opponent there for what it is. -/
def Good (tr : List Label) : Label → Prop
  | .ai .skip taken => Ended (sentCoups tr) ∧ taken = boundary (sentCoups tr)
  | .ai (.readFromNetwork coup) taken => justSkipped tr = true →
      ∀ coupIa, (game2 (sentCoups tr)).head? = some coupIa → coupIa.finPartie = 0 →
        coup = moveOf coupIa ∧ taken = boundary (sentCoups tr) + 32
  | _ => True

/-- The AI skips when the whole message that ends game 1 has arrived and nothing
behind it, and the first move of game 2 is one that it can read. -/
def InTime (tr : List Label) : Label → Prop
  | .ai .skip _ => Ended (sentCoups tr) ∧ arrivedBytes tr = boundary (sentCoups tr)
  | .ai (.readFromNetwork _) _ => justSkipped tr = true →
      ∀ coupIa, (game2 (sentCoups tr)).head? = some coupIa → coupIa.finPartie = 0 → Faithful coupIa
  | _ => True

@[simp] theorem sentCoup_arrive (n : Nat) : sentCoup (.arrive n) = [] := rfl

@[simp] theorem sentCoup_ai (e : JSicstus.Event) (taken : Nat) : sentCoup (.ai e taken) = [] := rfl

@[simp] theorem sentCoups_snoc (tr : List Label) (e : Label) : sentCoups (tr ++ [e]) = sentCoups tr ++ sentCoup e := by
  simp [sentCoups]

@[simp] theorem arrivedBytes_snoc (tr : List Label) (e : Label) :
    arrivedBytes (tr ++ [e]) = arrivedBytes tr + arrivedBy e := by
  simp [arrivedBytes]

theorem ended_append {coups : List TCoupIa} (h : Ended coups) (more : List TCoupIa) : Ended (coups ++ more) := by
  obtain ⟨coupIa, hmem, hfin⟩ := h
  exact ⟨coupIa, List.mem_append_left _ hmem, hfin⟩

theorem ended_split {coups : List TCoupIa} (h : Ended coups) : ∃ last, coups = game1 coups ++ last :: game2 coups := by
  obtain ⟨coupIa, hmem, hfin⟩ := h
  have hsplit := List.takeWhile_append_dropWhile (p := fun coupIa : TCoupIa => coupIa.finPartie = 0) (l := coups)
  cases hdrop : coups.dropWhile (fun coupIa => coupIa.finPartie = 0) with
  | nil =>
      have hzero := List.dropWhile_eq_nil_iff.1 hdrop coupIa hmem
      exact absurd (of_decide_eq_true hzero) hfin
  | cons last rest => exact ⟨last, by rw [game1, game2, hdrop, List.tail_cons, ← hdrop, hsplit]⟩

theorem boundary_append {coups : List TCoupIa} (h : Ended coups) (more : List TCoupIa) :
    boundary (coups ++ more) = boundary coups := by
  obtain ⟨last, hsplit⟩ := ended_split h
  have hlength := congrArg List.length hsplit
  rw [List.length_append, List.length_cons] at hlength
  have hne : (coups.takeWhile (fun coupIa => coupIa.finPartie = 0)).length ≠ coups.length := by
    change (game1 coups).length ≠ _
    omega
  rw [boundary, game1, List.takeWhile_append, if_neg hne, boundary, game1]

def Early : Client.Pc → Prop
  | .sendPartie | .recvPartie | .sendSens => True
  | _ => False

theorem loopTop_late (g : Client.Game) (sens : Bool) (nbPartie : Nat) : ¬Early (Client.loopTop g sens nbPartie) := by
  cases g <;> simp only [Client.loopTop, Client.loop1, Client.loop2] <;> split_ifs <;> exact not_false

theorem client_late {c c' : Client.State} {e : Client.Event} (h : ¬Early c.pc) (hstep : Client.Step c e c') :
    ¬Early c'.pc ∧ written e = (sentCoup (.client e)).flatMap sendCoupToAI := by
  cases hstep with
  | sendPartie hpc | recvPartie _ hpc | sendSens hpc => exact absurd (by rw [hpc]; trivial) h
  | getCoup | sendCoup | recvEnnemyCoup => exact ⟨not_false, rfl⟩
  | recvRep b rep hpc =>
      refine ⟨?_, rfl⟩
      rw [Client.State.answered]
      split_ifs
      · exact not_false
      · split
        · exact not_false
        · exact loopTop_late _ _ _
  | notify b hpc => exact ⟨loopTop_late _ _ _, (List.append_nil _).symm⟩
  | recvEnnemyRep b rep recvIa coup hpc =>
      refine ⟨?_, rfl⟩
      rw [Client.State.ennemyAnswered]
      split_ifs <;> exact not_false
  | notifyEnnemy b hpc => exact ⟨loopTop_late _ _ _, (List.append_nil _).symm⟩
  | forward b hpc =>
      refine ⟨?_, (List.append_nil _).symm⟩
      rw [Client.State.forwarded]
      split
      · exact loopTop_late _ _ _
      · exact not_false

theorem client_early {c c' : Client.State} {e : Client.Event} (h : Early c.pc) (hstep : Client.Step c e c') :
    sentCoup (.client e) = [] ∧ ((written e = [] ∧ Early c'.pc) ∨ ∃ b, written e = [b] ∧ ¬Early c'.pc) := by
  cases hstep with
  | sendPartie hpc | recvPartie _ hpc => exact ⟨rfl, .inl ⟨rfl, trivial⟩⟩
  | sendSens hpc => exact ⟨rfl, .inr ⟨_, rfl, loopTop_late .game1 _ _⟩⟩
  | _ => simp_all [Early]

def Stream (t : State) (coups : List TCoupIa) : Prop :=
  (Early t.client.pc ∧ t.sent = [] ∧ coups = []) ∨
    (¬Early t.client.pc ∧ ∃ b, t.sent = b :: coups.flatMap sendCoupToAI)

structure Link (tr : List Label) (t : State) : Prop where
  stream : Stream t (sentCoups tr)
  arrived : t.arrived = arrivedBytes tr
  taken_le : t.taken ≤ t.arrived
  arrived_le : t.arrived ≤ t.sent.length

theorem stream_client {t : State} {coups : List TCoupIa} {e : Client.Event} {c : Client.State} {moves : Nat}
    (h : Stream t coups) (hstep : Client.Step t.client e c) :
    Stream { t with client := c, sent := t.sent ++ written e, moves := moves } (coups ++ sentCoup (.client e)) := by
  rcases h with ⟨hearly, hsent, rfl⟩ | ⟨hlate, b, hsent⟩
  · obtain ⟨hcoup, ⟨hwritten, hearly'⟩ | ⟨b, hwritten, hlate⟩⟩ := client_early hearly hstep
    · exact .inl ⟨hearly', by rw [hsent, hwritten]; rfl, hcoup⟩
    · exact .inr ⟨hlate, b, by rw [hsent, hwritten, hcoup]; rfl⟩
  · obtain ⟨hlate', hwritten⟩ := client_late hlate hstep
    exact .inr ⟨hlate', b, by rw [hsent, hwritten, List.flatMap_append, List.cons_append]⟩

theorem link_step {tr : List Label} {t u : State} {e : Label} (h : Link tr t) (hstep : Step t e u) :
    Link (tr ++ [e]) u := by
  have hstream := h.stream
  have harrived := h.arrived
  have htaken := h.taken_le
  have hsent := h.arrived_le
  cases hstep with
  | client e c he hstep =>
      refine ⟨?_, ?_, htaken, ?_⟩
      · rw [sentCoups_snoc]
        exact stream_client hstream hstep
      · rw [arrivedBytes_snoc]
        exact harrived
      · rw [List.length_append]
        exact Nat.le_add_right_of_le hsent
  | getCoup coupIa c moves hmoves hstep =>
      refine ⟨?_, ?_, htaken, hsent⟩
      · rw [sentCoups_snoc]
        have hnothing : Stream { t with client := c, sent := t.sent ++ [], moves := moves } _ :=
          stream_client hstream hstep
        rwa [List.append_nil] at hnothing
      · rw [arrivedBytes_snoc]
        exact harrived
  | arrive n hn =>
      refine ⟨?_, ?_, htaken.trans (Nat.le_add_right _ _), hn⟩
      · rw [sentCoups_snoc, sentCoup_arrive, List.append_nil]
        exact hstream
      · rw [arrivedBytes_snoc, ← harrived, arrivedBy]
  | play a rest hstep =>
      refine ⟨?_, ?_, htaken, hsent⟩
      · rw [sentCoups_snoc, sentCoup_ai, List.append_nil]
        exact hstream
      · rw [arrivedBytes_snoc]
        exact harrived
  | ai e a rest he hstep =>
      refine ⟨?_, ?_, Nat.sub_le _ _, hsent⟩
      · rw [sentCoups_snoc, sentCoup_ai, List.append_nil]
        exact hstream
      · rw [arrivedBytes_snoc]
        exact harrived

theorem link {s t : State} {tr : List Label} (hinit : Initial s) (hrun : Run Step s tr t) : Link tr t := by
  apply hrun.invariant Link
  · refine ⟨.inl ⟨?_, hinit.sent, rfl⟩, hinit.arrived, ?_, ?_⟩
    · rw [hinit.client.pc]
      trivial
    · rw [hinit.taken]
      exact Nat.zero_le _
    · rw [hinit.arrived]
      exact Nat.zero_le _
  · intro tr t e u h hstep
    exact link_step h hstep

@[simp] theorem justSkipped_client (tr : List Label) (e : Client.Event) :
    justSkipped (tr ++ [.client e]) = justSkipped tr := by
  simp [justSkipped]

@[simp] theorem justSkipped_arrive (tr : List Label) (n : Nat) : justSkipped (tr ++ [.arrive n]) = justSkipped tr := by
  simp [justSkipped]

theorem justSkipped_ai {tr : List Label} {e : JSicstus.Event} {taken : Nat}
    (h : justSkipped (tr ++ [.ai e taken]) = true) : e = .skip := by
  cases e <;> simp [justSkipped] at h ⊢

/-- Until the AI acts again, it stands where the skip has put it. -/
theorem at_boundary {s t : State} {tr : List Label} (hrun : Run Step s tr t) (hgood : Throughout Good tr)
    (hskip : justSkipped tr = true) : Ended (sentCoups tr) ∧ t.taken = boundary (sentCoups tr) := by
  induction hrun with
  | nil => cases hskip
  | @snoc tr t e u hrun hstep ih =>
      obtain ⟨hbefore, he⟩ := (throughout_snoc Good tr e).1 hgood
      cases hstep with
      | client e c hne hstep | getCoup coupIa c moves hmoves hstep =>
          rw [justSkipped_client] at hskip
          obtain ⟨hended, htaken⟩ := ih hbefore hskip
          rw [sentCoups_snoc, boundary_append hended]
          exact ⟨ended_append hended _, htaken⟩
      | arrive n hn =>
          rw [justSkipped_arrive] at hskip
          rw [sentCoups_snoc, sentCoup_arrive, List.append_nil]
          exact ih hbefore hskip
      | play a rest hstep => cases justSkipped_ai hskip
      | ai e a rest hne hstep =>
          obtain rfl := justSkipped_ai hskip
          rw [sentCoups_snoc, sentCoup_ai, List.append_nil]
          exact he

theorem available_append {t : State} (htaken : t.taken ≤ t.arrived) (harrived : t.arrived ≤ t.sent.length) :
    t.available ++ t.sent.drop t.arrived = t.sent.drop t.taken := by
  have hle : t.taken ≤ (t.sent.take t.arrived).length := by
    rw [List.length_take]
    omega
  rw [State.available, ← List.drop_append_of_le_length hle, List.take_append_drop]

theorem drop_boundary {t : State} {coups : List TCoupIa} (h : Stream t coups) (hended : Ended coups) :
    t.sent.drop (boundary coups) = (game2 coups).flatMap sendCoupToAI := by
  obtain ⟨last, hsplit⟩ := ended_split hended
  rcases h with ⟨_, _, rfl⟩ | ⟨_, b, hsent⟩
  · obtain ⟨coupIa, hmem, _⟩ := hended
    cases hmem
  · have hlength : ((game1 coups ++ [last]).flatMap sendCoupToAI).length = 32 * ((game1 coups).length + 1) := by
      rw [length_flatMap_send, List.length_append, List.length_singleton, Nat.mul_comm]
    have hflat : coups.flatMap sendCoupToAI =
        (game1 coups ++ [last]).flatMap sendCoupToAI ++ (game2 coups).flatMap sendCoupToAI := by
      rw [← List.flatMap_append, List.append_assoc, List.singleton_append, ← hsplit]
    rw [hsent, boundary, Nat.add_comm, List.drop_succ_cons, hflat, List.drop_left' hlength]

/-- A read that starts at the boundary is right exactly when the first message
of game 2 is faithful. -/
theorem first_read {tr : List Label} {t : State} {coupIa : TCoupIa} {coup : Option Coup} {rest : List UInt8}
    (h : Link tr t) (hended : Ended (sentCoups tr)) (htaken : t.taken = boundary (sentCoups tr))
    (hfirst : (game2 (sentCoups tr)).head? = some coupIa) (hfin : coupIa.finPartie = 0)
    (hread : readFromNetwork.run t.available = .ok (coup, rest)) :
    coup = moveOf coupIa ∧ t.arrived - rest.length = boundary (sentCoups tr) + 32 ↔ Faithful coupIa := by
  obtain ⟨more, hgame2⟩ := List.head?_eq_some_iff.1 hfirst
  have hdrop := drop_boundary h.stream hended
  rw [hgame2, List.flatMap_cons] at hdrop
  have hfull := takes_readFromNetwork.append hread (t.sent.drop t.arrived)
  rw [available_append h.taken_le h.arrived_le, htaken, hdrop] at hfull
  have hlength := congrArg List.length hdrop
  have harrived := h.arrived_le
  rw [← read_faithful_iff hfin hfull]
  apply and_congr_right
  intro _
  rw [List.length_append, List.length_drop]
  rw [List.length_append, List.length_drop, length_sendCoupToAI] at hlength
  omega

theorem good_iff {s t u : State} {tr : List Label} {e : Label} (hinit : Initial s) (hrun : Run Step s tr t)
    (hgood : Throughout Good tr) (hstep : Step t e u) : Good tr e ↔ InTime tr e := by
  have hlink := link hinit hrun
  cases hstep with
  | client | getCoup | arrive | play => exact Iff.rfl
  | ai e a rest hne hstep =>
      generalize hbytes : t.available = bytes at hstep
      cases hstep with
      | readBoolean | sendToNetwork => exact Iff.rfl
      | skip _ hpc => rw [Good, InTime, ← hlink.arrived, List.length_nil, Nat.sub_zero]
      | readFromNetwork b _ coup _ hpc hread =>
          apply imp_congr_right
          intro hskip
          obtain ⟨hended, htaken⟩ := at_boundary hrun hgood hskip
          apply forall_congr'
          intro coupIa
          apply imp_congr_right
          intro hfirst
          apply imp_congr_right
          intro hfin
          exact first_read hlink hended htaken hfirst hfin (hbytes ▸ hread)

/-- The change of game is right in exactly the runs that are in time. -/
theorem change_of_game_iff {s t : State} {tr : List Label} (hinit : Initial s) (hrun : Run Step s tr t) :
    Throughout Good tr ↔ Throughout InTime tr := by
  apply hrun.throughout_iff
  intro tr t e u hrun hgood _ hstep
  exact good_iff hinit hrun hgood hstep

section Examples

def leading : Client.Branch := ⟨.game1, .first⟩

def playing (pc : Client.Pc) : Client.State :=
  ⟨pc, [], 1, true, false, false, taking, taking, ⟨.errOk, .valid, .gagne⟩⟩

def start : State := ⟨playing .sendPartie, ⟨.readSens, true, 1⟩, [], 0, 0, 0⟩

theorem start_initial : Initial start := ⟨⟨rfl, rfl, rfl, rfl⟩, rfl, rfl, rfl, rfl, rfl, rfl⟩

def winning : TCoupReq := ⟨.coup, 1, deplacer, ⟨.sud, 0⟩, ⟨squares⟩⟩

def gameOver : TCoupIa := { taking with finPartie := 1 }

def firstGame : List Label :=
  [.client (.send (.partieReq ⟨.partie, [], .sud⟩)), .client (.recv (.partieRep ⟨.errOk, [], .ok⟩)),
    .client (.sendSens true), .arrive 1, .ai (.readBoolean true) 1, .ai .sendToNetwork 1,
    .client (.getCoupFromAI taking), .client (.send (.coupReq winning)),
    .client (.recv (.coupRep ⟨.errOk, .valid, .gagne⟩)), .client (.sendCoupToAI gameOver)]

def between : State where
  client := ⟨.recvEnnemyRep ⟨.game2, .second⟩, [], 2, true, true, false, gameOver, taking, ⟨.errOk, .valid, .gagne⟩⟩
  ai := ⟨.read leading, true, 1⟩
  sent := 1 :: sendCoupToAI gameOver
  arrived := 1
  taken := 1
  moves := 0

theorem firstGame_run : Run Step start firstGame between := by
  have hpartie : Run Step start (firstGame.take 1) ⟨playing .recvPartie, ⟨.readSens, true, 1⟩, [], 0, 0, 0⟩ :=
    Run.single (Step.client start _ _ (by simp) (.sendPartie _ rfl))
  have hanswer : Run Step start (firstGame.take 2) ⟨playing .sendSens, ⟨.readSens, true, 1⟩, [], 0, 0, 0⟩ :=
    hpartie.snoc (.client _ _ _ (by simp) (.recvPartie _ ⟨.errOk, [], .ok⟩ rfl))
  have hsens : Run Step start (firstGame.take 3) ⟨playing (.getCoup leading), ⟨.readSens, true, 1⟩, [1], 0, 0, 0⟩ :=
    hanswer.snoc (.client _ _ _ (by simp) (.sendSens _ rfl))
  have harrive : Run Step start (firstGame.take 4)
      ⟨playing (.getCoup leading), ⟨.readSens, true, 1⟩, [1], 1, 0, 0⟩ :=
    hsens.snoc (.arrive _ 1 (by decide))
  have hread : Run Step start (firstGame.take 5)
      ⟨playing (.getCoup leading), ⟨.play leading, true, 1⟩, [1], 1, 1, 0⟩ :=
    harrive.snoc (.ai _ (.readBoolean true) _ [] (by simp) (.readBoolean _ 1 [] rfl))
  have hplay : Run Step start (firstGame.take 6)
      ⟨playing (.getCoup leading), ⟨.read leading, true, 1⟩, [1], 1, 1, 1⟩ :=
    hread.snoc (.play _ _ [] (.sendToNetwork _ leading _ rfl))
  have hget : Run Step start (firstGame.take 7)
      ⟨playing (.sendCoup leading), ⟨.read leading, true, 1⟩, [1], 1, 1, 0⟩ :=
    hplay.snoc (.getCoup _ _ _ 0 rfl (.getCoup _ leading taking rfl))
  have hsend : Run Step start (firstGame.take 8)
      ⟨playing (.recvRep leading), ⟨.read leading, true, 1⟩, [1], 1, 1, 0⟩ :=
    hget.snoc (.client _ _ _ (by simp) (.sendCoup _ leading winning rfl))
  have hrep : Run Step start (firstGame.take 9) ⟨(playing (.recvRep leading)).answered leading
      ⟨.errOk, .valid, .gagne⟩, ⟨.read leading, true, 1⟩, [1], 1, 1, 0⟩ :=
    hsend.snoc (.client _ _ _ (by simp) (.recvRep _ leading _ rfl))
  exact hrep.snoc (.client _ _ _ (by simp) (.notify _ leading rfl))

theorem reads_gameOver (n : Nat) : readFromNetwork.run { between with arrived := n + 5 }.available =
    .ok (none, ((sendCoupToAI gameOver).drop 4).take n) := by
  have hbytes : { between with arrived := n + 5 }.available =
      beBytes gameOver.finPartie ++ ((sendCoupToAI gameOver).drop 4).take n := by
    rw [sendCoupToAI_eq]
    simp only [State.available, between, sendCoupToAI_eq, beBytes]
    rfl
  rw [hbytes]
  exact yields_fin (by decide) _

theorem hasty_run : ∃ t, Run Step start
    (firstGame ++ [.arrive 4] ++ [.ai (.readFromNetwork none) 5] ++ [.ai .skip 5]) t := by
  have harrive : Run Step start (firstGame ++ [.arrive 4]) { between with arrived := 5 } :=
    firstGame_run.snoc (.arrive _ 4 (by decide))
  have hread : Run Step start (firstGame ++ [.arrive 4] ++ [.ai (.readFromNetwork none) 5])
      { between with ai := ⟨.skip, true, 2⟩, arrived := 5, taken := 5 } :=
    harrive.snoc (.ai _ (.readFromNetwork none) _ [] (by simp) (.readFromNetwork _ leading _ _ _ rfl
      (reads_gameOver 0)))
  exact ⟨_, hread.snoc (.ai _ .skip _ [] (by simp) (.skip _ _ rfl))⟩

theorem change_of_game_hasty :
    ¬ ∀ s tr t, Initial s → Run Step s tr t → Throughout Good tr := by
  intro hall
  obtain ⟨t, hrun⟩ := hasty_run
  obtain ⟨_, htaken⟩ := ((throughout_snoc _ _ _).1 (hall _ _ _ start_initial hrun)).2
  exact absurd htaken (by decide)

theorem taking_faithful : Faithful taking := ⟨rfl, .inl (by decide)⟩

def secondGame : List Label :=
  [.arrive 32, .ai (.readFromNetwork none) 5, .ai .skip 33, .client (.recv (.coupRep ⟨.errOk, .valid, .cont⟩)),
    .client (.recv (.coupReq winning)), .client (.sendCoupToAI taking), .arrive 32,
    .ai (.readFromNetwork (moveOf taking)) 65]

theorem secondGame_run : ∃ t, Run Step start (firstGame ++ secondGame) t := by
  have harrive : Run Step start (firstGame ++ secondGame.take 1) { between with arrived := 33 } :=
    firstGame_run.snoc (.arrive _ 32 (by decide))
  have hread : Run Step start (firstGame ++ secondGame.take 2)
      { between with ai := ⟨.skip, true, 2⟩, arrived := 33, taken := 5 } :=
    harrive.snoc (.ai _ (.readFromNetwork none) _ _ (by simp) (.readFromNetwork _ leading _ _ _ rfl (reads_gameOver 28)))
  have hskip : Run Step start (firstGame ++ secondGame.take 3)
      { between with ai := ⟨.read ⟨.game2, .second⟩, true, 2⟩, arrived := 33, taken := 33 } :=
    hread.snoc (.ai _ .skip _ [] (by simp) (.skip _ _ rfl))
  have hrep := hskip.snoc (.client _ _ _ (by simp) (.recvEnnemyRep _ ⟨.game2, .second⟩
    ⟨.errOk, .valid, .cont⟩ taking winning rfl))
  have hcoup := hrep.snoc (.client _ _ _ (by simp) (.recvEnnemyCoup _ ⟨.game2, .second⟩ taking winning rfl))
  have hforward := hcoup.snoc (.client _ _ _ (by simp) (.forward _ ⟨.game2, .second⟩ rfl))
  have hmove : Run Step start (firstGame ++ secondGame.take 7)
      { between with
        client := ⟨.getCoup ⟨.game2, .second⟩, [], 2, true, true, false, gameOver, taking, ⟨.errOk, .valid, .gagne⟩⟩
        ai := ⟨.read ⟨.game2, .second⟩, true, 2⟩
        sent := (1 :: sendCoupToAI gameOver) ++ sendCoupToAI taking
        arrived := 65
        taken := 33 } :=
    hforward.snoc (.arrive _ 32 (by decide))
  have hbytes := reads_faithful taking_legal taking_faithful []
  rw [List.append_nil] at hbytes
  exact ⟨_, hmove.snoc (.ai _ (.readFromNetwork (moveOf taking)) _ [] (by simp)
    (.readFromNetwork _ ⟨.game2, .second⟩ _ _ _ rfl hbytes))⟩

theorem firstGame_inTime : Throughout InTime firstGame := by
  intro before e after hsplit
  have hmem : e ∈ firstGame := by
    rw [hsplit]
    simp
  simp only [firstGame, List.mem_cons, List.not_mem_nil, or_false] at hmem
  rcases hmem with rfl | rfl | rfl | rfl | rfl | rfl | rfl | rfl | rfl | rfl <;> trivial

theorem inTime_client {tr : List Label} {e : Client.Event} (h : Throughout InTime tr) :
    Throughout InTime (tr ++ [.client e]) :=
  (throughout_snoc _ _ _).2 ⟨h, trivial⟩

theorem secondGame_inTime : Throughout InTime (firstGame ++ secondGame) := by
  have hread : Throughout InTime (firstGame ++ secondGame.take 2) := by
    refine (throughout_snoc _ (firstGame ++ secondGame.take 1) _).2
      ⟨(throughout_snoc _ firstGame _).2 ⟨firstGame_inTime, trivial⟩, ?_⟩
    intro hskip
    exact absurd hskip (by decide)
  have hskip : Throughout InTime (firstGame ++ secondGame.take 3) :=
    (throughout_snoc _ (firstGame ++ secondGame.take 2) _).2
      ⟨hread, ⟨gameOver, by simp [sentCoups, firstGame, secondGame, sentCoup], by decide⟩, by decide⟩
  have hforward : Throughout InTime (firstGame ++ secondGame.take 6) := inTime_client (inTime_client (inTime_client hskip))
  have harrive : Throughout InTime (firstGame ++ secondGame.take 7) :=
    (throughout_snoc InTime (firstGame ++ secondGame.take 6) (.arrive 32)).2 ⟨hforward, trivial⟩
  refine (throughout_snoc _ (firstGame ++ secondGame.take 7) (.ai (.readFromNetwork (moveOf taking)) 65)).2 ⟨harrive, ?_⟩
  intro _ coupIa hfirst _
  obtain rfl : taking = coupIa := Option.some.inj hfirst
  exact taking_faithful

theorem change_of_game_iff_secondGame : Throughout Good (firstGame ++ secondGame) := by
  obtain ⟨t, hrun⟩ := secondGame_run
  exact (change_of_game_iff start_initial hrun).2 secondGame_inTime

end Examples

end YokaiNoMori.AiLink
