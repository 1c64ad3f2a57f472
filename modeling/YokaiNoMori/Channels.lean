import YokaiNoMori.Conveyor
import YokaiNoMori.Handling
import YokaiNoMori.Match

namespace YokaiNoMori.Channels

open ProtocolYokai Runs Serveur Match Handling Conveyor

/-! The sockets of a match, and what they carry. -/

def serverEvent : Label → Option Serveur.Event
  | .server e => some e
  | .client _ _ => none

def clientEvent (p : Player) : Label → Option Client.Event
  | .client q e => if q = p then some e else none
  | .server _ => none

theorem server_steps {m n : Match.State} {e : Label} (h : Match.Step m e n) :
    (serverEvent e = none ∧ n.server = m.server) ∨
      ∃ d, serverEvent e = some d ∧ Succeeds d ∧ Serveur.Step m.server d n.server := by
  cases h with
  | serverRecv p msg rest s hup hstep => exact .inr ⟨_, rfl, trivial, hstep⟩
  | serverSend p msg s hstep => exact .inr ⟨_, rfl, trivial, hstep⟩
  | serverInside e s he hstep => exact .inr ⟨e, rfl, succeeds_inside he, hstep⟩
  | clientRecv | clientSend | clientAi => exact .inl ⟨rfl, rfl⟩

theorem update_cases {β : Type} (f : Player → β) (q p : Player) (b : β) :
    (q ≠ p ∧ Function.update f q b p = f p) ∨ (q = p ∧ Function.update f q b p = b) := by
  by_cases h : q = p
  · subst h
    exact .inr ⟨rfl, Function.update_self q b f⟩
  · exact .inl ⟨h, Function.update_of_ne (Ne.symm h) b f⟩

theorem client_steps (p : Player) {m n : Match.State} {e : Label} (h : Match.Step m e n) :
    (clientEvent p e = none ∧ n.client p = m.client p) ∨
      ∃ d, clientEvent p e = some d ∧ Client.Step (m.client p) d (n.client p) := by
  have hclient {q : Player} {d : Client.Event} {c : Client.State} (hn : n.client = Function.update m.client q c)
      (hstep : Client.Step (m.client q) d c) :
      (clientEvent p (.client q d) = none ∧ n.client p = m.client p) ∨
        ∃ d', clientEvent p (.client q d) = some d' ∧ Client.Step (m.client p) d' (n.client p) := by
    rw [hn]
    rcases update_cases m.client q p c with ⟨hne, hsame⟩ | ⟨rfl, hsame⟩
    · exact .inl ⟨if_neg hne, hsame⟩
    · refine .inr ⟨d, if_pos rfl, ?_⟩
      rw [hsame]
      exact hstep
  cases h with
  | serverRecv | serverSend | serverInside => exact .inl ⟨rfl, rfl⟩
  | clientRecv q msg rest c hdown hstep => exact hclient rfl hstep
  | clientSend q msg c hstep => exact hclient rfl hstep
  | clientAi q e c he hstep => exact hclient rfl hstep

def ofServer {α : Type} (items : Serveur.Event → List α) (e : Label) : List α := (serverEvent e).elim [] items

def ofClient {α : Type} (p : Player) (items : Client.Event → List α) (e : Label) : List α :=
  (clientEvent p e).elim [] items

theorem ofClient_self {α : Type} (p : Player) (items : Client.Event → List α) (e : Client.Event) :
    ofClient p items (.client p e) = items e := by
  simp [ofClient, clientEvent]

theorem ofClient_ne {α : Type} {p q : Player} (h : q ≠ p) (items : Client.Event → List α) (e : Client.Event) :
    ofClient p items (.client q e) = [] := by
  simp [ofClient, clientEvent, h]

theorem ofClient_quiet {α : Type} (p q : Player) {items : Client.Event → List α} {e : Client.Event}
    (h : items e = []) :
    ofClient p items (.client q e) = [] := by
  by_cases hq : q = p
  · rw [hq, ofClient_self, h]
  · exact ofClient_ne hq items e

section

variable {X : Type} {ok : X → Prop} (items : Msg → List X)

def received (p : Player) : Serveur.Event → List X
  | .recv q m => if q = p then items m else []
  | _ => []

def relayed (p : Player) : Serveur.Event → List X
  | .send q m => if q = p then items m else []
  | _ => []

def asked : Client.Event → List X
  | .send m => items m
  | _ => []

def heard : Client.Event → List X
  | .recv m => items m
  | _ => []

theorem received_quiet (p : Player) {e : Serveur.Event} (hitems : ∀ m, Greeting m → items m = [])
    (hquiet : Quiet e) :
    received items p e = [] := by
  cases e with
  | recv q m => rw [received, hitems m hquiet, ite_self]
  | _ => rfl

theorem relayed_quiet (p : Player) {e : Serveur.Event} (hitems : ∀ m, Greeting m → items m = [])
    (hquiet : Quiet e) :
    relayed items p e = [] := by
  cases e with
  | send q m => rw [relayed, hitems m hquiet, ite_self]
  | _ => rfl

theorem up_conveys (p : Player) :
    Conveys ok Match.Step (fun m xs => xs = (m.up p).flatMap items) (ofClient p (asked items))
      (ofServer (received items p)) := by
  apply Conveys.of_eq
  intro m e n hstep _
  cases hstep with
  | serverRecv q msg rest s hup hstep =>
      change (m.up p).flatMap items ++ [] =
        (if q = p then items msg else []) ++ (Function.update m.up q rest p).flatMap items
      rcases update_cases m.up q p rest with ⟨hne, hsame⟩ | ⟨rfl, hsame⟩
      · rw [hsame, if_neg hne, List.append_nil, List.nil_append]
      · rw [hsame, if_pos rfl, hup, List.flatMap_cons, List.append_nil]
  | serverSend q msg s hstep => exact List.append_nil _
  | serverInside e s he hstep =>
      have hquiet : received items p e = [] := by cases e <;> first | rfl | exact he.elim
      rw [ofServer, serverEvent, Option.elim_some, hquiet]
      exact List.append_nil _
  | clientRecv q msg rest c hdown hstep =>
      rw [ofClient_quiet p q rfl]
      exact List.append_nil _
  | clientSend q msg c hstep =>
      change (m.up p).flatMap items ++ _ = (Function.update m.up q (m.up q ++ [msg]) p).flatMap items
      rcases update_cases m.up q p (m.up q ++ [msg]) with ⟨hne, hsame⟩ | ⟨rfl, hsame⟩
      · rw [hsame, ofClient_ne hne, List.append_nil]
      · rw [hsame, ofClient_self, List.flatMap_append, List.flatMap_cons, List.flatMap_nil, List.append_nil, asked]
  | clientAi q e c he hstep =>
      have hquiet : asked items e = [] := by cases e <;> first | rfl | exact he.elim
      rw [ofClient_quiet p q hquiet]
      exact List.append_nil _

theorem down_conveys (p : Player) :
    Conveys ok Match.Step (fun m xs => xs = (m.down p).flatMap items) (ofServer (relayed items p))
      (ofClient p (heard items)) := by
  apply Conveys.of_eq
  intro m e n hstep _
  cases hstep with
  | serverRecv q msg rest s hup hstep => exact List.append_nil _
  | serverSend q msg s hstep =>
      change (m.down p).flatMap items ++ (if q = p then items msg else []) =
        (Function.update m.down q (m.down q ++ [msg]) p).flatMap items
      rcases update_cases m.down q p (m.down q ++ [msg]) with ⟨hne, hsame⟩ | ⟨rfl, hsame⟩
      · rw [hsame, if_neg hne, List.append_nil]
      · rw [hsame, if_pos rfl, List.flatMap_append, List.flatMap_cons, List.flatMap_nil, List.append_nil]
  | serverInside e s he hstep =>
      have hquiet : relayed items p e = [] := by cases e <;> first | rfl | exact he.elim
      rw [ofServer, serverEvent, Option.elim_some, hquiet]
      exact List.append_nil _
  | clientRecv q msg rest c hdown hstep =>
      change (m.down p).flatMap items ++ [] = _ ++ (Function.update m.down q rest p).flatMap items
      rcases update_cases m.down q p rest with ⟨hne, hsame⟩ | ⟨rfl, hsame⟩
      · rw [hsame, ofClient_ne hne, List.append_nil, List.nil_append]
      · rw [hsame, ofClient_self, hdown, List.flatMap_cons, List.append_nil, heard]
  | clientSend q msg c hstep =>
      rw [ofClient_quiet p q rfl]
      exact List.append_nil _
  | clientAi q e c he hstep =>
      have hquiet : heard items e = [] := by cases e <;> first | rfl | exact he.elim
      rw [ofClient_quiet p q hquiet]
      exact List.append_nil _

end

end YokaiNoMori.Channels
