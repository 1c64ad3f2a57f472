import YokaiNoMori.AiLink
import YokaiNoMori.AiPlayer
import YokaiNoMori.Carriers
import YokaiNoMori.Orientations
import YokaiNoMori.Strikes

namespace YokaiNoMori.Seat

open ProtocolYokai Runs Strikes Conveyor JavaCoup PrologSession CoupFromAI AiStream
open Carriers (InPlay got forwarded)
open Orientations (sensOf)
open Serveur (Player)

/-! A client with its AI. -/

/-- `toAi` and `fromAi` are the bytes that are written and not taken yet. -/
structure State where
  client : Client.State
  ai : AiPlayer.State
  toAi : List UInt8
  fromAi : List UInt8

inductive Label
  | client (e : Client.Event)
  | ai (e : AiPlayer.Event)

/-- No call fails and no program exits. A read that blocks waits for all it
wants, so the client takes the bytes of one whole move; a skip takes those that
have arrived, whichever they are. -/
inductive Step : State → Label → State → Prop
  | client (s) (e) (c) (he : ¬Client.WithAi e) (hstep : Client.Step s.client e c) :
      Step s (.client e) { s with client := c }
  | toAi (s) (e) (c) (he : Client.WithAi e) (hsent : AiLink.written e ≠ []) (hstep : Client.Step s.client e c) :
      Step s (.client e) { s with client := c, toAi := s.toAi ++ AiLink.written e }
  | fromAi (s) (res coupIa) (bytes rest) (c) (hbytes : s.fromAi = bytes ++ rest)
      (hreceive : Receives (getCoupFromAI res) bytes coupIa)
      (hstep : Client.Step s.client (.getCoupFromAI coupIa) c) :
      Step s (.client (.getCoupFromAI coupIa)) { s with client := c, fromAi := rest }
  | ai (s) (e) (a) (rest out) (he : e ≠ .skip) (hstep : AiPlayer.Step s.ai s.toAi e a rest out) :
      Step s (.ai e) { s with ai := a, toAi := rest, fromAi := s.fromAi ++ out }
  | skip (s) (n) (a) (rest out) (hstep : AiPlayer.Step s.ai (s.toAi.take n) .skip a rest out) :
      Step s (.ai .skip) { s with ai := a, toAi := rest ++ s.toAi.drop n, fromAi := s.fromAi ++ out }

/-- The client has no end of game to tell. -/
def PlayStep (s : State) (e : Label) (t : State) : Prop := InPlay s.client ∧ Step s e t

def made : AiPlayer.Event → List Coup
  | .generate coup => [coup]
  | _ => []

def obeyed : AiPlayer.Event → List Coup
  | .force coup => [coup]
  | _ => []

def madeStrikes : Label → List Strike
  | .ai e => (made e).map coupStrike
  | .client _ => []

def obeyedStrikes : Label → List Strike
  | .ai e => (obeyed e).map coupStrike
  | .client _ => []

def ofClient (items : Client.Event → List Strike) : Label → List Strike
  | .client e => items e
  | .ai _ => []

variable {s t : State} {e : Label}

theorem client_keeps {e : Client.Event} (h : Step s (.client e) t) : t.ai = s.ai := by
  cases h <;> rfl

theorem ai_acts {e : AiPlayer.Event} (h : Step s (.ai e) t) :
    ∃ bytes rest out, AiPlayer.Step s.ai bytes e t.ai rest out := by
  cases h with
  | ai _ a rest out he hstep => exact ⟨_, rest, out, hstep⟩
  | skip n a rest out hstep => exact ⟨_, rest, out, hstep⟩

theorem generateMove_displaces {r r' : Session} {coup : Coup} (h : generateMove r = some (coup, r')) :
    Matching coup ∧ Displaces (coupStrike coup) := by
  have hcoup : ∃ type x y nX nY capture, coup = PrologSession.coupOf type x y nX nY capture := by
    rw [generateMove] at h
    split at h
    · exact ⟨_, _, _, _, _, _, (Prod.mk.inj (Option.some.inj h)).1.symm⟩
    · cases h
    · split at h
      · cases h
      · exact ⟨_, _, _, _, _, _, (Prod.mk.inj (Option.some.inj h)).1.symm⟩
  obtain ⟨type, x, y, nX, nY, capture, rfl⟩ := hcoup
  exact ⟨rfl, rfl⟩

theorem strike_side {r r' : Session} {coup : Coup} (h : forceEnnemyStrike r coup = some r') : r'.side = r.side := by
  obtain ⟨_, _, rfl | ⟨new, _, rfl⟩⟩ := strike_cases h <;> rfl

/-- A client takes the bytes of exactly one move. -/
theorem receives_unique {bytes more rest : List UInt8} {coup : Coup} {coupIa res : TCoupIa} (hmatch : Matching coup)
    (hreceive : Receives (getCoupFromAI res) bytes coupIa) (hbytes : bytes ++ rest = Coup.sendToNetwork coup ++ more) :
    coupIa = decoded coup res ∧ rest = more := by
  obtain ⟨cuts, stack, hrun⟩ := hreceive rest [] []
  obtain ⟨cuts', stack', hrun'⟩ := receives_coup hmatch res more [] []
  rw [hbytes, hrun'] at hrun
  obtain ⟨hia, hsock⟩ := Prod.mk.inj (Option.some.inj hrun)
  exact ⟨hia.symm, congrArg (fun sock => sock.source.bytes) hsock.symm⟩

theorem receives_nonempty {bytes : List UInt8} {coupIa res : TCoupIa}
    (hreceive : Receives (getCoupFromAI res) bytes coupIa) : bytes ≠ [] := by
  rintro rfl
  have hbytes : [] ++ Coup.sendToNetwork advancing = Coup.sendToNetwork advancing ++ [] := by
    rw [List.append_nil, List.nil_append]
  have hmatch : Matching advancing := rfl
  obtain ⟨_, hrest⟩ := receives_unique hmatch hreceive hbytes
  cases hrest

theorem writes_made {a b : AiPlayer.State} {bytes rest out : List UInt8} {e : AiPlayer.Event}
    (h : AiPlayer.Step a bytes e b rest out) :
    out = (made e).flatMap Coup.sendToNetwork ∧
      ∀ coup ∈ made e, Matching coup ∧ Displaces (coupStrike coup) := by
  cases h with
  | generate coup main prolog rest hmain hcall =>
      refine ⟨by rw [made, List.flatMap_singleton], fun d hd => ?_⟩
      obtain rfl := List.mem_singleton.1 hd
      exact generateMove_displaces hcall
  | readBoolean | force | finPartie | skip => exact ⟨rfl, List.forall_mem_nil _⟩

theorem made_displaces (h : Step s e t) : ∀ x ∈ madeStrikes e, Displaces x := by
  have hai {d : AiPlayer.Event} {a b : AiPlayer.State} {bytes rest out : List UInt8}
      (hstep : AiPlayer.Step a bytes d b rest out) : ∀ x ∈ madeStrikes (.ai d), Displaces x := by
    intro x hx
    obtain ⟨coup, hcoup, rfl⟩ := List.mem_map.1 hx
    exact ((writes_made hstep).2 coup hcoup).2
  cases h with
  | client | toAi | fromAi => exact List.forall_mem_nil _
  | ai d a rest out he hstep => exact hai hstep
  | skip n a rest out hstep => exact hai hstep

/-- The moves that the AI has sent and its client has not read. -/
def unread (s : State) (xs : List Strike) : Prop :=
  ∃ coups : List Coup, s.fromAi = coups.flatMap Coup.sendToNetwork ∧ (∀ coup ∈ coups, Matching coup) ∧
    xs = coups.map coupStrike

theorem got_quiet (e : Client.Event) (he : ¬Client.WithAi e) : got e = [] := by
  cases e <;> first | rfl | exact absurd trivial he

theorem written_quiet (e : Client.Event) (he : ¬Client.WithAi e) : AiLink.written e = [] := by
  cases e <;> first | rfl | exact absurd trivial he

theorem unread_ai {xs : List Strike} {e : AiPlayer.Event} {a b : AiPlayer.State} {bytes rest out : List UInt8}
    (h : unread s xs) (hstep : AiPlayer.Step a bytes e b rest out) (ht : t.fromAi = s.fromAi ++ out) :
    unread t (xs ++ madeStrikes (.ai e)) := by
  obtain ⟨coups, hbytes, hmatch, rfl⟩ := h
  obtain ⟨hout, hmade⟩ := writes_made hstep
  refine ⟨coups ++ made e, by rw [ht, hbytes, hout, List.flatMap_append], fun coup hmem => ?_, ?_⟩
  · rcases List.mem_append.1 hmem with hmem | hmem
    · exact hmatch coup hmem
    · exact (hmade coup hmem).1
  · rw [madeStrikes, List.map_append]

/-- The client reads the moves of its AI. -/
theorem unread_conveys : Conveys Displaces Step unread madeStrikes (ofClient got) := by
  intro s e t xs hstep hheld hok
  cases hstep with
  | client e c he hstep =>
      refine ⟨xs, hheld, ?_⟩
      change xs ++ [] = got e ++ xs
      rw [got_quiet e he, List.append_nil, List.nil_append]
  | toAi e c he hsent hstep =>
      have hquiet : got e = [] := by cases e <;> first | rfl | exact absurd rfl hsent
      refine ⟨xs, hheld, ?_⟩
      change xs ++ [] = got e ++ xs
      rw [hquiet, List.append_nil, List.nil_append]
  | fromAi res coupIa bytes rest c hbytes hreceive hstep =>
      obtain ⟨coups, hcoups, hmatch, rfl⟩ := hheld
      rw [hbytes] at hcoups
      cases coups with
      | nil => exact absurd (List.append_eq_nil_iff.1 hcoups).1 (receives_nonempty hreceive)
      | cons coup coups =>
          rw [List.flatMap_cons] at hcoups
          obtain ⟨hcoup, hmatch⟩ := List.forall_mem_cons.1 hmatch
          obtain ⟨rfl, rfl⟩ := receives_unique hcoup hreceive hcoups
          have hdisplaces : Displaces (coupStrike coup) := hok _ (List.mem_append_left _ List.mem_cons_self)
          refine ⟨_, ⟨coups, rfl, hmatch, rfl⟩, ?_⟩
          rw [ofClient, got, decoded_strike hdisplaces hcoup, madeStrikes, List.append_nil]
          rfl
  | ai e a rest out he hstep => exact ⟨_, unread_ai hheld hstep rfl, rfl⟩
  | skip n a rest out hstep => exact ⟨_, unread_ai hheld hstep rfl, rfl⟩

/-- Where `main` stands in the first game. -/
def firstGame (sens : Bool) : Client.Branch := ⟨.game1, ClientDialogue.role sens .game1⟩

theorem played_firstGame {a : JSicstus.State} {sens : Bool} (hnb : a.nbPartie = 1) (hsens : a.sens = sens) :
    a.played (firstGame sens) = { a with pc := .read (firstGame sens) } := by
  cases sens with
  | true => rfl
  | false =>
      rw [JSicstus.State.played, firstGame, ClientDialogue.role]
      simp only [Bool.false_eq_true, if_false, JSicstus.State.iterate, JSicstus.loopTop, JSicstus.loop1, hnb, hsens,
        if_true]

theorem received_firstGame {a : JSicstus.State} {sens : Bool} (hnb : a.nbPartie = 1) (hsens : a.sens = sens)
    (coup : Coup) : a.received (firstGame sens) (some coup) = { a with pc := .play (firstGame sens) } := by
  cases sens with
  | true =>
      rw [JSicstus.State.received, firstGame, ClientDialogue.role]
      simp only [if_true, JSicstus.State.iterate, JSicstus.loopTop, JSicstus.loop1, hnb, hsens]
  | false => rfl

/-- How far the AI has followed its client, with the bytes between them and the
moves they carry. -/
inductive Stage (c : Client.State) (a : AiPlayer.State) : List UInt8 → List TCoupIa → Prop
  | early (hearly : AiLink.Early c.pc) (hpc : a.main.pc = .readSens) : Stage c a [] []
  | oriented (ias : List TCoupIa) (hlate : ¬AiLink.Early c.pc) (hpc : a.main.pc = .readSens) :
      Stage c a ((if c.sens then 1 else 0) :: ias.flatMap sendCoupToAI) ias
  | playing (ias : List TCoupIa) (hlate : ¬AiLink.Early c.pc) (hsens : a.main.sens = c.sens)
      (hside : a.prolog.side = AiPlayer.sideOf c.sens)
      (hpc : a.main.pc = .play (firstGame c.sens) ∨ a.main.pc = .read (firstGame c.sens)) :
      Stage c a (ias.flatMap sendCoupToAI) ias

theorem client_sens {c d : Client.State} {e : Client.Event} (hpc : c.pc ≠ .recvPartie) (hstep : Client.Step c e d) :
    d.sens = c.sens := by
  cases hstep with
  | recvPartie rep hpc' => exact absurd hpc' hpc
  | recvRep b rep =>
      rw [Client.State.answered]
      split_ifs
      · rfl
      · split <;> rfl
  | notify b =>
      rcases b with ⟨_ | _, r⟩ <;> rw [Client.State.notified] <;> split_ifs <;> rfl
  | recvEnnemyRep b rep =>
      rcases b with ⟨_ | _, r⟩ <;> rw [Client.State.ennemyAnswered] <;> split_ifs <;> rfl
  | forward b =>
      rw [Client.State.forwarded]
      split <;> rfl
  | _ => rfl

theorem sends_open {c d : Client.State} {e : Client.Event} (hplay : InPlay c) (hstep : Client.Step c e d) :
    (∀ ia ∈ AiLink.sentCoup (.client e), ia.finPartie = 0) ∧
      (AiLink.sentCoup (.client e)).map iaStrike = forwarded e := by
  cases hstep with
  | notify b hpc => exact absurd hpc (hplay.notify b)
  | notifyEnnemy b hpc => exact absurd hpc (hplay.notifyEnnemy b)
  | forward b hpc => exact ⟨List.forall_mem_singleton.2 (hplay.finPartie b hpc), rfl⟩
  | _ => exact ⟨List.forall_mem_nil _, rfl⟩

theorem stage_client {c d : Client.State} {e : Client.Event} {a : AiPlayer.State} {bytes : List UInt8}
    {ias : List TCoupIa} (h : Stage c a bytes ias) (hstep : Client.Step c e d) :
    Stage d a (bytes ++ AiLink.written e) (ias ++ AiLink.sentCoup (.client e)) := by
  cases h with
  | early hearly hpc =>
      obtain ⟨hcoup, ⟨hwritten, hearly'⟩ | ⟨byte, hwritten, hlate⟩⟩ := AiLink.client_early hearly hstep
      · rw [hwritten, hcoup]
        exact .early hearly' hpc
      · have horient : AiLink.written e = [if d.sens then 1 else 0] := by
          cases hstep with
          | sendSens => rfl
          | notify _ hpc | notifyEnnemy _ hpc | forward _ hpc => rw [hpc] at hearly; exact hearly.elim
          | _ => cases hwritten
        rw [horient, hcoup]
        exact .oriented [] hlate hpc
  | oriented ias hlate hpc =>
      obtain ⟨hlate', hwritten⟩ := AiLink.client_late hlate hstep
      have hsens : d.sens = c.sens := client_sens (fun hpc => hlate (by rw [hpc]; trivial)) hstep
      rw [hwritten, List.cons_append, ← List.flatMap_append, ← hsens]
      exact .oriented _ hlate' hpc
  | playing ias hlate hsens hside hpc =>
      obtain ⟨hlate', hwritten⟩ := AiLink.client_late hlate hstep
      have hsens' : d.sens = c.sens := client_sens (fun hpc => hlate (by rw [hpc]; trivial)) hstep
      rw [hwritten, ← List.flatMap_append]
      rw [← hsens'] at hsens hside hpc
      exact .playing _ hlate' hsens hside hpc

/-- What the AI reads in the first game is the next move sent to it. -/
theorem reads_next {ias : List TCoupIa} {coup : Option Coup} {rest : List UInt8}
    (hfin : ∀ ia ∈ ias, ia.finPartie = 0) (hok : ∀ ia ∈ ias, Displaces (iaStrike ia))
    (hread : readFromNetwork.run (ias.flatMap sendCoupToAI) = .ok (coup, rest)) :
    ∃ ia more move, ias = ia :: more ∧ rest = more.flatMap sendCoupToAI ∧ coup = some move ∧
      coupStrike move = iaStrike ia := by
  cases ias with
  | nil => cases hread
  | cons ia more =>
      rw [List.flatMap_cons] at hread
      obtain ⟨hrest, move, hcoup, hstrike, _⟩ :=
        read_displacement (hfin ia List.mem_cons_self) (hok ia List.mem_cons_self) hread
      exact ⟨ia, more, move, rfl, hrest, hcoup, hstrike⟩

theorem stage_ai {c : Client.State} {a b : AiPlayer.State} {e : AiPlayer.Event} {bytes rest out : List UInt8}
    {ias : List TCoupIa} (h : Stage c a bytes ias) (hnb : a.main.nbPartie = 1) (hfin : ∀ ia ∈ ias, ia.finPartie = 0)
    (hok : ∀ ia ∈ ias, Displaces (iaStrike ia)) (hstep : AiPlayer.Step a bytes e b rest out) :
    ∃ front back, Stage c b rest back ∧ b.main.nbPartie = 1 ∧ ias = front ++ back ∧
      front.map iaStrike = (obeyed e).map coupStrike := by
  cases hstep with
  | readBoolean sens main rest hmain =>
      cases hmain with
      | readBoolean byte rest hpc =>
          generalize hbytes : byte :: rest = bytes at h
          cases h with
          | early hearly hpc' => cases hbytes
          | oriented ias hlate hpc' =>
              obtain ⟨rfl, rfl⟩ := List.cons.inj hbytes
              refine ⟨[], ias, ?_, hnb, rfl, rfl⟩
              cases hsens : c.sens with
              | true | false =>
                  refine .playing ias hlate ?_ ?_ ?_
                  · rw [hsens]
                    rfl
                  · rw [hsens]
                    rfl
                  · simp only [JSicstus.loop1, hnb, hsens]
                    decide
          | playing ias hlate hsens hside hpc' =>
              rw [hpc] at hpc'
              rcases hpc' with hpc' | hpc' <;> cases hpc'
  | generate coup main prolog rest hmain hcall =>
      cases hmain with
      | sendToNetwork b _ hpc =>
          cases h with
          | early _ hpc' | oriented _ _ hpc' => rw [hpc] at hpc'; cases hpc'
          | playing ias hlate hsens hside hpc' =>
              rw [hpc] at hpc'
              rcases hpc' with hpc' | hpc'
              · obtain rfl := JSicstus.Pc.play.inj hpc'
                rw [played_firstGame hnb hsens]
                have hside' := (AiPlayer.generateMove_side hcall).trans hside
                exact ⟨[], ias, .playing ias hlate hsens hside' (.inr rfl), hnb, rfl, rfl⟩
              · cases hpc'
  | force coup main prolog rest hmain hcall =>
      cases hmain with
      | readFromNetwork b _ _ _ hpc hread =>
          cases h with
          | early _ hpc' | oriented _ _ hpc' => rw [hpc] at hpc'; cases hpc'
          | playing ias hlate hsens hside hpc' =>
              rw [hpc] at hpc'
              rcases hpc' with hpc' | hpc'
              · cases hpc'
              · obtain rfl := JSicstus.Pc.read.inj hpc'
                obtain ⟨ia, more, move, rfl, rfl, hcoup, hstrike⟩ := reads_next hfin hok hread
                obtain rfl := Option.some.inj hcoup
                rw [received_firstGame hnb hsens]
                refine ⟨[ia], more, ?_, hnb, rfl, congrArg (fun k => [k]) hstrike.symm⟩
                exact .playing more hlate hsens ((strike_side hcall).trans hside) (.inl rfl)
  | finPartie main rest hmain =>
      cases hmain with
      | readFromNetwork b _ _ _ hpc hread =>
          cases h with
          | early _ hpc' | oriented _ _ hpc' => rw [hpc] at hpc'; cases hpc'
          | playing ias hlate hsens hside hpc' =>
              obtain ⟨_, _, _, _, _, hcoup, _⟩ := reads_next hfin hok hread
              cases hcoup
  | skip main rest hmain =>
      cases hmain with
      | skip _ hpc =>
          cases h with
          | early _ hpc' | oriented _ _ hpc' => rw [hpc] at hpc'; cases hpc'
          | playing ias hlate hsens hside hpc' =>
              rw [hpc] at hpc'
              rcases hpc' with hpc' | hpc' <;> cases hpc'

/-- The moves that the client has passed on and its AI has not read. -/
def pending (s : State) (xs : List Strike) : Prop :=
  ∃ ias, Stage s.client s.ai s.toAi ias ∧ s.ai.main.nbPartie = 1 ∧ (∀ ia ∈ ias, ia.finPartie = 0) ∧
    xs = ias.map iaStrike

theorem pending_client {c : Client.State} {d : Client.Event} {xs : List Strike} (h : pending s xs)
    (hplay : InPlay s.client) (hstep : Client.Step s.client d c) (hclient : t.client = c) (hai : t.ai = s.ai)
    (htoAi : t.toAi = s.toAi ++ AiLink.written d) : pending t (xs ++ forwarded d) := by
  obtain ⟨ias, hstage, hnb, hfin, rfl⟩ := h
  obtain ⟨hopen, hforward⟩ := sends_open hplay hstep
  rw [← hforward, ← List.map_append]
  refine ⟨_, ?_, by rw [hai]; exact hnb, List.forall_mem_append.2 ⟨hfin, hopen⟩, rfl⟩
  rw [hclient, hai, htoAi]
  exact stage_client hstage hstep

theorem stage_skip {c : Client.State} {a b : AiPlayer.State} {bytes bytes' rest out : List UInt8}
    {ias : List TCoupIa} (h : Stage c a bytes ias) : ¬AiPlayer.Step a bytes' .skip b rest out := by
  intro hstep
  cases hstep with
  | skip main rest hmain =>
      cases hmain with
      | skip _ hpc =>
          cases h with
          | early _ hpc' | oriented _ _ hpc' => rw [hpc] at hpc'; cases hpc'
          | playing ias hlate hsens hside hpc' =>
              rw [hpc] at hpc'
              rcases hpc' with hpc' | hpc' <;> cases hpc'

theorem pending_ai {xs : List Strike} {e : AiPlayer.Event} {a : AiPlayer.State} {rest out : List UInt8}
    (h : pending s xs) (hok : ∀ x ∈ xs, Displaces x) (hstep : AiPlayer.Step s.ai s.toAi e a rest out) :
    ∃ ys, pending { s with ai := a, toAi := rest, fromAi := s.fromAi ++ out } ys ∧
      xs = obeyedStrikes (.ai e) ++ ys := by
  obtain ⟨ias, hstage, hnb, hfin, rfl⟩ := h
  obtain ⟨front, back, hback, hnb', rfl, hfront⟩ :=
    stage_ai hstage hnb hfin (fun ia hia => hok _ (List.mem_map_of_mem hia)) hstep
  refine ⟨back.map iaStrike, ⟨back, hback, hnb', (List.forall_mem_append.1 hfin).2, rfl⟩, ?_⟩
  rw [obeyedStrikes, ← hfront, List.map_append]

/-- The AI reads the moves that its client passes on. -/
theorem pending_conveys : Conveys Displaces PlayStep pending (ofClient forwarded) obeyedStrikes := by
  rintro s e t xs ⟨hplay, hstep⟩ hheld hok
  cases hstep with
  | client e c he hstep =>
      refine ⟨_, pending_client hheld hplay hstep rfl rfl ?_, rfl⟩
      rw [written_quiet e he, List.append_nil]
  | toAi e c he hsent hstep => exact ⟨_, pending_client hheld hplay hstep rfl rfl rfl, rfl⟩
  | fromAi res coupIa bytes rest c hbytes hreceive hstep =>
      exact ⟨_, pending_client hheld hplay hstep rfl rfl (List.append_nil _).symm, rfl⟩
  | ai e a rest out he hstep =>
      obtain ⟨ys, hys, hread⟩ := pending_ai hheld (fun x hx => hok x (List.mem_append_left _ hx)) hstep
      exact ⟨ys, hys, (List.append_nil xs).trans hread⟩
  | skip n a rest out hstep =>
      obtain ⟨ias, hstage, _⟩ := hheld
      exact absurd hstep (stage_skip hstage)

theorem unread_nil {xs : List Strike} (hfrom : s.fromAi = []) (h : unread s xs) : xs = [] := by
  obtain ⟨coups, hcoups, _, rfl⟩ := h
  rw [hfrom] at hcoups
  cases coups with
  | nil => rfl
  | cons coup coups => cases hcoups

theorem pending_nil {xs : List Strike} (hto : s.toAi = []) (h : pending s xs) : xs = [] := by
  obtain ⟨ias, hstage, _, _, rfl⟩ := h
  rw [hto] at hstage
  generalize hbytes : [] = bytes at hstage
  cases hstage with
  | early => rfl
  | oriented => cases hbytes
  | playing =>
      cases ias with
      | nil => rfl
      | cons ia ias => cases hbytes

/-- Before a match. -/
structure Fresh (s : State) : Prop where
  client : s.client.pc = .sendPartie
  pc : s.ai.main.pc = .readSens
  nbPartie : s.ai.main.nbPartie = 1
  toAi : s.toAi = []
  fromAi : s.fromAi = []

theorem unread_fresh (h : Fresh s) : unread s [] := ⟨[], h.fromAi, List.forall_mem_nil _, rfl⟩

theorem pending_fresh (h : Fresh s) : pending s [] := by
  refine ⟨[], ?_, h.nbPartie, List.forall_mem_nil _, rfl⟩
  rw [h.toAi]
  refine .early ?_ h.pc
  rw [h.client]
  trivial

/-- The AI of `p` is in the first game, on its own side. -/
structure Plays (p : Player) (a : AiPlayer.State) : Prop where
  sens : a.main.sens = sensOf p
  side : a.prolog.side = AiPlayer.sideOf (sensOf p)
  pc : a.main.pc = .play (firstGame (sensOf p)) ∨ a.main.pc = .read (firstGame (sensOf p))

theorem plays_pending {p : Player} {xs : List Strike} (h : pending s xs)
    (horient : ¬AiLink.Early s.client.pc → s.client.sens = sensOf p) :
    s.ai.main.nbPartie = 1 ∧ (s.ai.main.pc = .readSens ∨ Plays p s.ai) := by
  obtain ⟨ias, hstage, hnb, _, _⟩ := h
  refine ⟨hnb, ?_⟩
  generalize s.toAi = bytes at hstage
  cases hstage with
  | early _ hpc | oriented _ _ hpc => exact .inl hpc
  | playing _ hlate hsens hside hpc =>
      rw [horient hlate] at hsens hside hpc
      exact .inr ⟨hsens, hside, hpc⟩

/-- An AI that has read its side does not wait for it again. -/
theorem step_oriented {s t : JSicstus.State} {e : JSicstus.Event} {bytes rest : List UInt8}
    (h : JSicstus.Step s bytes e t rest) : t.pc ≠ .readSens := by
  have hloop (g : Client.Game) (sens : Bool) (nbPartie : Nat) : JSicstus.loopTop g sens nbPartie ≠ .readSens := by
    cases g <;> simp only [JSicstus.loopTop, JSicstus.loop1, JSicstus.loop2] <;> split_ifs <;> simp
  cases h with
  | readBoolean => exact hloop .game1 _ _
  | sendToNetwork b =>
      rw [JSicstus.State.played]
      split
      · simp
      · exact hloop _ _ _
  | readFromNetwork b bytes coup rest =>
      rcases b with ⟨g, _ | _⟩ <;> cases coup with
      | none => exact hloop _ _ _
      | some => first | exact hloop _ _ _ | simp [JSicstus.State.received]
  | skip => exact hloop .game2 _ _

variable {p : Player}

theorem plays_after {a b : AiPlayer.State} {e : AiPlayer.Event} {bytes rest out : List UInt8}
    (hb : b.main.pc = .readSens ∨ Plays p b) (hstep : AiPlayer.Step a bytes e b rest out) : Plays p b := by
  refine hb.resolve_left ?_
  cases hstep with
  | readBoolean _ _ _ hmain | generate _ _ _ _ hmain | force _ _ _ _ hmain | finPartie _ _ hmain | skip _ _ hmain =>
      exact step_oriented hmain

/-- An AI of the first game does not get to the second one. -/
theorem stays {a b : AiPlayer.State} {e : AiPlayer.Event} {bytes rest out : List UInt8} (hnb : a.main.nbPartie = 1)
    (ha : a.main.pc = .readSens ∨ Plays p a) (hb : b.main.pc = .readSens ∨ Plays p b)
    (hstep : AiPlayer.Step a bytes e b rest out) : e ≠ .finPartie ∧ e ≠ .skip := by
  have hplays {pc : JSicstus.Pc} (hpc : a.main.pc = pc) (hne : pc ≠ .readSens) : Plays p a :=
    ha.resolve_left (fun hearly => hne (hpc.symm.trans hearly))
  have hplays' := plays_after hb hstep
  constructor
  · rintro rfl
    cases hstep with
    | finPartie main rest hmain =>
        cases hmain with
        | readFromNetwork b _ _ _ hpc _ =>
            obtain rfl : b = firstGame (sensOf p) := by
              rcases (hplays hpc (by simp)).pc with hpc' | hpc' <;> rw [hpc] at hpc' <;> cases hpc'
              rfl
            -- the second game is no state of the first one
            have hover : (a.main.received (firstGame (sensOf p)) none).pc = .skip := by
              simp only [JSicstus.State.received, JSicstus.State.iterate, firstGame, JSicstus.loopTop, JSicstus.loop1,
                hnb]
              rfl
            rcases hplays'.pc with hpc' | hpc' <;> rw [hover] at hpc' <;> cases hpc'
  · rintro rfl
    cases hstep with
    | skip main rest hmain =>
        cases hmain with
        | skip _ hpc =>
            rcases (hplays hpc (by simp)).pc with hpc' | hpc' <;> rw [hpc] at hpc' <;> cases hpc'

end YokaiNoMori.Seat
