import YokaiNoMori.Client
import YokaiNoMori.Runs
import YokaiNoMori.Segments
import YokaiNoMori.Wire

namespace YokaiNoMori.ClientWire

open ProtocolYokai Runs Segments Client Wire

/-- What `sendPartieGetRep`, `sendCoupGetRep` and `readEnnemyAction` receive. -/
def wanted : Pc → Option Struct
  | .recvPartie => some .tPartieRep
  | .recvRep _ | .recvEnnemyRep _ => some .tCoupRep
  | .recvEnnemyCoup _ => some .tCoupReq
  | _ => none

/-- `stream` is all that the server sends, less what has been read of it. -/
structure Host where
  client : State
  stream : List UInt8

inductive Label
  | recv (struct : Struct) (segment used : List UInt8)
  | other (e : Event)

def Label.event : Label → Event
  | .recv struct _ used => .recv (readAs struct used)
  | .other e => e

/-- Each receive fills a variable of its own, whose content before is `mem`. -/
inductive Step : Host → Label → Host → Prop
  | recv (h) (struct) (mem : List UInt8) (len) (s) (hwanted : wanted h.client.pc = some struct)
      (hmem : mem.length = sizeof struct) (hpos : 0 < len) (hwant : len ≤ sizeof struct) (hlen : len ≤ h.stream.length)
      (hstep : Client.Step h.client (.recv (readAs struct (overwrite mem (h.stream.take len)))) s) :
      Step h (.recv struct (h.stream.take len) (overwrite mem (h.stream.take len))) ⟨s, h.stream.drop len⟩
  | other (h) (e) (s) (hrecv : ∀ m, e ≠ .recv m) (hstep : Client.Step h.client e s) :
      Step h (.other e) { h with client := s }

structure Initial (sent : List (List UInt8)) (h : Host) : Prop where
  client : Client.Initial h.client
  stream : h.stream = sent.flatten

def Label.receives : Label → Bool
  | .recv _ _ _ => true
  | .other _ => false

def received (tr : List Label) : Nat := tr.countP Label.receives

/-- The structure received is the next one the server has sent. -/
def Framed (sent : List (List UInt8)) (tr : List Label) : Label → Prop
  | .recv _ _ used => sent[received tr]? = some used
  | .other _ => True

/-- The receive is not cut short, and what the server has sent next has the size
asked for. -/
def Whole (sent : List (List UInt8)) (tr : List Label) : Label → Prop
  | .recv struct segment _ =>
      segment.length = sizeof struct ∧ ∀ frame, sent[received tr]? = some frame → frame.length = sizeof struct
  | .other _ => True

@[simp] theorem received_nil : received [] = 0 := rfl

@[simp] theorem received_recv (tr : List Label) (struct : Struct) (segment used : List UInt8) :
    received (tr ++ [.recv struct segment used]) = received tr + 1 := by
  simp [received, List.countP_append, Label.receives]

@[simp] theorem received_other (tr : List Label) (e : Event) : received (tr ++ [.other e]) = received tr := by
  simp [received, List.countP_append, Label.receives]

theorem step_client {h h' : Host} {l : Label} (hstep : Step h l h') : Client.Step h.client l.event h'.client := by
  cases hstep with
  | recv struct mem len s hwanted hmem hpos hwant hlen hs => exact hs
  | other e s hrecv hs => exact hs

theorem client_run {h h' : Host} {tr : List Label} (hrun : Run Step h tr h') :
    Run Client.Step h.client (tr.map Label.event) h'.client :=
  hrun.map Host.client Label.event fun _ _ _ hstep => step_client hstep

variable {sent : List (List UInt8)} {tr : List Label} {h h' : Host} {l : Label}

theorem step_framed (hinv : h.stream = remaining sent (received tr)) (hstep : Step h l h')
    (hwhole : Whole sent tr l) : Framed sent tr l ∧ h'.stream = remaining sent (received (tr ++ [l])) := by
  cases hstep with
  | recv struct mem len s hwanted hmem hpos hwant hlen hs =>
      rw [received_recv]
      exact read_next hinv hpos hlen hwhole.1 hmem hwhole.2
  | other e s hrecv hs =>
      rw [received_other]
      exact ⟨trivial, hinv⟩

theorem run_framed (hinit : Initial sent h) (hrun : Run Step h tr h') (hwhole : Throughout (Whole sent) tr) :
    Throughout (Framed sent) tr := by
  apply And.left
  apply hrun.assuming (fun tr h => h.stream = remaining sent (received tr)) hwhole hinit.stream
  intro tr t l u hinv hstep hl
  exact step_framed hinv hstep hl

end YokaiNoMori.ClientWire
