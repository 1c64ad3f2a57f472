import YokaiNoMori.Segments
import YokaiNoMori.Serveur
import YokaiNoMori.Wire

namespace YokaiNoMori.ServerWire

open ProtocolYokai Runs Segments Serveur Wire

/-- The variables that `recv` fills. One `moveReq` serves both players. -/
inductive Var
  | player1 | player2 | moveReq
deriving DecidableEq

def Var.struct : Var → Struct
  | .player1 | .player2 => .tPartieReq
  | .moveReq => .tCoupReq

/-- The connection and the variable of the `recv` that `main` stands at. -/
def target : Pc → Option (Player × Var)
  | .recvPartie .p1 => some (.p1, .player1)
  | .recvPartie .p2 => some (.p2, .player2)
  | .recvCoup t => some (t.call.conn, .moveReq)
  | _ => none

def content (s : State) : Var → Msg
  | .player1 => .partieReq s.player1
  | .player2 => .partieReq s.player2
  | .moveReq => .coupReq s.moveReq

/-- The player whose move `moveReq` holds. -/
def holder : Pc → Option Player
  | .validate t | .sendMover t | .sendOther t | .relay t => some t.call.conn
  | _ => none

/-- The move that `main` hands to the referee or to the opponent. -/
def coupOf : Event → Option TCoupReq
  | .validationCoup _ coup _ _ => some coup
  | .send _ (.coupReq coup) => some coup
  | _ => none

/-- `stream p` is all that player `p` sends, less what has been read of it. -/
@[ext] structure Host where
  server : State
  stream : Player → List UInt8
  memory : Var → List UInt8

def Host.segment (h : Host) (p : Player) (len : Nat) : List UInt8 := (h.stream p).take len

def Host.filled (h : Host) (p : Player) (var : Var) (len : Nat) : List UInt8 :=
  overwrite (h.memory var) (h.segment p len)

def Host.after (h : Host) (p : Player) (var : Var) (len : Nat) (s : State) : Host :=
  ⟨s, Function.update h.stream p ((h.stream p).drop len), Function.update h.memory var (h.filled p var len)⟩

/-- `used` is the content of the variable that a call of `main` has just filled,
or that it passes on. -/
inductive Label
  | recv (p : Player) (var : Var) (segment used : List UInt8)
  | move (p : Player) (e : Event) (used : List UInt8)
  | other (e : Event)

def Label.event : Label → Event
  | .recv p var _ used => .recv p (readAs var.struct used)
  | .move _ e _ | .other e => e

def Label.source : Label → Option Player
  | .recv p _ _ _ => some p
  | .move _ _ _ | .other _ => none

/-- `checkRecvrError` lets every positive count through, and `main` never asks
for the rest. -/
inductive Step : Host → Label → Host → Prop
  | recv (h) (p) (var) (len) (s) (htarget : target h.server.pc = some (p, var)) (hpos : 0 < len)
      (hwant : len ≤ sizeof var.struct) (hlen : len ≤ (h.stream p).length)
      (hstep : Serveur.Step h.server (.recv p (readAs var.struct (h.filled p var len))) s) :
      Step h (.recv p var (h.segment p len) (h.filled p var len)) (h.after p var len s)
  | move (h) (p) (e) (coup) (s) (hp : holder h.server.pc = some p) (he : coupOf e = some coup)
      (hstep : Serveur.Step h.server e s) :
      Step h (.move p e (h.memory .moveReq)) { h with server := s }
  | other (h) (e) (s) (hrecv : ∀ p m, e ≠ .recv p m) (he : coupOf e = none) (hstep : Serveur.Step h.server e s) :
      Step h (.other e) { h with server := s }

/-- Each player sends whole structures, and the variables start with any content. -/
structure Initial (sent : Player → List (List UInt8)) (h : Host) : Prop where
  server : Serveur.Initial h.server
  stream : ∀ p, h.stream p = (sent p).flatten
  whole : ∀ p, ∀ frame ∈ sent p, frame.length = sizeof .tCoupReq
  memory : ∀ var, (h.memory var).length = sizeof var.struct

def received (tr : List Label) (p : Player) : Nat := tr.countP fun l => l.source = some p

/-- The structure received is the next one its sender has sent, and a move is
validated and relayed as the last one its player has sent. -/
def Framed (sent : Player → List (List UInt8)) (tr : List Label) : Label → Prop
  | .recv p _ _ used => (sent p)[received tr p]? = some used
  | .move p e used =>
      ∃ n, received tr p = n + 1 ∧ (sent p)[n]? = some used ∧ coupOf e = some (coupReqOf used)
  | .other _ => True

def Whole : Label → Prop
  | .recv _ var segment _ => segment.length = sizeof var.struct
  | .move _ _ _ | .other _ => True

@[simp] theorem sizeof_struct (var : Var) : sizeof var.struct = 40 := by cases var <;> rfl

section After

variable (h : Host) (p : Player) (var : Var) (len : Nat) (s : State)

@[simp] theorem after_server : (h.after p var len s).server = s := rfl

@[simp] theorem after_stream : (h.after p var len s).stream p = (h.stream p).drop len :=
  Function.update_self p _ _

@[simp] theorem after_memory : (h.after p var len s).memory var = h.filled p var len :=
  Function.update_self var _ _

@[simp] theorem after_stream_ne {q : Player} (hq : q ≠ p) : (h.after p var len s).stream q = h.stream q :=
  Function.update_of_ne hq _ _

@[simp] theorem after_memory_ne {v : Var} (hv : v ≠ var) : (h.after p var len s).memory v = h.memory v :=
  Function.update_of_ne hv _ _

end After

@[simp] theorem received_nil (p : Player) : received [] p = 0 := rfl

@[simp] theorem received_snoc (tr : List Label) (l : Label) (p : Player) :
    received (tr ++ [l]) p = received tr p + if l.source = some p then 1 else 0 := by
  simp [received, List.countP_append, List.countP_cons]

theorem step_server {h h' : Host} {l : Label} (hstep : Step h l h') : Serveur.Step h.server l.event h'.server := by
  cases hstep with
  | recv p var len s htarget hpos hwant hlen hs => exact hs
  | move p e coup s hp he hs => exact hs
  | other e s hrecv he hs => exact hs

theorem server_run {h h' : Host} {tr : List Label} (hrun : Run Step h tr h') :
    Run Serveur.Step h.server (tr.map Label.event) h'.server :=
  hrun.map Host.server Label.event fun _ _ _ hstep => step_server hstep

section ServerSteps

variable {s s' : State} {e : Event} {p : Player} {var : Var} {used : List UInt8}

theorem loopTop_holder (player1Sud : Bool) (gameNumber : Int) : holder (loopTop player1Sud gameNumber) = none := by
  rw [loopTop]
  split <;> rfl

theorem continue_keeps (s : State) (t : Turn) :
    content (s.continue t) = content s ∧ holder (s.continue t).pc = none := by
  rw [State.continue]
  split
  · exact ⟨rfl, rfl⟩
  · exact ⟨rfl, loopTop_holder _ _⟩

theorem finish_keeps (s : State) (t : Turn) : content (s.finish t) = content s ∧ holder (s.finish t).pc = none := by
  simp only [State.finish]
  split
  · exact ⟨rfl, rfl⟩
  · exact ⟨rfl, loopTop_holder _ _⟩

theorem orient_keeps (s : State) : content s.orient = content s ∧ holder s.orient.pc = none := by
  rw [State.orient]
  split <;> exact ⟨rfl, rfl⟩

/-- Between two receives no variable is written. -/
theorem step_keeps (hstep : Serveur.Step s e s') (he : ∀ p m, e ≠ .recv p m) :
    content s' = content s ∧ ∀ p, holder s'.pc = some p → holder s.pc = some p := by
  have hnone {pc pc' : Pc} (hpc : holder pc' = none) (p : Player) (hp : holder pc' = some p) : holder pc = some p := by
    rw [hpc] at hp
    cases hp
  cases hstep with
  | recvPartie1 req hpc => exact absurd rfl (he _ _)
  | recvPartie2 req hpc => exact absurd rfl (he _ _)
  | recvCoup t req hpc => exact absurd rfl (he _ _)
  | sendPartie1 hpc => exact ⟨rfl, hnone rfl⟩
  | sendPartie2 hpc => exact ⟨(orient_keeps s).1, hnone (orient_keeps s).2⟩
  | initialise hpc => exact ⟨rfl, hnone (loopTop_holder _ _)⟩
  | validate t valid prop hpc => exact ⟨rfl, fun p hp => by rw [hpc]; exact hp⟩
  | sendMover t hpc => exact ⟨rfl, fun p hp => by rw [hpc]; exact hp⟩
  | sendOther t hpc =>
      refine ⟨rfl, fun p hp => ?_⟩
      rw [hpc]
      by_cases hcont : s.moveRep.propCoup = .cont
      · simpa [hcont, holder] using hp
      · simp [hcont, holder] at hp
  | relay t hpc => exact ⟨(continue_keeps s t).1, hnone (continue_keeps s t).2⟩
  | restart t hpc => exact ⟨rfl, hnone rfl⟩
  | store t hpc => exact ⟨(finish_keeps s t).1, hnone (finish_keeps s t).2⟩
  | recvError q playerId err game hpc hcheck => exact ⟨rfl, hnone rfl⟩
  | sendError q playerId err game hpc hcheck => exact ⟨rfl, hnone rfl⟩
  | sigpipe q playerId hpc => exact ⟨rfl, hnone rfl⟩
  | endGame hpc => exact ⟨rfl, hnone rfl⟩

theorem step_recv (hstep : Serveur.Step s (.recv p (readAs var.struct used)) s') (htarget : target s.pc = some (p, var))
    {q : Player} (hq : holder s'.pc = some q) : q = p ∧ var = .moveReq ∧ s'.moveReq = coupReqOf used := by
  generalize hm : readAs var.struct used = m at hstep
  cases hstep with
  | recvPartie1 req hpc => cases hq
  | recvPartie2 req hpc => cases hq
  | recvCoup t req hpc =>
      rw [hpc] at htarget
      obtain ⟨_, rfl⟩ := Prod.mk.inj (Option.some.inj htarget)
      exact ⟨(Option.some.inj hq).symm, rfl, (Msg.coupReq.inj hm).symm⟩

theorem step_coup {coup : TCoupReq} (hstep : Serveur.Step s e s') (he : coupOf e = some coup) : coup = s.moveReq := by
  cases hstep with
  | validate t valid prop hpc => exact (Option.some.inj he).symm
  | relay t hpc => exact (Option.some.inj he).symm
  | _ => cases he

theorem coupOf_ne_recv {coup : TCoupReq} (he : coupOf e = some coup) (p : Player) (m : Msg) : e ≠ .recv p m := by
  rintro rfl
  cases he

end ServerSteps

section Tracking

variable {sent : Player → List (List UInt8)} {tr : List Label} {h h' : Host} {l : Label}

/-- The stream stands between two structures, and `moveReq` is the last one its
player has sent. -/
structure Tracks (sent : Player → List (List UInt8)) (tr : List Label) (h : Host) : Prop where
  stream : ∀ p, h.stream p = remaining (sent p) (received tr p)
  memory : ∀ var, (h.memory var).length = sizeof var.struct
  move : ∀ p, holder h.server.pc = some p → ∃ n, received tr p = n + 1 ∧
    (sent p)[n]? = some (h.memory .moveReq) ∧ h.server.moveReq = coupReqOf (h.memory .moveReq)

theorem initial_tracks (hinit : Initial sent h) : Tracks sent [] h where
  stream := hinit.stream
  memory := hinit.memory
  move p hp := by
    rw [hinit.server.pc] at hp
    cases hp

/-- A receive of all the bytes asked for stores the next structure. -/
theorem filled_whole (hsent : ∀ p, ∀ frame ∈ sent p, frame.length = sizeof .tCoupReq) (hinv : Tracks sent tr h)
    {p : Player} {var : Var} {len : Nat} (hpos : 0 < len) (hlen : len ≤ (h.stream p).length)
    (hwhole : (h.segment p len).length = sizeof var.struct) :
    (sent p)[received tr p]? = some (h.filled p var len) ∧
      (h.stream p).drop len = remaining (sent p) (received tr p + 1) := by
  have hsize : ∀ frame, (sent p)[received tr p]? = some frame → frame.length = sizeof var.struct := by
    intro frame hframe
    rw [hsent p frame (List.mem_of_getElem? hframe), sizeof_struct]
    rfl
  exact read_next (hinv.stream p) hpos hlen hwhole (hinv.memory var) hsize

theorem step_framed (hsent : ∀ p, ∀ frame ∈ sent p, frame.length = sizeof .tCoupReq) (hinv : Tracks sent tr h)
    (hstep : Step h l h') (hwhole : Whole l) : Framed sent tr l := by
  cases hstep with
  | recv p var len s htarget hpos hwant hlen hs => exact (filled_whole hsent hinv hpos hlen hwhole).1
  | move p e coup s hp he hs =>
      obtain ⟨n, hn, hframe, hmove⟩ := hinv.move p hp
      refine ⟨n, hn, hframe, ?_⟩
      rw [he, step_coup hs he, hmove]
  | other e s hrecv he hs => trivial

theorem keep_tracks (hinv : Tracks sent tr h) {s : State} (hsource : l.source = none)
    (hkeep : content s = content h.server ∧ ∀ p, holder s.pc = some p → holder h.server.pc = some p) :
    Tracks sent (tr ++ [l]) { h with server := s } where
  stream p := by simpa [hsource] using hinv.stream p
  memory := hinv.memory
  move p hp := by
    obtain ⟨n, hn, hframe, hmove⟩ := hinv.move p (hkeep.2 p hp)
    have hreq : s.moveReq = h.server.moveReq := Msg.coupReq.inj (congrFun hkeep.1 .moveReq)
    exact ⟨n, by simpa [hsource] using hn, hframe, hreq.trans hmove⟩

theorem step_tracks (hsent : ∀ p, ∀ frame ∈ sent p, frame.length = sizeof .tCoupReq) (hinv : Tracks sent tr h)
    (hstep : Step h l h') (hwhole : Whole l) : Tracks sent (tr ++ [l]) h' := by
  cases hstep with
  | recv p var len s htarget hpos hwant hlen hs =>
      obtain ⟨hframe, hleft⟩ := filled_whole hsent hinv hpos hlen hwhole
      refine ⟨?_, ?_, ?_⟩
      · intro q
        by_cases hq : q = p
        · subst hq
          simpa [Label.source] using hleft
        · simpa [Label.source, hq, Ne.symm hq] using hinv.stream q
      · intro v
        by_cases hv : v = var
        · subst hv
          rw [after_memory, hsent p _ (List.mem_of_getElem? hframe), sizeof_struct]
          rfl
        · rw [after_memory_ne h p var len s hv, hinv.memory v]
      · intro q hq
        obtain ⟨rfl, rfl, hmove⟩ := step_recv hs htarget hq
        refine ⟨received tr q, by simp [Label.source], ?_, ?_⟩
        · simpa using hframe
        · simpa using hmove
  | move p e coup s hp he hs => exact keep_tracks hinv rfl (step_keeps hs (coupOf_ne_recv he))
  | other e s hrecv he hs => exact keep_tracks hinv rfl (step_keeps hs hrecv)

theorem run_framed (hinit : Initial sent h) (hrun : Run Step h tr h') (hwhole : ∀ l ∈ tr, Whole l) :
    Throughout (Framed sent) tr := by
  apply And.left
  apply hrun.assuming (Tracks sent) (throughout_of_forall hwhole) (initial_tracks hinit)
  intro tr t l u hinv hstep hl
  exact ⟨step_framed hinit.whole hinv hstep hl, step_tracks hinit.whole hinv hstep hl⟩

end Tracking

section Simulation

variable {s s' : State} {e : Event} {p : Player} {m : Msg} {tr : List Event}

def incoming (p : Player) : Event → Option Msg
  | .recv q m => if q = p then some m else none
  | _ => none

def inbox (tr : List Event) (p : Player) : List Msg := tr.filterMap (incoming p)

/-- A host with the bytes of whole messages, in its variables and still to come. -/
def Host.of (s : State) (rest : Player → List Msg) : Host where
  server := s
  stream p := ((rest p).map (image (0, 0))).flatten
  memory var := image (0, 0) (content s var)

/-- What is still to come when `e` is to happen next. -/
def pending (e : Event) (rest : Player → List Msg) (p : Player) : List Msg := (incoming p e).toList ++ rest p

theorem inbox_snoc (tr : List Event) (e : Event) (rest : Player → List Msg) (p : Player) :
    inbox (tr ++ [e]) p ++ rest p = inbox tr p ++ pending e rest p := by
  cases h : incoming p e <;> simp [inbox, pending, h]

@[simp] theorem pending_recv (p : Player) (m : Msg) (rest : Player → List Msg) :
    pending (.recv p m) rest p = m :: rest p := by
  simp [pending, incoming]

@[simp] theorem pending_recv_ne {p q : Player} (m : Msg) (rest : Player → List Msg) (h : q ≠ p) :
    pending (.recv p m) rest q = rest q := by
  simp [pending, incoming, Ne.symm h]

theorem incoming_other (he : ∀ p m, e ≠ .recv p m) (p : Player) : incoming p e = none := by
  cases e with
  | recv q m => exact absurd rfl (he q m)
  | _ => rfl

theorem pending_other (he : ∀ p m, e ≠ .recv p m) (rest : Player → List Msg) : pending e rest = rest := by
  funext p
  rw [pending, incoming_other he]
  rfl

theorem recv_target (hstep : Serveur.Step s (.recv p m) s') :
    ∃ var, target s.pc = some (p, var) ∧ structOf m = var.struct ∧ content s' = Function.update (content s) var m := by
  cases hstep with
  | recvPartie1 req hpc =>
      refine ⟨.player1, by rw [hpc]; rfl, rfl, ?_⟩
      funext v
      cases v <;> rfl
  | recvPartie2 req hpc =>
      refine ⟨.player2, by rw [hpc]; rfl, rfl, ?_⟩
      funext v
      cases v <;> rfl
  | recvCoup t req hpc =>
      refine ⟨.moveReq, by rw [hpc]; rfl, rfl, ?_⟩
      funext v
      cases v <;> rfl

theorem coup_holder {coup : TCoupReq} (hstep : Serveur.Step s e s') (he : coupOf e = some coup) :
    ∃ p, holder s.pc = some p := by
  cases hstep with
  | validate t valid prop hpc => exact ⟨_, congrArg holder hpc⟩
  | relay t hpc => exact ⟨_, congrArg holder hpc⟩
  | _ => cases he

theorem length_content (var : Var) (h : Fits (content s var)) :
    (image (0, 0) (content s var)).length = sizeof var.struct := by
  rw [length_image h]
  cases var <;> rfl

/-- The server's receive of a message is a receive of all its bytes. -/
theorem recv_whole (hstep : Serveur.Step s (.recv p m) s') (hcontent : ∀ var, Fits (content s var)) (hfits : Fits m)
    (rest : Player → List Msg) :
    (∃ l, Step (Host.of s (pending (.recv p m) rest)) l (Host.of s' rest) ∧ l.event = .recv p m ∧ Whole l) ∧
      ∀ var, Fits (content s' var) := by
  obtain ⟨var, htarget, hkind, hafter⟩ := recv_target hstep
  have hlen : (image (0, 0) m).length = sizeof var.struct := by rw [length_image hfits, hkind]
  let h := Host.of s (pending (.recv p m) rest)
  have hstream : h.stream p = image (0, 0) m ++ ((rest p).map (image (0, 0))).flatten := by simp [h, Host.of]
  have hsegment : h.segment p (image (0, 0) m).length = image (0, 0) m := by
    rw [Host.segment, hstream, List.take_left]
  have hfilled : h.filled p var (image (0, 0) m).length = image (0, 0) m := by
    rw [Host.filled, hsegment]
    apply overwrite_whole
    rw [hlen]
    exact Nat.le_of_eq (length_content var (hcontent var))
  have hhost : h.after p var (image (0, 0) m).length s' = Host.of s' rest := by
    apply Host.ext
    · rfl
    · funext q
      by_cases hq : q = p
      · subst hq
        rw [after_stream, hstream, List.drop_left]
        rfl
      · rw [after_stream_ne _ _ _ _ _ hq]
        simp [h, Host.of, hq]
    · funext v
      by_cases hv : v = var
      · subst hv
        rw [after_memory, hfilled]
        simp [Host.of, hafter]
      · rw [after_memory_ne _ _ _ _ _ hv]
        simp [h, Host.of, hafter, hv]
  have hread : readAs var.struct (image (0, 0) m) = m := by rw [← hkind, readAs_image hfits]
  have hwire := Step.recv h p var (image (0, 0) m).length s' htarget (by cases var <;> simp [hlen]) (Nat.le_of_eq hlen)
    (by simp [hstream]) (by rw [hfilled, hread]; exact hstep)
  rw [hsegment, hfilled, hhost] at hwire
  constructor
  · exact ⟨_, hwire, congrArg (Event.recv p) hread, hlen⟩
  · intro v
    rw [hafter]
    by_cases hv : v = var
    · rw [hv, Function.update_self]
      exact hfits
    · rw [Function.update_of_ne hv]
      exact hcontent v

theorem other_whole (hstep : Serveur.Step s e s') (he : ∀ p m, e ≠ .recv p m) (rest : Player → List Msg) :
    ∃ l, Step (Host.of s rest) l (Host.of s' rest) ∧ l.event = e ∧ Whole l := by
  have hhost : Host.of s' rest = { Host.of s rest with server := s' } := by
    rw [Host.of, (step_keeps hstep he).1]
    rfl
  rw [hhost]
  cases hcoup : coupOf e with
  | none => exact ⟨_, .other (Host.of s rest) e s' he hcoup hstep, rfl, trivial⟩
  | some coup =>
      obtain ⟨p, hp⟩ := coup_holder hstep hcoup
      exact ⟨_, .move (Host.of s rest) p e coup s' hp hcoup hstep, rfl, trivial⟩

theorem step_whole (hstep : Serveur.Step s e s') (hcontent : ∀ var, Fits (content s var))
    (hfits : ∀ p, ∀ m ∈ incoming p e, Fits m) (rest : Player → List Msg) :
    (∃ l, Step (Host.of s (pending e rest)) l (Host.of s' rest) ∧ l.event = e ∧ Whole l) ∧
      ∀ var, Fits (content s' var) := by
  by_cases hrecv : ∃ p m, e = .recv p m
  · obtain ⟨p, m, rfl⟩ := hrecv
    exact recv_whole hstep hcontent (hfits p m (by simp [incoming])) rest
  · have he : ∀ p m, e ≠ .recv p m := fun p m h => hrecv ⟨p, m, h⟩
    rw [pending_other he]
    exact ⟨other_whole hstep he rest, (step_keeps hstep he).1 ▸ hcontent⟩

/-- Every run of the server on whole messages is a run on their bytes, none of
whose receives is cut short. -/
theorem whole_run (hrun : Run Serveur.Step s tr s') (hcontent : ∀ var, Fits (content s var))
    (hfits : ∀ p, ∀ m ∈ inbox tr p, Fits m) (rest : Player → List Msg) :
    (∃ tr', Run Step (Host.of s fun p => inbox tr p ++ rest p) tr' (Host.of s' rest) ∧ tr'.map Label.event = tr ∧
      ∀ l ∈ tr', Whole l) ∧ ∀ var, Fits (content s' var) := by
  induction hrun generalizing rest with
  | nil => exact ⟨⟨[], .nil, rfl, by simp⟩, hcontent⟩
  | @snoc tr t e u hbefore hstep ih =>
      have hfits' : ∀ p, (∀ m ∈ inbox tr p, Fits m) ∧ ∀ m ∈ incoming p e, Fits m := by
        intro p
        have hp := hfits p
        have hsnoc := inbox_snoc tr e (fun _ => []) p
        simp only [List.append_nil, pending] at hsnoc
        rw [hsnoc] at hp
        simpa [or_imp, forall_and] using hp
      obtain ⟨⟨tr', hrun', hevents, hwhole⟩, hcontent'⟩ := ih (fun p => (hfits' p).1) (pending e rest)
      obtain ⟨⟨l, hl, hevent, hwhole'⟩, hcontent''⟩ := step_whole hstep hcontent' (fun p => (hfits' p).2) rest
      refine ⟨⟨tr' ++ [l], ?_, ?_, ?_⟩, hcontent''⟩
      · simp only [inbox_snoc]
        exact hrun'.snoc hl
      · rw [List.map_append, hevents, List.map_singleton, hevent]
      · simpa [or_imp, forall_and] using ⟨hwhole, hwhole'⟩

end Simulation

end YokaiNoMori.ServerWire
