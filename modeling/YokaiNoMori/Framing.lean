import YokaiNoMori.ClientWire
import YokaiNoMori.Lockstep
import YokaiNoMori.ServerWire

namespace YokaiNoMori.Framing

open ProtocolYokai Runs Segments Wire

/-- In runs without a receive that is cut short, the structures that go `up` to
the server and `down` to a client are received as they were sent. Those for a
client must also come in the order it asks for. -/
theorem frames_preserved (up down : Serveur.Player → List (List UInt8)) :
    (∀ h₀ h tr, ServerWire.Initial up h₀ → Run ServerWire.Step h₀ tr h → (∀ l ∈ tr, ServerWire.Whole l) →
      Throughout (ServerWire.Framed up) tr) ∧
    ∀ p h₀ h tr, ClientWire.Initial (down p) h₀ → Run ClientWire.Step h₀ tr h →
      Throughout (ClientWire.Whole (down p)) tr → Throughout (ClientWire.Framed (down p)) tr :=
  ⟨fun _ _ _ hinit hrun hwhole => ServerWire.run_framed hinit hrun hwhole,
    fun _ _ _ _ hinit hrun hwhole => ClientWire.run_framed hinit hrun hwhole⟩

section Opening

open Serveur ServerRuns ServerWire

def request : TPartieReq := ⟨.partie, List.replicate 30 0, .sud⟩

def strike (dep arr : TCase) : TCoupReq := ⟨.coup, 1, 0, ⟨.nord, 0⟩, ⟨⟨dep, arr, 0, (0, 0, 0)⟩⟩⟩

def strike1 : TCoupReq := strike ⟨2, 2⟩ ⟨2, 3⟩

def strike2 : TCoupReq := strike ⟨3, 5⟩ ⟨3, 4⟩

def fresh : Serveur.State := { start with player1 := request, player2 := request }

/-- The second move of the match is still to come. -/
def awaited : Player → List Msg
  | .p1 => []
  | .p2 => [.coupReq strike2]

def messages : Player → List Msg
  | .p1 => [.partieReq request, .coupReq strike1]
  | .p2 => [.partieReq request, .coupReq strike2]

def frames (p : Player) : List (List UInt8) := (messages p).map (image (0, 0))

def openingTrace : List Event :=
  joining fresh request request ++ relaying ⟨.player1First, .first⟩ strike1 true

def opened : Serveur.State :=
  (answered (joined fresh request request) ⟨.player1First, .first⟩ strike1 true .cont).continue ⟨.player1First, .first⟩

theorem fits_fresh (var : Var) : Fits (content fresh var) := by cases var <;> decide

theorem fits_messages (p : Player) : ∀ m ∈ messages p, Fits m := by cases p <;> decide

theorem inbox_opening (p : Player) : inbox openingTrace p ++ awaited p = messages p := by cases p <;> rfl

theorem fresh_initial : ServerWire.Initial frames (Host.of fresh messages) where
  server := ⟨rfl, rfl, rfl, rfl, rfl, rfl⟩
  stream _ := rfl
  whole p frame hframe := by
    obtain ⟨m, hm, rfl⟩ := List.mem_map.1 hframe
    rw [length_image (fits_messages p m hm)]
    revert m
    cases p <;> decide
  memory var := length_content var (fits_fresh var)

theorem opening_run : ∃ tr, Run ServerWire.Step (Host.of fresh messages) tr (Host.of opened awaited) ∧
    tr.map Label.event = openingTrace ∧ ∀ l ∈ tr, ServerWire.Whole l := by
  have hrun : Run Serveur.Step fresh openingTrace opened :=
    (joining_run fresh request request rfl rfl rfl).append (relaying_run _ ⟨.player1First, .first⟩ strike1 true rfl)
  have hfits : ∀ p, ∀ m ∈ inbox openingTrace p, Fits m := by
    intro p m hm
    apply fits_messages p m
    rw [← inbox_opening]
    exact List.mem_append_left _ hm
  have hwhole := (whole_run hrun fits_fresh hfits awaited).1
  simp only [inbox_opening] at hwhole
  exact hwhole

/-- The first 28 bytes of player 2's move, and what was in the variable behind them. -/
def mixed : List UInt8 := (image (0, 0) (.coupReq strike2)).take 28 ++ (image (0, 0) (.coupReq strike1)).drop 28

/-- Player 2's move is validated with player 1's arrival square. -/
theorem cut_move : ServerWire.Initial frames (Host.of fresh messages) ∧ ∃ tr h,
    Run ServerWire.Step (Host.of fresh messages)
      (tr ++ [.move .p2 (.validationCoup 2 (strike ⟨3, 5⟩ ⟨2, 3⟩) true .cont) mixed]) h ∧
    ¬Throughout (Framed frames) (tr ++ [.move .p2 (.validationCoup 2 (strike ⟨3, 5⟩ ⟨2, 3⟩) true .cont) mixed]) := by
  obtain ⟨tr, hrun, _, _⟩ := opening_run
  let turn : Turn := ⟨.player1First, .second⟩
  let s : Serveur.State := { opened with moveReq := coupReqOf mixed, pc := .validate turn }
  have hrecv : ServerWire.Step (Host.of opened awaited) _ _ :=
    .recv (Host.of opened awaited) .p2 .moveReq 28 s rfl (by decide) (by decide) (by decide)
      (.recvCoup opened turn (coupReqOf mixed) rfl)
  have hmove : ServerWire.Step ((Host.of opened awaited).after .p2 .moveReq 28 s) _ _ :=
    .move _ .p2 (.validationCoup 2 (coupReqOf mixed) true .cont) _ (s.judge turn true .cont) rfl rfl
      (.validate s turn true .cont rfl)
  have hmixed : coupReqOf mixed = strike ⟨3, 5⟩ ⟨2, 3⟩ := by decide
  rw [hmixed, after_memory] at hmove
  refine ⟨fresh_initial, _, _, (hrun.snoc hrecv).snoc hmove, ?_⟩
  intro hframed
  obtain ⟨n, _, hframe, _⟩ := ((throughout_snoc _ _ _).1 hframed).2
  have hmem : mixed ∈ frames .p2 := List.mem_of_getElem? hframe
  revert hmem
  decide

end Opening

section Answer

open Client Lockstep ClientWire

def answer : List UInt8 := image (0, 0) (.partieRep ⟨.errOk, List.replicate 30 0, .ok⟩)

def answerTrace : List ClientWire.Label :=
  [.other (.send (.partieReq ⟨.partie, [], .sud⟩)), .recv .tPartieRep answer answer, .other (.sendSens true)]

theorem answer_run : ∃ h, Run ClientWire.Step ⟨joueur, answer⟩ answerTrace h := by
  let asked : Client.State := { joueur with pc := .recvPartie }
  let told : Client.State := { joueur with sens := true, pc := .sendSens }
  have h1 : ClientWire.Step ⟨joueur, answer⟩ _ ⟨asked, answer⟩ := .other _ _ _ (by simp) (.sendPartie joueur rfl)
  have h2 : ClientWire.Step ⟨asked, answer⟩ _ ⟨told, []⟩ :=
    .recv _ .tPartieRep answer 40 told rfl rfl (by decide) (by decide) (by decide) (.recvPartie asked _ rfl)
  have h3 : ClientWire.Step ⟨told, []⟩ _ _ := .other _ _ _ (by simp) (.sendSens told rfl)
  exact ⟨_, ((Run.single h1).snoc h2).snoc h3⟩

theorem answer_whole : Throughout (ClientWire.Whole [answer]) answerTrace := by
  have hsize : ∀ frame ∈ [answer], frame.length = sizeof .tPartieRep := by decide
  intro before l after htr
  have hl : l ∈ answerTrace := by simp [htr]
  simp only [answerTrace, List.mem_cons, List.not_mem_nil, or_false] at hl
  rcases hl with rfl | rfl | rfl
  · trivial
  · exact ⟨rfl, fun frame hframe => hsize frame (List.mem_of_getElem? hframe)⟩
  · trivial

end Answer

theorem frames_preserved_opening :
    (∃ tr h, Run ServerWire.Step (.of fresh messages) tr h ∧ tr.map ServerWire.Label.event = openingTrace ∧
      Throughout (ServerWire.Framed frames) tr) ∧
    Throughout (ClientWire.Framed [answer]) answerTrace := by
  obtain ⟨tr, hrun, hevents, hwhole⟩ := opening_run
  obtain ⟨h, hrun'⟩ := answer_run
  have hinit : ClientWire.Initial [answer] ⟨Lockstep.joueur, answer⟩ := ⟨⟨rfl, rfl, rfl, rfl⟩, rfl⟩
  obtain ⟨hserver, hclient⟩ := frames_preserved frames fun _ => [answer]
  exact ⟨⟨tr, _, hrun, hevents, hserver _ _ tr fresh_initial hrun hwhole⟩,
    hclient .p1 _ h answerTrace hinit hrun' answer_whole⟩

end YokaiNoMori.Framing
