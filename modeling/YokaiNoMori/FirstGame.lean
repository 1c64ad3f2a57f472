import YokaiNoMori.Delivery
import YokaiNoMori.Lines

namespace YokaiNoMori.FirstGame

open ProtocolYokai Runs Serveur FullMatch Strikes Conveyor Channels Carriers Delivery JavaCoup PrologSession CoupFromAI
open Conversation Dialogue ClientDialogue ServerDialogue Lockstep Orientations Lines
open Seat (Plays made obeyed firstGame played_firstGame received_firstGame plays_after stays)
open Board (Side opponent opponent_opponent)
open SessionInvariant (SoundSession)
open SessionAgreement (position)

variable {s t u : FullMatch.State} {tr : List FullMatch.Label} {p : Player}

theorem game_run (hrun : Run OpenStep s tr t) : ∃ tr', Run Match.Step s.game tr' t.game :=
  ⟨_, hrun.project (fun s => s.game) gameEvent fun _ _ _ h => (game_projects h).imp_right
    fun ⟨d, hsome, hmatch⟩ => ⟨d, hsome, hmatch.2⟩⟩

theorem ai_plays (hinit : FullMatch.Initial s) (hrun : Run OpenStep s tr t) (p : Player) :
    (t.ai p).main.nbPartie = 1 ∧ ((t.ai p).main.pc = .readSens ∨ Plays p (t.ai p)) := by
  obtain ⟨flying, ⟨front, back, hpending, _, _⟩, _⟩ := delivered hinit hrun p.other
  rw [other_other] at hpending
  obtain ⟨tr', hgame⟩ := game_run hrun
  exact Seat.plays_pending hpending fun hlate => client_oriented hinit.game hgame hlate

/-- The AI of `p` has made or obeyed the first `n` moves of the line. -/
inductive Follows (p : Player) (a : AiPlayer.State) : Nat → List Strike → List Strike → Prop
  | waiting (hpc : a.main.pc = .readSens) : Follows p a 0 [] []
  | playing (n : Nat) (r : Session) (hline : line n = some r) (hsame : position a.prolog = position r)
      (hturn : a.main.pc = if mover n = p then .play (firstGame (sensOf p)) else .read (firstGame (sensOf p))) :
      Follows p a n (share p n) (share p.other n)

theorem session_ext {r r' : Session} (hside : r.side = r'.side) (hsame : position r = position r') : r = r' := by
  rcases r with ⟨side, opposide, board, captN, captS, opposed⟩
  rcases r' with ⟨side', opposide', board', captN', captS', opposed'⟩
  obtain rfl : side = side' := hside
  rw [position, position] at hsame
  simp only [Prod.mk.injEq] at hsame
  obtain ⟨rfl, rfl, rfl⟩ := hsame
  subst opposed opposed'
  rfl

theorem follows_readBoolean {a : AiPlayer.State} {sens : Bool} {main : JSicstus.State} {bytes rest : List UInt8}
    {n : Nat} {own heard : List Strike} (h : Follows p a n own heard) (hnb : a.main.nbPartie = 1)
    (hmain : JSicstus.Step a.main bytes (.readBoolean sens) main rest)
    (hplays : Plays p ⟨main, init (AiPlayer.sideOf sens)⟩) :
    ∃ m, Follows p ⟨main, init (AiPlayer.sideOf sens)⟩ m own heard := by
  cases hmain with
  | readBoolean byte rest hpc =>
      cases h with
      | playing n r _ _ hturn =>
          rw [hpc] at hturn
          split at hturn <;> cases hturn
      | waiting =>
          refine ⟨0, .playing 0 (init .north) rfl rfl ?_⟩
          have hsens : decide (byte ≠ 0) = sensOf p := hplays.sens
          simp only [hsens, JSicstus.loop1, hnb, if_true]
          cases p <;> rfl

theorem follows_generate {a : AiPlayer.State} {coup : Coup} {main : JSicstus.State} {prolog : Session}
    {bytes rest : List UInt8} {n : Nat} {own heard : List Strike} (h : Follows p a n own heard)
    (hnb : a.main.nbPartie = 1) (hplays : Plays p a)
    (hmain : JSicstus.Step a.main bytes .sendToNetwork main rest) (hcall : generateMove a.prolog = some (coup, prolog)) :
    ∃ m, Follows p ⟨main, prolog⟩ m (own ++ [coupStrike coup]) heard := by
  cases hmain with
  | sendToNetwork b _ hpc =>
      cases h with
      | waiting hpc' => rw [hpc] at hpc'; cases hpc'
      | playing n r hline hsame hturn =>
          rw [hpc] at hturn
          split at hturn
          · rename_i hmover
            obtain rfl := JSicstus.Pc.play.inj hturn
            have hside : a.prolog.side = r.side := by rw [hplays.side, line_side hline, hmover]
            obtain rfl := session_ext hside hsame
            obtain ⟨hline', hmove⟩ := line_of_generate hline hcall
            have hother : mover n ≠ p.other := by rw [hmover]; exact (other_ne_self p).symm
            rw [← share_mine hmover hmove, ← share_other hother, played_firstGame hnb hplays.sens]
            refine ⟨n + 1, .playing (n + 1) _ hline' rfl ?_⟩
            rw [mover, hmover, if_neg (other_ne_self p)]
          · cases hturn

theorem follows_force {a : AiPlayer.State} {coup : Coup} {main : JSicstus.State} {prolog : Session}
    {bytes rest : List UInt8} {m n : Nat} {r₀ : Session} {own heard : List Strike} (h : Follows p a n own heard)
    (hnb : a.main.nbPartie = 1) (hplays : Plays p a)
    (hmain : JSicstus.Step a.main bytes (.readFromNetwork (some coup)) main rest)
    (hcall : forceEnnemyStrike a.prolog coup = some prolog) (hline : line m = some r₀)
    (hheard : heard ++ [coupStrike coup] <+: share p.other m) :
    ∃ m, Follows p ⟨main, prolog⟩ m own (heard ++ [coupStrike coup]) := by
  cases hmain with
  | readFromNetwork b _ _ _ hpc hread =>
      cases h with
      | waiting hpc' => rw [hpc] at hpc'; cases hpc'
      | playing n r hline' hsame hturn =>
          rw [hpc] at hturn
          split at hturn
          · cases hturn
          · rename_i hmover
            obtain rfl := JSicstus.Pc.read.inj hturn
            have hother : mover n = p.other := by
              rcases mover_cases p n with ⟨hmine, _⟩ | ⟨hmine, _⟩
              · exact absurd hmine hmover
              · exact hmine
            obtain ⟨hlt, coup', hmove, hstrike⟩ := share_next hline hother hheard
            obtain ⟨r', hnext⟩ := line_le hline hlt
            obtain ⟨r₁, coup₁, answer, hline₁, hgen, rfl, hmove₁⟩ := line_succ hnext
            obtain rfl := Option.some.inj (hline'.symm.trans hline₁)
            obtain rfl := Option.some.inj (hmove.symm.trans hmove₁)
            have hopposide : a.prolog.opposide = r.side := by
              rw [a.prolog.opposed, hplays.side, line_side hline', hother]
              cases p <;> rfl
            obtain ⟨prolog', hforce, hposition⟩ :=
              strike_follows (line_sound hline') hgen hopposide hsame (read_matching hread) hstrike
            obtain rfl := Option.some.inj (hcall.symm.trans hforce)
            rw [hstrike, ← share_mine hother hmove, ← share_other hmover, received_firstGame hnb hplays.sens]
            refine ⟨n + 1, .playing (n + 1) _ hnext hposition ?_⟩
            rw [mover, hother, other_other, if_pos rfl]

theorem follows_ai {a b : AiPlayer.State} {e : AiPlayer.Event} {m n : Nat} {r₀ : Session} {bytes rest out : List UInt8}
    {own heard : List Strike} (h : Follows p a n own heard) (hnb : a.main.nbPartie = 1)
    (ha : a.main.pc = .readSens ∨ Plays p a) (hb : b.main.pc = .readSens ∨ Plays p b)
    (hstep : AiPlayer.Step a bytes e b rest out) (hline : line m = some r₀)
    (hheard : heard ++ (obeyed e).map coupStrike <+: share p.other m) :
    ∃ m, Follows p b m (own ++ (made e).map coupStrike) (heard ++ (obeyed e).map coupStrike) := by
  have hplays {pc : JSicstus.Pc} (hpc : a.main.pc = pc) (hne : pc ≠ .readSens) : Plays p a :=
    ha.resolve_left (fun hearly => hne (hpc.symm.trans hearly))
  have hstays := stays hnb ha hb hstep
  have hplays' := plays_after hb hstep
  cases hstep with
  | readBoolean sens main rest hmain =>
      simp only [made, obeyed, List.map_nil, List.append_nil]
      exact follows_readBoolean h hnb hmain hplays'
  | generate coup main prolog rest hmain hcall =>
      have ha' : Plays p a := by cases hmain with | sendToNetwork b _ hpc => exact hplays hpc (by simp)
      simp only [made, obeyed, List.map_cons, List.map_nil, List.append_nil]
      exact follows_generate h hnb ha' hmain hcall
  | force coup main prolog rest hmain hcall =>
      have ha' : Plays p a := by cases hmain with | readFromNetwork b _ _ _ hpc _ => exact hplays hpc (by simp)
      simp only [made, List.map_nil, List.append_nil]
      exact follows_force h hnb ha' hmain hcall hline hheard
  | finPartie => exact absurd rfl hstays.1
  | skip => exact absurd rfl hstays.2

def Joint (tr : List FullMatch.Label) (t : FullMatch.State) : Prop :=
  ∀ p, ∃ n, Follows p (t.ai p) n (tr.flatMap (generatedStrikes p)) (tr.flatMap (forcedStrikes p))

/-- Whatever an AI has generated is its share of a line. -/
theorem follows_share {a : AiPlayer.State} {n : Nat} {own heard : List Strike} (h : Follows p a n own heard) :
    ∃ r, line n = some r ∧ own = share p n ∧ heard = share p.other n := by
  cases h with
  | waiting => exact ⟨init .north, rfl, rfl, rfl⟩
  | playing n r hline => exact ⟨r, hline, rfl, rfl⟩

theorem follows_oriented {a : AiPlayer.State} {n : Nat} {own heard : List Strike} (h : Follows p a n own heard)
    (hpc : a.main.pc ≠ .readSens) :
    ∃ r, line n = some r ∧ position a.prolog = position r ∧
      a.main.pc = (if mover n = p then .play (firstGame (sensOf p)) else .read (firstGame (sensOf p))) := by
  cases h with
  | waiting hpc' => exact absurd hpc' hpc
  | playing n r hline hsame hturn => exact ⟨r, hline, hsame, hturn⟩

theorem joint_step {e : FullMatch.Label} (hinit : FullMatch.Initial s) (hrun : Run OpenStep s tr t)
    (h : Joint tr t) (hstep : OpenStep t e u) : Joint (tr ++ [e]) u := by
  intro p
  have hquiet (hai : u.ai p = t.ai p) (hgen : generatedStrikes p e = []) (hforce : forcedStrikes p e = []) :
      ∃ n, Follows p (u.ai p) n ((tr ++ [e]).flatMap (generatedStrikes p)) ((tr ++ [e]).flatMap (forcedStrikes p)) := by
    rw [List.flatMap_append, List.flatMap_append, List.flatMap_singleton, List.flatMap_singleton, hgen, hforce,
      List.append_nil, List.append_nil, hai]
    exact h p
  have hactive {d : AiPlayer.Event} {a : AiPlayer.State} {bytes rest out : List UInt8} (he : e = .ai p d)
      (hu : u.ai p = a) (hai : AiPlayer.Step (t.ai p) bytes d a rest out) :
      ∃ n, Follows p (u.ai p) n ((tr ++ [e]).flatMap (generatedStrikes p)) ((tr ++ [e]).flatMap (forcedStrikes p)) := by
    obtain ⟨n, hfollows⟩ := h p
    obtain ⟨m, hfollows'⟩ := h p.other
    obtain ⟨r₀, hline, hown, _⟩ := follows_share hfollows'
    obtain ⟨flying, _, hdelivered⟩ := delivered hinit (hrun.snoc hstep) p.other
    obtain ⟨hnb, ha⟩ := ai_plays hinit hrun p
    obtain ⟨_, hb⟩ := ai_plays hinit (hrun.snoc hstep) p
    subst he
    have hgen : generatedStrikes p (.ai p d) = (made d).map coupStrike := by rw [generatedStrikes, generated, if_pos rfl]
    have hforce : forcedStrikes p (.ai p d) = (obeyed d).map coupStrike := by rw [forcedStrikes, forced, if_pos rfl]
    have hnone : generatedStrikes p.other (.ai p d) = [] := by
      rw [generatedStrikes, generated, if_neg (other_ne_self p).symm]
      rfl
    rw [other_other, List.flatMap_append, List.flatMap_append, List.flatMap_singleton, List.flatMap_singleton, hnone,
      List.append_nil, hown, hforce] at hdelivered
    rw [List.flatMap_append, List.flatMap_append, List.flatMap_singleton, List.flatMap_singleton, hgen, hforce]
    rw [hu] at hb ⊢
    exact follows_ai hfollows hnb ha hb hai hline ⟨flying, hdelivered.symm⟩
  have hother {q : Player} {d : AiPlayer.Event} (hq : q ≠ p) :
      generatedStrikes p (.ai q d) = [] ∧ forcedStrikes p (.ai q d) = [] := by
    rw [generatedStrikes, generated, if_neg hq, forcedStrikes, forced, if_neg hq]
    exact ⟨rfl, rfl⟩
  obtain ⟨hplay, hstep'⟩ := hstep
  cases hstep' with
  | game | toAi | fromAi => exact hquiet rfl rfl rfl
  | ai q d a rest out he hai =>
      by_cases hq : q = p
      · subst hq
        exact hactive rfl (Function.update_self q a t.ai) hai
      · exact hquiet (Function.update_of_ne (Ne.symm hq) a t.ai) (hother hq).1 (hother hq).2
  | skip q n a rest out hai =>
      by_cases hq : q = p
      · subst hq
        exact hactive rfl (Function.update_self q a t.ai) hai
      · exact hquiet (Function.update_of_ne (Ne.symm hq) a t.ai) (hother hq).1 (hother hq).2

theorem joint (hinit : FullMatch.Initial s) (hrun : Run OpenStep s tr t) : Joint tr t := by
  induction hrun with
  | nil => exact fun p => ⟨0, .waiting (hinit.pc p)⟩
  | snoc hrun hstep ih => exact joint_step hinit hrun ih hstep

theorem follows_counts {a : AiPlayer.State} {n : Nat} {own heard : List Coup}
    (h : Follows p a n (own.map coupStrike) (heard.map coupStrike)) : own.length + heard.length = n := by
  obtain ⟨r, hline, hown, hheard⟩ := follows_share h
  rw [← share_length p hline, ← hown, ← hheard, List.length_map, List.length_map]

/-- Nothing is lost, doubled, overtaken or altered between two AIs, the capture
flag excepted: what one has generated and the other not applied is on its way. -/
theorem moves_delivered (hinit : FullMatch.Initial s) (hrun : Run FullMatch.Step s tr t) (hopen : ∀ e ∈ tr, Open e)
    (p : Player) :
    ∃ flying, inTransit p t flying ∧
      (tr.flatMap (generated p)).map coupStrike = (tr.flatMap (forced p.other)).map coupStrike ++ flying := by
  rw [← strikes_of (generated p), ← strikes_of (forced p.other)]
  exact delivered hinit (open_run hinit hrun hopen).1 p

/-- Whatever the interleaving, all first games are the same line: the `n`-th
position of an AI is the `n`-th position of `line`, and so are its moves. -/
theorem one_line (hinit : FullMatch.Initial s) (hrun : Run FullMatch.Step s tr t) (hopen : ∀ e ∈ tr, Open e)
    (p : Player) (hpc : (t.ai p).main.pc ≠ .readSens) :
    let n := (tr.flatMap (generated p)).length + (tr.flatMap (forced p)).length
    (line n).map position = some (position (t.ai p).prolog) ∧
      (tr.flatMap (generated p)).map coupStrike = share p n ∧
      (tr.flatMap (forced p)).map coupStrike = share p.other n := by
  intro n
  obtain ⟨m, hfollows⟩ := joint hinit (open_run hinit hrun hopen).1 p
  have hown : tr.flatMap (generatedStrikes p) = _ := strikes_of (generated p) tr
  have hheard : tr.flatMap (forcedStrikes p) = _ := strikes_of (forced p) tr
  rw [hown, hheard] at hfollows
  obtain rfl : n = m := follows_counts hfollows
  obtain ⟨r, hline, hsame, _⟩ := follows_oriented hfollows hpc
  obtain ⟨_, _, hown, hheard⟩ := follows_share hfollows
  exact ⟨by rw [hline, Option.map_some, hsame], hown, hheard⟩

/-- An AI whose turn it is holds the same board and the same captured lists as
the other one, which has nothing to read and waits for the move. -/
theorem turn_agrees (hinit : FullMatch.Initial s) (hrun : Run FullMatch.Step s tr t) (hopen : ∀ e ∈ tr, Open e)
    (p : Player) (hpc : (t.ai p).main.pc = .play (firstGame (sensOf p))) (hother : (t.ai p.other).main.pc ≠ .readSens) :
    (t.ai p.other).main.pc = .read (firstGame (sensOf p.other)) ∧
      position (t.ai p.other).prolog = position (t.ai p).prolog ∧
      ∀ q, (tr.flatMap (generated q)).map coupStrike = (tr.flatMap (forced q.other)).map coupStrike := by
  obtain ⟨n, hfollows⟩ := joint hinit (open_run hinit hrun hopen).1 p
  obtain ⟨m, hfollows'⟩ := joint hinit (open_run hinit hrun hopen).1 p.other
  obtain ⟨_, _, hmine⟩ := delivered hinit (open_run hinit hrun hopen).1 p
  obtain ⟨_, _, htheirs⟩ := delivered hinit (open_run hinit hrun hopen).1 p.other
  have hstrikes (q : Player) : tr.flatMap (generatedStrikes q) = (tr.flatMap (generated q)).map coupStrike ∧
      tr.flatMap (forcedStrikes q) = (tr.flatMap (forced q)).map coupStrike :=
    ⟨strikes_of (generated q) tr, strikes_of (forced q) tr⟩
  simp only [hstrikes, other_other] at hfollows hfollows' hmine htheirs
  obtain ⟨_, _, hown, hheard⟩ := follows_share hfollows
  obtain ⟨_, _, hown', hheard'⟩ := follows_share hfollows'
  obtain ⟨r, hline, hsame, hturn⟩ := follows_oriented hfollows (by rw [hpc]; nofun)
  obtain ⟨r', hline', hsame', hturn'⟩ := follows_oriented hfollows' hother
  have hmover : mover n = p := by
    rw [hpc] at hturn
    split at hturn
    · assumption
    · cases hturn
  rw [other_other] at hheard'
  rw [hown, hheard'] at hmine
  rw [hown', hheard] at htheirs
  obtain rfl : m = n := same_count hline hline' hmover ⟨_, hmine.symm⟩ ⟨_, htheirs.symm⟩
  obtain rfl := Option.some.inj (hline.symm.trans hline')
  refine ⟨?_, hsame'.trans hsame.symm, fun q => ?_⟩
  · rw [hturn', hmover, if_neg (other_ne_self p).symm]
  · by_cases hq : q = p
    · rw [hq, hown, hheard']
    · obtain rfl : q = p.other := by cases q <;> cases p <;> first | rfl | exact absurd rfl hq
      rw [other_other, hown', hheard]

section Examples

def kickoff : FullMatch.State where
  game := Lockstep.kickoff
  ai _ := ⟨⟨.readSens, false, 1⟩, init .north⟩
  toAi _ := []
  fromAi _ := []

theorem kickoff_initial : FullMatch.Initial kickoff :=
  ⟨Lockstep.kickoff_initial, fun _ => rfl, fun _ => rfl, fun _ => rfl, fun _ => rfl⟩

theorem reads_sens {a : AiPlayer.State} {bytes rest : List UInt8} {byte : UInt8} (hbytes : bytes = byte :: rest)
    (hpc : a.main.pc = .readSens) :
    AiPlayer.Step a bytes (.readBoolean (decide (byte ≠ 0)))
      ⟨⟨JSicstus.loop1 (decide (byte ≠ 0)) a.main.nbPartie, decide (byte ≠ 0), a.main.nbPartie⟩,
        init (AiPlayer.sideOf (decide (byte ≠ 0)))⟩ rest [] := by
  subst hbytes
  exact .readBoolean _ _ _ _ _ (.readBoolean _ byte rest hpc)

theorem opens : generateMove (init .north) = some (SessionAgreement.openingCoup, SessionInvariant.opening) := by
  decide +kernel

theorem obeys :
    forceEnnemyStrike (init .south) SessionAgreement.openingCoup = some SessionAgreement.openingReceiver := by
  decide +kernel

theorem valid_open (coup : TCoupReq) : Open (.game (.server (.validationCoup 1 coup true .cont))) := by
  rintro _ _ _ _ h
  injection h with h
  injection h with h
  injection h with _ _ _ h
  exact h.symm

/-- The first move of a match, from the AI of the first player to that of the second. -/
theorem opening_run : ∃ tr t, Run FullMatch.Step kickoff tr t ∧ (∀ e ∈ tr, Open e) ∧
    (t.ai .p2).main.pc = .play (firstGame false) ∧ (t.ai .p1).main.pc ≠ .readSens ∧
    tr.flatMap (generated .p1) = [SessionAgreement.openingCoup] ∧ tr.flatMap (generated .p2) = [] ∧
    tr.flatMap (forced .p2) = [SessionAgreement.openingCoup] := by
  let first : Turn := ⟨.player1First, .first⟩
  let answering : Client.Branch := ⟨.game1, .second⟩
  have hserver (e : Serveur.Event) : Between (.server e) := trivial
  have hsend (p : Player) (msg : Msg) : Between (.client p (.send msg)) := fun h => h
  have hrecv (p : Player) (msg : Msg) : Between (.client p (.recv msg)) := fun h => h
  have hsens (sens : Bool) : Client.WithAi (.sendSens sens) := trivial
  have hget (ia : TCoupIa) : Client.WithAi (.getCoupFromAI ia) := trivial
  have hpass (ia : TCoupIa) : Client.WithAi (.sendCoupToAI ia) := trivial
  have hstart : Inside .initialiserPartie := trivial
  have hvalid (coup : TCoupReq) : Inside (.validationCoup 1 coup true .cont) := trivial
  have step {tr : List FullMatch.Label} {e : FullMatch.Label} {s u : FullMatch.State}
      (h : Run FullMatch.Step kickoff tr s ∧ ∀ d ∈ tr, Open d) (hstep : FullMatch.Step s e u) (he : Open e) :
      Run FullMatch.Step kickoff (tr ++ [e]) u ∧ ∀ d ∈ tr ++ [e], Open d :=
    ⟨h.1.snoc hstep, List.forall_mem_append.2 ⟨h.2, List.forall_mem_singleton.2 he⟩⟩
  have orient {tr : List FullMatch.Label} {s : FullMatch.State} {rest : List UInt8}
      (h : Run FullMatch.Step kickoff tr s ∧ ∀ d ∈ tr, Open d) (p : Player) (byte : UInt8)
      (hbytes : s.toAi p = byte :: rest) (hpc : (s.ai p).main.pc = .readSens) :=
    step h (.ai s p (.readBoolean (decide (byte ≠ 0))) _ _ _ nofun (reads_sens hbytes hpc)) nofun
  have h : Run FullMatch.Step kickoff [] kickoff ∧ ∀ d ∈ ([] : List FullMatch.Label), Open d :=
    ⟨.nil, List.forall_mem_nil _⟩
  have h := step h (.game _ _ _ (hsend _ _) (.clientSend _ .p1 _ _ (.sendPartie _ rfl))) nofun
  have h := step h (.game _ _ _ (hsend _ _) (.clientSend _ .p2 _ _ (.sendPartie _ rfl))) nofun
  have h := step h (.game _ _ _ (hserver _) (.serverRecv _ .p1 _ _ _ rfl (.recvPartie1 _ _ rfl))) nofun
  have h := step h (.game _ _ _ (hserver _) (.serverRecv _ .p2 _ _ _ rfl (.recvPartie2 _ _ rfl))) nofun
  have h := step h (.game _ _ _ (hserver _) (.serverSend _ .p1 _ _ (.sendPartie1 _ rfl))) nofun
  have h := step h (.game _ _ _ (hserver _) (.serverSend _ .p2 _ _ (.sendPartie2 _ rfl))) nofun
  have h := step h (.game _ _ _ (hserver _) (.serverInside _ _ _ hstart (.initialise _ rfl))) nofun
  have h := step h (.game _ _ _ (hrecv _ _) (.clientRecv _ .p1 _ _ _ rfl (.recvPartie _ _ rfl))) nofun
  have h := step h (.game _ _ _ (hrecv _ _) (.clientRecv _ .p2 _ _ _ rfl (.recvPartie _ _ rfl))) nofun
  have h := step h (.toAi _ .p1 _ _ (hsens _) (List.cons_ne_nil _ _)
    (.clientAi _ .p1 _ _ (hsens _) (.sendSens _ rfl))) nofun
  have h := step h (.toAi _ .p2 _ _ (hsens _) (List.cons_ne_nil _ _)
    (.clientAi _ .p2 _ _ (hsens _) (.sendSens _ rfl))) nofun
  have h := orient h .p1 1 rfl rfl
  have h := orient h .p2 0 rfl rfl
  have h := step h (.ai _ .p1 (.generate SessionAgreement.openingCoup) _ _ _ nofun
    (.generate _ _ _ _ _ _ (.sendToNetwork _ _ _ rfl) opens)) nofun
  have hreceive := receives_coup (show Matching SessionAgreement.openingCoup from rfl) AiStream.taking
  have h := step h (.fromAi _ .p1 AiStream.taking _ _ [] _ (List.append_nil _).symm hreceive
    (.clientAi _ .p1 _ _ (hget _) (.getCoup _ _ _ rfl))) nofun
  have h := step h (.game _ _ _ (hsend _ _)
    (.clientSend _ .p1 _ _ (.sendCoup _ _ ServerRuns.start.moveReq rfl))) nofun
  have h := step h (.game _ _ _ (hserver _) (.serverRecv _ .p1 _ _ _ rfl (.recvCoup _ first _ rfl))) nofun
  have h := step h (.game _ _ _ (hserver _)
    (.serverInside _ _ _ (hvalid _) (.validate _ first true .cont rfl))) (valid_open _)
  have h := step h (.game _ _ _ (hserver _) (.serverSend _ .p1 _ _ (.sendMover _ first rfl))) nofun
  have h := step h (.game _ _ _ (hserver _) (.serverSend _ .p2 _ _ (.sendOther _ first rfl))) nofun
  have h := step h (.game _ _ _ (hserver _) (.serverSend _ .p2 _ _ (.relay _ first rfl))) nofun
  have h := step h (.game _ _ _ (hrecv _ _) (.clientRecv _ .p2 _ _ _ rfl
    (.recvEnnemyRep _ answering _ AiStream.taking ServerRuns.start.moveReq rfl))) nofun
  have h := step h (.game _ _ _ (hrecv _ _) (.clientRecv _ .p2 _ _ _ rfl
    (.recvEnnemyCoup _ answering AiStream.taking _ rfl))) nofun
  have h := step h (.toAi _ .p2 _ _ (hpass _) (List.cons_ne_nil _ _)
    (.clientAi _ .p2 _ _ (hpass _) (.forward _ answering rfl))) nofun
  have h := step h (.ai _ .p2 (.force SessionAgreement.openingCoup) _ _ _ nofun
    (.force _ _ _ _ _ _ (.readFromNetwork _ answering _ _ [] rfl (by decide +kernel)) obeys)) nofun
  exact ⟨_, _, h.1, h.2, rfl, nofun, rfl, rfl, rfl⟩

theorem moves_delivered_opening : ∃ tr t flying, Run FullMatch.Step kickoff tr t ∧ inTransit .p1 t flying ∧
    [coupStrike SessionAgreement.openingCoup] = (tr.flatMap (forced .p2)).map coupStrike ++ flying := by
  obtain ⟨tr, t, hrun, hopen, _, _, hgenerated, _, _⟩ := opening_run
  obtain ⟨flying, hflying, hdelivered⟩ := moves_delivered kickoff_initial hrun hopen .p1
  rw [hgenerated] at hdelivered
  exact ⟨tr, t, flying, hrun, hflying, hdelivered⟩

theorem one_line_opening : ∃ tr t, Run FullMatch.Step kickoff tr t ∧
    (line 1).map position = some (position (t.ai .p2).prolog) := by
  obtain ⟨tr, t, hrun, hopen, hpc, _, _, hnone, hforced⟩ := opening_run
  obtain ⟨hsame, _, _⟩ := one_line kickoff_initial hrun hopen .p2 (by rw [hpc]; nofun)
  rw [hnone, hforced] at hsame
  exact ⟨tr, t, hrun, hsame⟩

theorem turn_agrees_opening : ∃ tr t, Run FullMatch.Step kickoff tr t ∧
    (t.ai .p1).main.pc = .read (firstGame true) ∧ position (t.ai .p1).prolog = position (t.ai .p2).prolog := by
  obtain ⟨tr, t, hrun, hopen, hpc, hother, _⟩ := opening_run
  obtain ⟨hread, hsame, _⟩ := turn_agrees kickoff_initial hrun hopen .p2 hpc hother
  exact ⟨tr, t, hrun, hread, hsame⟩

end Examples

end YokaiNoMori.FirstGame
