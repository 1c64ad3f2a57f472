import YokaiNoMori.ProtocolYokai
import YokaiNoMori.SessionInvariant

namespace YokaiNoMori.SessionAgreement

open Search Board TryMove ForceMove JavaCoup PrologSession SessionInvariant ProtocolYokai

def SameCase (k : Case) (k' : TCase) : Prop :=
  k'.c = UInt32.ofNat k.c.ordinal ∧ k'.l = UInt32.ofNat k.l.ordinal

/-- What the two byte streams between the AI and its client are assumed to
deliver of a displacement: type, piece and squares as ordinals. Nothing is
said about the capture flag. -/
structure Delivers (coup : Coup) (ia : TCoupIa) : Prop where
  typeCoup : ia.typeCoup = UInt32.ofNat coup.typeCoup.ordinal
  piece : ia.piece = UInt32.ofNat coup.piece.ordinal
  params : ∃ depl, coup.params = .depl depl ∧ SameCase depl.caseDep ia.params.deplPiece.caseDep ∧
    SameCase depl.caseArr ia.params.deplPiece.caseArr

structure Duel where
  turn : Side
  session : Side → Session

def Duel.init (first : Side) : Duel := ⟨first, PrologSession.init⟩

def BothKoropokkuru (board : List Piece) : Prop :=
  ∀ side, ∃ p ∈ board, hasType side .koropokkuru p = true

/-- The mover generates a move, and the other AI forces what it receives after
the AI link, the mover's client, the server, its own client and its AI link. -/
inductive Exchange : Duel → Duel → Prop
  | play (σ : Duel) (coup coup' : Coup) (mover receiver : Session) (ia ia' : TCoupIa) (req : TCoupReq)
      (sens : Bool) (nbPartie : Int) (hmoves : (σ.session σ.turn).moves ≠ [])
      (hkoro : BothKoropokkuru (σ.session σ.turn).currentBoard)
      (hgen : generateMove (σ.session σ.turn) = some (coup, mover))
      (hin : Delivers coup ia)
      (hout : Delivers coup' (convertServerToAI ia' (convertAItoServer ia req sens nbPartie) false))
      (hforce : forceEnnemyStrike (σ.session (opponent σ.turn)) coup' = some receiver) :
      Exchange σ ⟨opponent σ.turn, fun side => if side = σ.turn then mover else receiver⟩

theorem enumCoup_eq {t u : EnumCoup} (h : UInt32.ofNat t.ordinal = UInt32.ofNat u.ordinal) : t = u := by
  cases t <;> cases u <;> first | rfl | exact absurd h (by decide)

theorem enumPiece_eq {p q : EnumPiece} (h : UInt32.ofNat p.ordinal = UInt32.ofNat q.ordinal) : p = q := by
  cases p <;> cases q <;> first | rfl | exact absurd h (by decide)

theorem enumCol_eq {p q : EnumCol} (h : UInt32.ofNat p.ordinal = UInt32.ofNat q.ordinal) : p = q := by
  cases p <;> cases q <;> first | rfl | exact absurd h (by decide)

theorem enumLig_eq {p q : EnumLig} (h : UInt32.ofNat p.ordinal = UInt32.ofNat q.ordinal) : p = q := by
  cases p <;> cases q <;> first | rfl | exact absurd h (by decide)

theorem sameCase_eq {k k' : Case} {t : TCase} (h : SameCase k t) (h' : SameCase k' t) : k = k' := by
  rcases k with ⟨col, lig⟩
  rcases k' with ⟨col', lig'⟩
  obtain rfl := enumCol_eq (h.1.symm.trans h'.1)
  obtain rfl := enumLig_eq (h.2.symm.trans h'.2)
  rfl

theorem convert_deplacer (ia ia' : TCoupIa) (req : TCoupReq) (sens : Bool) (nbPartie : Int)
    (h : ia.typeCoup = deplacer) :
    convertServerToAI ia' (convertAItoServer ia req sens nbPartie) false =
      { ia with finPartie := 0 } := by
  rcases ia with ⟨fin, type, piece, params⟩
  simp only at h
  subst h
  simp [convertServerToAI, convertAItoServer]

theorem delivered_eq {coup coup' : Coup} {ia ia' : TCoupIa} {req : TCoupReq} {sens : Bool} {nbPartie : Int}
    {depl : DeplPiece} (htype : coup.typeCoup = .deplacer) (hparams : coup.params = .depl depl)
    (hin : Delivers coup ia)
    (hout : Delivers coup' (convertServerToAI ia' (convertAItoServer ia req sens nbPartie) false)) :
    ∃ flag, coup' = ⟨.deplacer, coup.piece, coup'.finPartie, .depl ⟨depl.caseDep, depl.caseArr, flag⟩⟩ := by
  have hia : ia.typeCoup = deplacer := by rw [hin.typeCoup, htype]; rfl
  rw [convert_deplacer ia ia' req sens nbPartie hia] at hout
  have ht : coup'.typeCoup = .deplacer :=
    enumCoup_eq (hout.typeCoup.symm.trans (hin.typeCoup.trans (by rw [htype])))
  have hp : coup'.piece = coup.piece := enumPiece_eq (hout.piece.symm.trans hin.piece)
  obtain ⟨depl', hd', hdep', harr'⟩ := hout.params
  obtain ⟨depl'', hd, hdep, harr⟩ := hin.params
  rw [hparams] at hd
  obtain rfl : depl = depl'' := by simpa using hd
  rcases coup' with ⟨type', piece', fin', params'⟩
  rcases depl' with ⟨dep', arr', flag'⟩
  simp only at ht hp hd' hdep' harr'
  subst ht hp hd'
  obtain rfl := sameCase_eq hdep hdep'
  obtain rfl := sameCase_eq harr harr'
  exact ⟨flag', rfl⟩

def position (s : Session) : List Piece × List Piece × List Piece :=
  (s.currentBoard, s.currentCaptN, s.currentCaptS)

structure Agree (σ : Duel) : Prop where
  side : ∀ side, (σ.session side).side = side
  sound : ∀ side, SoundSession (σ.session side)
  same : ∀ a b, position (σ.session a) = position (σ.session b)

theorem init_agree (first : Side) : Agree (Duel.init first) :=
  ⟨fun _ => rfl, fun _ => initial_sound, fun _ _ => rfl⟩

/-- The receiver's query for a found move is the one whose first answer the
mover has already taken. -/
theorem receiver_follows {s r : Session} {type : Kind} {x y nX nY : Int} {flag fin : Bool}
    {new : List Piece × List Piece × List Piece} (hfound : Found s type x y nX nY new)
    (hside : r.opposide = s.side) (hsame : position r = position s) :
    forceEnnemyStrike r ⟨.deplacer, enumPiece type, fin, .depl ⟨Case.ofXY x y, Case.ofXY nX nY, flag⟩⟩ =
      some (r.update new) := by
  obtain ⟨hx, hx', hy, hy'⟩ := hfound.source
  obtain ⟨hnX, hnX', hnY, hnY'⟩ := hfound.target
  simp only [position, Prod.mk.injEq] at hsame
  obtain ⟨hboard, hcaptN, hcaptS⟩ := hsame
  have hquery : (forceMoveQuery r (enumPiece type) ⟨Case.ofXY x y, Case.ofXY nX nY, flag⟩).head? = some new := by
    rw [forceMoveQuery, oppopiece_enumPiece, Case.getX_ofXY hx hx', Case.getY_ofXY hy hy',
      Case.getX_ofXY hnX hnX', Case.getY_ofXY hnY hnY', hside, hboard, hcaptN, hcaptS]
    exact hfound.head
  exact strike_first rfl hquery

theorem exchange_follows {σ : Duel} {coup coup' : Coup} {mover : Session} {ia ia' : TCoupIa} {req : TCoupReq}
    {sens : Bool} {nbPartie : Int} (hσ : Agree σ) (hmoves : (σ.session σ.turn).moves ≠ [])
    (hkoro : BothKoropokkuru (σ.session σ.turn).currentBoard)
    (hgen : generateMove (σ.session σ.turn) = some (coup, mover)) (hin : Delivers coup ia)
    (hout : Delivers coup' (convertServerToAI ia' (convertAItoServer ia req sens nbPartie) false)) :
    ∃ new, Sound new.1 new.2.1 new.2.2 ∧ mover = (σ.session σ.turn).update new ∧
      forceEnnemyStrike (σ.session (opponent σ.turn)) coup' =
        some ((σ.session (opponent σ.turn)).update new) := by
  have hs := hσ.sound σ.turn
  obtain ⟨type, x, y, nX, nY, capture, new, hfound, hcall⟩ :=
    generateMove_found hs.wellFormed (hkoro _) hmoves
  rw [hcall] at hgen
  obtain ⟨rfl, rfl⟩ : coupOf (enumPiece type) x y nX nY capture = coup ∧
      (σ.session σ.turn).update new = mover := by simpa using hgen
  obtain ⟨flag, hcoup⟩ := delivered_eq rfl rfl hin hout
  refine ⟨new, moved_sound hs (forceMove_head hfound.head), rfl, ?_⟩
  rw [hcoup]
  apply receiver_follows hfound
  · rw [(σ.session (opponent σ.turn)).opposed, hσ.side, hσ.side, opponent_opponent]
  · exact hσ.same _ _

theorem exchange_agree {σ σ' : Duel} (hσ : Agree σ) (h : Exchange σ σ') : Agree σ' := by
  cases h with
  | play coup coup' mover receiver ia ia' req sens nbPartie hmoves hkoro hgen hin hout hforce =>
      obtain ⟨new, hsound, rfl, hfollow⟩ := exchange_follows hσ hmoves hkoro hgen hin hout
      obtain rfl : (σ.session (opponent σ.turn)).update new = receiver := by simpa [hfollow] using hforce
      have hpos (side : Side) : position (if side = σ.turn then (σ.session σ.turn).update new
          else (σ.session (opponent σ.turn)).update new) = new := by split <;> rfl
      refine ⟨fun side => ?_, fun side => ?_, fun a b => (hpos a).trans (hpos b).symm⟩
      · by_cases hside : side = σ.turn
        · simp only [hside, if_true]; exact hσ.side _
        · simp only [hside, if_false]
          have hopp : opponent σ.turn = side := by
            cases side <;> cases ht : σ.turn <;> simp_all [opponent]
          rw [← hopp]; exact hσ.side _
      · by_cases hside : side = σ.turn
        · simp only [hside, if_true]; exact hsound
        · simp only [hside, if_false]; exact hsound

theorem run_agree {σ σ' : Duel} (hσ : Agree σ) (h : Relation.ReflTransGen Exchange σ σ') : Agree σ' := by
  induction h with
  | refl => exact hσ
  | tail _ hstep ih => exact exchange_agree ih hstep

/-- The receiver always has an answer: no exchange is lost in the cast or in a
query without solution. -/
theorem exchange_progress {first : Side} {σ : Duel} {coup coup' : Coup} {mover : Session}
    {ia ia' : TCoupIa} {req : TCoupReq} {sens : Bool} {nbPartie : Int}
    (hrun : Relation.ReflTransGen Exchange (Duel.init first) σ) (hmoves : (σ.session σ.turn).moves ≠ [])
    (hkoro : BothKoropokkuru (σ.session σ.turn).currentBoard)
    (hgen : generateMove (σ.session σ.turn) = some (coup, mover)) (hin : Delivers coup ia)
    (hout : Delivers coup' (convertServerToAI ia' (convertAItoServer ia req sens nbPartie) false)) :
    ∃ receiver, forceEnnemyStrike (σ.session (opponent σ.turn)) coup' = some receiver ∧
      position receiver = position mover := by
  obtain ⟨new, _, rfl, hfollow⟩ :=
    exchange_follows (run_agree (init_agree first) hrun) hmoves hkoro hgen hin hout
  exact ⟨_, hfollow, rfl⟩

/-- After every exchanged move the two AIs hold the same board and the same
captured lists, order included. -/
theorem sessions_agree (first : Side) {σ : Duel} (h : Relation.ReflTransGen Exchange (Duel.init first) σ) :
    (σ.session .north).currentBoard = (σ.session .south).currentBoard ∧
      (σ.session .north).currentCaptN = (σ.session .south).currentCaptN ∧
      (σ.session .north).currentCaptS = (σ.session .south).currentCaptS := by
  have hsame := (run_agree (init_agree first) h).same .north .south
  simpa [position] using hsame

def openingCoup : Coup := coupOf .kodama 3 3 3 4 1

def openingIa : TCoupIa := ⟨0, deplacer, 0, ⟨⟨⟨2, 2⟩, ⟨2, 3⟩, 1, (0, 0, 0)⟩⟩⟩

def openingReq : TCoupReq := ⟨.coup, 1, deplacer, ⟨.sud, 0⟩, openingIa.params⟩

def openingReceiver : Session := (forceEnnemyStrike (PrologSession.init .south) openingCoup).getD opening

def afterOpening : Duel := ⟨.south, fun side => if side = .north then opening else openingReceiver⟩

theorem afterOpening_reachable : Relation.ReflTransGen Exchange (Duel.init .north) afterOpening := by
  apply Relation.ReflTransGen.single
  have hdelivers : Delivers openingCoup openingIa :=
    ⟨by decide, by decide, _, rfl, by unfold SameCase; decide, by unfold SameCase; decide⟩
  refine .play (Duel.init .north) openingCoup openingCoup opening openingReceiver openingIa openingIa openingReq
    true 1 (by decide +kernel) ?_ (by decide +kernel) hdelivers ?_ (by decide +kernel)
  · intro side
    cases side with
    | north => exact ⟨⟨.north, .koropokkuru, 3, 1⟩, by decide, rfl⟩
    | south => exact ⟨⟨.south, .koropokkuru, 3, 6⟩, by decide, rfl⟩
  · rw [convert_deplacer _ _ _ _ _ rfl]
    exact hdelivers

theorem sessions_agree_afterOpening :
    (afterOpening.session .north).currentBoard = (afterOpening.session .south).currentBoard ∧
      (afterOpening.session .south).currentCaptN = [⟨.north, .kodama, 0, 0⟩] :=
  ⟨(sessions_agree .north afterOpening_reachable).1, by decide +kernel⟩

end YokaiNoMori.SessionAgreement
