import YokaiNoMori.AiStream
import YokaiNoMori.CoupFromAI
import YokaiNoMori.PrologSession

namespace YokaiNoMori.Strikes

open ProtocolYokai JavaCoup AiStream CoupFromAI ByteReader

/-- What a message says of a move, the capture flag left out. -/
structure Strike where
  typeCoup : TCoup
  piece : TTypePiece
  caseDep : TCase
  caseArr : TCase
deriving DecidableEq, Repr

def Displaces (k : Strike) : Prop := k.typeCoup = deplacer

def iaStrike (ia : TCoupIa) : Strike := ⟨ia.typeCoup, ia.piece, ia.params.deplPiece.caseDep, ia.params.deplPiece.caseArr⟩

def reqStrike (req : TCoupReq) : Strike :=
  ⟨req.typeCoup, req.piece.typePiece, req.params.deplPiece.caseDep, req.params.deplPiece.caseArr⟩

def coupStrike (coup : Coup) : Strike where
  typeCoup := UInt32.ofNat coup.typeCoup.ordinal
  piece := UInt32.ofNat coup.piece.ordinal
  caseDep := match coup.params with
    | .depl depl => caseWords depl.caseDep
    | .depose depose => caseWords depose.casePos
  caseArr := match coup.params with
    | .depl depl => caseWords depl.caseArr
    | .depose _ => ⟨0, 0⟩

def msgStrikes : Msg → List Strike
  | .coupReq req => [reqStrike req]
  | _ => []

def strikes (ms : List Msg) : List Strike := ms.flatMap msgStrikes

@[simp] theorem strikes_nil : strikes [] = [] := rfl

theorem depl_of_displaces {coup : Coup} (h : Displaces (coupStrike coup)) (hmatch : Matching coup) :
    coup.typeCoup = .deplacer ∧ ∃ depl, coup.params = .depl depl := by
  have htype : coup.typeCoup = .deplacer := typeWord_deplacer.1 h
  refine ⟨htype, ?_⟩
  rcases coup with ⟨typeCoup, piece, finPartie, depl | depose⟩
  · exact ⟨depl, rfl⟩
  · exact absurd htype hmatch

theorem decoded_strike {coup : Coup} (h : Displaces (coupStrike coup)) (hmatch : Matching coup) (res : TCoupIa) :
    iaStrike (decoded coup res) = coupStrike coup := by
  obtain ⟨_, depl, hparams⟩ := depl_of_displaces h hmatch
  simp only [iaStrike, decoded, coupStrike, hparams]

theorem toServer_strike {ia : TCoupIa} (h : Displaces (iaStrike ia)) (req : TCoupReq) (sens : Bool) (nbPartie : Int) :
    reqStrike (convertAItoServer ia req sens nbPartie) = iaStrike ia := by
  have htype : ia.typeCoup = deplacer := h
  simp only [reqStrike, convertAItoServer, htype, if_true, iaStrike]

theorem toAI_strike {req : TCoupReq} (h : Displaces (reqStrike req)) (ia : TCoupIa) (fin : Bool) :
    iaStrike (convertServerToAI ia req fin) = reqStrike req := by
  have htype : req.typeCoup = deplacer := h
  simp only [iaStrike, convertServerToAI, htype, if_true, reqStrike]

/-- The words read back are the ordinals of the values they stand for. -/
theorem ordinal_of_value {α : Type} [DecidableEq α] {values : List α} (hnodup : values.Nodup)
    {w : UInt32} {a : α} (h : values[w.toNat]? = some a) : UInt32.ofNat (values.idxOf a) = w := by
  obtain ⟨hlt, rfl⟩ := List.getElem?_eq_some_iff.1 h
  rw [hnodup.idxOf_getElem, UInt32.ofNat_toNat]

theorem caseWords_of_caseOf {k : TCase} {square : Case} (h : caseOf k = some square) : caseWords square = k := by
  simp only [caseOf, Option.bind_eq_bind, Option.bind_eq_some_iff, Option.pure_def, Option.some.injEq] at h
  obtain ⟨col, hcol, lig, hlig, rfl⟩ := h
  have hc : UInt32.ofNat col.ordinal = k.c := ordinal_of_value (by decide) hcol
  have hl : UInt32.ofNat lig.ordinal = k.l := ordinal_of_value (by decide) hlig
  rw [caseWords, hc, hl]

/-- The AI reads a displacement to its last byte and for what it is, but for the
capture flag. -/
theorem read_displacement {ia : TCoupIa} {coup : Option Coup} {more rest : List UInt8} (hfin : ia.finPartie = 0)
    (h : Displaces (iaStrike ia)) (hread : readFromNetwork.run (sendCoupToAI ia ++ more) = .ok (coup, rest)) :
    rest = more ∧ ∃ move, coup = some move ∧ coupStrike move = iaStrike ia ∧ Matching move := by
  have htype : ia.typeCoup = deplacer := h
  rw [yields_deplacer hfin htype more] at hread
  cases hmove : coupOf ia (deplOf ia.params.deplPiece (captRead ia.params.deplPiece)) with
  | none =>
      rw [hmove] at hread
      cases hread
  | some move =>
      rw [hmove] at hread
      obtain ⟨rfl, rfl⟩ := Prod.mk.inj (Except.ok.inj hread)
      refine ⟨rfl, move, rfl, ?_⟩
      obtain ⟨typeCoup, piece, params, htypeCoup, hpiece, hdepl, rfl⟩ := coupOf_eq_some.1 hmove
      obtain ⟨caseDep, caseArr, hdep, harr, rfl⟩ := deplOf_eq_some.1 hdepl
      have hword : UInt32.ofNat typeCoup.ordinal = ia.typeCoup := ordinal_of_value (by decide) htypeCoup
      have hpieceWord : UInt32.ofNat piece.ordinal = ia.piece := ordinal_of_value (by decide) hpiece
      refine ⟨?_, typeWord_deplacer.1 (hword.trans htype)⟩
      simp only [coupStrike, hword, hpieceWord, caseWords_of_caseOf hdep, caseWords_of_caseOf harr, iaStrike]

theorem run_bind {α β : Type} {r : Reader α} {f : α → Reader β} {bytes rest : List UInt8} {b : β}
    (h : (r >>= f).run bytes = .ok (b, rest)) : ∃ a mid, r.run bytes = .ok (a, mid) ∧ (f a).run mid = .ok (b, rest) := by
  rw [StateT.run_bind] at h
  cases hr : r.run bytes with
  | error stop =>
      rw [hr] at h
      cases h
  | ok answer =>
      rw [hr] at h
      exact ⟨answer.1, answer.2, rfl, h⟩

theorem params_matching {typeCoup : EnumCoup} {piece : EnumPiece} {params : Action} {bytes rest : List UInt8}
    (h : (readParams typeCoup).run bytes = .ok (params, rest)) : Matching ⟨typeCoup, piece, false, params⟩ := by
  rw [readParams] at h
  split at h
  · rename_i htype
    obtain ⟨cFrom, mid, _, h⟩ := run_bind h
    obtain ⟨cTo, mid, _, h⟩ := run_bind h
    obtain ⟨estCapt, mid, _, h⟩ := run_bind h
    obtain ⟨rfl, _⟩ := Prod.mk.inj (Except.ok.inj h)
    exact htype
  · rename_i htype
    obtain ⟨cOnto, mid, _, h⟩ := run_bind h
    obtain ⟨rfl, _⟩ := Prod.mk.inj (Except.ok.inj h)
    exact htype

theorem read_matching {coup : Coup} {bytes rest : List UInt8}
    (h : readFromNetwork.run bytes = .ok (some coup, rest)) : Matching coup := by
  rw [readFromNetwork] at h
  obtain ⟨boolValue, mid, _, h⟩ := run_bind h
  split at h
  · obtain ⟨move, mid, hmove, h⟩ := run_bind h
    obtain ⟨hcoup, _⟩ := Prod.mk.inj (Except.ok.inj h)
    obtain rfl := Option.some.inj hcoup
    rw [readMove] at hmove
    obtain ⟨typeCoup, mid, _, hmove⟩ := run_bind hmove
    obtain ⟨piece, mid, _, hmove⟩ := run_bind hmove
    obtain ⟨params, mid, hparams, hmove⟩ := run_bind hmove
    obtain ⟨rfl, _⟩ := Prod.mk.inj (Except.ok.inj hmove)
    exact params_matching hparams
  · cases h

theorem caseWords_inj {k k' : Case} (h : caseWords k = caseWords k') : k = k' := by
  obtain ⟨hc, hl⟩ := TCase.mk.inj h
  exact SessionAgreement.sameCase_eq (t := caseWords k) ⟨rfl, rfl⟩ ⟨hc, hl⟩

theorem coupStrike_inj {coup coup' : Coup} (h : coupStrike coup = coupStrike coup') (hmatch : Matching coup)
    (hmatch' : Matching coup') {depl : DeplPiece} (hparams : coup.params = .depl depl) :
    ∃ fin flag, coup' = ⟨coup.typeCoup, coup.piece, fin, .depl ⟨depl.caseDep, depl.caseArr, flag⟩⟩ := by
  rcases coup with ⟨typeCoup, piece, finPartie, params⟩
  rcases coup' with ⟨typeCoup', piece', finPartie', params'⟩
  obtain rfl : params = .depl depl := hparams
  obtain rfl : typeCoup = .deplacer := hmatch
  simp only [coupStrike, Strike.mk.injEq] at h
  obtain ⟨htype, hpiece, hdep, harr⟩ := h
  obtain rfl := SessionAgreement.enumCoup_eq htype
  obtain rfl := SessionAgreement.enumPiece_eq hpiece
  cases params' with
  | depose depose => exact absurd rfl hmatch'
  | depl depl' =>
      obtain ⟨dep', arr', flag⟩ := depl'
      have hdep' : depl.caseDep = dep' := caseWords_inj hdep
      have harr' : depl.caseArr = arr' := caseWords_inj harr
      exact ⟨finPartie', flag, by rw [hdep', harr']⟩

end YokaiNoMori.Strikes
