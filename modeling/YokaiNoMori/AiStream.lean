import YokaiNoMori.ByteReader
import YokaiNoMori.JavaCoup
import YokaiNoMori.ProtocolYokai

namespace YokaiNoMori.AiStream

open ProtocolYokai JavaCoup ByteReader

/-- The union in memory: four-byte integers and enumerations, a one-byte `bool`
and its padding. -/
def memoryParams (params : Params) : List UInt8 :=
  let depl := params.deplPiece
  leBytes depl.caseDep.c ++ (leBytes depl.caseDep.l ++ (leBytes depl.caseArr.c ++ (leBytes depl.caseArr.l ++
    [depl.estCapt, depl.padding.1, depl.padding.2.1, depl.padding.2.2])))

def memory (coupIa : TCoupIa) : List UInt8 :=
  leBytes coupIa.finPartie ++ (leBytes coupIa.typeCoup ++ (leBytes coupIa.piece ++ memoryParams coupIa.params))

def htonCase (k : TCase) : TCase := ⟨htonl k.c, htonl k.l⟩

def htonParams (typeCoup : TCoup) (params : Params) : Params :=
  if typeCoup = deplacer then
    let depl := params.deplPiece
    ⟨{ depl with caseDep := htonCase depl.caseDep, caseArr := htonCase depl.caseArr }⟩
  else if typeCoup = deposer then params.setDeposerPiece (htonCase params.deposerPiece)
  else params

def sendCoupToAI (coupIa : TCoupIa) : List UInt8 :=
  memory ⟨htonl coupIa.finPartie, htonl coupIa.typeCoup, htonl coupIa.piece,
    htonParams coupIa.typeCoup coupIa.params⟩

def readEnum {α : Type} (values : List α) : Reader α := do elementAt values (← readInt)

def readCase : Reader Case := do
  let col ← readEnum EnumCol.values
  let lig ← readEnum EnumLig.values
  return ⟨col, lig⟩

def readParams (typeCoup : EnumCoup) : Reader Action := do
  if typeCoup = .deplacer then
    let cFrom ← readCase
    let cTo ← readCase
    let estCapt ← readInt
    return .depl ⟨cFrom, cTo, decide (estCapt ≠ 0)⟩
  else
    let cOnto ← readCase
    return .depose ⟨cOnto⟩

def readMove : Reader Coup := do
  let typeCoup ← readEnum EnumCoup.values
  let piece ← readEnum EnumPiece.values
  let params ← readParams typeCoup
  return ⟨typeCoup, piece, false, params⟩

/-- `none` when the end of the game is read. The other fields are then left as
they were, and nobody reads them. -/
def readFromNetwork : Reader (Option Coup) := do
  let boolValue ← readInt
  if boolValue = 0 then
    let coup ← readMove
    return some coup
  else return none

def caseOf (k : TCase) : Option Case := do
  let col ← EnumCol.values[k.c.toNat]?
  let lig ← EnumLig.values[k.l.toNat]?
  return ⟨col, lig⟩

def deplOf (depl : TDeplPiece) (estCapt : Bool) : Option Action := do
  let caseDep ← caseOf depl.caseDep
  let caseArr ← caseOf depl.caseArr
  return .depl ⟨caseDep, caseArr, estCapt⟩

def coupOf (coupIa : TCoupIa) (action : Option Action) : Option Coup := do
  let typeCoup ← EnumCoup.values[coupIa.typeCoup.toNat]?
  let piece ← EnumPiece.values[coupIa.piece.toNat]?
  let params ← action
  return ⟨typeCoup, piece, false, params⟩

def moveOf (coupIa : TCoupIa) : Option Coup :=
  coupOf coupIa (
    if coupIa.typeCoup = deplacer then
      deplOf coupIa.params.deplPiece (decide (coupIa.params.deplPiece.estCapt ≠ 0))
    else (caseOf coupIa.params.deposerPiece).map fun k => .depose ⟨k⟩)

def captRead (depl : TDeplPiece) : Bool :=
  decide (ofBytes depl.estCapt depl.padding.1 depl.padding.2.1 depl.padding.2.2 ≠ 0)

def LegalCase (k : TCase) : Prop := k.c.toNat < 5 ∧ k.l.toNat < 6

structure Legal (coupIa : TCoupIa) : Prop where
  finPartie : coupIa.finPartie = 0
  piece : coupIa.piece.toNat < 6
  params : (coupIa.typeCoup = deplacer ∧ LegalCase coupIa.params.deplPiece.caseDep ∧
      LegalCase coupIa.params.deplPiece.caseArr) ∨
    (coupIa.typeCoup = deposer ∧ LegalCase coupIa.params.deposerPiece)

/-- The AI reads this move as it was meant. -/
structure Faithful (coupIa : TCoupIa) : Prop where
  typeCoup : coupIa.typeCoup = deplacer
  estCapt : coupIa.params.deplPiece.estCapt ≠ 0 ∨ coupIa.params.deplPiece.padding = (0, 0, 0)

@[simp] theorem length_sendCoupToAI (coupIa : TCoupIa) : (sendCoupToAI coupIa).length = 32 := rfl

theorem length_flatMap_send (coups : List TCoupIa) : (coups.flatMap sendCoupToAI).length = coups.length * 32 := by
  induction coups with
  | nil => rfl
  | cons coupIa coups ih => rw [List.flatMap_cons, List.length_append, ih, length_sendCoupToAI, List.length_cons]; omega

theorem sendCoupToAI_eq (coupIa : TCoupIa) :
    sendCoupToAI coupIa = beBytes coupIa.finPartie ++ (beBytes coupIa.typeCoup ++ (beBytes coupIa.piece ++
      memoryParams (htonParams coupIa.typeCoup coupIa.params))) := by
  simp only [sendCoupToAI, memory, leBytes_htonl]

theorem memoryParams_deplacer (params : Params) :
    memoryParams (htonParams deplacer params) =
      (beBytes params.deplPiece.caseDep.c ++ beBytes params.deplPiece.caseDep.l) ++
        ((beBytes params.deplPiece.caseArr.c ++ beBytes params.deplPiece.caseArr.l) ++
          [params.deplPiece.estCapt, params.deplPiece.padding.1, params.deplPiece.padding.2.1,
            params.deplPiece.padding.2.2]) := by
  simp only [htonParams, if_true, memoryParams, htonCase, leBytes_htonl, List.append_assoc]

theorem yields_enum {α : Type} {values : List α} (w : UInt32) (hlength : values.length ≤ 7) :
    Yields (readEnum values) (beBytes w) values[w.toNat]? :=
  yields_elementAt_word w (by omega)

theorem yields_case (k : TCase) : Yields readCase (beBytes k.c ++ beBytes k.l) (caseOf k) :=
  (yields_enum k.c (by decide)).bind fun col _ => (yields_enum k.l (by decide)).last (Case.mk col)

theorem yields_depl (depl : TDeplPiece) :
    Yields (readParams .deplacer)
      ((beBytes depl.caseDep.c ++ beBytes depl.caseDep.l) ++ ((beBytes depl.caseArr.c ++ beBytes depl.caseArr.l) ++
        [depl.estCapt, depl.padding.1, depl.padding.2.1, depl.padding.2.2]))
      (deplOf depl (captRead depl)) := by
  refine (yields_case depl.caseDep).bind fun cFrom _ => (yields_case depl.caseArr).bind fun cTo _ => ?_
  exact (yields_int _ _ _ _).last fun estCapt => Action.depl ⟨cFrom, cTo, decide (estCapt ≠ 0)⟩

/-- A displacement is read to its last byte, with the padding taken for a part
of the capture flag. -/
theorem yields_deplacer {coupIa : TCoupIa} (hfin : coupIa.finPartie = 0) (htype : coupIa.typeCoup = deplacer) :
    Yields readFromNetwork (sendCoupToAI coupIa)
      (coupOf coupIa (deplOf coupIa.params.deplPiece (captRead coupIa.params.deplPiece)) >>= fun coup =>
        some (some coup)) := by
  have hmove : Yields readMove (beBytes coupIa.typeCoup ++ (beBytes coupIa.piece ++
      memoryParams (htonParams coupIa.typeCoup coupIa.params)))
      (coupOf coupIa (deplOf coupIa.params.deplPiece (captRead coupIa.params.deplPiece))) := by
    refine (yields_enum coupIa.typeCoup (by decide)).bind fun typeCoup hvalue => ?_
    refine (yields_enum coupIa.piece (by decide)).bind fun piece _ => ?_
    obtain rfl : typeCoup = .deplacer := by
      rw [htype] at hvalue
      exact (Option.some.inj hvalue).symm
    rw [htype, memoryParams_deplacer]
    exact (yields_depl coupIa.params.deplPiece).last fun params => Coup.mk .deplacer piece false params
  rw [sendCoupToAI_eq, hfin]
  refine yields_zero.bind (o := some 0) (g := fun _ => _) fun boolValue hzero => ?_
  obtain rfl : 0 = boolValue := Option.some.inj hzero
  exact hmove.last some

theorem yields_fin {w : UInt32} (hw : w ≠ 0) : Yields readFromNetwork (beBytes w) (some none) := by
  have hne : ofBytes (w >>> 24).toUInt8 (w >>> 16).toUInt8 (w >>> 8).toUInt8 w.toUInt8 ≠ 0 := by
    have hlt := w.toNat_lt
    have hpos : w.toNat ≠ 0 := fun hzero => hw (UInt32.toNat_inj.1 hzero)
    rw [ofBytes, beValue_beBytes]
    omega
  have hread := (yields_int (w >>> 24).toUInt8 (w >>> 16).toUInt8 (w >>> 8).toUInt8 w.toUInt8).bind
    (f := fun boolValue => if boolValue = 0 then readMove >>= fun coup => pure (some coup) else pure none)
    (g := fun _ => some none) fun boolValue hvalue => by
      rw [← Option.some.inj hvalue, if_neg hne]
      exact Yields.pure none
  exact hread

theorem coupOf_eq_some {coupIa : TCoupIa} {action : Option Action} {coup : Coup} :
    coupOf coupIa action = some coup ↔ ∃ typeCoup piece params,
      EnumCoup.values[coupIa.typeCoup.toNat]? = some typeCoup ∧ EnumPiece.values[coupIa.piece.toNat]? = some piece ∧
        action = some params ∧ coup = ⟨typeCoup, piece, false, params⟩ := by
  simp only [coupOf, Option.bind_eq_bind, Option.bind_eq_some_iff, Option.pure_def, Option.some.injEq]
  constructor
  · rintro ⟨typeCoup, htype, piece, hpiece, params, hparams, rfl⟩
    exact ⟨typeCoup, piece, params, htype, hpiece, hparams, rfl⟩
  · rintro ⟨typeCoup, piece, params, htype, hpiece, hparams, rfl⟩
    exact ⟨typeCoup, htype, piece, hpiece, params, hparams, rfl⟩

theorem deplOf_eq_some {depl : TDeplPiece} {estCapt : Bool} {params : Action} :
    deplOf depl estCapt = some params ↔ ∃ caseDep caseArr, caseOf depl.caseDep = some caseDep ∧
      caseOf depl.caseArr = some caseArr ∧ params = .depl ⟨caseDep, caseArr, estCapt⟩ := by
  simp only [deplOf, Option.bind_eq_bind, Option.bind_eq_some_iff, Option.pure_def, Option.some.injEq]
  constructor
  · rintro ⟨caseDep, hdep, caseArr, harr, rfl⟩
    exact ⟨caseDep, caseArr, hdep, harr, rfl⟩
  · rintro ⟨caseDep, caseArr, hdep, harr, rfl⟩
    exact ⟨caseDep, hdep, caseArr, harr, rfl⟩

theorem captRead_eq_iff (depl : TDeplPiece) :
    captRead depl = decide (depl.estCapt ≠ 0) ↔ depl.estCapt ≠ 0 ∨ depl.padding = (0, 0, 0) := by
  rw [captRead, decide_eq_decide, ne_eq, ofBytes_eq_zero, Prod.ext_iff, Prod.ext_iff]
  by_cases hcapt : depl.estCapt = 0 <;> simp [hcapt]

theorem moveOf_deplacer {coupIa : TCoupIa} (htype : coupIa.typeCoup = deplacer) :
    moveOf coupIa =
      coupOf coupIa (deplOf coupIa.params.deplPiece (decide (coupIa.params.deplPiece.estCapt ≠ 0))) := by
  rw [moveOf, if_pos htype]

theorem read_eq_moveOf_iff {coupIa : TCoupIa} {coup : Coup} {estCapt : Bool} (htype : coupIa.typeCoup = deplacer)
    (h : coupOf coupIa (deplOf coupIa.params.deplPiece estCapt) = some coup) :
    some coup = moveOf coupIa ↔ estCapt = decide (coupIa.params.deplPiece.estCapt ≠ 0) := by
  rw [moveOf_deplacer htype, ← h]
  constructor
  · intro hsame
    obtain ⟨typeCoup, piece, params, _, _, hdepl, rfl⟩ := coupOf_eq_some.1 h
    obtain ⟨typeCoup', piece', params', _, _, hdepl', hcoup⟩ := coupOf_eq_some.1 (hsame.symm.trans h)
    obtain ⟨caseDep, caseArr, _, _, rfl⟩ := deplOf_eq_some.1 hdepl
    obtain ⟨caseDep', caseArr', _, _, rfl⟩ := deplOf_eq_some.1 hdepl'
    injection hcoup with _ _ _ hparams
    injection hparams with hparams
    injection hparams
  · rintro rfl
    rfl

theorem run_deplacer {coupIa : TCoupIa} {coup : Option Coup} {more rest : List UInt8} (hfin : coupIa.finPartie = 0)
    (htype : coupIa.typeCoup = deplacer)
    (h : readFromNetwork.run (sendCoupToAI coupIa ++ more) = .ok (coup, rest)) :
    rest = more ∧ (coup = moveOf coupIa ↔
      coupIa.params.deplPiece.estCapt ≠ 0 ∨ coupIa.params.deplPiece.padding = (0, 0, 0)) := by
  rw [yields_deplacer hfin htype more] at h
  cases hmove : coupOf coupIa (deplOf coupIa.params.deplPiece (captRead coupIa.params.deplPiece)) with
  | none => rw [hmove] at h; cases h
  | some move =>
      rw [hmove] at h
      obtain ⟨rfl, rfl⟩ := Prod.mk.inj (Except.ok.inj h)
      exact ⟨rfl, (read_eq_moveOf_iff htype hmove).trans (captRead_eq_iff _)⟩

theorem takes_readEnum {α : Type} (values : List α) : Takes 4 (readEnum values) :=
  takes_readInt.bind takes_elementAt

theorem takes_readCase : Takes 8 readCase :=
  (takes_readEnum _).bind fun _ => (takes_readEnum _).bind fun _ => Takes.pure _

theorem takes_depose {typeCoup : EnumCoup} (h : typeCoup ≠ .deplacer) : Takes 8 (readParams typeCoup) := by
  rw [readParams, if_neg h]
  exact takes_readCase.bind fun _ => Takes.pure _

theorem takes_readParams (typeCoup : EnumCoup) : Takes 20 (readParams typeCoup) := by
  by_cases h : typeCoup = .deplacer
  · rw [readParams, if_pos h]
    exact takes_readCase.bind fun _ => takes_readCase.bind fun _ => takes_readInt.bind fun _ => Takes.pure _
  · exact (takes_depose h).mono (by omega)

theorem takes_readMove : Takes 28 readMove :=
  (takes_readEnum _).bind fun _ => (takes_readEnum _).bind fun _ => (takes_readParams _).bind fun _ => Takes.pure _

theorem takes_readFromNetwork : Takes 32 readFromNetwork := by
  refine takes_readInt.bind (n := 28) fun boolValue => ?_
  split
  · exact takes_readMove.bind fun coup => Takes.pure (some coup)
  · exact (Takes.pure none).mono (by omega)

theorem deplacer_of_value {w : UInt32} (h : EnumCoup.values[w.toNat]? = some .deplacer) : w = deplacer := by
  apply UInt32.toNat_inj.1
  cases hw : w.toNat with
  | zero => rfl
  | succ n =>
      rw [hw] at h
      have hmem : EnumCoup.deplacer ∈ [EnumCoup.deposer, EnumCoup.aucun] := List.mem_of_getElem? h
      simp at hmem

/-- Whatever is not a displacement is read as a drop, and its last twelve bytes
stay in the stream. -/
theorem short_read {coupIa : TCoupIa} {coup : Option Coup} {more rest : List UInt8} (hfin : coupIa.finPartie = 0)
    (htype : coupIa.typeCoup ≠ deplacer)
    (h : readFromNetwork.run (sendCoupToAI coupIa ++ more) = .ok (coup, rest)) :
    more.length + 12 ≤ rest.length := by
  have hlength : (memoryParams (htonParams coupIa.typeCoup coupIa.params)).length = 20 := rfl
  rw [sendCoupToAI_eq, hfin] at h
  generalize memoryParams (htonParams coupIa.typeCoup coupIa.params) = params at h hlength
  rw [List.append_assoc, readFromNetwork, StateT.run_bind, yields_zero, Option.elim_some] at h
  change (readMove >>= fun coup => pure (some coup)).run _ = _ at h
  rw [List.append_assoc, readMove, bind_assoc, StateT.run_bind, yields_enum _ (by decide)] at h
  cases hvalue : EnumCoup.values[coupIa.typeCoup.toNat]? with
  | none => rw [hvalue] at h; cases h
  | some typeCoup =>
      have hne : typeCoup ≠ .deplacer := fun heq => htype (deplacer_of_value (heq ▸ hvalue))
      have htail : Takes 12 ((readEnum EnumPiece.values >>= fun piece => readParams typeCoup >>= fun params =>
          pure (Coup.mk typeCoup piece false params)) >>= fun coup => pure (some coup) : Reader (Option Coup)) :=
        ((takes_readEnum _).bind fun _ => (takes_depose hne).bind fun _ => Takes.pure _).bind fun coup =>
          Takes.pure (some coup)
      rw [hvalue] at h
      have htaken := htail.length_le h
      simp only [List.length_append, hlength, beBytes, List.length_cons, List.length_nil] at htaken
      omega

theorem caseOf_isSome {k : TCase} (h : LegalCase k) : ∃ square, caseOf k = some square := by
  have hcol : k.c.toNat < EnumCol.values.length := h.1.trans (by decide)
  have hlig : k.l.toNat < EnumLig.values.length := h.2.trans (by decide)
  rw [caseOf, List.getElem?_eq_getElem hcol, List.getElem?_eq_getElem hlig]
  exact ⟨_, rfl⟩

theorem moveOf_isSome {coupIa : TCoupIa} (h : Legal coupIa) : ∃ coup, moveOf coupIa = some coup := by
  obtain ⟨piece, hpiece⟩ : ∃ piece, EnumPiece.values[coupIa.piece.toNat]? = some piece :=
    ⟨_, List.getElem?_eq_getElem (h.piece.trans (by decide))⟩
  rcases h.params with ⟨htype, hdep, harr⟩ | ⟨htype, hpos⟩
  · obtain ⟨caseDep, hcaseDep⟩ := caseOf_isSome hdep
    obtain ⟨caseArr, hcaseArr⟩ := caseOf_isSome harr
    rw [moveOf_deplacer htype]
    exact ⟨_, coupOf_eq_some.2 ⟨.deplacer, piece, _, by rw [htype]; rfl, hpiece,
      deplOf_eq_some.2 ⟨caseDep, caseArr, hcaseDep, hcaseArr, rfl⟩, rfl⟩⟩
  · obtain ⟨casePos, hcasePos⟩ := caseOf_isSome hpos
    rw [moveOf, if_neg (by rw [htype]; decide), hcasePos]
    exact ⟨_, coupOf_eq_some.2 ⟨.deposer, piece, _, by rw [htype]; rfl, hpiece, rfl, rfl⟩⟩

theorem reads_faithful {coupIa : TCoupIa} (hlegal : Legal coupIa) (h : Faithful coupIa) (more : List UInt8) :
    readFromNetwork.run (sendCoupToAI coupIa ++ more) = .ok (moveOf coupIa, more) := by
  obtain ⟨coup, hcoup⟩ := moveOf_isSome hlegal
  have hcapt := (captRead_eq_iff _).2 h.estCapt
  rw [yields_deplacer hlegal.finPartie h.typeCoup more, hcapt, ← moveOf_deplacer h.typeCoup, hcoup]
  rfl

/-- A message is read completely and correctly exactly when it is faithful. -/
theorem read_faithful_iff {coupIa : TCoupIa} {coup : Option Coup} {more rest : List UInt8}
    (hfin : coupIa.finPartie = 0) (h : readFromNetwork.run (sendCoupToAI coupIa ++ more) = .ok (coup, rest)) :
    (coup = moveOf coupIa ∧ rest.length = more.length) ↔ Faithful coupIa := by
  by_cases htype : coupIa.typeCoup = deplacer
  · obtain ⟨rfl, hcoup⟩ := run_deplacer hfin htype h
    rw [and_iff_left rfl, hcoup]
    exact ⟨fun hcapt => ⟨htype, hcapt⟩, Faithful.estCapt⟩
  · have hunread := short_read hfin htype h
    constructor
    · rintro ⟨_, hlength⟩
      omega
    · intro hfaithful
      exact absurd hfaithful.typeCoup htype

/-- Exactly the sequences of displacements whose padding does not look like a
capture are read back. -/
theorem stream_decodes_iff (coups : List TCoupIa) (hlegal : ∀ coupIa ∈ coups, Legal coupIa) :
    (readTimes readFromNetwork coups.length).run (coups.flatMap sendCoupToAI) = .ok (coups.map moveOf, []) ↔
      ∀ coupIa ∈ coups, Faithful coupIa := by
  induction coups with
  | nil => simp [readTimes]; rfl
  | cons coupIa coups ih =>
      obtain ⟨hmove, hrest⟩ := List.forall_mem_cons.1 hlegal
      rw [List.length_cons, List.flatMap_cons, List.map_cons, readTimes_succ_eq_ok, List.forall_mem_cons, ← ih hrest]
      constructor
      · rintro ⟨mid, hread, htail⟩
        by_cases htype : coupIa.typeCoup = deplacer
        · obtain ⟨rfl, hcoup⟩ := run_deplacer hmove.finPartie htype hread
          exact ⟨⟨htype, hcoup.1 rfl⟩, htail⟩
        · -- twelve bytes stay behind, and the other reads cannot take that many more
          have hunread := short_read hmove.finPartie htype hread
          have htaken := (takes_readFromNetwork.times coups.length).length_le htail
          rw [length_flatMap_send] at hunread
          rw [List.length_nil] at htaken
          omega
      · rintro ⟨hfaithful, htail⟩
        exact ⟨_, reads_faithful hmove hfaithful _, htail⟩

section Examples

def squares : TDeplPiece := ⟨⟨2, 2⟩, ⟨2, 3⟩, 1, (0, 0, 0)⟩

def taking : TCoupIa := ⟨0, deplacer, 0, ⟨squares⟩⟩

def dropping : TCoupIa := ⟨0, deposer, 0, ⟨squares⟩⟩

theorem taking_legal : Legal taking := ⟨rfl, by decide, .inl ⟨rfl, ⟨by decide, by decide⟩, by decide, by decide⟩⟩

theorem dropping_legal : Legal dropping := ⟨rfl, by decide, .inr ⟨rfl, by decide, by decide⟩⟩

theorem stream_decodes_iff_taking :
    (readTimes readFromNetwork 1).run (sendCoupToAI taking) = .ok ([moveOf taking], []) := by
  have h := (stream_decodes_iff [taking] (by simp [taking_legal])).2 (by
    simp only [List.forall_mem_singleton]
    exact ⟨rfl, .inl (by decide)⟩)
  simpa using h

theorem dropping_unread : ¬ ∀ coups : List TCoupIa, (∀ coupIa ∈ coups, Legal coupIa) →
    (readTimes readFromNetwork coups.length).run (coups.flatMap sendCoupToAI) = .ok (coups.map moveOf, []) := by
  intro hall
  have h := hall [dropping] (by simp [dropping_legal])
  obtain ⟨mid, hfirst, hrest⟩ := readTimes_succ_eq_ok.1 h
  have hunread := short_read rfl (by decide) hfirst
  obtain ⟨_, rfl⟩ := Prod.mk.inj (Except.ok.inj hrest)
  rw [List.length_nil] at hunread
  omega

end Examples

end YokaiNoMori.AiStream
