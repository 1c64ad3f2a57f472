import YokaiNoMori.AiStream
import YokaiNoMori.Segments
import YokaiNoMori.SessionAgreement

namespace YokaiNoMori.CoupFromAI

open ProtocolYokai JavaCoup ByteReader Segments SessionAgreement

def writeInt (n : Nat) : List UInt8 := beBytes (UInt32.ofNat n)

def writeBoolean (b : Bool) : List UInt8 := [if b then 1 else 0]

def sendCase (k : Case) : List UInt8 := writeInt k.c.ordinal ++ writeInt k.l.ordinal

def DeplPiece.sendToNetwork (depl : DeplPiece) : List UInt8 :=
  sendCase depl.caseDep ++ (sendCase depl.caseArr ++ writeBoolean depl.estCapt)

def DeposerPiece.sendToNetwork (depose : DeposerPiece) : List UInt8 := sendCase depose.casePos

def Action.sendToNetwork : Action → List UInt8
  | .depl params => DeplPiece.sendToNetwork params
  | .depose params => DeposerPiece.sendToNetwork params

def Coup.sendToNetwork (coup : Coup) : List UInt8 :=
  writeInt (if coup.finPartie then 1 else 0) ++ (writeInt coup.typeCoup.ordinal ++
    (writeInt coup.piece.ordinal ++ Action.sendToNetwork coup.params))

/-- The socket to the AI, with what the buffers on the stack hold before each
call of `receiveIntFromJava`. -/
structure Sock where
  source : Source UInt8
  stack : List (List UInt8)

abbrev Receiver (α : Type) := StateT Sock Option α

/-- The promotion of a signed `char` to an `int`. -/
def ofChar (b : UInt8) : UInt32 := b.toInt8.toInt32.toUInt32

/-- `ntohl(buff[3] << 24 | buff[2] << 16 | buff[1] << 8 | buff[0])`. -/
def buildInt (buff : List UInt8) : UInt32 :=
  htonl ((ofChar (buff.getD 3 0) <<< 24) ||| (ofChar (buff.getD 2 0) <<< 16) |||
    (ofChar (buff.getD 1 0) <<< 8) ||| ofChar (buff.getD 0 0))

/-- When the stream ends early the rest of the buffer keeps what it held. -/
def receiveIntFromJava : Receiver UInt32 := fun sock =>
  let r := readLoop 4 4 sock.source
  let buff := r.1 ++ (sock.stack.headD []).drop r.1.length
  some (buildInt buff, ⟨r.2, sock.stack.tail⟩)

/-- `none` is the exit of the client. -/
def receiveBoolFromJava : Receiver UInt32 := fun sock =>
  let r := sock.source.read 1
  match r.1 with
  | [] => none
  | res :: _ => some (res.toUInt32, ⟨r.2, sock.stack⟩)

def receiveCase : Receiver TCase := do
  let c ← receiveIntFromJava
  let l ← receiveIntFromJava
  return ⟨c, l⟩

/-- `res` is the structure that the caller passes, with whatever it holds. -/
def getCoupFromAI (res : TCoupIa) : Receiver TCoupIa := do
  let finPartie ← receiveIntFromJava
  let typeCoup ← receiveIntFromJava
  let piece ← receiveIntFromJava
  if typeCoup = deplacer then
    let caseDep ← receiveCase
    let caseArr ← receiveCase
    let estCapt ← receiveBoolFromJava
    return ⟨finPartie, typeCoup, piece,
      ⟨{ res.params.deplPiece with caseDep, caseArr, estCapt := if estCapt = 0 then 0 else 1 }⟩⟩
  else
    let casePos ← receiveCase
    return ⟨finPartie, typeCoup, piece, res.params.setDeposerPiece casePos⟩

/-- Given these bytes, whatever follows them and wherever the stream is cut, the
receiver takes them and returns the value. -/
def Receives {α : Type} (r : Receiver α) (bytes : List UInt8) (a : α) : Prop :=
  ∀ rest cuts stack, ∃ cuts' stack', r.run ⟨⟨bytes ++ rest, cuts⟩, stack⟩ = some (a, ⟨⟨rest, cuts'⟩, stack'⟩)

section

variable {α β : Type} {r : Receiver α} {f : α → Receiver β} {bytes more : List UInt8} {a : α} {b : β}

theorem Receives.pure (a : α) : Receives (pure a) [] a := fun _ cuts stack => ⟨cuts, stack, rfl⟩

theorem Receives.bind (h : Receives r bytes a) (h' : Receives (f a) more b) :
    Receives (r >>= f) (bytes ++ more) b := by
  intro rest cuts stack
  obtain ⟨cuts', stack', hr⟩ := h (more ++ rest) cuts stack
  obtain ⟨cuts'', stack'', hf⟩ := h' rest cuts' stack'
  refine ⟨cuts'', stack'', ?_⟩
  rw [StateT.run_bind, List.append_assoc, hr]
  exact hf

theorem Receives.last (h : Receives r bytes a) (g : α → β) :
    Receives (r >>= fun a => Pure.pure (g a)) bytes (g a) := by
  have hlast := h.bind (f := fun a => Pure.pure (g a)) (Receives.pure (g a))
  rwa [List.append_nil] at hlast

end

/-- The ordinals and flags are small enough for the signed characters. -/
theorem buildInt_writeInt {n : Nat} (h : n < 7) : buildInt (writeInt n) = UInt32.ofNat n := by
  interval_cases n <;> decide

theorem receives_int {n : Nat} (h : n < 7) : Receives receiveIntFromJava (writeInt n) (UInt32.ofNat n) := by
  intro rest cuts stack
  have hlength : (writeInt n).length = 4 := rfl
  obtain ⟨cuts', hloop⟩ := readLoop_exact rest cuts hlength
  have hbuff : buildInt (writeInt n ++ (stack.headD []).drop (writeInt n).length) = buildInt (writeInt n) := rfl
  refine ⟨cuts', stack.tail, ?_⟩
  change some (buildInt ((readLoop 4 4 ⟨writeInt n ++ rest, cuts⟩).1 ++ _),
    Sock.mk (readLoop 4 4 ⟨writeInt n ++ rest, cuts⟩).2 stack.tail) = _
  rw [hloop, hbuff, buildInt_writeInt h]

theorem receives_boolean (b : Bool) :
    Receives receiveBoolFromJava (writeBoolean b) (if b then 1 else 0) := by
  intro rest cuts stack
  refine ⟨cuts.tail, stack, ?_⟩
  change (match ((Source.mk (writeBoolean b ++ rest) cuts).read 1).1 with
    | [] => none
    | res :: _ => some (res.toUInt32, Sock.mk ((Source.mk (writeBoolean b ++ rest) cuts).read 1).2 stack)) = _
  rw [writeBoolean, List.singleton_append, read_one]
  cases b <;> rfl

theorem col_ordinal (col : EnumCol) : col.ordinal < 7 := by cases col <;> decide

theorem lig_ordinal (l : EnumLig) : l.ordinal < 7 := by cases l <;> decide

theorem piece_ordinal (p : EnumPiece) : p.ordinal < 7 := by cases p <;> decide

theorem coup_ordinal (t : EnumCoup) : t.ordinal < 7 := by cases t <;> decide

def caseWords (k : Case) : TCase := ⟨UInt32.ofNat k.c.ordinal, UInt32.ofNat k.l.ordinal⟩

theorem receives_case (k : Case) : Receives receiveCase (sendCase k) (caseWords k) :=
  (receives_int (col_ordinal k.c)).bind ((receives_int (lig_ordinal k.l)).last _)

/-- The parameters are those of the type of the move. -/
def Matching (coup : Coup) : Prop :=
  match coup.params with
  | .depl _ => coup.typeCoup = .deplacer
  | .depose _ => coup.typeCoup ≠ .deplacer

def flagWord (b : Bool) : UInt32 := UInt32.ofNat (if b then 1 else 0)

/-- What is decoded into `res`: the enumerations as ordinals and the flags as 0 or 1. -/
def decoded (coup : Coup) (res : TCoupIa) : TCoupIa where
  finPartie := flagWord coup.finPartie
  typeCoup := UInt32.ofNat coup.typeCoup.ordinal
  piece := UInt32.ofNat coup.piece.ordinal
  params :=
    match coup.params with
    | .depl depl =>
        ⟨{ res.params.deplPiece with
            caseDep := caseWords depl.caseDep, caseArr := caseWords depl.caseArr,
            estCapt := if depl.estCapt then 1 else 0 }⟩
    | .depose depose => res.params.setDeposerPiece (caseWords depose.casePos)

theorem typeWord_deplacer {t : EnumCoup} : UInt32.ofNat t.ordinal = deplacer ↔ t = .deplacer := by
  cases t <;> decide

theorem receives_coup {coup : Coup} (h : Matching coup) (res : TCoupIa) :
    Receives (getCoupFromAI res) (Coup.sendToNetwork coup) (decoded coup res) := by
  have hfin : (if coup.finPartie then 1 else 0) < 7 := by cases coup.finPartie <;> decide
  rw [getCoupFromAI]
  apply (receives_int hfin).bind
  apply (receives_int (coup_ordinal coup.typeCoup)).bind
  apply (receives_int (piece_ordinal coup.piece)).bind
  rcases coup with ⟨typeCoup, piece, finPartie, depl | depose⟩
  · rw [if_pos (typeWord_deplacer.2 h)]
    apply (receives_case depl.caseDep).bind
    apply (receives_case depl.caseArr).bind
    have hcapt : (if (if depl.estCapt then (1 : UInt32) else 0) = 0 then (0 : UInt8) else 1) =
        if depl.estCapt then 1 else 0 := by cases depl.estCapt <;> rfl
    have hlast := (receives_boolean depl.estCapt).last fun estCapt =>
      TCoupIa.mk (flagWord finPartie) (UInt32.ofNat typeCoup.ordinal) (UInt32.ofNat piece.ordinal)
        ⟨{ res.params.deplPiece with
            caseDep := caseWords depl.caseDep, caseArr := caseWords depl.caseArr,
            estCapt := if estCapt = 0 then 0 else 1 }⟩
    rw [hcapt] at hlast
    exact hlast
  · rw [if_neg (typeWord_deplacer.not.2 h)]
    exact (receives_case depose.casePos).last _

/-- The decoder is called once for each move, into structures that may hold anything. -/
theorem receives_coups {coups : List Coup} (h : ∀ coup ∈ coups, Matching coup) {prior : List TCoupIa}
    (hlength : prior.length = coups.length) :
    Receives (prior.mapM getCoupFromAI) (coups.flatMap Coup.sendToNetwork) (coups.zipWith decoded prior) := by
  induction coups generalizing prior with
  | nil =>
      obtain rfl := List.eq_nil_of_length_eq_zero hlength
      exact Receives.pure []
  | cons coup coups ih =>
      cases prior with
      | nil => simp at hlength
      | cons res prior =>
          obtain ⟨hcoup, hcoups⟩ := List.forall_mem_cons.1 h
          rw [List.mapM_cons, List.flatMap_cons, List.zipWith_cons_cons]
          apply (receives_coup hcoup res).bind
          exact (ih hcoups (Nat.succ_inj.1 hlength)).last _

structure Decodes (coup : Coup) (ia : TCoupIa) : Prop where
  finPartie : ia.finPartie = if coup.finPartie then 1 else 0
  typeCoup : ia.typeCoup = UInt32.ofNat coup.typeCoup.ordinal
  piece : ia.piece = UInt32.ofNat coup.piece.ordinal
  params :
    match coup.params with
    | .depl depl => SameCase depl.caseDep ia.params.deplPiece.caseDep ∧
        SameCase depl.caseArr ia.params.deplPiece.caseArr ∧
        ia.params.deplPiece.estCapt = if depl.estCapt then 1 else 0
    | .depose depose => SameCase depose.casePos ia.params.deposerPiece

theorem decodes_decoded (coup : Coup) (res : TCoupIa) : Decodes coup (decoded coup res) := by
  rcases coup with ⟨typeCoup, piece, finPartie, depl | depose⟩
  · exact ⟨by cases finPartie <;> rfl, rfl, rfl, ⟨rfl, rfl⟩, ⟨rfl, rfl⟩, rfl⟩
  · exact ⟨by cases finPartie <;> rfl, rfl, rfl, rfl, rfl⟩

theorem decodes_all {coups : List Coup} {prior : List TCoupIa} (hlength : prior.length = coups.length) :
    List.Forall₂ Decodes coups (coups.zipWith decoded prior) := by
  induction coups generalizing prior with
  | nil => exact .nil
  | cons coup coups ih =>
      cases prior with
      | nil => simp at hlength
      | cons res prior => exact .cons (decodes_decoded coup res) (ih (Nat.succ_inj.1 hlength))

structure SameMove (ia back : TCoupIa) : Prop where
  typeCoup : back.typeCoup = ia.typeCoup
  piece : back.piece = ia.piece
  deplPiece : ia.typeCoup = deplacer → back.params.deplPiece.caseDep = ia.params.deplPiece.caseDep ∧
    back.params.deplPiece.caseArr = ia.params.deplPiece.caseArr ∧
    back.params.deplPiece.estCapt = ia.params.deplPiece.estCapt
  deposerPiece : ia.typeCoup = deposer → back.params.deposerPiece = ia.params.deposerPiece

theorem convert_back (ia res : TCoupIa) (req : TCoupReq) (sens : Bool) (nbPartie : Int) (fin : Bool) :
    SameMove ia (convertServerToAI res (convertAItoServer ia req sens nbPartie) fin) := by
  refine ⟨rfl, rfl, fun htype => ?_, fun htype => ?_⟩
  · simp [convertServerToAI, convertAItoServer, htype]
  · have hne : deposer ≠ deplacer := by decide
    simp [convertServerToAI, convertAItoServer, htype, hne, Params.deposerPiece, Params.setDeposerPiece]

/-- The moves of the AI arrive as they were sent, and nothing of them is left in
the stream. -/
theorem stream_round_trip (coups : List Coup) (h : ∀ coup ∈ coups, Matching coup) (prior : List TCoupIa)
    (hlength : prior.length = coups.length) (cuts : List Nat) (stack : List (List UInt8)) :
    ∃ ias sock, (prior.mapM getCoupFromAI).run ⟨⟨coups.flatMap Coup.sendToNetwork, cuts⟩, stack⟩ =
        some (ias, sock) ∧ sock.source.bytes = [] ∧ List.Forall₂ Decodes coups ias ∧
      ∀ ia ∈ ias, ia.typeCoup = deplacer ∨ ia.typeCoup = deposer → ∀ res req sens nbPartie fin,
        SameMove ia (convertServerToAI res (convertAItoServer ia req sens nbPartie) fin) := by
  obtain ⟨cuts', stack', hrun⟩ := receives_coups h hlength [] cuts stack
  rw [List.append_nil] at hrun
  exact ⟨_, _, hrun, rfl, decodes_all hlength, fun ia _ _ res req sens nbPartie fin =>
    convert_back ia res req sens nbPartie fin⟩

def advancing : Coup := ⟨.deplacer, .kodama, false, .depl ⟨⟨.c, .trois⟩, ⟨.c, .quatre⟩, true⟩⟩

def placing : Coup := ⟨.deposer, .oni, false, .depose ⟨⟨.a, .deux⟩⟩⟩

theorem stream_round_trip_two :
    let coups := [advancing, placing]
    let prior := [AiStream.taking, AiStream.dropping]
    ∃ ias sock, (prior.mapM getCoupFromAI).run ⟨⟨coups.flatMap Coup.sendToNetwork, [0, 2, 1, 0]⟩, []⟩ =
        some (ias, sock) ∧ sock.source.bytes = [] ∧ List.Forall₂ Decodes coups ias ∧
      ∀ ia ∈ ias, ia.typeCoup = deplacer ∨ ia.typeCoup = deposer → ∀ res req sens nbPartie fin,
        SameMove ia (convertServerToAI res (convertAItoServer ia req sens nbPartie) fin) :=
  stream_round_trip [advancing, placing] (by simp [Matching, advancing, placing]) _ rfl [0, 2, 1, 0] []

end YokaiNoMori.CoupFromAI
