import YokaiNoMori.ByteReader
import YokaiNoMori.ProtocolYokai

namespace YokaiNoMori.Wire

open ProtocolYokai ByteReader

/-! The structures of `protocolYokai.h` as the compiler lays them out: four-byte
enumerations and integers, and two bytes of padding after the name. -/

def leWord (a b c d : UInt8) : UInt32 := UInt32.ofNat (beValue d c b a)

def wordAt (bytes : List UInt8) (offset : Nat) : UInt32 :=
  match bytes.drop offset with
  | a :: b :: c :: d :: _ => leWord a b c d
  | _ => 0

def tNom : Nat := 30

inductive Struct
  | tPartieReq | tPartieRep | tCoupReq | tCoupRep
deriving DecidableEq

def sizeof : Struct → Nat
  | .tPartieReq | .tPartieRep | .tCoupReq => 40
  | .tCoupRep => 12

def structOf : Msg → Struct
  | .partieReq _ => .tPartieReq
  | .partieRep _ => .tPartieRep
  | .coupReq _ => .tCoupReq
  | .coupRep _ => .tCoupRep

/-- The code only asks whether the value is `PARTIE`, so any other one counts as `COUP`. -/
def idReqOf (w : UInt32) : TIdReq := if w = 0 then .partie else .coup

def sensOf (w : UInt32) : TSensTetePiece := if w = 1 then .sud else .nord

def codeRepOf (w : UInt32) : TCodeRep :=
  if w = 0 then .errOk else if w = 1 then .errPartie else if w = 2 then .errCoup else .errTyp

def validSensOf (w : UInt32) : TValidSensTete := if w = 0 then .ok else .ko

def valCoupOf (w : UInt32) : TValCoup := if w = 0 then .valid else if w = 1 then .timeout else .triche

/-- The code asks for `CONT`, `GAGNE` and `PERDU` by name. -/
def propCoupOf (w : UInt32) : TPropCoup :=
  if w = 0 then .cont else if w = 1 then .gagne else if w = 3 then .perdu else .nul

def nomAt (bytes : List UInt8) (offset : Nat) : Nom := (bytes.drop offset).take tNom

def partieReqOf (bytes : List UInt8) : TPartieReq :=
  ⟨idReqOf (wordAt bytes 0), nomAt bytes 4, sensOf (wordAt bytes 36)⟩

def partieRepOf (bytes : List UInt8) : TPartieRep :=
  ⟨codeRepOf (wordAt bytes 0), nomAt bytes 4, validSensOf (wordAt bytes 36)⟩

def caseAt (bytes : List UInt8) (offset : Nat) : TCase := ⟨wordAt bytes offset, wordAt bytes (offset + 4)⟩

def coupReqOf (bytes : List UInt8) : TCoupReq where
  idRequest := idReqOf (wordAt bytes 0)
  numPartie := (wordAt bytes 4).toInt32.toInt
  typeCoup := wordAt bytes 8
  piece := ⟨sensOf (wordAt bytes 12), wordAt bytes 16⟩
  params := ⟨⟨caseAt bytes 20, caseAt bytes 28, bytes.getD 36 0,
    (bytes.getD 37 0, bytes.getD 38 0, bytes.getD 39 0)⟩⟩

def coupRepOf (bytes : List UInt8) : TCoupRep :=
  ⟨codeRepOf (wordAt bytes 0), valCoupOf (wordAt bytes 4), propCoupOf (wordAt bytes 8)⟩

def idReqWord : TIdReq → UInt32
  | .partie => 0
  | .coup => 1

def sensWord : TSensTetePiece → UInt32
  | .nord => 0
  | .sud => 1

def codeRepWord : TCodeRep → UInt32
  | .errOk => 0
  | .errPartie => 1
  | .errCoup => 2
  | .errTyp => 3

def validSensWord : TValidSensTete → UInt32
  | .ok => 0
  | .ko => 1

def valCoupWord : TValCoup → UInt32
  | .valid => 0
  | .timeout => 1
  | .triche => 2

def propCoupWord : TPropCoup → UInt32
  | .cont => 0
  | .gagne => 1
  | .nul => 2
  | .perdu => 3

def caseBytes (k : TCase) : List UInt8 := leBytes k.c ++ leBytes k.l

def namedBytes (head : UInt32) (nom : Nom) (padding : UInt8 × UInt8) (last : UInt32) : List UInt8 :=
  leBytes head ++ (nom ++ (padding.1 :: padding.2 :: leBytes last))

/-- The bytes of a structure. The padding is whatever the sender's memory holds. -/
def image (padding : UInt8 × UInt8) : Msg → List UInt8
  | .partieReq req => namedBytes (idReqWord req.idReq) req.nomJoueur padding (sensWord req.piece)
  | .partieRep rep => namedBytes (codeRepWord rep.err) rep.nomAdvers padding (validSensWord rep.validSensTete)
  | .coupReq req =>
      leBytes (idReqWord req.idRequest) ++ (leBytes (Int32.ofInt req.numPartie).toUInt32 ++
        (leBytes req.typeCoup ++ (leBytes (sensWord req.piece.sensTetePiece) ++ (leBytes req.piece.typePiece ++
          (caseBytes req.params.deplPiece.caseDep ++ (caseBytes req.params.deplPiece.caseArr ++
            [req.params.deplPiece.estCapt, req.params.deplPiece.padding.1, req.params.deplPiece.padding.2.1,
              req.params.deplPiece.padding.2.2]))))))
  | .coupRep rep => leBytes (codeRepWord rep.err) ++ (leBytes (valCoupWord rep.validCoup) ++
      leBytes (propCoupWord rep.propCoup))

/-- The names fill their array, and the number of the game is an `int`. -/
def Fits : Msg → Prop
  | .partieReq req => req.nomJoueur.length = tNom
  | .partieRep rep => rep.nomAdvers.length = tNom
  | .coupReq req => -2147483648 ≤ req.numPartie ∧ req.numPartie < 2147483648
  | .coupRep _ => True

instance : DecidablePred Fits
  | .partieReq req => inferInstanceAs (Decidable (req.nomJoueur.length = tNom))
  | .partieRep rep => inferInstanceAs (Decidable (rep.nomAdvers.length = tNom))
  | .coupReq req => inferInstanceAs (Decidable (-2147483648 ≤ req.numPartie ∧ req.numPartie < 2147483648))
  | .coupRep _ => isTrue trivial

def readAs : Struct → List UInt8 → Msg
  | .tPartieReq, bytes => .partieReq (partieReqOf bytes)
  | .tPartieRep, bytes => .partieRep (partieRepOf bytes)
  | .tCoupReq, bytes => .coupReq (coupReqOf bytes)
  | .tCoupRep, bytes => .coupRep (coupRepOf bytes)

theorem leWord_leBytes (w : UInt32) :
    leWord w.toUInt8 (w >>> 8).toUInt8 (w >>> 16).toUInt8 (w >>> 24).toUInt8 = w := by
  rw [leWord, beValue_beBytes]
  exact UInt32.ofNat_toNat

theorem wordAt_leBytes {bytes rest : List UInt8} {offset : Nat} {w : UInt32}
    (h : bytes.drop offset = leBytes w ++ rest) : wordAt bytes offset = w := by
  rw [wordAt, h]
  exact leWord_leBytes w

theorem caseAt_bytes {bytes rest : List UInt8} {offset : Nat} {k : TCase}
    (h : bytes.drop offset = caseBytes k ++ rest) : caseAt bytes offset = k := by
  have hnext : bytes.drop (offset + 4) = leBytes k.l ++ rest := by
    rw [← List.drop_drop, h]
    rfl
  rw [caseBytes, List.append_assoc] at h
  rw [caseAt, wordAt_leBytes h, wordAt_leBytes hnext]

theorem idReqOf_word (id : TIdReq) : idReqOf (idReqWord id) = id := by cases id <;> decide

theorem sensOf_word (sens : TSensTetePiece) : sensOf (sensWord sens) = sens := by cases sens <;> decide

theorem codeRepOf_word (code : TCodeRep) : codeRepOf (codeRepWord code) = code := by cases code <;> decide

theorem validSensOf_word (valid : TValidSensTete) : validSensOf (validSensWord valid) = valid := by
  cases valid <;> decide

theorem valCoupOf_word (val : TValCoup) : valCoupOf (valCoupWord val) = val := by cases val <;> decide

theorem propCoupOf_word (prop : TPropCoup) : propCoupOf (propCoupWord prop) = prop := by
  cases prop <;> decide

theorem named_read (head last : UInt32) (padding : UInt8 × UInt8) {nom : Nom} (h : nom.length = tNom) :
    wordAt (namedBytes head nom padding last) 0 = head ∧ nomAt (namedBytes head nom padding last) 4 = nom ∧
      wordAt (namedBytes head nom padding last) 36 = last := by
  have hnom : (namedBytes head nom padding last).drop 4 =
      nom ++ (padding.1 :: padding.2 :: leBytes last) := rfl
  refine ⟨wordAt_leBytes rfl, ?_, ?_⟩
  · rw [nomAt, hnom, ← h, List.take_left]
  · have hdrop : (namedBytes head nom padding last).drop 36 =
        ((namedBytes head nom padding last).drop 4).drop (nom.length + 2) := by
      rw [List.drop_drop, h]
      rfl
    have hlast : (nom ++ (padding.1 :: padding.2 :: leBytes last)).drop (nom.length + 2) =
        leBytes last ++ [] := by
      rw [← List.drop_drop, List.drop_left, List.append_nil]
      rfl
    rw [hnom, hlast] at hdrop
    exact wordAt_leBytes hdrop

/-- A structure that fits is read back from its bytes, whatever its padding holds. -/
theorem readAs_image {m : Msg} (h : Fits m) (padding : UInt8 × UInt8) :
    readAs (structOf m) (image padding m) = m := by
  cases m with
  | partieReq req =>
      obtain ⟨hid, hnom, hpiece⟩ := named_read (idReqWord req.idReq) (sensWord req.piece) padding h
      simp only [structOf, readAs, image, partieReqOf, hid, hnom, hpiece, idReqOf_word, sensOf_word]
  | partieRep rep =>
      obtain ⟨herr, hnom, hsens⟩ := named_read (codeRepWord rep.err) (validSensWord rep.validSensTete) padding h
      simp only [structOf, readAs, image, partieRepOf, herr, hnom, hsens, codeRepOf_word, validSensOf_word]
  | coupReq req =>
      have h0 : wordAt (image padding (.coupReq req)) 0 = idReqWord req.idRequest := wordAt_leBytes rfl
      have h4 : wordAt (image padding (.coupReq req)) 4 = (Int32.ofInt req.numPartie).toUInt32 := wordAt_leBytes rfl
      have h8 : wordAt (image padding (.coupReq req)) 8 = req.typeCoup := wordAt_leBytes rfl
      have h12 : wordAt (image padding (.coupReq req)) 12 = sensWord req.piece.sensTetePiece := wordAt_leBytes rfl
      have h16 : wordAt (image padding (.coupReq req)) 16 = req.piece.typePiece := wordAt_leBytes rfl
      have h20 : caseAt (image padding (.coupReq req)) 20 = req.params.deplPiece.caseDep := caseAt_bytes rfl
      have h28 : caseAt (image padding (.coupReq req)) 28 = req.params.deplPiece.caseArr := caseAt_bytes rfl
      have h36 : (image padding (.coupReq req)).getD 36 0 = req.params.deplPiece.estCapt := rfl
      have h37 : (image padding (.coupReq req)).getD 37 0 = req.params.deplPiece.padding.1 := rfl
      have h38 : (image padding (.coupReq req)).getD 38 0 = req.params.deplPiece.padding.2.1 := rfl
      have h39 : (image padding (.coupReq req)).getD 39 0 = req.params.deplPiece.padding.2.2 := rfl
      have hnum : (Int32.ofInt req.numPartie).toUInt32.toInt32.toInt = req.numPartie := by
        rw [Int32.toInt32_toUInt32]
        exact Int32.toInt_ofInt_of_le h.1 h.2
      simp only [structOf, readAs, coupReqOf, h0, h4, h8, h12, h16, h20, h28, h36, h37, h38, h39, hnum, idReqOf_word,
        sensOf_word]
  | coupRep rep =>
      have h0 : wordAt (image padding (.coupRep rep)) 0 = codeRepWord rep.err := wordAt_leBytes rfl
      have h4 : wordAt (image padding (.coupRep rep)) 4 = valCoupWord rep.validCoup := wordAt_leBytes rfl
      have hlast : (image padding (.coupRep rep)).drop 8 = leBytes (propCoupWord rep.propCoup) ++ [] := rfl
      have h8 := wordAt_leBytes hlast
      simp only [structOf, readAs, coupRepOf, h0, h4, h8, codeRepOf_word, valCoupOf_word, propCoupOf_word]

theorem length_image {m : Msg} (h : Fits m) (padding : UInt8 × UInt8) :
    (image padding m).length = sizeof (structOf m) := by
  cases m with
  | partieReq req =>
      have h : req.nomJoueur.length = 30 := h
      simp [image, namedBytes, leBytes, structOf, sizeof, h]
  | partieRep rep =>
      have h : rep.nomAdvers.length = 30 := h
      simp [image, namedBytes, leBytes, structOf, sizeof, h]
  | coupReq req => rfl
  | coupRep rep => rfl

end YokaiNoMori.Wire
