import YokaiNoMori.CString
import YokaiNoMori.Serveur
import YokaiNoMori.Wire

namespace YokaiNoMori.Names

open CString ProtocolYokai Wire

/-- The client's `main` when it copies the name: an argument holds no zero
byte, and `initGame` holds anything. -/
structure Launch where
  name : Nom
  argument : 0 ∉ name
  initGame : TPartieReq
  sized : Fits (.partieReq initGame)

def Launch.fill (l : Launch) : Except Fault TPartieReq := do
  let nomJoueur ← strcpy 0 l.initGame.nomJoueur (l.name ++ [0])
  return { l.initGame with idReq := .partie, nomJoueur := nomJoueur, piece := .sud }

def Launch.Contained (l : Launch) : Prop := ∃ req, l.fill = .ok req ∧ 0 ∈ req.nomJoueur

/-- The server's `main` with both requests received. -/
structure Handshake where
  player1 : TPartieReq
  player2 : TPartieReq
  answerP1 : TPartieRep
  answerP2 : TPartieRep
  game : Serveur.TPartie
  sized1 : Fits (.partieReq player1)
  sized2 : Fits (.partieReq player2)
  sizedP1 : Fits (.partieRep answerP1)
  sizedP2 : Fits (.partieRep answerP2)
  sizedName1 : game.player1Name.length = tNom
  sizedName2 : game.player2Name.length = tNom

/-- The two copies inside `sendAnswers`. -/
def Handshake.sendAnswers (h : Handshake) : Except Fault (TPartieRep × TPartieRep) := do
  let nomAdvers1 ← strcpy 0 h.answerP1.nomAdvers h.player2.nomJoueur
  let nomAdvers2 ← strcpy 0 h.answerP2.nomAdvers h.player1.nomJoueur
  return ({ h.answerP1 with nomAdvers := nomAdvers1 }, { h.answerP2 with nomAdvers := nomAdvers2 })

def Handshake.saveNames (h : Handshake) : Except Fault Serveur.TPartie := do
  let player1Name ← strcpy 0 h.game.player1Name h.player1.nomJoueur
  let player2Name ← strcpy 0 h.game.player2Name h.player2.nomJoueur
  return { h.game with player1Name := player1Name, player2Name := player2Name }

def Handshake.Accepted (h : Handshake) : Prop := h.player1.idReq = .partie ∧ h.player2.idReq = .partie

instance (h : Handshake) : Decidable h.Accepted :=
  inferInstanceAs (Decidable (h.player1.idReq = .partie ∧ h.player2.idReq = .partie))

/-- A wrong request copies nothing, and `main` returns after the answers. -/
def Handshake.copies (h : Handshake) : Except Fault (TPartieRep × TPartieRep × Serveur.TPartie) :=
  if h.Accepted then do
    let answers ← h.sendAnswers
    let game ← h.saveNames
    return (answers.1, answers.2, game)
  else .ok (h.answerP1, h.answerP2, h.game)

structure Terminated (answerP1 answerP2 : TPartieRep) (game : Serveur.TPartie) : Prop where
  answerP1 : 0 ∈ answerP1.nomAdvers
  answerP2 : 0 ∈ answerP2.nomAdvers
  player1Name : 0 ∈ game.player1Name
  player2Name : 0 ∈ game.player2Name

def Handshake.Contained (h : Handshake) : Prop :=
  ∃ answerP1 answerP2 game, h.copies = .ok (answerP1, answerP2, game) ∧
    (h.Accepted → Terminated answerP1 answerP2 game)

theorem zero_mem_take {name : Nom} (hname : 0 ∉ name) (n : Nat) :
    0 ∈ (name ++ [0]).take n ↔ name.length < n := by
  constructor
  · intro h
    by_contra hge
    rw [List.take_append_of_le_length (Nat.le_of_not_lt hge)] at h
    exact hname (List.mem_of_mem_take h)
  · intro h
    rw [List.take_of_length_le (by simpa using Nat.succ_le_of_lt h)]
    simp

theorem fill_eq {l : Launch} {out : Nom} (hcopy : strcpy 0 l.initGame.nomJoueur (l.name ++ [0]) = .ok out) :
    l.fill = .ok { l.initGame with idReq := .partie, nomJoueur := out, piece := .sud } := by
  rw [Launch.fill, hcopy]
  rfl

theorem strcpy_of_fill {l : Launch} {req : TPartieReq} (hfill : l.fill = .ok req) :
    strcpy 0 l.initGame.nomJoueur (l.name ++ [0]) = .ok req.nomJoueur := by
  cases hcopy : strcpy 0 l.initGame.nomJoueur (l.name ++ [0]) with
  | error e =>
      rw [Launch.fill, hcopy] at hfill
      cases hfill
  | ok out =>
      rw [fill_eq hcopy] at hfill
      cases hfill
      rfl

theorem fill_terminated {l : Launch} {req : TPartieReq} (hfill : l.fill = .ok req) : 0 ∈ req.nomJoueur := by
  rw [(strcpy_spec (strcpy_of_fill hfill)).1]
  exact nul_mem_overwrite _ _ _

theorem launch_contained_iff (l : Launch) : l.Contained ↔ l.name.length < tNom := by
  have hsize : l.initGame.nomJoueur.length = tNom := l.sized
  have hiff : (∃ out, strcpy 0 l.initGame.nomJoueur (l.name ++ [0]) = .ok out) ↔
      0 ∈ (l.name ++ [0]).take l.initGame.nomJoueur.length := strcpy_ok_iff
  rw [hsize, zero_mem_take l.argument] at hiff
  rw [← hiff]
  constructor
  · rintro ⟨req, hfill, _⟩
    exact ⟨req.nomJoueur, strcpy_of_fill hfill⟩
  · rintro ⟨out, hcopy⟩
    exact ⟨_, fill_eq hcopy, fill_terminated (fill_eq hcopy)⟩

theorem zero_take {src dst : Nom} (hsrc : src.length = tNom) (hdst : dst.length = tNom) (h : 0 ∈ src) :
    0 ∈ src.take dst.length := by
  rw [hdst, ← hsrc, List.take_length]
  exact h

def Handshake.answered (h : Handshake) : TPartieRep × TPartieRep × Serveur.TPartie :=
  ({ h.answerP1 with nomAdvers := overwrite 0 h.answerP1.nomAdvers h.player2.nomJoueur },
    { h.answerP2 with nomAdvers := overwrite 0 h.answerP2.nomAdvers h.player1.nomJoueur },
    { h.game with player1Name := overwrite 0 h.game.player1Name h.player1.nomJoueur
                  player2Name := overwrite 0 h.game.player2Name h.player2.nomJoueur })

theorem copies_ok {h : Handshake} (hid : h.Accepted) (h1 : 0 ∈ h.player1.nomJoueur)
    (h2 : 0 ∈ h.player2.nomJoueur) : h.copies = .ok h.answered := by
  rw [Handshake.copies, if_pos hid, Handshake.sendAnswers, strcpy_ok (zero_take h.sized2 h.sizedP1 h2),
    strcpy_ok (zero_take h.sized1 h.sizedP2 h1), Handshake.saveNames,
    strcpy_ok (zero_take h.sized1 h.sizedName1 h1), strcpy_ok (zero_take h.sized2 h.sizedName2 h2)]
  rfl

theorem copies_fault {h : Handshake} (hid : h.Accepted)
    (hnone : ¬ (0 ∈ h.player1.nomJoueur ∧ 0 ∈ h.player2.nomJoueur)) :
    h.copies = .error (.read tNom) := by
  have hread {src dst : Nom} (hsrc : src.length = tNom) (hdst : dst.length = tNom) (h : 0 ∉ src) :
      strcpy 0 dst src = .error (.read tNom) := by
    rw [strcpy_read h (by rw [hsrc, hdst]), hsrc]
  rw [Handshake.copies, if_pos hid, Handshake.sendAnswers]
  by_cases h2 : 0 ∈ h.player2.nomJoueur
  · have h1 : 0 ∉ h.player1.nomJoueur := fun h1 => hnone ⟨h1, h2⟩
    rw [strcpy_ok (zero_take h.sized2 h.sizedP1 h2), hread h.sized1 h.sizedP2 h1]
    rfl
  · rw [hread h.sized2 h.sizedP1 h2]
    rfl

theorem handshake_contained_iff (h : Handshake) :
    h.Contained ↔ (h.Accepted → 0 ∈ h.player1.nomJoueur ∧ 0 ∈ h.player2.nomJoueur) := by
  constructor
  · rintro ⟨answerP1, answerP2, game, hcopies, _⟩ hid
    by_contra hnone
    rw [copies_fault hid hnone] at hcopies
    cases hcopies
  · intro hterminated
    by_cases hid : h.Accepted
    · obtain ⟨h1, h2⟩ := hterminated hid
      exact ⟨_, _, _, copies_ok hid h1 h2, fun _ => ⟨nul_mem_overwrite _ _ _, nul_mem_overwrite _ _ _,
        nul_mem_overwrite _ _ _, nul_mem_overwrite _ _ _⟩⟩
    · refine ⟨h.answerP1, h.answerP2, h.game, ?_, fun h => absurd h hid⟩
      rw [Handshake.copies, if_neg hid]

/-- Between two clients of this program the server's copies stay inside: a
launch that goes through has terminated its name. -/
theorem launched_contained {l1 l2 : Launch} {h : Handshake} (h1 : l1.fill = .ok h.player1)
    (h2 : l2.fill = .ok h.player2) : h.Contained := by
  rw [handshake_contained_iff]
  intro _
  exact ⟨fill_terminated h1, fill_terminated h2⟩

/-- Where the copies stay inside, the names sent are those of the server's run,
and the names kept are, as strings, the names received. -/
theorem answered_agrees (h : Handshake) (hid : h.Accepted) :
    h.answered.1.nomAdvers =
      (Serveur.sendAnswers h.player1 h.player2 h.answerP1 h.answerP2).2.1.nomAdvers ∧
    h.answered.2.1.nomAdvers =
      (Serveur.sendAnswers h.player1 h.player2 h.answerP1 h.answerP2).2.2.nomAdvers ∧
    text 0 h.answered.2.2.player1Name = text 0 h.player1.nomJoueur ∧
    text 0 h.answered.2.2.player2Name = text 0 h.player2.nomJoueur := by
  rw [Serveur.sendAnswers, if_neg (not_not.2 hid.1), if_neg (not_not.2 hid.2)]
  split
  · exact ⟨rfl, rfl, text_overwrite _ _ _, text_overwrite _ _ _⟩
  · exact ⟨rfl, rfl, text_overwrite _ _ _, text_overwrite _ _ _⟩

/-- No length is checked and no terminator is written: the copies stay inside
exactly for short arguments and for received names that hold a zero. -/
theorem names_contained_iff (l : Launch) (h : Handshake) :
    (l.Contained ↔ l.name.length < tNom) ∧
      (h.Contained ↔ (h.Accepted → 0 ∈ h.player1.nomJoueur ∧ 0 ∈ h.player2.nomJoueur)) :=
  ⟨launch_contained_iff l, handshake_contained_iff h⟩

def blank : Nom := List.replicate tNom 0

def unterminated : Nom := List.replicate tNom 65

def longName : Launch where
  name := unterminated
  argument := by decide
  initGame := ⟨.partie, blank, .sud⟩
  sized := by decide

def rawRequest : Handshake where
  player1 := ⟨.partie, unterminated, .sud⟩
  player2 := ⟨.partie, blank, .sud⟩
  answerP1 := ⟨.errOk, blank, .ok⟩
  answerP2 := ⟨.errOk, blank, .ok⟩
  game := ⟨1, 0, 0, blank, blank, 0⟩
  sized1 := by decide
  sized2 := by decide
  sizedP1 := by decide
  sizedP2 := by decide
  sizedName1 := by decide
  sizedName2 := by decide

theorem names_escape :
    strcpy 0 longName.initGame.nomJoueur (longName.name ++ [0]) = .error (.write 30) ∧ ¬ longName.Contained ∧
      strcpy 0 rawRequest.answerP2.nomAdvers rawRequest.player1.nomJoueur = .error (.read 30) ∧
      ¬ rawRequest.Contained := by
  refine ⟨by decide, ?_, by decide, ?_⟩
  · rw [launch_contained_iff]
    decide
  · rw [handshake_contained_iff]
    decide

end YokaiNoMori.Names
