import YokaiNoMori.CoupFromAI

namespace YokaiNoMori.JavaInt

open ByteReader Segments CoupFromAI

/-- What a signed `char` leaves in every higher byte of the `int` it becomes. -/
def signByte (b : UInt8) : UInt8 := if 128 ≤ b then 255 else 0

/-- The bytes of the returned value, most significant first. -/
def assembled (c0 c1 c2 c3 : UInt8) : List UInt8 :=
  [c0, c1 ||| signByte c0, c2 ||| signByte c1 ||| signByte c0,
    c3 ||| signByte c2 ||| signByte c1 ||| signByte c0]

/-- Four bytes, and each negative one before the last is followed by `0xFF` only. -/
def SignSafe : List UInt8 → Prop
  | c0 :: c1 :: c2 :: c3 :: _ =>
      (128 ≤ c0 → c1 = 255 ∧ c2 = 255 ∧ c3 = 255) ∧ (128 ≤ c1 → c2 = 255 ∧ c3 = 255) ∧ (128 ≤ c2 → c3 = 255)
  | _ => False

/-- The stream is what arrives before its end. Every value is built from four
bytes, so none can be returned for a stream that ends early. -/
structure Inverts (bytes : List UInt8) : Prop where
  whole : ∀ n rest, bytes = beBytes n ++ rest → ∀ cuts stack, ∃ cuts',
    receiveIntFromJava.run ⟨⟨bytes, cuts⟩, stack⟩ = some (n, ⟨⟨rest, cuts'⟩, stack.tail⟩)
  short : bytes.length < 4 → ∀ cuts stack, receiveIntFromJava.run ⟨⟨bytes, cuts⟩, stack⟩ = none

theorem leBytes_ofChar (b : UInt8) : leBytes (ofChar b) = [b, signByte b, signByte b, signByte b] := by
  have h : ∀ i : Fin 256, leBytes (ofChar (UInt8.ofNat i)) =
      [UInt8.ofNat i, signByte (UInt8.ofNat i), signByte (UInt8.ofNat i), signByte (UInt8.ofNat i)] := by
    decide +kernel
  have hb := h ⟨b.toNat, b.toNat_lt⟩
  rwa [UInt8.ofNat_toNat] at hb

theorem beBytes_buildInt (c0 c1 c2 c3 : UInt8) : beBytes (buildInt [c0, c1, c2, c3]) = assembled c0 c1 c2 c3 := by
  have h0 := leBytes_ofChar c0
  have h1 := leBytes_ofChar c1
  have h2 := leBytes_ofChar c2
  have h3 := leBytes_ofChar c3
  simp only [leBytes, List.cons.injEq, and_true] at h0 h1 h2 h3
  obtain ⟨hlow, h0, h0', h0''⟩ := h0
  obtain ⟨hlow1, h1, h1', _⟩ := h1
  obtain ⟨hlow2, h2, _⟩ := h2
  have hjoin := leBytes_join (ofChar c0) (ofChar c1) (ofChar c2) (ofChar c3)
  rw [hlow, hlow1, hlow2, h3.1, h0, h0', h0'', h1, h1', h2] at hjoin
  exact (beBytes_htonl _).trans hjoin

@[simp] theorem or_all (b : UInt8) : b ||| 255 = 255 := by
  apply UInt8.toBitVec_inj.1
  exact BitVec.or_allOnes

theorem assembled_eq_iff {c0 c1 c2 c3 : UInt8} (rest : List UInt8) :
    assembled c0 c1 c2 c3 = [c0, c1, c2, c3] ↔ SignSafe (c0 :: c1 :: c2 :: c3 :: rest) := by
  by_cases h0 : 128 ≤ c0 <;> by_cases h1 : 128 ≤ c1 <;> by_cases h2 : 128 ≤ c2 <;>
    simp [assembled, signByte, SignSafe, h0, h1, h2, eq_comm]

theorem receive_four (c0 c1 c2 c3 : UInt8) (rest : List UInt8) (cuts : List Nat) (stack : List (List UInt8)) :
    ∃ cuts', receiveIntFromJava.run ⟨⟨c0 :: c1 :: c2 :: c3 :: rest, cuts⟩, stack⟩ =
      some (buildInt [c0, c1, c2, c3], ⟨⟨rest, cuts'⟩, stack.tail⟩) := by
  have hlength : [c0, c1, c2, c3].length = 4 := rfl
  obtain ⟨cuts', hloop⟩ := readLoop_exact rest cuts hlength
  refine ⟨cuts', ?_⟩
  change some (buildInt ((readLoop 4 4 ⟨[c0, c1, c2, c3] ++ rest, cuts⟩).1 ++ _),
    Sock.mk (readLoop 4 4 ⟨[c0, c1, c2, c3] ++ rest, cuts⟩).2 stack.tail) = _
  rw [hloop]
  rfl

theorem whole_iff (c0 c1 c2 c3 : UInt8) (rest : List UInt8) :
    Inverts (c0 :: c1 :: c2 :: c3 :: rest) ↔ SignSafe (c0 :: c1 :: c2 :: c3 :: rest) := by
  rw [← assembled_eq_iff, ← beBytes_buildInt]
  constructor
  · intro h
    obtain ⟨n, hn⟩ : ∃ n, beBytes n = [c0, c1, c2, c3] := ⟨_, beBytes_ofNat c0 c1 c2 c3⟩
    obtain ⟨cuts', hrun⟩ := h.whole n rest (by rw [hn]; rfl) [] []
    obtain ⟨cuts'', hfour⟩ := receive_four c0 c1 c2 c3 rest [] []
    rw [hrun, Option.some.injEq, Prod.mk.injEq] at hfour
    rw [← hfour.1, hn]
  · intro hbuilt
    constructor
    · intro n rest' hbytes cuts stack
      obtain ⟨hn, rfl⟩ : [c0, c1, c2, c3] = beBytes n ∧ rest = rest' := by
        simpa [beBytes, and_assoc] using hbytes
      obtain ⟨cuts', hfour⟩ := receive_four c0 c1 c2 c3 rest cuts stack
      rw [beBytes_inj (hbuilt.trans hn)] at hfour
      exact ⟨cuts', hfour⟩
    · intro hlength
      simp at hlength
      omega

/-- The value of a stream that ends early. -/
theorem receive_short {bytes : List UInt8} (h : bytes.length < 4) (cuts : List Nat) (stack : List (List UInt8)) :
    (receiveIntFromJava.run ⟨⟨bytes, cuts⟩, stack⟩).map Prod.fst =
      some (buildInt (bytes ++ (stack.headD []).drop bytes.length)) := by
  have hgot := (readLoop_bytes ⟨bytes, cuts⟩ (Nat.le_refl 4)).1
  rw [List.take_of_length_le (Nat.le_of_lt h)] at hgot
  change some (buildInt ((readLoop 4 4 ⟨bytes, cuts⟩).1 ++
    (stack.headD []).drop (readLoop 4 4 ⟨bytes, cuts⟩).1.length)) = _
  rw [hgot]

/-- The loop breaks early and the rest of the buffer is used all the same. -/
theorem short_not {bytes : List UInt8} (h : bytes.length < 4) : ¬ Inverts bytes := by
  intro hinverts
  have hvalue := receive_short h [] []
  rw [hinverts.short h [] []] at hvalue
  cases hvalue

/-- The value survives the signed characters exactly for these streams. -/
theorem receive_inverts_iff (bytes : List UInt8) : Inverts bytes ↔ SignSafe bytes := by
  match bytes with
  | [] | [_] | [_, _] | [_, _, _] => exact iff_of_false (short_not (by simp)) id
  | c0 :: c1 :: c2 :: c3 :: rest => exact whole_iff c0 c1 c2 c3 rest

/-- One negative byte, a connection closed at once, and one closed after a
negative byte. -/
theorem receive_corrupts :
    buildInt (beBytes 32768) = 33023 ∧ ¬ Inverts (beBytes 32768) ∧
      (receiveIntFromJava.run ⟨⟨[], []⟩, [[1, 2, 3, 4]]⟩).map Prod.fst = some (buildInt [1, 2, 3, 4]) ∧
      ¬ Inverts [] ∧ ¬ Inverts [128] := by
  refine ⟨by decide, ?_, receive_short (by decide) _ _, short_not (by decide), short_not (by decide)⟩
  have hbytes : beBytes 32768 = [0, 0, 128, 0] := by decide
  rw [receive_inverts_iff, hbytes]
  intro h
  exact absurd (h.2.2 (by decide)) (by decide)

end YokaiNoMori.JavaInt
