import Mathlib.Data.UInt
import Mathlib.Tactic.IntervalCases

namespace YokaiNoMori.ByteReader

/-! Words in memory and on the wire, and readers of byte streams. -/

def leBytes (w : UInt32) : List UInt8 := [w.toUInt8, (w >>> 8).toUInt8, (w >>> 16).toUInt8, (w >>> 24).toUInt8]

def beBytes (w : UInt32) : List UInt8 := [(w >>> 24).toUInt8, (w >>> 16).toUInt8, (w >>> 8).toUInt8, w.toUInt8]

/-- Host to network order on a little-endian machine. -/
def htonl (w : UInt32) : UInt32 :=
  (w <<< 24) ||| ((w <<< 8) &&& (0x00ff0000 : UInt32)) ||| ((w >>> 8) &&& (0x0000ff00 : UInt32)) ||| (w >>> 24)

theorem leBytes_htonl (w : UInt32) : leBytes (htonl w) = beBytes w := by
  simp only [leBytes, beBytes, List.cons.injEq, and_true]
  refine ⟨?_, ?_, ?_, ?_⟩ <;> apply UInt8.toBitVec_inj.1 <;> ext i hi <;> simp [htonl] <;>
    interval_cases i <;> simp

def beValue (a b c d : UInt8) : Nat := ((a.toNat * 256 + b.toNat) * 256 + c.toNat) * 256 + d.toNat

def ofBytes (a b c d : UInt8) : Int :=
  if beValue a b c d < 2147483648 then beValue a b c d else beValue a b c d - 4294967296

theorem beValue_beBytes (w : UInt32) :
    beValue (w >>> 24).toUInt8 (w >>> 16).toUInt8 (w >>> 8).toUInt8 w.toUInt8 = w.toNat := by
  have hw := w.toNat_lt
  simp [beValue, Nat.shiftRight_eq_div_pow]
  omega

theorem beBytes_inj {v w : UInt32} (h : beBytes v = beBytes w) : v = w := by
  simp only [beBytes, List.cons.injEq, and_true] at h
  apply UInt32.toNat_inj.1
  rw [← beValue_beBytes v, ← beValue_beBytes w, h.1, h.2.1, h.2.2.1, h.2.2.2]

theorem beBytes_ofNat (a b c d : UInt8) : beBytes (UInt32.ofNat (beValue a b c d)) = [a, b, c, d] := by
  have ha := a.toNat_lt
  have hb := b.toNat_lt
  have hc := c.toNat_lt
  have hd := d.toNat_lt
  simp only [beBytes, List.cons.injEq, and_true, ← UInt8.toNat_inj]
  simp [beValue, Nat.shiftRight_eq_div_pow]
  omega

theorem beBytes_htonl (w : UInt32) : beBytes (htonl w) = leBytes w := by
  have h := congrArg List.reverse (leBytes_htonl w)
  exact h

/-- Four words joined by shifts and ors: each word also spills into the bytes above its own. -/
theorem leBytes_join (a b c d : UInt32) : leBytes ((d <<< 24) ||| (c <<< 16) ||| (b <<< 8) ||| a) =
    [a.toUInt8, b.toUInt8 ||| (a >>> 8).toUInt8, c.toUInt8 ||| (b >>> 8).toUInt8 ||| (a >>> 16).toUInt8,
      d.toUInt8 ||| (c >>> 8).toUInt8 ||| (b >>> 16).toUInt8 ||| (a >>> 24).toUInt8] := by
  simp only [leBytes, List.cons.injEq, and_true]
  refine ⟨?_, ?_, ?_, ?_⟩ <;> apply UInt8.toBitVec_inj.1 <;> ext i hi <;> simp <;>
    interval_cases i <;> simp

theorem ofBytes_eq_zero {a b c d : UInt8} : ofBytes a b c d = 0 ↔ a = 0 ∧ b = 0 ∧ c = 0 ∧ d = 0 := by
  have ha := a.toNat_lt
  have hb := b.toNat_lt
  have hc := c.toNat_lt
  have hd := d.toNat_lt
  simp only [ofBytes, beValue, ← UInt8.toNat_inj, UInt8.toNat_zero]
  omega

/-- Why a reader stops: its next byte has not arrived, or it has thrown. -/
inductive Stop
  | short | thrown
deriving DecidableEq, Repr

abbrev Reader (α : Type) := StateT (List UInt8) (Except Stop) α

def readByte : Reader UInt8
  | [] => .error .short
  | b :: rest => .ok (b, rest)

def readInt : Reader Int := do
  let a ← readByte
  let b ← readByte
  let c ← readByte
  let d ← readByte
  return ofBytes a b c d

def elementAt {α : Type} (values : List α) (i : Int) : Reader α :=
  match if 0 ≤ i then values[i.toNat]? else none with
  | some a => pure a
  | none => throw .thrown

def readTimes {α : Type} (r : Reader α) : Nat → Reader (List α)
  | 0 => pure []
  | n + 1 => do
    let a ← r
    let as ← readTimes r n
    return a :: as

variable {α β : Type} {r : Reader α} {f : α → Reader β} {a : α} {b : β} {bytes more : List UInt8}

/-- Given these bytes, and whatever follows them, the reader takes them and
returns the value, or throws when there is none. -/
def Yields (r : Reader α) (bytes : List UInt8) (o : Option α) : Prop :=
  ∀ rest, r.run (bytes ++ rest) = o.elim (.error .thrown) (fun a => .ok (a, rest))

theorem Yields.pure (a : α) : Yields (pure a) [] (some a) := fun _ => rfl

theorem Yields.bind {o : Option α} {g : α → Option β} (h : Yields r bytes o)
    (h' : ∀ a, o = some a → Yields (f a) more (g a)) : Yields (r >>= f) (bytes ++ more) (o >>= g) := by
  intro rest
  rw [StateT.run_bind, List.append_assoc, h]
  cases o with
  | none => rfl
  | some a => exact h' a rfl rest

theorem Yields.last {o : Option α} (h : Yields r bytes o) (g : α → β) :
    Yields (r >>= fun a => Pure.pure (g a)) bytes (o >>= fun a => Pure.pure (g a)) := by
  have hlast := h.bind (f := fun a => Pure.pure (g a)) (fun a _ => Yields.pure (g a))
  rwa [List.append_nil] at hlast

theorem yields_int (a b c d : UInt8) : Yields readInt [a, b, c, d] (some (ofBytes a b c d)) := fun _ => rfl

theorem yields_zero : Yields readInt (beBytes 0) (some 0) := by
  have hint := yields_int 0 0 0 0
  rwa [ofBytes_eq_zero.2 ⟨rfl, rfl, rfl, rfl⟩] at hint

/-- A word is read as an array index, and one that is negative as an `int` is
past the end of the array as a word. -/
theorem yields_elementAt_word {values : List α} (w : UInt32) (hlength : values.length ≤ 2147483648) :
    Yields (readInt >>= elementAt values) (beBytes w) values[w.toNat]? := by
  intro rest
  have hint := yields_int (w >>> 24).toUInt8 (w >>> 16).toUInt8 (w >>> 8).toUInt8 w.toUInt8 rest
  have hstep : (readInt >>= elementAt values).run (beBytes w ++ rest) =
      (elementAt values (if w.toNat < 2147483648 then w.toNat else w.toNat - 4294967296)).run rest := by
    rw [StateT.run_bind, beBytes, hint, ofBytes, beValue_beBytes]
    rfl
  have hw := w.toNat_lt
  rw [hstep, elementAt]
  by_cases hsmall : w.toNat < 2147483648
  · rw [if_pos hsmall, if_pos (by omega), Int.toNat_natCast]
    cases values[w.toNat]? <;> rfl
  · have hnone : values[w.toNat]? = none := List.getElem?_eq_none (by omega)
    rw [if_neg hsmall, if_neg (by omega), hnone]
    rfl

/-- The reader takes at most `n` bytes and does not look behind them. -/
def Takes (n : Nat) (r : Reader α) : Prop :=
  ∀ bytes a rest, r.run bytes = .ok (a, rest) →
    ∃ front, bytes = front ++ rest ∧ front.length ≤ n ∧ ∀ more, r.run (front ++ more) = .ok (a, more)

theorem Takes.length_le {n : Nat} {rest : List UInt8} (h : Takes n r) (hr : r.run bytes = .ok (a, rest)) :
    bytes.length ≤ n + rest.length := by
  obtain ⟨front, rfl, hlength, _⟩ := h _ _ _ hr
  rw [List.length_append]
  omega

theorem Takes.append {n : Nat} {rest : List UInt8} (h : Takes n r) (hr : r.run bytes = .ok (a, rest))
    (more : List UInt8) : r.run (bytes ++ more) = .ok (a, rest ++ more) := by
  obtain ⟨front, rfl, _, hfront⟩ := h _ _ _ hr
  rw [List.append_assoc, hfront]

theorem Takes.pure (a : α) : Takes 0 (pure a : Reader α) := by
  rintro bytes b rest h
  obtain ⟨rfl, rfl⟩ := Prod.mk.inj (Except.ok.inj h)
  exact ⟨[], rfl, le_refl 0, fun _ => rfl⟩

theorem Takes.mono {m n : Nat} (h : Takes m r) (hmn : m ≤ n) : Takes n r := by
  intro bytes a rest hr
  obtain ⟨front, hbytes, hlength, hfront⟩ := h bytes a rest hr
  exact ⟨front, hbytes, hlength.trans hmn, hfront⟩

theorem run_bind_eq_ok {rest : List UInt8} : (r >>= f).run bytes = .ok (b, rest) ↔
    ∃ a mid, r.run bytes = .ok (a, mid) ∧ (f a).run mid = .ok (b, rest) := by
  rw [StateT.run_bind]
  cases hr : r.run bytes with
  | error e => simp [bind, Except.bind]
  | ok p => simp [bind, Except.bind, Prod.ext_iff]

theorem Takes.bind {m n : Nat} (h : Takes m r) (h' : ∀ a, Takes n (f a)) : Takes (m + n) (r >>= f) := by
  intro bytes b rest hr
  obtain ⟨a, mid, ha, hb⟩ := run_bind_eq_ok.1 hr
  obtain ⟨front, rfl, hfront, hread⟩ := h bytes a mid ha
  obtain ⟨front', rfl, hfront', hread'⟩ := h' a mid b rest hb
  refine ⟨front ++ front', (List.append_assoc _ _ _).symm, ?_, ?_⟩
  · rw [List.length_append]
    omega
  · intro more
    rw [List.append_assoc]
    exact run_bind_eq_ok.2 ⟨a, front' ++ more, hread _, hread' more⟩

theorem takes_readByte : Takes 1 readByte := by
  rintro (_ | ⟨b, bytes⟩) a rest h
  · cases h
  · obtain ⟨rfl, rfl⟩ := Prod.mk.inj (Except.ok.inj h)
    exact ⟨[b], rfl, le_refl 1, fun _ => rfl⟩

theorem takes_readInt : Takes 4 readInt :=
  takes_readByte.bind fun _ => takes_readByte.bind fun _ => takes_readByte.bind fun _ =>
    takes_readByte.bind fun _ => Takes.pure _

theorem takes_elementAt {values : List α} (i : Int) : Takes 0 (elementAt values i) := by
  rw [elementAt]
  split
  · exact Takes.pure _
  · rintro bytes a rest h
    cases h

theorem readTimes_succ_eq_ok {n : Nat} {as : List α} {rest : List UInt8} :
    (readTimes r (n + 1)).run bytes = .ok (a :: as, rest) ↔
      ∃ mid, r.run bytes = .ok (a, mid) ∧ (readTimes r n).run mid = .ok (as, rest) := by
  rw [readTimes, run_bind_eq_ok]
  constructor
  · rintro ⟨a', mid, ha, hrest⟩
    obtain ⟨as', mid', has, hpure⟩ := run_bind_eq_ok.1 hrest
    obtain ⟨hlist, rfl⟩ := Prod.mk.inj (Except.ok.inj hpure)
    obtain ⟨rfl, rfl⟩ := List.cons.inj hlist
    exact ⟨mid, ha, has⟩
  · rintro ⟨mid, ha, has⟩
    exact ⟨a, mid, ha, run_bind_eq_ok.2 ⟨as, rest, has, rfl⟩⟩

theorem Takes.times {n : Nat} (h : Takes n r) (k : Nat) : Takes (k * n) (readTimes r k) := by
  induction k with
  | zero => exact (Takes.pure []).mono (by omega)
  | succ k ih => exact (h.bind fun a => ih.bind fun as => Takes.pure (a :: as)).mono (by rw [Nat.succ_mul]; omega)

end YokaiNoMori.ByteReader
