import Mathlib.Algebra.Order.Field.Rat
import Mathlib.Algebra.Order.Ring.Nat
import Mathlib.Data.Nat.Bitwise
import Mathlib.Tactic.Positivity
import Mathlib.Tactic.Ring

namespace BmsFirmware.Lib.Dbc

variable {n : ℕ}

/-- Bit `b` of a buffer is bit `b % 8` of byte `b / 8`. -/
def bitAt (d : Vector UInt8 n) (b : ℕ) : Bool :=
  if h : b / 8 < n then d[b / 8].toBitVec.getLsbD (b % 8) else false

def setByteBit (x : UInt8) (i : ℕ) (v : Bool) : UInt8 :=
  .ofBitVec (if v then x.toBitVec ||| .twoPow 8 i else x.toBitVec &&& ~~~ .twoPow 8 i)

def setBit (d : Vector UInt8 n) (b : ℕ) (v : Bool) : Vector UInt8 n :=
  if h : b / 8 < n then d.set (b / 8) (setByteBit d[b / 8] (b % 8) v) else d

/-- The bit after bit `b` in Motorola order: down the byte, then bit 7 of the next one. -/
def next (b : ℕ) : ℕ := if b % 8 = 0 then b + 15 else b - 1

def readBits (d : Vector UInt8 n) : ℕ → ℕ → ℕ
  | _, 0 => 0
  | b, k + 1 => (bitAt d b).toNat * 2 ^ k + readBits d (next b) k

def writeBits (u : ℕ) : ℕ → ℕ → Vector UInt8 n → Vector UInt8 n
  | _, 0, d => d
  | b, k + 1, d => writeBits u (next b) k (setBit d b (u.testBit k))

/-- A signal `start|length@0` with `+` or `-`, and the scaling `(factor,offset)`. -/
structure Signal where
  start : ℕ
  length : ℕ
  signed : Bool
  factor : ℚ
  offset : ℚ

namespace Signal

variable (s : Signal)

def raw (d : Vector UInt8 n) : ℤ :=
  let u := readBits d s.start s.length
  if s.signed ∧ 2 ^ s.length ≤ 2 * u then u - 2 ^ s.length else u

def physical (d : Vector UInt8 n) : ℚ := s.raw d * s.factor + s.offset

def encode (v : ℤ) (d : Vector UInt8 n) : Vector UInt8 n :=
  writeBits (v % 2 ^ s.length).toNat s.start s.length d

end Signal

structure Message where
  id : UInt32
  size : UInt8
  signals : List Signal

def Message.encode (m : Message) (vs : List ℤ) (d : Vector UInt8 n) : Vector UInt8 n :=
  (m.signals.zip vs).foldl (fun d sv ↦ sv.1.encode sv.2 d) d

theorem Message.encode_singleton {m : Message} {s : Signal} (hm : m.signals = [s]) (v : ℤ)
    (d : Vector UInt8 n) : m.encode [v] d = s.encode v d := by
  rw [Message.encode, hm]
  rfl

def rank (b : ℕ) : ℕ := 8 * (b / 8) + 7 - b % 8

theorem rank_next (b : ℕ) : rank (next b) = rank b + 1 := by
  unfold rank next
  split_ifs with hb <;> omega

theorem mod_two_pow_succ (x j : ℕ) :
    x % 2 ^ (j + 1) = (x.testBit j).toNat * 2 ^ j + x % 2 ^ j := by
  rw [Nat.mod_pow_succ, Nat.toNat_testBit, Nat.add_comm, Nat.mul_comm]

theorem setByteBit_getLsbD (x : UInt8) {i : ℕ} (hi : i < 8) (v : Bool) (j : ℕ) :
    (setByteBit x i v).toBitVec.getLsbD j = if i = j then v else x.toBitVec.getLsbD j := by
  unfold setByteBit
  by_cases hij : i = j
  · subst hij
    cases v <;> simp [hi]
  · cases v <;> simp [BitVec.getLsbD_twoPow, hij]
    exact BitVec.lt_of_getLsbD

theorem bitAt_setBit (d : Vector UInt8 n) {b : ℕ} (hb : b / 8 < n) (v : Bool) (c : ℕ) :
    bitAt (setBit d b v) c = if b = c then v else bitAt d c := by
  rw [setBit, dif_pos hb, bitAt, bitAt]
  by_cases hc : c / 8 < n
  · rw [dif_pos hc, dif_pos hc, Vector.getElem_set]
    by_cases hbyte : b / 8 = c / 8
    · have hiff : b % 8 = c % 8 ↔ b = c := by omega
      rw [if_pos hbyte, setByteBit_getLsbD _ (Nat.mod_lt b (by decide))]
      simp only [hiff, hbyte]
    · have hne : b ≠ c := fun hbc ↦ hbyte (congrArg (· / 8) hbc)
      rw [if_neg hbyte, if_neg hne]
  · have hne : b ≠ c := fun hbc ↦ hc (hbc ▸ hb)
    rw [dif_neg hc, dif_neg hc, if_neg hne]

theorem bitAt_writeBits_before (u : ℕ) (d : Vector UInt8 n) {b c k : ℕ} (h : rank c < rank b)
    (hk : rank b + k ≤ 8 * n) : bitAt (writeBits u b k d) c = bitAt d c := by
  induction k generalizing b d with
  | zero => rfl
  | succ k ih =>
    have hb : b / 8 < n := by
      unfold rank at hk
      omega
    rw [writeBits, ih _ (by rw [rank_next]; omega) (by rw [rank_next]; omega), bitAt_setBit d hb,
      if_neg (fun hbc ↦ (hbc ▸ h).false)]

/-- Reading gives back what was written, up to the length of the signal. -/
theorem readBits_writeBits (u : ℕ) (d : Vector UInt8 n) {b k : ℕ} (hk : rank b + k ≤ 8 * n) :
    readBits (writeBits u b k d) b k = u % 2 ^ k := by
  induction k generalizing b d with
  | zero => rw [pow_zero, Nat.mod_one, readBits]
  | succ k ih =>
    have hb : b / 8 < n := by
      unfold rank at hk
      omega
    have hnext : rank (next b) + k ≤ 8 * n := by
      rw [rank_next]
      omega
    rw [writeBits, readBits, bitAt_writeBits_before u _ (by rw [rank_next]; omega) hnext,
      bitAt_setBit d hb, if_pos rfl, ih _ hnext, mod_two_pow_succ]

theorem Signal.readBits_encode (s : Signal) (v : ℤ) (d : Vector UInt8 n)
    (hs : rank s.start + s.length ≤ 8 * n) :
    readBits (s.encode v d) s.start s.length = (v % 2 ^ s.length).toNat := by
  have hpos : (0 : ℤ) < 2 ^ s.length := by positivity
  have hlt : (v % 2 ^ s.length).toNat < 2 ^ s.length := by
    rw [Int.toNat_lt (Int.emod_nonneg v hpos.ne')]
    exact_mod_cast Int.emod_lt_of_pos v hpos
  rw [encode, readBits_writeBits _ d hs, Nat.mod_eq_of_lt hlt]

theorem bitAt_byte (d : Vector UInt8 n) {i j : ℕ} (hi : i < n) (hj : j < 8) :
    bitAt d (8 * i + j) = d[i].toNat.testBit j := by
  have hdiv : (8 * i + j) / 8 = i := by omega
  have hmod : (8 * i + j) % 8 = j := by omega
  simp only [bitAt, hdiv, hmod, dif_pos hi]
  rfl

theorem readBits_low (d : Vector UInt8 n) {i j : ℕ} (hi : i < n) (hj : j < 8) (k : ℕ) :
    readBits d (8 * i + j) (j + 1 + k) =
      d[i].toNat % 2 ^ (j + 1) * 2 ^ k + readBits d (8 * (i + 1) + 7) k := by
  induction j with
  | zero =>
    have hnext : next (8 * i + 0) = 8 * (i + 1) + 7 := by
      unfold next
      split_ifs <;> omega
    rw [Nat.zero_add, Nat.add_comm 1 k, readBits, hnext, bitAt_byte d hi hj, mod_two_pow_succ]
    simp [Nat.mod_one]
  | succ j ih =>
    have hnext : next (8 * i + (j + 1)) = 8 * i + j := by
      unfold next
      split_ifs <;> omega
    have hlen : j + 1 + 1 + k = j + 1 + k + 1 := by omega
    rw [hlen, readBits, hnext, ih (by omega), bitAt_byte d hi hj, mod_two_pow_succ _ (j + 1)]
    ring

theorem readBits_byte (d : Vector UInt8 n) {i : ℕ} (hi : i < n) (k : ℕ) :
    readBits d (8 * i + 7) (8 + k) =
      d[i].toNat * 2 ^ k + readBits d (8 * (i + 1) + 7) k := by
  have hbyte : d[i].toNat % 2 ^ (7 + 1) = d[i].toNat := Nat.mod_eq_of_lt d[i].toNat_lt
  rw [← hbyte]
  exact readBits_low d hi (by decide) k

theorem readBits_one_byte (d : Vector UInt8 n) {i : ℕ} (hi : i < n) :
    readBits d (8 * i + 7) 8 = d[i].toNat := by
  have h := readBits_byte d hi 0
  rwa [pow_zero, Nat.mul_one, readBits, Nat.add_zero] at h

theorem readBits_two_bytes (d : Vector UInt8 n) {i : ℕ} (hi : i + 1 < n) :
    readBits d (8 * i + 7) 16 = d[i].toNat * 2 ^ 8 + d[i + 1].toNat := by
  rw [← readBits_one_byte d hi]
  exact readBits_byte d (Nat.lt_of_succ_lt hi) 8

end BmsFirmware.Lib.Dbc
