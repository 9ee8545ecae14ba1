import Mathlib.Algebra.Group.Nat.Defs

namespace BmsFirmware.Lib.Tick

def wrapSub (m a b : ℕ) : ℕ := (m - b % m + a % m) % m

theorem wrapSub_of_le {m a b : ℕ} (hm : 0 < m) (h : b ≤ a) : wrapSub m a b = (a - b) % m := by
  obtain ⟨d, rfl⟩ := Nat.exists_eq_add_of_le h
  have hb := Nat.mod_lt b hm
  have hs : m - b % m + (b + d) = d + m * (b / m + 1) := by
    have := Nat.div_add_mod b m
    rw [Nat.mul_add]
    omega
  rw [wrapSub, Nat.add_mod_mod, hs, Nat.add_mul_mod_self_left, Nat.add_sub_cancel_left]

theorem wrapSub_of_lt {m a b : ℕ} (hm : 0 < m) (h : a < b) :
    wrapSub m a b = (m - (b - a) % m) % m := by
  have hr := Nat.mod_lt (b - a) hm
  have hq := Nat.div_add_mod (b - a) m
  have hle : b ≤ a + m * ((b - a) / m + 1) := by
    rw [Nat.mul_add]
    omega
  have he : wrapSub m a b = wrapSub m (a + m * ((b - a) / m + 1)) b := by simp [wrapSub]
  rw [he, wrapSub_of_le hm hle]
  congr 1
  rw [Nat.mul_add] at hle ⊢
  omega

/-- A 32-bit millisecond tick: real time reduced modulo `2 ^ 32`. -/
def tick (t : ℕ) : UInt32 := UInt32.ofNat t

theorem tick_toNat (t : ℕ) : (tick t).toNat = t % 2 ^ 32 := by simp [tick]

theorem tick_sub_toNat (a b : ℕ) : (tick a - tick b).toNat = wrapSub (2 ^ 32) a b := by
  rw [UInt32.toNat_sub, tick_toNat, tick_toNat, wrapSub]

theorem tick_sub_of_le {a b : ℕ} (h : b ≤ a) : (tick a - tick b).toNat = (a - b) % 2 ^ 32 := by
  rw [tick_sub_toNat, wrapSub_of_le (by decide) h]

theorem tick_sub_of_near {a b : ℕ} (h : b ≤ a) (hd : a - b < 2 ^ 32) :
    (tick a - tick b).toNat = a - b := by
  rw [tick_sub_of_le h, Nat.mod_eq_of_lt hd]

theorem tick_sub_of_later {a b : ℕ} (h : a < b) :
    (tick a - tick b).toNat = (2 ^ 32 - (b - a) % 2 ^ 32) % 2 ^ 32 := by
  rw [tick_sub_toNat, wrapSub_of_lt (by decide) h]

/-- When a stamp that is not too old for `now` passes an age test against `now`. -/
theorem tick_age_le_iff {now stamp limit : ℕ} (hl : limit < 2 ^ 32) (h : now - stamp ≤ limit) :
    (tick now - tick stamp).toNat ≤ limit ↔
      ¬ (0 < (stamp - now) % 2 ^ 32 ∧ (stamp - now) % 2 ^ 32 < 2 ^ 32 - limit) := by
  rcases Nat.lt_or_ge now stamp with hlt | hge
  · have hr := Nat.mod_lt (stamp - now) (show 0 < 2 ^ 32 by decide)
    rw [tick_sub_of_later hlt]
    generalize (stamp - now) % 2 ^ 32 = d at hr ⊢
    rcases Nat.eq_zero_or_pos d with rfl | hd
    · simp
    · rw [Nat.mod_eq_of_lt (by omega)]
      omega
  · have hz : stamp - now = 0 := by omega
    rw [tick_sub_of_near hge (by omega), hz]
    simpa using h

end BmsFirmware.Lib.Tick
