import Mathlib.Algebra.Order.Field.Basic
import Mathlib.Tactic.FieldSimp
import Mathlib.Tactic.LinearCombination
import Mathlib.Tactic.Ring
import Mathlib.Tactic.Positivity

namespace BmsFirmware.Lib

variable {K : Type} [Field K]

/-- A symmetric 2x2 covariance, stored as its three entries. -/
@[ext] structure Cov (K : Type) where
  p00 : K
  p01 : K
  p11 : K

namespace Cov

def det (P : Cov K) : K := P.p00 * P.p11 - P.p01 ^ 2

def predict (P : Cov K) (k q₀ q₁ : K) : Cov K where
  p00 := P.p00 - 2 * k * P.p01 + k * k * P.p11 + q₀
  p01 := P.p01 - k * P.p11
  p11 := P.p11 + q₁

def correct (P : Cov K) (r : K) : Cov K where
  p00 := P.p00 - P.p00 / (P.p00 + r) * P.p00
  p01 := P.p01 - P.p00 / (P.p00 + r) * P.p01
  p11 := P.p11 - P.p01 / (P.p00 + r) * P.p01

theorem predict_det (P : Cov K) (k q₀ q₁ : K) : (P.predict k q₀ q₁).det =
    P.det + q₀ * (P.p11 + q₁) + q₁ * (P.p00 - 2 * k * P.p01 + k * k * P.p11) := by
  simp only [predict, det]
  ring

theorem correct_p00 (P : Cov K) {r : K} (hs : P.p00 + r ≠ 0) :
    (P.correct r).p00 = P.p00 * r / (P.p00 + r) := by
  simp only [correct]
  field_simp
  ring

theorem correct_p01 (P : Cov K) {r : K} (hs : P.p00 + r ≠ 0) :
    (P.correct r).p01 = P.p01 * (r / (P.p00 + r)) := by
  simp only [correct]
  field_simp
  ring

theorem correct_p11 (P : Cov K) {r : K} (hs : P.p00 + r ≠ 0) :
    (P.correct r).p11 = (P.det + r * P.p11) / (P.p00 + r) := by
  simp only [correct, det]
  field_simp
  ring

theorem correct_det (P : Cov K) {r : K} (hs : P.p00 + r ≠ 0) :
    (P.correct r).det = P.det * r / (P.p00 + r) := by
  simp only [correct, det]
  field_simp
  ring

variable [LinearOrder K] [IsStrictOrderedRing K]

structure PosDef (P : Cov K) : Prop where
  p00_pos : 0 < P.p00
  p11_pos : 0 < P.p11
  det_pos : 0 < P.det

theorem PosDef.form_pos {P : Cov K} (h : P.PosDef) (k : K) :
    0 < P.p00 - 2 * k * P.p01 + k * k * P.p11 := by
  have hp := h.p11_pos
  have he : P.p11 * (P.p00 - 2 * k * P.p01 + k * k * P.p11) =
      P.det + (k * P.p11 - P.p01) ^ 2 := by
    simp only [det]
    ring
  have hpos : 0 < P.p11 * (P.p00 - 2 * k * P.p01 + k * k * P.p11) := by
    rw [he]
    exact add_pos_of_pos_of_nonneg h.det_pos (sq_nonneg _)
  exact pos_of_mul_pos_right hpos hp.le

theorem PosDef.predict {P : Cov K} (h : P.PosDef) (k : K) {q₀ q₁ : K} (h₀ : 0 ≤ q₀)
    (h₁ : 0 ≤ q₁) : (P.predict k q₀ q₁).PosDef := by
  have hform := h.form_pos k
  have hp := h.p11_pos
  constructor
  · exact add_pos_of_pos_of_nonneg hform h₀
  · exact add_pos_of_pos_of_nonneg hp h₁
  · rw [predict_det]
    have hd := h.det_pos
    positivity

theorem PosDef.correct {P : Cov K} (h : P.PosDef) {r : K} (hr : 0 < r) : (P.correct r).PosDef := by
  have h₀ := h.p00_pos
  have h₁ := h.p11_pos
  have hd := h.det_pos
  have hs : P.p00 + r ≠ 0 := (add_pos h₀ hr).ne'
  constructor
  · rw [correct_p00 P hs]
    positivity
  · rw [correct_p11 P hs]
    positivity
  · rw [correct_det P hs]
    positivity

theorem PosDef.gain_pos {P : Cov K} (h : P.PosDef) {r : K} (hr : 0 < r) :
    0 < P.p00 / (P.p00 + r) :=
  div_pos h.p00_pos (add_pos h.p00_pos hr)

theorem PosDef.gain_lt_one {P : Cov K} (h : P.PosDef) {r : K} (hr : 0 < r) :
    P.p00 / (P.p00 + r) < 1 :=
  (div_lt_one (add_pos h.p00_pos hr)).mpr (lt_add_of_pos_right _ hr)

theorem PosDef.correct_lt_predicted {P : Cov K} (h : P.PosDef) {r : K} (hr : 0 < r) :
    (P.correct r).p00 < P.p00 :=
  sub_lt_self _ (mul_pos (h.gain_pos hr) h.p00_pos)

theorem correct_p00_inj {P Q : Cov K} {r : K} (hP : 0 < P.p00) (hQ : 0 < Q.p00) (hr : 0 < r) :
    (P.correct r).p00 = (Q.correct r).p00 ↔ P.p00 = Q.p00 := by
  have hsP : P.p00 + r ≠ 0 := (add_pos hP hr).ne'
  have hsQ : Q.p00 + r ≠ 0 := (add_pos hQ hr).ne'
  rw [correct_p00 P hsP, correct_p00 Q hsQ, div_eq_div_iff hsP hsQ]
  constructor
  · intro h
    have hrr : (P.p00 - Q.p00) * (r * r) = 0 := by linear_combination h
    rcases mul_eq_zero.mp hrr with h₀ | h₀
    · exact sub_eq_zero.mp h₀
    · exact absurd h₀ (mul_pos hr hr).ne'
  · intro h
    rw [h]

theorem PosDef.correct_lt_noise {P : Cov K} (h : P.PosDef) {r : K} (hr : 0 < r) :
    (P.correct r).p00 < r := by
  have hs := add_pos h.p00_pos hr
  have hg := h.gain_lt_one hr
  calc (P.correct r).p00 = P.p00 / (P.p00 + r) * r := by
        rw [correct_p00 P hs.ne', div_mul_eq_mul_div]
    _ < 1 * r := mul_lt_mul_of_pos_right hg hr
    _ = r := one_mul r

/-- The precisions of the prediction and of the measurement add up. -/
theorem PosDef.correct_precision {P : Cov K} (h : P.PosDef) {r : K} (hr : 0 < r) :
    (P.correct r).p00⁻¹ = P.p00⁻¹ + r⁻¹ := by
  have hp := h.p00_pos
  have hs := add_pos hp hr
  rw [correct_p00 P hs.ne']
  field_simp
  ring

theorem PosDef.predict_p01_nonpos {P : Cov K} (h : P.PosDef) (h₀₁ : P.p01 ≤ 0) {k : K}
    (hk : 0 ≤ k) (q₀ q₁ : K) : (P.predict k q₀ q₁).p01 ≤ 0 :=
  sub_nonpos.mpr (h₀₁.trans (mul_nonneg hk h.p11_pos.le))

theorem PosDef.predict_p01_neg {P : Cov K} (h : P.PosDef) (h₀₁ : P.p01 ≤ 0) {k : K}
    (hk : 0 ≤ k) (hneg : P.p01 < 0 ∨ 0 < k) (q₀ q₁ : K) : (P.predict k q₀ q₁).p01 < 0 := by
  apply sub_neg.mpr
  rcases hneg with hneg | hpos
  · exact hneg.trans_le (mul_nonneg hk h.p11_pos.le)
  · exact h₀₁.trans_lt (mul_pos hpos h.p11_pos)

theorem PosDef.correct_p01_nonpos {P : Cov K} (h : P.PosDef) {r : K} (hr : 0 < r)
    (h₀₁ : P.p01 ≤ 0) : (P.correct r).p01 ≤ 0 := by
  have hs := add_pos h.p00_pos hr
  rw [correct_p01 P hs.ne']
  exact mul_nonpos_of_nonpos_of_nonneg h₀₁ (div_pos hr hs).le

theorem PosDef.correct_p01_neg {P : Cov K} (h : P.PosDef) {r : K} (hr : 0 < r)
    (h₀₁ : P.p01 < 0) : (P.correct r).p01 < 0 := by
  have hs := add_pos h.p00_pos hr
  rw [correct_p01 P hs.ne']
  exact mul_neg_of_neg_of_pos h₀₁ (div_pos hr hs)

/-- The gain onto the second component, seen through `k`, is below that onto the first one. -/
theorem PosDef.cross_gain_lt {P : Cov K} (h : P.PosDef) (h₀₁ : P.p01 ≤ 0) {k q₀ q₁ r : K}
    (hk : 0 ≤ k) (h₀ : 0 ≤ q₀) (hr : 0 ≤ r) :
    k * -(P.predict k q₀ q₁).p01 < (P.predict k q₀ q₁).p00 + r := by
  have hcross : 0 ≤ k * -P.p01 := mul_nonneg hk (neg_nonneg.mpr h₀₁)
  have hrest : (P.predict k q₀ q₁).p00 + r - k * -(P.predict k q₀ q₁).p01 =
      P.p00 + k * -P.p01 + q₀ + r := by
    simp only [Cov.predict]
    ring
  rw [← sub_pos, hrest]
  have hp := h.p00_pos
  positivity

end Cov

end BmsFirmware.Lib
