import BmsFirmware.Lib.Blend
import BmsFirmware.OcvCurve
import BmsFirmware.SocFilter

namespace BmsFirmware.SocEstimator

open Lib Set

def ocvPercent (avgCellMv : UInt16) : ℚ := (ocvLookupPercentX2 avgCellMv).toNat / 2

def coulomb (e : SocEstimator) (currentCa : Int16) (dtMs : UInt32) : ℚ :=
  e.socPercent + k e dtMs * (currentCa.toInt - e.biasCa)

theorem ocvPercent_mem (avgCellMv : UInt16) : ocvPercent avgCellMv ∈ Icc 0 100 := by
  have hle : ((ocvLookupPercentX2 avgCellMv).toNat : ℚ) ≤ 200 := by
    exact_mod_cast UInt8.le_iff_toNat_le.mp (ocvLookupPercentX2_le avgCellMv)
  unfold ocvPercent
  constructor
  · positivity
  · linarith

theorem ocvPercent_mono {v₁ v₂ : UInt16} (h : v₁ ≤ v₂) : ocvPercent v₁ ≤ ocvPercent v₂ := by
  have hle : ((ocvLookupPercentX2 v₁).toNat : ℚ) ≤ (ocvLookupPercentX2 v₂).toNat := by
    exact_mod_cast UInt8.le_iff_toNat_le.mp (ocvLookupPercentX2_mono h)
  exact div_le_div_of_nonneg_right hle (by norm_num)

/-- The two clamps of the code are one clamp to `[0, 100]`. -/
theorem clamp_percent (x : ℚ) :
    (if (if x < 0 then 0 else x) > 100 then 100 else if x < 0 then 0 else x) = clamp 0 100 x := by
  unfold clamp
  by_cases hneg : x < 0
  · rw [if_pos hneg, if_neg (by norm_num), min_eq_right (by linarith), max_eq_left hneg.le]
  · have hnonneg := not_lt.mp hneg
    rw [if_neg hneg]
    by_cases hbig : x > 100
    · rw [if_pos hbig, min_eq_left hbig.le, max_eq_right (by norm_num)]
    · rw [if_neg hbig, min_eq_right (not_lt.mp hbig), max_eq_right hnonneg]

variable (e : SocEstimator) (currentCa : Int16) (dtMs : UInt32) (avgCellMv : UInt16)

theorem residual_eq : residual e currentCa dtMs avgCellMv =
    ocvPercent avgCellMv - coulomb e currentCa dtMs := by
  simp only [residual, ocvPercent, predict, deltaPercent, coulomb]
  norm_num

/-- The stored percentage lies between the prediction and the measurement, but for the clamp. -/
theorem update_soc : (update e currentCa dtMs avgCellMv).socPercent =
    clamp 0 100 (blend (kSoc e currentCa dtMs) (coulomb e currentCa dtMs)
      (ocvPercent avgCellMv)) := by
  rw [blend, ← residual_eq, ← clamp_percent]
  rfl

theorem update_bias : (update e currentCa dtMs avgCellMv).biasCa =
    e.biasCa + kBias e currentCa dtMs * (ocvPercent avgCellMv - coulomb e currentCa dtMs) := by
  rw [← residual_eq]
  rfl

theorem k_nonneg : 0 ≤ k e dtMs := by
  unfold k
  positivity

variable {e currentCa dtMs avgCellMv}

theorem k_pos (hc : 0 < e.capacityMah) (hd : 0 < dtMs) : 0 < k e dtMs := by
  have hcap : (0 : ℚ) < e.capacityMah.toNat := by exact_mod_cast UInt16.lt_iff_toNat_lt.mp hc
  have hdt : (0 : ℚ) < dtMs.toNat := by exact_mod_cast UInt32.lt_iff_toNat_lt.mp hd
  unfold k
  positivity

theorem predict_p01_nonpos (h : e.cov.PosDef) (h₀₁ : e.p01 ≤ 0) :
    (predict e currentCa dtMs).p01 ≤ 0 := by
  have hpred := h.predict_p01_nonpos h₀₁ (k_nonneg e dtMs) (processNoise e currentCa dtMs)
    (biasNoise dtMs)
  rwa [← predict_cov] at hpred

theorem predict_p01_neg (h : e.cov.PosDef) (h₀₁ : e.p01 ≤ 0)
    (hneg : e.p01 < 0 ∨ 0 < k e dtMs) : (predict e currentCa dtMs).p01 < 0 := by
  have hpred := h.predict_p01_neg h₀₁ (k_nonneg e dtMs) hneg (processNoise e currentCa dtMs)
    (biasNoise dtMs)
  rwa [← predict_cov] at hpred

theorem innovationVariance_pos (h : e.cov.PosDef) : 0 < innovationVariance e currentCa dtMs :=
  add_pos (predict_posDef h currentCa dtMs).p00_pos (measurementNoise_pos currentCa)

theorem kSoc_pos (h : e.cov.PosDef) : 0 < kSoc e currentCa dtMs :=
  (predict_posDef h currentCa dtMs).gain_pos (measurementNoise_pos currentCa)

theorem kSoc_lt_one (h : e.cov.PosDef) : kSoc e currentCa dtMs < 1 :=
  (predict_posDef h currentCa dtMs).gain_lt_one (measurementNoise_pos currentCa)

theorem kBias_nonpos (h : e.cov.PosDef) (h₀₁ : e.p01 ≤ 0) : kBias e currentCa dtMs ≤ 0 :=
  div_nonpos_of_nonpos_of_nonneg (predict_p01_nonpos h h₀₁) (innovationVariance_pos h).le

theorem kBias_neg (h : e.cov.PosDef) (h₀₁ : e.p01 ≤ 0) (hneg : e.p01 < 0 ∨ 0 < k e dtMs) :
    kBias e currentCa dtMs < 0 :=
  div_neg_of_neg_of_pos (predict_p01_neg h h₀₁ hneg) (innovationVariance_pos h)

/-- A step moves the bias by less than what would undo its own effect on the prediction. -/
theorem k_mul_kBias_lt_one (h : e.cov.PosDef) (h₀₁ : e.p01 ≤ 0) :
    k e dtMs * -kBias e currentCa dtMs < 1 := by
  have hs : 0 < innovationVariance e currentCa dtMs := innovationVariance_pos h
  have hcross : k e dtMs * -(predict e currentCa dtMs).cov.p01 <
      (predict e currentCa dtMs).cov.p00 + measurementNoise currentCa := by
    rw [predict_cov]
    exact h.cross_gain_lt h₀₁ (k_nonneg e dtMs) (processNoise_nonneg e currentCa dtMs)
      (measurementNoise_pos currentCa).le
  rw [kBias, ← neg_div, mul_div_assoc', div_lt_one hs]
  exact hcross

theorem update_p01_nonpos (h : e.cov.PosDef) (h₀₁ : e.p01 ≤ 0) :
    (update e currentCa dtMs avgCellMv).p01 ≤ 0 := by
  have hpred : (predict e currentCa dtMs).p01 ≤ 0 := predict_p01_nonpos h h₀₁
  exact (predict_posDef h currentCa dtMs).correct_p01_nonpos (measurementNoise_pos currentCa) hpred

theorem update_p01_neg (h : e.cov.PosDef) (h₀₁ : e.p01 ≤ 0)
    (hneg : e.p01 < 0 ∨ 0 < k e dtMs) : (update e currentCa dtMs avgCellMv).p01 < 0 := by
  have hpred : (predict e currentCa dtMs).p01 < 0 := predict_p01_neg h h₀₁ hneg
  exact (predict_posDef h currentCa dtMs).correct_p01_neg (measurementNoise_pos currentCa) hpred

variable (capacityMah : UInt16) (us : List SocSample)

theorem estimate_capacity_pos (hc : 0 < capacityMah) :
    0 < (estimate capacityMah us).capacityMah := by
  rw [estimate_capacity]
  exact hc

theorem estimate_p01_nonpos : (estimate capacityMah us).p01 ≤ 0 := by
  induction us with
  | nil => norm_num [estimate, init]
  | cons u us ih => exact update_p01_nonpos (estimate_posDef capacityMah us) ih

/-- Time that passes makes the two errors correlated for ever. -/
theorem estimate_p01_neg (hc : 0 < capacityMah) (hd : ∃ u ∈ us, 0 < u.dtMs) :
    (estimate capacityMah us).p01 < 0 := by
  induction us with
  | nil =>
    obtain ⟨u, hu, -⟩ := hd
    cases hu
  | cons u us ih =>
    refine update_p01_neg (estimate_posDef capacityMah us) (estimate_p01_nonpos capacityMah us) ?_
    obtain ⟨u', hu', hpos⟩ := hd
    rcases List.mem_cons.mp hu' with rfl | htail
    · exact .inr (k_pos (estimate_capacity_pos capacityMah us hc) hpos)
    · exact .inl (ih ⟨u', htail, hpos⟩)

theorem estimate_soc_mem : (estimate capacityMah us).socPercent ∈ Icc 0 100 := by
  cases us with
  | nil => constructor <;> norm_num [estimate, init]
  | cons u us =>
    have hstep : (estimate capacityMah (u :: us)).socPercent = _ := update_soc _ _ _ _
    rw [hstep]
    exact clamp_mem (by norm_num)

end BmsFirmware.SocEstimator
