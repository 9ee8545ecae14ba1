import BmsFirmware.Lib.History
import BmsFirmware.SocEstimator

namespace BmsFirmware

open Config Lib

structure SocSample where
  currentCa : Int16
  dtMs : UInt32
  avgCellMv : UInt16
deriving DecidableEq, Repr

namespace SocEstimator

def estimate (capacityMah : UInt16) (us : List SocSample) : SocEstimator :=
  us.foldr (fun u e ↦ update e u.currentCa u.dtMs u.avgCellMv) (init capacityMah)

theorem estimate_capacity (capacityMah : UInt16) (us : List SocSample) :
    (estimate capacityMah us).capacityMah = capacityMah := by
  induction us with
  | nil => rfl
  | cons u us ih => exact (update_capacity _ _ _ _).trans ih

theorem init_posDef (capacityMah : UInt16) : (init capacityMah).cov.PosDef := by
  constructor <;> norm_num [init, cov, Cov.det, bmsSocInitialVariancePct2,
    bmsSocBiasInitialVarianceCa2]

variable {e : SocEstimator}

theorem predict_posDef (h : e.cov.PosDef) (currentCa : Int16) (dtMs : UInt32) :
    (predict e currentCa dtMs).cov.PosDef := by
  rw [predict_cov]
  exact h.predict _ (processNoise_nonneg e currentCa dtMs) (biasNoise_nonneg dtMs)

theorem update_posDef (h : e.cov.PosDef) (currentCa : Int16) (dtMs : UInt32)
    (avgCellMv : UInt16) : (update e currentCa dtMs avgCellMv).cov.PosDef := by
  rw [update_cov]
  exact (predict_posDef h currentCa dtMs).correct (measurementNoise_pos currentCa)

theorem estimate_posDef (capacityMah : UInt16) (us : List SocSample) :
    (estimate capacityMah us).cov.PosDef := by
  induction us with
  | nil => exact init_posDef capacityMah
  | cons u us ih => exact update_posDef ih u.currentCa u.dtMs u.avgCellMv

/-- The filter stays well-posed: its covariance is positive definite after
every run, and no further update divides by zero or loses confidence. -/
theorem filter_well_posed (capacityMah : UInt16) (hc : 0 < capacityMah) (us : List SocSample) :
    let e := estimate capacityMah us
    (0 < e.p00 ∧ 0 < e.p11 ∧ 0 < e.p00 * e.p11 - e.p01 ^ 2) ∧
    ∀ (currentCa : Int16) (dtMs : UInt32) (avgCellMv : UInt16),
      (3600.0 * e.capacityMah.toNat : ℚ) ≠ 0 ∧
      0 < innovationVariance e currentCa dtMs ∧
      0 < kSoc e currentCa dtMs ∧ kSoc e currentCa dtMs < 1 ∧
      (update e currentCa dtMs avgCellMv).p00 < (predict e currentCa dtMs).p00 ∧
      (update e currentCa dtMs avgCellMv).p00 < measurementNoise currentCa := by
  intro e
  have h : e.cov.PosDef := estimate_posDef capacityMah us
  refine ⟨⟨h.p00_pos, h.p11_pos, h.det_pos⟩, fun currentCa dtMs avgCellMv ↦ ?_⟩
  have hp := predict_posDef h currentCa dtMs
  have hr := measurementNoise_pos currentCa
  have hcap : e.capacityMah.toNat ≠ 0 := by
    rw [show e.capacityMah = capacityMah from estimate_capacity capacityMah us]
    exact (UInt16.lt_iff_toNat_lt.mp hc).ne'
  refine ⟨by positivity, add_pos hp.p00_pos hr, hp.gain_pos hr, hp.gain_lt_one hr,
    hp.correct_lt_predicted hr, hp.correct_lt_noise hr⟩

theorem filter_well_posed_pack :
    0 < bmsPackCapacityMah ∧ 0 < (estimate bmsPackCapacityMah [⟨-200, 500, 3700⟩]).p00 :=
  ⟨by decide, (filter_well_posed bmsPackCapacityMah (by decide) [⟨-200, 500, 3700⟩]).1.1⟩

end SocEstimator

end BmsFirmware
