import BmsFirmware.Lib.Kalman
import BmsFirmware.SocUpdate

namespace BmsFirmware.SocEstimator

open Lib Lib.Kalman Matrix

variable (e : SocEstimator) (currentCa : Int16) (dtMs : UInt32) (avgCellMv : UInt16)

def unclamped : Fin 2 → ℚ :=
  ![(predict e currentCa dtMs).socPred +
      kSoc e currentCa dtMs * residual e currentCa dtMs avgCellMv,
    (predict e currentCa dtMs).biasPred +
      kBias e currentCa dtMs * residual e currentCa dtMs avgCellMv]

def predictedState : Fin 2 → ℚ :=
  Cov.dynamics (k e dtMs) *ᵥ ![e.socPercent, e.biasCa] + ![k e dtMs * currentCa.toInt, 0]

/-- The covariance that the dynamics and the two noise terms of the code predict. -/
def predictedCov : Matrix (Fin 2) (Fin 2) ℚ :=
  predictCov (Cov.dynamics (k e dtMs)) !![processNoise e currentCa dtMs, 0; 0, biasNoise dtMs]
    e.cov.toMatrix

noncomputable def kalmanGain : Matrix (Fin 2) (Fin 1) ℚ :=
  gain Cov.observe !![measurementNoise currentCa] (predictedCov e currentCa dtMs)

theorem update_stores : (update e currentCa dtMs avgCellMv).socPercent =
      clamp 0 100 (unclamped e currentCa dtMs avgCellMv 0) ∧
    (update e currentCa dtMs avgCellMv).biasCa = unclamped e currentCa dtMs avgCellMv 1 := by
  refine ⟨?_, rfl⟩
  rw [← clamp_percent]
  rfl

theorem predictedState_eq : predictedState e currentCa dtMs =
    ![(predict e currentCa dtMs).socPred, (predict e currentCa dtMs).biasPred] := by
  ext i
  fin_cases i
  · simp [predictedState, Cov.dynamics, predict, deltaPercent]
    ring
  · simp [predictedState, Cov.dynamics, predict]

variable {e}

/-- The hand-expanded update is the textbook Kalman filter: its covariance is Joseph's form for
the optimal gain after the predicted covariance, with the one stored entry on both sides of the
diagonal, and its state before the clamp is the prediction corrected by that gain. -/
theorem update_is_kalman (h : e.cov.PosDef) (currentCa : Int16) (dtMs : UInt32)
    (avgCellMv : UInt16) :
    (update e currentCa dtMs avgCellMv).cov.toMatrix =
      josephCov Cov.observe !![measurementNoise currentCa] (predictedCov e currentCa dtMs)
        (kalmanGain e currentCa dtMs) ∧
    unclamped e currentCa dtMs avgCellMv = correctState Cov.observe (kalmanGain e currentCa dtMs)
      (predictedState e currentCa dtMs) ![ocvPercent avgCellMv] ∧
    (update e currentCa dtMs avgCellMv).socPercent =
      clamp 0 100 (unclamped e currentCa dtMs avgCellMv 0) ∧
    (update e currentCa dtMs avgCellMv).biasCa = unclamped e currentCa dtMs avgCellMv 1 := by
  have hs : (predict e currentCa dtMs).cov.p00 + measurementNoise currentCa ≠ 0 :=
    (innovationVariance_pos h).ne'
  have hpred : predictedCov e currentCa dtMs = (predict e currentCa dtMs).cov.toMatrix := by
    rw [predictedCov, predict_cov, Cov.predict_toMatrix]
  refine ⟨?_, ?_, update_stores e currentCa dtMs avgCellMv⟩
  · rw [update_cov, kalmanGain, hpred, Cov.correct_toMatrix _ hs]
  · have hres : residual e currentCa dtMs avgCellMv =
        ocvPercent avgCellMv - (predict e currentCa dtMs).socPred := by
      norm_num [residual, ocvPercent]
    rw [kalmanGain, hpred, Cov.gain_toMatrix _ hs, predictedState_eq, Cov.correctState_observe,
      unclamped, hres]
    rfl

theorem update_is_kalman_init : (init 5000).cov.PosDef ∧
    (update (init 5000) (-200) 500 3700).cov.toMatrix =
      josephCov Cov.observe !![measurementNoise (-200)] (predictedCov (init 5000) (-200) 500)
        (kalmanGain (init 5000) (-200) 500) :=
  ⟨init_posDef 5000, (update_is_kalman (init_posDef 5000) (-200) 500 3700).1⟩

end BmsFirmware.SocEstimator
