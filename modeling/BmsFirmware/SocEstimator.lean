import BmsFirmware.Config
import BmsFirmware.Lib.Covariance
import Mathlib.Algebra.Order.Floor.Defs
import Mathlib.Data.Rat.Floor

namespace BmsFirmware

open Config Lib

/-- The estimator with its doubles read as exact rationals. -/
structure SocEstimator where
  socPercent : ℚ
  biasCa : ℚ
  p00 : ℚ
  p01 : ℚ
  p11 : ℚ
  capacityMah : UInt16
deriving DecidableEq, Repr

structure OcvPoint where
  mv : UInt16
  percentX2 : UInt8
deriving DecidableEq, Repr

namespace SocEstimator

def bmsSocInitialVariancePct2 : ℚ := 1.0
def bmsSocCurrentSenseErrorFrac : ℚ := 0.01
def bmsSocProcessNoiseFloorPct2 : ℚ := 0.0004
def bmsSocOcvBaseVariancePct2 : ℚ := 0.25
def bmsSocOcvLoadCoeffPct2PerA2 : ℚ := 100.0
def bmsSocBiasInitialVarianceCa2 : ℚ := 25.0
def bmsSocBiasRandomWalkCa2PerS : ℚ := 0.0001

def ocvTable : List OcvPoint :=
  [⟨3000, 0⟩, ⟨3300, 15⟩, ⟨3400, 30⟩, ⟨3500, 50⟩, ⟨3600, 70⟩, ⟨3700, 100⟩, ⟨3800, 120⟩,
    ⟨3900, 140⟩, ⟨4000, 160⟩, ⟨4100, 180⟩, ⟨4200, 200⟩]

def ocvInterpolate (lo hi : OcvPoint) (avgCellMv : UInt16) : UInt8 :=
  let loP : Int32 := .ofNat lo.percentX2.toNat
  let hiP : Int32 := .ofNat hi.percentX2.toNat
  let spanMv : Int32 := .ofNat hi.mv.toNat - .ofNat lo.mv.toNat
  let offsetMv : Int32 := .ofNat avgCellMv.toNat - .ofNat lo.mv.toNat
  (loP + ((hiP - loP) * offsetMv) / spanMv).toUInt32.toUInt8

/-- The search loop over neighbouring breakpoints; 0 is its unreachable return. -/
def ocvSearch (avgCellMv : UInt16) : List OcvPoint → UInt8
  | lo :: hi :: rest =>
    if avgCellMv ≥ lo.mv ∧ avgCellMv ≤ hi.mv then ocvInterpolate lo hi avgCellMv
    else ocvSearch avgCellMv (hi :: rest)
  | _ => 0

def ocvLookup (table : List OcvPoint) (hne : table ≠ []) (avgCellMv : UInt16) : UInt8 :=
  if avgCellMv ≤ (table.head hne).mv then (table.head hne).percentX2
  else if avgCellMv ≥ (table.getLast hne).mv then (table.getLast hne).percentX2
  else ocvSearch avgCellMv table

def ocvLookupPercentX2 (avgCellMv : UInt16) : UInt8 :=
  ocvLookup ocvTable (by decide) avgCellMv

def init (capacityMah : UInt16) : SocEstimator where
  capacityMah := capacityMah
  socPercent := 100.0
  biasCa := 0.0
  p00 := bmsSocInitialVariancePct2
  p01 := 0.0
  p11 := bmsSocBiasInitialVarianceCa2

variable (e : SocEstimator) (currentCa : Int16) (dtMs : UInt32) (avgCellMv : UInt16)

def k : ℚ := dtMs.toNat / (3600.0 * e.capacityMah.toNat)

def deltaPercent : ℚ := k e dtMs * (currentCa.toInt - e.biasCa)

structure Prediction where
  socPred : ℚ
  biasPred : ℚ
  p00 : ℚ
  p01 : ℚ
  p11 : ℚ

def predict : Prediction :=
  let senseError := bmsSocCurrentSenseErrorFrac * deltaPercent e currentCa dtMs
  { socPred := e.socPercent + deltaPercent e currentCa dtMs
    biasPred := e.biasCa
    p00 := e.p00 - 2.0 * k e dtMs * e.p01 + k e dtMs * k e dtMs * e.p11 +
      (bmsSocProcessNoiseFloorPct2 + senseError * senseError)
    p01 := e.p01 - k e dtMs * e.p11
    p11 := e.p11 + bmsSocBiasRandomWalkCa2PerS * (dtMs.toNat / 1000.0) }

def measurementNoise : ℚ :=
  let currentA : ℚ := currentCa.toInt / 100.0
  bmsSocOcvBaseVariancePct2 + bmsSocOcvLoadCoeffPct2PerA2 * currentA * currentA

def innovationVariance : ℚ := (predict e currentCa dtMs).p00 + measurementNoise currentCa

def kSoc : ℚ := (predict e currentCa dtMs).p00 / innovationVariance e currentCa dtMs

def kBias : ℚ := (predict e currentCa dtMs).p01 / innovationVariance e currentCa dtMs

def residual : ℚ :=
  (ocvLookupPercentX2 avgCellMv).toNat / 2.0 - (predict e currentCa dtMs).socPred

def update : SocEstimator :=
  let p := predict e currentCa dtMs
  let kSoc := kSoc e currentCa dtMs
  let kBias := kBias e currentCa dtMs
  let socNew := p.socPred + kSoc * residual e currentCa dtMs avgCellMv
  let biasNew := p.biasPred + kBias * residual e currentCa dtMs avgCellMv
  let socNew := if socNew < 0 then 0 else socNew
  let socNew := if socNew > 100 then 100 else socNew
  { e with
    socPercent := socNew
    biasCa := biasNew
    p00 := p.p00 - kSoc * p.p00
    p01 := p.p01 - kSoc * p.p01
    p11 := p.p11 - kBias * p.p01 }

def getPercentX2 : UInt8 :=
  let percentX2 := e.socPercent * 2.0
  let percentX2 := if percentX2 < 0 then 0 else percentX2
  let percentX2 := if percentX2 > 200 then 200 else percentX2
  .ofNat ⌊percentX2 + 0.5⌋.toNat

def cov : Cov ℚ := ⟨e.p00, e.p01, e.p11⟩

def Prediction.cov (p : Prediction) : Cov ℚ := ⟨p.p00, p.p01, p.p11⟩

def processNoise : ℚ :=
  bmsSocProcessNoiseFloorPct2 + (bmsSocCurrentSenseErrorFrac * deltaPercent e currentCa dtMs) ^ 2

def biasNoise : ℚ := bmsSocBiasRandomWalkCa2PerS * (dtMs.toNat / 1000)

/-- The covariance part of an update is one prediction and one optimal correction. -/
theorem predict_cov : (predict e currentCa dtMs).cov =
    e.cov.predict (k e dtMs) (processNoise e currentCa dtMs) (biasNoise dtMs) := by
  simp only [predict, Prediction.cov, cov, Cov.predict, processNoise, biasNoise]
  norm_num [pow_two]

theorem update_cov : (update e currentCa dtMs avgCellMv).cov =
    (predict e currentCa dtMs).cov.correct (measurementNoise currentCa) := rfl

theorem update_capacity : (update e currentCa dtMs avgCellMv).capacityMah = e.capacityMah := rfl

theorem processNoise_nonneg : 0 ≤ processNoise e currentCa dtMs := by
  unfold processNoise bmsSocProcessNoiseFloorPct2
  positivity

theorem biasNoise_nonneg : 0 ≤ biasNoise dtMs := by
  unfold biasNoise bmsSocBiasRandomWalkCa2PerS
  positivity

theorem measurementNoise_pos : 0 < measurementNoise currentCa := by
  have hsq : (0 : ℚ) ≤ currentCa.toInt / 100.0 * (currentCa.toInt / 100.0) := mul_self_nonneg _
  have hload := mul_nonneg (show (0 : ℚ) ≤ bmsSocOcvLoadCoeffPct2PerA2 by
    unfold bmsSocOcvLoadCoeffPct2PerA2; positivity) hsq
  rw [← mul_assoc] at hload
  exact add_pos_of_pos_of_nonneg (by unfold bmsSocOcvBaseVariancePct2; positivity) hload

end SocEstimator

end BmsFirmware
