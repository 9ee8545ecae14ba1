import BmsFirmware.SocUpdate

namespace BmsFirmware.SocEstimator

open Config Lib Lib.History Set

/-- The bias learns in the right direction: it rises when the measurement is below the
prediction, falls when it is above, and stays when the two agree. -/
structure Learns (e new : SocEstimator) (pred z : ℚ) : Prop where
  rises : z < pred → e.biasCa < new.biasCa
  falls : pred < z → new.biasCa < e.biasCa
  stays : z = pred → new.biasCa = e.biasCa

theorem update_learns {e : SocEstimator} {currentCa : Int16} {dtMs : UInt32}
    (hneg : kBias e currentCa dtMs < 0) (avgCellMv : UInt16) :
    Learns e (update e currentCa dtMs avgCellMv) (coulomb e currentCa dtMs)
      (ocvPercent avgCellMv) := by
  have hbias := update_bias e currentCa dtMs avgCellMv
  refine ⟨fun hlt ↦ ?_, fun hlt ↦ ?_, fun heq ↦ ?_⟩
  · have hmove := mul_pos_of_neg_of_neg hneg (sub_neg.mpr hlt)
    linarith
  · have hmove := mul_neg_of_neg_of_pos hneg (sub_pos.mpr hlt)
    linarith
  · rw [hbias, heq, sub_self, mul_zero, add_zero]

/-- The two errors are never positively correlated, and negatively once time has passed, so
every further update that spans some time teaches the bias in the right direction. -/
theorem bias_learns (capacityMah : UInt16) (hc : 0 < capacityMah) (us : List SocSample) :
    (estimate capacityMah us).p01 ≤ 0 ∧
    ((∃ u ∈ us, 0 < u.dtMs) → (estimate capacityMah us).p01 < 0) ∧
    ∀ (currentCa : Int16) (dtMs : UInt32) (avgCellMv : UInt16), 0 < dtMs →
      Learns (estimate capacityMah us) ((estimate capacityMah us).update currentCa dtMs avgCellMv)
        (coulomb (estimate capacityMah us) currentCa dtMs) (ocvPercent avgCellMv) := by
  have hle := estimate_p01_nonpos capacityMah us
  refine ⟨hle, estimate_p01_neg capacityMah us hc, fun currentCa dtMs avgCellMv hd ↦ ?_⟩
  refine update_learns (kBias_neg (estimate_posDef capacityMah us) hle (.inr ?_)) avgCellMv
  exact k_pos (estimate_capacity_pos capacityMah us hc) hd

theorem bias_learns_pack : 0 < bmsPackCapacityMah ∧
    (estimate bmsPackCapacityMah [⟨10, 500, 4100⟩]).p01 < 0 := by
  have hc : 0 < bmsPackCapacityMah := by decide
  exact ⟨hc, (bias_learns bmsPackCapacityMah hc [⟨10, 500, 4100⟩]).2.1 ⟨_, List.mem_cons_self,
    by decide⟩⟩

def rest (capacityMah avgCellMv : UInt16) (dts : List UInt32) : SocEstimator :=
  estimate capacityMah (dts.map fun dtMs ↦ ⟨0, dtMs, avgCellMv⟩)

structure Approaches (z old new : ℚ) : Prop where
  nearer : |new - z| ≤ |old - z|
  above : z ≤ old → z ≤ new
  below : old ≤ z → new ≤ z

/-- The learned bias, integrated over the next interval, stays within the distance that is
left, or the measurement is at the end of the range. -/
def Gentle (e : SocEstimator) (dtMs : UInt32) (z : ℚ) : Prop :=
  z = 0 ∨ k e dtMs * e.biasCa ≤ e.socPercent - z

structure ComesDown (e : SocEstimator) (z : ℚ) : Prop where
  posDef : e.cov.PosDef
  p01_nonpos : e.p01 ≤ 0
  le_full : e.socPercent ≤ 100
  le_soc : z ≤ e.socPercent
  bias_nonneg : 0 ≤ e.biasCa

section Step

variable {e : SocEstimator} {dtMs : UInt32} {avgCellMv : UInt16}

theorem coulomb_rest : coulomb e 0 dtMs = e.socPercent - k e dtMs * e.biasCa := by
  have hzero : (0 : Int16).toInt = 0 := rfl
  rw [coulomb, hzero, Int.cast_zero]
  ring

theorem ComesDown.bias (h : ComesDown e (ocvPercent avgCellMv)) :
    0 ≤ (update e 0 dtMs avgCellMv).biasCa := by
  have hgain : kBias e 0 dtMs ≤ 0 := kBias_nonpos h.posDef h.p01_nonpos
  have hcross : k e dtMs * -kBias e 0 dtMs < 1 := k_mul_kBias_lt_one h.posDef h.p01_nonpos
  have hresidual : ocvPercent avgCellMv - coulomb e 0 dtMs ≤ k e dtMs * e.biasCa := by
    rw [coulomb_rest]
    linarith [h.le_soc]
  have hmove := mul_le_mul_of_nonneg_left hresidual (neg_nonneg.mpr hgain)
  have hkeep := mul_nonneg h.bias_nonneg (sub_nonneg.mpr hcross.le)
  rw [update_bias]
  linarith

theorem ComesDown.next (h : ComesDown e (ocvPercent avgCellMv))
    (hle : ocvPercent avgCellMv ≤ (update e 0 dtMs avgCellMv).socPercent) :
    ComesDown (update e 0 dtMs avgCellMv) (ocvPercent avgCellMv) where
  posDef := update_posDef h.posDef 0 dtMs avgCellMv
  p01_nonpos := update_p01_nonpos h.posDef h.p01_nonpos
  le_full := by
    rw [update_soc]
    exact (clamp_mem (by norm_num)).2
  le_soc := hle
  bias_nonneg := h.bias

theorem ComesDown.approaches (h : ComesDown e (ocvPercent avgCellMv))
    (hgentle : Gentle e dtMs (ocvPercent avgCellMv)) :
    Approaches (ocvPercent avgCellMv) e.socPercent (update e 0 dtMs avgCellMv).socPercent := by
  have hz := ocvPercent_mem avgCellMv
  have hpred : coulomb e 0 dtMs ≤ e.socPercent := by
    rw [coulomb_rest]
    linarith [mul_nonneg (k_nonneg e dtMs) h.bias_nonneg]
  have hmax : clamp 0 100 (coulomb e 0 dtMs) ≤ e.socPercent := by
    have hsoc : e.socPercent ∈ Icc 0 100 := ⟨hz.1.trans h.le_soc, h.le_full⟩
    exact (clamp_mono hpred).trans_eq (clamp_of_mem hsoc)
  have hmin : ocvPercent avgCellMv ≤ clamp 0 100 (coulomb e 0 dtMs) := by
    rcases hgentle with hzero | hle
    · rw [hzero]
      exact (clamp_mem (by norm_num)).1
    · rw [← clamp_of_mem hz]
      apply clamp_mono
      rw [coulomb_rest]
      linarith
  have hgain₀ : 0 < kSoc e 0 dtMs := kSoc_pos h.posDef
  have hgain₁ : kSoc e 0 dtMs < 1 := kSoc_lt_one h.posDef
  have hbetween := clamp_mem_uIcc hz (blend_mem_uIcc (a := coulomb e 0 dtMs) hgain₀.le hgain₁.le)
  rw [← update_soc, uIcc_of_ge hmin] at hbetween
  obtain ⟨habove, hbelow⟩ := hbetween
  have hle := hbelow.trans hmax
  refine ⟨?_, fun _ ↦ habove, fun hold ↦ hle.trans hold⟩
  rw [abs_of_nonneg (sub_nonneg.mpr habove), abs_of_nonneg (sub_nonneg.mpr h.le_soc)]
  exact sub_le_sub_right hle _

theorem ComesDown.crosses (h : ComesDown e (ocvPercent avgCellMv))
    (hgentle : ¬ Gentle e dtMs (ocvPercent avgCellMv)) :
    (update e 0 dtMs avgCellMv).socPercent < ocvPercent avgCellMv := by
  obtain ⟨hne, hfar⟩ := not_or.mp hgentle
  have hpos := lt_of_le_of_ne (ocvPercent_mem avgCellMv).1 (Ne.symm hne)
  have hpred : coulomb e 0 dtMs < ocvPercent avgCellMv := by
    rw [coulomb_rest]
    linarith [not_le.mp hfar]
  have hgain : kSoc e 0 dtMs < 1 := kSoc_lt_one h.posDef
  have hblend := mul_neg_of_pos_of_neg (sub_pos.mpr hgain) (sub_neg.mpr hpred)
  rw [← blend_sub, sub_neg] at hblend
  rw [update_soc]
  exact max_lt hpos ((min_le_right _ _).trans_lt hblend)

end Step

variable {capacityMah avgCellMv : UInt16}

theorem rest_start : ComesDown (rest capacityMah avgCellMv []) (ocvPercent avgCellMv) where
  posDef := init_posDef capacityMah
  p01_nonpos := estimate_p01_nonpos capacityMah []
  le_full := (estimate_soc_mem capacityMah []).2
  le_soc := by
    have hfull : (rest capacityMah avgCellMv []).socPercent = 100 := by
      norm_num [rest, estimate, init]
    rw [hfull]
    exact (ocvPercent_mem avgCellMv).2
  bias_nonneg := by norm_num [rest, estimate, init]

theorem rest_comesDown {dts : List UInt32}
    (h : ∀ dtMs dts₁, dtMs :: dts₁ <:+ dts →
      ComesDown (rest capacityMah avgCellMv dts₁) (ocvPercent avgCellMv) →
      ocvPercent avgCellMv ≤ (rest capacityMah avgCellMv (dtMs :: dts₁)).socPercent) :
    ComesDown (rest capacityMah avgCellMv dts) (ocvPercent avgCellMv) := by
  induction dts with
  | nil => exact rest_start
  | cons dtMs dts ih =>
    obtain ⟨hlast, hrest⟩ := forall_moments_cons.mp h
    exact (ih hrest).next (hlast (ih hrest))

/-- At rest the percentage converges monotonically exactly as long as every step is gentle. -/
theorem converges_iff (capacityMah avgCellMv : UInt16) (dts : List UInt32) :
    (∀ dtMs dts₁, dtMs :: dts₁ <:+ dts → Approaches (ocvPercent avgCellMv)
      (rest capacityMah avgCellMv dts₁).socPercent
      (rest capacityMah avgCellMv (dtMs :: dts₁)).socPercent) ↔
    ∀ dtMs dts₁, dtMs :: dts₁ <:+ dts →
      Gentle (rest capacityMah avgCellMv dts₁) dtMs (ocvPercent avgCellMv) := by
  constructor
  · intro h dtMs dts₁ hsuf
    have hdown : ComesDown (rest capacityMah avgCellMv dts₁) (ocvPercent avgCellMv) :=
      rest_comesDown fun dtMs₂ dts₂ hsuf₂ hold ↦
        (h dtMs₂ dts₂ (hsuf₂.trans ((List.suffix_cons _ _).trans hsuf))).above hold.le_soc
    by_contra hgentle
    exact (hdown.crosses hgentle).not_ge ((h dtMs dts₁ hsuf).above hdown.le_soc)
  · intro h dtMs dts₁ hsuf
    have hdown : ComesDown (rest capacityMah avgCellMv dts₁) (ocvPercent avgCellMv) :=
      rest_comesDown fun dtMs₂ dts₂ hsuf₂ hold ↦ (hold.approaches
        (h dtMs₂ dts₂ (hsuf₂.trans ((List.suffix_cons _ _).trans hsuf)))).above hold.le_soc
    exact hdown.approaches (h dtMs dts₁ hsuf)

/-- Two hours at 3700 mV, in two updates: the second one goes from above 50 % to below 47 %. -/
theorem rest_crosses : ocvPercent 3700 = 50 ∧ 55 < (rest 5000 3700 [3600000]).socPercent ∧
    (rest 5000 3700 [3600000, 3600000]).socPercent < 47 := by
  decide +kernel

end BmsFirmware.SocEstimator
