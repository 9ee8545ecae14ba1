import BmsFirmware.SocUpdate

namespace BmsFirmware.SocEstimator

open Config Lib Lib.History Set

/-- The conversion `(int32_t)x`: truncation, undefined out of range. -/
def castInt32 (x : ℚ) : Option ℤ :=
  let t := if x < 0 then ⌈x⌉ else ⌊x⌋
  if -2 ^ 31 ≤ t ∧ t < 2 ^ 31 then some t else none

def getVarianceX1000 (e : SocEstimator) : Option ℤ :=
  let v := e.p00 * 1000.0
  let v := if v < 0 then 0 else v
  castInt32 (v + 0.5)

def getBiasCaX10 (e : SocEstimator) : Option ℤ :=
  let v := e.biasCa * 10.0
  if v ≥ 0 then castInt32 (v + 0.5) else (castInt32 (-v + 0.5)).map (-·)

theorem castInt32_round {x : ℚ} (h₀ : 0 ≤ x) (h : x + 1 / 2 < 2 ^ 31) :
    castInt32 (x + 1 / 2) = some (round x) := by
  have hneg : ¬ x + 1 / 2 < 0 := by linarith
  have hnonneg : 0 ≤ ⌊x + 1 / 2⌋ := Int.floor_nonneg.mpr (by linarith)
  have hlt : ⌊x + 1 / 2⌋ < 2 ^ 31 := Int.floor_lt.mpr (by push_cast; exact h)
  unfold castInt32
  dsimp only
  rw [if_neg hneg, if_pos ⟨by omega, hlt⟩, round_eq]

theorem round_near (x : ℚ) : |(round x : ℚ) - x| ≤ 1 / 2 := by
  rw [abs_sub_comm]
  exact abs_sub_round x

/-- The two readouts are in the range of their type and convert to the nearest integers. -/
structure Readable (e : SocEstimator) : Prop where
  variance_lt : e.p00 * 1000 + 1 / 2 < 2 ^ 31
  bias_lt : |e.biasCa| * 10 + 1 / 2 < 2 ^ 31
  variance : ∃ n : ℤ, getVarianceX1000 e = some n ∧ |(n : ℚ) - e.p00 * 1000| ≤ 1 / 2
  bias : ∃ n : ℤ, getBiasCaX10 e = some n ∧ |(n : ℚ) - e.biasCa * 10| ≤ 1 / 2

theorem readable_of_lt {e : SocEstimator} (h₀ : 0 ≤ e.p00) (hv : e.p00 * 1000 + 1 / 2 < 2 ^ 31)
    (hb : |e.biasCa| * 10 + 1 / 2 < 2 ^ 31) : Readable e := by
  refine ⟨hv, hb, ⟨round (e.p00 * 1000), ?_, round_near _⟩, ?_⟩
  · have hpos : 0 ≤ e.p00 * 1000 := by positivity
    rw [← castInt32_round hpos hv]
    unfold getVarianceX1000
    norm_num [not_lt.mpr hpos]
  · rcases le_or_gt 0 e.biasCa with hpos | hneg
    · rw [abs_of_nonneg hpos] at hb
      refine ⟨round (e.biasCa * 10), ?_, round_near _⟩
      rw [← castInt32_round (mul_nonneg hpos (by norm_num)) hb]
      unfold getBiasCaX10
      norm_num [hpos]
    · rw [abs_of_neg hneg, neg_mul] at hb
      have hcast := castInt32_round (by linarith) hb
      refine ⟨-round (-(e.biasCa * 10)), ?_, ?_⟩
      · unfold getBiasCaX10
        norm_num [not_le.mpr hneg, hcast]
      · have hnear := round_near (-(e.biasCa * 10))
        rw [abs_le] at hnear ⊢
        push_cast
        constructor <;> linarith

def varianceLimit : ℚ := (2 ^ 31 - 1 / 2) / 1000

def biasLimit : ℚ := (2 ^ 31 - 1 / 2) / 10

section Step

variable (e : SocEstimator) (u : SocSample)

def predictedVariance : ℚ :=
  e.p00 - 2 * k e u.dtMs * e.p01 + k e u.dtMs ^ 2 * e.p11 + processNoise e u.currentCa u.dtMs

/-- The bias with which the Coulomb prediction would have met the measurement. -/
def explainedBias : ℚ :=
  u.currentCa.toInt + (e.socPercent - ocvPercent u.avgCellMv) / k e u.dtMs

def Precise : Prop :=
  varianceLimit⁻¹ < (predictedVariance e u)⁻¹ + (measurementNoise u.currentCa)⁻¹

/-- Beside that, the bias that would explain the measurement is in range or the bias cannot
move far enough. -/
structure Moderate : Prop where
  variance : Precise e u
  bias : 0 < u.dtMs ∧ |explainedBias e u| < biasLimit ∨
    |e.biasCa| + 4 * |e.p01 - k e u.dtMs * e.p11| *
      |ocvPercent u.avgCellMv - coulomb e u.currentCa u.dtMs| < biasLimit

variable {e u}

theorem predictedVariance_eq :
    predictedVariance e u = (predict e u.currentCa u.dtMs).cov.p00 := by
  rw [predict_cov, predictedVariance, pow_two]
  rfl

theorem measurementNoise_eq (currentCa : Int16) :
    measurementNoise currentCa = 1 / 4 + (currentCa.toInt : ℚ) ^ 2 / 100 := by
  norm_num [measurementNoise, bmsSocOcvBaseVariancePct2, bmsSocOcvLoadCoeffPct2PerA2]
  ring

theorem p00_lt_iff (h : e.cov.PosDef) :
    (update e u.currentCa u.dtMs u.avgCellMv).p00 < varianceLimit ↔ Precise e u := by
  have hr := measurementNoise_pos u.currentCa
  have hpred := predict_posDef h u.currentCa u.dtMs
  have hpos := (hpred.correct hr).p00_pos
  rw [Precise, predictedVariance_eq, ← hpred.correct_precision hr]
  exact (inv_lt_inv₀ (by norm_num [varianceLimit]) hpos).symm

/-- An update that spans some time moves the bias towards the one that explains it. -/
theorem update_bias_blend (hk : k e u.dtMs ≠ 0) :
    (update e u.currentCa u.dtMs u.avgCellMv).biasCa =
      blend (k e u.dtMs * -kBias e u.currentCa u.dtMs) e.biasCa (explainedBias e u) := by
  rw [update_bias, blend, explainedBias, coulomb]
  field_simp
  ring

theorem abs_kBias_le (h : e.cov.PosDef) :
    |kBias e u.currentCa u.dtMs| ≤ 4 * |e.p01 - k e u.dtMs * e.p11| := by
  have hp : (predict e u.currentCa u.dtMs).p01 = e.p01 - k e u.dtMs * e.p11 := rfl
  have hs : 1 / 4 ≤ innovationVariance e u.currentCa u.dtMs := by
    have hpos := (predict_posDef h u.currentCa u.dtMs).p00_pos
    have hnoise : 1 / 4 ≤ measurementNoise u.currentCa := by
      rw [measurementNoise_eq]
      linarith [sq_nonneg (u.currentCa.toInt : ℚ)]
    exact hnoise.trans (le_add_of_nonneg_left hpos.le)
  have hpos : 0 < innovationVariance e u.currentCa u.dtMs := by linarith
  rw [kBias, abs_div, abs_of_pos hpos, div_le_iff₀ hpos, hp]
  have hmul := mul_le_mul_of_nonneg_left hs (abs_nonneg (e.p01 - k e u.dtMs * e.p11))
  linarith

theorem Moderate.abs_bias_lt (h : e.cov.PosDef) (h₀₁ : e.p01 ≤ 0) (hc : 0 < e.capacityMah)
    (hb : |e.biasCa| < biasLimit) (hm : Moderate e u) :
    |(update e u.currentCa u.dtMs u.avgCellMv).biasCa| < biasLimit := by
  rcases hm.bias with ⟨hd, hexplained⟩ | hfar
  · have hk : 0 < k e u.dtMs := k_pos hc hd
    have hgain : kBias e u.currentCa u.dtMs ≤ 0 := kBias_nonpos h h₀₁
    have hone : k e u.dtMs * -kBias e u.currentCa u.dtMs < 1 := k_mul_kBias_lt_one h h₀₁
    rw [abs_lt] at hb hexplained ⊢
    rw [update_bias_blend hk.ne']
    exact ordConnected_Ioo.uIcc_subset hb hexplained
      (blend_mem_uIcc (mul_nonneg hk.le (neg_nonneg.mpr hgain)) hone.le)
  · rw [update_bias]
    refine (abs_add_le _ _).trans_lt (lt_of_le_of_lt ?_ hfar)
    rw [abs_mul]
    exact add_le_add_right (mul_le_mul_of_nonneg_right (abs_kBias_le h) (abs_nonneg _)) _

/-- Currents of up to 146.54 A and intervals that are not too short for the capacity are always
moderate. -/
theorem moderate_of_inputs (h : e.cov.PosDef) (hsoc : e.socPercent ∈ Icc 0 100)
    (hc : 0 < e.capacityMah) (hi : |u.currentCa.toInt| ≤ 14654)
    (hd : e.capacityMah.toNat ≤ 596 * u.dtMs.toNat) : Moderate e u := by
  constructor
  · have hpos : 0 < predictedVariance e u := by
      rw [predictedVariance_eq]
      exact (predict_posDef h u.currentCa u.dtMs).p00_pos
    have hsq : (u.currentCa.toInt : ℚ) ^ 2 ≤ 14654 ^ 2 := by
      have habs : |(u.currentCa.toInt : ℚ)| ≤ 14654 := by exact_mod_cast hi
      rw [← sq_abs]
      exact pow_le_pow_left₀ (abs_nonneg _) habs 2
    have hnoise : measurementNoise u.currentCa < varianceLimit := by
      rw [measurementNoise_eq, varianceLimit]
      linarith
    have hinv := (inv_lt_inv₀ ((measurementNoise_pos _).trans hnoise)
      (measurementNoise_pos u.currentCa)).mpr hnoise
    exact lt_add_of_pos_of_lt (inv_pos.mpr hpos) hinv
  · have hcap : (0 : ℚ) < e.capacityMah.toNat := by exact_mod_cast UInt16.lt_iff_toNat_lt.mp hc
    have hdt : (e.capacityMah.toNat : ℚ) ≤ 596 * u.dtMs.toNat := by exact_mod_cast hd
    have hdpos : (0 : ℚ) < u.dtMs.toNat := by linarith
    have hd₀ : 0 < u.dtMs := by
      rw [UInt32.lt_iff_toNat_lt]
      exact_mod_cast hdpos
    have hz := ocvPercent_mem u.avgCellMv
    have hgap : |e.socPercent - ocvPercent u.avgCellMv| ≤ 100 := by
      rw [abs_le]
      constructor <;> linarith [hz.1, hz.2, hsoc.1, hsoc.2]
    have hquot : |(e.socPercent - ocvPercent u.avgCellMv) / k e u.dtMs| ≤ 214560000 := by
      have hk : k e u.dtMs = u.dtMs.toNat / (3600 * e.capacityMah.toNat) := by norm_num [k]
      rw [abs_div, abs_of_pos (k_pos hc hd₀), div_le_iff₀ (k_pos hc hd₀), hk, mul_div_assoc',
        le_div_iff₀ (by positivity)]
      calc |e.socPercent - ocvPercent u.avgCellMv| * (3600 * e.capacityMah.toNat)
          ≤ 100 * (3600 * e.capacityMah.toNat) :=
            mul_le_mul_of_nonneg_right hgap (by positivity)
        _ ≤ 214560000 * u.dtMs.toNat := by linarith
    have habs : |(u.currentCa.toInt : ℚ)| ≤ 14654 := by exact_mod_cast hi
    refine .inl ⟨hd₀, (abs_add_le _ _).trans_lt ?_⟩
    have hlimit : (14654 : ℚ) + 214560000 < biasLimit := by norm_num [biasLimit]
    linarith

end Step

variable (capacityMah : UInt16) (us : List SocSample)

/-- The variance stays in range exactly as long as every update is precise enough. -/
theorem variance_lt_iff : (∀ us₁, us₁ <:+ us → (estimate capacityMah us₁).p00 < varianceLimit) ↔
    ∀ u us₁, u :: us₁ <:+ us → Precise (estimate capacityMah us₁) u := by
  constructor
  · intro h u us₁ hsuf
    exact (p00_lt_iff (estimate_posDef capacityMah us₁)).mp (h (u :: us₁) hsuf)
  · intro h us₁ hsuf
    cases us₁ with
    | nil => norm_num [estimate, init, varianceLimit, bmsSocInitialVariancePct2]
    | cons u us₁ => exact (p00_lt_iff (estimate_posDef capacityMah us₁)).mpr (h u us₁ hsuf)

theorem abs_bias_lt (hc : 0 < capacityMah)
    (h : ∀ u us₁, u :: us₁ <:+ us → Moderate (estimate capacityMah us₁) u) :
    |(estimate capacityMah us).biasCa| < biasLimit := by
  induction us with
  | nil => norm_num [estimate, init, biasLimit]
  | cons u us ih =>
    obtain ⟨hm, hrest⟩ := forall_moments_cons.mp h
    exact hm.abs_bias_lt (estimate_posDef capacityMah us) (estimate_p01_nonpos capacityMah us)
      (estimate_capacity_pos capacityMah us hc) (ih hrest)

/-- The readouts stay in range over every run of moderate updates; for the variance the
condition on the updates is exact. -/
theorem readouts_in_range (hc : 0 < capacityMah) :
    ((∀ u us₁, u :: us₁ <:+ us → Moderate (estimate capacityMah us₁) u) →
      Readable (estimate capacityMah us)) ∧
    ((∀ us₁, us₁ <:+ us → (estimate capacityMah us₁).p00 < varianceLimit) ↔
      ∀ u us₁, u :: us₁ <:+ us → Precise (estimate capacityMah us₁) u) := by
  refine ⟨fun h ↦ ?_, variance_lt_iff capacityMah us⟩
  have hv := (variance_lt_iff capacityMah us).mpr (fun u us₁ hsuf ↦ (h u us₁ hsuf).variance) us
    List.suffix_rfl
  have hb := abs_bias_lt capacityMah us hc h
  unfold varianceLimit at hv
  unfold biasLimit at hb
  exact readable_of_lt (estimate_posDef capacityMah us).p00_pos.le (by linarith) (by linarith)

theorem readouts_in_range_pack : 0 < bmsPackCapacityMah ∧
    Readable (estimate bmsPackCapacityMah [⟨-200, 500, 3700⟩]) := by
  have hc : 0 < bmsPackCapacityMah := by decide
  refine ⟨hc, (readouts_in_range _ _ hc).1 (forall_moments_cons.mpr ⟨?_, ?_⟩)⟩
  · exact moderate_of_inputs (init_posDef _) (estimate_soc_mem _ []) hc (by decide) (by decide)
  · exact fun u us₁ hsuf ↦ nomatch List.suffix_nil.mp hsuf

/-- One update over the longest interval at the largest discharge current. -/
theorem readouts_overflow :
    2 ^ 31 < ((init 5000).update (-32768) 4294967295 3700).p00 * 1000 + 1 / 2 ∧
    getVarianceX1000 ((init 5000).update (-32768) 4294967295 3700) = none := by
  decide +kernel

end BmsFirmware.SocEstimator
