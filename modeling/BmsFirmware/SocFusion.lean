import BmsFirmware.SocUpdate

namespace BmsFirmware.SocEstimator

open Lib Lib.History Set

/-- An update fuses its prediction with its measurement and overshoots neither. -/
structure Fuses (e new : SocEstimator) (pred z : ℚ) : Prop where
  range : new.socPercent ∈ Icc 0 100
  between : new.socPercent ∈ uIcc (clamp 0 100 pred) z
  nearer : pred ≠ z → |new.socPercent - z| < |pred - z|
  agreement : pred = z → new.socPercent = pred ∧ new.socPercent = z ∧ new.biasCa = e.biasCa

theorem update_fuses {e : SocEstimator} (h : e.cov.PosDef) (currentCa : Int16) (dtMs : UInt32)
    (avgCellMv : UInt16) : Fuses e (update e currentCa dtMs avgCellMv) (coulomb e currentCa dtMs)
      (ocvPercent avgCellMv) := by
  have hz := ocvPercent_mem avgCellMv
  have hpos : 0 < kSoc e currentCa dtMs := kSoc_pos h
  have hone : kSoc e currentCa dtMs < 1 := kSoc_lt_one h
  have hsoc := update_soc e currentCa dtMs avgCellMv
  refine ⟨?_, ?_, fun hne ↦ ?_, fun heq ↦ ?_⟩
  · rw [hsoc]
    exact clamp_mem (by norm_num)
  · rw [hsoc]
    exact clamp_mem_uIcc hz (blend_mem_uIcc hpos.le hone.le)
  · rw [hsoc]
    exact (abs_clamp_sub_le hz).trans_lt (abs_blend_sub_lt hpos hone hne)
  · have hsame : (update e currentCa dtMs avgCellMv).socPercent = ocvPercent avgCellMv := by
      rw [hsoc, heq, blend_self, clamp_of_mem hz]
    refine ⟨hsame.trans heq.symm, hsame, ?_⟩
    rw [update_bias, heq, sub_self, mul_zero, add_zero]

def coulombCount (capacityMah : UInt16) (us : List SocSample) : ℚ :=
  us.foldr (fun u soc ↦ soc + u.dtMs.toNat / (3600 * capacityMah.toNat) * u.currentCa.toInt) 100

/-- The measurement agrees with the prediction at every update of the run. -/
def Agreeing (capacityMah : UInt16) (us : List SocSample) : Prop :=
  ∀ u us₁, u :: us₁ <:+ us →
    ocvPercent u.avgCellMv = coulomb (estimate capacityMah us₁) u.currentCa u.dtMs

theorem agreeing_counts {capacityMah : UInt16} {us : List SocSample}
    (h : Agreeing capacityMah us) :
    (estimate capacityMah us).socPercent = coulombCount capacityMah us ∧
      (estimate capacityMah us).biasCa = 0 := by
  induction us with
  | nil => constructor <;> norm_num [estimate, init, coulombCount]
  | cons u us ih =>
    obtain ⟨hz, hrest⟩ := forall_moments_cons.mp h
    obtain ⟨hsoc, hbias⟩ := ih hrest
    have hfuses := update_fuses (estimate_posDef capacityMah us) u.currentCa u.dtMs u.avgCellMv
    obtain ⟨hpred, -, hsame⟩ := hfuses.agreement hz.symm
    refine ⟨hpred.trans ?_, hsame.trans hbias⟩
    rw [coulomb, hsoc, hbias, sub_zero, k, estimate_capacity]
    norm_num [coulombCount]

/-- No update overshoots its two sources, and where they always agree the filter is plain
Coulomb counting without a bias. -/
theorem never_overshoots (capacityMah : UInt16) (us : List SocSample) :
    (∀ (currentCa : Int16) (dtMs : UInt32) (avgCellMv : UInt16),
      Fuses (estimate capacityMah us)
        ((estimate capacityMah us).update currentCa dtMs avgCellMv)
        (coulomb (estimate capacityMah us) currentCa dtMs) (ocvPercent avgCellMv)) ∧
    (Agreeing capacityMah us → (estimate capacityMah us).socPercent = coulombCount capacityMah us ∧
      (estimate capacityMah us).biasCa = 0) :=
  ⟨update_fuses (estimate_posDef capacityMah us), agreeing_counts⟩

section Readout

variable {e e' : SocEstimator}

theorem getPercentX2_eq (h : e.socPercent ∈ Icc 0 100) :
    ((getPercentX2 e).toNat : ℤ) = ⌊e.socPercent * 2 + 1 / 2⌋ ∧ getPercentX2 e ≤ 200 := by
  obtain ⟨hlow, hhigh⟩ := h
  have hnonneg : 0 ≤ ⌊e.socPercent * 2 + 1 / 2⌋ := Int.floor_nonneg.mpr (by linarith)
  have hlt : ⌊e.socPercent * 2 + 1 / 2⌋ < 201 := Int.floor_lt.mpr (by push_cast; linarith)
  have htwo : (200 : UInt8).toNat = 200 := rfl
  have hdef : getPercentX2 e = .ofNat ⌊e.socPercent * 2 + 1 / 2⌋.toNat := by
    have hneg : ¬ e.socPercent * 2.0 < 0 := by linarith
    have hbig : ¬ e.socPercent * 2.0 > 200 := by linarith
    unfold getPercentX2
    dsimp only
    rw [if_neg hneg, if_neg hbig]
    norm_num
  rw [UInt8.le_iff_toNat_le, hdef, UInt8.toNat_ofNat']
  omega

theorem getPercentX2_mono (h : e.socPercent ∈ Icc 0 100) (h' : e'.socPercent ∈ Icc 0 100)
    (hle : e.socPercent ≤ e'.socPercent) : getPercentX2 e ≤ getPercentX2 e' := by
  have hfloor : ⌊e.socPercent * 2 + 1 / 2⌋ ≤ ⌊e'.socPercent * 2 + 1 / 2⌋ :=
    Int.floor_le_floor (by linarith)
  rw [← (getPercentX2_eq h).1, ← (getPercentX2_eq h').1] at hfloor
  rw [UInt8.le_iff_toNat_le]
  omega

theorem getPercentX2_near (h : e.socPercent ∈ Icc 0 100) :
    |((getPercentX2 e).toNat : ℚ) / 2 - e.socPercent| ≤ 1 / 4 := by
  have heq : ((getPercentX2 e).toNat : ℚ) = (round (e.socPercent * 2) : ℤ) := by
    rw [round_eq, ← (getPercentX2_eq h).1, Int.cast_natCast]
  have hnear := abs_sub_round (e.socPercent * 2)
  rw [heq]
  rw [abs_le] at hnear ⊢
  constructor <;> linarith

end Readout

/-- A higher voltage never lowers the percentage or its readout, nor raises the bias, and the
readout is the percentage to within half a tick. -/
theorem voltage_monotone (capacityMah : UInt16) (us : List SocSample) (currentCa : Int16)
    (dtMs : UInt32) {v₁ v₂ : UInt16} (hv : v₁ ≤ v₂) :
    ((estimate capacityMah us).update currentCa dtMs v₁).socPercent ≤
      ((estimate capacityMah us).update currentCa dtMs v₂).socPercent ∧
    getPercentX2 ((estimate capacityMah us).update currentCa dtMs v₁) ≤
      getPercentX2 ((estimate capacityMah us).update currentCa dtMs v₂) ∧
    ((estimate capacityMah us).update currentCa dtMs v₂).biasCa ≤
      ((estimate capacityMah us).update currentCa dtMs v₁).biasCa ∧
    getPercentX2 (estimate capacityMah us) ≤ 200 ∧
    |((getPercentX2 (estimate capacityMah us)).toNat : ℚ) / 2 -
      (estimate capacityMah us).socPercent| ≤ 1 / 4 := by
  have hposDef := estimate_posDef capacityMah us
  have hz := ocvPercent_mono hv
  have hsoc : ((estimate capacityMah us).update currentCa dtMs v₁).socPercent ≤
      ((estimate capacityMah us).update currentCa dtMs v₂).socPercent := by
    rw [update_soc, update_soc]
    exact clamp_mono (blend_mono (kSoc_pos hposDef).le hz)
  have hrange (v : UInt16) :=
    estimate_soc_mem capacityMah (⟨currentCa, dtMs, v⟩ :: us)
  refine ⟨hsoc, getPercentX2_mono (hrange v₁) (hrange v₂) hsoc, ?_,
    (getPercentX2_eq (estimate_soc_mem capacityMah us)).2,
    getPercentX2_near (estimate_soc_mem capacityMah us)⟩
  have hbias : kBias (estimate capacityMah us) currentCa dtMs ≤ 0 :=
    kBias_nonpos hposDef (estimate_p01_nonpos capacityMah us)
  have hmul := mul_le_mul_of_nonpos_left
    (sub_le_sub_right hz (coulomb (estimate capacityMah us) currentCa dtMs)) hbias
  rw [update_bias, update_bias]
  exact add_le_add_right hmul _

theorem voltage_monotone_charged : (3000 : UInt16) ≤ 4200 ∧
    ((init 5000).update 0 500 3000).socPercent ≤ ((init 5000).update 0 500 4200).socPercent :=
  ⟨by decide, (voltage_monotone 5000 [] 0 500 (by decide)).1⟩

end BmsFirmware.SocEstimator
