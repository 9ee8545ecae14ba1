import BmsFirmware.SocFilter

namespace BmsFirmware

open Config Lib Lib.History

namespace SocEstimator

theorem k_ne_zero {e : SocEstimator} {dtMs : UInt32} (hc : 0 < e.capacityMah) (hd : dtMs ≠ 0) :
    k e dtMs ≠ 0 := by
  have hcap : (e.capacityMah.toNat : ℚ) ≠ 0 := by
    exact_mod_cast (UInt16.lt_iff_toNat_lt.mp hc).ne'
  have hdt : (dtMs.toNat : ℚ) ≠ 0 := by
    exact_mod_cast fun h ↦ hd (UInt32.toNat_inj.mp h)
  exact div_ne_zero hdt (mul_ne_zero (by norm_num) hcap)

/-- Two filters of the same capacity get the same process noise exactly when
the bias they subtract leaves a current of the same size, or no time passes. -/
theorem processNoise_eq_iff {e e' : SocEstimator} (hcap : e'.capacityMah = e.capacityMah)
    (hc : 0 < e.capacityMah) (currentCa : Int16) (dtMs : UInt32) :
    processNoise e' currentCa dtMs = processNoise e currentCa dtMs ↔
      dtMs = 0 ∨ e'.biasCa = e.biasCa ∨ e'.biasCa + e.biasCa = 2 * currentCa.toInt := by
  have hk : k e' dtMs = k e dtMs := by simp only [k, hcap]
  have hfrac : bmsSocCurrentSenseErrorFrac ≠ 0 := by norm_num [bmsSocCurrentSenseErrorFrac]
  simp only [processNoise, deltaPercent, hk, add_right_inj, sq_eq_sq_iff_eq_or_eq_neg]
  by_cases hd : dtMs = 0
  · have hz : k e dtMs = 0 := by simp [k, hd]
    exact iff_of_true (.inl (by rw [hz, zero_mul, zero_mul])) (.inl hd)
  · rw [or_iff_right hd]
    have hne : bmsSocCurrentSenseErrorFrac * k e dtMs ≠ 0 := mul_ne_zero hfrac (k_ne_zero hc hd)
    apply or_congr
    · constructor
      · intro h
        have h₀ : bmsSocCurrentSenseErrorFrac * k e dtMs * (e'.biasCa - e.biasCa) = 0 := by
          linear_combination -h
        exact sub_eq_zero.mp ((mul_eq_zero.mp h₀).resolve_left hne)
      · intro h
        rw [h]
    · constructor
      · intro h
        have h₀ : bmsSocCurrentSenseErrorFrac * k e dtMs *
            (e'.biasCa + e.biasCa - 2 * currentCa.toInt) = 0 := by
          linear_combination -h
        exact sub_eq_zero.mp ((mul_eq_zero.mp h₀).resolve_left hne)
      · intro h
        linear_combination -bmsSocCurrentSenseErrorFrac * k e dtMs * h

theorem update_cov_eq_iff {e e' : SocEstimator} (hcov : e'.cov = e.cov)
    (hcap : e'.capacityMah = e.capacityMah) (h : e.cov.PosDef) (currentCa : Int16) (dtMs : UInt32)
    (avgCellMv avgCellMv' : UInt16) :
    (update e' currentCa dtMs avgCellMv').cov = (update e currentCa dtMs avgCellMv).cov ↔
      processNoise e' currentCa dtMs = processNoise e currentCa dtMs := by
  have hk : k e' dtMs = k e dtMs := by simp only [k, hcap]
  have hp := predict_posDef h currentCa dtMs
  have hp' := predict_posDef (hcov ▸ h) currentCa dtMs
  rw [update_cov, update_cov]
  constructor
  · intro heq
    have hpred := (Cov.correct_p00_inj hp'.p00_pos hp.p00_pos (measurementNoise_pos currentCa)).mp
      (congrArg Cov.p00 heq)
    rw [predict_cov, predict_cov, hcov, hk] at hpred
    exact add_left_cancel hpred
  · intro hq
    rw [predict_cov, predict_cov, hcov, hk, hq]

/-- Two runs on the same currents and intervals: the left one takes the voltage
of the sample, the right one the second component. -/
def leftRun (capacityMah : UInt16) (us : List (SocSample × UInt16)) : SocEstimator :=
  estimate capacityMah (us.map Prod.fst)

def rightRun (capacityMah : UInt16) (us : List (SocSample × UInt16)) : SocEstimator :=
  estimate capacityMah (us.map fun u ↦ { u.1 with avgCellMv := u.2 })

/-- The voltages have not reached the next process noise: no time passes, the two
biases agree, or they are mirror images about the current. -/
def BiasBlind (capacityMah : UInt16) (u : SocSample × UInt16) (us : List (SocSample × UInt16)) :
    Prop :=
  u.1.dtMs = 0 ∨ (rightRun capacityMah us).biasCa = (leftRun capacityMah us).biasCa ∨
    (rightRun capacityMah us).biasCa + (leftRun capacityMah us).biasCa =
      2 * u.1.currentCa.toInt

theorem runs_cov_cons_iff {capacityMah : UInt16} (hc : 0 < capacityMah) (u : SocSample × UInt16)
    {us : List (SocSample × UInt16)}
    (hcov : (rightRun capacityMah us).cov = (leftRun capacityMah us).cov) :
    (rightRun capacityMah (u :: us)).cov = (leftRun capacityMah (u :: us)).cov ↔
      BiasBlind capacityMah u us := by
  have hleft : (leftRun capacityMah us).capacityMah = capacityMah := estimate_capacity _ _
  have hcap : (rightRun capacityMah us).capacityMah = (leftRun capacityMah us).capacityMah :=
    (estimate_capacity _ _).trans hleft.symm
  refine (update_cov_eq_iff hcov hcap (estimate_posDef _ _) _ _ _ _).trans ?_
  exact processNoise_eq_iff hcap (by rw [hleft]; exact hc) _ _

/-- The covariances of two runs that differ in their voltages only agree after
every update exactly as long as no voltage gets through the bias into the
process noise of a later update. -/
theorem confidence_blind_iff (capacityMah : UInt16) (hc : 0 < capacityMah)
    (us : List (SocSample × UInt16)) :
    (∀ us₁, us₁ <:+ us → (rightRun capacityMah us₁).cov = (leftRun capacityMah us₁).cov) ↔
      ∀ u us₁, u :: us₁ <:+ us → BiasBlind capacityMah u us₁ := by
  constructor
  · intro hcov u us₁ hsuf
    exact (runs_cov_cons_iff hc u (hcov us₁ ((List.suffix_cons u us₁).trans hsuf))).mp
      (hcov (u :: us₁) hsuf)
  · intro hblind us₁
    induction us₁ with
    | nil => exact fun _ ↦ rfl
    | cons u us₁ ih =>
      intro hsuf
      exact (runs_cov_cons_iff hc u (ih ((List.suffix_cons u us₁).trans hsuf))).mpr
        (hblind u us₁ hsuf)

def oneHour : List (SocSample × UInt16) := [(⟨-200, 3600000, 3800⟩, 3700)]

/-- After the first hour the two biases differ; the second update comes at once. -/
theorem confidence_blind_iff_at_once : 0 < bmsPackCapacityMah ∧
    (rightRun bmsPackCapacityMah oneHour).biasCa ≠ (leftRun bmsPackCapacityMah oneHour).biasCa ∧
    ∀ us₁, us₁ <:+ (⟨-200, 0, 3800⟩, 3700) :: oneHour →
      (rightRun bmsPackCapacityMah us₁).cov = (leftRun bmsPackCapacityMah us₁).cov := by
  have hc : 0 < bmsPackCapacityMah := by decide
  refine ⟨hc, by decide +kernel, (confidence_blind_iff _ hc _).mpr ?_⟩
  refine forall_moments_cons.mpr ⟨.inl rfl, forall_moments_cons.mpr ⟨.inr (.inl rfl), ?_⟩⟩
  intro u us₁ hsuf
  exact absurd (List.suffix_nil.mp hsuf) (by simp)

def twoHours : List (SocSample × UInt16) := (⟨-200, 3600000, 3800⟩, 3800) :: oneHour

theorem confidence_not_blind : (rightRun bmsPackCapacityMah twoHours).p00 ≠
    (leftRun bmsPackCapacityMah twoHours).p00 := by
  decide +kernel

end SocEstimator

end BmsFirmware
