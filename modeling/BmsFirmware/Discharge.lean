import BmsFirmware.CellModel
import BmsFirmware.Readings

namespace BmsFirmware

open Config

namespace CellModel

/-- The model after steps of the given lengths, the latest first, under one scenario. -/
def simulate (scenario : CellScenario) (dts : List UInt32) : CellModel :=
  dts.foldr (fun dtMs s ↦ (s.step dtMs).1) (init.setScenario scenario)

def reported (scenario : CellScenario) (dtMs : UInt32) (dts : List UInt32)
    (i : Fin bmsCellCount) : ℕ :=
  ((simulate scenario dts).step dtMs).2.millivolts i

def totalMs (dts : List UInt32) : ℕ := (dts.map (·.toNat)).sum

def wrappedS (timeMs : ℕ) : ℕ := timeMs / 1000 % 2 ^ 16

def level (scenario : CellScenario) (i : Fin bmsCellCount) (drift : ℕ) : ℕ :=
  match scenario with
  | .overvoltage => if i.val = 0 then 4250 else 3700 - drift
  | .undervoltage => if i.val = 0 then 2950 else 3700 - drift
  | .cellImbalance => if i.val = 2 then 3870 - drift else 3700 - drift
  | .overtemp => 3700 - drift
  | .nominal => 3700 - drift

def Affects (scenario : CellScenario) (i : Fin bmsCellCount) : Prop :=
  scenario = .overvoltage ∧ i.val = 0 ∨ scenario = .undervoltage ∧ i.val = 0 ∨
    scenario = .cellImbalance ∧ i.val = 2

instance (scenario : CellScenario) (i : Fin bmsCellCount) : Decidable (Affects scenario i) :=
  inferInstanceAs (Decidable (_ ∨ _))

theorem level_of_not_affects {scenario : CellScenario} {i : Fin bmsCellCount}
    (h : ¬ Affects scenario i) (drift : ℕ) : level scenario i drift = 3700 - drift := by
  simp only [Affects, not_or, not_and] at h
  obtain ⟨hov, huv, him⟩ := h
  cases scenario with
  | nominal => rfl
  | overtemp => rfl
  | overvoltage => exact if_neg (hov rfl)
  | undervoltage => exact if_neg (huv rfl)
  | cellImbalance => exact if_neg (him rfl)

theorem clampMv_toNat {mv : ℤ} (h : mv ≤ 65535) : (clampMv mv).toNat = mv.toNat := by
  unfold clampMv
  dsimp only
  rw [UInt16.toNat_ofNat']
  split_ifs <;> omega

theorem scenarioMv_level (scenario : CellScenario) (i : Fin bmsCellCount) (drift : ℕ) :
    scenarioMv scenario i (3700 - drift) ≤ 65535 ∧
      (scenarioMv scenario i (3700 - drift)).toNat = level scenario i drift := by
  have hov : (bmsCellOvervoltageMv.toNat : ℤ) = 4200 := rfl
  have huv : (bmsCellUndervoltageMv.toNat : ℤ) = 3000 := rfl
  have him : (bmsCellImbalanceMv.toNat : ℤ) = 150 := rfl
  have hzero : i = 0 ↔ i.val = 0 := Fin.ext_iff
  have htwo : i = 2 ↔ i.val = 2 := Fin.ext_iff
  cases scenario <;> simp only [scenarioMv, level, hzero, htwo] <;> (try split_ifs) <;> omega

theorem simulate_fixed (scenario : CellScenario) (dts : List UInt32) :
    (simulate scenario dts).scenario = scenario ∧
      (simulate scenario dts).baseMv = Vector.replicate bmsCellCount bmsCellNominalMv := by
  induction dts with
  | nil => exact ⟨rfl, rfl⟩
  | cons dtMs dts ih => exact ih

theorem totalMs_cons (dtMs : UInt32) (dts : List UInt32) :
    totalMs (dtMs :: dts) = dtMs.toNat + totalMs dts := by
  simp only [totalMs, List.map_cons, List.sum_cons]

theorem simulate_elapsed (scenario : CellScenario) {dts : List UInt32}
    (h : totalMs dts < 2 ^ 32) : (simulate scenario dts).elapsedMs.toNat = totalMs dts := by
  induction dts with
  | nil => rfl
  | cons dtMs dts ih =>
    rw [totalMs_cons] at h ⊢
    have hold := ih (by omega)
    have hadd : (simulate scenario (dtMs :: dts)).elapsedMs =
        (simulate scenario dts).elapsedMs + dtMs := rfl
    rw [hadd, UInt32.toNat_add, hold]
    omega

theorem reading_millivolts (s : CellModel) (i : Fin bmsCellCount) : s.reading.millivolts i =
    (clampMv (scenarioMv s.scenario i ((s.baseMv.get i).toNat - s.driftMv.toNat))).toNat :=
  congrArg UInt16.toNat (Vector.getElem_ofFn i.isLt)

theorem simulate_driftMv (scenario : CellScenario) {dts : List UInt32}
    (h : totalMs dts < 2 ^ 32) :
    (simulate scenario dts).driftMv.toNat = wrappedS (totalMs dts) := by
  rw [driftMv, UInt32.toNat_toUInt16, UInt32.toNat_div, simulate_elapsed scenario h]
  rfl

theorem reported_eq (scenario : CellScenario) {dtMs : UInt32} {dts : List UInt32}
    (h : totalMs (dtMs :: dts) < 2 ^ 32) (i : Fin bmsCellCount) :
    reported scenario dtMs dts i = level scenario i (wrappedS (totalMs (dtMs :: dts))) := by
  obtain ⟨hsc, hbase⟩ := simulate_fixed scenario (dtMs :: dts)
  have hread : reported scenario dtMs dts i =
      (simulate scenario (dtMs :: dts)).reading.millivolts i := rfl
  have hget : (((simulate scenario (dtMs :: dts)).baseMv.get i).toNat : ℤ) = 3700 := by
    rw [hbase]
    exact congrArg (fun mv : UInt16 ↦ (mv.toNat : ℤ)) (Vector.getElem_replicate i.isLt)
  obtain ⟨hle, hlevel⟩ := scenarioMv_level scenario i (wrappedS (totalMs (dtMs :: dts)))
  rw [hread, reading_millivolts, hsc, hget, simulate_driftMv scenario h, clampMv_toNat hle, hlevel]

/-- No voltage rises, and the cells left alone lose a millivolt a second. -/
structure OnlyDischarges (scenario : CellScenario) (dts : List UInt32) : Prop where
  falls : ∀ dtMs' dtMs dts₁, dtMs' :: dtMs :: dts₁ <:+ dts → ∀ i,
    reported scenario dtMs' (dtMs :: dts₁) i ≤ reported scenario dtMs dts₁ i
  nominal : ∀ dtMs dts₁, dtMs :: dts₁ <:+ dts → ∀ i, ¬ Affects scenario i →
    reported scenario dtMs dts₁ i = 3700 - totalMs (dtMs :: dts₁) / 1000

/-- The drift has not wrapped yet, or is back where all cells left alone are empty; and
an offset cell is empty too, or the drift has not fallen since the step before. -/
structure NeverRecharged (scenario : CellScenario) (dts : List UInt32) : Prop where
  drift : ∀ dtMs dts₁, dtMs :: dts₁ <:+ dts →
    totalMs (dtMs :: dts₁) / 1000 < 2 ^ 16 ∨ 3700 ≤ wrappedS (totalMs (dtMs :: dts₁))
  offset : scenario = .cellImbalance → ∀ dtMs' dtMs dts₁, dtMs' :: dtMs :: dts₁ <:+ dts →
    3870 ≤ wrappedS (totalMs (dtMs' :: dtMs :: dts₁)) ∨
      wrappedS (totalMs (dtMs :: dts₁)) ≤ wrappedS (totalMs (dtMs' :: dtMs :: dts₁))

theorem totalMs_le_of_suffix {dts dts₁ : List UInt32} (h : dts₁ <:+ dts) :
    totalMs dts₁ ≤ totalMs dts := by
  obtain ⟨dts₂, rfl⟩ := h
  simp [totalMs]

/-- The simulated pack only discharges exactly as long as the 16-bit drift does not wrap
around to a value at which some cell is not empty. -/
theorem only_discharges_iff (scenario : CellScenario) (dts : List UInt32)
    (htotal : totalMs dts < 2 ^ 32) :
    OnlyDischarges scenario dts ↔ NeverRecharged scenario dts := by
  have hlt {dts₁ : List UInt32} (hsuf : dts₁ <:+ dts) : totalMs dts₁ < 2 ^ 32 :=
    (totalMs_le_of_suffix hsuf).trans_lt htotal
  constructor
  · intro h
    constructor
    · intro dtMs dts₁ hsuf
      have hfree : ¬ Affects scenario 3 := by cases scenario <;> decide
      have hread := h.nominal dtMs dts₁ hsuf 3 hfree
      rw [reported_eq scenario (hlt hsuf), level_of_not_affects hfree] at hread
      unfold wrappedS at hread ⊢
      omega
    · rintro rfl dtMs' dtMs dts₁ hsuf
      have hle := h.falls dtMs' dtMs dts₁ hsuf 2
      rw [reported_eq .cellImbalance (hlt hsuf),
        reported_eq .cellImbalance (hlt ((List.suffix_cons _ _).trans hsuf))] at hle
      have hlevel (drift : ℕ) : level .cellImbalance 2 drift = 3870 - drift := rfl
      rw [hlevel, hlevel] at hle
      omega
  · intro h
    have hnominal (dtMs : UInt32) (dts₁ : List UInt32) (hsuf : dtMs :: dts₁ <:+ dts)
        (i : Fin bmsCellCount) (hi : ¬ Affects scenario i) :
        reported scenario dtMs dts₁ i = 3700 - totalMs (dtMs :: dts₁) / 1000 := by
      have hdrift := h.drift dtMs dts₁ hsuf
      rw [reported_eq scenario (hlt hsuf), level_of_not_affects hi]
      unfold wrappedS at hdrift ⊢
      omega
    refine ⟨fun dtMs' dtMs dts₁ hsuf i ↦ ?_, hnominal⟩
    have hsuf₁ : dtMs :: dts₁ <:+ dts := (List.suffix_cons _ _).trans hsuf
    by_cases hi : Affects scenario i
    · rw [reported_eq scenario (hlt hsuf), reported_eq scenario (hlt hsuf₁)]
      rcases hi with ⟨rfl, hi⟩ | ⟨rfl, hi⟩ | ⟨rfl, hi⟩
      · have hlevel (drift : ℕ) : level .overvoltage i drift = 4250 := if_pos hi
        rw [hlevel, hlevel]
      · have hlevel (drift : ℕ) : level .undervoltage i drift = 2950 := if_pos hi
        rw [hlevel, hlevel]
      · have hoffset := h.offset rfl dtMs' dtMs dts₁ hsuf
        have hlevel (drift : ℕ) : level .cellImbalance i drift = 3870 - drift := if_pos hi
        rw [hlevel, hlevel]
        omega
    · rw [hnominal dtMs' _ hsuf i hi, hnominal dtMs dts₁ hsuf₁ i hi]
      have hle := totalMs_le_of_suffix (List.suffix_cons dtMs' (dtMs :: dts₁))
      omega

theorem only_discharges_iff_start : totalMs [1000, 500] < 2 ^ 32 ∧
    (OnlyDischarges .nominal [1000, 500] ↔ NeverRecharged .nominal [1000, 500]) := by
  have htotal : totalMs [1000, 500] < 2 ^ 32 := by decide
  exact ⟨htotal, only_discharges_iff .nominal [1000, 500] htotal⟩

/-- After 65535 s the cells are empty, a second later they are back at their nominal voltage. -/
theorem pack_recharges : totalMs [1000, 65535000] < 2 ^ 32 ∧
    reported .nominal 65535000 [] 0 = 0 ∧ reported .nominal 1000 [65535000] 0 = 3700 ∧
    ¬ OnlyDischarges .nominal [1000, 65535000] := by
  have hbefore : reported .nominal 65535000 [] 0 = 0 := by decide
  have hafter : reported .nominal 1000 [65535000] 0 = 3700 := by decide
  refine ⟨by decide, hbefore, hafter, fun h ↦ ?_⟩
  have hle := h.falls 1000 65535000 [] List.suffix_rfl 0
  rw [hbefore, hafter] at hle
  exact absurd hle (by decide)

end CellModel

end BmsFirmware
