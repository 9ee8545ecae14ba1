import BmsFirmware.AppContext
import BmsFirmware.OcvCurve
import BmsFirmware.Readings
import BmsFirmware.SocFilter
import Mathlib.Algebra.BigOperators.Fin
import Mathlib.Algebra.BigOperators.Intervals
import Mathlib.Algebra.Order.BigOperators.Group.Finset
import Mathlib.Order.Interval.Finset.Nat

namespace BmsFirmware

open Config Lib.Extremes

namespace AppContext

def avgCellMv (reading : CellReading) : UInt16 := packMv reading / UInt16.ofNat bmsCellCount

def seriesSumMv (reading : CellReading) : ℕ := ∑ i, reading.millivolts i

def socCall (reading : CellReading) : SocSample where
  currentCa := reading.packCurrentCa
  dtMs := taskPeriodSocMs
  avgCellMv := avgCellMv reading

theorem socSection_soc (ctx : AppContext) (tickMs : UInt32) : (ctx.socSection tickMs).soc =
    ctx.soc.update (socCall ctx.latestReading).currentCa (socCall ctx.latestReading).dtMs
      (socCall ctx.latestReading).avgCellMv := rfl

theorem foldl_packMv (r : CellReading) (is : List (Fin bmsCellCount)) (packMv : UInt16) :
    (is.foldl (fun packMv i ↦ packMv + r.cellMv.get i) packMv).toNat =
      (packMv.toNat + (is.map r.millivolts).sum) % 2 ^ 16 := by
  induction is generalizing packMv with
  | nil => exact (Nat.mod_eq_of_lt packMv.toNat_lt).symm
  | cons i is ih =>
    rw [List.foldl_cons, ih, UInt16.toNat_add, List.map_cons, List.sum_cons, Nat.mod_add_mod,
      Nat.add_assoc]
    rfl

theorem packMv_toNat (r : CellReading) : (packMv r).toNat = seriesSumMv r % 2 ^ 16 := by
  rw [packMv, foldl_packMv, seriesSumMv, Fin.sum_univ_def, UInt16.toNat_zero, Nat.zero_add]

theorem seriesSumMv_bounds (r : CellReading) :
    bmsCellCount * r.smallestMv ≤ seriesSumMv r ∧ seriesSumMv r ≤ bmsCellCount * r.largestMv := by
  have hlow := Finset.card_nsmul_le_sum Finset.univ r.millivolts r.smallestMv
    fun i _ ↦ least_le i
  have hhigh := Finset.sum_le_card_nsmul Finset.univ r.millivolts r.largestMv
    fun i _ ↦ le_greatest i
  rw [Finset.card_univ, Fintype.card_fin, smul_eq_mul] at hlow hhigh
  exact ⟨hlow, hhigh⟩

/-- What the soc task makes of the cells in one iteration. -/
structure Measures (ctx : AppContext) (tickMs : UInt32) : Prop where
  passed : (ctx.socSection tickMs).soc = ctx.soc.update ctx.latestReading.packCurrentCa
    taskPeriodSocMs (avgCellMv ctx.latestReading)
  sum : (ctx.socSection tickMs).status.packVoltageMv.toNat = seriesSumMv ctx.latestReading
  average : ctx.latestReading.smallestMv ≤ (avgCellMv ctx.latestReading).toNat ∧
    (avgCellMv ctx.latestReading).toNat ≤ ctx.latestReading.largestMv
  fused : SocEstimator.ocvLookupPercentX2 (.ofNat ctx.latestReading.smallestMv) ≤
      SocEstimator.ocvLookupPercentX2 (avgCellMv ctx.latestReading) ∧
    SocEstimator.ocvLookupPercentX2 (avgCellMv ctx.latestReading) ≤
      SocEstimator.ocvLookupPercentX2 (.ofNat ctx.latestReading.largestMv)

theorem largestMv_lt (r : CellReading) : r.largestMv < 2 ^ 16 := by
  obtain ⟨i, hi⟩ := le_greatest_iff.mp (le_refl (greatest r.millivolts))
  exact hi.trans_lt (r.cellMv.get i).toNat_lt

theorem avgCellMv_toNat {r : CellReading} (h : seriesSumMv r < 2 ^ 16) :
    (avgCellMv r).toNat = seriesSumMv r / bmsCellCount := by
  rw [avgCellMv, UInt16.toNat_div, packMv_toNat, Nat.mod_eq_of_lt h]
  rfl

/-- The pack voltage and the OCV measurement are faithful to the cells exactly as long as
the series sum fits the 16 bits in which it is formed. -/
theorem measures_iff (ctx : AppContext) (tickMs : UInt32) :
    Measures ctx tickMs ↔ seriesSumMv ctx.latestReading < 2 ^ 16 := by
  have hpack : (ctx.socSection tickMs).status.packVoltageMv = packMv ctx.latestReading := rfl
  constructor
  · intro h
    rw [← h.sum]
    exact UInt16.toNat_lt _
  · intro h
    obtain ⟨hlow, hhigh⟩ := seriesSumMv_bounds ctx.latestReading
    have havg := avgCellMv_toNat h
    have hsmall := ctx.latestReading.smallestMv_le_largestMv
    have hlarge := largestMv_lt ctx.latestReading
    have haverage : ctx.latestReading.smallestMv ≤ (avgCellMv ctx.latestReading).toNat ∧
        (avgCellMv ctx.latestReading).toNat ≤ ctx.latestReading.largestMv := by
      simp only [bmsCellCount] at hlow hhigh havg
      omega
    refine ⟨socSection_soc ctx tickMs, ?_, haverage, SocEstimator.ocvLookupPercentX2_mono ?_,
      SocEstimator.ocvLookupPercentX2_mono ?_⟩
    · rw [hpack, packMv_toNat, Nat.mod_eq_of_lt h]
    · rw [UInt16.le_iff_toNat_le, UInt16.toNat_ofNat']
      omega
    · rw [UInt16.le_iff_toNat_le, UInt16.toNat_ofNat']
      omega

/-- Five cells of 13108 mV make a pack of 4 mV. -/
theorem pack_voltage_wraps :
    ∃ ctx : AppContext, (ctx.socSection 0).status.packVoltageMv = 4 ∧
      seriesSumMv ctx.latestReading = 65540 ∧ ¬ Measures ctx 0 := by
  refine ⟨{ init with latestReading := .uniform 13108 25 (-200) }, by decide, by decide, ?_⟩
  rw [measures_iff]
  decide

end AppContext

/-- Where the tick time of the soc task goes in its iterations: waiting for the lock, from
there to the estimator call, from the call to the sleep, and beyond the requested sleep. -/
structure SocSchedule where
  startMs : ℕ
  lockMs : ℕ → ℕ
  bodyMs : ℕ → ℕ
  restMs : ℕ → ℕ
  oversleepMs : ℕ → ℕ

namespace SocSchedule

variable (s : SocSchedule)

def wakeMs : ℕ → ℕ
  | 0 => s.startMs
  | n + 1 => wakeMs n + s.lockMs n + s.bodyMs n + s.restMs n +
      (taskPeriodSocMs.toNat + s.oversleepMs n)

def callMs (n : ℕ) : ℕ := s.wakeMs n + s.lockMs n + s.bodyMs n

def overheadMs (n : ℕ) : ℕ :=
  s.restMs n + s.oversleepMs n + s.lockMs (n + 1) + s.bodyMs (n + 1)

theorem callMs_succ (n : ℕ) :
    s.callMs (n + 1) = s.callMs n + taskPeriodSocMs.toNat + s.overheadMs n := by
  simp only [callMs, wakeMs, overheadMs]
  omega

theorem callMs_le {i j : ℕ} (h : i ≤ j) : s.callMs i ≤ s.callMs j := by
  induction j, h using Nat.le_induction with
  | base => exact le_rfl
  | succ j _ ih =>
    rw [callMs_succ]
    omega

/-- The intervals passed fall short of the elapsed time by the overhead. -/
theorem sum_dt (readings : ℕ → CellReading) {i j : ℕ} (h : i ≤ j) :
    ∑ k ∈ Finset.Ioc i j, (AppContext.socCall (readings k)).dtMs.toNat +
      ∑ k ∈ Finset.Ico i j, s.overheadMs k = s.callMs j - s.callMs i := by
  induction j, h using Nat.le_induction with
  | base => simp
  | succ j hij ih =>
    have hle := s.callMs_le hij
    have hdt : (AppContext.socCall (readings (j + 1))).dtMs.toNat = taskPeriodSocMs.toNat := rfl
    rw [Finset.sum_Ioc_succ_top hij, Finset.sum_Ico_succ_top hij, hdt, callMs_succ]
    omega

/-- Coulomb counting integrates exactly the time that passed as long as no tick time
passes outside the requested sleep. -/
theorem integrates_elapsed_iff (readings : ℕ → CellReading) (n : ℕ) :
    (∀ i j, i < j → j < n → ∑ k ∈ Finset.Ioc i j, (AppContext.socCall (readings k)).dtMs.toNat =
      s.callMs j - s.callMs i) ↔
    ∀ k, k + 1 < n → s.restMs k = 0 ∧ s.oversleepMs k = 0 ∧ s.lockMs (k + 1) = 0 ∧
      s.bodyMs (k + 1) = 0 := by
  constructor
  · intro h k hk
    have hone := h k (k + 1) (Nat.lt_succ_self k) hk
    have hsum := s.sum_dt readings (Nat.le_add_right k 1)
    rw [Nat.Ico_succ_singleton, Finset.sum_singleton] at hsum
    have hzero : s.overheadMs k = 0 := by omega
    simp only [overheadMs] at hzero
    omega
  · intro h i j hij hj
    have hsum := s.sum_dt readings hij.le
    have hzero : ∑ k ∈ Finset.Ico i j, s.overheadMs k = 0 := by
      refine Finset.sum_eq_zero fun k hk ↦ ?_
      obtain ⟨hr, ho, hl, hb⟩ := h k (by have hlt := (Finset.mem_Ico.mp hk).2; omega)
      simp only [overheadMs, hr, ho, hl, hb, Nat.add_zero]
    rw [hzero] at hsum
    exact hsum

def busy : SocSchedule where
  startMs := 0
  lockMs := fun _ ↦ 0
  bodyMs := fun _ ↦ 0
  restMs := fun _ ↦ 1
  oversleepMs := fun _ ↦ 0

theorem busy_loses_time : busy.callMs 1 - busy.callMs 0 = 501 ∧
    ∑ _k ∈ Finset.Ioc 0 1, (AppContext.socCall .nominal).dtMs.toNat = 500 := by
  decide

end SocSchedule

end BmsFirmware
