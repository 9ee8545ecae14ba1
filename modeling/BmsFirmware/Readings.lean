import BmsFirmware.HardFaults
import BmsFirmware.Lib.Extremes

namespace BmsFirmware

open Config Lib.Extremes

namespace CellReading

def millivolts (r : CellReading) (i : Fin bmsCellCount) : ℕ := (r.cellMv.get i).toNat

def celsius (r : CellReading) (i : Fin bmsCellCount) : ℤ := (r.cellTempC.get i).toInt

theorem cells_neZero : NeZero bmsCellCount := ⟨Nat.succ_ne_zero 4⟩

attribute [local instance] cells_neZero

def largestMv (r : CellReading) : ℕ := greatest r.millivolts

def smallestMv (r : CellReading) : ℕ := least r.millivolts

def spreadMv (r : CellReading) : ℕ := r.largestMv - r.smallestMv

theorem smallestMv_le_largestMv (r : CellReading) : r.smallestMv ≤ r.largestMv :=
  least_le_greatest

def permute (r : CellReading) (cells temps : Equiv.Perm (Fin bmsCellCount)) : CellReading where
  cellMv := Vector.ofFn fun i ↦ r.cellMv.get (cells i)
  cellTempC := Vector.ofFn fun i ↦ r.cellTempC.get (temps i)
  packCurrentCa := r.packCurrentCa

theorem permute_millivolts (r : CellReading) (cells temps : Equiv.Perm (Fin bmsCellCount)) :
    (r.permute cells temps).millivolts = r.millivolts ∘ cells := by
  funext i
  exact congrArg UInt16.toNat (Vector.getElem_ofFn i.isLt)

theorem permute_celsius (r : CellReading) (cells temps : Equiv.Perm (Fin bmsCellCount)) :
    (r.permute cells temps).celsius = r.celsius ∘ temps := by
  funext i
  exact congrArg Int16.toInt (Vector.getElem_ofFn i.isLt)

theorem permute_spreadMv (r : CellReading) (cells temps : Equiv.Perm (Fin bmsCellCount)) :
    (r.permute cells temps).spreadMv = r.spreadMv := by
  simp only [spreadMv, largestMv, smallestMv, permute_millivolts, greatest_comp, least_comp]

def SoftZone (r : CellReading) : Prop :=
  (∃ i, 4150 ≤ r.millivolts i) ∨ (∃ i, r.millivolts i ≤ 3050) ∨ (∃ i, 55 ≤ r.celsius i) ∨
    112 ≤ r.spreadMv

end CellReading

namespace FaultManager

variable (r : CellReading)

theorem scanCell_maxMv (s : HardFaultScan) (i : Fin bmsCellCount) :
    (scanCell r s i).maxMv.toNat = max s.maxMv.toNat (r.millivolts i) := by
  simp only [scanCell, checkLimit_maxMv, CellReading.millivolts]
  split_ifs with h <;> rw [gt_iff_lt, UInt16.lt_iff_toNat_lt] at h <;> omega

theorem scanCell_minMv (s : HardFaultScan) (i : Fin bmsCellCount) :
    (scanCell r s i).minMv.toNat = min s.minMv.toNat (r.millivolts i) := by
  simp only [scanCell, checkLimit_minMv, CellReading.millivolts]
  split_ifs with h <;> rw [UInt16.lt_iff_toNat_lt] at h <;> omega

theorem scanCells_maxMv : (scanCells r).maxMv.toNat = r.largestMv := by
  have hseed : r.cellMv[0].toNat = r.millivolts 0 := rfl
  exact foldl_max_eq_greatest (fun s : HardFaultScan ↦ s.maxMv.toNat) (scanCell_maxMv r) hseed

theorem scanCells_minMv : (scanCells r).minMv.toNat = r.smallestMv := by
  have hseed : r.cellMv[0].toNat = r.millivolts 0 := rfl
  exact foldl_min_eq_least (fun s : HardFaultScan ↦ s.minMv.toNat) (scanCell_minMv r) hseed

/-- The code subtracts the extremes in 16 bits, which is exact. -/
theorem scanCells_spread : ((scanCells r).maxMv - (scanCells r).minMv).toNat = r.spreadMv := by
  have hle : (scanCells r).minMv ≤ (scanCells r).maxMv := by
    rw [UInt16.le_iff_toNat_le, scanCells_minMv, scanCells_maxMv]
    exact r.smallestMv_le_largestMv
  rw [UInt16.toNat_sub_of_le _ _ hle, scanCells_minMv, scanCells_maxMv]
  rfl

theorem overvoltage_iff : Overvoltage r ↔ ∃ i, 4200 ≤ r.millivolts i := by
  simp only [Overvoltage, UInt16.le_iff_toNat_le]
  rfl

theorem undervoltage_iff : Undervoltage r ↔ ∃ i, r.millivolts i ≤ 3000 := by
  simp only [Undervoltage, UInt16.le_iff_toNat_le]
  rfl

theorem overtemp_iff_celsius : Overtemp r ↔ ∃ i, 60 ≤ r.celsius i := by
  simp only [Overtemp, Int16.le_iff_toInt_le]
  rfl

theorem imbalance_iff : Imbalance r ↔ 150 ≤ r.spreadMv := by
  rw [Imbalance, UInt16.le_iff_toNat_le, scanCells_spread]
  rfl

@[simp] theorem checkLimit_warning (atLimit inMargin : Bool) (bit : UInt16) (s : HardFaultScan) :
    (checkLimit atLimit inMargin bit s).warning = (s.warning || !atLimit && inMargin) := by
  cases atLimit <;> cases inMargin <;> simp [checkLimit]

def cellWarns (mv : UInt16) : Bool :=
  !decide (bmsCellOvervoltageMv ≤ mv) &&
      decide (bmsCellOvervoltageMv - bmsWarningMarginMv ≤ mv) ||
    !decide (mv ≤ bmsCellUndervoltageMv) &&
      decide (mv ≤ bmsCellUndervoltageMv + bmsWarningMarginMv)

theorem scan_warning (is : List (Fin bmsCellCount)) (s : HardFaultScan) :
    (is.foldl (scanCell r) s).warning =
      (s.warning || is.any fun i ↦ cellWarns (r.cellMv.get i)) := by
  induction is generalizing s with
  | nil => simp
  | cons i is ih =>
    rw [List.foldl_cons, ih]
    simp only [scanCell, checkLimit_warning, List.any_cons, cellWarns, ge_iff_le, Bool.or_assoc]

theorem scanCells_warning : (scanCells r).warning = true ↔
    ∃ i, cellWarns (r.cellMv.get i) = true := by
  unfold scanCells
  rw [scan_warning]
  simp

theorem cellWarns_iff (mv : UInt16) : cellWarns mv = true ↔
    4150 ≤ mv.toNat ∧ mv.toNat < 4200 ∨ 3000 < mv.toNat ∧ mv.toNat ≤ 3050 := by
  have hhigh : bmsCellOvervoltageMv - bmsWarningMarginMv ≤ mv ↔ 4150 ≤ mv.toNat :=
    UInt16.le_iff_toNat_le
  have hlow : mv ≤ bmsCellUndervoltageMv + bmsWarningMarginMv ↔ mv.toNat ≤ 3050 :=
    UInt16.le_iff_toNat_le
  have hov : bmsCellOvervoltageMv ≤ mv ↔ 4200 ≤ mv.toNat := UInt16.le_iff_toNat_le
  have huv : mv ≤ bmsCellUndervoltageMv ↔ mv.toNat ≤ 3000 := UInt16.le_iff_toNat_le
  simp only [cellWarns, Bool.or_eq_true, Bool.and_eq_true, Bool.not_eq_true',
    decide_eq_false_iff_not, decide_eq_true_iff, hhigh, hlow, hov, huv]
  omega

theorem warm_iff : bmsOvertempC - 5 ≤ (scanCells r).maxTemp ↔ ∃ i, 55 ≤ r.celsius i := by
  unfold scanCells
  rw [le_scan_maxTemp]
  simp only [Int16.le_iff_toInt_le]
  constructor
  · rintro (h | ⟨i, _, h⟩)
    · exact ⟨0, h⟩
    · exact ⟨i, h⟩
  · rintro ⟨i, h⟩
    exact .inr ⟨i, List.mem_finRange i, h⟩

theorem spread_warns_iff :
    bmsCellImbalanceMv * 3 / 4 ≤ (scanCells r).maxMv - (scanCells r).minMv ↔
      112 ≤ r.spreadMv := by
  rw [UInt16.le_iff_toNat_le, scanCells_spread]
  rfl

theorem evaluateHardFaults_snd : (evaluateHardFaults r).2 = true ↔
    (∃ i, cellWarns (r.cellMv.get i) = true) ∨ (¬ Overtemp r ∧ ∃ i, 55 ≤ r.celsius i) ∨
      (¬ Imbalance r ∧ 112 ≤ r.spreadMv) := by
  simp only [evaluateHardFaults, checkLimit_warning, checkLimit_minMv, checkLimit_maxMv,
    Bool.or_eq_true, Bool.and_eq_true, Bool.not_eq_true', decide_eq_false_iff_not,
    decide_eq_true_iff, ge_iff_le, scanCells_warning, overtemp_iff, warm_iff, spread_warns_iff]
  exact or_assoc

theorem hardFaults_eq_zero_iff : (evaluateHardFaults r).1 = 0 ↔
    (∀ i, 3000 < r.millivolts i ∧ r.millivolts i < 4200) ∧ (∀ i, r.celsius i < 60) ∧
      r.spreadMv < 150 := by
  rw [evaluateHardFaults_fst, faultMask_eq_zero]
  simp only [Bool.or_eq_false_iff, decide_eq_false_iff_not, overvoltage_iff, undervoltage_iff,
    overtemp_iff_celsius, imbalance_iff, not_exists, not_le, forall_and, and_assoc]
  tauto

theorem warning_iff (hf : (evaluateHardFaults r).1 = 0) :
    (evaluateHardFaults r).2 = true ↔ r.SoftZone := by
  obtain ⟨hcells, htemps, hspread⟩ := (hardFaults_eq_zero_iff r).mp hf
  have hcell (i : Fin bmsCellCount) : cellWarns (r.cellMv.get i) = true ↔
      4150 ≤ r.millivolts i ∨ r.millivolts i ≤ 3050 := by
    have hin := hcells i
    refine (cellWarns_iff _).trans ?_
    unfold CellReading.millivolts at hin ⊢
    omega
  have hot : ¬ Overtemp r := by
    rw [overtemp_iff_celsius]
    rintro ⟨i, hi⟩
    exact absurd hi (htemps i).not_ge
  have him : ¬ Imbalance r := by
    rw [imbalance_iff]
    exact hspread.not_ge
  simp only [evaluateHardFaults_snd, hcell, exists_or, hot, him, not_false_eq_true, true_and,
    CellReading.SoftZone]
  exact or_assoc

theorem hardFaults_permute (cells temps : Equiv.Perm (Fin bmsCellCount)) :
    evaluateHardFaults (r.permute cells temps) = evaluateHardFaults r := by
  have hmv (p : ℕ → Prop) : (∃ i, p ((r.permute cells temps).millivolts i)) ↔
      ∃ i, p (r.millivolts i) := by
    rw [CellReading.permute_millivolts]
    exact cells.exists_congr_left.trans (by simp)
  have htemp (p : ℤ → Prop) : (∃ i, p ((r.permute cells temps).celsius i)) ↔
      ∃ i, p (r.celsius i) := by
    rw [CellReading.permute_celsius]
    exact temps.exists_congr_left.trans (by simp)
  have hov : Overvoltage (r.permute cells temps) ↔ Overvoltage r := by
    rw [overvoltage_iff, overvoltage_iff, hmv (4200 ≤ ·)]
  have huv : Undervoltage (r.permute cells temps) ↔ Undervoltage r := by
    rw [undervoltage_iff, undervoltage_iff, hmv (· ≤ 3000)]
  have hot : Overtemp (r.permute cells temps) ↔ Overtemp r := by
    rw [overtemp_iff_celsius, overtemp_iff_celsius, htemp (60 ≤ ·)]
  have him : Imbalance (r.permute cells temps) ↔ Imbalance r := by
    rw [imbalance_iff, imbalance_iff, CellReading.permute_spreadMv]
  have hwarns : (∃ i, cellWarns ((r.permute cells temps).cellMv.get i) = true) ↔
      ∃ i, cellWarns (r.cellMv.get i) = true := by
    simp only [cellWarns_iff]
    exact hmv fun mv ↦ 4150 ≤ mv ∧ mv < 4200 ∨ 3000 < mv ∧ mv ≤ 3050
  refine Prod.ext ?_ (Bool.eq_iff_iff.mpr ?_)
  · simp only [evaluateHardFaults_fst, hov, huv, hot, him]
  · rw [evaluateHardFaults_snd, evaluateHardFaults_snd, hwarns, hot, him, htemp (55 ≤ ·),
      CellReading.permute_spreadMv]

end FaultManager

end BmsFirmware
