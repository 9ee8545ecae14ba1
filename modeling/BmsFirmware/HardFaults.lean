import BmsFirmware.FaultManager

namespace BmsFirmware

open Config

namespace FaultManager

variable (r : CellReading)

def Overvoltage : Prop := ∃ i : Fin bmsCellCount, bmsCellOvervoltageMv ≤ r.cellMv.get i

def Undervoltage : Prop := ∃ i : Fin bmsCellCount, r.cellMv.get i ≤ bmsCellUndervoltageMv

def Overtemp : Prop := ∃ i : Fin bmsCellCount, bmsOvertempC ≤ r.cellTempC.get i

def Imbalance : Prop := bmsCellImbalanceMv ≤ (scanCells r).maxMv - (scanCells r).minMv

instance : Decidable (Overvoltage r) := inferInstanceAs (Decidable (∃ _, _))
instance : Decidable (Undervoltage r) := inferInstanceAs (Decidable (∃ _, _))
instance : Decidable (Overtemp r) := inferInstanceAs (Decidable (∃ _, _))
instance : Decidable (Imbalance r) := inferInstanceAs (Decidable (_ ≤ _))

def flag (set : Bool) (bit : UInt16) : UInt16 := if set then bit else 0

def faultMask (overvoltage undervoltage overtemp imbalance : Bool) : UInt16 :=
  flag overvoltage faultBitOvervoltage ||| flag undervoltage faultBitUndervoltage |||
    flag overtemp faultBitOvertemp ||| flag imbalance faultBitCellImbalance

theorem flag_or (a b : Bool) (bit : UInt16) : flag (a || b) bit = flag a bit ||| flag b bit := by
  cases a <;> cases b <;> simp [flag]

section

variable (atLimit inMargin : Bool) (bit : UInt16) (s : HardFaultScan)

@[simp] theorem checkLimit_faults :
    (checkLimit atLimit inMargin bit s).faults = s.faults ||| flag atLimit bit := by
  cases atLimit <;> cases inMargin <;> simp [checkLimit, flag]

@[simp] theorem checkLimit_minMv : (checkLimit atLimit inMargin bit s).minMv = s.minMv := by
  cases atLimit <;> cases inMargin <;> rfl

@[simp] theorem checkLimit_maxMv : (checkLimit atLimit inMargin bit s).maxMv = s.maxMv := by
  cases atLimit <;> cases inMargin <;> rfl

@[simp] theorem checkLimit_maxTemp : (checkLimit atLimit inMargin bit s).maxTemp = s.maxTemp := by
  cases atLimit <;> cases inMargin <;> rfl

end

theorem scanCell_faults (s : HardFaultScan) (i : Fin bmsCellCount) :
    (scanCell r s i).faults = s.faults |||
      flag (decide (bmsCellOvervoltageMv ≤ r.cellMv.get i)) faultBitOvervoltage |||
      flag (decide (r.cellMv.get i ≤ bmsCellUndervoltageMv)) faultBitUndervoltage := by
  simp only [scanCell, checkLimit_faults]

theorem le_scanCell_maxTemp (t : Int16) (s : HardFaultScan) (i : Fin bmsCellCount) :
    t ≤ (scanCell r s i).maxTemp ↔ t ≤ s.maxTemp ∨ t ≤ r.cellTempC.get i := by
  simp only [scanCell, checkLimit_maxTemp]
  split_ifs with h <;> simp only [gt_iff_lt, Int16.lt_iff_toInt_lt, Int16.le_iff_toInt_le] at * <;>
    omega

theorem scan_faults (is : List (Fin bmsCellCount)) (s : HardFaultScan) :
    (is.foldl (scanCell r) s).faults = s.faults |||
      flag (is.any fun i ↦ decide (bmsCellOvervoltageMv ≤ r.cellMv.get i)) faultBitOvervoltage |||
      flag (is.any fun i ↦ decide (r.cellMv.get i ≤ bmsCellUndervoltageMv))
        faultBitUndervoltage := by
  induction is generalizing s with
  | nil => simp [flag]
  | cons i is ih =>
    rw [List.foldl_cons, ih, scanCell_faults, List.any_cons, List.any_cons, flag_or, flag_or]
    ac_rfl

theorem le_scan_maxTemp (t : Int16) (is : List (Fin bmsCellCount)) (s : HardFaultScan) :
    t ≤ (is.foldl (scanCell r) s).maxTemp ↔ t ≤ s.maxTemp ∨ ∃ i ∈ is, t ≤ r.cellTempC.get i := by
  induction is generalizing s with
  | nil => simp
  | cons i is ih =>
    rw [List.foldl_cons, ih, le_scanCell_maxTemp]
    simp [or_assoc]

theorem scanCells_faults : (scanCells r).faults =
    flag (decide (Overvoltage r)) faultBitOvervoltage |||
      flag (decide (Undervoltage r)) faultBitUndervoltage := by
  have hany (p : Fin bmsCellCount → Prop) [DecidablePred p] :
      ((List.finRange bmsCellCount).any fun i ↦ decide (p i)) = decide (∃ i, p i) := by
    rw [Bool.eq_iff_iff]
    simp
  unfold scanCells
  rw [scan_faults, hany, hany, UInt16.zero_or]
  rfl

theorem overtemp_iff : bmsOvertempC ≤ (scanCells r).maxTemp ↔ Overtemp r := by
  unfold scanCells Overtemp
  rw [le_scan_maxTemp]
  constructor
  · intro hfirst
    rcases hfirst with h | ⟨i, _, h⟩
    · exact ⟨0, h⟩
    · exact ⟨i, h⟩
  · intro hcell
    obtain ⟨i, h⟩ := hcell
    exact .inr ⟨i, List.mem_finRange i, h⟩

theorem evaluateHardFaults_fst : (evaluateHardFaults r).1 =
    faultMask (decide (Overvoltage r)) (decide (Undervoltage r)) (decide (Overtemp r))
      (decide (Imbalance r)) := by
  have hot : decide (Overtemp r) = decide (bmsOvertempC ≤ (scanCells r).maxTemp) :=
    decide_eq_decide.mpr (overtemp_iff r).symm
  simp only [evaluateHardFaults, faultMask, hot, ← scanCells_faults, checkLimit_faults,
    checkLimit_minMv, checkLimit_maxMv]
  rfl

theorem getSeverity_mask (ov uv ot im : Bool) :
    getSeverity (faultMask ov uv ot im) =
      if ov || ot then .d else if uv then .c else if im then .b else .qm := by
  revert ov uv ot im
  decide

theorem faultMask_eq_zero (ov uv ot im : Bool) :
    faultMask ov uv ot im = 0 ↔ (ov || uv || ot || im) = false := by
  revert ov uv ot im
  decide

theorem faultMask_watchdog (ov uv ot im : Bool) :
    faultMask ov uv ot im &&& faultBitTaskWatchdog = 0 := by
  revert ov uv ot im
  decide

theorem severity_hard_faults :
    BmsAsil.d.code ≤ (getSeverity (evaluateHardFaults r).1).code ↔ Overvoltage r ∨ Overtemp r := by
  rw [evaluateHardFaults_fst, getSeverity_mask]
  by_cases hov : Overvoltage r
  · simp [hov]
  by_cases hot : Overtemp r
  · simp [hot]
  simp only [hov, hot, decide_false, Bool.or_self, Bool.false_eq_true, if_false, or_self, iff_false]
  split_ifs <;> decide

theorem hard_faults_of_severe (h : Overvoltage r ∨ Overtemp r) : (evaluateHardFaults r).1 ≠ 0 := by
  rw [evaluateHardFaults_fst, ne_eq, faultMask_eq_zero]
  rcases h with h | h <;> simp [h]

theorem hard_faults_watchdog : (evaluateHardFaults r).1 &&& faultBitTaskWatchdog = 0 := by
  rw [evaluateHardFaults_fst]
  exact faultMask_watchdog _ _ _ _

end FaultManager

end BmsFirmware
