import BmsFirmware.FaultInvariant
import BmsFirmware.Readings

namespace BmsFirmware

open Config Lib.Tick Lib.Extremes

instance (r : CellReading) : Decidable r.SoftZone := inferInstanceAs (Decidable (_ ∨ _))

namespace FaultManager

section Evaluated

attribute [local irreducible] evaluateHardFaults

variable {fm fm' : FaultManager} {r : CellReading} {nowMs : UInt32}

theorem Evaluated.activeFaults (he : Evaluated fm r nowMs fm') (hs : fm.state ≠ .shutdown) :
    fm'.activeFaults = (evaluateHardFaults r).1 := by
  cases he with
  | latched hl => exact absurd hl hs
  | faulty _ hf => exact enterFault_activeFaults _ _
  | calm _ hf => exact hf.symm
  | firstOk _ hf => exact hf.symm
  | recovered _ hf => exact hf.symm
  | waiting _ hf => exact hf.symm

/-- Only a calm reading leaves the manager in NORMAL or WARNING, and in which of
the two depends on the reading alone. -/
theorem Evaluated.calm_reading (he : Evaluated fm r nowMs fm')
    (hs : fm'.state = .normal ∨ fm'.state = .warning) :
    (evaluateHardFaults r).1 = 0 ∧ fm'.state = calmState r := by
  cases he with
  | latched hl => simp [hl] at hs
  | faulty _ hf =>
    rw [enterFault_state] at hs
    split_ifs at hs <;> simp at hs
  | calm _ hf => exact ⟨hf, rfl⟩
  | firstOk hfault hf => simp [hfault] at hs
  | recovered _ hf => exact ⟨hf, rfl⟩
  | waiting hfault hf => simp [hfault] at hs

theorem Evaluated.calm_state (he : Evaluated fm r nowMs fm') (hf : (evaluateHardFaults r).1 = 0)
    (hs : fm.state = .normal ∨ fm.state = .warning) : fm'.state = calmState r := by
  cases he with
  | latched hl => simp [hl] at hs
  | faulty _ hne => exact absurd hf hne
  | calm _ _ => rfl
  | firstOk hfault _ => simp [hfault] at hs
  | recovered _ _ => rfl
  | waiting hfault _ => simp [hfault] at hs

theorem calmState_eq (hf : (evaluateHardFaults r).1 = 0) :
    calmState r = if r.SoftZone then .warning else .normal := by
  simp only [calmState, warning_iff r hf]

theorem evaluate_permute (fm : FaultManager) (r : CellReading) (nowMs : UInt32)
    (cells temps : Equiv.Perm (Fin bmsCellCount)) :
    evaluate fm (r.permute cells temps) nowMs = evaluate fm r nowMs := by
  simp only [evaluate, hardFaults_permute]

end Evaluated

/-- What an evaluation makes of a reading, in every state that calls can reach short of
SHUTDOWN: the exact fault bits, the exact soft zone, and no regard to the order of the cells. -/
theorem classification_exact (h : List FaultCall) (hs : (after h).state ≠ .shutdown)
    (r : CellReading) (nowMs : UInt32) :
    (evaluate (after h) r nowMs).activeFaults =
      faultMask (decide (∃ i, 4200 ≤ r.millivolts i)) (decide (∃ i, r.millivolts i ≤ 3000))
        (decide (∃ i, 60 ≤ r.celsius i)) (decide (150 ≤ r.largestMv - r.smallestMv)) ∧
    (evaluate (after h) r nowMs).activeFaults &&& faultBitTaskWatchdog = 0 ∧
    ((evaluate (after h) r nowMs).activeFaults = 0 →
      (after h).state = .normal ∨ (after h).state = .warning →
      (evaluate (after h) r nowMs).state = if r.SoftZone then .warning else .normal) ∧
    ∀ cells temps, evaluate (after h) (r.permute cells temps) nowMs =
      evaluate (after h) r nowMs := by
  have he := evaluate_evaluated (after h) r nowMs fun hs ↦ ((after_inv h).watchdog hs).1
  have hactive := he.activeFaults hs
  refine ⟨?_, ?_, fun hzero hcalm ↦ ?_, evaluate_permute (after h) r nowMs⟩
  · rw [hactive, evaluateHardFaults_fst]
    simp only [overvoltage_iff, undervoltage_iff, overtemp_iff_celsius, imbalance_iff]
    rfl
  · rw [hactive]
    exact hard_faults_watchdog r
  · have hf := hactive.symm.trans hzero
    rw [he.calm_state hf hcalm, calmState_eq hf]

def scattered : CellReading where
  cellMv := #v[3700, 4250, 2950, 3700, 3700]
  cellTempC := #v[25, 25, 25, 25, 61]
  packCurrentCa := 0

def nearlyFull : CellReading := .uniform 4160 25 0

def softRun : List FaultCall := [⟨10, .evaluate nearlyFull⟩, ⟨0, .evaluate .nominal⟩]

theorem classification_exact_scattered : (after softRun).state = .warning ∧
    (evaluate (after softRun) scattered 20).activeFaults = faultMask true true true true ∧
    (evaluate (after softRun) nearlyFull 20).state = .warning := by
  have hstate : (after softRun).state = .warning := by decide
  have hs : (after softRun).state ≠ .shutdown := by decide
  have hfaults := (classification_exact softRun hs scattered 20).1
  have hsoft := (classification_exact softRun hs nearlyFull 20).2.2.1 (by decide) (.inr hstate)
  exact ⟨hstate, hfaults.trans (by decide), hsoft.trans (by decide)⟩

end FaultManager

/-- One reading after another, with no cell further away than 19 mV and no sensor
further away than 5 degrees. -/
structure CellReading.Near (r r' : CellReading) : Prop where
  cells : ∀ i, r'.millivolts i ≤ r.millivolts i + 19 ∧ r.millivolts i ≤ r'.millivolts i + 19
  temps : ∀ i, r'.celsius i ≤ r.celsius i + 5 ∧ r.celsius i ≤ r'.celsius i + 5

theorem CellReading.Near.spreadMv_le {r r' : CellReading} (h : r.Near r') :
    r'.spreadMv ≤ r.spreadMv + 38 := by
  obtain ⟨i, hi⟩ := le_greatest_iff.mp (le_refl (greatest r'.millivolts))
  obtain ⟨j, hj⟩ := least_le_iff.mp (le_refl (least r'.millivolts))
  have hmax := le_greatest (f := r.millivolts) i
  have hmin := least_le (f := r.millivolts) j
  have hi' := (h.cells i).1
  have hj' := (h.cells j).2
  simp only [spreadMv, largestMv, smallestMv]
  omega

namespace FaultManager

/-- The soft zone is wider than one such step. -/
theorem hardFaults_of_near {r r' : CellReading} (hsoft : ¬ r.SoftZone)
    (hnear : r.Near r') : (evaluateHardFaults r').1 = 0 := by
  simp only [CellReading.SoftZone, not_or, not_exists, not_le] at hsoft
  obtain ⟨hhigh, hlow, hwarm, hspread⟩ := hsoft
  refine (hardFaults_eq_zero_iff r').mpr ⟨fun i ↦ ?_, fun i ↦ ?_, ?_⟩
  · have hi := hnear.cells i
    have hh := hhigh i
    have hl := hlow i
    omega
  · have hi := (hnear.temps i).1
    have hw := hwarm i
    omega
  · have hle := hnear.spreadMv_le
    omega

theorem normal_then_near (h : List FaultCall) {t t' : ℕ} {r r' : CellReading}
    (hs : (after (⟨t, .evaluate r⟩ :: h)).state = .normal) (hnear : r.Near r') :
    (after (⟨t', .evaluate r'⟩ :: ⟨t, .evaluate r⟩ :: h)).state = .normal ∨
      (after (⟨t', .evaluate r'⟩ :: ⟨t, .evaluate r⟩ :: h)).state = .warning := by
  obtain ⟨hf, hcalm⟩ := (after_evaluated h t r).calm_reading (.inl hs)
  have hsoft : ¬ r.SoftZone := by
    intro hsoft
    rw [hs, calmState_eq hf, if_pos hsoft] at hcalm
    cases hcalm
  have hf' := hardFaults_of_near hsoft hnear
  rw [(after_evaluated _ t' r').calm_state hf' (.inl hs)]
  exact calmState_or r'

def evaluations (h : List (ℕ × CellReading)) : List FaultCall :=
  h.map fun c ↦ ⟨c.1, .evaluate c.2⟩

/-- A gradual drift is announced: from NORMAL a small step leads to NORMAL or WARNING,
and in a run of small steps every FAULT entry after the first evaluation is made from
WARNING. -/
theorem drift_announced :
    (∀ (h : List (ℕ × CellReading)) (t t' : ℕ) (r r' : CellReading),
      (after (evaluations ((t, r) :: h))).state = .normal → r.Near r' →
      (after (evaluations ((t', r') :: (t, r) :: h))).state = .normal ∨
        (after (evaluations ((t', r') :: (t, r) :: h))).state = .warning) ∧
    ∀ h : List (ℕ × CellReading),
      (∀ c c' h₁, c' :: c :: h₁ <:+ h → c.2.Near c'.2) →
      ∀ c c' h₁, c' :: c :: h₁ <:+ h →
        (after (evaluations (c :: h₁))).state ≠ .fault →
        (after (evaluations (c :: h₁))).state ≠ .shutdown →
        (after (evaluations (c' :: c :: h₁))).state = .fault ∨
          (after (evaluations (c' :: c :: h₁))).state = .shutdown →
        (after (evaluations (c :: h₁))).state = .warning := by
  refine ⟨fun h t t' r r' hs hnear ↦ normal_then_near _ hs hnear, ?_⟩
  intro h hsmall c c' h₁ hsuf hfault hshut hentry
  cases hs : (after (evaluations (c :: h₁))).state with
  | warning => rfl
  | fault => exact absurd hs hfault
  | shutdown => exact absurd hs hshut
  | normal =>
    have hnext : (after (evaluations (c' :: c :: h₁))).state = .normal ∨
        (after (evaluations (c' :: c :: h₁))).state = .warning :=
      normal_then_near (evaluations h₁) hs (hsmall c c' h₁ hsuf)
    rcases hnext with hn | hn <;> rcases hentry with he | he <;> rw [hn] at he <;> cases he

theorem drift_announced_nominal :
    (after (evaluations [(0, .nominal)])).state = .normal ∧
    CellReading.nominal.Near (.uniform 3681 30 0) ∧
    ((after (evaluations [(100, .uniform 3681 30 0), (0, .nominal)])).state = .normal ∨
      (after (evaluations [(100, .uniform 3681 30 0), (0, .nominal)])).state = .warning) := by
  have hs : (after (evaluations [(0, .nominal)])).state = .normal := by decide
  have hnear : CellReading.nominal.Near (.uniform 3681 30 0) := ⟨by decide, by decide⟩
  exact ⟨hs, hnear, drift_announced.1 [] 0 100 .nominal _ hs hnear⟩

end FaultManager

end BmsFirmware
