import BmsFirmware.HardFaults
import BmsFirmware.Lib.Tick

namespace BmsFirmware

open Config Lib.Tick

inductive FaultOp
  | evaluate (reading : CellReading)
  | reportWatchdogFault
deriving DecidableEq, Repr

/-- A call of one of the two operations at a real time; the tick it is given is
that time modulo `2 ^ 32`. -/
structure FaultCall where
  timeMs : ℕ
  op : FaultOp
deriving DecidableEq, Repr

namespace FaultManager

def call (fm : FaultManager) (c : FaultCall) : FaultManager :=
  match c.op with
  | .evaluate reading => evaluate fm reading (tick c.timeMs)
  | .reportWatchdogFault => reportWatchdogFault fm (tick c.timeMs)

def after (h : List FaultCall) : FaultManager := h.foldr (fun c fm ↦ fm.call c) init

@[simp] theorem after_cons (c : FaultCall) (h : List FaultCall) :
    after (c :: h) = (after h).call c := rfl

variable (fm : FaultManager) (r : CellReading) (nowMs : UInt32)

@[simp] theorem recordFaultEntry_activeFaults :
    (recordFaultEntry fm nowMs).activeFaults = fm.activeFaults := by
  unfold recordFaultEntry
  split_ifs <;> rfl

@[simp] theorem recordFaultEntry_severity :
    (recordFaultEntry fm nowMs).severity = fm.severity := by
  unfold recordFaultEntry
  split_ifs <;> rfl

@[simp] theorem recordFaultEntry_watchdogFaultUntilMs :
    (recordFaultEntry fm nowMs).watchdogFaultUntilMs = fm.watchdogFaultUntilMs := by
  unfold recordFaultEntry
  split_ifs <;> rfl

theorem recordFaultEntry_count : (recordFaultEntry fm nowMs).faultEntryCount =
    if fm.faultEntryCount < faultLatchCount then fm.faultEntryCount + 1
    else fm.faultEntryCount := by
  unfold recordFaultEntry
  split_ifs <;> rfl

def recorded : FaultManager := if fm.state = .fault then fm else recordFaultEntry fm nowMs

def trips : Bool :=
  decide (BmsAsil.d.code ≤ fm.severity.code) || latchShouldTrip (recorded fm nowMs) nowMs

theorem enterFault_eq : enterFault fm nowMs =
    { recorded fm nowMs with state := if trips fm nowMs then .shutdown else .fault } := by
  by_cases hs : fm.state = .fault
  · have hsame : { fm with state := BmsState.fault } = fm := by rw [← hs]
    have hr : recorded fm nowMs = fm := if_pos hs
    simp only [enterFault, trips, hr, hs, ne_eq, not_true_eq_false, if_false, ge_iff_le,
      Bool.or_eq_true, decide_eq_true_iff]
    split_ifs
    · rfl
    · exact hsame.symm
  · have hr : recorded fm nowMs = recordFaultEntry fm nowMs := if_neg hs
    have hlatch : latchShouldTrip { recordFaultEntry fm nowMs with state := .fault } nowMs =
        latchShouldTrip (recordFaultEntry fm nowMs) nowMs := rfl
    rw [hr, trips, hr, ← hlatch, ← recordFaultEntry_severity fm nowMs, enterFault]
    simp only [hs, ne_eq, not_false_eq_true, if_true, ge_iff_le, Bool.or_eq_true,
      decide_eq_true_iff]
    split_ifs <;> rfl

@[simp] theorem enterFault_activeFaults : (enterFault fm nowMs).activeFaults = fm.activeFaults := by
  rw [enterFault_eq, recorded]
  split_ifs <;> simp

@[simp] theorem enterFault_severity : (enterFault fm nowMs).severity = fm.severity := by
  rw [enterFault_eq, recorded]
  split_ifs <;> simp

@[simp] theorem enterFault_watchdogFaultUntilMs :
    (enterFault fm nowMs).watchdogFaultUntilMs = fm.watchdogFaultUntilMs := by
  rw [enterFault_eq, recorded]
  split_ifs <;> simp

theorem enterFault_state :
    (enterFault fm nowMs).state = if trips fm nowMs then .shutdown else .fault := by
  rw [enterFault_eq]

attribute [local irreducible] evaluateHardFaults

def calmState : BmsState := if (evaluateHardFaults r).2 then .warning else .normal

/-- Everything one evaluation can do, as long as the watchdog timer is 0. -/
inductive Evaluated : FaultManager → Prop
  | latched (hs : fm.state = .shutdown) : Evaluated fm
  | faulty (hs : fm.state ≠ .shutdown) (hf : (evaluateHardFaults r).1 ≠ 0) :
      Evaluated { enterFault
        { fm with
          activeFaults := (evaluateHardFaults r).1
          severity := getSeverity (evaluateHardFaults r).1 } nowMs with lastOkTickMs := 0 }
  | calm (hs : fm.state = .normal ∨ fm.state = .warning) (hf : (evaluateHardFaults r).1 = 0) :
      Evaluated { fm with state := calmState r, activeFaults := 0, severity := .qm }
  | firstOk (hs : fm.state = .fault) (hf : (evaluateHardFaults r).1 = 0)
      (hl : fm.lastOkTickMs = 0) :
      Evaluated { fm with activeFaults := 0, severity := .qm, lastOkTickMs := nowMs }
  | recovered (hs : fm.state = .fault) (hf : (evaluateHardFaults r).1 = 0)
      (hl : fm.lastOkTickMs ≠ 0) (hd : faultDebounceMs ≤ nowMs - fm.lastOkTickMs) :
      Evaluated
        { fm with state := calmState r, activeFaults := 0, severity := .qm, lastOkTickMs := 0 }
  | waiting (hs : fm.state = .fault) (hf : (evaluateHardFaults r).1 = 0)
      (hl : fm.lastOkTickMs ≠ 0) (hd : ¬ faultDebounceMs ≤ nowMs - fm.lastOkTickMs) :
      Evaluated { fm with activeFaults := 0, severity := .qm }

theorem evaluate_evaluated (hu : fm.state ≠ .shutdown → fm.watchdogFaultUntilMs = 0) :
    Evaluated fm r nowMs (evaluate fm r nowMs) := by
  by_cases hs : fm.state = .shutdown
  · simp only [evaluate, hs, if_true]
    exact .latched hs
  have hw : watchdogActive fm nowMs = false := by simp [watchdogActive, hu hs]
  simp only [evaluate, hs, hw, if_false, Bool.false_eq_true, UInt16.or_zero]
  by_cases hf : (evaluateHardFaults r).1 = 0
  · have hq : getSeverity 0 = .qm := by decide
    simp only [hf, hq, ne_eq, not_true_eq_false, if_false]
    by_cases hfault : fm.state = .fault
    · simp only [hfault, if_true]
      by_cases hl : fm.lastOkTickMs = 0
      · simpa only [hl, if_true, hfault] using Evaluated.firstOk hfault hf hl
      · simp only [hl, if_false]
        by_cases hd : faultDebounceMs ≤ nowMs - fm.lastOkTickMs
        · simpa only [ge_iff_le, hd, if_true, calmState] using
            Evaluated.recovered (r := r) hfault hf hl hd
        · simpa only [ge_iff_le, hd, if_false, hfault] using Evaluated.waiting hfault hf hl hd
    · simp only [hfault, if_false]
      refine .calm ?_ hf
      cases h : fm.state <;> simp_all
  · simp only [ne_eq, hf, not_false_eq_true, if_true]
    exact .faulty hs hf

theorem enterFault_count :
    (enterFault fm nowMs).faultEntryCount = (recorded fm nowMs).faultEntryCount := by
  rw [enterFault_eq]

theorem recorded_count : (recorded fm nowMs).faultEntryCount =
    if fm.state = .fault then fm.faultEntryCount
    else if fm.faultEntryCount < faultLatchCount then fm.faultEntryCount + 1
    else fm.faultEntryCount := by
  unfold recorded
  split_ifs with h
  · rfl
  · exact (recordFaultEntry_count fm nowMs).trans (if_pos ‹_›)
  · exact (recordFaultEntry_count fm nowMs).trans (if_neg ‹_›)

@[simp] theorem recorded_activeFaults :
    (recorded fm nowMs).activeFaults = fm.activeFaults := by
  unfold recorded
  split_ifs <;> simp

@[simp] theorem recorded_severity : (recorded fm nowMs).severity = fm.severity := by
  unfold recorded
  split_ifs <;> simp

theorem not_severe (h : trips fm nowMs = false) : fm.severity.code < BmsAsil.d.code := by
  simp only [trips, Bool.or_eq_false_iff, decide_eq_false_iff_not, UInt8.not_le] at h
  exact h.1

theorem or_and_self (m bit : UInt16) : (m ||| bit) &&& bit = bit := by
  apply UInt16.toBitVec_inj.mp
  ext i hi
  simp +contextual

theorem getSeverity_watchdog (m : UInt16) : getSeverity (m ||| faultBitTaskWatchdog) = .d := by
  have hbit : (m ||| faultBitTaskWatchdog) &&& faultBitTaskWatchdog ≠ 0 := by
    rw [or_and_self]
    decide
  have hworst (worst : BmsAsil) : (if worst.code < BmsAsil.d.code then .d else worst) = .d := by
    cases worst <;> rfl
  have hc : ¬ BmsAsil.d.code < BmsAsil.c.code := by decide
  have hb : ¬ BmsAsil.d.code < BmsAsil.b.code := by decide
  simp only [getSeverity, faultSeverities, List.foldl_cons, List.foldl_nil, hbit, ne_eq,
    not_false_eq_true, true_and, hworst, hc, hb, and_false, if_false]

theorem reportWatchdogFault_eq (hs : fm.state ≠ .shutdown) :
    ∃ g, g.activeFaults = fm.activeFaults ||| faultBitTaskWatchdog ∧ g.severity = .d ∧
      g.state = fm.state ∧ g.faultEntryCount = fm.faultEntryCount ∧
      reportWatchdogFault fm nowMs = { recorded g nowMs with state := .shutdown } := by
  refine ⟨{ fm with
    watchdogFaultUntilMs := nowMs + faultDebounceMs
    activeFaults := fm.activeFaults ||| faultBitTaskWatchdog
    severity := .d }, rfl, rfl, rfl, rfl, ?_⟩
  simp only [reportWatchdogFault, hs, if_false, getSeverity_watchdog, enterFault_eq]
  rw [if_pos (by simp [trips])]

/-- What holds of the eight fields after every run of calls. -/
structure Inv : Prop where
  severity_eq : fm.severity = getSeverity fm.activeFaults
  count_nonneg : 0 ≤ fm.faultEntryCount
  count_le : fm.faultEntryCount ≤ faultLatchCount
  calm : fm.state = .normal ∨ fm.state = .warning → fm.activeFaults = 0 ∧ fm.lastOkTickMs = 0
  fault : fm.state = .fault → 1 ≤ fm.faultEntryCount ∧
    fm.severity.code < BmsAsil.d.code ∧ (fm.activeFaults ≠ 0 → fm.lastOkTickMs = 0)
  shutdown : fm.state = .shutdown → fm.activeFaults ≠ 0
  watchdog : fm.state ≠ .shutdown →
    fm.watchdogFaultUntilMs = 0 ∧ fm.activeFaults &&& faultBitTaskWatchdog = 0

theorem init_inv : Inv init := by
  constructor <;> decide

variable {fm}

theorem recorded_count_bounds (fm : FaultManager) (nowMs : UInt32) (h₀ : 0 ≤ fm.faultEntryCount)
    (h₁ : fm.faultEntryCount ≤ faultLatchCount)
    (hf : fm.state = .fault → 1 ≤ fm.faultEntryCount) :
    1 ≤ (recorded fm nowMs).faultEntryCount ∧
      (recorded fm nowMs).faultEntryCount ≤ faultLatchCount := by
  rw [recorded_count]
  split_ifs with hs hc
  · exact ⟨hf hs, h₁⟩
  · exact ⟨by omega, by omega⟩
  · simp only [faultLatchCount] at *
    omega

theorem calmState_or : calmState r = .normal ∨ calmState r = .warning := by
  unfold calmState
  split_ifs
  · exact .inr rfl
  · exact .inl rfl

@[simp] theorem calmState_ne_fault : calmState r ≠ .fault := by
  rcases calmState_or r with hc | hc <;> simp [hc]

@[simp] theorem calmState_ne_shutdown : calmState r ≠ .shutdown := by
  rcases calmState_or r with hc | hc <;> simp [hc]

theorem Inv.quiet {g : FaultManager} (h : Inv fm) (hw : fm.state ≠ .shutdown)
    (hactive : g.activeFaults = 0) (hsev : g.severity = .qm)
    (hcount : g.faultEntryCount = fm.faultEntryCount)
    (huntil : g.watchdogFaultUntilMs = fm.watchdogFaultUntilMs)
    (hstate : g.state = .fault ∧ fm.state = .fault ∨ g.state = calmState r ∧ g.lastOkTickMs = 0) :
    Inv g := by
  have hq : BmsAsil.qm = getSeverity 0 := by decide
  have hcalm : g.state = .fault ∨
      g.lastOkTickMs = 0 ∧ (g.state = .normal ∨ g.state = .warning) := by
    rcases hstate with hs | ⟨hs, hl⟩
    · exact .inl hs.1
    · exact .inr ⟨hl, hs ▸ calmState_or r⟩
  constructor
  · rw [hsev, hactive, hq]
  · exact hcount ▸ h.count_nonneg
  · exact hcount ▸ h.count_le
  · intro hs
    refine ⟨hactive, ?_⟩
    rcases hcalm with hc | hc
    · simp [hc] at hs
    · exact hc.1
  · intro hs
    have hfault : fm.state = .fault := by
      rcases hstate with hf | ⟨hc, _⟩
      · exact hf.2
      · exact absurd (hc.symm.trans hs) (calmState_ne_fault r)
    refine ⟨hcount ▸ (h.fault hfault).1, ?_, fun ha ↦ absurd hactive ha⟩
    rw [hsev]
    decide
  · intro hs
    rcases hcalm with hc | ⟨_, hc | hc⟩ <;> simp [hc] at hs
  · intro _
    rw [huntil, hactive]
    exact ⟨(h.watchdog hw).1, by decide⟩

theorem Inv.evaluate (h : Inv fm) : Inv (evaluate fm r nowMs) := by
  have he := evaluate_evaluated fm r nowMs (fun hs ↦ (h.watchdog hs).1)
  generalize FaultManager.evaluate fm r nowMs = fm' at he ⊢
  cases he with
  | latched hs => exact h
  | faulty hs hf =>
    have hcount := recorded_count_bounds
      { fm with
        activeFaults := (evaluateHardFaults r).1
        severity := getSeverity (evaluateHardFaults r).1 } nowMs
      h.count_nonneg h.count_le (fun hs ↦ (h.fault hs).1)
    rw [← enterFault_count] at hcount
    constructor <;> dsimp only
    · rw [enterFault_severity, enterFault_activeFaults]
    · omega
    · exact hcount.2
    · rw [enterFault_state]
      split_ifs <;> simp
    · rw [enterFault_state]
      intro hs'
      refine ⟨hcount.1, ?_, fun _ ↦ rfl⟩
      rw [enterFault_severity]
      apply not_severe _ nowMs
      by_contra ht
      simp [ht] at hs'
    · intro _
      rw [enterFault_activeFaults]
      exact hf
    · intro _
      rw [enterFault_activeFaults, enterFault_watchdogFaultUntilMs]
      exact ⟨(h.watchdog hs).1, hard_faults_watchdog r⟩
  | calm hs hf =>
    have hw : fm.state ≠ .shutdown := by rcases hs with hs | hs <;> simp [hs]
    exact h.quiet r hw rfl rfl rfl rfl (.inr ⟨rfl, (h.calm hs).2⟩)
  | firstOk hs hf hl => exact h.quiet r (by simp [hs]) rfl rfl rfl rfl (.inl ⟨hs, hs⟩)
  | recovered hs hf hl hd => exact h.quiet r (by simp [hs]) rfl rfl rfl rfl (.inr ⟨rfl, rfl⟩)
  | waiting hs hf hl hd => exact h.quiet r (by simp [hs]) rfl rfl rfl rfl (.inl ⟨hs, hs⟩)

theorem Inv.reportWatchdogFault (h : Inv fm) : Inv (reportWatchdogFault fm nowMs) := by
  by_cases hs : fm.state = .shutdown
  · rwa [FaultManager.reportWatchdogFault, if_pos hs]
  · obtain ⟨g, hactive, hsev, hstate, hcount, he⟩ := reportWatchdogFault_eq fm nowMs hs
    have hbounds := recorded_count_bounds g nowMs (hcount ▸ h.count_nonneg)
      (hcount ▸ h.count_le) (fun hf ↦ hcount ▸ (h.fault (hstate ▸ hf)).1)
    rw [he]
    constructor <;> simp only [recorded_activeFaults, recorded_severity, hactive, hsev,
      reduceCtorEq, or_self, false_implies, not_true_eq_false, ne_eq]
    · exact (getSeverity_watchdog _).symm
    · omega
    · exact hbounds.2
    · intro _ hz
      exact absurd (UInt16.or_eq_zero_iff.mp hz).2 (by decide)

theorem reportWatchdogFault_state (fm : FaultManager) (nowMs : UInt32) :
    (FaultManager.reportWatchdogFault fm nowMs).state = .shutdown := by
  by_cases hs : fm.state = .shutdown
  · rwa [FaultManager.reportWatchdogFault, if_pos hs]
  · obtain ⟨g, _, _, _, _, he⟩ := reportWatchdogFault_eq fm nowMs hs
    rw [he]

theorem Inv.evaluate_watchdog_bit (h : Inv fm)
    (hbit : fm.activeFaults &&& faultBitTaskWatchdog = 0) :
    (FaultManager.evaluate fm r nowMs).activeFaults &&& faultBitTaskWatchdog = 0 := by
  have he := evaluate_evaluated fm r nowMs (fun hs ↦ (h.watchdog hs).1)
  generalize FaultManager.evaluate fm r nowMs = fm' at he ⊢
  cases he with
  | latched hs => exact hbit
  | faulty hs hf =>
    rw [enterFault_activeFaults]
    exact hard_faults_watchdog r
  | _ => exact UInt16.zero_and

theorem Inv.call (h : Inv fm) (c : FaultCall) : Inv (fm.call c) := by
  unfold FaultManager.call
  cases c.op with
  | evaluate reading => exact h.evaluate reading _
  | reportWatchdogFault => exact h.reportWatchdogFault _

theorem after_inv (h : List FaultCall) : Inv (after h) := by
  induction h with
  | nil => exact init_inv
  | cons c h ih => exact ih.call c

theorem after_evaluated (h : List FaultCall) (t : ℕ) (r : CellReading) :
    Evaluated (after h) r (tick t) (after (⟨t, .evaluate r⟩ :: h)) :=
  evaluate_evaluated (after h) r (tick t) fun hs ↦ ((after_inv h).watchdog hs).1

/-- The invariant in every state that any calls at any times can reach, and
with it the deadness of the timer comparison in `evaluate`. -/
theorem fault_manager_invariant (h : List FaultCall) :
    Inv (after h) ∧ ((after h).state ≠ .shutdown →
      ∀ nowMs, ¬ nowMs < (after h).watchdogFaultUntilMs) := by
  refine ⟨after_inv h, fun hs nowMs ↦ ?_⟩
  rw [((after_inv h).watchdog hs).1]
  exact UInt32.not_lt_zero

end FaultManager

end BmsFirmware
