import BmsFirmware.Classification
import BmsFirmware.Discharge
import BmsFirmware.FirmwareRuns

namespace BmsFirmware

open Config FaultManager Lib.Extremes Lib.History Lib.Tick

def CellScenario.outcome : CellScenario → BmsState × UInt16
  | .nominal => (.normal, 0)
  | .overvoltage => (.shutdown, faultBitOvervoltage ||| faultBitCellImbalance)
  | .undervoltage => (.fault, faultBitUndervoltage ||| faultBitCellImbalance)
  | .overtemp => (.shutdown, faultBitOvertemp)
  | .cellImbalance => (.fault, faultBitCellImbalance)

/-- A reading that takes a manager without a history to `v`. -/
structure Shows (v : BmsState × UInt16) (r : CellReading) : Prop where
  faults : (evaluateHardFaults r).1 = v.2
  calm : v.2 = 0 → v.1 = .normal ∧ ¬ r.SoftZone
  faulty : v.2 ≠ 0 → v.1 = if Overvoltage r ∨ Overtemp r then .shutdown else .fault

theorem le_spreadMv_iff {r : CellReading} {b : ℕ} (hb : 0 < b) :
    b ≤ r.spreadMv ↔ ∃ i j, r.millivolts j + b ≤ r.millivolts i := by
  unfold CellReading.spreadMv CellReading.largestMv CellReading.smallestMv
  constructor
  · intro h
    obtain ⟨i, hi⟩ := le_greatest_iff.mp (le_refl (greatest r.millivolts))
    obtain ⟨j, hj⟩ := least_le_iff.mp (le_refl (least r.millivolts))
    exact ⟨i, j, by omega⟩
  · rintro ⟨i, j, h⟩
    have hi := le_greatest (f := r.millivolts) i
    have hj := least_le (f := r.millivolts) j
    omega

namespace Firmware

section Model

variable {scenario : CellScenario} {n : ℕ}

/-- Until the ten minutes are over. -/
theorem modelAfter_millivolts (hn : n ≤ 6009) (i : Fin bmsCellCount) :
    (modelAfter scenario n).reading.millivolts i = CellModel.level scenario i (n / 10) := by
  have hdrift : (modelAfter scenario n).driftMv.toNat = n / 10 := by
    have hthousand : UInt32.toNat 1000 = 1000 := rfl
    have hperiod : taskPeriodSensorMs.toNat = 100 := rfl
    rw [CellModel.driftMv, UInt32.toNat_toUInt16, UInt32.toNat_div, modelAfter, hperiod,
      UInt32.toNat_ofNat', Nat.mod_eq_of_lt (show n * 100 < 2 ^ 32 by omega), hthousand]
    omega
  have hget : (((modelAfter scenario n).baseMv.get i).toNat : ℤ) = 3700 :=
    congrArg (fun mv : UInt16 ↦ (mv.toNat : ℤ)) (Vector.getElem_replicate i.isLt)
  obtain ⟨hle, hlevel⟩ := CellModel.scenarioMv_level scenario i (n / 10)
  rw [CellModel.reading_millivolts, hget, hdrift]
  exact (CellModel.clampMv_toNat hle).trans hlevel

theorem modelAfter_celsius (i : Fin bmsCellCount) : (modelAfter scenario n).reading.celsius i =
    if scenario = .overtemp ∧ i = 1 then 65 else 25 := by
  have hget : (modelAfter scenario n).reading.celsius i =
      (CellModel.scenarioTempC scenario i).toInt :=
    congrArg Int16.toInt (Vector.getElem_ofFn i.isLt)
  rw [hget]
  clear hget
  revert i
  cases scenario <;> decide

theorem modelAfter_overvoltage (hn : n ≤ 6009) :
    Overvoltage (modelAfter scenario n).reading ↔ scenario = .overvoltage := by
  simp only [overvoltage_iff, modelAfter_millivolts hn]
  constructor
  · rintro ⟨i, hi⟩
    cases scenario <;> simp only [CellModel.level] at hi ⊢ <;> (try split_ifs at hi) <;> omega
  · rintro rfl
    exact ⟨0, by simp [CellModel.level]⟩

theorem modelAfter_undervoltage (hn : n ≤ 6009) :
    Undervoltage (modelAfter scenario n).reading ↔ scenario = .undervoltage := by
  simp only [undervoltage_iff, modelAfter_millivolts hn]
  constructor
  · rintro ⟨i, hi⟩
    cases scenario <;> simp only [CellModel.level] at hi ⊢ <;> (try split_ifs at hi) <;> omega
  · rintro rfl
    exact ⟨0, by simp [CellModel.level]⟩

theorem modelAfter_overtemp :
    Overtemp (modelAfter scenario n).reading ↔ scenario = .overtemp := by
  simp only [overtemp_iff_celsius, modelAfter_celsius]
  constructor
  · rintro ⟨i, hi⟩
    split_ifs at hi with h
    · exact h.1
    · omega
  · rintro rfl
    exact ⟨1, by simp⟩

/-- Up to 152 mV the cells that are left alone drift together. -/
theorem modelAfter_spread {b : ℕ} (hn : n ≤ 6009) (hb : 0 < b) (hb' : b ≤ 150) :
    b ≤ (modelAfter scenario n).reading.spreadMv ↔
      scenario = .overvoltage ∨ scenario = .undervoltage ∨ scenario = .cellImbalance := by
  rw [le_spreadMv_iff hb]
  simp only [modelAfter_millivolts hn]
  constructor
  · rintro ⟨i, j, h⟩
    cases scenario <;> simp [CellModel.level] at h ⊢ <;> omega
  · rintro (rfl | rfl | rfl)
    · exact ⟨0, 1, by simp [CellModel.level]; omega⟩
    · exact ⟨1, 0, by simp [CellModel.level]; omega⟩
    · exact ⟨2, 1, by simp [CellModel.level]; omega⟩

theorem modelAfter_shows (scenario : CellScenario) (hn : n ≤ 6009) :
    Shows scenario.outcome (modelAfter scenario n).reading := by
  have hfaults : (evaluateHardFaults (modelAfter scenario n).reading).1 = scenario.outcome.2 := by
    rw [evaluateHardFaults_fst]
    simp only [modelAfter_overvoltage hn, modelAfter_undervoltage hn, modelAfter_overtemp,
      imbalance_iff, modelAfter_spread hn (show 0 < 150 by decide) le_rfl]
    cases scenario <;> decide
  refine ⟨hfaults, fun hzero ↦ ?_, fun hne ↦ ?_⟩
  · obtain rfl : scenario = .nominal := by
      cases scenario <;> first | rfl | exact absurd hzero (by decide)
    refine ⟨rfl, ?_⟩
    unfold CellReading.SoftZone
    rw [modelAfter_spread hn (show 0 < 112 by decide) (by decide)]
    simp only [modelAfter_millivolts hn, modelAfter_celsius, CellModel.level]
    rintro (⟨_, h⟩ | ⟨_, h⟩ | ⟨_, h⟩ | h)
    · omega
    · omega
    · simp at h
    · simp at h
  · simp only [modelAfter_overvoltage hn, modelAfter_overtemp]
    cases scenario <;> first | rfl | exact absurd rfl hne

end Model

section Phase

open Lib.Threads

/-- State and faults of the manager behind these commits if all their readings show `v`: they
stay as they are until an evaluation meets a published reading, or the watchdog reports. -/
def phase (v : BmsState × UInt16) : List (Commit sig .ctx) → BmsState × UInt16
  | [] => (.normal, 0)
  | x :: past =>
    match x.thread, x.alone with
    | .fault, _ => if (phase v past).1 = .shutdown ∨ readings past = [] then phase v past else v
    | .watchdog, true =>
      if (phase v past).1 = .shutdown then phase v past
      else (.shutdown, (phase v past).2 ||| faultBitTaskWatchdog)
    | _, _ => phase v past

def Fresh (fm : FaultManager) : Prop :=
  fm.state ≠ .shutdown → fm.faultEntryCount = if fm.state = .fault then 1 else 0

structure InPhase (v : BmsState × UInt16) (commits : List (Commit sig .ctx)) (ctx : AppContext) :
    Prop where
  reading : ctx.latestReading = (readings commits).headD AppContext.init.latestReading
  state : ctx.faultMgr.state = (phase v commits).1
  faults : ctx.faultMgr.activeFaults = (phase v commits).2
  fresh : Fresh ctx.faultMgr
  course : ctx.faultMgr.state = .shutdown ∨ ctx.faultMgr.state = .normal ∨
    ctx.faultMgr.state = v.1 ∧ readings commits ≠ []

attribute [local irreducible] evaluateHardFaults

variable {v : BmsState × UInt16} {startMs : ℕ} {past : List (Commit sig .ctx)}
  {ctx ctx' : AppContext} {scenario : CellScenario} {k : List SimEvent} {a : Simulator}

/-- The first entry is too early for the latch. -/
theorem enterFault_first (fm : FaultManager) (nowMs : UInt32)
    (hcount : fm.faultEntryCount = if fm.state = .fault then 1 else 0) :
    (enterFault fm nowMs).state =
      (if BmsAsil.d.code ≤ fm.severity.code then .shutdown else .fault) ∧
      (enterFault fm nowMs).faultEntryCount = 1 := by
  have hone : (recorded fm nowMs).faultEntryCount = 1 := by
    rw [recorded_count, hcount]
    split_ifs <;> first | rfl | exact absurd (by decide) ‹¬ (0 : ℤ) < faultLatchCount›
  have hlatch : latchShouldTrip (recorded fm nowMs) nowMs = false := by
    rw [latchShouldTrip, hone]
    rfl
  refine ⟨?_, (enterFault_count fm nowMs).trans hone⟩
  rw [enterFault_state, trips, hlatch, Bool.or_false]
  simp only [decide_eq_true_eq]

theorem evaluate_shows {fm : FaultManager} {r : CellReading} (nowMs : UInt32) (hi : Inv fm)
    (hs : fm.state ≠ .shutdown) (hfresh : Fresh fm) (hstate : fm.state = .normal ∨ fm.state = v.1)
    (hr : Shows v r) : (fm.evaluate r nowMs).state = v.1 ∧
      (fm.evaluate r nowMs).activeFaults = v.2 ∧ Fresh (fm.evaluate r nowMs) := by
  have he := evaluate_evaluated fm r nowMs fun hs ↦ (hi.watchdog hs).1
  have hactive := (he.activeFaults hs).trans hr.faults
  have hcount := hfresh hs
  generalize fm.evaluate r nowMs = fm' at he hactive ⊢
  by_cases hf : (evaluateHardFaults r).1 = 0
  · obtain ⟨hv, hsoft⟩ := hr.calm (hr.faults.symm.trans hf)
    have hnormal : fm.state = .normal := by
      rwa [hv, or_self] at hstate
    have hcalm : fm'.state = .normal := by
      rw [he.calm_state hf (.inl hnormal), calmState_eq hf, if_neg hsoft]
    refine ⟨hcalm.trans hv.symm, hactive, fun _ ↦ ?_⟩
    rw [hcalm]
    rw [hnormal] at hcount
    cases he with
    | latched hl => exact absurd hl hs
    | faulty _ hne => exact absurd hf hne
    | _ => exact hcount
  · cases he with
    | latched hl => exact absurd hl hs
    | faulty _ hne =>
      obtain ⟨hstate', hcount'⟩ := enterFault_first
        { fm with
          activeFaults := (evaluateHardFaults r).1
          severity := getSeverity (evaluateHardFaults r).1 } nowMs hcount
      simp only [severity_hard_faults] at hstate'
      refine ⟨hstate'.trans (hr.faulty (hr.faults ▸ hf)).symm, hactive, fun hns ↦ ?_⟩
      have hfault := hstate'
      split_ifs at hfault
      · exact absurd hfault hns
      · exact hcount'.trans (if_pos hfault).symm
    | _ => exact absurd ‹(evaluateHardFaults r).1 = 0› hf

theorem init_shows : Shows (.normal, 0) AppContext.init.latestReading where
  faults := by decide +kernel
  calm := fun _ ↦ ⟨rfl, by decide +kernel⟩
  faulty := fun h ↦ absurd rfl h

theorem InPhase.congr {x : Commit sig .ctx} (hp : InPhase v past ctx)
    (hread : readings (x :: past) = readings past) (hphase : phase v (x :: past) = phase v past)
    (hreading : ctx'.latestReading = ctx.latestReading) (hmgr : ctx'.faultMgr = ctx.faultMgr) :
    InPhase v (x :: past) ctx' := by
  obtain ⟨hr, hs, hf, hfresh, hc⟩ := hp
  rw [← hread] at hr hc
  rw [← hphase] at hs hf
  rw [← hmgr] at hs hf hfresh hc
  exact ⟨hreading.trans hr, hs, hf, hfresh, hc⟩

/-- An evaluation by the fault task. -/
theorem InPhase.evaluate {nowMs : UInt32} (hp : InPhase v past ctx)
    (hi : Inv ctx.faultMgr) (hv : ∀ r ∈ readings past, Shows v r)
    (hreading : ctx'.latestReading = ctx.latestReading)
    (hmgr : ctx'.faultMgr = ctx.faultMgr.evaluate ctx.latestReading nowMs) :
    InPhase v (⟨.fault, false, ctx'⟩ :: past) ctx' := by
  have hphase : phase v (⟨.fault, false, ctx'⟩ :: past) =
      if (phase v past).1 = .shutdown ∨ readings past = [] then phase v past else v := rfl
  by_cases hs : ctx.faultMgr.state = .shutdown
  · rw [if_pos (.inl (hp.state ▸ hs))] at hphase
    refine hp.congr rfl hphase hreading (hmgr.trans ?_)
    simp only [FaultManager.evaluate, hs, if_true]
  · have hread := hp.reading
    cases hpub : readings past with
    | nil =>
      rw [if_pos (.inr hpub)] at hphase
      have hnormal : ctx.faultMgr.state = .normal := by
        rcases hp.course with hc | hc | ⟨_, hc⟩
        · exact absurd hc hs
        · exact hc
        · exact absurd hpub hc
      rw [hpub, List.headD_nil] at hread
      rw [hread] at hmgr
      obtain ⟨hstate, hactive, hfresh⟩ :=
        evaluate_shows nowMs hi hs hp.fresh (.inl hnormal) init_shows
      rw [← hmgr] at hstate hactive hfresh
      refine ⟨hreading.trans hp.reading, ?_, ?_, hfresh, .inr (.inl hstate)⟩
      · rw [hphase, ← hp.state, hnormal, hstate]
      · rw [hphase, ← hp.faults, (hi.calm (.inl hnormal)).1, hactive]
    | cons r rest =>
      have hne : readings past ≠ [] := by simp [hpub]
      rw [if_neg (not_or.mpr ⟨hp.state ▸ hs, hne⟩)] at hphase
      have hcourse : ctx.faultMgr.state = .normal ∨ ctx.faultMgr.state = v.1 :=
        (hp.course.resolve_left hs).imp_right And.left
      rw [hpub, List.headD_cons] at hread
      rw [hread] at hmgr
      obtain ⟨hstate, hactive, hfresh⟩ :=
        evaluate_shows nowMs hi hs hp.fresh hcourse (hv r (hpub ▸ List.mem_cons_self))
      rw [← hmgr] at hstate hactive hfresh
      refine ⟨hreading.trans hp.reading, ?_, ?_, hfresh, .inr (.inr ⟨hstate, hne⟩)⟩
      · rw [hphase, hstate]
      · rw [hphase, hactive]

/-- A report by the watchdog task. -/
theorem InPhase.report {nowMs : UInt32} (hp : InPhase v past ctx)
    (hreading : ctx'.latestReading = ctx.latestReading)
    (hmgr : ctx'.faultMgr = ctx.faultMgr.reportWatchdogFault nowMs) :
    InPhase v (⟨.watchdog, true, ctx'⟩ :: past) ctx' := by
  have hphase : phase v (⟨.watchdog, true, ctx'⟩ :: past) =
      if (phase v past).1 = .shutdown then phase v past
      else (.shutdown, (phase v past).2 ||| faultBitTaskWatchdog) := rfl
  by_cases hs : ctx.faultMgr.state = .shutdown
  · rw [if_pos (hp.state ▸ hs)] at hphase
    refine hp.congr rfl hphase hreading (hmgr.trans ?_)
    simp only [reportWatchdogFault, hs, if_true]
  · rw [if_neg (hp.state ▸ hs)] at hphase
    obtain ⟨g, hactive, _, _, _, hg⟩ := reportWatchdogFault_eq ctx.faultMgr nowMs hs
    have hstate : ctx'.faultMgr.state = .shutdown := by rw [hmgr, hg]
    refine ⟨hreading.trans hp.reading, ?_, ?_, fun hn ↦ absurd hstate hn, .inl hstate⟩
    · rw [hphase, hstate]
    · rw [hphase, hmgr, hg, ← hp.faults]
      exact (recorded_activeFaults g nowMs).trans hactive

/-- The manager in the closed loop, whatever the order of the actions. -/
theorem run_inPhase (hr : Run Simulator.step (.start startMs scenario) k a)
    (hv : ∀ r ∈ readings a.commits, Shows v r) : InPhase v a.commits a.sys.ctx := by
  induction hr with
  | start => exact ⟨rfl, rfl, rfl, fun _ ↦ rfl, .inr (.inl rfl)⟩
  | @next k a a' d hs hd ih =>
    cases Simulator.step_stepped hd with
    | sys e sys _ _ _ he =>
      have hi := System.run_faultMgr (Simulator.run_sys hs)
      obtain ⟨t, x⟩ := e
      obtain ⟨_, hst⟩ := System.step_stepped he
      cases hst with
      | sensorSection reading =>
        obtain ⟨_, hstate, hfaults, hfresh, hcourse⟩ :=
          ih fun r hr ↦ hv r (List.mem_cons_of_mem reading hr)
        refine ⟨rfl, hstate, hfaults, hfresh, hcourse.imp_right (Or.imp_right fun hc ↦ ?_)⟩
        exact ⟨hc.1, List.cons_ne_nil reading (readings a.commits)⟩
      | faultSection now hn => exact (ih hv).evaluate hi hv rfl rfl
      | watchdogReport now hw => exact (ih hv).report rfl rfl
      | socSection => exact (ih hv).congr rfl rfl rfl rfl
      | canSection => exact (ih hv).congr rfl rfl rfl rfl
      | watchdogCopy => exact (ih hv).congr rfl rfl rfl rfl
      | _ => exact ih hv
    | _ => exact ih hv

theorem lastState_changes (seen : List (BmsState × UInt16)) :
    lastState (changes seen) = lastState seen := by
  induction seen with
  | nil => rfl
  | cons x seen ih =>
    rw [changes]
    split_ifs with hx
    · exact ih.trans hx.symm
    · rfl

/-- The changes of state that the fault task has seen when the manager is in the phase `p`,
the latest first: at most the one to `v` and the one by a report of the watchdog. -/
inductive Course (v : BmsState × UInt16) : BmsState × UInt16 → List (BmsState × UInt16) → Prop
  | normal : Course v (.normal, 0) []
  | outcome (hv : v.1 = .fault ∨ v.1 = .shutdown) : Course v v [v]
  | early : Course v (.shutdown, faultBitTaskWatchdog) []
  | earlySeen : Course v (.shutdown, faultBitTaskWatchdog) [(.shutdown, faultBitTaskWatchdog)]
  | late (hv : v.1 = .fault) : Course v (.shutdown, v.2 ||| faultBitTaskWatchdog) [v]
  | lateSeen (hv : v.1 = .fault) : Course v (.shutdown, v.2 ||| faultBitTaskWatchdog)
      [(.shutdown, v.2 ||| faultBitTaskWatchdog), v]

variable {p : BmsState × UInt16} {l : List (BmsState × UInt16)}

/-- The fault task looks at the phase once more. -/
theorem Course.seen (hc : Course v p l) : Course v p (if p.1 = lastState l then l else p :: l) := by
  cases hc with
  | normal => exact .normal
  | outcome hv => exact (if_pos rfl).symm ▸ .outcome hv
  | early => exact .earlySeen
  | earlySeen => exact .earlySeen
  | late hv =>
    have hne : BmsState.shutdown ≠ lastState [v] := fun hs ↦ nomatch hs.trans hv
    rw [if_neg hne]
    exact .lateSeen hv
  | lateSeen hv => exact .lateSeen hv

/-- The evaluation that leads to `v`. -/
theorem Course.judge (hc : Course v p l) (hp : p.1 ≠ .shutdown)
    (hv : v = (.normal, 0) ∨ v.1 = .fault ∨ v.1 = .shutdown) :
    Course v v (if v.1 = lastState l then l else v :: l) := by
  cases hc with
  | normal =>
    rcases hv with rfl | hv
    · exact .normal
    · have hne : v.1 ≠ lastState [] := by
        rcases hv with hv | hv <;> rw [hv] <;> exact nofun
      rw [if_neg hne]
      exact .outcome hv
  | outcome hv => exact (if_pos rfl).symm ▸ .outcome hv
  | _ => exact absurd rfl hp

theorem Course.report (hc : Course v p l) (hp : p.1 ≠ .shutdown) :
    Course v (.shutdown, p.2 ||| faultBitTaskWatchdog) l := by
  cases hc with
  | normal => exact .early
  | outcome hv => exact .late (hv.resolve_right hp)
  | _ => exact absurd rfl hp

theorem run_course (hr : Run Simulator.step (.start startMs scenario) k a)
    (hv : ∀ r ∈ readings a.commits, Shows v r)
    (hv' : v = (.normal, 0) ∨ v.1 = .fault ∨ v.1 = .shutdown) :
    Course v (phase v a.commits) (changes (findings a.commits)) := by
  induction hr with
  | start => exact .normal
  | @next k a a' d hs hd ih =>
    have hphase := run_inPhase (hs.next hd) hv
    cases Simulator.step_stepped hd with
    | sys e sys _ _ _ he =>
      obtain ⟨t, x⟩ := e
      cases x with
      | sensorSection reading =>
        obtain ⟨_, hst⟩ := System.step_stepped he
        cases hst
        exact ih fun r hr ↦ hv r (List.mem_cons_of_mem reading hr)
      | faultSection =>
        have hfind : findings (⟨.fault, false, sys.ctx⟩ :: a.commits) =
            (sys.ctx.faultMgr.state, sys.ctx.faultMgr.activeFaults) :: findings a.commits := rfl
        have hstep : phase v (⟨.fault, false, sys.ctx⟩ :: a.commits) =
            if (phase v a.commits).1 = .shutdown ∨ readings a.commits = [] then
              phase v a.commits
            else v := rfl
        change Course v (phase v (⟨.fault, false, sys.ctx⟩ :: a.commits))
          (changes (findings (⟨.fault, false, sys.ctx⟩ :: a.commits)))
        have hstate : sys.ctx.faultMgr.state =
            (phase v (⟨.fault, false, sys.ctx⟩ :: a.commits)).1 := hphase.state
        have hfaults : sys.ctx.faultMgr.activeFaults =
            (phase v (⟨.fault, false, sys.ctx⟩ :: a.commits)).2 := hphase.faults
        rw [hfind, hstate, hfaults, changes, ← lastState_changes]
        split_ifs at hstep with hkeep
        · rw [hstep]
          exact (ih hv).seen
        · rw [hstep]
          exact (ih hv).judge (fun hs ↦ hkeep (.inl hs)) hv'
      | watchdogReport =>
        have hstep : phase v (⟨.watchdog, true, sys.ctx⟩ :: a.commits) =
            if (phase v a.commits).1 = .shutdown then phase v a.commits
            else (.shutdown, (phase v a.commits).2 ||| faultBitTaskWatchdog) := rfl
        change Course v (phase v (⟨.watchdog, true, sys.ctx⟩ :: a.commits))
          (changes (findings a.commits))
        split_ifs at hstep with hkeep
        · rw [hstep]
          exact ih hv
        · rw [hstep]
          exact (ih hv).report hkeep
      | _ => exact ih hv
    | _ => exact ih hv

end Phase

section Runs

open Lib.Threads

/-- Times with distances of at least `p`, the latest first, need their time. -/
theorem length_of_paced {p lo : ℕ} {l : List ℕ}
    (hc : l.IsChain fun later earlier ↦ earlier + p ≤ later) (hlo : ∀ n ∈ l, lo ≤ n) :
    ∀ n ∈ l.head?, lo + (l.length - 1) * p ≤ n := by
  induction l with
  | nil => exact nofun
  | cons x l ih =>
    rintro _ ⟨rfl⟩
    cases l with
    | nil => simpa using hlo x
    | cons y l =>
      obtain ⟨hxy, hrest⟩ := List.isChain_cons_cons.mp hc
      have hle := ih hrest (fun n hn ↦ hlo n (List.mem_cons_of_mem x hn)) y rfl
      simp only [List.length_cons, Nat.add_sub_cancel] at hle ⊢
      rw [Nat.succ_mul]
      omega

def tenMinutesMs : ℕ := 600000

variable {v : BmsState × UInt16} {argv : List String} {startMs : ℕ} {k : List SimEvent}
  {a : Simulator}

theorem readings_show (hr : Run Simulator.step (.start startMs (scenario argv)) k a)
    (hclock : a.sys.clockMs ≤ startMs + tenMinutesMs) :
    ∀ r ∈ readings a.commits, Shows (scenario argv).outcome r := by
  obtain ⟨timed, ht⟩ := Simulator.run_timed hr
  have hfew : (readings a.commits).length ≤ 6001 := by
    have hlen : (timesOf .sensor timed).length = (readings a.commits).length := by
      rw [timesOf_length, ht.commits, readings, List.length_map]
    have hfirst := length_of_paced (ht.schedule.chain .sensor) (ht.schedule.first .sensor)
    cases htimes : timesOf .sensor timed with
    | nil =>
      rw [htimes] at hlen
      exact hlen ▸ Nat.zero_le _
    | cons n rest =>
      have hlate := ht.schedule.times_le .sensor n (htimes ▸ List.mem_cons_self)
      rw [htimes] at hlen hfirst
      have hn := hfirst n rfl
      have hperiod : Thread.sensor.periodMs.toNat = 100 := rfl
      have hdelay : Thread.sensor.delayMs.toNat = 0 := rfl
      rw [hperiod, hdelay, hlen] at hn
      unfold tenMinutesMs at hclock
      omega
  intro r hr'
  rw [(Simulator.run_sampled hr).published, List.mem_reverse, List.mem_map] at hr'
  obtain ⟨i, hi, rfl⟩ := hr'
  have hlt := List.mem_range.mp hi
  exact modelAfter_shows _ (by omega)

theorem outcome_course (scenario : CellScenario) : scenario.outcome = (.normal, 0) ∨
    scenario.outcome.1 = .fault ∨ scenario.outcome.1 = .shutdown := by
  cases scenario <;> decide

variable {g : Leftovers} {h : List (Move sig)} {s : State sig}

/-- In the first ten minutes the scenario and the order of evaluations and reports determine
the state of the manager and its faults, down to the last bit. -/
theorem firmware_outcome (hs : Ran argv startMs g h s)
    (hclock : s.env.clockMs ≤ startMs + tenMinutesMs) :
    ((s.mem .ctx).faultMgr.state, (s.mem .ctx).faultMgr.activeFaults) =
      phase (scenario argv).outcome (commitsTo .ctx argv startMs g h) := by
  obtain ⟨k, a, hr, hc⟩ := hs.simulated
  have hphase := run_inPhase hr (readings_show hr (hc.clock.trans hclock))
  rw [hc.mem_ctx, hc.commits_ctx, hphase.state, hphase.faults]

theorem scenario_overheating : scenario overheating = .overtemp := by
  decide +kernel

theorem firmware_outcome_first : ∃ s,
    Run (step (program overheating zeroLocals)) (cold overheating) firstIterations s ∧
      ((s.mem .ctx).faultMgr.state, (s.mem .ctx).faultMgr.activeFaults) =
        phase (.shutdown, faultBitOvertemp)
          (commitsTo .ctx overheating 0 blank firstIterations) := by
  obtain ⟨s, hr, hs, hclock⟩ := overheating_first
  have hphase := firmware_outcome (ran_of_settled hr hs) (hclock ▸ by decide)
  rw [scenario_overheating] at hphase
  exact ⟨s, hr, hphase⟩

/-- What the fault task may have logged as changes of state, the latest first. -/
inductive FaultLog (v : BmsState × UInt16) : List (BmsState × UInt16) → Prop
  | nothing : FaultLog v []
  | outcome (hv : v.1 ≠ .normal) : FaultLog v [v]
  | watchdog : FaultLog v [(.shutdown, faultBitTaskWatchdog)]
  | both (hv : v.1 = .fault) : FaultLog v [(.shutdown, v.2 ||| faultBitTaskWatchdog), v]

theorem Course.log (hc : Course v p l) : FaultLog v l ∧ FaultLog v l.tail := by
  cases hc with
  | normal => exact ⟨.nothing, .nothing⟩
  | outcome hv =>
    refine ⟨.outcome ?_, .nothing⟩
    rcases hv with hv | hv <;> rw [hv] <;> exact nofun
  | early => exact ⟨.nothing, .nothing⟩
  | earlySeen => exact ⟨.watchdog, .nothing⟩
  | late hv => exact ⟨.outcome (by rw [hv]; exact nofun), .nothing⟩
  | lateSeen hv => exact ⟨.both hv, .outcome (by rw [hv]; exact nofun)⟩

theorem phase_of_no_reports {commits : List (Commit sig .ctx)} (hquiet : reports commits = 0) :
    phase v commits = (.normal, 0) ∨ phase v commits = v := by
  induction commits with
  | nil => exact .inl rfl
  | cons x past ih =>
    obtain ⟨hx, hpast⟩ : IsReport x = false ∧ reports past = 0 := by
      cases hx : IsReport x with
      | true =>
        rw [reports, List.countP_cons_of_pos hx] at hquiet
        cases hquiet
      | false =>
        rw [reports, List.countP_cons_of_neg (by simp [hx])] at hquiet
        exact ⟨rfl, hquiet⟩
    obtain ⟨t, alone, ctx⟩ := x
    cases t with
    | fault =>
      have hstep : phase v (⟨.fault, alone, ctx⟩ :: past) =
          if (phase v past).1 = .shutdown ∨ readings past = [] then phase v past else v := rfl
      rw [hstep]
      split_ifs
      · exact ih hpast
      · exact .inr rfl
    | watchdog =>
      cases alone with
      | true => cases hx
      | false => exact ih hpast
    | _ => exact ih hpast

theorem Course.quiet (hc : Course v p l) (hp : p = (.normal, 0) ∨ p = v) : l = [] ∨ l = [v] := by
  cases hc with
  | normal => exact .inl rfl
  | outcome => exact .inr rfl
  | early => exact .inl rfl
  | earlySeen => exact .inr (hp.resolve_left nofun ▸ rfl)
  | late => exact .inr rfl
  | lateSeen hv =>
    have hs := congrArg Prod.fst (hp.resolve_left nofun)
    exact nomatch hs.trans hv

/-- In the first ten minutes the fault task logs at most the change of state that the scenario
calls for and one for the watchdog, and the latter only if the watchdog task has warned. -/
theorem firmware_fault_log (hs : Ran argv startMs g h s)
    (hclock : s.env.clockMs ≤ startMs + tenMinutesMs) : ∃ entries x l,
    Shown argv startMs s.env.clockMs (commitsTo .console argv startMs g h) (s.mem .console)
        entries ∧
      FaultLog (scenario argv).outcome l ∧
      Tells (commitsTo .ctx argv startMs g h) .fault x
        (l.map fun c ↦ (.warn, stateChange c.1 c.2)) ∧
      textsOf .fault entries = closing .fault x ++
        l.map (fun c ↦ (.warn, stateChange c.1 c.2)) ++ opening .fault x ∧
      ((.error, staleHeartbeat) ∉ textsOf .watchdog entries →
        l = [] ∨ l = [(scenario argv).outcome]) := by
  obtain ⟨k, a, hr, hc⟩ := hs.simulated
  have hcourse := run_course hr (readings_show hr (hc.clock.trans hclock)) (outcome_course _)
  have hjournal := Simulator.run_journal hr
  have htells := Simulator.run_tells hr .fault
  rw [← hc.commits_ctx] at htells
  refine ⟨a.entries, (a.progress .fault).stage, a.loggedChanges, hc.shown hr, ?_, htells,
    hjournal.texts .fault, fun hquiet ↦ ?_⟩
  · rw [Simulator.loggedChanges, hjournal.logged.seen]
    split_ifs
    · exact hcourse.log.2
    · exact hcourse.log.1
  · have htexts := hjournal.texts .watchdog
    have hnone : reports a.commits = 0 := by
      by_contra hn
      rw [htexts, Simulator.remarks] at hquiet
      refine hquiet (List.mem_append_left _ (List.mem_append_right _ ?_))
      exact List.mem_replicate.mpr ⟨by omega, rfl⟩
    have hchanges := hcourse.quiet (phase_of_no_reports hnone)
    rw [Simulator.loggedChanges, hjournal.logged.seen]
    split_ifs
    · rcases hchanges with hl | hl
      · exact .inl (congrArg List.tail hl)
      · exact .inl (congrArg List.tail hl)
    · exact hchanges

theorem firmware_fault_log_first : ∃ s entries x l,
    Run (step (program overheating zeroLocals)) (cold overheating) firstIterations s ∧
      Shown overheating 0 5 (commitsTo .console overheating 0 blank firstIterations)
        (s.mem .console) entries ∧
      FaultLog (.shutdown, faultBitOvertemp) l ∧
      textsOf .fault entries = closing .fault x ++
        l.map (fun c ↦ (.warn, stateChange c.1 c.2)) ++ opening .fault x := by
  obtain ⟨s, hr, hs, hclock⟩ := overheating_first
  obtain ⟨entries, x, l, hshown, hlog, _, htexts, _⟩ :=
    firmware_fault_log (ran_of_settled hr hs) (hclock ▸ by decide)
  rw [scenario_overheating] at hlog
  exact ⟨s, entries, x, l, hr, hclock ▸ hshown, hlog, htexts⟩

end Runs

end Firmware

end BmsFirmware
