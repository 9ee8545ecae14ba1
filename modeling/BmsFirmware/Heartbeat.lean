import BmsFirmware.Tasks

namespace BmsFirmware

open Config Lib.History Lib.Tick

inductive Task
  | sensor | soc | fault | can
deriving DecidableEq, Repr

def Task.isSection : Task → Action → Bool
  | .sensor, .sensorSection _ => true
  | .soc, .socSection => true
  | .fault, .faultSection => true
  | .can, .canSection => true
  | _, _ => false

def Heartbeats.of (hb : Heartbeats) : Task → Option UInt32
  | .sensor => some hb.hbSensor
  | .soc => some hb.hbSoc
  | .fault => some hb.hbFault
  | .can => none

theorem Heartbeats.stale_iff (hb : Heartbeats) (now : UInt32) :
    hb.stale now = true ↔ ∃ T n, hb.of T = some n ∧ watchdogStaleMs < now - n := by
  simp only [Heartbeats.stale, Bool.or_eq_true, decide_eq_true_iff, gt_iff_lt]
  constructor
  · intro hage
    rcases hage with (h | h) | h
    · exact ⟨.sensor, _, rfl, h⟩
    · exact ⟨.soc, _, rfl, h⟩
    · exact ⟨.fault, _, rfl, h⟩
  · intro hage
    obtain ⟨T, n, hT, h⟩ := hage
    cases T with
    | sensor => exact .inl (.inl (Option.some.inj hT ▸ h))
    | soc => exact .inl (.inr (Option.some.inj hT ▸ h))
    | fault => exact .inr (Option.some.inj hT ▸ h)
    | can => exact nomatch hT

namespace System

def latest (p : Action → Bool) : List Event → Option ℕ
  | [] => none
  | e :: h => if p e.action then some e.timeMs else latest p h

def lastSection (T : Task) (h : List Event) : Option ℕ := latest T.isSection h

def watchdogReading (h : List Event) : Option ℕ := latest (· = .watchdogClock) h

def faultStamp : List Event → Option ℕ
  | [] => none
  | e :: h => if e.action = .faultSection then latest (· = .faultClock) h else faultStamp h

def stamp : Task → List Event → Option ℕ
  | .sensor, h => lastSection .sensor h
  | .soc, h => lastSection .soc h
  | .fault, h => faultStamp h
  | .can, _ => none

theorem latest_mem {p : Action → Bool} {h : List Event} {t : ℕ} (ht : latest p h = some t) :
    ∃ e ∈ h, e.timeMs = t ∧ p e.action := by
  induction h with
  | nil => exact nomatch ht
  | cons e h ih =>
    rw [latest] at ht
    split_ifs at ht with he
    · exact ⟨e, List.mem_cons_self, Option.some.inj ht, he⟩
    · obtain ⟨e', he', hp⟩ := ih ht
      exact ⟨e', List.mem_cons_of_mem e he', hp⟩

theorem stamp_cons (T : Task) (e : Event) (h : List Event) (hT : T.isSection e.action = false) :
    stamp T (e :: h) = stamp T h := by
  cases T with
  | sensor => simp [stamp, lastSection, latest, hT]
  | soc => simp [stamp, lastSection, latest, hT]
  | fault =>
    have hne : e.action ≠ .faultSection := by
      intro he
      simp [Task.isSection, he] at hT
    simp [stamp, faultStamp, hne]
  | can => rfl

theorem stamp_append (T : Task) {h₁ : List Event} (h : List Event)
    (hT : ∀ e ∈ h₁, T.isSection e.action = false) : stamp T (h₁ ++ h) = stamp T h := by
  induction h₁ with
  | nil => rfl
  | cons e h₁ ih =>
    rw [List.cons_append, stamp_cons T e _ (hT e List.mem_cons_self)]
    exact ih fun e' he' ↦ hT e' (List.mem_cons_of_mem e he')

theorem latest_append {p : Action → Bool} {h₁ : List Event} (h : List Event)
    (hp : ∀ e ∈ h₁, p e.action = false) : latest p (h₁ ++ h) = latest p h := by
  induction h₁ with
  | nil => rfl
  | cons e h₁ ih =>
    rw [List.cons_append, latest, if_neg (by simp [hp e List.mem_cons_self])]
    exact ih fun e' he' ↦ hp e' (List.mem_cons_of_mem e he')

/-- The ticks that the tasks hold and have posted, against the history. -/
structure Recorded (h : List Event) (s : System) : Prop where
  past : ∀ e ∈ h, e.timeMs ≤ s.clockMs
  stamped : ∀ T t, stamp T h = some t → s.ctx.heartbeats.of T = some (tick t)
  faultNow : ∀ n, s.faultNow = some n → ∃ t, latest (· = .faultClock) h = some t ∧ n = tick t
  watchdogNow : ∀ n, s.watchdog = .sampled n → ∃ t, watchdogReading h = some t ∧ n = tick t

theorem Recorded.step_past {h : List Event} {s s' : System} {e : Event} (hr : Recorded h s)
    (he : s.step e = some s') : ∀ e' ∈ e :: h, e'.timeMs ≤ s'.clockMs := by
  obtain ⟨t, a⟩ := e
  obtain ⟨hclock, hs⟩ := step_stepped he
  have ht : s'.clockMs = t := by cases hs <;> rfl
  rw [ht]
  refine List.forall_mem_cons.mpr ⟨Nat.le_refl t, ?_⟩
  intro e' hm
  exact (hr.past e' hm).trans hclock

theorem Recorded.step_stamped {h : List Event} {s s' : System} {e : Event} (hr : Recorded h s)
    (he : s.step e = some s') (T : Task) (t : ℕ) (ht : stamp T (e :: h) = some t) :
    s'.ctx.heartbeats.of T = some (tick t) := by
  obtain ⟨t', a⟩ := e
  obtain ⟨_, hs⟩ := step_stepped he
  cases T with
  | sensor =>
    cases hs with
    | sensorSection _ => exact congrArg (fun t ↦ some (tick t)) (Option.some.inj ht)
    | _ => exact hr.stamped .sensor t ht
  | soc =>
    cases hs with
    | socSection => exact congrArg (fun t ↦ some (tick t)) (Option.some.inj ht)
    | _ => exact hr.stamped .soc t ht
  | fault =>
    cases hs with
    | faultSection now hn =>
      obtain ⟨u, hu, rfl⟩ := hr.faultNow now hn
      obtain rfl : u = t := Option.some.inj (hu.symm.trans ht)
      rfl
    | _ => exact hr.stamped .fault t ht
  | can => exact nomatch ht

theorem Recorded.step {h : List Event} {s s' : System} {e : Event} (hr : Recorded h s)
    (he : s.step e = some s') : Recorded (e :: h) s' := by
  refine ⟨hr.step_past he, hr.step_stamped he, ?_, ?_⟩
  · obtain ⟨t, a⟩ := e
    obtain ⟨_, hs⟩ := step_stepped he
    intro n hn
    cases hs with
    | faultClock _ => exact ⟨t, rfl, (Option.some.inj hn).symm⟩
    | faultSection _ _ => exact nomatch hn
    | _ => exact hr.faultNow n hn
  · obtain ⟨t, a⟩ := e
    obtain ⟨_, hs⟩ := step_stepped he
    intro n hn
    cases hs with
    | watchdogClock _ => exact ⟨t, rfl, (WatchdogPc.sampled.inj hn).symm⟩
    | watchdogCopy _ _ =>
      dsimp only at hn
      split_ifs at hn
    | watchdogReport _ _ => exact nomatch hn
    | _ => exact hr.watchdogNow n hn

theorem run_recorded {startMs : ℕ} {h : List Event} {s : System}
    (hr : Run step (start startMs) h s) : Recorded h s := by
  refine hr.history_invariant ⟨by simp, ?_, by simp [start], by simp [start]⟩
    fun h s e s' ↦ Recorded.step
  intro T t ht
  cases T <;> exact nomatch ht

theorem latest_le_clock {startMs : ℕ} {h : List Event} {s : System} {p : Action → Bool} {t : ℕ}
    (hr : Run step (start startMs) h s) (ht : latest p h = some t) : t ≤ s.clockMs := by
  obtain ⟨e, he, rfl, _⟩ := latest_mem ht
  exact (run_recorded hr).past e he

/-- A copy finds a stale heartbeat exactly when the age of some stamp, taken
modulo `2 ^ 32` from the clock reading before the copy, is over the limit. -/
theorem copy_idle_iff {startMs t : ℕ} {h : List Event} {s : System}
    (hr : Run step (start startMs) (⟨t, .watchdogCopy⟩ :: h) s)
    (hall : ∀ T, T ≠ .can → ∃ u, stamp T h = some u) :
    ∃ w, watchdogReading h = some w ∧ w ≤ t ∧ (s.watchdog = .idle ↔
      ∀ T u, stamp T h = some u → (tick w - tick u).toNat ≤ watchdogStaleMs.toNat) := by
  obtain ⟨s₀, hr₀, he⟩ := run_cons_iff.mp hr
  have hrec := run_recorded hr₀
  obtain ⟨hclock, hs⟩ := step_stepped he
  cases hs with
  | watchdogCopy now hw =>
    obtain ⟨w, hread, rfl⟩ := hrec.watchdogNow now hw
    refine ⟨w, hread, (latest_le_clock hr₀ hread).trans hclock, ?_⟩
    have hidle : (if s₀.ctx.heartbeats.stale (tick w) then WatchdogPc.stale (tick w)
        else .idle) = .idle ↔ ¬ s₀.ctx.heartbeats.stale (tick w) = true := by
      split_ifs with hst <;> simp [hst]
    rw [hidle, Heartbeats.stale_iff]
    constructor
    · intro hfresh T u hu
      by_contra hlt
      exact hfresh ⟨T, tick u, hrec.stamped T u hu, UInt32.lt_iff_toNat_lt.mpr (by omega)⟩
    · intro hfresh hstale
      obtain ⟨T, n, hn, hlt⟩ := hstale
      have hT : T ≠ .can := by
        intro hcan
        subst hcan
        exact nomatch hn
      obtain ⟨u, hu⟩ := hall T hT
      obtain rfl : tick u = n := Option.some.inj ((hrec.stamped T u hu).symm.trans hn)
      have := hfresh T u hu
      exact absurd (UInt32.lt_iff_toNat_lt.mp hlt) (by omega)

/-- Every heartbeat holds a tick read at most the stale limit before `nowMs`. -/
def InTime (nowMs : ℕ) (h : List Event) : Prop :=
  ∀ T, T ≠ .can → ∃ t, stamp T h = some t ∧ nowMs - t ≤ watchdogStaleMs.toNat

/-- Some heartbeat holds a tick read after the watchdog read its clock, and not
so long after it that the difference wraps back into the window. -/
def Overtaken (h : List Event) : Prop :=
  ∃ T t w, stamp T h = some t ∧ watchdogReading h = some w ∧
    0 < (t - w) % 2 ^ 32 ∧ (t - w) % 2 ^ 32 < 2 ^ 32 - watchdogStaleMs.toNat

theorem copy_in_time {startMs t : ℕ} {h : List Event} {s : System}
    (hr : Run step (start startMs) (⟨t, .watchdogCopy⟩ :: h) s) (hin : InTime t h) :
    s.watchdog = .idle ↔ ¬ Overtaken h := by
  obtain ⟨w, hread, hwt, hidle⟩ := copy_idle_iff hr fun T hT ↦ (hin T hT).imp fun _ h ↦ h.1
  have hyoung (T : Task) (u : ℕ) (hu : stamp T h = some u) : w - u ≤ watchdogStaleMs.toNat := by
    have hT : T ≠ .can := by
      intro hcan
      subst hcan
      exact nomatch hu
    obtain ⟨u', hu', hold⟩ := hin T hT
    obtain rfl : u' = u := Option.some.inj (hu'.symm.trans hu)
    omega
  rw [hidle]
  constructor
  · intro hfresh hover
    obtain ⟨T, u, w', hu, hw', hlate⟩ := hover
    obtain rfl : w = w' := Option.some.inj (hread.symm.trans hw')
    exact (tick_age_le_iff (by decide) (hyoung T u hu)).mp (hfresh T u hu) hlate
  · intro hno T u hu
    exact (tick_age_le_iff (by decide) (hyoung T u hu)).mpr fun hlate ↦
      hno ⟨T, u, w, hu, hread, hlate⟩

structure Quiet (h : List Event) (s : System) : Prop where
  pc : ∀ n, s.watchdog ≠ .stale n
  reports : ∀ e ∈ h, e.action ≠ .watchdogReport
  bit : s.ctx.faultMgr.activeFaults &&& faultBitTaskWatchdog = 0

theorem Quiet.step {startMs : ℕ} {h : List Event} {s s' : System} {e : Event} (hq : Quiet h s)
    (hr : Run step (start startMs) h s) (he : s.step e = some s')
    (hcopy : e.action = .watchdogCopy → InTime e.timeMs h ∧ ¬ Overtaken h) :
    Quiet (e :: h) s' := by
  obtain ⟨t, a⟩ := e
  obtain ⟨_, hs⟩ := step_stepped he
  have hmem (ha : a ≠ .watchdogReport) : ∀ e ∈ (⟨t, a⟩ :: h : List Event),
      e.action ≠ .watchdogReport := List.forall_mem_cons.mpr ⟨ha, hq.reports⟩
  cases hs with
  | watchdogReport now hw => exact absurd hw (hq.pc now)
  | watchdogCopy now hw =>
    obtain ⟨hin, hno⟩ := hcopy rfl
    have hidle := (copy_in_time (hr.next he) hin).mpr hno
    exact ⟨fun n hn ↦ absurd (hidle.symm.trans hn) (by simp), hmem (by simp), hq.bit⟩
  | watchdogClock hw => exact ⟨by simp, hmem (by simp), hq.bit⟩
  | faultSection now hn =>
    exact ⟨hq.pc, hmem (by simp), (run_faultMgr hr).evaluate_watchdog_bit _ _ hq.bit⟩
  | _ => exact ⟨hq.pc, hmem (by simp), hq.bit⟩

theorem run_quiet {startMs : ℕ} {h : List Event} {s : System}
    (hr : Run step (start startMs) h s)
    (hcopy : ∀ t h₁, ⟨t, .watchdogCopy⟩ :: h₁ <:+ h → InTime t h₁ ∧ ¬ Overtaken h₁) :
    Quiet h s := by
  induction hr with
  | start =>
    have hbit : FaultManager.init.activeFaults &&& faultBitTaskWatchdog = 0 := by decide
    exact ⟨by simp [start], by simp, hbit⟩
  | @next h s s' e hs he ih =>
    have hq := ih fun t h₁ hsuf ↦ hcopy t h₁ (hsuf.trans (List.suffix_cons e h))
    refine hq.step hs he fun ha ↦ hcopy e.timeMs h ?_
    rw [← ha]

/-- With all heartbeats in time, an iteration of the watchdog stays quiet if and
only if no task stamped a later tick between its clock reading and its copy. -/
theorem no_false_alarm (startMs : ℕ) :
    (∀ t h s, Run step (start startMs) (⟨t, .watchdogCopy⟩ :: h) s → InTime t h →
      (s.watchdog = .idle ↔ ¬ Overtaken h)) ∧
    ∀ h s, Run step (start startMs) h s →
      (∀ t h₁, ⟨t, .watchdogCopy⟩ :: h₁ <:+ h → InTime t h₁ ∧ ¬ Overtaken h₁) →
      (∀ e ∈ h, e.action ≠ .watchdogReport) ∧
        s.ctx.faultMgr.activeFaults &&& faultBitTaskWatchdog = 0 := by
  refine ⟨fun t h s ↦ copy_in_time, fun h s hr hcopy ↦ ?_⟩
  have hq := run_quiet hr hcopy
  exact ⟨hq.reports, hq.bit⟩

def startUp : List Event :=
  [⟨200, .watchdogClock⟩, ⟨150, .faultSection⟩, ⟨150, .faultClock⟩,
    ⟨100, .sensorSection .nominal⟩, ⟨0, .faultSection⟩, ⟨0, .faultClock⟩, ⟨0, .socSection⟩,
    ⟨0, .sensorSection .nominal⟩]

theorem startUp_inTime : InTime 200 startUp := by
  intro T hT
  cases T with
  | sensor => exact ⟨100, rfl, by decide⟩
  | soc => exact ⟨0, rfl, by decide⟩
  | fault => exact ⟨150, rfl, by decide⟩
  | can => exact absurd rfl hT

theorem startUp_not_overtaken : ¬ Overtaken startUp := by
  intro hover
  obtain ⟨T, t, w, ht, hw, hpos, _⟩ := hover
  obtain rfl : 200 = w := Option.some.inj hw
  cases T with
  | sensor => simp [← Option.some.inj ht] at hpos
  | soc => simp [← Option.some.inj ht] at hpos
  | fault => simp [← Option.some.inj ht] at hpos
  | can => exact nomatch ht

theorem no_false_alarm_startUp :
    ∃ s, Run step (start 0) (⟨200, .watchdogCopy⟩ :: startUp) s ∧ s.watchdog = .idle := by
  have hv : (replay step (start 0) (⟨200, .watchdogCopy⟩ :: startUp)).map (fun _ ↦ ()) =
      some () := by decide +kernel
  obtain ⟨s, hs, _⟩ := exists_run _ hv
  exact ⟨s, hs, ((no_false_alarm 0).1 200 startUp s hs startUp_inTime).mpr startUp_not_overtaken⟩

def lateSensor : List Event := ⟨201, .sensorSection .nominal⟩ :: startUp

theorem false_alarm : InTime 201 lateSensor ∧ ∃ s, Run step (start 0)
    (⟨201, .watchdogReport⟩ :: ⟨201, .watchdogCopy⟩ :: lateSensor) s ∧
    s.ctx.faultMgr.state = .shutdown := by
  have hv : (replay step (start 0)
      (⟨201, .watchdogReport⟩ :: ⟨201, .watchdogCopy⟩ :: lateSensor)).map
      (fun s ↦ s.ctx.faultMgr.state) = some .shutdown := by decide +kernel
  refine ⟨?_, exists_run _ hv⟩
  intro T hT
  cases T with
  | sensor => exact ⟨201, rfl, by decide⟩
  | soc => exact ⟨0, rfl, by decide⟩
  | fault => exact ⟨150, rfl, by decide⟩
  | can => exact absurd rfl hT

/-- At the time `nowMs` the last locked section of the task is over the stale limit ago. -/
def Hung (T : Task) (nowMs : ℕ) (h : List Event) : Prop :=
  ∃ t, lastSection T h = some t ∧ watchdogStaleMs.toNat < nowMs - t ∧ nowMs - t < 2 ^ 32

theorem faultStamp_le_section {startMs t : ℕ} {h : List Event} {s : System}
    (hr : Run step (start startMs) h s) (ht : lastSection .fault h = some t) :
    ∃ u, u ≤ t ∧ faultStamp h = some u := by
  induction hr with
  | start => exact nomatch ht
  | @next h s s' e hs he ih =>
    obtain ⟨t', a⟩ := e
    obtain ⟨hclock, hst⟩ := step_stepped he
    cases hst with
    | faultSection now hn =>
      obtain ⟨u, hu, _⟩ := (run_recorded hs).faultNow now hn
      obtain rfl : t' = t := Option.some.inj ht
      exact ⟨u, (latest_le_clock hs hu).trans hclock, hu⟩
    | _ => exact ih ht

theorem stamp_le_section {T : Task} {startMs t : ℕ} {h : List Event} {s : System} (hT : T ≠ .can)
    (hr : Run step (start startMs) h s) (ht : lastSection T h = some t) :
    ∃ u, u ≤ t ∧ stamp T h = some u := by
  cases T with
  | sensor => exact ⟨t, Nat.le_refl t, ht⟩
  | soc => exact ⟨t, Nat.le_refl t, ht⟩
  | fault => exact faultStamp_le_section hr ht
  | can => exact absurd rfl hT

theorem hung_stamp {T : Task} {startMs nowMs : ℕ} {h : List Event} {s : System} (hT : T ≠ .can)
    (hr : Run step (start startMs) h s) (hhung : Hung T nowMs h)
    (hread : T = .fault → ∀ u, faultStamp h = some u → nowMs - u < 2 ^ 32) :
    ∃ u, stamp T h = some u ∧ watchdogStaleMs.toNat < (tick nowMs - tick u).toNat := by
  obtain ⟨t, ht, hold, hwrap⟩ := hhung
  obtain ⟨u, hut, hu⟩ := stamp_le_section hT hr ht
  have hnear : nowMs - u < 2 ^ 32 := by
    cases T with
    | fault => exact hread rfl u hu
    | can => exact absurd rfl hT
    | _ =>
      obtain rfl : t = u := Option.some.inj (ht.symm.trans hu)
      exact hwrap
  refine ⟨u, hu, ?_⟩
  rw [tick_sub_of_near (by omega) hnear]
  omega

theorem copy_stale {T : Task} {startMs t u w : ℕ} {h : List Event} {s : System}
    (hr : Run step (start startMs) (⟨t, .watchdogCopy⟩ :: h) s) (hw : watchdogReading h = some w)
    (hu : stamp T h = some u) (hold : watchdogStaleMs.toNat < (tick w - tick u).toNat) :
    s.watchdog = .stale (tick w) := by
  obtain ⟨s₀, hr₀, he⟩ := run_cons_iff.mp hr
  have hrec := run_recorded hr₀
  obtain ⟨_, hs⟩ := step_stepped he
  cases hs with
  | watchdogCopy now hpc =>
    obtain ⟨w', hw', rfl⟩ := hrec.watchdogNow now hpc
    obtain rfl : w = w' := Option.some.inj (hw.symm.trans hw')
    exact if_pos ((Heartbeats.stale_iff _ _).mpr
      ⟨T, tick u, hrec.stamped T u hu, UInt32.lt_iff_toNat_lt.mpr hold⟩)

theorem stale_shutdown {s s' : System} {h : List Event} {n : UInt32} (hr : Run step s h s')
    (hs : s.watchdog = .stale n) (hend : ∀ n, s'.watchdog ≠ .stale n) :
    s'.ctx.faultMgr.state = .shutdown := by
  have hinv : (∃ n, s'.watchdog = .stale n) ∨ s'.ctx.faultMgr.state = .shutdown := by
    refine hr.invariant (I := fun s ↦ (∃ n, s.watchdog = .stale n) ∨
      s.ctx.faultMgr.state = .shutdown) (.inl ⟨n, hs⟩) ?_
    intro s e s' hi he
    obtain ⟨t, a⟩ := e
    rcases hi with ⟨m, hm⟩ | hdown
    · obtain ⟨_, hst⟩ := step_stepped he
      cases hst with
      | watchdogReport now hw => exact .inr (FaultManager.reportWatchdogFault_state _ _)
      | watchdogClock hw => exact nomatch hm.symm.trans hw
      | watchdogCopy now hw => exact nomatch hm.symm.trans hw
      | _ => exact .inl ⟨m, hm⟩
    · have hstep := run_shutdown (.next .start he) hdown
      exact .inr (hstep ▸ hdown)
  rcases hinv with ⟨m, hm⟩ | hdown
  · exact absurd hm (hend m)
  · exact hdown

/-- A hung task with a heartbeat is caught by every iteration of the watchdog
that reads its clock at `w` and copies a heartbeat which the task has not renewed. -/
theorem hung_task_caught {T : Task} {startMs w t : ℕ} {h₀ h₁ h₂ : List Event} {s : System}
    (hr : Run step (start startMs)
      (h₂ ++ ⟨t, .watchdogCopy⟩ :: (h₁ ++ ⟨w, .watchdogClock⟩ :: h₀)) s)
    (hiter : ∀ e ∈ h₁, e.action ≠ .watchdogClock) (hend : ∀ n, s.watchdog ≠ .stale n)
    (hhung : Hung T w h₀) (hT : T ≠ .can) (hstop : ∀ e ∈ h₁, T.isSection e.action = false)
    (hread : T = .fault → ∀ u, faultStamp h₀ = some u → w - u < 2 ^ 32) :
    s.ctx.faultMgr.state = .shutdown := by
  obtain ⟨s₁, hr₁, hrest⟩ := run_append_iff.mp hr
  have hsuf : h₀ <:+ ⟨t, .watchdogCopy⟩ :: (h₁ ++ ⟨w, .watchdogClock⟩ :: h₀) :=
    ⟨⟨t, .watchdogCopy⟩ :: (h₁ ++ [⟨w, .watchdogClock⟩]), by simp⟩
  obtain ⟨s₀, hr₀⟩ := hr₁.of_suffix hsuf
  obtain ⟨u, hu, hold⟩ := hung_stamp hT hr₀ hhung hread
  have hclock : T.isSection .watchdogClock = false := by cases T <;> rfl
  have hstamp : stamp T (h₁ ++ ⟨w, .watchdogClock⟩ :: h₀) = some u := by
    rw [stamp_append T _ hstop, stamp_cons T _ _ hclock, hu]
  have hreading : watchdogReading (h₁ ++ ⟨w, .watchdogClock⟩ :: h₀) = some w :=
    latest_append _ fun e he ↦ by simpa using hiter e he
  exact stale_shutdown hrest (copy_stale hr₁ hreading hstamp hold) hend

def sensorStops : List Event :=
  [⟨1150, .faultSection⟩, ⟨1150, .faultClock⟩, ⟨1000, .socSection⟩, ⟨0, .faultSection⟩,
    ⟨0, .faultClock⟩, ⟨0, .socSection⟩, ⟨0, .sensorSection .nominal⟩]

theorem hung_task_caught_sensor : ∃ s, Run step (start 0)
    (⟨1200, .watchdogReport⟩ :: ⟨1200, .watchdogCopy⟩ :: ⟨1200, .watchdogClock⟩ :: sensorStops) s ∧
    s.ctx.faultMgr.state = .shutdown := by
  have hv : (replay step (start 0) (⟨1200, .watchdogReport⟩ :: ⟨1200, .watchdogCopy⟩ ::
      ⟨1200, .watchdogClock⟩ :: sensorStops)).map (·.watchdog) = some .idle := by decide +kernel
  obtain ⟨s, hs, hidle⟩ := exists_run _ hv
  have hr : Run step (start 0) ([⟨1200, .watchdogReport⟩] ++ ⟨1200, .watchdogCopy⟩ ::
      ([] ++ ⟨1200, .watchdogClock⟩ :: sensorStops)) s := hs
  have hhung : Hung .sensor 1200 sensorStops := ⟨0, rfl, by decide, by decide⟩
  exact ⟨s, hs, hung_task_caught hr (by simp) (by simp [hidle]) hhung (by simp) (by simp)
    (by simp)⟩

def canStops : List Event :=
  [⟨1150, .faultSection⟩, ⟨1150, .faultClock⟩, ⟨1100, .sensorSection .nominal⟩,
    ⟨1000, .socSection⟩, ⟨0, .canSection⟩, ⟨0, .faultSection⟩, ⟨0, .faultClock⟩, ⟨0, .socSection⟩,
    ⟨0, .sensorSection .nominal⟩]

theorem hung_can_task_missed : Hung .can 1200 canStops ∧ ∃ s, Run step (start 0)
    (⟨1200, .watchdogCopy⟩ :: ⟨1200, .watchdogClock⟩ :: canStops) s ∧
    (s.watchdog, s.ctx.faultMgr.state) = (.idle, .normal) := by
  have hv : (replay step (start 0) (⟨1200, .watchdogCopy⟩ :: ⟨1200, .watchdogClock⟩ ::
      canStops)).map (fun s ↦ (s.watchdog, s.ctx.faultMgr.state)) = some (.idle, .normal) := by
    decide +kernel
  exact ⟨⟨0, rfl, by decide, by decide⟩, exists_run _ hv⟩

end System

end BmsFirmware
