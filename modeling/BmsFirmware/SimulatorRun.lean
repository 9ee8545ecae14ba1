import BmsFirmware.Simulator
import Mathlib.Data.List.Chain

namespace BmsFirmware.Firmware

open Config Lib.Tick Lib.Threads Lib.History

def SimEvent.event? : SimEvent → Option Event
  | .sys e => some e
  | _ => none

def actions (k : List SimEvent) : List Event := k.filterMap SimEvent.event?

def sections (startMs : ℕ) : List Event → List (Commit sig .ctx)
  | [] => []
  | e :: h =>
    match replay System.step (.start startMs) (e :: h) with
    | some s => committed e.action s.ctx (sections startMs h)
    | none => sections startMs h

theorem sections_cons {startMs : ℕ} {e : Event} {h : List Event} {s : System}
    (hr : Run System.step (.start startMs) (e :: h) s) :
    sections startMs (e :: h) = committed e.action s.ctx (sections startMs h) := by
  rw [sections, run_iff_replay.mp hr]

/-- Whether a commit belongs to the iterations of `t`; a report of the watchdog does not. -/
def IsIteration (t : Thread) (x : Commit sig .ctx) : Bool := decide (x.thread = t) && !x.alone

/-- The context as the iterations of `t` have left it, the latest first. -/
def iterations (t : Thread) (commits : List (Commit sig .ctx)) : List AppContext :=
  (commits.filter (IsIteration t)).map (·.value)

def readings (commits : List (Commit sig .ctx)) : List CellReading :=
  (iterations .sensor commits).map (·.latestReading)

def modelAfter (scenario : CellScenario) (n : ℕ) : CellModel where
  scenario := scenario
  elapsedMs := .ofNat (n * taskPeriodSensorMs.toNat)
  baseMv := Vector.replicate bmsCellCount bmsCellNominalMv

theorem modelAfter_step (scenario : CellScenario) (n : ℕ) :
    (modelAfter scenario n).step taskPeriodSensorMs =
      (modelAfter scenario (n + 1), (modelAfter scenario (n + 1)).reading) := by
  have helapsed : UInt32.ofNat (n * taskPeriodSensorMs.toNat) + taskPeriodSensorMs =
      UInt32.ofNat ((n + 1) * taskPeriodSensorMs.toNat) := by
    rw [Nat.succ_mul, UInt32.ofNat_add]
    rfl
  simp only [CellModel.step, modelAfter, helapsed]

namespace Simulator

variable {startMs : ℕ} {scenario : CellScenario} {k : List SimEvent} {a a' : Simulator}

/-- The tasks take no notice of the console. -/
theorem run_sys (hr : Run step (start startMs scenario) k a) :
    Run System.step (.start startMs) (actions k) a.sys := by
  refine hr.project sys SimEvent.event? (fun _ b d b' _ hd hn ↦ ?_) fun _ b d b' e _ hd he ↦ ?_
  · cases step_stepped hd with
    | sys => exact nomatch hn
    | _ => rfl
  · cases step_stepped hd with
    | sys e' sys hs hp hdue h =>
      obtain rfl := Option.some.inj he
      have hkeep : ((b.setSys sys).notes e'.action).sys = sys := by
        cases e'.action <;> rfl
      exact h.trans (congrArg some hkeep.symm)
    | _ => exact nomatch he

theorem run_commits (hr : Run step (start startMs scenario) k a) :
    a.commits = sections startMs (actions k) := by
  induction hr with
  | start => rfl
  | @next k a a' d hr hd ih =>
    cases step_stepped hd with
    | sys e sys hs hp hdue h =>
      have hrun : Run System.step (.start startMs) (e :: actions k) sys := (run_sys hr).next h
      refine Eq.trans ?_ (sections_cons hrun).symm
      rw [← ih]
      rfl
    | _ => exact ih

/-- Whatever the can task hands over is accepted. -/
theorem run_sent (hr : Run step (start startMs scenario) k a) : ∀ c ∈ a.sys.can.bus, c.ok := by
  refine hr.invariant (I := fun a ↦ ∀ c ∈ a.sys.can.bus, c.ok) (by simp [start, System.start,
    CanTask.init]) fun a d a' hsent hd ↦ ?_
  cases step_stepped hd with
  | sys e sys hs hp hdue h =>
    have hsys : (((a.setSys sys).notes e.action).setDue (owner e.action)
        (e.timeMs + (owner e.action).periodMs.toNat)).sys = sys := notes_sys ..
    rw [hsys]
    obtain ⟨t, x⟩ := e
    rcases System.step_can h with ⟨hsame, _⟩ | ⟨_, hc⟩ | ⟨ok, rfl, hc⟩
    · rwa [hsame]
    · rcases CanTask.step_bus hc with hbus | ⟨c, hsend, _⟩
      · rwa [hbus]
      · cases hsend
    · rcases CanTask.step_bus hc with hbus | ⟨c, hsend, hbus⟩
      · rwa [hbus]
      · rw [hbus, List.forall_mem_cons]
        injection hsend with hok
        exact ⟨hok ▸ hp, hsent⟩
  | _ => exact hsent

/-- The cell model and the readings it has produced, the one still in hand included. -/
structure Sampled (scenario : CellScenario) (a : Simulator) : Prop where
  published : readings a.commits =
    ((List.range (readings a.commits).length).map fun i ↦
      (modelAfter scenario (i + 1)).reading).reverse
  cell : a.cell =
    modelAfter scenario ((readings a.commits).length + if a.sample.isSome then 1 else 0)
  sample : ∀ reading, a.sample = some reading →
    reading = (modelAfter scenario ((readings a.commits).length + 1)).reading
  latest : a.sys.ctx.latestReading = (readings a.commits).headD AppContext.init.latestReading

theorem Sampled.congr (hs : Sampled scenario a) (hr : readings a'.commits = readings a.commits)
    (hcell : a'.cell = a.cell) (hsample : a'.sample = a.sample)
    (hlatest : a'.sys.ctx.latestReading = a.sys.ctx.latestReading) : Sampled scenario a' := by
  obtain ⟨hpub, hc, hread, hhead⟩ := hs
  exact ⟨hr ▸ hpub, by rw [hr, hcell, hsample, hc], by rwa [hr, hsample],
    by rw [hlatest, hr, hhead]⟩

theorem Sampled.section {reading : CellReading} (hs : Sampled scenario a)
    (hsample : a.sample = some reading) (hr : readings a'.commits = reading :: readings a.commits)
    (hcell : a'.cell = a.cell) (hnone : a'.sample = none)
    (hlatest : a'.sys.ctx.latestReading = reading) : Sampled scenario a' := by
  obtain ⟨hpub, hc, hread, _⟩ := hs
  have hlen : (readings a'.commits).length = (readings a.commits).length + 1 := by
    rw [hr, List.length_cons]
  refine ⟨?_, ?_, ?_, ?_⟩
  · rw [hlen, hr, List.range_succ, List.map_append, List.reverse_append, ← hpub,
      hread reading hsample]
    rfl
  · rw [hcell, hc, hsample, hnone, hlen]
    rfl
  · intro _ hn
    rw [hnone] at hn
    cases hn
  · rw [hlatest, hr, List.headD_cons]

theorem Sampled.sys {e : Event} {sys : System} {dueMs : ℕ} (hs : Sampled scenario a)
    (hp : a.permits e.action) (h : a.sys.step e = some sys) :
    Sampled scenario (((a.setSys sys).notes e.action).setDue (owner e.action) dueMs) := by
  obtain ⟨t, x⟩ := e
  obtain ⟨_, hst⟩ := System.step_stepped h
  cases hst with
  | sensorSection reading => exact hs.section (of_decide_eq_true hp) rfl rfl rfl rfl
  | _ => exact hs.congr rfl rfl rfl rfl

theorem run_sampled (hr : Run step (start startMs scenario) k a) : Sampled scenario a := by
  induction hr with
  | start => exact ⟨rfl, rfl, by simp [start], rfl⟩
  | @next k a a' d _ hd ih =>
    cases step_stepped hd with
    | sys e sys hs hp hdue h => exact ih.sys hp h
    | cellStep hs hn =>
      obtain ⟨hpub, hc, _, hlatest⟩ := ih
      rw [hn] at hc
      refine ⟨hpub, ?_, ?_, hlatest⟩
      · simp only [hc, modelAfter_step]
        rfl
      · intro reading hreading
        rw [← Option.some.inj hreading, hc, modelAfter_step]
        rfl
    | _ => exact ih.congr rfl rfl rfl rfl

theorem delayMs_le_periodMs (t : Thread) : t.delayMs.toNat ≤ t.periodMs.toNat := by
  cases t <;> decide

end Simulator

def timesOf (t : Thread) (timed : List (Commit sig .ctx × ℕ)) : List ℕ :=
  (timed.filter fun x ↦ IsIteration t x.1).map Prod.snd

structure Awaits (startMs : ℕ) (t : Thread) (times : List ℕ) (n : ℕ) : Prop where
  delay : startMs + t.delayMs.toNat ≤ n
  period : ∀ m ∈ times.head?, m + t.periodMs.toNat ≤ n

/-- The heartbeats of the sensor and soc task show the time of the commit. -/
structure Stamped (x : Commit sig .ctx) (n : ℕ) : Prop where
  sensor : x.thread = .sensor → x.value.hbSensorMs = tick n
  soc : x.thread = .soc → x.value.hbSocMs = tick n

/-- All commits with their times, up to the time `clockMs`. -/
structure Schedule (startMs clockMs : ℕ) (timed : List (Commit sig .ctx × ℕ)) : Prop where
  sorted : (timed.map Prod.snd).IsChain fun later earlier ↦ earlier ≤ later
  bounds : ∀ x ∈ timed, startMs ≤ x.2 ∧ x.2 ≤ clockMs
  stamped : ∀ x ∈ timed, Stamped x.1 x.2
  chain : ∀ t, (timesOf t timed).IsChain fun later earlier ↦ earlier + t.periodMs.toNat ≤ later
  first : ∀ t, ∀ n ∈ timesOf t timed, startMs + t.delayMs.toNat ≤ n

section Schedule

variable {startMs clockMs n : ℕ} {timed : List (Commit sig .ctx × ℕ)} {x : Commit sig .ctx}
  {t : Thread}

theorem timesOf_cons (hx : IsIteration t x = true) :
    timesOf t ((x, n) :: timed) = n :: timesOf t timed := by
  simp [timesOf, hx]

theorem timesOf_other (hx : IsIteration t x = false) :
    timesOf t ((x, n) :: timed) = timesOf t timed := by
  simp [timesOf, hx]

theorem timesOf_length (t : Thread) (timed : List (Commit sig .ctx × ℕ)) :
    (timesOf t timed).length = (iterations t (timed.map Prod.fst)).length := by
  rw [timesOf, iterations, List.filter_map, List.length_map, List.length_map, List.length_map]
  rfl

theorem Awaits.mono {times : List ℕ} {n' : ℕ} (h : Awaits startMs t times n) (hn : n ≤ n') :
    Awaits startMs t times n' :=
  ⟨h.delay.trans hn, fun m hm ↦ (h.period m hm).trans hn⟩

theorem Schedule.mono {clockMs' : ℕ} (hs : Schedule startMs clockMs timed)
    (hle : clockMs ≤ clockMs') : Schedule startMs clockMs' timed :=
  ⟨hs.sorted, fun x hx ↦ ⟨(hs.bounds x hx).1, (hs.bounds x hx).2.trans hle⟩, hs.stamped, hs.chain,
    hs.first⟩

theorem Schedule.times_le (hs : Schedule startMs clockMs timed) (t : Thread) :
    ∀ n ∈ timesOf t timed, n ≤ clockMs := by
  intro n hn
  obtain ⟨x, hx, rfl⟩ := List.mem_map.mp hn
  exact (hs.bounds x (List.mem_filter.mp hx).1).2

/-- One more commit. -/
theorem Schedule.section (hs : Schedule startMs clockMs timed) (hstart : startMs ≤ clockMs)
    (hle : clockMs ≤ n) (hstamp : Stamped x n)
    (hawaits : ∀ t, IsIteration t x = true → Awaits startMs t (timesOf t timed) n) :
    Schedule startMs n ((x, n) :: timed) := by
  refine ⟨?_, ?_, ?_, fun t ↦ ?_, fun t ↦ ?_⟩
  · rw [List.map_cons, List.isChain_cons]
    refine ⟨fun m hm ↦ ?_, hs.sorted⟩
    obtain ⟨y, hy, rfl⟩ := List.mem_map.mp (List.mem_of_mem_head? hm)
    exact (hs.bounds y hy).2.trans hle
  · rw [List.forall_mem_cons]
    exact ⟨⟨hstart.trans hle, le_rfl⟩, (hs.mono hle).bounds⟩
  · rw [List.forall_mem_cons]
    exact ⟨hstamp, hs.stamped⟩
  · cases hx : IsIteration t x with
    | true =>
      rw [timesOf_cons hx, List.isChain_cons]
      exact ⟨(hawaits t hx).period, hs.chain t⟩
    | false =>
      rw [timesOf_other hx]
      exact hs.chain t
  · cases hx : IsIteration t x with
    | true =>
      rw [timesOf_cons hx, List.forall_mem_cons]
      exact ⟨(hawaits t hx).delay, hs.first t⟩
    | false =>
      rw [timesOf_other hx]
      exact hs.first t

end Schedule

def Inside (s : System) : Thread → Prop
  | .fault => s.faultNow ≠ none
  | .watchdog => ∃ now, s.watchdog = .sampled now
  | _ => False

section Inside

variable {s s' : System} {e : Event} {t : Thread}

theorem begun_or_inside (h : s.step e = some s') (he : section? e.action = some false) :
    begins e.action = true ∨ Inside s (owner e.action) := by
  obtain ⟨n, x⟩ := e
  obtain ⟨_, hst⟩ := System.step_stepped h
  cases hst with
  | faultSection now hn => exact .inr (by simp [Inside, owner, hn])
  | watchdogCopy now hw => exact .inr ⟨now, hw⟩
  | watchdogReport => cases he
  | faultClock => cases he
  | canSend => cases he
  | watchdogClock => cases he
  | _ => exact .inl rfl

theorem inside_step (h : s.step e = some s') (hin : Inside s' t) :
    (Inside s t ∧ (section? e.action = some false → owner e.action ≠ t)) ∨
      begins e.action = true ∧ owner e.action = t ∧ section? e.action = none := by
  obtain ⟨n, x⟩ := e
  obtain ⟨_, hst⟩ := System.step_stepped h
  cases hst with
  | watchdogCopy now hw =>
    cases t with
    | watchdog =>
      obtain ⟨_, hn⟩ := hin
      dsimp only at hn
      split_ifs at hn
    | fault => exact .inl ⟨hin, by simp [owner]⟩
    | _ => exact hin.elim
  | _ => cases t <;> simp_all [Inside, section?, owner, begins]

theorem stamped_step (h : s.step e = some s') (alone : Bool) :
    Stamped ⟨owner e.action, alone, s'.ctx⟩ e.timeMs := by
  obtain ⟨n, x⟩ := e
  obtain ⟨_, hst⟩ := System.step_stepped h
  constructor
  · intro ht
    cases hst <;> first | rfl | cases ht
  · intro ht
    cases hst <;> first | rfl | cases ht

end Inside

namespace Simulator

variable {startMs : ℕ} {scenario : CellScenario} {k : List SimEvent} {a a' : Simulator}
  {timed : List (Commit sig .ctx × ℕ)}

/-- The iterations keep their distances, and so have the next ones. -/
structure Timed (startMs : ℕ) (timed : List (Commit sig .ctx × ℕ)) (a : Simulator) : Prop where
  commits : timed.map Prod.fst = a.commits
  start : startMs ≤ a.sys.clockMs
  schedule : Schedule startMs a.sys.clockMs timed
  due : ∀ t, Awaits startMs t (timesOf t timed) (a.progress t).dueMs
  inside : ∀ t, Inside a.sys t → Awaits startMs t (timesOf t timed) a.sys.clockMs

theorem Timed.congr (ht : Timed startMs timed a) (hcommits : a'.commits = a.commits)
    (hsys : a'.sys = a.sys) (hdue : ∀ t, (a'.progress t).dueMs = (a.progress t).dueMs) :
    Timed startMs timed a' := by
  refine ⟨ht.commits.trans hcommits.symm, hsys ▸ ht.start, hsys ▸ ht.schedule, fun t ↦ ?_,
    fun t hin ↦ ?_⟩
  · exact hdue t ▸ ht.due t
  · rw [hsys] at hin ⊢
    exact ht.inside t hin

/-- Whoever acts at the time `n` is not due before its period is over. -/
theorem Timed.awaits {n : ℕ} (ht : Timed startMs timed a) (hn : a.sys.clockMs ≤ n) (t : Thread) :
    Awaits startMs t (timesOf t timed) (n + t.periodMs.toNat) := by
  have hdelay := delayMs_le_periodMs t
  have hstart := ht.start
  refine ⟨by omega, fun m hm ↦ ?_⟩
  have := ht.schedule.times_le t m (List.mem_of_mem_head? hm)
  omega

/-- An action that makes no commit. -/
theorem Timed.continue {e : Event} {sys : System} (ht : Timed startMs timed a)
    (hd : begins e.action → (a.progress (owner e.action)).dueMs ≤ e.timeMs)
    (hs : a.sys.step e = some sys) (hsys : a'.sys = sys) (hcommits : a'.commits = a.commits)
    (hown : (a'.progress (owner e.action)).dueMs = e.timeMs + (owner e.action).periodMs.toNat)
    (hothers : ∀ t, t ≠ owner e.action → a'.progress t = a.progress t) :
    Timed startMs timed a' := by
  obtain ⟨hle, hclock⟩ := System.step_clock hs
  subst hsys
  refine ⟨ht.commits.trans hcommits.symm, ?_, ?_, fun t ↦ ?_, fun t hin ↦ ?_⟩
  · rw [hclock]
    exact ht.start.trans hle
  · rw [hclock]
    exact ht.schedule.mono hle
  · by_cases hto : t = owner e.action
    · subst hto
      rw [hown]
      exact ht.awaits hle _
    · rw [hothers t hto]
      exact ht.due t
  · rw [hclock]
    rcases inside_step hs hin with ⟨hin', _⟩ | ⟨hb, rfl, _⟩
    · exact (ht.inside t hin').mono hle
    · exact (ht.due _).mono (hd hb)

/-- An action that makes a commit. -/
theorem Timed.section {e : Event} {sys : System} {alone : Bool} (ht : Timed startMs timed a)
    (hd : begins e.action → (a.progress (owner e.action)).dueMs ≤ e.timeMs)
    (hs : a.sys.step e = some sys) (he : section? e.action = some alone)
    (hsys : a'.sys = sys) (hcommits : a'.commits = ⟨owner e.action, alone, sys.ctx⟩ :: a.commits)
    (hown : (a'.progress (owner e.action)).dueMs = e.timeMs + (owner e.action).periodMs.toNat)
    (hothers : ∀ t, t ≠ owner e.action → a'.progress t = a.progress t) :
    Timed startMs ((⟨owner e.action, alone, sys.ctx⟩, e.timeMs) :: timed) a' := by
  obtain ⟨hle, hclock⟩ := System.step_clock hs
  subst hsys
  have hawaits (t : Thread) (hx : IsIteration t ⟨owner e.action, alone, a'.sys.ctx⟩ = true) :
      Awaits startMs t (timesOf t timed) e.timeMs := by
    simp only [IsIteration, Bool.and_eq_true, decide_eq_true_eq, Bool.not_eq_true'] at hx
    obtain ⟨rfl, rfl⟩ := hx
    rcases begun_or_inside hs he with hb | hin
    · exact (ht.due _).mono (hd hb)
    · exact (ht.inside _ hin).mono hle
  refine ⟨?_, ?_, ?_, fun t ↦ ?_, fun t hin ↦ ?_⟩
  · rw [hcommits, List.map_cons, ht.commits]
  · rw [hclock]
    exact ht.start.trans hle
  · rw [hclock]
    exact ht.schedule.section ht.start hle (stamped_step hs alone) hawaits
  · cases hx : IsIteration t ⟨owner e.action, alone, a'.sys.ctx⟩ with
    | true =>
      have hto : owner e.action = t := of_decide_eq_true (Bool.and_eq_true_iff.mp hx).1
      subst hto
      rw [timesOf_cons hx, hown]
      have hdelay := (ht.awaits hle (owner e.action)).delay
      refine ⟨hdelay, fun m hm ↦ ?_⟩
      rw [← Option.some.inj hm]
    | false =>
      rw [timesOf_other hx]
      by_cases hto : t = owner e.action
      · subst hto
        rw [hown]
        exact ht.awaits hle _
      · rw [hothers t hto]
        exact ht.due t
  · rcases inside_step hs hin with ⟨hin', hne⟩ | ⟨_, _, hnone⟩
    · have hx : IsIteration t ⟨owner e.action, alone, a'.sys.ctx⟩ = false := by
        cases alone with
        | true => exact Bool.and_false _
        | false => simpa [IsIteration] using hne he
      rw [timesOf_other hx, hclock]
      exact (ht.inside t hin').mono hle
    · rw [he] at hnone
      cases hnone

theorem Timed.sys {e : Event} {sys : System} (ht : Timed startMs timed a)
    (hd : begins e.action → (a.progress (owner e.action)).dueMs ≤ e.timeMs)
    (hs : a.sys.step e = some sys) : ∃ timed', Timed startMs timed'
      (((a.setSys sys).notes e.action).setDue (owner e.action)
        (e.timeMs + (owner e.action).periodMs.toNat)) := by
  have hsys : (((a.setSys sys).notes e.action).setDue (owner e.action)
      (e.timeMs + (owner e.action).periodMs.toNat)).sys = sys := notes_sys ..
  have hown := congrArg Progress.dueMs (setDue_self ((a.setSys sys).notes e.action)
    (owner e.action) (e.timeMs + (owner e.action).periodMs.toNat))
  have hothers (t : Thread) (hto : t ≠ owner e.action) : (((a.setSys sys).notes e.action).setDue
      (owner e.action) (e.timeMs + (owner e.action).periodMs.toNat)).progress t = a.progress t := by
    rw [setDue_ne _ _ hto, notes_progress]
    rfl
  have hcommits : (((a.setSys sys).notes e.action).setDue (owner e.action)
      (e.timeMs + (owner e.action).periodMs.toNat)).commits =
        committed e.action sys.ctx a.commits := rfl
  unfold committed at hcommits
  cases he : section? e.action with
  | none =>
    rw [he] at hcommits
    exact ⟨_, ht.continue hd hs hsys hcommits hown hothers⟩
  | some alone =>
    rw [he] at hcommits
    exact ⟨_, ht.section hd hs he hsys hcommits hown hothers⟩

theorem run_timed (hr : Run step (start startMs scenario) k a) :
    ∃ timed, Timed startMs timed a := by
  induction hr with
  | start =>
    exact ⟨[], rfl, le_rfl, ⟨.nil, by simp, by simp, fun _ ↦ .nil, by simp [timesOf]⟩,
      fun t ↦ ⟨le_rfl, by simp [timesOf]⟩, fun t ht ↦ by cases t <;> simp [Inside, start,
        System.start] at ht⟩
  | @next k a a' d _ hd ih =>
    obtain ⟨timed, ht⟩ := ih
    cases step_stepped hd with
    | sys e sys hs hp hdue h => exact ht.sys hdue h
    | read u nowMs => exact ⟨timed, ht.congr rfl rfl fun _ ↦ setRead_dueMs ..⟩
    | greet u => exact ⟨timed, ht.congr rfl rfl fun _ ↦ setStage_dueMs ..⟩
    | request => exact ⟨timed, ht.congr rfl rfl fun _ ↦ setStage_dueMs ..⟩
    | leave u => exact ⟨timed, ht.congr rfl rfl fun _ ↦ setStage_dueMs ..⟩
    | exit u => exact ⟨timed, ht.congr rfl rfl fun _ ↦ setStage_dueMs ..⟩
    | finalStatus => exact ⟨timed, ht.congr rfl rfl fun _ ↦ setStage_dueMs ..⟩
    | _ => exact ⟨timed, ht.congr rfl rfl fun _ ↦ rfl⟩

end Simulator

end BmsFirmware.Firmware
