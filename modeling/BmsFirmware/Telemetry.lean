import BmsFirmware.Tasks

namespace BmsFirmware

open Config CanProtocol Lib.History CanTask

namespace System

theorem run_still {s s' : System} {h : List Event} (hr : Run step s h s')
    (hh : ∀ e ∈ h, e.action ≠ .canSection ∧ ∀ ok, e.action ≠ .canSend ok) : s'.can = s.can := by
  obtain ⟨k, hk, hnone⟩ := run_sends hr (fun e he ↦ (hh e he).1) (fun _ ↦ False)
    fun e he ok ha ↦ (hh e he).2 ok ha
  cases k with
  | nil => exact run_nil_iff.mp hk
  | cons d k =>
    obtain ⟨_, _, hfalse⟩ := hnone d List.mem_cons_self
    exact hfalse.elim

/-- The soc task has gone through its locked section since the entry to SHUTDOWN. -/
def SocSawShutdown (startMs : ℕ) (h : List Event) : Prop :=
  ∃ t h₁ s₁, ⟨t, .socSection⟩ :: h₁ <:+ h ∧ Run step (start startMs) h₁ s₁ ∧
    s₁.ctx.faultMgr.state = .shutdown

theorem code_eq_shutdown {st : BmsState} : st.code = BmsState.shutdown.code ↔ st = .shutdown := by
  cases st <;> decide

theorem socSawShutdown_cons {startMs : ℕ} {h : List Event} {s : System} {e : Event}
    (hr : Run step (start startMs) h s) : SocSawShutdown startMs (e :: h) ↔
      (e.action = .socSection ∧ s.ctx.faultMgr.state = .shutdown) ∨ SocSawShutdown startMs h := by
  constructor
  · intro hsaw
    obtain ⟨t, h₁, s₁, hsuf, hr₁, hs₁⟩ := hsaw
    rcases cons_suffix_cons_iff.mp hsuf with ⟨rfl, rfl⟩ | hsuf
    · exact .inl ⟨rfl, hr.det hr₁ ▸ hs₁⟩
    · exact .inr ⟨t, h₁, s₁, hsuf, hr₁, hs₁⟩
  · intro hcase
    rcases hcase with ⟨ha, hs⟩ | ⟨t, h₁, s₁, hsuf, hr₁, hs₁⟩
    · obtain ⟨t, a⟩ := e
      obtain rfl : a = .socSection := ha
      exact ⟨t, h, s, List.suffix_rfl, hr, hs⟩
    · exact ⟨t, h₁, s₁, hsuf.trans (List.suffix_cons e h), hr₁, hs₁⟩

theorem SocSawShutdown.shutdown {startMs : ℕ} {h : List Event} {s : System}
    (hsaw : SocSawShutdown startMs h) (hr : Run step (start startMs) h s) :
    s.ctx.faultMgr.state = .shutdown := by
  obtain ⟨t, h₁, s₁, ⟨h₂, rfl⟩, hr₁, hs₁⟩ := hsaw
  rw [List.append_cons] at hr
  rw [run_shutdown (hr.rest hr₁) hs₁, hs₁]

/-- The cached state byte is the state at the last section of the soc task. -/
theorem status_shutdown_iff {startMs : ℕ} {h : List Event} {s : System}
    (hr : Run step (start startMs) h s) :
    s.ctx.status.state = BmsState.shutdown.code ↔ SocSawShutdown startMs h := by
  induction hr with
  | start =>
    have hzero : AppContext.init.status.state ≠ BmsState.shutdown.code := by decide
    apply iff_of_false hzero
    intro hsaw
    obtain ⟨t, h₁, _, hsuf, _⟩ := hsaw
    simp at hsuf
  | @next h s s' e hs he ih =>
    obtain ⟨t, a⟩ := e
    rw [socSawShutdown_cons hs]
    obtain ⟨_, hst⟩ := step_stepped he
    cases hst with
    | socSection =>
      have hcode : (s.ctx.socSection (Lib.Tick.tick t)).status.state =
          s.ctx.faultMgr.state.code := rfl
      rw [hcode, code_eq_shutdown]
      refine ⟨fun hd ↦ .inl ⟨rfl, hd⟩, ?_⟩
      intro hcase
      rcases hcase with ⟨_, hd⟩ | hsaw
      · exact hd
      · exact hsaw.shutdown hs
    | _ =>
      simp only [reduceCtorEq, false_and, false_or]
      exact ih

/-- The first send after a snapshot is a BMS_STATUS with the cached status. -/
theorem first_send_status {startMs t₁ t₂ : ℕ} {ok : Bool} {h₁ h₂ : List Event} {s : System}
    (hr : Run step (start startMs)
      (⟨t₂, .canSend ok⟩ :: (h₂ ++ ⟨t₁, .canSection⟩ :: h₁)) s)
    (hh : ∀ e ∈ h₂, e.action ≠ .canSection ∧ ∀ ok, e.action ≠ .canSend ok) :
    ∃ s₁ c, Run step (start startMs) h₁ s₁ ∧ s.can.bus.head? = some c ∧
      receivedStatus c.frame = some s₁.ctx.status := by
  obtain ⟨s₃, hr₃, hsend⟩ := run_cons_iff.mp hr
  obtain ⟨s₂, hr₂, hrest⟩ := run_append_iff.mp hr₃
  obtain ⟨s₁, hr₁, hsection⟩ := run_cons_iff.mp hr₂
  obtain ⟨_, hst₂⟩ := step_stepped hsection
  obtain ⟨_, hst₃⟩ := step_stepped hsend
  have hstill : s₃.can = s₂.can := run_still hrest hh
  have hpc : s₃.can.pc = .status s₁.ctx.snapshot := by
    rw [hstill]
    cases hst₂ with
    | canSection can hc =>
      cases CanTask.step_stepped hc with
      | snapshot snap hidle => rfl
  cases hst₃ with
  | canSend ok can hc =>
    simp only [CanTask.step, hpc, Option.some.injEq] at hc
    subst hc
    exact ⟨s₁, _, hr₁, rfl, s₁.ctx.snapshot.receivedStatus_statusFrame⟩

/-- The first status frame after a snapshot says SHUTDOWN if and only if the soc
task has seen the manager in SHUTDOWN before the snapshot. -/
theorem status_frame_shutdown_iff {startMs t₁ t₂ : ℕ} {ok : Bool} {h₁ h₂ : List Event} {s : System}
    (hr : Run step (start startMs)
      (⟨t₂, .canSend ok⟩ :: (h₂ ++ ⟨t₁, .canSection⟩ :: h₁)) s)
    (hh : ∀ e ∈ h₂, e.action ≠ .canSection ∧ ∀ ok, e.action ≠ .canSend ok) :
    ∃ c st, s.can.bus.head? = some c ∧ receivedStatus c.frame = some st ∧
      (st.state = BmsState.shutdown.code ↔ SocSawShutdown startMs h₁) := by
  obtain ⟨s₁, c, hr₁, hhead, hrec⟩ := first_send_status hr hh
  exact ⟨c, s₁.ctx.status, hhead, hrec, status_shutdown_iff hr₁⟩

def overvoltageSample : CellReading := .uniform 4250 25 0

def overvoltageTrip : List Event :=
  [⟨100, .faultSection⟩, ⟨100, .faultClock⟩, ⟨100, .sensorSection overvoltageSample⟩,
    ⟨0, .socSection⟩, ⟨0, .sensorSection .nominal⟩]

theorem status_frame_shutdown_iff_trip : ∃ s, Run step (start 0) (⟨500, .canSend true⟩ ::
    ([] ++ ⟨500, .canSection⟩ :: ⟨500, .socSection⟩ :: overvoltageTrip)) s ∧
    ∃ c st, s.can.bus.head? = some c ∧ receivedStatus c.frame = some st ∧
      (st.state = BmsState.shutdown.code ↔
        SocSawShutdown 0 (⟨500, .socSection⟩ :: overvoltageTrip)) := by
  have hv : (replay step (start 0) (⟨500, .canSend true⟩ ::
      ([] ++ ⟨500, .canSection⟩ :: ⟨500, .socSection⟩ :: overvoltageTrip))).map (fun _ ↦ ()) =
      some () := by decide +kernel
  obtain ⟨s, hs, _⟩ := exists_run _ hv
  exact ⟨s, hs, status_frame_shutdown_iff hs (by simp)⟩

theorem status_frame_before_soc : ∃ s₀ s₁, Run step (start 0) overvoltageTrip s₀ ∧
    s₀.ctx.faultMgr.state = .shutdown ∧
    Run step (start 0) (⟨101, .canSend true⟩ :: ⟨101, .canSection⟩ :: overvoltageTrip) s₁ ∧
    (s₁.can.bus.head?.bind fun c ↦ receivedStatus c.frame).map (·.state) =
      some BmsState.normal.code := by
  have h₀ : (replay step (start 0) overvoltageTrip).map (·.ctx.faultMgr.state) =
      some .shutdown := by decide +kernel
  have h₁ : (replay step (start 0)
      (⟨101, .canSend true⟩ :: ⟨101, .canSection⟩ :: overvoltageTrip)).map (fun s ↦
        (s.can.bus.head?.bind fun c ↦ receivedStatus c.frame).map (·.state)) =
      some (some BmsState.normal.code) := by decide +kernel
  obtain ⟨s₀, hs₀, hdown⟩ := exists_run _ h₀
  obtain ⟨s₁, hs₁, hnormal⟩ := exists_run _ h₁
  exact ⟨s₀, s₁, hs₀, hdown, hs₁, hnormal⟩

def AllSent (h : List Event) : Prop := ∀ e ∈ h, e.action ≠ .canSend false

theorem run_delivered {startMs : ℕ} {h : List Event} {s : System}
    (hr : Run step (start startMs) h s) (hok : AllSent h) :
    delivered s.can.bus = reports s.can.bus := by
  have hall : ∀ c ∈ s.can.bus, c.ok = true := by
    induction hr with
    | start => simp [start, CanTask.init]
    | @next h s s' e hs he ih =>
      have ih := ih fun e he ↦ hok e (List.mem_cons_of_mem _ he)
      have hlast := hok e List.mem_cons_self
      have hgrow (d : CanEvent) (hc : s.can.step d = some s'.can) (hd : d ≠ .send false) :
          ∀ c ∈ s'.can.bus, c.ok = true := by
        rcases step_bus hc with hsame | ⟨c, hsend, hnew⟩
        · exact hsame ▸ ih
        · have hc : c.ok = true := by simpa [hsend] using hd
          rw [hnew]
          exact List.forall_mem_cons.mpr ⟨hc, ih⟩
      rcases step_can he with ⟨hsame, _⟩ | ⟨_, hc⟩ | ⟨ok, ha, hc⟩
      · exact hsame ▸ ih
      · exact hgrow _ hc (by simp)
      · apply hgrow _ hc
        intro hd
        obtain rfl : ok = false := by simpa using hd
        exact hlast ha
  exact delivered_of_ok fun c hc _ ↦ hall c hc

theorem run_graded {startMs : ℕ} {h : List Event} {s : System}
    (hr : Run step (start startMs) h s) : Graded s.can := by
  induction hr with
  | start => exact init_graded
  | @next h s s' e hs he ih =>
    rcases step_can he with ⟨hsame, _⟩ | ⟨_, hc⟩ | ⟨ok, _, hc⟩
    · exact hsame ▸ ih
    · refine ih.step hc fun snap hsnap ↦ ?_
      obtain rfl := CanEvent.snapshot.inj hsnap
      exact (run_faultMgr hs).severity_eq
    · exact ih.step hc (by simp)

structure Iterated (startMs : ℕ) (h₀ h₁ : List Event) (t : ℕ) (s₀ s : System) : Prop where
  before : Run step (start startMs) h₀ s₀
  after : Run step (start startMs) (h₁ ++ ⟨t, .canSection⟩ :: h₀) s
  sends : ∀ e ∈ h₁, e.action ≠ .canSection
  finished : s.can.pc = .idle

theorem Iterated.iteration {startMs t : ℕ} {h₀ h₁ : List Event} {s₀ s : System}
    (hi : Iterated startMs h₀ h₁ t s₀ s) :
    ∃ k, Iteration s₀.can s₀.ctx.snapshot k s.can := by
  obtain ⟨s₁, hsection, hrest⟩ := hi.after.cut hi.before
  exact run_iteration hsection rfl hrest hi.sends

theorem Iterated.last_report {startMs t : ℕ} {h₀ h₁ : List Event} {s₀ s : System}
    (hi : Iterated startMs h₀ h₁ t s₀ s) :
    lastReport (reports s.can.bus) = s₀.ctx.snapshot.faultReport := by
  obtain ⟨k, hk⟩ := hi.iteration
  exact hk.last_report hi.finished (run_tracks hi.before) (run_graded hi.before)
    (run_faultMgr hi.before).severity_eq

theorem Iterated.frozen {startMs t : ℕ} {h₀ h₁ : List Event} {s₀ s : System}
    (hi : Iterated startMs h₀ h₁ t s₀ s) (hdown : s₀.ctx.faultMgr.state = .shutdown) :
    s.ctx.faultMgr = s₀.ctx.faultMgr := by
  have hr := hi.after
  rw [List.append_cons] at hr
  exact run_shutdown (hr.rest hi.before) hdown

/-- After an iteration whose snapshot was taken in SHUTDOWN nothing more is reported. -/
theorem Iterated.settled {startMs t : ℕ} {h₀ h₁ h₂ : List Event} {s₀ s₁ s : System}
    (hi : Iterated startMs h₀ h₁ t s₀ s₁) (hdown : s₀.ctx.faultMgr.state = .shutdown)
    (hrest : Run step s₁ h₂ s) :
    s.ctx.faultMgr = s₀.ctx.faultMgr ∧ reports s.can.bus = reports s₁.can.bus := by
  obtain ⟨k, hk⟩ := hi.iteration
  have hlast : s₁.can.lastFaults = s₀.ctx.faultMgr.activeFaults := (hk.finished hi.finished).1
  have hstart : Settled (reports s₁.can.bus) s₁.can := ⟨rfl, by simp [hi.finished, CanPc.pending]⟩
  have hinv : s.ctx.faultMgr = s₀.ctx.faultMgr ∧ Tracks s.can ∧
      Settled (reports s₁.can.bus) s.can ∧
      s.can.lastFaults = s₀.ctx.faultMgr.activeFaults := by
    refine hrest.invariant (I := fun s ↦ s.ctx.faultMgr = s₀.ctx.faultMgr ∧ Tracks s.can ∧
      Settled (reports s₁.can.bus) s.can ∧ s.can.lastFaults = s₀.ctx.faultMgr.activeFaults)
      ⟨hi.frozen hdown, run_tracks hi.after, hstart, hlast⟩ ?_
    intro s e s' hi he
    obtain ⟨hfm, ht, hset, hmask⟩ := hi
    have hfm' : s'.ctx.faultMgr = s₀.ctx.faultMgr :=
      (run_shutdown (.next .start he) (hfm ▸ hdown)).trans hfm
    rcases step_can he with ⟨hsame, _⟩ | ⟨_, hc⟩ | ⟨ok, _, hc⟩
    · exact hsame ▸ ⟨hfm', ht, hset, hmask⟩
    · obtain ⟨hset', hlast'⟩ := hset.step ht hc fun snap hsnap ↦ by
        obtain rfl := CanEvent.snapshot.inj hsnap
        rw [hmask, ← hfm]
        rfl
      exact ⟨hfm', ht.step hc, hset', hlast'.trans hmask⟩
    · obtain ⟨hset', hlast'⟩ := hset.step ht hc (by simp)
      exact ⟨hfm', ht.step hc, hset', hlast'.trans hmask⟩
  exact ⟨hinv.1, hinv.2.2.1.sent⟩

/-- The FAULT_REPORTs on a bus that takes every frame: each carries the severity
of its own mask, neighbours differ, and the last one is what the last finished
iteration saw, for good once that was SHUTDOWN. -/
theorem fault_reports_sufficient {startMs : ℕ} {h : List Event} {s : System}
    (hr : Run step (start startMs) h s) (hok : AllSent h) :
    (∀ r ∈ delivered s.can.bus,
      r.severity = (FaultManager.getSeverity r.faultBitmask).code) ∧
    List.IsChain (· ≠ ·) ((delivered s.can.bus).map (·.faultBitmask)) ∧
    (∀ h₀ h₁ t s₀, h = h₁ ++ ⟨t, .canSection⟩ :: h₀ → Iterated startMs h₀ h₁ t s₀ s →
      lastReport (delivered s.can.bus) =
        ⟨s₀.ctx.faultMgr.activeFaults, s₀.ctx.faultMgr.severity.code⟩) ∧
    ∀ h₀ h₁ h₂ t s₀ s₁, h = h₂ ++ (h₁ ++ ⟨t, .canSection⟩ :: h₀) →
      Iterated startMs h₀ h₁ t s₀ s₁ → s₀.ctx.faultMgr.state = .shutdown →
      lastReport (delivered s.can.bus) =
          ⟨s₀.ctx.faultMgr.activeFaults, s₀.ctx.faultMgr.severity.code⟩ ∧
        s₀.ctx.faultMgr.activeFaults ≠ 0 ∧ s.ctx.faultMgr = s₀.ctx.faultMgr := by
  rw [run_delivered hr hok]
  refine ⟨(run_graded hr).sent, (run_tracks hr).chain.left_of_append, ?_, ?_⟩
  · intro h₀ h₁ t s₀ _ hi
    exact hi.last_report
  · intro h₀ h₁ h₂ t s₀ s₁ hcut hi hdown
    subst hcut
    obtain ⟨hfm, hsent⟩ := hi.settled hdown (hr.rest hi.after)
    rw [hsent]
    exact ⟨hi.last_report, (run_faultMgr hi.before).shutdown hdown, hfm⟩

def threeSends (t : ℕ) : List Event :=
  [⟨t, .canSend true⟩, ⟨t, .canSend true⟩, ⟨t, .canSend true⟩]

theorem fault_reports_sufficient_trip : ∃ s₀ s, Run step (start 0) overvoltageTrip s₀ ∧
    Run step (start 0) (threeSends 101 ++ ⟨101, .canSection⟩ :: overvoltageTrip) s ∧
    lastReport (delivered s.can.bus) =
      ⟨s₀.ctx.faultMgr.activeFaults, s₀.ctx.faultMgr.severity.code⟩ ∧
    s₀.ctx.faultMgr.activeFaults ≠ 0 := by
  have h₀ : (replay step (start 0) overvoltageTrip).map (·.ctx.faultMgr.state) =
      some .shutdown := by decide +kernel
  have h₁ : (replay step (start 0) (threeSends 101 ++ ⟨101, .canSection⟩ :: overvoltageTrip)).map
      (·.can.pc) = some .idle := by decide +kernel
  have hok : AllSent (threeSends 101 ++ ⟨101, .canSection⟩ :: overvoltageTrip) := by
    unfold AllSent
    decide
  obtain ⟨s₀, hs₀, hdown⟩ := exists_run _ h₀
  obtain ⟨s, hs, hidle⟩ := exists_run _ h₁
  have hi : Iterated 0 overvoltageTrip (threeSends 101) 101 s₀ s := ⟨hs₀, hs, by decide, hidle⟩
  obtain ⟨hlast, hne, _⟩ := (fault_reports_sufficient hs hok).2.2.2 overvoltageTrip
    (threeSends 101) [] 101 s₀ s rfl hi hdown
  exact ⟨s₀, s, hs₀, hs, hlast, hne⟩

/-- An evaluation of the fault task takes the manager from NORMAL or WARNING
into FAULT, with the fault mask `m`. -/
structure FaultEntry (startMs t₀ : ℕ) (h₀ : List Event) (m : UInt16) (s₀ s₁ : System) : Prop where
  before : Run step (start startMs) h₀ s₀
  calm : s₀.ctx.faultMgr.state = .normal ∨ s₀.ctx.faultMgr.state = .warning
  entry : s₀.step ⟨t₀, .faultSection⟩ = some s₁
  fault : s₁.ctx.faultMgr.state = .fault
  mask : s₁.ctx.faultMgr.activeFaults = m

theorem FaultEntry.mask_ne_zero {startMs t₀ : ℕ} {h₀ : List Event} {m : UInt16}
    {s₀ s₁ : System} (he : FaultEntry startMs t₀ h₀ m s₀ s₁) : m ≠ 0 := by
  have hinv := run_faultMgr he.before
  obtain ⟨_, hs⟩ := step_stepped he.entry
  have hfault := he.fault
  rw [← he.mask]
  cases hs with
  | faultSection now hn =>
    have hev := FaultManager.evaluate_evaluated s₀.ctx.faultMgr s₀.ctx.latestReading now
      fun hs ↦ (hinv.watchdog hs).1
    simp only [AppContext.faultSection] at hfault ⊢
    generalize s₀.ctx.faultMgr.evaluate s₀.ctx.latestReading now = fm' at hev hfault ⊢
    have hcalm := he.calm
    cases hev with
    | faulty _ hf => simpa using hf
    | calm _ _ => simp only [FaultManager.calmState_ne_fault] at hfault
    | latched hs => simp [hs] at hcalm
    | firstOk hs _ _ => simp [hs] at hcalm
    | recovered hs _ _ _ => simp [hs] at hcalm
    | waiting hs _ _ _ => simp [hs] at hcalm

/-- An iteration during a fault episode reports it if and only if the active mask
still has a bit of the entry's mask and is not on the bus already; the last
report shows such a bit in both cases. -/
theorem episode_reported_iff {startMs t₀ t : ℕ} {h₀ h₁ h₂ : List Event} {m : UInt16}
    {s₀ s₁ s₂ s : System} (he : FaultEntry startMs t₀ h₀ m s₀ s₁)
    (hi : Iterated startMs (h₁ ++ ⟨t₀, .faultSection⟩ :: h₀) h₂ t s₂ s)
    (hok : AllSent (h₂ ++ ⟨t, .canSection⟩ :: (h₁ ++ ⟨t₀, .faultSection⟩ :: h₀))) :
    m ≠ 0 ∧ ∃ new, delivered s.can.bus = new ++ delivered s₂.can.bus ∧
      ((∃ r ∈ new, r.faultBitmask &&& m ≠ 0) ↔ s₂.ctx.faultMgr.activeFaults &&& m ≠ 0 ∧
        s₂.ctx.faultMgr.activeFaults ≠ lastMask (delivered s₂.can.bus)) ∧
      (s₂.ctx.faultMgr.activeFaults &&& m ≠ 0 → lastMask (delivered s.can.bus) &&& m ≠ 0) := by
  have hok₂ : AllSent (h₁ ++ ⟨t₀, .faultSection⟩ :: h₀) := fun e hm ↦
    hok e (List.mem_append_right _ (List.mem_cons_of_mem _ hm))
  obtain ⟨k, hk⟩ := hi.iteration
  have hlast : s₂.can.lastFaults = lastMask (reports s₂.can.bus) := (run_tracks hi.before).last
  have hend : lastMask (reports s.can.bus) = s₂.ctx.faultMgr.activeFaults :=
    congrArg FaultReport.faultBitmask hi.last_report
  rw [run_delivered hi.after hok, run_delivered hi.before hok₂, hend, ← hlast]
  refine ⟨he.mask_ne_zero, ?_⟩
  obtain ⟨_, ⟨hf, hsame⟩ | ⟨hf, hnew⟩⟩ := hk.finished hi.finished
  · refine ⟨[], hsame, ?_, id⟩
    refine iff_of_false (by simp) ?_
    intro hboth
    obtain ⟨_, hne⟩ := hboth
    exact hne hf
  · refine ⟨[s₂.ctx.snapshot.faultReport], hnew, ?_, id⟩
    constructor
    · intro hnew
      obtain ⟨r, hr, hbit⟩ := hnew
      obtain rfl := List.mem_singleton.mp hr
      exact ⟨hbit, hf⟩
    · intro hboth
      obtain ⟨hbit, _⟩ := hboth
      exact ⟨_, List.mem_singleton_self _, hbit⟩

def lowSample : CellReading := .uniform 2950 25 0

def beforeLow : List Event := [⟨50, .faultClock⟩, ⟨50, .sensorSection lowSample⟩]

theorem low_entry : ∃ s₀ s₁, FaultEntry 0 50 beforeLow faultBitUndervoltage s₀ s₁ := by
  have h₀ : (replay step (start 0) beforeLow).map (·.ctx.faultMgr.state) = some .normal := by
    decide +kernel
  have h₁ : (replay step (start 0) (⟨50, .faultSection⟩ :: beforeLow)).map (fun s ↦
      (s.ctx.faultMgr.state, s.ctx.faultMgr.activeFaults)) =
      some (.fault, faultBitUndervoltage) := by decide +kernel
  obtain ⟨s₀, hs₀, hnormal⟩ := exists_run _ h₀
  obtain ⟨s₁, hs₁, hfault⟩ := exists_run _ h₁
  obtain ⟨hstate, hmask⟩ := Prod.mk.inj hfault
  obtain ⟨s₀', hs₀', hstep⟩ := run_cons_iff.mp hs₁
  obtain rfl := hs₀'.det hs₀
  exact ⟨s₀', s₁, hs₀, .inl hnormal, hstep, hstate, hmask⟩

theorem episode_reported_iff_low : ∃ s₂ s : System, Run step (start 0)
      (threeSends 60 ++ ⟨60, .canSection⟩ :: ([] ++ ⟨50, .faultSection⟩ :: beforeLow)) s ∧
    ∃ new, delivered s.can.bus = new ++ delivered s₂.can.bus ∧
      ((∃ r ∈ new, r.faultBitmask &&& faultBitUndervoltage ≠ 0) ↔
        s₂.ctx.faultMgr.activeFaults &&& faultBitUndervoltage ≠ 0 ∧
        s₂.ctx.faultMgr.activeFaults ≠ lastMask (delivered s₂.can.bus)) := by
  have h₂ : (replay step (start 0) ([] ++ ⟨50, .faultSection⟩ :: beforeLow)).map (fun _ ↦ ()) =
      some () := by decide +kernel
  have h₁ : (replay step (start 0) (threeSends 60 ++ ⟨60, .canSection⟩ ::
      ([] ++ ⟨50, .faultSection⟩ :: beforeLow))).map (·.can.pc) = some .idle := by decide +kernel
  have hok : AllSent (threeSends 60 ++ ⟨60, .canSection⟩ ::
      ([] ++ ⟨50, .faultSection⟩ :: beforeLow)) := by
    unfold AllSent
    decide
  obtain ⟨s₂, hs₂, _⟩ := exists_run _ h₂
  obtain ⟨s, hs, hidle⟩ := exists_run _ h₁
  obtain ⟨_, _, hentry⟩ := low_entry
  obtain ⟨_, new, hnew, hiff, _⟩ :=
    episode_reported_iff hentry ⟨hs₂, hs, by decide, hidle⟩ hok
  exact ⟨s₂, s, hs, new, hnew, hiff⟩

def recovered : List Event :=
  [⟨100, .faultSection⟩, ⟨100, .faultClock⟩, ⟨100, .sensorSection .nominal⟩] ++
    ⟨50, .faultSection⟩ :: beforeLow

def twoSends (t : ℕ) : List Event := [⟨t, .canSend true⟩, ⟨t, .canSend true⟩]

theorem episode_unreported :
    (∃ s₀ s₁, FaultEntry 0 50 beforeLow faultBitUndervoltage s₀ s₁) ∧
    (∃ s₂ s, Iterated 0 recovered (twoSends 110) 110 s₂ s ∧ s.ctx.faultMgr.state = .fault) ∧
    ∃ s, Run step (start 0) ([⟨400, .faultSection⟩, ⟨400, .faultClock⟩] ++
        (twoSends 110 ++ ⟨110, .canSection⟩ :: recovered)) s ∧
      s.ctx.faultMgr.state = .normal ∧ delivered s.can.bus = [] := by
  have h₂ : (replay step (start 0) recovered).map (fun _ ↦ ()) = some () := by decide +kernel
  have h₁ : (replay step (start 0) (twoSends 110 ++ ⟨110, .canSection⟩ :: recovered)).map
      (fun s ↦ (s.can.pc, s.ctx.faultMgr.state)) = some (.idle, .fault) := by decide +kernel
  have h₃ : (replay step (start 0) ([⟨400, .faultSection⟩, ⟨400, .faultClock⟩] ++
      (twoSends 110 ++ ⟨110, .canSection⟩ :: recovered))).map (fun s ↦
        (s.ctx.faultMgr.state, delivered s.can.bus)) = some (.normal, []) := by decide +kernel
  obtain ⟨s₂, hs₂, _⟩ := exists_run _ h₂
  obtain ⟨s₁, hs₁, hpc⟩ := exists_run _ h₁
  obtain ⟨s, hs, hnormal⟩ := exists_run _ h₃
  obtain ⟨hidle, hfault⟩ := Prod.mk.inj hpc
  obtain ⟨hstate, hnone⟩ := Prod.mk.inj hnormal
  exact ⟨low_entry, ⟨s₂, s₁, ⟨hs₂, hs₁, by decide, hidle⟩, hfault⟩, s, hs, hstate, hnone⟩

end System

end BmsFirmware
