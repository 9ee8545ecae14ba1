import BmsFirmware.Telemetry

namespace BmsFirmware

open Config CanProtocol Lib.History Lib.Tick CanTask

namespace System

def Published (h : List Event) (r : CellReading) : Prop :=
  r = AppContext.init.latestReading ∨ ∃ t, ⟨t, .sensorSection r⟩ ∈ h

/-- One iteration of the soc task, now over, wrote all the values of `st`, from
the reading that `latest_reading` held at the time. -/
def Computed (startMs : ℕ) (h : List Event) (st : BmsStatus) : Prop :=
  ∃ t h₁ s₁, ⟨t, .socSection⟩ :: h₁ <:+ h ∧ Run step (start startMs) h₁ s₁ ∧
    Published h₁ s₁.ctx.latestReading ∧ st = (s₁.ctx.socSection (tick t)).status

def SocRan (h : List Event) : Prop := ∃ e ∈ h, e.action = .socSection

/-- In the run `h` the can task hands over a BMS_STATUS with the contents `st`,
the first frame after the snapshot it took at the end of `h₁`. -/
def SendsStatus (startMs : ℕ) (h h₁ : List Event) (st : BmsStatus) : Prop :=
  ∃ t₁ t₂ ok h₂ s c, ⟨t₂, .canSend ok⟩ :: (h₂ ++ ⟨t₁, .canSection⟩ :: h₁) <:+ h ∧
    (∀ e ∈ h₂, e.action ≠ .canSection ∧ ∀ ok, e.action ≠ .canSend ok) ∧
    Run step (start startMs) (⟨t₂, .canSend ok⟩ :: (h₂ ++ ⟨t₁, .canSection⟩ :: h₁)) s ∧
    s.can.bus.head? = some c ∧ receivedStatus c.frame = some st

theorem Published.cons {h : List Event} {r : CellReading} (hp : Published h r) (e : Event) :
    Published (e :: h) r := by
  rcases hp with hseed | ⟨t, hmem⟩
  · exact .inl hseed
  · exact .inr ⟨t, List.mem_cons_of_mem e hmem⟩

theorem Computed.cons {startMs : ℕ} {h : List Event} {st : BmsStatus}
    (hc : Computed startMs h st) (e : Event) : Computed startMs (e :: h) st := by
  obtain ⟨t, h₁, s₁, hsuf, hrest⟩ := hc
  exact ⟨t, h₁, s₁, hsuf.trans (List.suffix_cons e h), hrest⟩

theorem SendsStatus.cons {startMs : ℕ} {h h₁ : List Event} {st : BmsStatus}
    (hs : SendsStatus startMs h h₁ st) (e : Event) : SendsStatus startMs (e :: h) h₁ st := by
  obtain ⟨t₁, t₂, ok, h₂, s, c, hsuf, hrest⟩ := hs
  exact ⟨t₁, t₂, ok, h₂, s, c, hsuf.trans (List.suffix_cons e h), hrest⟩

theorem run_published {startMs : ℕ} {h : List Event} {s : System}
    (hr : Run step (start startMs) h s) : Published h s.ctx.latestReading := by
  refine hr.history_invariant (R := fun h s ↦ Published h s.ctx.latestReading) (.inl rfl) ?_
  intro h s e s' hp he
  obtain ⟨t, a⟩ := e
  obtain ⟨_, hst⟩ := step_stepped he
  cases hst with
  | sensorSection reading => exact .inr ⟨t, List.mem_cons_self⟩
  | _ => exact hp.cons _

theorem run_computed {startMs : ℕ} {h : List Event} {s : System}
    (hr : Run step (start startMs) h s) (hran : SocRan h) : Computed startMs h s.ctx.status := by
  induction hr with
  | start => exact (List.not_mem_nil hran.choose_spec.1).elim
  | @next h s s' e hs he ih =>
    obtain ⟨t, a⟩ := e
    obtain ⟨e₀, hmem, ha⟩ := hran
    obtain ⟨_, hst⟩ := step_stepped he
    have hold (hne : a ≠ .socSection) : Computed startMs (⟨t, a⟩ :: h) s.ctx.status := by
      rcases List.mem_cons.mp hmem with rfl | hmem
      · exact absurd ha hne
      · exact (ih ⟨e₀, hmem, ha⟩).cons _
    cases hst with
    | socSection => exact ⟨t, h, s, List.suffix_rfl, hs, run_published hs, rfl⟩
    | _ => exact hold (by simp)

theorem Computed.socRan {startMs : ℕ} {h : List Event} {st : BmsStatus}
    (hc : Computed startMs h st) : SocRan h := by
  obtain ⟨t, h₁, _, hsuf, _⟩ := hc
  exact ⟨⟨t, .socSection⟩, hsuf.mem List.mem_cons_self, rfl⟩

theorem SendsStatus.computed_iff {startMs : ℕ} {h h₁ : List Event} {st : BmsStatus}
    (hs : SendsStatus startMs h h₁ st) : Computed startMs h₁ st ↔ SocRan h₁ := by
  obtain ⟨t₁, t₂, ok, h₂, s, c, _, hh, hr, hhead, hrec⟩ := hs
  obtain ⟨s₁, c', hr₁, hhead', hrec'⟩ := first_send_status hr hh
  obtain rfl := Option.some.inj (hhead.symm.trans hhead')
  obtain rfl := Option.some.inj (hrec.symm.trans hrec')
  exact ⟨Computed.socRan, run_computed hr₁⟩

/-- In front of the status frame the can task has done nothing since its snapshot. -/
theorem run_awaiting {startMs : ℕ} {h : List Event} {s : System} {snap : Snapshot}
    (hr : Run step (start startMs) h s) (hpc : s.can.pc = .status snap) :
    ∃ t₁ h₁ h₂, h = h₂ ++ ⟨t₁, .canSection⟩ :: h₁ ∧
      ∀ e ∈ h₂, e.action ≠ .canSection ∧ ∀ ok, e.action ≠ .canSend ok := by
  induction hr with
  | start => simp [start, CanTask.init] at hpc
  | @next h s s' e hs he ih =>
    rcases step_can he with ⟨hsame, hquiet⟩ | ⟨ha, _⟩ | ⟨ok, _, hc⟩
    · obtain ⟨t₁, h₁, h₂, rfl, hh⟩ := ih (hsame ▸ hpc)
      exact ⟨t₁, h₁, e :: h₂, rfl, List.forall_mem_cons.mpr ⟨hquiet, hh⟩⟩
    · obtain ⟨t, a⟩ := e
      obtain rfl : a = .canSection := ha
      exact ⟨t, h, [], rfl, by simp⟩
    · exact absurd hpc ((step_send hc).1 snap)

theorem run_sendsStatus {startMs : ℕ} {h : List Event} {s : System}
    (hr : Run step (start startMs) h s) {c : Sent} (hc : c ∈ s.can.bus) {st : BmsStatus}
    (hst : receivedStatus c.frame = some st) :
    ∃ t h₁, ⟨t, .canSection⟩ :: h₁ <:+ h ∧ SendsStatus startMs h h₁ st := by
  induction hr with
  | start => simp [start, CanTask.init] at hc
  | @next h s s' e hs he ih =>
    have hold (hc : c ∈ s.can.bus) :
        ∃ t h₁, ⟨t, .canSection⟩ :: h₁ <:+ e :: h ∧ SendsStatus startMs (e :: h) h₁ st := by
      obtain ⟨t, h₁, hsuf, hsends⟩ := ih hc
      exact ⟨t, h₁, hsuf.trans (List.suffix_cons e h), hsends.cons e⟩
    rcases step_can he with ⟨hsame, _⟩ | ⟨_, hcan⟩ | ⟨ok, ha, hcan⟩
    · exact hold (hsame ▸ hc)
    · rcases step_bus hcan with hsame | ⟨_, hsend, _⟩
      · exact hold (hsame ▸ hc)
      · simp at hsend
    · obtain ⟨_, c', hbus, hsnap⟩ := step_send hcan
      rcases List.mem_cons.mp (hbus ▸ hc) with rfl | hc
      · obtain ⟨t, a⟩ := e
        obtain rfl : a = .canSend ok := ha
        obtain ⟨snap, hpc⟩ := hsnap st hst
        obtain ⟨t₁, h₁, h₂, rfl, hh⟩ := run_awaiting hs hpc
        refine ⟨t₁, h₁, ?_, t₁, t, ok, h₂, s', c, List.suffix_rfl, hh, hs.next he, ?_, hst⟩
        · exact (List.suffix_append h₂ _).trans (List.suffix_cons _ _)
        · rw [hbus, List.head?_cons]
      · exact hold hc

/-- A BMS_STATUS carries computed values exactly when the soc task has run before
the snapshot; so all do in a run whose first snapshot waits for the soc task. -/
theorem status_computed_iff {startMs : ℕ} {h : List Event} {s : System}
    (hr : Run step (start startMs) h s) :
    (∀ h₁ st, SendsStatus startMs h h₁ st → (Computed startMs h₁ st ↔ SocRan h₁)) ∧
    ((∀ t h₁, ⟨t, .canSection⟩ :: h₁ <:+ h → SocRan h₁) →
      ∀ c ∈ s.can.bus, ∀ st, receivedStatus c.frame = some st →
        ∃ h₁, SendsStatus startMs h h₁ st ∧ Computed startMs h₁ st) := by
  refine ⟨fun h₁ st hs ↦ hs.computed_iff, ?_⟩
  intro hran c hc st hst
  obtain ⟨t, h₁, hsuf, hs⟩ := run_sendsStatus hr hc hst
  exact ⟨h₁, hs, hs.computed_iff.mpr (hran t h₁ hsuf)⟩

def socFirst : List Event :=
  [⟨0, .canSend true⟩, ⟨0, .canSection⟩, ⟨0, .socSection⟩]

theorem status_computed_iff_soc_first : ∃ s c st, Run step (start 0) socFirst s ∧
    c ∈ s.can.bus ∧ receivedStatus c.frame = some st ∧
    ∃ h₁, SendsStatus 0 socFirst h₁ st ∧ Computed 0 h₁ st := by
  have hv : (replay step (start 0) socFirst).map (·.can.bus.length) = some 1 := by
    decide +kernel
  obtain ⟨s, hs, hlen⟩ := exists_run _ hv
  obtain ⟨_, c, _, hhead, hst⟩ := first_send_status
    (show Run step (start 0) (⟨0, .canSend true⟩ :: ([] ++ ⟨0, .canSection⟩ ::
      [⟨0, .socSection⟩])) s from hs) (by simp)
  have hc : c ∈ s.can.bus := List.mem_of_mem_head? hhead
  refine ⟨s, c, _, hs, hc, hst, (status_computed_iff hs).2 ?_ c hc _ hst⟩
  intro t h₁ hsuf
  simp only [socFirst, List.suffix_cons_iff, List.suffix_nil, List.cons.injEq, Event.mk.injEq,
    reduceCtorEq, and_false, false_and, false_or, or_false] at hsuf
  exact ⟨⟨0, .socSection⟩, by simp [hsuf.2], rfl⟩

def canFirst : List Event := [⟨0, .canSend true⟩, ⟨0, .canSection⟩]

/-- The can task sends the cleared status of a context no soc iteration has touched. -/
theorem status_uncomputed : ∃ s, Run step (start 0) canFirst s ∧
    (s.can.bus.head?.bind fun c ↦ receivedStatus c.frame) = some ⟨0, 0, 0, 0⟩ ∧
    ∀ h₁ st, h₁ <:+ canFirst → ¬ Computed 0 h₁ st := by
  have hv : (replay step (start 0) canFirst).map
      (fun s ↦ s.can.bus.head?.bind fun c ↦ receivedStatus c.frame) =
      some (some ⟨0, 0, 0, 0⟩) := by decide +kernel
  obtain ⟨s, hs, hzero⟩ := exists_run _ hv
  refine ⟨s, hs, hzero, ?_⟩
  intro h₁ st hsuf hc
  obtain ⟨e, hmem, ha⟩ := hc.socRan
  have hquiet : ∀ e ∈ canFirst, e.action ≠ .socSection := by decide
  exact hquiet e (hsuf.mem hmem) ha

end System

end BmsFirmware
