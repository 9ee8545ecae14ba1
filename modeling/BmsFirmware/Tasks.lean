import BmsFirmware.AppContext
import BmsFirmware.FaultRun
import BmsFirmware.Lib.History

namespace BmsFirmware

open Lib.History Lib.Tick

inductive WatchdogPc
  | idle
  | sampled (now : UInt32)
  | stale (now : UInt32)
deriving DecidableEq, Repr

/-- The shared context with what the tasks hold outside their locked sections. -/
structure System where
  clockMs : ℕ
  ctx : AppContext
  faultNow : Option UInt32
  can : CanTask
  watchdog : WatchdogPc

/-- The atomic steps of the five tasks: a clock reading outside the lock, a
locked section, or a call of `can_hal_send`. -/
inductive Action
  | sensorSection (reading : CellReading)
  | socSection
  | faultClock
  | faultSection
  | canSection
  | canSend (ok : Bool)
  | watchdogClock
  | watchdogCopy
  | watchdogReport
deriving DecidableEq, Repr

structure Event where
  timeMs : ℕ
  action : Action
deriving DecidableEq, Repr

namespace System

def start (startMs : ℕ) : System where
  clockMs := startMs
  ctx := .init
  faultNow := none
  can := .init
  watchdog := .idle

def fire (s : System) (tickMs : UInt32) : Action → Option System
  | .sensorSection reading => some { s with ctx := s.ctx.sensorSection reading tickMs }
  | .socSection => some { s with ctx := s.ctx.socSection tickMs }
  | .faultClock =>
    match s.faultNow with
    | none => some { s with faultNow := some tickMs }
    | some _ => none
  | .faultSection =>
    match s.faultNow with
    | some now => some { s with ctx := s.ctx.faultSection now, faultNow := none }
    | none => none
  | .canSection => (s.can.step (.snapshot s.ctx.snapshot)).map fun can ↦ { s with can := can }
  | .canSend ok => (s.can.step (.send ok)).map fun can ↦ { s with can := can }
  | .watchdogClock =>
    match s.watchdog with
    | .idle => some { s with watchdog := .sampled tickMs }
    | _ => none
  | .watchdogCopy =>
    match s.watchdog with
    | .sampled now =>
      some { s with watchdog := if s.ctx.heartbeats.stale now then .stale now else .idle }
    | _ => none
  | .watchdogReport =>
    match s.watchdog with
    | .stale now => some { s with ctx := s.ctx.watchdogSection now, watchdog := .idle }
    | _ => none

/-- The clock never runs backwards; ticks are its time modulo `2 ^ 32`. -/
def step (s : System) (e : Event) : Option System :=
  if s.clockMs ≤ e.timeMs then
    (s.fire (tick e.timeMs) e.action).map fun s ↦ { s with clockMs := e.timeMs }
  else none

inductive Stepped (s : System) (t : ℕ) : Action → System → Prop
  | sensorSection (reading : CellReading) : Stepped s t (.sensorSection reading)
      { s with clockMs := t, ctx := s.ctx.sensorSection reading (tick t) }
  | socSection : Stepped s t .socSection { s with clockMs := t, ctx := s.ctx.socSection (tick t) }
  | faultClock (hn : s.faultNow = none) :
      Stepped s t .faultClock { s with clockMs := t, faultNow := some (tick t) }
  | faultSection (now : UInt32) (hn : s.faultNow = some now) : Stepped s t .faultSection
      { s with clockMs := t, ctx := s.ctx.faultSection now, faultNow := none }
  | canSection (can : CanTask) (hc : s.can.step (.snapshot s.ctx.snapshot) = some can) :
      Stepped s t .canSection { s with clockMs := t, can := can }
  | canSend (ok : Bool) (can : CanTask) (hc : s.can.step (.send ok) = some can) :
      Stepped s t (.canSend ok) { s with clockMs := t, can := can }
  | watchdogClock (hw : s.watchdog = .idle) :
      Stepped s t .watchdogClock { s with clockMs := t, watchdog := .sampled (tick t) }
  | watchdogCopy (now : UInt32) (hw : s.watchdog = .sampled now) : Stepped s t .watchdogCopy
      { s with
        clockMs := t
        watchdog := if s.ctx.heartbeats.stale now then .stale now else .idle }
  | watchdogReport (now : UInt32) (hw : s.watchdog = .stale now) : Stepped s t .watchdogReport
      { s with clockMs := t, ctx := s.ctx.watchdogSection now, watchdog := .idle }

theorem fire_stepped {s s₁ : System} {t : ℕ} {a : Action} (h : s.fire (tick t) a = some s₁) :
    Stepped s t a { s₁ with clockMs := t } := by
  cases a with
  | sensorSection reading => exact Option.some.inj h ▸ .sensorSection reading
  | socSection => exact Option.some.inj h ▸ .socSection
  | faultClock =>
    cases hn : s.faultNow with
    | none =>
      simp only [fire, hn, Option.some.injEq] at h
      exact h ▸ .faultClock hn
    | some now => simp [fire, hn] at h
  | faultSection =>
    cases hn : s.faultNow with
    | none => simp [fire, hn] at h
    | some now =>
      simp only [fire, hn, Option.some.injEq] at h
      exact h ▸ .faultSection now hn
  | canSection =>
    obtain ⟨can, hc, rfl⟩ := Option.map_eq_some_iff.mp h
    exact .canSection can hc
  | canSend ok =>
    obtain ⟨can, hc, rfl⟩ := Option.map_eq_some_iff.mp h
    exact .canSend ok can hc
  | watchdogClock =>
    cases hw : s.watchdog with
    | idle =>
      simp only [fire, hw, Option.some.injEq] at h
      exact h ▸ .watchdogClock hw
    | _ => simp [fire, hw] at h
  | watchdogCopy =>
    cases hw : s.watchdog with
    | sampled now =>
      simp only [fire, hw, Option.some.injEq] at h
      exact h ▸ .watchdogCopy now hw
    | _ => simp [fire, hw] at h
  | watchdogReport =>
    cases hw : s.watchdog with
    | stale now =>
      simp only [fire, hw, Option.some.injEq] at h
      exact h ▸ .watchdogReport now hw
    | _ => simp [fire, hw] at h

theorem step_stepped {s s' : System} {t : ℕ} {a : Action} (h : s.step ⟨t, a⟩ = some s') :
    s.clockMs ≤ t ∧ Stepped s t a s' := by
  unfold step at h
  split_ifs at h with hclock
  obtain ⟨s₁, hf, rfl⟩ := Option.map_eq_some_iff.mp h
  exact ⟨hclock, fire_stepped hf⟩

theorem step_of_fire {s s' : System} {t : ℕ} {a : Action} (h : s.clockMs ≤ t)
    (hf : s.fire (tick t) a = some s') : s.step ⟨t, a⟩ = some { s' with clockMs := t } := by
  rw [step, if_pos h, hf]
  rfl

theorem step_clock {s s' : System} {e : Event} (h : s.step e = some s') :
    s.clockMs ≤ e.timeMs ∧ s'.clockMs = e.timeMs := by
  obtain ⟨t, a⟩ := e
  obtain ⟨hclock, hs⟩ := step_stepped h
  cases hs <;> exact ⟨hclock, rfl⟩

theorem step_faultMgr {s s' : System} {e : Event} (h : s.step e = some s') :
    s'.ctx.faultMgr = s.ctx.faultMgr ∨ ∃ c, s'.ctx.faultMgr = s.ctx.faultMgr.call c := by
  obtain ⟨t, a⟩ := e
  obtain ⟨_, hs⟩ := step_stepped h
  have hnow (now : UInt32) : tick now.toNat = now := UInt32.ofNat_toNat
  cases hs with
  | faultSection now hn =>
    refine .inr ⟨⟨now.toNat, .evaluate s.ctx.latestReading⟩, ?_⟩
    simp only [FaultManager.call, hnow]
    rfl
  | watchdogReport now hw =>
    refine .inr ⟨⟨now.toNat, .reportWatchdogFault⟩, ?_⟩
    simp only [FaultManager.call, hnow]
    rfl
  | _ => exact .inl rfl

theorem run_faultMgr {startMs : ℕ} {h : List Event} {s : System}
    (hr : Run step (start startMs) h s) : FaultManager.Inv s.ctx.faultMgr := by
  refine hr.invariant (I := fun s ↦ FaultManager.Inv s.ctx.faultMgr) FaultManager.init_inv ?_
  intro s e s' hi he
  rcases step_faultMgr he with hsame | ⟨c, hc⟩
  · exact hsame ▸ hi
  · exact hc ▸ hi.call c

theorem run_shutdown {s s' : System} {h : List Event} (hr : Run step s h s')
    (hs : s.ctx.faultMgr.state = .shutdown) : s'.ctx.faultMgr = s.ctx.faultMgr := by
  refine hr.invariant (I := fun s' ↦ s'.ctx.faultMgr = s.ctx.faultMgr) rfl ?_
  intro s₁ e s₂ hi he
  rcases step_faultMgr he with hsame | ⟨c, hc⟩
  · exact hsame.trans hi
  · rw [hc, hi]
    exact FaultManager.shutdown_call c hs

theorem step_can {s s' : System} {e : Event} (h : s.step e = some s') :
    (s'.can = s.can ∧ e.action ≠ .canSection ∧ ∀ ok, e.action ≠ .canSend ok) ∨
    (e.action = .canSection ∧ s.can.step (.snapshot s.ctx.snapshot) = some s'.can) ∨
    ∃ ok, e.action = .canSend ok ∧ s.can.step (.send ok) = some s'.can := by
  obtain ⟨t, a⟩ := e
  obtain ⟨_, hs⟩ := step_stepped h
  cases hs with
  | canSection can hc => exact .inr (.inl ⟨rfl, hc⟩)
  | canSend ok can hc => exact .inr (.inr ⟨ok, rfl, hc⟩)
  | _ => exact .inl ⟨rfl, by simp, by simp⟩

theorem run_tracks {startMs : ℕ} {h : List Event} {s : System}
    (hr : Run step (start startMs) h s) : CanTask.Tracks s.can := by
  refine hr.invariant (I := fun s ↦ CanTask.Tracks s.can) CanTask.init_tracks ?_
  intro s e s' ht he
  rcases step_can he with ⟨hsame, _⟩ | ⟨_, hc⟩ | ⟨ok, _, hc⟩
  · exact hsame ▸ ht
  · exact ht.step hc
  · exact ht.step hc

/-- The part of a run between two snapshots is a stretch of sends for the can task. -/
theorem run_sends {s s' : System} {h : List Event} (hr : Run step s h s')
    (hh : ∀ e ∈ h, e.action ≠ .canSection) (P : Bool → Prop)
    (hok : ∀ e ∈ h, ∀ ok, e.action = .canSend ok → P ok) :
    ∃ k, Run CanTask.step s.can k s'.can ∧ ∀ d ∈ k, ∃ ok, d = .send ok ∧ P ok := by
  refine hr.component System.can (fun e ↦ e.action ≠ .canSection ∧
    ∀ ok, e.action = .canSend ok → P ok) (fun d ↦ ∃ ok, d = CanEvent.send ok ∧ P ok) ?_
    fun e he ↦ ⟨hh e he, hok e he⟩
  intro s e s' hquiet he
  obtain ⟨hne, hP⟩ := hquiet
  rcases step_can he with ⟨hsame, _⟩ | ⟨ha, _⟩ | ⟨ok, ha, hc⟩
  · exact .inl hsame
  · exact absurd ha hne
  · exact .inr ⟨.send ok, ⟨ok, rfl, hP ok ha⟩, hc⟩

theorem run_iteration {s₀ s₁ s₂ : System} {e : Event} {h : List Event}
    (he : s₀.step e = some s₁) (ha : e.action = .canSection) (hr : Run step s₁ h s₂)
    (hh : ∀ e ∈ h, e.action ≠ .canSection) :
    ∃ k, CanTask.Iteration s₀.can s₀.ctx.snapshot k s₂.can := by
  obtain ⟨k, hk, hsend⟩ := run_sends hr hh (fun _ ↦ True) fun _ _ _ _ ↦ trivial
  rcases step_can he with ⟨_, hne, _⟩ | ⟨_, hc⟩ | ⟨ok, hne, _⟩
  · exact absurd ha hne
  · exact ⟨k, CanTask.iteration_of_run hc hk fun d hd ↦ (hsend d hd).imp fun _ hd ↦ hd.1⟩
  · exact nomatch ha.symm.trans hne

end System

end BmsFirmware
