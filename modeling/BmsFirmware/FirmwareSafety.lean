import BmsFirmware.Firmware
import BmsFirmware.Lib.ThreadTermination

namespace BmsFirmware.Firmware

open Config Lib.Threads Lib.History

section Codes

variable {α : Type} {k : Code sig (Locals α)}

@[simp] theorem total_osalGetTickMs {f : UInt32 → Locals α → Locals α} :
    Lib.Threads.Total (osalGetTickMs f k) ↔ Lib.Threads.Total k := by
  refine and_iff_right fun e l ↦ ⟨e.clockMs, ?_⟩
  simp [clocked]

/-- Late enough, a sleeping thread wakes up. -/
@[simp] theorem total_osalTaskDelayMs (ms : UInt32) :
    Lib.Threads.Total (osalTaskDelayMs ms : Code sig (Locals α)) := by
  refine ⟨fun e l ↦ ⟨e.clockMs, ?_⟩, fun e l ↦ ⟨max e.clockMs l.wakeMs, ?_⟩, trivial⟩
  · simp [clocked]
  · simp [clocked]

@[simp] theorem total_osalRequestShutdown :
    Lib.Threads.Total (osalRequestShutdown k) ↔ Lib.Threads.Total k :=
  and_iff_right fun _ _ ↦ ⟨0, _, rfl⟩

@[simp] theorem total_setVars {f : α → α} :
    Lib.Threads.Total (setVars f k) ↔ Lib.Threads.Total k :=
  and_iff_right fun _ _ ↦ ⟨0, _, rfl⟩

def Ended (e : Env) : Prop := e.shutdown = true

theorem exits_clocked {ready : ℕ → Locals α → Bool} {f : ℕ → Locals α → Locals α} :
    Exits Ended (.act (clocked ready f) k) ↔ Exits Ended k := by
  refine and_iff_right fun nowMs e l r he hr ↦ ?_
  simp only [clocked, Option.ite_none_right_eq_some, Option.some.injEq] at hr
  obtain ⟨_, rfl⟩ := hr
  exact he

@[simp] theorem exits_osalGetTickMs {f : UInt32 → Locals α → Locals α} :
    Exits Ended (osalGetTickMs f k) ↔ Exits Ended k :=
  exits_clocked

@[simp] theorem exits_osalTaskDelayMs (ms : UInt32) :
    Exits Ended (osalTaskDelayMs ms : Code sig (Locals α)) :=
  exits_clocked.mpr (exits_clocked.mpr trivial)

@[simp] theorem exits_osalRequestShutdown :
    Exits Ended (osalRequestShutdown k) ↔ Exits Ended k := by
  refine and_iff_right fun _ e l r _ hr ↦ ?_
  obtain rfl := Option.some.inj hr
  rfl

@[simp] theorem exits_setVars {f : α → α} : Exits Ended (setVars f k) ↔ Exits Ended k := by
  refine and_iff_right fun _ e l r he hr ↦ ?_
  obtain rfl := Option.some.inj hr
  exact he

@[simp] theorem notShutdown_ended {e : Env} {l : Locals α} (he : Ended e) :
    notShutdown e l = false := by
  rw [notShutdown, show e.shutdown = true from he]
  rfl

end Codes

theorem deliver_exits (l : List (Fin VirtualBus.maxSubscribers)) :
    Lib.Threads.Total (deliver l) ∧ Exits Ended (deliver l) := by
  induction l with
  | nil => exact ⟨trivial, trivial⟩
  | cons i l ih =>
    have hcall : Lib.Threads.Total (callback .onChargeCommand) ∧
        Exits Ended (callback .onChargeCommand) := by
      simp [callback, onChargeCommand, logMsg, printf, Lib.Threads.Total, Exits]
    exact ⟨⟨hcall.1, trivial, ih.1⟩, hcall.2, trivial, ih.2⟩

theorem canHalSend_exits : Lib.Threads.Total canHalSend ∧ Exits Ended canHalSend := by
  have hd := deliver_exits (List.finRange VirtualBus.maxSubscribers)
  simp [canHalSend, Lib.Threads.Total, Exits, hd]

theorem body_total (argv : List String) (t : Thread) : Lib.Threads.Total (body argv t) := by
  cases t with
  | main =>
    simp [body, mainBody, initialise, runTasks, logMsg, printf, canHalInit, appContextInit,
      canHalShutdown, readCtx, writeCtx, Lib.Threads.Total]
  | sensor => simp [body, taskSensorMain, logMsg, printf, writeCtx, Lib.Threads.Total]
  | soc => simp [body, taskSocMain, logMsg, printf, readCtx, writeCtx, Lib.Threads.Total]
  | fault =>
    simp [body, taskFaultMain, logChange, logMsg, printf, readCtx, writeCtx, Lib.Threads.Total]
  | can =>
    simp [body, taskCanMain, broadcast, canHalSubscribe, logMsg, printf, readCtx, Lib.Threads.Total,
      canHalSend_exits]
  | watchdog =>
    simp [body, taskWatchdogMain, reportStale, logMsg, printf, readCtx, writeCtx,
      Lib.Threads.Total]

theorem body_exits (argv : List String) (t : Thread) : Exits Ended (body argv t) := by
  cases t with
  | main =>
    simp [body, mainBody, initialise, runTasks, logMsg, printf, canHalInit, appContextInit,
      canHalShutdown, readCtx, writeCtx, Exits]
  | sensor =>
    simp +contextual [body, taskSensorMain, logMsg, printf, writeCtx, Exits]
  | soc =>
    simp +contextual [body, taskSocMain, logMsg, printf, readCtx, writeCtx, Exits]
  | fault =>
    simp +contextual [body, taskFaultMain, logChange, logMsg, printf, readCtx, writeCtx, Exits]
  | can =>
    simp +contextual [body, taskCanMain, broadcast, canHalSubscribe, logMsg, printf, readCtx, Exits,
      canHalSend_exits]
  | watchdog =>
    simp +contextual [body, taskWatchdogMain, reportStale, logMsg, printf, readCtx, writeCtx, Exits]

variable (argv : List String) (locals : ∀ t : Thread, Locals t.Vars)

theorem program_checked : Checked (program argv locals) discipline where
  root := by rfl
  threads := by
    intro t ht
    cases t with
    | main => exact absurd rfl ht
    | _ => rfl

set_option maxRecDepth 2000 in
theorem body_peak : ∑ t, (1 + peak (body argv t)) = 356 := by
  rfl

variable {argv locals} {env : Env} {mem : ∀ v : Global, v.Val} {h : List (Move sig)}
  {s : State sig}

def zeroVars : ∀ t : Thread, t.Vars
  | .main => ⟨⟨0, 0, 0, 0⟩, 0⟩
  | .sensor => .uniform 0 0 0
  | .soc => ⟨.uniform 0 0 0, 0, 0⟩
  | .fault => ⟨0, .uniform 0 0 0, .normal, 0, .normal⟩
  | .can =>
    ⟨0, ⟨0, 0, 0, 0⟩, .uniform 0 0 0, 0, .qm, ⟨0, 0, Vector.replicate 64 0⟩, false, 0,
      Vector.replicate VirtualBus.maxSubscribers none⟩
  | .watchdog => ⟨0, ⟨0, 0, 0⟩, false⟩

def zeroLocals (t : Thread) : Locals t.Vars := ⟨0, 0, zeroVars t⟩

/-- The firmware as the loader leaves it, with zeros wherever C leaves garbage. -/
def cold (argv : List String) : State sig :=
  start (program argv zeroLocals) ⟨0, false⟩
    (memory .init .init ⟨Vector.replicate VirtualBus.maxSubscribers none, 0⟩)

def contended : List (Move sig) :=
  List.replicate 7 ⟨.soc, 3⟩ ++ List.replicate 9 ⟨.sensor, 2⟩ ++ List.replicate 14 ⟨.main, 1⟩

def overslept : List (Move sig) :=
  List.replicate 8 ⟨.main, 8001⟩ ++ List.replicate 15 ⟨.main, 1⟩

theorem contended_held : ∃ s, Run (step (program [] zeroLocals)) (cold []) contended s ∧
    s.locks .ctx = .held .sensor :=
  exists_run (fun s : State sig ↦ s.locks .ctx) (by rfl)

theorem overslept_ended : ∃ s, Run (step (program [] zeroLocals)) (cold []) overslept s ∧
    s.env.shutdown = true :=
  exists_run (fun s : State sig ↦ s.env.shutdown) (by rfl)

/-- No schedule of the threads lets two of them meet at a variable, and no lock
or thread is ever used out of turn. -/
theorem firmware_no_race
    (hr : Run (step (program argv locals)) (start (program argv locals) env mem) h s) :
    ¬ Racing s ∧ ∀ t k l, s.threads t = .running k l → Legal s t k :=
  run_safe (program_checked argv locals) hr

theorem firmware_no_race_contended : ∃ s,
    Run (step (program [] zeroLocals)) (cold []) contended s ∧ s.locks .ctx = .held .sensor ∧
      ¬ Racing s := by
  obtain ⟨s, hs, hl⟩ := contended_held
  exact ⟨s, hs, hl, (firmware_no_race hs).1⟩

/-- The firmware never gets stuck before `main` has returned, all tasks joined
and all mutexes destroyed. -/
theorem firmware_no_deadlock
    (hr : Run (step (program argv locals)) (start (program argv locals) env mem) h s) :
    Disciplined.Finished (program argv locals) s ∨
      ∃ e s', step (program argv locals) s e = some s' :=
  run_progress (program_checked argv locals) (body_total argv) hr

theorem firmware_no_deadlock_contended : ∃ s,
    Run (step (program [] zeroLocals)) (cold []) contended s ∧ s.locks .ctx = .held .sensor ∧
      (Disciplined.Finished (program [] zeroLocals) s ∨
        ∃ e s', step (program [] zeroLocals) s e = some s') := by
  obtain ⟨s, hs, hl⟩ := contended_held
  exact ⟨s, hs, hl, firmware_no_deadlock hs⟩

/-- After the request for shutdown the firmware has at most 356 steps left, does
not get stuck on them, and can finish. -/
theorem firmware_shutdown
    (hr : Run (step (program argv locals)) (start (program argv locals) env mem) h s)
    (hE : s.env.shutdown = true) :
    (∀ h' s', Run (step (program argv locals)) s h' s' → h'.length ≤ 356 ∧
      (Disciplined.Finished (program argv locals) s' ∨
        ∃ e s'', step (program argv locals) s' e = some s'')) ∧
    ∃ h' s', Run (step (program argv locals)) s h' s' ∧
      Disciplined.Finished (program argv locals) s' := by
  have hX := run_exits (E := Ended) (program_checked argv locals) (body_total argv)
    (body_exits argv) hr hE
  rwa [show (program argv locals).body = body argv from rfl, body_peak] at hX

theorem firmware_shutdown_overslept : ∃ s h' s',
    Run (step (program [] zeroLocals)) (cold []) overslept s ∧
      Run (step (program [] zeroLocals)) s h' s' ∧
      Disciplined.Finished (program [] zeroLocals) s' := by
  obtain ⟨s, hs, hE⟩ := overslept_ended
  obtain ⟨h', s', hr, hf⟩ := (firmware_shutdown hs hE).2
  exact ⟨s, h', s', hs, hr, hf⟩

end BmsFirmware.Firmware
