import BmsFirmware.Firmware
import BmsFirmware.Lib.Recording

namespace BmsFirmware.Firmware

open Config Lib.Tick Lib.Threads Lib.History

/-- A thread before its first line, then until it leaves its loop, and behind its
last line. `main` leaves with its request for shutdown. -/
inductive Stage
  | fresh | running | leaving | exited
deriving DecidableEq, Repr

structure Progress where
  stage : Stage
  readMs : ℕ
  dueMs : ℕ
deriving DecidableEq, Repr

/-- What is on the console: a line of a thread, with the time that it shows, or the
last words of `main`. -/
inductive Entry
  | line (t : Thread) (timeMs : ℕ) (level : LogLevel) (text : String)
  | final (status : BmsStatus) (faults : UInt16)
deriving DecidableEq, Repr

def Thread.name : Thread → String
  | .main => "main"
  | .sensor => "sensor"
  | .soc => "soc"
  | .fault => "fault"
  | .can => "can"
  | .watchdog => "watchdog"

def Entry.thread : Entry → Thread
  | .line t _ _ _ => t
  | .final _ _ => .main

def Entry.pieces : Entry → List String
  | .line t timeMs level text => LogLine.pieces ⟨tick timeMs, level, t.name, text⟩
  | .final status faults => [finalStatus status faults, "\n=== Final status ===\n"]

def Thread.periodMs : Thread → UInt32
  | .main => simDurationMs
  | .sensor => taskPeriodSensorMs
  | .soc => taskPeriodSocMs
  | .fault => taskPeriodFaultMs
  | .can => taskPeriodCanMs
  | .watchdog => taskPeriodWatchdogMs

def Thread.delayMs : Thread → UInt32
  | .main => simDurationMs
  | .watchdog => taskPeriodSensorMs * 2
  | _ => 0

def Thread.greeting : Thread → String
  | .main => "sim duration elapsed, requesting shutdown"
  | .watchdog => watchdogStarted
  | t => taskStarted t.periodMs

/-- The tasks with the cell model and the console. `sample` is a reading that the
sensor task has not published yet, `seen` what the fault task has found after its
evaluations, the latest first, and `logged` the state that it has logged last;
`warned` is set between the line of the watchdog task and its report. -/
structure Simulator where
  sys : System
  commits : List (Commit sig .ctx)
  cell : CellModel
  sample : Option CellReading
  seen : List (BmsState × UInt16)
  logged : BmsState
  warned : Bool
  ended : Bool
  joined : List Thread
  progress : Thread → Progress
  entries : List Entry

inductive SimEvent
  | sys (e : Event)
  | cellStep
  | read (t : Thread) (nowMs : ℕ)
  | greet (t : Thread)
  | stateChange
  | stale
  | request
  | leave (t : Thread)
  | exit (t : Thread)
  | join (t : Thread)
  | finalStatus
deriving DecidableEq, Repr

def owner : Action → Thread
  | .sensorSection _ => .sensor
  | .socSection => .soc
  | .faultClock | .faultSection => .fault
  | .canSection | .canSend _ => .can
  | .watchdogClock | .watchdogCopy | .watchdogReport => .watchdog

/-- Whether an action is a section, and then whether this is a single statement. -/
def section? : Action → Option Bool
  | .sensorSection _ | .socSection | .faultSection | .canSection | .watchdogCopy => some false
  | .watchdogReport => some true
  | .faultClock | .canSend _ | .watchdogClock => none

def committed (x : Action) (ctx : AppContext) (past : List (Commit sig .ctx)) :
    List (Commit sig .ctx) :=
  match section? x with
  | some alone => ⟨owner x, alone, ctx⟩ :: past
  | none => past

def begins : Action → Bool
  | .sensorSection _ | .socSection | .faultClock | .canSection | .watchdogClock => true
  | _ => false

namespace Simulator

def start (startMs : ℕ) (scenario : CellScenario) : Simulator where
  sys := .start startMs
  commits := []
  cell := CellModel.init.setScenario scenario
  sample := none
  seen := []
  logged := .normal
  warned := false
  ended := false
  joined := []
  progress := fun t ↦ ⟨.fresh, startMs, startMs + t.delayMs.toNat⟩
  entries := []

variable (a : Simulator)

def setSys (sys : System) : Simulator := { a with sys := sys }

def setProgress (t : Thread) (p : Progress) : Simulator :=
  { a with progress := Function.update a.progress t p }

def setStage (t : Thread) (x : Stage) : Simulator :=
  a.setProgress t { a.progress t with stage := x }

def setRead (t : Thread) (nowMs : ℕ) : Simulator :=
  a.setProgress t { a.progress t with readMs := nowMs }

def setDue (t : Thread) (dueMs : ℕ) : Simulator :=
  a.setProgress t { a.progress t with dueMs := dueMs }

def print (t : Thread) (level : LogLevel) (text : String) : Simulator :=
  { a with entries := .line t (a.progress t).readMs level text :: a.entries }

def unlogged : Option (BmsState × UInt16) := a.seen.head?.filter (·.1 ≠ a.logged)

/-- What the tasks owe to the cell model, to the console and to the bus. -/
def permits : Action → Bool
  | .sensorSection reading => decide (a.sample = some reading)
  | .faultClock => a.unlogged.isNone
  | .canSend ok => ok
  | .watchdogReport => a.warned
  | _ => true

def memo : Action → Simulator
  | .sensorSection _ => { a with sample := none }
  | .faultSection =>
    { a with seen := (a.sys.ctx.faultMgr.state, a.sys.ctx.faultMgr.activeFaults) :: a.seen }
  | .watchdogReport => { a with warned := false }
  | _ => a

def notes (x : Action) : Simulator :=
  { a.memo x with commits := committed x a.sys.ctx a.commits }

def act (e : Event) : Option Simulator :=
  if (a.progress (owner e.action)).stage = .running ∧ a.permits e.action ∧
      (begins e.action → (a.progress (owner e.action)).dueMs ≤ e.timeMs) then
    (a.sys.step e).map fun sys ↦ ((a.setSys sys).notes e.action).setDue (owner e.action)
      (e.timeMs + (owner e.action).periodMs.toNat)
  else none

def idle : Thread → Bool
  | .sensor => a.sample.isNone
  | .fault => a.sys.faultNow.isNone && a.unlogged.isNone
  | .can => decide (a.sys.can.pc = .idle)
  | .watchdog => decide (a.sys.watchdog = .idle)
  | .main | .soc => true

def step : SimEvent → Option Simulator
  | .sys e => a.act e
  | .cellStep =>
    if (a.progress .sensor).stage = .running ∧ a.sample = none then
      some { a with
        cell := (a.cell.step taskPeriodSensorMs).1
        sample := some (a.cell.step taskPeriodSensorMs).2 }
    else none
  | .read t nowMs => if (a.progress t).readMs ≤ nowMs then some (a.setRead t nowMs) else none
  | .greet t =>
    if (a.progress t).stage = .fresh ∧ (t = .main → (a.progress t).dueMs ≤ (a.progress t).readMs)
    then some ((a.print t .info t.greeting).setStage t .running) else none
  | .stateChange =>
    if (a.progress .fault).stage = .running then
      a.unlogged.map fun x ↦
        { a.print .fault .warn (Firmware.stateChange x.1 x.2) with logged := x.1 }
    else none
  | .stale =>
    match a.sys.watchdog with
    | .stale _ =>
      if (a.progress .watchdog).stage = .running ∧ a.warned = false then
        some { a.print .watchdog .error staleHeartbeat with warned := true }
      else none
    | _ => none
  | .request =>
    if (a.progress .main).stage = .running then
      some { a.setStage .main .leaving with ended := true }
    else none
  | .leave t =>
    if t ≠ .main ∧ (a.progress t).stage = .running ∧ a.ended ∧ a.idle t then
      some (a.setStage t .leaving)
    else none
  | .exit t =>
    if t ≠ .main ∧ (a.progress t).stage = .leaving then
      some ((a.print t .info taskExiting).setStage t .exited)
    else none
  | .join t =>
    if (a.progress .main).stage = .leaving ∧ t ≠ .main ∧ (a.progress t).stage = .exited then
      some { a with joined := t :: a.joined }
    else none
  | .finalStatus =>
    if (a.progress .main).stage = .leaving ∧ ∀ t, t ≠ .main → t ∈ a.joined then
      some { a.setStage .main .exited with
        entries := .final a.sys.ctx.status a.sys.ctx.faultMgr.activeFaults :: a.entries }
    else none

section Fields

variable (t u : Thread) (p : Progress) (n : ℕ) (x : Stage) (sys : System) (y : Action)
  (level : LogLevel) (text : String)

@[simp] theorem setProgress_self : (a.setProgress t p).progress t = p := Function.update_self ..

variable {t u} in
theorem setProgress_ne (hu : u ≠ t) : (a.setProgress t p).progress u = a.progress u :=
  Function.update_of_ne hu ..

@[simp] theorem setStage_self : (a.setStage t x).progress t = { a.progress t with stage := x } :=
  setProgress_self ..

theorem setStage_stage : ((a.setStage t x).progress t).stage = x :=
  congrArg Progress.stage (setStage_self ..)

@[simp] theorem setRead_self : (a.setRead t n).progress t = { a.progress t with readMs := n } :=
  setProgress_self ..

@[simp] theorem setDue_self : (a.setDue t n).progress t = { a.progress t with dueMs := n } :=
  setProgress_self ..

variable {t u} in
theorem setStage_ne (hu : u ≠ t) : (a.setStage t x).progress u = a.progress u :=
  setProgress_ne _ _ hu

variable {t u} in
theorem setRead_ne (hu : u ≠ t) : (a.setRead t n).progress u = a.progress u :=
  setProgress_ne _ _ hu

variable {t u} in
theorem setDue_ne (hu : u ≠ t) : (a.setDue t n).progress u = a.progress u :=
  setProgress_ne _ _ hu

@[simp] theorem setStage_dueMs : ((a.setStage t x).progress u).dueMs = (a.progress u).dueMs := by
  by_cases hu : u = t
  · subst hu
    rw [setStage_self]
  · rw [setStage_ne a x hu]

@[simp] theorem setStage_readMs :
    ((a.setStage t x).progress u).readMs = (a.progress u).readMs := by
  by_cases hu : u = t
  · subst hu
    rw [setStage_self]
  · rw [setStage_ne a x hu]

@[simp] theorem setRead_dueMs : ((a.setRead t n).progress u).dueMs = (a.progress u).dueMs := by
  by_cases hu : u = t
  · subst hu
    rw [setRead_self]
  · rw [setRead_ne a n hu]

@[simp] theorem setRead_stage : ((a.setRead t n).progress u).stage = (a.progress u).stage := by
  by_cases hu : u = t
  · subst hu
    rw [setRead_self]
  · rw [setRead_ne a n hu]

@[simp] theorem setDue_stage : ((a.setDue t n).progress u).stage = (a.progress u).stage := by
  by_cases hu : u = t
  · subst hu
    rw [setDue_self]
  · rw [setDue_ne a n hu]

@[simp] theorem setDue_readMs : ((a.setDue t n).progress u).readMs = (a.progress u).readMs := by
  by_cases hu : u = t
  · subst hu
    rw [setDue_self]
  · rw [setDue_ne a n hu]

@[simp] theorem notes_sys : (a.notes y).sys = a.sys := by
  cases y <;> rfl

@[simp] theorem notes_cell : (a.notes y).cell = a.cell := by
  cases y <;> rfl

@[simp] theorem notes_ended : (a.notes y).ended = a.ended := by
  cases y <;> rfl

@[simp] theorem notes_joined : (a.notes y).joined = a.joined := by
  cases y <;> rfl

@[simp] theorem notes_progress : (a.notes y).progress = a.progress := by
  cases y <;> rfl

@[simp] theorem notes_entries : (a.notes y).entries = a.entries := by
  cases y <;> rfl

end Fields

inductive Stepped (a : Simulator) : SimEvent → Simulator → Prop
  | sys (e : Event) (sys : System) (hs : (a.progress (owner e.action)).stage = .running)
      (hp : a.permits e.action)
      (hd : begins e.action → (a.progress (owner e.action)).dueMs ≤ e.timeMs)
      (h : a.sys.step e = some sys) :
      Stepped a (.sys e) (((a.setSys sys).notes e.action).setDue (owner e.action)
        (e.timeMs + (owner e.action).periodMs.toNat))
  | cellStep (hs : (a.progress .sensor).stage = .running) (hn : a.sample = none) :
      Stepped a .cellStep { a with
        cell := (a.cell.step taskPeriodSensorMs).1
        sample := some (a.cell.step taskPeriodSensorMs).2 }
  | read (t : Thread) (nowMs : ℕ) (hle : (a.progress t).readMs ≤ nowMs) :
      Stepped a (.read t nowMs) (a.setRead t nowMs)
  | greet (t : Thread) (hs : (a.progress t).stage = .fresh)
      (hd : t = .main → (a.progress t).dueMs ≤ (a.progress t).readMs) :
      Stepped a (.greet t) ((a.print t .info t.greeting).setStage t .running)
  | stateChange (x : BmsState × UInt16) (hs : (a.progress .fault).stage = .running)
      (hx : a.unlogged = some x) :
      Stepped a .stateChange
        { a.print .fault .warn (Firmware.stateChange x.1 x.2) with logged := x.1 }
  | stale (now : UInt32) (hnow : a.sys.watchdog = .stale now)
      (hs : (a.progress .watchdog).stage = .running) (hw : a.warned = false) :
      Stepped a .stale { a.print .watchdog .error staleHeartbeat with warned := true }
  | request (hs : (a.progress .main).stage = .running) :
      Stepped a .request { a.setStage .main .leaving with ended := true }
  | leave (t : Thread) (ht : t ≠ .main) (hs : (a.progress t).stage = .running) (he : a.ended)
      (hi : a.idle t) : Stepped a (.leave t) (a.setStage t .leaving)
  | exit (t : Thread) (ht : t ≠ .main) (hs : (a.progress t).stage = .leaving) :
      Stepped a (.exit t) ((a.print t .info taskExiting).setStage t .exited)
  | join (t : Thread) (hs : (a.progress .main).stage = .leaving) (ht : t ≠ .main)
      (hx : (a.progress t).stage = .exited) :
      Stepped a (.join t) { a with joined := t :: a.joined }
  | finalStatus (hs : (a.progress .main).stage = .leaving)
      (hj : ∀ t, t ≠ .main → t ∈ a.joined) :
      Stepped a .finalStatus { a.setStage .main .exited with
        entries := .final a.sys.ctx.status a.sys.ctx.faultMgr.activeFaults :: a.entries }

variable {a} {a' : Simulator}

theorem step_stepped {d : SimEvent} (h : a.step d = some a') : Stepped a d a' := by
  cases d with
  | sys e =>
    simp only [step, act, Option.ite_none_right_eq_some, Option.map_eq_some_iff] at h
    obtain ⟨⟨hs, hp, hd⟩, sys, hsys, rfl⟩ := h
    exact .sys e sys hs hp hd hsys
  | cellStep =>
    simp only [step, Option.ite_none_right_eq_some, Option.some.injEq] at h
    exact h.2 ▸ .cellStep h.1.1 h.1.2
  | read t nowMs =>
    simp only [step, Option.ite_none_right_eq_some, Option.some.injEq] at h
    exact h.2 ▸ .read t nowMs h.1
  | greet t =>
    simp only [step, Option.ite_none_right_eq_some, Option.some.injEq] at h
    exact h.2 ▸ .greet t h.1.1 h.1.2
  | stateChange =>
    simp only [step, Option.ite_none_right_eq_some, Option.map_eq_some_iff] at h
    obtain ⟨hs, x, hx, rfl⟩ := h
    exact .stateChange x hs hx
  | stale =>
    cases hw : a.sys.watchdog with
    | stale now =>
      simp only [step, hw, Option.ite_none_right_eq_some, Option.some.injEq] at h
      exact h.2 ▸ .stale now hw h.1.1 h.1.2
    | _ => simp [step, hw] at h
  | request =>
    simp only [step, Option.ite_none_right_eq_some, Option.some.injEq] at h
    exact h.2 ▸ .request h.1
  | leave t =>
    simp only [step, Option.ite_none_right_eq_some, Option.some.injEq] at h
    obtain ⟨⟨ht, hs, he, hi⟩, rfl⟩ := h
    exact .leave t ht hs he hi
  | exit t =>
    simp only [step, Option.ite_none_right_eq_some, Option.some.injEq] at h
    exact h.2 ▸ .exit t h.1.1 h.1.2
  | join t =>
    simp only [step, Option.ite_none_right_eq_some, Option.some.injEq] at h
    obtain ⟨⟨hs, ht, hx⟩, rfl⟩ := h
    exact .join t hs ht hx
  | finalStatus =>
    simp only [step, Option.ite_none_right_eq_some, Option.some.injEq] at h
    exact h.2 ▸ .finalStatus h.1.1 h.1.2

end Simulator

end BmsFirmware.Firmware
