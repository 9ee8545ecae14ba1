import BmsFirmware.Lib.LockDiscipline
import BmsFirmware.Logger
import BmsFirmware.Tasks
import BmsFirmware.VirtualBus
import Mathlib.Data.Finset.Insert
import Mathlib.Data.Fintype.Defs

namespace BmsFirmware.Firmware

open Config CanProtocol Lib.Tick Lib.Threads

inductive Thread
  | main | sensor | soc | fault | can | watchdog
deriving DecidableEq, Repr

instance : Fintype Thread where
  elems := {.main, .sensor, .soc, .fault, .can, .watchdog}
  complete := by
    intro t
    cases t <;> decide

inductive Mutex
  | ctx | log | bus
deriving DecidableEq, Repr

inductive Callback
  | onChargeCommand
deriving DecidableEq, Repr

structure Subscribers where
  subs : Vector (Option Callback) VirtualBus.maxSubscribers
  subCount : ℕ
deriving DecidableEq, Repr

/-- What the threads share. `console` is what they have printed, `wire` the frames
that the can task has handed to `can_hal_send`, both with the latest first. -/
inductive Global
  | ctx | console | cellModel | subscribers | wire
deriving DecidableEq, Repr

abbrev Global.Val : Global → Type
  | .ctx => AppContext
  | .console => List String
  | .cellModel => CellModel
  | .subscribers => Subscribers
  | .wire => List CanFrame

/-- The monotonic clock, in the time whose remainder the ticks are, and `g_shutdown`. -/
structure Env where
  clockMs : ℕ
  shutdown : Bool
deriving DecidableEq, Repr

structure SocVars where
  reading : CellReading
  packMv : UInt16
  avgCellMv : UInt16

structure FaultVars where
  now : UInt32
  reading : CellReading
  state : BmsState
  faults : UInt16
  lastLoggedState : BmsState

structure CanVars where
  lastFaults : UInt16
  status : BmsStatus
  reading : CellReading
  faults : UInt16
  severity : BmsAsil
  frame : CanFrame
  subsFull : Bool
  count : ℕ
  localSubs : Vector (Option Callback) VirtualBus.maxSubscribers

structure WatchdogVars where
  now : UInt32
  hb : Heartbeats
  stale : Bool

structure MainVars where
  status : BmsStatus
  faults : UInt16

abbrev Thread.Vars : Thread → Type
  | .main => MainVars
  | .sensor => CellReading
  | .soc => SocVars
  | .fault => FaultVars
  | .can => CanVars
  | .watchdog => WatchdogVars

structure Locals (α : Type) where
  tickMs : UInt32
  wakeMs : ℕ
  vars : α

/-- The input of a step is the time on the clock when it is made. -/
abbrev sig : Signature where
  Thread := Thread
  Lock := Mutex
  Var := Global
  Val := Global.Val
  Env := Env
  Input := ℕ
  Local := fun t ↦ Locals t.Vars

variable {α : Type}

def clocked (ready : ℕ → Locals α → Bool) (f : ℕ → Locals α → Locals α) (nowMs : ℕ) (e : Env)
    (l : Locals α) : Option (Env × Locals α) :=
  if e.clockMs ≤ nowMs ∧ ready nowMs l then some ({ e with clockMs := nowMs }, f nowMs l) else none

def osalGetTickMs (f : UInt32 → Locals α → Locals α) (k : Code sig (Locals α)) :
    Code sig (Locals α) :=
  .act (clocked (fun _ _ ↦ true) fun nowMs ↦ f (tick nowMs)) k

def osalTaskDelayMs (ms : UInt32) : Code sig (Locals α) :=
  .act (clocked (fun _ _ ↦ true) fun nowMs l ↦ { l with wakeMs := nowMs + ms.toNat }) <|
  .act (clocked (fun nowMs l ↦ decide (l.wakeMs ≤ nowMs)) fun _ l ↦ l) .done

def osalRequestShutdown (k : Code sig (Locals α)) : Code sig (Locals α) :=
  .act (fun _ e l ↦ some ({ e with shutdown := true }, l)) k

def notShutdown (e : Env) (_ : Locals α) : Bool := !e.shutdown

def setVars (f : α → α) (k : Code sig (Locals α)) : Code sig (Locals α) :=
  .assign (fun l ↦ { l with vars := f l.vars }) k

def printf (text : Locals α → String) (k : Code sig (Locals α)) : Code sig (Locals α) :=
  .access .console (fun console l ↦ (text l :: console, l)) k

def readCtx (f : AppContext → α → α) (k : Code sig (Locals α)) : Code sig (Locals α) :=
  .access .ctx (fun ctx l ↦ (ctx, { l with vars := f ctx l.vars })) k

def writeCtx (f : AppContext → Locals α → AppContext) (k : Code sig (Locals α)) :
    Code sig (Locals α) :=
  .access .ctx (fun ctx l ↦ (f ctx l, l)) k

def logMsg (level : LogLevel) (task : String) (text : α → String) : Code sig (Locals α) :=
  osalGetTickMs (fun t l ↦ { l with tickMs := t }) <|
  .lock .log <|
  printf (fun l ↦ LogLine.header ⟨l.tickMs, level, task, text l.vars⟩) <|
  printf (fun l ↦ text l.vars) <|
  printf (fun _ ↦ "\n") <|
  .unlock .log .done

def taskStarted (periodMs : UInt32) : String :=
  "task started (period=" ++ toString periodMs ++ "ms)"

def taskExiting : String := "task exiting"

def taskSensorMain : Code sig (Locals CellReading) :=
  (logMsg .info "sensor" fun _ ↦ taskStarted taskPeriodSensorMs).seq <|
  .loop notShutdown
    (.access .cellModel (fun s l ↦
        ((s.step taskPeriodSensorMs).1, { l with vars := (s.step taskPeriodSensorMs).2 })) <|
      .lock .ctx <|
      writeCtx (fun ctx l ↦ { ctx with latestReading := l.vars }) <|
      osalGetTickMs (fun t l ↦ { l with tickMs := t }) <|
      writeCtx (fun ctx l ↦ { ctx with hbSensorMs := l.tickMs }) <|
      .unlock .ctx <|
      osalTaskDelayMs taskPeriodSensorMs) <|
  logMsg .info "sensor" fun _ ↦ taskExiting

def taskSocMain : Code sig (Locals SocVars) :=
  (logMsg .info "soc" fun _ ↦ taskStarted taskPeriodSocMs).seq <|
  .loop notShutdown
    (.lock .ctx <|
      readCtx (fun ctx v ↦ { v with
        reading := ctx.latestReading
        packMv := AppContext.packMv ctx.latestReading
        avgCellMv := AppContext.packMv ctx.latestReading / UInt16.ofNat bmsCellCount }) <|
      writeCtx (fun ctx l ↦ { ctx with
        soc := ctx.soc.update l.vars.reading.packCurrentCa taskPeriodSocMs l.vars.avgCellMv }) <|
      writeCtx (fun ctx l ↦ { ctx with
        status :=
          { packVoltageMv := l.vars.packMv
            packCurrentCa := l.vars.reading.packCurrentCa
            socPercentX2 := ctx.soc.getPercentX2
            state := ctx.faultMgr.state.code } }) <|
      osalGetTickMs (fun t l ↦ { l with tickMs := t }) <|
      writeCtx (fun ctx l ↦ { ctx with hbSocMs := l.tickMs }) <|
      .unlock .ctx <|
      osalTaskDelayMs taskPeriodSocMs) <|
  logMsg .info "soc" fun _ ↦ taskExiting

def stateChange (state : BmsState) (faults : UInt16) : String :=
  "state change -> " ++ toString state.code ++ " (active_faults=0x" ++ hex4 faults ++ ")"

def logChange : Code sig (Locals FaultVars) :=
  .branch (fun l ↦ decide (l.vars.state ≠ l.vars.lastLoggedState))
    ((logMsg .warn "fault" fun v ↦ stateChange v.state v.faults).seq <|
      setVars (fun v ↦ { v with lastLoggedState := v.state }) .done)
    .done .done

def taskFaultMain : Code sig (Locals FaultVars) :=
  (logMsg .info "fault" fun _ ↦ taskStarted taskPeriodFaultMs).seq <|
  setVars (fun v ↦ { v with lastLoggedState := .normal }) <|
  .loop notShutdown
    (osalGetTickMs (fun t l ↦ { l with vars := { l.vars with now := t } }) <|
      .lock .ctx <|
      readCtx (fun ctx v ↦ { v with reading := ctx.latestReading }) <|
      writeCtx (fun ctx l ↦ { ctx with
        faultMgr := ctx.faultMgr.evaluate l.vars.reading l.vars.now }) <|
      readCtx (fun ctx v ↦ { v with state := ctx.faultMgr.state }) <|
      readCtx (fun ctx v ↦ { v with faults := ctx.faultMgr.activeFaults }) <|
      writeCtx (fun ctx l ↦ { ctx with hbFaultMs := l.vars.now }) <|
      .unlock .ctx <|
      logChange.seq <|
      osalTaskDelayMs taskPeriodFaultMs) <|
  logMsg .info "fault" fun _ ↦ taskExiting

def chargeRequest (cmd : ChargeCommand) : String :=
  "RX ChargeCommand: " ++ toString (cmd.requestedCurrentX10 / 10) ++ "." ++
    toString (cmd.requestedCurrentX10 % 10) ++ "A requested"

/-- The frame that the callback gets is the one being sent. -/
def onChargeCommand : Code sig (Locals CanVars) :=
  .branch (fun l ↦ decide ((unpackChargeCommand l.vars.frame ⟨0⟩).1 = 0))
    (logMsg .info "can" fun v ↦ chargeRequest (unpackChargeCommand v.frame ⟨0⟩).2)
    .done .done

def callback : Callback → Code sig (Locals CanVars)
  | .onChargeCommand => onChargeCommand

/-- The test of the capacity is made before the lock is taken. -/
def canHalSubscribe (cb : Callback) : Code sig (Locals CanVars) :=
  .access .subscribers (fun table l ↦ (table, { l with vars := { l.vars with
    subsFull := decide (table.subCount ≥ VirtualBus.maxSubscribers) } })) <|
  .branch (fun l ↦ l.vars.subsFull) .done
    (.lock .bus <|
      .access .subscribers (fun table l ↦
        ({ table with subs := table.subs.setIfInBounds table.subCount (some cb) }, l)) <|
      .access .subscribers (fun table l ↦ ({ table with subCount := table.subCount + 1 }, l)) <|
      .unlock .bus .done)
    .done

def deliver (l : List (Fin VirtualBus.maxSubscribers)) : Code sig (Locals CanVars) :=
  l.foldr (fun i k ↦ .branch
    (fun l ↦ decide (i.val < l.vars.count ∧ l.vars.localSubs.get i = some .onChargeCommand))
    (callback .onChargeCommand) .done k) .done

def canHalSend : Code sig (Locals CanVars) :=
  .branch (fun l ↦ decide (l.vars.frame.dlc > UInt8.ofNat canMaxDlc)) .done
    (.access .wire (fun wire l ↦ (l.vars.frame :: wire, l)) <|
      .lock .bus <|
      .access .subscribers (fun table l ↦ (table, { l with vars := { l.vars with
        count := table.subCount } })) <|
      .access .subscribers (fun table l ↦ (table, { l with vars := { l.vars with
        localSubs := table.subs } })) <|
      .unlock .bus <|
      deliver (List.finRange VirtualBus.maxSubscribers))
    .done

def broadcast : Code sig (Locals CanVars) :=
  setVars (fun v ↦ { v with frame := packStatus v.status }) <|
  canHalSend.seq <|
  setVars (fun v ↦ { v with frame := packCellVoltages ⟨v.reading.cellMv⟩ }) <|
  canHalSend.seq <|
  .branch (fun l ↦ decide (l.vars.faults ≠ l.vars.lastFaults))
    (setVars (fun v ↦ { v with frame := packFault ⟨v.faults, v.severity.code⟩ }) <|
      canHalSend.seq <|
      setVars (fun v ↦ { v with lastFaults := v.faults }) .done)
    .done .done

def taskCanMain : Code sig (Locals CanVars) :=
  (canHalSubscribe .onChargeCommand).seq <|
  (logMsg .info "can" fun _ ↦ taskStarted taskPeriodCanMs).seq <|
  setVars (fun v ↦ { v with lastFaults := 0 }) <|
  .loop notShutdown
    (.lock .ctx <|
      readCtx (fun ctx v ↦ { v with status := ctx.status }) <|
      readCtx (fun ctx v ↦ { v with reading := ctx.latestReading }) <|
      readCtx (fun ctx v ↦ { v with faults := ctx.faultMgr.activeFaults }) <|
      readCtx (fun ctx v ↦ { v with severity := ctx.faultMgr.severity }) <|
      .unlock .ctx <|
      broadcast.seq <|
      osalTaskDelayMs taskPeriodCanMs) <|
  logMsg .info "can" fun _ ↦ taskExiting

def watchdogStarted : String :=
  "task started (period=" ++ toString taskPeriodWatchdogMs ++ "ms, stale_threshold=" ++
    toString watchdogStaleMs ++ "ms)"

def staleHeartbeat : String := "stale task heartbeat detected -- forcing fault state"

def reportStale : Code sig (Locals WatchdogVars) :=
  .branch (fun l ↦ l.vars.stale)
    ((logMsg .error "watchdog" fun _ ↦ staleHeartbeat).seq <|
      .lock .ctx <|
      writeCtx (fun ctx l ↦ { ctx with
        faultMgr := ctx.faultMgr.reportWatchdogFault l.vars.now }) <|
      .unlock .ctx .done)
    .done .done

def taskWatchdogMain : Code sig (Locals WatchdogVars) :=
  (logMsg .info "watchdog" fun _ ↦ watchdogStarted).seq <|
  (osalTaskDelayMs (taskPeriodSensorMs * 2)).seq <|
  .loop notShutdown
    (osalGetTickMs (fun t l ↦ { l with vars := { l.vars with now := t } }) <|
      .lock .ctx <|
      readCtx (fun ctx v ↦ { v with hb := { v.hb with hbSensor := ctx.hbSensorMs } }) <|
      readCtx (fun ctx v ↦ { v with hb := { v.hb with hbSoc := ctx.hbSocMs } }) <|
      readCtx (fun ctx v ↦ { v with hb := { v.hb with hbFault := ctx.hbFaultMs } }) <|
      .unlock .ctx <|
      setVars (fun v ↦ { v with stale := v.hb.stale v.now }) <|
      reportStale.seq <|
      osalTaskDelayMs taskPeriodWatchdogMs) <|
  logMsg .info "watchdog" fun _ ↦ taskExiting

def parseScenario : Option String → CellScenario
  | none => .nominal
  | some s =>
    if s = "overvoltage" then .overvoltage
    else if s = "undervoltage" then .undervoltage
    else if s = "overtemp" then .overtemp
    else if s = "imbalance" then .cellImbalance
    else .nominal

def scenarioName (argv : List String) : String := argv.getD 1 "nominal"

def banner (argv : List String) : String :=
  "scenario: " ++ scenarioName argv ++ " | duration: " ++ toString simDurationMs ++ "ms\n\n"

/-- `%.1f` of half the percentage, which has one binary place. -/
def percentText (percentX2 : UInt8) : String :=
  toString (percentX2 / 2) ++ if percentX2 % 2 = 0 then ".0" else ".5"

def finalStatus (status : BmsStatus) (faults : UInt16) : String :=
  "pack_voltage_mv=" ++ toString status.packVoltageMv ++ " pack_current_ca=" ++
    toString status.packCurrentCa ++ " soc=" ++ percentText status.socPercentX2 ++ "% state=" ++
    toString status.state ++ " active_faults=0x" ++ hex4 faults ++ "\n"

/-- `app_context_init` with its `memset` and its assignments in one. -/
def appContextInit (k : Code sig (Locals MainVars)) : Code sig (Locals MainVars) :=
  .create .ctx <|
  .access .cellModel (fun _ l ↦ (CellModel.init, l)) <|
  writeCtx (fun _ _ ↦ AppContext.init) k

def canHalInit (k : Code sig (Locals MainVars)) : Code sig (Locals MainVars) :=
  .create .bus <|
  .access .subscribers (fun _ l ↦ (⟨Vector.replicate VirtualBus.maxSubscribers none, 0⟩, l)) k

def canHalShutdown (k : Code sig (Locals MainVars)) : Code sig (Locals MainVars) :=
  .access .subscribers (fun table l ↦ ({ table with subCount := 0 }, l)) <|
  .destroy .bus k

def initialise (argv : List String) (k : Code sig (Locals MainVars)) :
    Code sig (Locals MainVars) :=
  printf (fun _ ↦ "=== BMS Firmware Simulator ===\n") <|
  printf (fun _ ↦ banner argv) <|
  .create .log <|
  canHalInit <|
  appContextInit <|
  .access .cellModel (fun s l ↦ (s.setScenario (parseScenario (some (scenarioName argv))), l)) k

def runTasks : Code sig (Locals MainVars) :=
  .spawn .sensor <|
  .spawn .soc <|
  .spawn .fault <|
  .spawn .can <|
  .spawn .watchdog <|
  (osalTaskDelayMs simDurationMs).seq <|
  (logMsg .info "main" fun _ ↦ "sim duration elapsed, requesting shutdown").seq <|
  osalRequestShutdown <|
  .join .sensor <|
  .join .soc <|
  .join .fault <|
  .join .can <|
  .join .watchdog <|
  .lock .ctx <|
  printf (fun _ ↦ "\n=== Final status ===\n") <|
  readCtx (fun ctx v ↦ { v with status := ctx.status }) <|
  readCtx (fun ctx v ↦ { v with faults := ctx.faultMgr.activeFaults }) <|
  printf (fun l ↦ finalStatus l.vars.status l.vars.faults) <|
  .unlock .ctx <|
  .destroy .ctx <|
  canHalShutdown <|
  .destroy .log .done

def mainBody (argv : List String) : Code sig (Locals MainVars) := initialise argv runTasks

def body (argv : List String) : ∀ t : Thread, Code sig (Locals t.Vars)
  | .main => mainBody argv
  | .sensor => taskSensorMain
  | .soc => taskSocMain
  | .fault => taskFaultMain
  | .can => taskCanMain
  | .watchdog => taskWatchdogMain

def program (argv : List String) (locals : ∀ t : Thread, Locals t.Vars) : Program sig where
  root := .main
  body := body argv
  locals := locals

def memory (ctx : AppContext) (cellModel : CellModel) (subscribers : Subscribers) :
    ∀ v : Global, v.Val
  | .ctx => ctx
  | .console => []
  | .cellModel => cellModel
  | .subscribers => subscribers
  | .wire => []

/-- Outside of `main` the context is used under its lock and the console under
that of the logger; the cell model and the bus belong to one task each. -/
def discipline : Discipline sig where
  guard
    | .ctx => .lock .ctx
    | .console => .lock .log
    | .cellModel => .thread .sensor
    | .subscribers | .wire => .thread .can
  shared := [.ctx, .log, .bus]

end BmsFirmware.Firmware
