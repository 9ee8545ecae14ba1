import BmsFirmware.CanProtocol
import BmsFirmware.CellModel

namespace BmsFirmware

open Config

inductive BmsAsil
  | qm | a | b | c | d
deriving DecidableEq, Repr

def BmsAsil.code : BmsAsil → UInt8
  | .qm => 0
  | .a => 1
  | .b => 2
  | .c => 3
  | .d => 4

structure FaultManager where
  state : BmsState
  activeFaults : UInt16
  severity : BmsAsil
  lastOkTickMs : UInt32
  watchdogFaultUntilMs : UInt32
  faultEntryTicksMs : Vector UInt32 faultLatchCount
  faultEntryCount : ℤ
deriving DecidableEq, Repr

namespace FaultManager

variable (fm : FaultManager) (reading : CellReading) (nowMs : UInt32)

/-- The shift register of FAULT entries: `memmove` drops the oldest of a full one. -/
def recordFaultEntry : FaultManager :=
  if fm.faultEntryCount < faultLatchCount then
    { fm with
      faultEntryTicksMs := fm.faultEntryTicksMs.setIfInBounds fm.faultEntryCount.toNat nowMs
      faultEntryCount := fm.faultEntryCount + 1 }
  else
    { fm with
      faultEntryTicksMs := Vector.ofFn fun i : Fin faultLatchCount ↦
        if h : i.val + 1 < faultLatchCount then fm.faultEntryTicksMs[i.val + 1] else nowMs }

def latchShouldTrip : Bool :=
  if fm.faultEntryCount < faultLatchCount then false
  else decide (nowMs - fm.faultEntryTicksMs[0] ≤ faultLatchWindowMs)

def faultSeverities : List (UInt16 × BmsAsil) :=
  [(faultBitOvervoltage, .d), (faultBitOvertemp, .d), (faultBitTaskWatchdog, .d),
    (faultBitUndervoltage, .c), (faultBitCellImbalance, .b)]

def getSeverity (activeFaults : UInt16) : BmsAsil :=
  faultSeverities.foldl (fun worst entry ↦
    if activeFaults &&& entry.1 ≠ 0 ∧ worst.code < entry.2.code then entry.2 else worst) .qm

def init : FaultManager where
  state := .normal
  activeFaults := 0
  severity := .qm
  lastOkTickMs := 0
  watchdogFaultUntilMs := 0
  faultEntryTicksMs := Vector.replicate faultLatchCount 0
  faultEntryCount := 0

structure HardFaultScan where
  faults : UInt16
  warning : Bool
  minMv : UInt16
  maxMv : UInt16
  maxTemp : Int16

def checkLimit (atLimit inMargin : Bool) (bit : UInt16) (s : HardFaultScan) : HardFaultScan :=
  if atLimit then { s with faults := s.faults ||| bit }
  else if inMargin then { s with warning := true }
  else s

def scanCell (s : HardFaultScan) (i : Fin bmsCellCount) : HardFaultScan :=
  let mv := reading.cellMv.get i
  let temp := reading.cellTempC.get i
  let s := { s with
    minMv := if mv < s.minMv then mv else s.minMv
    maxMv := if mv > s.maxMv then mv else s.maxMv
    maxTemp := if temp > s.maxTemp then temp else s.maxTemp }
  let s := checkLimit (mv ≥ bmsCellOvervoltageMv)
    (mv ≥ bmsCellOvervoltageMv - bmsWarningMarginMv) faultBitOvervoltage s
  checkLimit (mv ≤ bmsCellUndervoltageMv)
    (mv ≤ bmsCellUndervoltageMv + bmsWarningMarginMv) faultBitUndervoltage s

def scanCells : HardFaultScan :=
  (List.finRange bmsCellCount).foldl (scanCell reading)
    { faults := 0, warning := false, minMv := reading.cellMv[0], maxMv := reading.cellMv[0],
      maxTemp := reading.cellTempC[0] }

def evaluateHardFaults : UInt16 × Bool :=
  let s := scanCells reading
  let s := checkLimit (s.maxTemp ≥ bmsOvertempC) (s.maxTemp ≥ bmsOvertempC - 5)
    faultBitOvertemp s
  let s := checkLimit (s.maxMv - s.minMv ≥ bmsCellImbalanceMv)
    (s.maxMv - s.minMv ≥ bmsCellImbalanceMv * 3 / 4) faultBitCellImbalance s
  (s.faults, s.warning)

/-- The code shared by the two operations: record an entry unless the manager
is in FAULT already, then go to SHUTDOWN on severity D or on the third strike. -/
def enterFault : FaultManager :=
  let fm := if fm.state ≠ .fault then { recordFaultEntry fm nowMs with state := .fault } else fm
  if fm.severity.code ≥ BmsAsil.d.code ∨ latchShouldTrip fm nowMs then
    { fm with state := .shutdown }
  else fm

def watchdogActive : Bool :=
  decide (fm.watchdogFaultUntilMs ≠ 0) && decide (nowMs < fm.watchdogFaultUntilMs)

def evaluate : FaultManager :=
  if fm.state = .shutdown then fm
  else
    let (hardFaults, warning) := evaluateHardFaults reading
    let totalFaults := hardFaults ||| (if watchdogActive fm nowMs then faultBitTaskWatchdog else 0)
    let fm := { fm with activeFaults := totalFaults, severity := getSeverity totalFaults }
    if totalFaults ≠ 0 then { enterFault fm nowMs with lastOkTickMs := 0 }
    else if fm.state = .fault then
      if fm.lastOkTickMs = 0 then { fm with lastOkTickMs := nowMs }
      else if nowMs - fm.lastOkTickMs ≥ faultDebounceMs then
        { fm with state := if warning then .warning else .normal, lastOkTickMs := 0 }
      else fm
    else { fm with state := if warning then .warning else .normal }

def reportWatchdogFault : FaultManager :=
  if fm.state = .shutdown then fm
  else
    let fm := { fm with
      watchdogFaultUntilMs := nowMs + faultDebounceMs
      activeFaults := fm.activeFaults ||| faultBitTaskWatchdog }
    enterFault { fm with severity := getSeverity fm.activeFaults } nowMs

end FaultManager

end BmsFirmware
