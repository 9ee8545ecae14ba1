import BmsFirmware.CanTask
import BmsFirmware.SocEstimator

namespace BmsFirmware

open Config

structure AppContext where
  latestReading : CellReading
  soc : SocEstimator
  faultMgr : FaultManager
  status : BmsStatus
  hbSensorMs : UInt32
  hbSocMs : UInt32
  hbFaultMs : UInt32

structure Heartbeats where
  hbSensor : UInt32
  hbSoc : UInt32
  hbFault : UInt32
deriving DecidableEq, Repr

namespace AppContext

def init : AppContext where
  latestReading := .uniform bmsCellNominalMv 25 0
  soc := SocEstimator.init bmsPackCapacityMah
  faultMgr := FaultManager.init
  status := ⟨0, 0, 0, 0⟩
  hbSensorMs := 0
  hbSocMs := 0
  hbFaultMs := 0

variable (ctx : AppContext)

def sensorSection (reading : CellReading) (tickMs : UInt32) : AppContext :=
  { ctx with latestReading := reading, hbSensorMs := tickMs }

def packMv (reading : CellReading) : UInt16 :=
  (List.finRange bmsCellCount).foldl (fun packMv i ↦ packMv + reading.cellMv.get i) 0

def socSection (tickMs : UInt32) : AppContext :=
  let reading := ctx.latestReading
  let avgCellMv := packMv reading / UInt16.ofNat bmsCellCount
  let soc := ctx.soc.update reading.packCurrentCa taskPeriodSocMs avgCellMv
  { ctx with
    soc := soc
    status :=
      { packVoltageMv := packMv reading
        packCurrentCa := reading.packCurrentCa
        socPercentX2 := soc.getPercentX2
        state := ctx.faultMgr.state.code }
    hbSocMs := tickMs }

/-- `now` was read before the lock was taken, and is the stamp as well. -/
def faultSection (now : UInt32) : AppContext :=
  { ctx with faultMgr := ctx.faultMgr.evaluate ctx.latestReading now, hbFaultMs := now }

def snapshot : Snapshot where
  status := ctx.status
  reading := ctx.latestReading
  faults := ctx.faultMgr.activeFaults
  severity := ctx.faultMgr.severity

def heartbeats : Heartbeats where
  hbSensor := ctx.hbSensorMs
  hbSoc := ctx.hbSocMs
  hbFault := ctx.hbFaultMs

def watchdogSection (now : UInt32) : AppContext :=
  { ctx with faultMgr := ctx.faultMgr.reportWatchdogFault now }

end AppContext

def Heartbeats.stale (hb : Heartbeats) (now : UInt32) : Bool :=
  decide (now - hb.hbSensor > watchdogStaleMs) || decide (now - hb.hbSoc > watchdogStaleMs) ||
    decide (now - hb.hbFault > watchdogStaleMs)

end BmsFirmware
