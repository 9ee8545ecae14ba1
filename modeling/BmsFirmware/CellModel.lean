import BmsFirmware.Config

namespace BmsFirmware

open Config

structure CellReading where
  cellMv : Vector UInt16 bmsCellCount
  cellTempC : Vector Int16 bmsCellCount
  packCurrentCa : Int16
deriving DecidableEq, Repr

def CellReading.uniform (mv : UInt16) (tempC packCurrentCa : Int16) : CellReading where
  cellMv := Vector.replicate bmsCellCount mv
  cellTempC := Vector.replicate bmsCellCount tempC
  packCurrentCa := packCurrentCa

def CellReading.nominal : CellReading := .uniform bmsCellNominalMv 25 (-200)

def CellReading.low : CellReading := .uniform 2950 25 (-200)

inductive CellScenario
  | nominal | overvoltage | undervoltage | overtemp | cellImbalance
deriving DecidableEq, Repr

structure CellModel where
  scenario : CellScenario
  elapsedMs : UInt32
  baseMv : Vector UInt16 bmsCellCount
deriving DecidableEq, Repr

namespace CellModel

def init : CellModel where
  scenario := .nominal
  elapsedMs := 0
  baseMv := Vector.replicate bmsCellCount bmsCellNominalMv

def setScenario (s : CellModel) (scenario : CellScenario) : CellModel :=
  { s with scenario := scenario }

def driftMv (s : CellModel) : UInt16 := (s.elapsedMs / 1000).toUInt16

def scenarioMv (scenario : CellScenario) (i : Fin bmsCellCount) (mv : ℤ) : ℤ :=
  match scenario with
  | .overvoltage => if i = 0 then bmsCellOvervoltageMv.toNat + 50 else mv
  | .undervoltage => if i = 0 then bmsCellUndervoltageMv.toNat - 50 else mv
  | .cellImbalance => if i = 2 then mv + (bmsCellImbalanceMv.toNat + 20) else mv
  | .overtemp => mv
  | .nominal => mv

def scenarioTempC (scenario : CellScenario) (i : Fin bmsCellCount) : Int16 :=
  match scenario with
  | .overtemp => if i = 1 then bmsOvertempC + 5 else 25
  | _ => 25

def clampMv (mv : ℤ) : UInt16 :=
  let mv := if mv < 0 then 0 else mv
  let mv := if mv > 65535 then 65535 else mv
  .ofNat mv.toNat

def reading (s : CellModel) : CellReading where
  cellMv := Vector.ofFn fun i ↦
    clampMv (scenarioMv s.scenario i ((s.baseMv.get i).toNat - s.driftMv.toNat))
  cellTempC := Vector.ofFn (scenarioTempC s.scenario)
  packCurrentCa := -200

def step (s : CellModel) (dtMs : UInt32) : CellModel × CellReading :=
  let s := { s with elapsedMs := s.elapsedMs + dtMs }
  (s, s.reading)

end CellModel

end BmsFirmware
