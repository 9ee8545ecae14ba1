import Mathlib.Data.Int.Notation
import Mathlib.Data.Nat.Notation

namespace BmsFirmware.Config

abbrev bmsCellCount : ℕ := 5

abbrev bmsCellNominalMv : UInt16 := 3700
abbrev bmsCellOvervoltageMv : UInt16 := 4200
abbrev bmsCellUndervoltageMv : UInt16 := 3000
abbrev bmsCellImbalanceMv : UInt16 := 150

abbrev bmsOvertempC : Int16 := 60
abbrev bmsWarningMarginMv : UInt16 := 50

abbrev bmsPackCapacityMah : UInt16 := 5000

abbrev taskPeriodSensorMs : UInt32 := 100
abbrev taskPeriodSocMs : UInt32 := 500
abbrev taskPeriodFaultMs : UInt32 := 50
abbrev taskPeriodCanMs : UInt32 := 100
abbrev taskPeriodWatchdogMs : UInt32 := 200
abbrev watchdogStaleMs : UInt32 := 1000

abbrev faultDebounceMs : UInt32 := 300
abbrev faultLatchWindowMs : UInt32 := 5000
abbrev faultLatchCount : ℕ := 3

abbrev simDurationMs : UInt32 := 8000

abbrev canMaxDlc : ℕ := 64

end BmsFirmware.Config
