import BmsFirmware.Lib.History
import BmsFirmware.Lib.Tick
import BmsFirmware.Lib.Recent
import BmsFirmware.CanProtocol
import BmsFirmware.FaultManager
import BmsFirmware.HardFaults
import BmsFirmware.FaultInvariant
import BmsFirmware.FaultRun
import BmsFirmware.Lib.Covariance
import BmsFirmware.SocEstimator
import BmsFirmware.SocFilter
import BmsFirmware.SocketCan
import BmsFirmware.CanTask
import BmsFirmware.AppContext
import BmsFirmware.Tasks
import BmsFirmware.Heartbeat
import BmsFirmware.Telemetry
import BmsFirmware.LatchWindow
import BmsFirmware.Recovery
import BmsFirmware.TickShift
import BmsFirmware.Confidence
import BmsFirmware.StatusOrigin
import BmsFirmware.CanCodec
import BmsFirmware.DbcFile
import BmsFirmware.SocketCanRx
import BmsFirmware.BroadcastOrder
import BmsFirmware.Lib.Registration
import BmsFirmware.Registration
import BmsFirmware.ExactlyOnce
import BmsFirmware.Lib.Extremes
import BmsFirmware.Classification
import BmsFirmware.Discharge
import BmsFirmware.Clock
import BmsFirmware.Lib.Interpolation
import BmsFirmware.OcvCurve
import BmsFirmware.Lib.Ring
import BmsFirmware.OsalQueue
import BmsFirmware.SocTask
import BmsFirmware.QueueFifo
import BmsFirmware.QueueTimeout
import BmsFirmware.Lib.CondVar
import BmsFirmware.QueueWakeup
import BmsFirmware.ForeignFrames
import BmsFirmware.SocketCanLifecycle
import BmsFirmware.Lib.Blend
import BmsFirmware.Lib.Kalman
import BmsFirmware.SocUpdate
import BmsFirmware.SocFusion
import BmsFirmware.BiasLearning
import BmsFirmware.KalmanForm
import BmsFirmware.Readouts
import BmsFirmware.Lib.Threads
import BmsFirmware.Lib.LockDiscipline
import BmsFirmware.Lib.ThreadSafety
import BmsFirmware.Lib.ThreadTermination
import BmsFirmware.Lib.Atomicity
import BmsFirmware.Lib.Outline
import BmsFirmware.Logger
import BmsFirmware.Firmware
import BmsFirmware.FirmwareSafety
import BmsFirmware.Simulator
import BmsFirmware.FirmwareOutline
import BmsFirmware.FirmwareRefinement
import BmsFirmware.SimulatorRun
import BmsFirmware.Transcript
import BmsFirmware.FirmwareRuns
import BmsFirmware.Broadcasts
import BmsFirmware.Scenarios
