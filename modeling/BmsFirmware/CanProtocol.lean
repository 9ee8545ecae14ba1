import BmsFirmware.Config
import Mathlib.Data.Nat.Bitwise

namespace BmsFirmware

open Config

structure CanFrame where
  id : UInt32
  dlc : UInt8
  data : Vector UInt8 canMaxDlc
deriving DecidableEq, Repr

abbrev canIdFaultReport : UInt32 := 0x080
abbrev canIdBmsStatus : UInt32 := 0x100
abbrev canIdCellVoltages : UInt32 := 0x101
abbrev canIdChargeCommand : UInt32 := 0x200

inductive BmsState
  | normal | warning | fault | shutdown
deriving DecidableEq, Repr

def BmsState.code : BmsState → UInt8
  | .normal => 0
  | .warning => 1
  | .fault => 2
  | .shutdown => 3

structure BmsStatus where
  packVoltageMv : UInt16
  packCurrentCa : Int16
  socPercentX2 : UInt8
  state : UInt8
deriving DecidableEq, Repr

structure CellVoltages where
  cellMv : Vector UInt16 bmsCellCount
deriving DecidableEq, Repr

structure FaultReport where
  faultBitmask : UInt16
  severity : UInt8
deriving DecidableEq, Repr

structure ChargeCommand where
  requestedCurrentX10 : UInt16
deriving DecidableEq, Repr

abbrev faultBitOvervoltage : UInt16 := (1 : UInt16) <<< 0
abbrev faultBitUndervoltage : UInt16 := (1 : UInt16) <<< 1
abbrev faultBitOvertemp : UInt16 := (1 : UInt16) <<< 2
abbrev faultBitCellImbalance : UInt16 := (1 : UInt16) <<< 3
abbrev faultBitTaskWatchdog : UInt16 := (1 : UInt16) <<< 4

namespace CanProtocol

def putU16 (buf : Vector UInt8 canMaxDlc) (i : ℕ) (v : UInt16) (h : i + 1 < canMaxDlc) :
    Vector UInt8 canMaxDlc :=
  (buf.set i (v >>> 8).toUInt8).set (i + 1) (v &&& 0xFF).toUInt8

def getU16 (buf : Vector UInt8 canMaxDlc) (i : ℕ) (h : i + 1 < canMaxDlc) : UInt16 :=
  (buf[i].toUInt16 <<< 8) ||| buf[i + 1].toUInt16

def zeroData : Vector UInt8 canMaxDlc := Vector.replicate canMaxDlc 0

def packStatus (s : BmsStatus) : CanFrame :=
  let data := putU16 zeroData 0 s.packVoltageMv (by decide)
  let data := putU16 data 2 s.packCurrentCa.toUInt16 (by decide)
  let data := data.set 4 s.socPercentX2
  let data := data.set 5 s.state
  { id := canIdBmsStatus, dlc := 6, data := data }

/-- An unpack function returns its status and the new contents of `*out`. -/
def unpackStatus (frame : CanFrame) (out : BmsStatus) : ℤ × BmsStatus :=
  if frame.id ≠ canIdBmsStatus ∨ frame.dlc < 6 then (-1, out)
  else (0,
    { packVoltageMv := getU16 frame.data 0 (by decide)
      packCurrentCa := (getU16 frame.data 2 (by decide)).toInt16
      socPercentX2 := frame.data[4]
      state := frame.data[5] })

def packCellVoltages (cv : CellVoltages) : CanFrame :=
  { id := canIdCellVoltages
    dlc := (bmsCellCount * 2).toUInt8
    data := Fin.foldl bmsCellCount
      (fun data i ↦ putU16 data (i * 2) (cv.cellMv.get i)
        (by have := i.isLt; simp only [bmsCellCount, canMaxDlc] at *; omega)) zeroData }

def unpackCellVoltages (frame : CanFrame) (out : CellVoltages) : ℤ × CellVoltages :=
  if frame.id ≠ canIdCellVoltages ∨ frame.dlc < (bmsCellCount * 2).toUInt8 then (-1, out)
  else (0,
    { cellMv := Vector.ofFn fun i : Fin bmsCellCount ↦ getU16 frame.data (i * 2)
        (by have := i.isLt; simp only [bmsCellCount, canMaxDlc] at *; omega) })

def packFault (f : FaultReport) : CanFrame :=
  let data := putU16 zeroData 0 f.faultBitmask (by decide)
  let data := data.set 2 f.severity
  { id := canIdFaultReport, dlc := 3, data := data }

def unpackFault (frame : CanFrame) (out : FaultReport) : ℤ × FaultReport :=
  if frame.id ≠ canIdFaultReport ∨ frame.dlc < 3 then (-1, out)
  else (0, { faultBitmask := getU16 frame.data 0 (by decide), severity := frame.data[2] })

def unpackChargeCommand (frame : CanFrame) (out : ChargeCommand) : ℤ × ChargeCommand :=
  if frame.id ≠ canIdChargeCommand ∨ frame.dlc < 2 then (-1, out)
  else (0, { requestedCurrentX10 := getU16 frame.data 0 (by decide) })

/-- What a receiver gets out of a frame: nothing unless unpacking returned 0. -/
def received {α : Type} (r : ℤ × α) : Option α := if r.1 = 0 then some r.2 else none

def receivedStatus (frame : CanFrame) : Option BmsStatus :=
  received (unpackStatus frame ⟨0, 0, 0, 0⟩)

def receivedFault (frame : CanFrame) : Option FaultReport :=
  received (unpackFault frame ⟨0, 0⟩)

theorem u16_halves (v : UInt16) :
    ((v >>> 8).toUInt8.toUInt16 <<< 8) ||| (v &&& 0xFF).toUInt8.toUInt16 = v := by
  apply UInt16.toNat_inj.mp
  have hv := v.toNat_lt
  have hhi : v.toNat >>> 8 < 256 := by rw [Nat.shiftRight_eq_div_pow]; omega
  have hlo : v.toNat % 2 ^ 8 < 2 ^ 8 := Nat.mod_lt _ (by decide)
  have hshift : (UInt16.toNat 8) % 16 = 8 := rfl
  have hmask : v.toNat &&& UInt16.toNat 255 = v.toNat % 2 ^ 8 :=
    Nat.and_two_pow_sub_one_eq_mod v.toNat 8
  have hsmall : v.toNat >>> 8 <<< 8 < 2 ^ 16 := by
    rw [Nat.shiftLeft_eq, Nat.shiftRight_eq_div_pow]; omega
  simp only [UInt16.toNat_or, UInt16.toNat_shiftLeft, UInt8.toNat_toUInt16, UInt16.toNat_toUInt8,
    UInt16.toNat_shiftRight, UInt16.toNat_and, hshift, hmask, Nat.mod_eq_of_lt hhi,
    Nat.mod_eq_of_lt hlo, Nat.mod_eq_of_lt hsmall]
  rw [← Nat.shiftLeft_add_eq_or_of_lt hlo, Nat.shiftLeft_eq, Nat.shiftRight_eq_div_pow]
  omega

theorem getU16_putU16 (buf : Vector UInt8 canMaxDlc) (i : ℕ) (v : UInt16)
    (h : i + 1 < canMaxDlc) : getU16 (putU16 buf i v h) i h = v := by
  have hne : i + 1 ≠ i := by omega
  simp only [getU16, putU16, Vector.getElem_set_self, Vector.getElem_set_ne _ _ hne]
  exact u16_halves v

theorem getU16_putU16_ne (buf : Vector UInt8 canMaxDlc) {i j : ℕ} (v : UInt16)
    (hi : i + 1 < canMaxDlc) (hj : j + 1 < canMaxDlc) (hne : i + 1 < j ∨ j + 1 < i) :
    getU16 (putU16 buf i v hi) j hj = getU16 buf j hj := by
  have h₁ : i ≠ j := by omega
  have h₂ : i + 1 ≠ j := by omega
  have h₃ : i ≠ j + 1 := by omega
  have h₄ : i + 1 ≠ j + 1 := by omega
  simp only [getU16, putU16, Vector.getElem_set_ne _ _ h₁, Vector.getElem_set_ne _ _ h₂,
    Vector.getElem_set_ne _ _ h₃, Vector.getElem_set_ne _ _ h₄]

theorem getU16_set_ne (buf : Vector UInt8 canMaxDlc) {i j : ℕ} (b : UInt8) (hi : i < canMaxDlc)
    (hj : j + 1 < canMaxDlc) (h₁ : i ≠ j) (h₂ : i ≠ j + 1) :
    getU16 (buf.set i b hi) j hj = getU16 buf j hj := by
  simp only [getU16, Vector.getElem_set_ne _ _ h₁, Vector.getElem_set_ne _ _ h₂]

@[simp] theorem receivedStatus_packStatus (s : BmsStatus) :
    receivedStatus (packStatus s) = some s := by
  have hmv : getU16 (packStatus s).data 0 (by decide) = s.packVoltageMv := by
    simp only [packStatus]
    rw [getU16_set_ne _ _ _ _ (by decide) (by decide),
      getU16_set_ne _ _ _ _ (by decide) (by decide),
      getU16_putU16_ne _ _ _ _ (by decide), getU16_putU16]
  have hca : getU16 (packStatus s).data 2 (by decide) = s.packCurrentCa.toUInt16 := by
    simp only [packStatus]
    rw [getU16_set_ne _ _ _ _ (by decide) (by decide),
      getU16_set_ne _ _ _ _ (by decide) (by decide),
      getU16_putU16]
  have hsoc : (packStatus s).data[4] = s.socPercentX2 := by
    simp only [packStatus]
    rw [Vector.getElem_set_ne _ _ (by decide), Vector.getElem_set_self]
  have hst : (packStatus s).data[5] = s.state := Vector.getElem_set_self _
  have hok : ¬ ((packStatus s).id ≠ canIdBmsStatus ∨ (packStatus s).dlc < 6) := by
    simp [packStatus]
  simp [receivedStatus, received, unpackStatus, hok, hmv, hca, hsoc, hst]

@[simp] theorem receivedFault_packFault (f : FaultReport) :
    receivedFault (packFault f) = some f := by
  have hmask : getU16 (packFault f).data 0 (by decide) = f.faultBitmask := by
    simp only [packFault]
    rw [getU16_set_ne _ _ _ _ (by decide) (by decide), getU16_putU16]
  have hsev : (packFault f).data[2] = f.severity := Vector.getElem_set_self _
  have hok : ¬ ((packFault f).id ≠ canIdFaultReport ∨ (packFault f).dlc < 3) := by
    simp [packFault]
  simp [receivedFault, received, unpackFault, hok, hmask, hsev]

@[simp] theorem receivedFault_packStatus (s : BmsStatus) : receivedFault (packStatus s) = none := by
  have hid : canIdBmsStatus ≠ canIdFaultReport := by decide
  simp [receivedFault, received, unpackFault, packStatus, hid]

@[simp] theorem receivedFault_packCellVoltages (cv : CellVoltages) :
    receivedFault (packCellVoltages cv) = none := by
  have hid : canIdCellVoltages ≠ canIdFaultReport := by decide
  simp [receivedFault, received, unpackFault, packCellVoltages, hid]

@[simp] theorem receivedStatus_packCellVoltages (cv : CellVoltages) :
    receivedStatus (packCellVoltages cv) = none := by
  have hid : canIdCellVoltages ≠ canIdBmsStatus := by decide
  simp [receivedStatus, received, unpackStatus, packCellVoltages, hid]

@[simp] theorem receivedStatus_packFault (f : FaultReport) :
    receivedStatus (packFault f) = none := by
  have hid : canIdFaultReport ≠ canIdBmsStatus := by decide
  simp [receivedStatus, received, unpackStatus, packFault, hid]

end CanProtocol

end BmsFirmware
