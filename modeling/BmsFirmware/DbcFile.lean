import BmsFirmware.CanCodec
import BmsFirmware.Lib.Dbc

namespace BmsFirmware

open Config CanProtocol Lib.Dbc

namespace DbcFile

def packVoltageMv : Signal := ⟨7, 16, false, 1, 0⟩
def packCurrentCa : Signal := ⟨23, 16, true, 0.01, 0⟩
def socPercentX2 : Signal := ⟨39, 8, false, 0.5, 0⟩
def state : Signal := ⟨47, 8, false, 1, 0⟩

def bmsStatus : Message where
  id := 256
  size := 6
  signals := [packVoltageMv, packCurrentCa, socPercentX2, state]

def cell1Mv : Signal := ⟨7, 16, false, 1, 0⟩
def cell2Mv : Signal := ⟨23, 16, false, 1, 0⟩
def cell3Mv : Signal := ⟨39, 16, false, 1, 0⟩
def cell4Mv : Signal := ⟨55, 16, false, 1, 0⟩
def cell5Mv : Signal := ⟨71, 16, false, 1, 0⟩

def cellVoltages : Message where
  id := 257
  size := 10
  signals := [cell1Mv, cell2Mv, cell3Mv, cell4Mv, cell5Mv]

def faultBitmask : Signal := ⟨7, 16, false, 1, 0⟩
def severity : Signal := ⟨23, 8, false, 1, 0⟩

def faultReport : Message where
  id := 128
  size := 3
  signals := [faultBitmask, severity]

def requestedCurrentX10 : Signal := ⟨7, 16, false, 0.1, 0⟩

def chargeCommand : Message where
  id := 512
  size := 2
  signals := [requestedCurrentX10]

def HasValue (d : Vector UInt8 canMaxDlc) (s : Signal) (v : ℤ) : Prop :=
  s.raw d = v ∧ s.physical d = v * s.factor

/-- The frame is one of the message `m`, whose signals have the raw values `vs` in it. -/
structure Carries (m : Message) (frame : CanFrame) (vs : List ℤ) : Prop where
  id : frame.id = m.id
  dlc : frame.dlc = m.size
  signals : List.Forall₂ (HasValue frame.data) m.signals vs

def encodeFrame (m : Message) (vs : List ℤ) (d : Vector UInt8 canMaxDlc) : CanFrame where
  id := m.id
  dlc := m.size
  data := m.encode vs d

variable {d : Vector UInt8 canMaxDlc} {i : ℕ}

theorem readBits_word (h : i + 1 < canMaxDlc) :
    readBits d (8 * i + 7) 16 = (getU16 d i h).toNat := by
  rw [readBits_two_bytes d h, getU16, u16_join_toNat]

structure AtByte (s : Signal) (i length : ℕ) (signed : Bool) : Prop where
  start : s.start = 8 * i + 7
  length : s.length = length
  signed : s.signed = signed
  offset : s.offset = 0

theorem AtByte.hasValue {s : Signal} {length : ℕ} {signed : Bool} {v : ℤ}
    (hs : AtByte s i length signed) (hv : s.raw d = v) : HasValue d s v := by
  rw [HasValue, Signal.physical, hs.offset, add_zero, hv]
  exact ⟨rfl, rfl⟩

theorem AtByte.word {s : Signal} {v : UInt16} (hs : AtByte s i 16 false) (h : i + 1 < canMaxDlc)
    (hv : getU16 d i h = v) : HasValue d s v.toNat := by
  apply hs.hasValue
  rw [Signal.raw, hs.start, hs.length, hs.signed, readBits_word h, hv]
  exact if_neg (by simp)

theorem AtByte.byte {s : Signal} {v : UInt8} (hs : AtByte s i 8 false) (h : i < canMaxDlc)
    (hv : d[i] = v) : HasValue d s v.toNat := by
  apply hs.hasValue
  rw [Signal.raw, hs.start, hs.length, hs.signed, readBits_one_byte d h, hv]
  exact if_neg (by simp)

/-- Two's complement is what a cast to `int16_t` makes of the word. -/
theorem AtByte.signedWord {s : Signal} {v : Int16} (hs : AtByte s i 16 true)
    (h : i + 1 < canMaxDlc) (hv : (getU16 d i h).toInt16 = v) : HasValue d s v.toInt := by
  have hint : v.toInt = (getU16 d i h).toBitVec.toInt := hv ▸ rfl
  apply hs.hasValue
  rw [Signal.raw, hs.start, hs.length, hs.signed, readBits_word h, hint,
    BitVec.toInt_eq_toNat_cond]
  simp only [true_and, UInt16.toNat_toBitVec]
  split_ifs <;> omega

theorem carries_status (s : BmsStatus) : Carries bmsStatus (packStatus s)
    [s.packVoltageMv.toNat, s.packCurrentCa.toInt, s.socPercentX2.toNat, s.state.toNat] := by
  obtain ⟨hmv, hca, hsoc, hst⟩ := BmsStatus.mk.inj (readStatus_packStatus s)
  have h₁ : AtByte packVoltageMv 0 16 false := ⟨rfl, rfl, rfl, rfl⟩
  have h₂ : AtByte packCurrentCa 2 16 true := ⟨rfl, rfl, rfl, rfl⟩
  have h₃ : AtByte socPercentX2 4 8 false := ⟨rfl, rfl, rfl, rfl⟩
  have h₄ : AtByte state 5 8 false := ⟨rfl, rfl, rfl, rfl⟩
  refine ⟨rfl, rfl, ?_⟩
  exact .cons (h₁.word _ hmv) (.cons (h₂.signedWord _ hca)
    (.cons (h₃.byte _ hsoc) (.cons (h₄.byte _ hst) .nil)))

theorem carries_cells (cv : CellVoltages) : Carries cellVoltages (packCellVoltages cv)
    ((List.finRange bmsCellCount).map fun i ↦ ((cv.cellMv.get i).toNat : ℤ)) := by
  have hcell (i : Fin bmsCellCount) :
      getU16 (packCellVoltages cv).data (i * 2) (cell_word i) = cv.cellMv.get i :=
    getU16_putCells cells_fit _ _ i
  have h₁ : AtByte cell1Mv 0 16 false := ⟨rfl, rfl, rfl, rfl⟩
  have h₂ : AtByte cell2Mv 2 16 false := ⟨rfl, rfl, rfl, rfl⟩
  have h₃ : AtByte cell3Mv 4 16 false := ⟨rfl, rfl, rfl, rfl⟩
  have h₄ : AtByte cell4Mv 6 16 false := ⟨rfl, rfl, rfl, rfl⟩
  have h₅ : AtByte cell5Mv 8 16 false := ⟨rfl, rfl, rfl, rfl⟩
  refine ⟨rfl, rfl, ?_⟩
  exact .cons (h₁.word _ (hcell 0)) (.cons (h₂.word _ (hcell 1)) (.cons (h₃.word _ (hcell 2))
    (.cons (h₄.word _ (hcell 3)) (.cons (h₅.word _ (hcell 4)) .nil))))

theorem carries_fault (f : FaultReport) : Carries faultReport (packFault f)
    [f.faultBitmask.toNat, f.severity.toNat] := by
  obtain ⟨hmask, hsev⟩ := FaultReport.mk.inj (readFault_packFault f)
  have h₁ : AtByte faultBitmask 0 16 false := ⟨rfl, rfl, rfl, rfl⟩
  have h₂ : AtByte severity 2 8 false := ⟨rfl, rfl, rfl, rfl⟩
  refine ⟨rfl, rfl, ?_⟩
  exact .cons (h₁.word _ hmask) (.cons (h₂.byte _ hsev) .nil)

theorem unpack_encodeFrame (v : UInt16) (out : ChargeCommand) :
    unpackChargeCommand (encodeFrame chargeCommand [v.toNat] d) out = (0, ⟨v⟩) := by
  have hs : AtByte requestedCurrentX10 0 16 false := ⟨rfl, rfl, rfl, rfl⟩
  have hword := requestedCurrentX10.readBits_encode v.toNat d (by decide)
  rw [hs.start, hs.length, readBits_word (by decide)] at hword
  have hv : getU16 (requestedCurrentX10.encode v.toNat d) 0 (by decide) = v := by
    apply UInt16.toNat_inj.mp
    rw [hword]
    have := v.toNat_lt
    omega
  have hdata : (encodeFrame chargeCommand [v.toNat] d).data =
      requestedCurrentX10.encode v.toNat d := Message.encode_singleton rfl _ d
  have hread : chargeFormat.read = readCharge := rfl
  rw [unpackChargeCommand_unpacks.accepted out rfl le_rfl, hdata, hread, readCharge, hv]

/-- The file and the codec agree on all twelve signals. -/
theorem dbc_agrees :
    (∀ s, Carries bmsStatus (packStatus s) [s.packVoltageMv.toNat, s.packCurrentCa.toInt,
      s.socPercentX2.toNat, s.state.toNat]) ∧
    (∀ cv, Carries cellVoltages (packCellVoltages cv)
      ((List.finRange bmsCellCount).map fun i ↦ ((cv.cellMv.get i).toNat : ℤ))) ∧
    (∀ f, Carries faultReport (packFault f) [f.faultBitmask.toNat, f.severity.toNat]) ∧
    ∀ (v : UInt16) d out,
      unpackChargeCommand (encodeFrame chargeCommand [v.toNat] d) out = (0, ⟨v⟩) :=
  ⟨carries_status, carries_cells, carries_fault, fun v _ out ↦ unpack_encodeFrame v out⟩

end DbcFile

end BmsFirmware
