import BmsFirmware.CanProtocol
import BmsFirmware.Lib.Message

namespace BmsFirmware

open Config Lib.Message

namespace CanProtocol

/-- A frame with the same payload that has been padded on its way, with any bytes. -/
structure Padded (f g : CanFrame) : Prop where
  id : g.id = f.id
  dlc_le : f.dlc ≤ g.dlc
  dlc_max : g.dlc.toNat ≤ canMaxDlc
  data : AgreeTo f.dlc.toNat f.data g.data

theorem u16_join_toNat (hi lo : UInt8) :
    ((hi.toUInt16 <<< 8) ||| lo.toUInt16).toNat = hi.toNat * 2 ^ 8 + lo.toNat := by
  have hhi := hi.toNat_lt
  have hlo : lo.toNat < 2 ^ 8 := lo.toNat_lt
  have hshift : (UInt16.toNat 8) % 16 = 8 := rfl
  have hsmall : hi.toNat <<< 8 < 2 ^ 16 := by
    rw [Nat.shiftLeft_eq]
    omega
  simp only [UInt16.toNat_or, UInt16.toNat_shiftLeft, UInt8.toNat_toUInt16, hshift,
    Nat.mod_eq_of_lt hsmall]
  rw [← Nat.shiftLeft_add_eq_or_of_lt hlo, Nat.shiftLeft_eq]

theorem u16_join (hi lo : UInt8) : (((hi.toUInt16 <<< 8) ||| lo.toUInt16) >>> 8).toUInt8 = hi ∧
    (((hi.toUInt16 <<< 8) ||| lo.toUInt16) &&& 0xFF).toUInt8 = lo := by
  have hhi := hi.toNat_lt
  have hlo := lo.toNat_lt
  have hshift : (UInt16.toNat 8) % 16 = 8 := rfl
  have hmask (m : ℕ) : m &&& UInt16.toNat 255 = m % 2 ^ 8 := Nat.and_two_pow_sub_one_eq_mod m 8
  constructor
  · apply UInt8.toNat_inj.mp
    rw [UInt16.toNat_toUInt8, UInt16.toNat_shiftRight, u16_join_toNat, hshift,
      Nat.shiftRight_eq_div_pow]
    omega
  · apply UInt8.toNat_inj.mp
    rw [UInt16.toNat_toUInt8, UInt16.toNat_and, u16_join_toNat, hmask]
    omega

theorem getU16_eq_iff {d d' : Vector UInt8 canMaxDlc} {i : ℕ} (h : i + 1 < canMaxDlc) :
    getU16 d i h = getU16 d' i h ↔
      getElem d i (Nat.lt_of_succ_lt h) = getElem d' i (Nat.lt_of_succ_lt h) ∧
        d[i + 1] = d'[i + 1] := by
  constructor
  · intro heq
    unfold getU16 at heq
    constructor
    · rw [← (u16_join d[i] d[i + 1]).1, heq, (u16_join _ _).1]
    · rw [← (u16_join d[i] d[i + 1]).2, heq, (u16_join _ _).2]
  · intro heq
    rw [getU16, getU16, heq.1, heq.2]

theorem toInt16_inj {v w : UInt16} : v.toInt16 = w.toInt16 ↔ v = w := by
  constructor
  · intro h
    rw [← UInt16.toUInt16_toInt16 v, h, UInt16.toUInt16_toInt16]
  · intro h
    rw [h]

theorem putU16_getElem_ne {d : Vector UInt8 canMaxDlc} {i j : ℕ} (v : UInt16)
    (h : i + 1 < canMaxDlc) (hj : j < canMaxDlc) (h₁ : i ≠ j) (h₂ : i + 1 ≠ j) :
    (putU16 d i v h)[j] = d[j] := by
  rw [putU16, Vector.getElem_set_ne _ _ h₂, Vector.getElem_set_ne _ _ h₁]

theorem zeroData_getElem {i : ℕ} (h : i < canMaxDlc) : zeroData[i] = 0 :=
  Vector.getElem_replicate _

theorem word_zero : 0 + 1 < canMaxDlc := by decide

theorem word_two : 2 + 1 < canMaxDlc := by decide

theorem byte_two : 2 < canMaxDlc := by decide

theorem byte_four : 4 < canMaxDlc := by decide

theorem byte_five : 5 < canMaxDlc := by decide

theorem cells_fit : bmsCellCount * 2 ≤ canMaxDlc := by decide

theorem cell_word (i : Fin bmsCellCount) : i.val * 2 + 1 < canMaxDlc := by
  have := i.isLt
  simp only [bmsCellCount, canMaxDlc] at *
  omega

def readStatus (d : Vector UInt8 canMaxDlc) : BmsStatus where
  packVoltageMv := getU16 d 0 word_zero
  packCurrentCa := (getU16 d 2 word_two).toInt16
  socPercentX2 := getElem d 4 byte_four
  state := getElem d 5 byte_five

theorem readStatus_eq_iff (d d' : Vector UInt8 canMaxDlc) :
    readStatus d = readStatus d' ↔ AgreeTo 6 d d' := by
  have hsize : AgreeTo 6 d d' ↔ AgreeTo (0 + 1 + 1 + 1 + 1 + 1 + 1) d d' := .rfl
  simp only [readStatus, BmsStatus.mk.injEq, toInt16_inj, getU16_eq_iff, hsize]
  rw [agreeTo_succ (by decide), agreeTo_succ (by decide), agreeTo_succ (by decide),
    agreeTo_succ (by decide), agreeTo_succ (by decide), agreeTo_succ (by decide)]
  simp only [agreeTo_zero, true_and, and_assoc]

theorem readStatus_packStatus (s : BmsStatus) : readStatus (packStatus s).data = s :=
  Option.some.inj (receivedStatus_packStatus s)

theorem packStatus_blank (s : BmsStatus) (i : ℕ) (h : i < canMaxDlc) (hi : 6 ≤ i) :
    (packStatus s).data[i] = 0 := by
  simp only [packStatus]
  rw [Vector.getElem_set_ne _ _ (by omega), Vector.getElem_set_ne _ _ (by omega),
    putU16_getElem_ne _ _ _ (by omega) (by omega), putU16_getElem_ne _ _ _ (by omega) (by omega),
    zeroData_getElem]

def statusCodec : Codec UInt32 UInt8 canMaxDlc BmsStatus where
  tag := canIdBmsStatus
  size := 6
  read := readStatus
  blank := 0
  write s := (packStatus s).data
  read_eq_iff := readStatus_eq_iff
  read_write := readStatus_packStatus
  write_blank := packStatus_blank

def readFault (d : Vector UInt8 canMaxDlc) : FaultReport where
  faultBitmask := getU16 d 0 word_zero
  severity := getElem d 2 byte_two

theorem readFault_eq_iff (d d' : Vector UInt8 canMaxDlc) :
    readFault d = readFault d' ↔ AgreeTo 3 d d' := by
  have hsize : AgreeTo 3 d d' ↔ AgreeTo (0 + 1 + 1 + 1) d d' := .rfl
  simp only [readFault, FaultReport.mk.injEq, getU16_eq_iff, hsize]
  rw [agreeTo_succ (by decide), agreeTo_succ (by decide), agreeTo_succ (by decide)]
  simp only [agreeTo_zero, true_and, and_assoc]

theorem readFault_packFault (f : FaultReport) : readFault (packFault f).data = f :=
  Option.some.inj (receivedFault_packFault f)

theorem packFault_blank (f : FaultReport) (i : ℕ) (h : i < canMaxDlc) (hi : 3 ≤ i) :
    (packFault f).data[i] = 0 := by
  simp only [packFault]
  rw [Vector.getElem_set_ne _ _ (by omega), putU16_getElem_ne _ _ _ (by omega) (by omega),
    zeroData_getElem]

def faultCodec : Codec UInt32 UInt8 canMaxDlc FaultReport where
  tag := canIdFaultReport
  size := 3
  read := readFault
  blank := 0
  write f := (packFault f).data
  read_eq_iff := readFault_eq_iff
  read_write := readFault_packFault
  write_blank := packFault_blank

def putCells {n : ℕ} (hn : n * 2 ≤ canMaxDlc) (cell : Fin n → UInt16)
    (buf : Vector UInt8 canMaxDlc) : Vector UInt8 canMaxDlc :=
  Fin.foldl n (fun data i ↦ putU16 data (i * 2) (cell i) (by omega)) buf

theorem putCells_succ {n : ℕ} (hn : (n + 1) * 2 ≤ canMaxDlc) (cell : Fin (n + 1) → UInt16)
    (buf : Vector UInt8 canMaxDlc) : putCells hn cell buf =
      putU16 (putCells (by omega) (fun i ↦ cell i.castSucc) buf) (n * 2) (cell (Fin.last n))
        (by omega) :=
  Fin.foldl_succ_last _ _

theorem putCells_getElem {n : ℕ} (hn : n * 2 ≤ canMaxDlc) (cell : Fin n → UInt16)
    (buf : Vector UInt8 canMaxDlc) {j : ℕ} (hj : j < canMaxDlc) (hle : n * 2 ≤ j) :
    (putCells hn cell buf)[j] = buf[j] := by
  induction n with
  | zero => simp only [putCells, Fin.foldl_zero]
  | succ n ih =>
    rw [putCells_succ, putU16_getElem_ne _ _ _ (by omega) (by omega)]
    exact ih _ _ (by omega)

theorem getU16_putCells {n : ℕ} (hn : n * 2 ≤ canMaxDlc) (cell : Fin n → UInt16)
    (buf : Vector UInt8 canMaxDlc) (i : Fin n) :
    getU16 (putCells hn cell buf) (i * 2) (by omega) = cell i := by
  induction n with
  | zero => exact i.elim0
  | succ n ih =>
    rw [putCells_succ]
    induction i using Fin.lastCases with
    | last => exact getU16_putU16 _ _ _ _
    | cast i =>
      have hi : i.castSucc.val * 2 + 1 < n * 2 := by
        have := i.isLt
        simp only [Fin.val_castSucc]
        omega
      rw [getU16_putU16_ne _ _ _ _ (.inr hi)]
      exact ih _ _ i

theorem ofFn_eq_iff {n : ℕ} {f g : Fin n → UInt16} :
    Vector.ofFn f = Vector.ofFn g ↔ ∀ i (h : i < n), f ⟨i, h⟩ = g ⟨i, h⟩ := by
  constructor
  · intro heq i h
    have hi : (Vector.ofFn f)[i] = (Vector.ofFn g)[i] := by rw [heq]
    rwa [Vector.getElem_ofFn, Vector.getElem_ofFn] at hi
  · intro h
    exact congrArg Vector.ofFn (funext fun i ↦ h i i.isLt)

def readCells (d : Vector UInt8 canMaxDlc) : CellVoltages where
  cellMv := Vector.ofFn fun i : Fin bmsCellCount ↦ getU16 d (i * 2) (cell_word i)

theorem readCells_eq_iff (d d' : Vector UInt8 canMaxDlc) :
    readCells d = readCells d' ↔ AgreeTo (bmsCellCount * 2) d d' := by
  rw [agreeTo_mul_two cells_fit, readCells, readCells, CellVoltages.mk.injEq, ofFn_eq_iff]
  simp only [getU16_eq_iff]

theorem packCellVoltages_data (cv : CellVoltages) :
    (packCellVoltages cv).data = putCells cells_fit cv.cellMv.get zeroData := rfl

theorem readCells_packCellVoltages (cv : CellVoltages) :
    readCells (packCellVoltages cv).data = cv := by
  simp only [readCells, packCellVoltages_data, getU16_putCells]
  exact congrArg CellVoltages.mk (Vector.ext fun i h ↦ Vector.getElem_ofFn h)

theorem packCellVoltages_blank (cv : CellVoltages) (i : ℕ) (h : i < canMaxDlc)
    (hi : bmsCellCount * 2 ≤ i) : (packCellVoltages cv).data[i] = 0 := by
  simp only [packCellVoltages_data]
  rw [putCells_getElem _ _ _ _ hi, zeroData_getElem]

def cellsCodec : Codec UInt32 UInt8 canMaxDlc CellVoltages where
  tag := canIdCellVoltages
  size := bmsCellCount * 2
  read := readCells
  blank := 0
  write cv := (packCellVoltages cv).data
  read_eq_iff := readCells_eq_iff
  read_write := readCells_packCellVoltages
  write_blank := packCellVoltages_blank

def readCharge (d : Vector UInt8 canMaxDlc) : ChargeCommand where
  requestedCurrentX10 := getU16 d 0 word_zero

theorem readCharge_eq_iff (d d' : Vector UInt8 canMaxDlc) :
    readCharge d = readCharge d' ↔ AgreeTo 2 d d' := by
  have hsize : AgreeTo 2 d d' ↔ AgreeTo (0 + 1 + 1) d d' := .rfl
  simp only [readCharge, ChargeCommand.mk.injEq, getU16_eq_iff, hsize]
  rw [agreeTo_succ (by decide), agreeTo_succ (by decide)]
  simp only [agreeTo_zero, true_and]

def chargeFormat : Format UInt32 UInt8 canMaxDlc ChargeCommand where
  tag := canIdChargeCommand
  size := 2
  read := readCharge
  read_eq_iff := readCharge_eq_iff

section Unpack

variable {α : Type}

def answer (out : α) : Option α → ℤ × α
  | some v => (0, v)
  | none => (-1, out)

def Unpacks (unpack : CanFrame → α → ℤ × α) (F : Format UInt32 UInt8 canMaxDlc α) : Prop :=
  ∀ frame out, unpack frame out = answer out (F.decode frame.id frame.dlc.toNat frame.data)

theorem unpacks_of_check {unpack : CanFrame → α → ℤ × α} {F : Format UInt32 UInt8 canMaxDlc α}
    {n : UInt8} (hn : F.size = n.toNat) (h : ∀ frame out, unpack frame out =
      if frame.id ≠ F.tag ∨ frame.dlc < n then (-1, out) else (0, F.read frame.data)) :
    Unpacks unpack F := by
  intro frame out
  have hcheck : frame.id ≠ F.tag ∨ frame.dlc < n ↔
      ¬ (frame.id = F.tag ∧ F.size ≤ frame.dlc.toNat) := by
    rw [hn, ← UInt8.le_iff_toNat_le, not_and_or, UInt8.not_le]
  rw [h]
  by_cases hacc : frame.id = F.tag ∧ F.size ≤ frame.dlc.toNat
  · rw [if_neg (fun hc ↦ hcheck.mp hc hacc), Format.decode_accepted _ hacc.1 hacc.2]
    rfl
  · rw [if_pos (hcheck.mpr hacc), Format.decode_rejected _ hacc]
    rfl

variable {unpack : CanFrame → α → ℤ × α} {F : Format UInt32 UInt8 canMaxDlc α}

theorem Unpacks.accepted (h : Unpacks unpack F) {frame : CanFrame} (out : α)
    (hid : frame.id = F.tag) (hn : F.size ≤ frame.dlc.toNat) :
    unpack frame out = (0, F.read frame.data) := by
  rw [h, Format.decode_accepted _ hid hn]
  rfl

theorem Unpacks.rejected (h : Unpacks unpack F) {frame : CanFrame} (out : α)
    (hacc : ¬ (frame.id = F.tag ∧ F.size ≤ frame.dlc.toNat)) :
    unpack frame out = (-1, out) := by
  rw [h, Format.decode_rejected _ hacc]
  rfl

theorem Unpacks.other (h : Unpacks unpack F) {frame : CanFrame} (out : α)
    (hid : frame.id ≠ F.tag) : unpack frame out = (-1, out) :=
  h.rejected out fun hacc ↦ hid hacc.1

/-- The function accepts exactly the frames with its identifier and at least `n`
bytes, depends on those bytes alone, and leaves `*out` as it is otherwise. -/
structure Decodes (unpack : CanFrame → α → ℤ × α) (id : UInt32) (n : UInt8) : Prop where
  accepts_iff : ∀ frame out, (unpack frame out).1 = 0 ↔ frame.id = id ∧ n ≤ frame.dlc
  rejects : ∀ frame out, ¬ (frame.id = id ∧ n ≤ frame.dlc) → unpack frame out = (-1, out)
  payload_only : ∀ frame frame' out out', frame.id = id → n ≤ frame.dlc → frame'.id = id →
    n ≤ frame'.dlc → AgreeTo n.toNat frame.data frame'.data → unpack frame out = unpack frame' out'

def Repacks (unpack : CanFrame → α → ℤ × α) (pack : α → CanFrame) (n : UInt8) : Prop :=
  ∀ frame out, (unpack frame out).1 = 0 →
    (pack (unpack frame out).2).id = frame.id ∧ (pack (unpack frame out).2).dlc = n ∧
    AgreeTo n.toNat (pack (unpack frame out).2).data frame.data ∧
    ∀ i (h : i < canMaxDlc), n.toNat ≤ i → (pack (unpack frame out).2).data[i] = 0

theorem Unpacks.decodes (h : Unpacks unpack F) {n : UInt8} (hn : F.size = n.toNat) :
    Decodes unpack F.tag n where
  accepts_iff frame out := by
    rw [UInt8.le_iff_toNat_le, ← hn]
    by_cases hacc : frame.id = F.tag ∧ F.size ≤ frame.dlc.toNat
    · exact iff_of_true (congrArg Prod.fst (h.accepted out hacc.1 hacc.2)) hacc
    · exact iff_of_false (by rw [h.rejected out hacc]; simp) hacc
  rejects frame out hacc := by
    rw [UInt8.le_iff_toNat_le, ← hn] at hacc
    exact h.rejected out hacc
  payload_only frame frame' out out' hid hle hid' hle' hd := by
    rw [UInt8.le_iff_toNat_le, ← hn] at hle hle'
    rw [h.accepted out hid hle, h.accepted out' hid' hle', (F.read_eq_iff _ _).mpr (hn ▸ hd)]

end Unpack

section Pack

variable {α : Type} {unpack : CanFrame → α → ℤ × α} {pack : α → CanFrame}
  {C : Codec UInt32 UInt8 canMaxDlc α} {n : UInt8}

structure Packs (pack : α → CanFrame) (C : Codec UInt32 UInt8 canMaxDlc α) (n : UInt8) : Prop where
  size : C.size = n.toNat
  id : ∀ v, (pack v).id = C.tag
  dlc : ∀ v, (pack v).dlc = n
  data : ∀ v, (pack v).data = C.write v
  blank : C.blank = 0

theorem Packs.unpack_pack (hp : Packs pack C n) (hu : Unpacks unpack C.toFormat) {v : α}
    {g : CanFrame} (hg : Padded (pack v) g) (out : α) : unpack g out = (0, v) := by
  have hdata : AgreeTo C.size (C.write v) g.data := by
    rw [hp.size, ← hp.dlc v, ← hp.data v]
    exact hg.data
  have hle : C.size ≤ g.dlc.toNat := by
    rw [hp.size, ← hp.dlc v]
    exact UInt8.le_iff_toNat_le.mp hg.dlc_le
  rw [hu, hg.id.trans (hp.id v), C.decode_write hdata hle]
  rfl

theorem Packs.repacks (hp : Packs pack C n) (hu : Unpacks unpack C.toFormat) :
    Repacks unpack pack n := by
  intro frame out hok
  obtain ⟨hid, hle⟩ := ((hu.decodes hp.size).accepts_iff frame out).mp hok
  rw [UInt8.le_iff_toNat_le, ← hp.size] at hle
  rw [hu.accepted out hid hle, hp.id, hp.dlc, hp.data, ← hp.size]
  refine ⟨hid.symm, rfl, C.write_read _, ?_⟩
  intro i h hi
  rw [C.write_blank _ _ h hi, hp.blank]

end Pack

theorem unpackStatus_unpacks : Unpacks unpackStatus statusCodec.toFormat :=
  unpacks_of_check (n := 6) rfl fun _ _ ↦ rfl

theorem unpackCellVoltages_unpacks : Unpacks unpackCellVoltages cellsCodec.toFormat :=
  unpacks_of_check (n := 10) rfl fun _ _ ↦ rfl

theorem unpackFault_unpacks : Unpacks unpackFault faultCodec.toFormat :=
  unpacks_of_check (n := 3) rfl fun _ _ ↦ rfl

theorem unpackChargeCommand_unpacks : Unpacks unpackChargeCommand chargeFormat :=
  unpacks_of_check (n := 2) rfl fun _ _ ↦ rfl

theorem packStatus_packs : Packs packStatus statusCodec 6 :=
  ⟨rfl, fun _ ↦ rfl, fun _ ↦ rfl, fun _ ↦ rfl, rfl⟩

theorem packCellVoltages_packs : Packs packCellVoltages cellsCodec 10 :=
  ⟨rfl, fun _ ↦ rfl, fun _ ↦ rfl, fun _ ↦ rfl, rfl⟩

theorem packFault_packs : Packs packFault faultCodec 3 :=
  ⟨rfl, fun _ ↦ rfl, fun _ ↦ rfl, fun _ ↦ rfl, rfl⟩

/-- Unpacking undoes packing through any padding, and no other unpack function
takes the frame. -/
theorem unpack_padded (g : CanFrame) (o₁ : BmsStatus) (o₂ : CellVoltages) (o₃ : FaultReport)
    (o₄ : ChargeCommand) :
    (∀ s, Padded (packStatus s) g → unpackStatus g o₁ = (0, s) ∧
      unpackCellVoltages g o₂ = (-1, o₂) ∧ unpackFault g o₃ = (-1, o₃) ∧
      unpackChargeCommand g o₄ = (-1, o₄)) ∧
    (∀ cv, Padded (packCellVoltages cv) g → unpackStatus g o₁ = (-1, o₁) ∧
      unpackCellVoltages g o₂ = (0, cv) ∧ unpackFault g o₃ = (-1, o₃) ∧
      unpackChargeCommand g o₄ = (-1, o₄)) ∧
    (∀ f, Padded (packFault f) g → unpackStatus g o₁ = (-1, o₁) ∧
      unpackCellVoltages g o₂ = (-1, o₂) ∧ unpackFault g o₃ = (0, f) ∧
      unpackChargeCommand g o₄ = (-1, o₄)) := by
  refine ⟨fun s hg ↦ ?_, fun cv hg ↦ ?_, fun f hg ↦ ?_⟩
  · have hid : g.id = canIdBmsStatus := hg.id
    refine ⟨packStatus_packs.unpack_pack unpackStatus_unpacks hg o₁, ?_, ?_, ?_⟩
    · exact unpackCellVoltages_unpacks.other o₂ (hid ▸ by decide)
    · exact unpackFault_unpacks.other o₃ (hid ▸ by decide)
    · exact unpackChargeCommand_unpacks.other o₄ (hid ▸ by decide)
  · have hid : g.id = canIdCellVoltages := hg.id
    refine ⟨?_, packCellVoltages_packs.unpack_pack unpackCellVoltages_unpacks hg o₂, ?_, ?_⟩
    · exact unpackStatus_unpacks.other o₁ (hid ▸ by decide)
    · exact unpackFault_unpacks.other o₃ (hid ▸ by decide)
    · exact unpackChargeCommand_unpacks.other o₄ (hid ▸ by decide)
  · have hid : g.id = canIdFaultReport := hg.id
    refine ⟨?_, ?_, packFault_packs.unpack_pack unpackFault_unpacks hg o₃, ?_⟩
    · exact unpackStatus_unpacks.other o₁ (hid ▸ by decide)
    · exact unpackCellVoltages_unpacks.other o₂ (hid ▸ by decide)
    · exact unpackChargeCommand_unpacks.other o₄ (hid ▸ by decide)

def dischargingStatus : BmsStatus := ⟨18500, -1200, 150, 0⟩

def paddedStatus : CanFrame :=
  { packStatus dischargingStatus with
    dlc := 8
    data := ((packStatus dischargingStatus).data.set 6 0xA5).set 63 0x5A }

theorem unpack_padded_discharging :
    unpackStatus paddedStatus ⟨0, 0, 0, 0⟩ = (0, dischargingStatus) ∧
    unpackCellVoltages paddedStatus ⟨.replicate _ 0⟩ = (-1, ⟨.replicate _ 0⟩) ∧
    unpackFault paddedStatus ⟨0, 0⟩ = (-1, ⟨0, 0⟩) ∧
    unpackChargeCommand paddedStatus ⟨0⟩ = (-1, ⟨0⟩) :=
  (unpack_padded paddedStatus ⟨0, 0, 0, 0⟩ ⟨.replicate _ 0⟩ ⟨0, 0⟩ ⟨0⟩).1 dischargingStatus
    ⟨rfl, by decide, by decide, by decide +kernel⟩

/-- The four decoders take their own frames only, look at nothing but the payload,
and are undone by the encoders. -/
theorem decoders_exact :
    Decodes unpackStatus canIdBmsStatus 6 ∧ Decodes unpackCellVoltages canIdCellVoltages 10 ∧
    Decodes unpackFault canIdFaultReport 3 ∧ Decodes unpackChargeCommand canIdChargeCommand 2 ∧
    Repacks unpackStatus packStatus 6 ∧ Repacks unpackCellVoltages packCellVoltages 10 ∧
    Repacks unpackFault packFault 3 :=
  ⟨unpackStatus_unpacks.decodes rfl, unpackCellVoltages_unpacks.decodes rfl,
    unpackFault_unpacks.decodes rfl, unpackChargeCommand_unpacks.decodes rfl,
    packStatus_packs.repacks unpackStatus_unpacks,
    packCellVoltages_packs.repacks unpackCellVoltages_unpacks,
    packFault_packs.repacks unpackFault_unpacks⟩

end CanProtocol

end BmsFirmware
