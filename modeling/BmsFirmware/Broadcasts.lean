import BmsFirmware.CanCodec
import BmsFirmware.FirmwareRuns
import BmsFirmware.SocketCanRx

namespace BmsFirmware

open Config CanProtocol Lib.History Lib.Message

def announced : List Snapshot → UInt16
  | [] => 0
  | snap :: _ => snap.faults

def reportOf (last : UInt16) (snap : Snapshot) : List CanFrame :=
  if snap.faults ≠ last then [snap.faultFrame] else []

/-- The frames that these snapshots call for, the latest first as well. -/
def script : List Snapshot → List CanFrame
  | [] => []
  | snap :: snaps =>
    reportOf (announced snaps) snap ++ snap.cellsFrame :: snap.statusFrame :: script snaps

def reportsOf : List Snapshot → List FaultReport
  | [] => []
  | snap :: snaps =>
    if snap.faults ≠ announced snaps then snap.faultReport :: reportsOf snaps else reportsOf snaps

def receivedCells (frame : CanFrame) : Option CellVoltages :=
  received (unpackCellVoltages frame ⟨Vector.replicate bmsCellCount 0⟩)

def Snapshot.voltages (snap : Snapshot) : CellVoltages := ⟨snap.reading.cellMv⟩

namespace CanTask

/-- The frames sent so far and those that the last snapshot still calls for. -/
inductive Scripted : List Snapshot → CanTask → Prop
  | idle (snaps : List Snapshot) (bus : List Sent) (hbus : bus.map (·.frame) = script snaps) :
      Scripted snaps ⟨announced snaps, .idle, bus⟩
  | status (snap : Snapshot) (snaps : List Snapshot) (bus : List Sent)
      (hbus : bus.map (·.frame) = script snaps) :
      Scripted (snap :: snaps) ⟨announced snaps, .status snap, bus⟩
  | cells (snap : Snapshot) (snaps : List Snapshot) (bus : List Sent)
      (hbus : bus.map (·.frame) = snap.statusFrame :: script snaps) :
      Scripted (snap :: snaps) ⟨announced snaps, .cells snap, bus⟩
  | fault (snap : Snapshot) (snaps : List Snapshot) (bus : List Sent)
      (hbus : bus.map (·.frame) = snap.cellsFrame :: snap.statusFrame :: script snaps)
      (hne : snap.faults ≠ announced snaps) :
      Scripted (snap :: snaps) ⟨announced snaps, .fault snap, bus⟩

variable {snaps : List Snapshot} {t t' : CanTask}

theorem Scripted.snapshot {snap : Snapshot} (h : Scripted snaps t)
    (he : t.step (.snapshot snap) = some t') : Scripted (snap :: snaps) t' := by
  cases h with
  | idle snaps bus hbus =>
    obtain rfl := Option.some.inj he
    exact .status snap snaps bus hbus
  | _ => exact nomatch he

theorem Scripted.send {ok : Bool} (h : Scripted snaps t) (he : t.step (.send ok) = some t') :
    Scripted snaps t' := by
  cases h with
  | idle => exact nomatch he
  | status snap snaps bus hbus =>
    obtain rfl := Option.some.inj he
    exact .cells snap snaps _ (congrArg (snap.statusFrame :: ·) hbus)
  | cells snap snaps bus hbus =>
    obtain rfl := Option.some.inj he
    have hbus' := congrArg (snap.cellsFrame :: ·) hbus
    by_cases hne : snap.faults ≠ announced snaps
    · rw [if_pos hne]
      exact .fault snap snaps _ hbus' hne
    · rw [if_neg hne, ← not_not.mp hne]
      refine .idle (snap :: snaps) _ (hbus'.trans ?_)
      rw [script, reportOf, if_neg hne, List.nil_append]
  | fault snap snaps bus hbus hne =>
    obtain rfl := Option.some.inj he
    refine .idle (snap :: snaps) _ ((congrArg (snap.faultFrame :: ·) hbus).trans ?_)
    rw [script, reportOf, if_pos hne, List.singleton_append]

/-- At most three frames of the script are still to come. -/
theorem Scripted.unsent (h : Scripted snaps t) : ∃ unsent : List CanFrame,
    unsent.length ≤ 3 ∧ unsent ++ t.bus.map (·.frame) = script snaps := by
  have hlen (last : UInt16) (snap : Snapshot) : (reportOf last snap).length ≤ 1 := by
    unfold reportOf
    split_ifs <;> simp
  cases h with
  | idle snaps bus hbus => exact ⟨[], Nat.zero_le 3, hbus⟩
  | status snap snaps bus hbus =>
    refine ⟨reportOf (announced snaps) snap ++ [snap.cellsFrame, snap.statusFrame], ?_, ?_⟩
    · have := hlen (announced snaps) snap
      simp
      omega
    · rw [hbus, script, List.append_assoc]
      rfl
  | cells snap snaps bus hbus =>
    refine ⟨reportOf (announced snaps) snap ++ [snap.cellsFrame], ?_, ?_⟩
    · have := hlen (announced snaps) snap
      simp
      omega
    · rw [hbus, script, List.append_assoc]
      rfl
  | fault snap snaps bus hbus hne =>
    refine ⟨[snap.faultFrame], by simp, ?_⟩
    rw [hbus, script, reportOf, if_pos hne]

end CanTask

namespace CanProtocol

theorem padded_refl {f : CanFrame} (hdlc : f.dlc.toNat ≤ canMaxDlc) : Padded f f :=
  ⟨rfl, UInt8.le_refl _, hdlc, fun _ _ _ ↦ rfl⟩

theorem receivedStatus_other {g : CanFrame} (hid : g.id ≠ canIdBmsStatus) :
    receivedStatus g = none := by
  rw [receivedStatus, unpackStatus_unpacks.other _ hid]
  rfl

theorem receivedCells_other {g : CanFrame} (hid : g.id ≠ canIdCellVoltages) :
    receivedCells g = none := by
  rw [receivedCells, unpackCellVoltages_unpacks.other _ hid]
  rfl

theorem receivedFault_other {g : CanFrame} (hid : g.id ≠ canIdFaultReport) :
    receivedFault g = none := by
  rw [receivedFault, unpackFault_unpacks.other _ hid]
  rfl

theorem receivedCells_padded {cv : CellVoltages} {g : CanFrame}
    (hg : Padded (packCellVoltages cv) g) : receivedCells g = some cv := by
  rw [receivedCells, packCellVoltages_packs.unpack_pack unpackCellVoltages_unpacks hg]
  rfl

@[simp] theorem receivedCells_packCellVoltages (cv : CellVoltages) :
    receivedCells (packCellVoltages cv) = some cv :=
  receivedCells_padded (padded_refl (show (10 : UInt8).toNat ≤ canMaxDlc by decide))

@[simp] theorem receivedCells_packStatus (s : BmsStatus) : receivedCells (packStatus s) = none :=
  receivedCells_other (show canIdBmsStatus ≠ canIdCellVoltages by decide)

@[simp] theorem receivedCells_packFault (f : FaultReport) : receivedCells (packFault f) = none :=
  receivedCells_other (show canIdFaultReport ≠ canIdCellVoltages by decide)

inductive Packed : CanFrame → Prop
  | status (s : BmsStatus) : Packed (packStatus s)
  | cells (cv : CellVoltages) : Packed (packCellVoltages cv)
  | fault (f : FaultReport) : Packed (packFault f)

theorem script_packed (snaps : List Snapshot) : ∀ f ∈ script snaps, Packed f := by
  induction snaps with
  | nil => exact nofun
  | cons snap snaps ih =>
    intro f hf
    simp only [script, List.mem_append, List.mem_cons] at hf
    rcases hf with hf | rfl | rfl | hf
    · unfold reportOf at hf
      split_ifs at hf
      · obtain rfl := List.mem_singleton.mp hf
        exact .fault _
      · exact nomatch hf
    · exact .cells _
    · exact .status _
    · exact ih f hf

structure Alike (f g : CanFrame) : Prop where
  status : receivedStatus g = receivedStatus f
  cells : receivedCells g = receivedCells f
  fault : receivedFault g = receivedFault f

theorem Packed.alike {f g : CanFrame} (hf : Packed f) (hg : Padded f g) : Alike f g := by
  cases hf with
  | status s =>
    have hid : g.id = canIdBmsStatus := hg.id
    refine ⟨?_, ?_, ?_⟩
    · rw [receivedStatus, packStatus_packs.unpack_pack unpackStatus_unpacks hg,
        receivedStatus_packStatus]
      rfl
    · rw [receivedCells_other (hid ▸ by decide), receivedCells_packStatus]
    · rw [receivedFault_other (hid ▸ by decide), receivedFault_packStatus]
  | cells cv =>
    have hid : g.id = canIdCellVoltages := hg.id
    refine ⟨?_, ?_, ?_⟩
    · rw [receivedStatus_other (hid ▸ by decide), receivedStatus_packCellVoltages]
    · rw [receivedCells_padded hg, receivedCells_packCellVoltages]
    · rw [receivedFault_other (hid ▸ by decide), receivedFault_packCellVoltages]
  | fault r =>
    have hid : g.id = canIdFaultReport := hg.id
    refine ⟨?_, ?_, ?_⟩
    · rw [receivedStatus_other (hid ▸ by decide), receivedStatus_packFault]
    · rw [receivedCells_other (hid ▸ by decide), receivedCells_packFault]
    · rw [receivedFault, packFault_packs.unpack_pack unpackFault_unpacks hg,
        receivedFault_packFault]
      rfl

end CanProtocol

open CanProtocol

variable {snaps : List Snapshot} {fs gs : List CanFrame}

theorem script_statuses (snaps : List Snapshot) :
    (script snaps).filterMap receivedStatus = snaps.map (·.status) := by
  induction snaps with
  | nil => rfl
  | cons snap snaps ih =>
    rw [script, reportOf]
    split_ifs <;> simp [ih]

theorem script_cells (snaps : List Snapshot) :
    (script snaps).filterMap receivedCells = snaps.map (·.voltages) := by
  induction snaps with
  | nil => rfl
  | cons snap snaps ih =>
    rw [script, reportOf]
    split_ifs <;> simp [ih, Snapshot.voltages, Snapshot.faultFrame, Snapshot.cellsFrame,
      Snapshot.statusFrame]

theorem script_faults (snaps : List Snapshot) :
    (script snaps).filterMap receivedFault = reportsOf snaps := by
  induction snaps with
  | nil => rfl
  | cons snap snaps ih =>
    rw [script, reportOf, reportsOf]
    split_ifs <;> simp [ih]

/-- What a listener has decoded: everything that the snapshots call for, with the cell
voltages given, up to one message of each kind that may be still to come. -/
structure Heard (snaps : List Snapshot) (voltages : List CellVoltages) (gs : List CanFrame) :
    Prop where
  statuses : ∃ i ≤ 1, gs.filterMap receivedStatus = (snaps.map (·.status)).drop i
  cells : ∃ i ≤ 1, gs.filterMap receivedCells = voltages.drop i
  faults : ∃ i ≤ 1, gs.filterMap receivedFault = (reportsOf snaps).drop i

theorem reportsOf_drop (snap : Snapshot) (snaps : List Snapshot) :
    ∃ i ≤ 1, reportsOf snaps = (reportsOf (snap :: snaps)).drop i := by
  rw [reportsOf]
  split_ifs
  · exact ⟨1, le_rfl, rfl⟩
  · exact ⟨0, zero_le, rfl⟩

theorem CanTask.Scripted.heard {t : CanTask} (h : Scripted snaps t) :
    Heard snaps (snaps.map (·.voltages)) (t.bus.map (·.frame)) := by
  cases h with
  | idle snaps bus hbus =>
    rw [hbus]
    exact ⟨⟨0, zero_le, script_statuses _⟩, ⟨0, zero_le, script_cells _⟩,
      ⟨0, zero_le, script_faults _⟩⟩
  | status snap snaps bus hbus =>
    rw [hbus]
    refine ⟨⟨1, le_rfl, script_statuses _⟩, ⟨1, le_rfl, script_cells _⟩, ?_⟩
    rw [script_faults]
    exact reportsOf_drop snap snaps
  | cells snap snaps bus hbus =>
    rw [hbus]
    refine ⟨⟨0, zero_le, ?_⟩, ⟨1, le_rfl, ?_⟩, ?_⟩
    · simp [script_statuses]
    · simp [script_cells, Snapshot.voltages, Snapshot.statusFrame]
    · rw [List.filterMap_cons_none snap.receivedFault_statusFrame, script_faults]
      exact reportsOf_drop snap snaps
  | fault snap snaps bus hbus hne =>
    rw [hbus]
    refine ⟨⟨0, zero_le, ?_⟩, ⟨0, zero_le, ?_⟩, ?_⟩
    · simp [script_statuses]
    · simp [script_cells, Snapshot.voltages, Snapshot.statusFrame, Snapshot.cellsFrame]
    · rw [List.filterMap_cons_none snap.receivedFault_cellsFrame,
        List.filterMap_cons_none snap.receivedFault_statusFrame, script_faults]
      exact reportsOf_drop snap snaps

/-- `g` is what a SocketCAN reader makes of the frame `f`, whatever its buffers held before. -/
def Travels (order : ByteOrder) (f g : CanFrame) : Prop := ∃ stale junk,
  SocketCan.rxFrame order ((SocketCan.toRaw f).image order).length
    (SocketCan.readInto stale ((SocketCan.toRaw f).image order)) junk = some g

theorem Travels.padded {order : ByteOrder} {f g : CanFrame} (h : Travels order f g)
    (hid : f.id ≤ SocketCan.canSffMask) (hdlc : f.dlc.toNat ≤ SocketCan.linuxCanMaxDlc) :
    Padded f g := by
  obtain ⟨stale, junk, hg⟩ := h
  obtain ⟨g', hg', hid', hdlc', hdata⟩ := SocketCan.rxFrame_toRaw order hid hdlc stale junk
  obtain rfl := Option.some.inj (hg'.symm.trans hg)
  exact ⟨hid', UInt8.le_of_eq hdlc'.symm, hdlc' ▸ hdlc.trans (by decide),
    fun i hi hlt ↦ (hdata i hi hlt).symm⟩

def Fits (f : CanFrame) : Bool := decide (f.dlc.toNat ≤ SocketCan.linuxCanMaxDlc)

/-- Behind a SocketCAN reader no cell voltages are heard, and all else is. -/
theorem Heard.travels {voltages : List CellVoltages} (h : Heard snaps voltages fs)
    (hfs : ∀ f ∈ fs, Packed f) {order : ByteOrder}
    (hgs : List.Forall₂ (Travels order) (fs.filter Fits) gs) : Heard snaps [] gs := by
  have hsame : gs.filterMap receivedStatus = fs.filterMap receivedStatus ∧
      gs.filterMap receivedCells = [] ∧
      gs.filterMap receivedFault = fs.filterMap receivedFault := by
    clear h
    induction fs generalizing gs with
    | nil =>
      cases hgs
      exact ⟨rfl, rfl, rfl⟩
    | cons f fs ih =>
      obtain ⟨hf, hrest⟩ := List.forall_mem_cons.mp hfs
      cases hf with
      | status s =>
        rw [List.filter_cons_of_pos rfl] at hgs
        cases hgs with
        | cons hfg hgs =>
          obtain ⟨hs, hc, hr⟩ := ih hrest hgs
          have halike := (Packed.status s).alike (hfg.padded
            (show canIdBmsStatus ≤ SocketCan.canSffMask by decide)
            (show (6 : UInt8).toNat ≤ SocketCan.linuxCanMaxDlc by decide))
          simp [halike.status, halike.cells, halike.fault, hs, hc, hr]
      | cells cv =>
        rw [List.filter_cons_of_neg (show ¬ false = true by decide)] at hgs
        obtain ⟨hs, hc, hr⟩ := ih hrest hgs
        simp [hs, hc, hr]
      | fault r =>
        rw [List.filter_cons_of_pos rfl] at hgs
        cases hgs with
        | cons hfg hgs =>
          obtain ⟨hs, hc, hr⟩ := ih hrest hgs
          have halike := (Packed.fault r).alike (hfg.padded
            (show canIdFaultReport ≤ SocketCan.canSffMask by decide)
            (show (3 : UInt8).toNat ≤ SocketCan.linuxCanMaxDlc by decide))
          simp [halike.status, halike.cells, halike.fault, hs, hc, hr]
  obtain ⟨hs, -, hr⟩ := h
  rw [← hsame.1] at hs
  rw [← hsame.2.2] at hr
  exact ⟨hs, ⟨0, zero_le, hsame.2.1⟩, hr⟩

namespace Firmware

open Lib.Threads

def snapshots (commits : List (Commit sig .ctx)) : List Snapshot :=
  (iterations .can commits).map (·.snapshot)

theorem Simulator.run_scripted {startMs : ℕ} {scenario : CellScenario} {k : List SimEvent}
    {a : Simulator} (hr : Run step (start startMs scenario) k a) :
    CanTask.Scripted (snapshots a.commits) a.sys.can := by
  induction hr with
  | start => exact .idle [] [] rfl
  | next _ hd ih =>
    cases step_stepped hd with
    | sys e sys hs hp hdue h =>
      obtain ⟨t, x⟩ := e
      obtain ⟨_, hst⟩ := System.step_stepped h
      cases hst with
      | canSection can hc => exact ih.snapshot hc
      | canSend ok can hc => exact ih.send hc
      | _ => exact ih
    | _ => exact ih

variable {argv : List String} {startMs : ℕ} {g : Leftovers} {h : List (Move sig)} {s : State sig}

/-- The frames handed to `can_hal_send` are those that the snapshots of the can task call
for, each iteration in full before the next one begins. -/
theorem firmware_broadcasts (hs : Ran argv startMs g h s) : ∃ unsent : List CanFrame,
    unsent.length ≤ 3 ∧
      unsent ++ s.mem .wire = script (snapshots (commitsTo .ctx argv startMs g h)) := by
  obtain ⟨k, a, hr, hc⟩ := hs.simulated
  rw [hc.mem_wire, hc.commits_ctx]
  exact (Simulator.run_scripted hr).unsent

theorem firmware_broadcasts_first : ∃ s,
    Run (step (program overheating zeroLocals)) (cold overheating) firstIterations s ∧
      ∃ unsent : List CanFrame, unsent.length ≤ 3 ∧ unsent ++ s.mem .wire =
        script (snapshots (commitsTo .ctx overheating 0 blank firstIterations)) := by
  obtain ⟨s, hr, hs, _⟩ := overheating_first
  exact ⟨s, hr, firmware_broadcasts (ran_of_settled hr hs)⟩

end Firmware

end BmsFirmware
