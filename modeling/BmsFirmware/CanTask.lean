import BmsFirmware.FaultManager
import BmsFirmware.Lib.History
import Mathlib.Data.List.Chain
import Mathlib.Tactic.SplitIfs

namespace BmsFirmware

open Config CanProtocol Lib.History

structure Snapshot where
  status : BmsStatus
  reading : CellReading
  faults : UInt16
  severity : BmsAsil
deriving DecidableEq, Repr

/-- A call of `can_hal_send`, with whether it returned 0. -/
structure Sent where
  frame : CanFrame
  ok : Bool
deriving DecidableEq, Repr

inductive CanPc
  | idle
  | status (snap : Snapshot)
  | cells (snap : Snapshot)
  | fault (snap : Snapshot)
deriving DecidableEq, Repr

def CanPc.pending : CanPc → Option Snapshot
  | .idle => none
  | .status snap | .cells snap | .fault snap => some snap

structure CanTask where
  lastFaults : UInt16
  pc : CanPc
  bus : List Sent
deriving DecidableEq, Repr

inductive CanEvent
  | snapshot (snap : Snapshot)
  | send (ok : Bool)
deriving DecidableEq, Repr

namespace Snapshot

variable (snap : Snapshot)

def statusFrame : CanFrame := packStatus snap.status

def cellsFrame : CanFrame := packCellVoltages { cellMv := snap.reading.cellMv }

def faultReport : FaultReport where
  faultBitmask := snap.faults
  severity := snap.severity.code

def faultFrame : CanFrame := packFault snap.faultReport

@[simp] theorem receivedFault_statusFrame : receivedFault snap.statusFrame = none :=
  receivedFault_packStatus _

@[simp] theorem receivedFault_cellsFrame : receivedFault snap.cellsFrame = none :=
  receivedFault_packCellVoltages _

@[simp] theorem receivedFault_faultFrame : receivedFault snap.faultFrame = some snap.faultReport :=
  receivedFault_packFault _

@[simp] theorem receivedStatus_statusFrame :
    receivedStatus snap.statusFrame = some snap.status :=
  receivedStatus_packStatus _

@[simp] theorem receivedStatus_cellsFrame : receivedStatus snap.cellsFrame = none :=
  receivedStatus_packCellVoltages _

@[simp] theorem receivedStatus_faultFrame : receivedStatus snap.faultFrame = none :=
  receivedStatus_packFault _

end Snapshot

namespace CanTask

def init : CanTask where
  lastFaults := 0
  pc := .idle
  bus := []

def step (t : CanTask) : CanEvent → Option CanTask
  | .snapshot snap =>
    match t.pc with
    | .idle => some { t with pc := .status snap }
    | _ => none
  | .send ok =>
    match t.pc with
    | .idle => none
    | .status snap => some { t with pc := .cells snap, bus := ⟨snap.statusFrame, ok⟩ :: t.bus }
    | .cells snap =>
      some { t with
        pc := if snap.faults ≠ t.lastFaults then .fault snap else .idle
        bus := ⟨snap.cellsFrame, ok⟩ :: t.bus }
    | .fault snap =>
      some { lastFaults := snap.faults, pc := .idle, bus := ⟨snap.faultFrame, ok⟩ :: t.bus }

inductive Stepped (t : CanTask) : CanEvent → CanTask → Prop
  | snapshot (snap : Snapshot) (hpc : t.pc = .idle) :
      Stepped t (.snapshot snap) { t with pc := .status snap }
  | status (snap : Snapshot) (ok : Bool) (hpc : t.pc = .status snap) :
      Stepped t (.send ok) { t with pc := .cells snap, bus := ⟨snap.statusFrame, ok⟩ :: t.bus }
  | unchanged (snap : Snapshot) (ok : Bool) (hpc : t.pc = .cells snap)
      (hf : snap.faults = t.lastFaults) :
      Stepped t (.send ok) { t with pc := .idle, bus := ⟨snap.cellsFrame, ok⟩ :: t.bus }
  | changed (snap : Snapshot) (ok : Bool) (hpc : t.pc = .cells snap)
      (hf : snap.faults ≠ t.lastFaults) :
      Stepped t (.send ok) { t with pc := .fault snap, bus := ⟨snap.cellsFrame, ok⟩ :: t.bus }
  | fault (snap : Snapshot) (ok : Bool) (hpc : t.pc = .fault snap) :
      Stepped t (.send ok)
        { lastFaults := snap.faults, pc := .idle, bus := ⟨snap.faultFrame, ok⟩ :: t.bus }

theorem step_stepped {t t' : CanTask} {e : CanEvent} (h : t.step e = some t') : Stepped t e t' := by
  obtain ⟨last, pc, bus⟩ := t
  cases e with
  | snapshot snap =>
    cases pc with
    | idle => exact Option.some.inj h ▸ .snapshot snap rfl
    | _ => exact nomatch h
  | send ok =>
    cases pc with
    | idle => exact nomatch h
    | status snap => exact Option.some.inj h ▸ .status snap ok rfl
    | cells snap =>
      simp only [step, Option.some.injEq] at h
      subst h
      split_ifs with hf
      · exact .changed snap ok rfl hf
      · exact .unchanged snap ok rfl (not_not.mp hf)
    | fault snap => exact Option.some.inj h ▸ .fault snap ok rfl

def reports (bus : List Sent) : List FaultReport := bus.filterMap fun c ↦ receivedFault c.frame

def delivered (bus : List Sent) : List FaultReport := reports (bus.filter (·.ok))

def lastReport (rs : List FaultReport) : FaultReport := rs.headD ⟨0, BmsAsil.qm.code⟩

def lastMask (rs : List FaultReport) : UInt16 := (lastReport rs).faultBitmask

variable (snap : Snapshot) (ok : Bool) (bus : List Sent)

@[simp] theorem lastReport_cons (r : FaultReport) (rs : List FaultReport) :
    lastReport (r :: rs) = r := rfl

@[simp] theorem lastMask_cons (r : FaultReport) (rs : List FaultReport) :
    lastMask (r :: rs) = r.faultBitmask := rfl

@[simp] theorem reports_status : reports (⟨snap.statusFrame, ok⟩ :: bus) = reports bus :=
  List.filterMap_cons_none snap.receivedFault_statusFrame

@[simp] theorem reports_cells : reports (⟨snap.cellsFrame, ok⟩ :: bus) = reports bus :=
  List.filterMap_cons_none snap.receivedFault_cellsFrame

@[simp] theorem reports_fault :
    reports (⟨snap.faultFrame, ok⟩ :: bus) = snap.faultReport :: reports bus :=
  List.filterMap_cons_some snap.receivedFault_faultFrame

@[simp] theorem delivered_status : delivered (⟨snap.statusFrame, ok⟩ :: bus) = delivered bus := by
  cases ok <;> simp [delivered]

@[simp] theorem delivered_cells : delivered (⟨snap.cellsFrame, ok⟩ :: bus) = delivered bus := by
  cases ok <;> simp [delivered]

@[simp] theorem delivered_fault : delivered (⟨snap.faultFrame, ok⟩ :: bus) =
    if ok then snap.faultReport :: delivered bus else delivered bus := by
  cases ok <;> simp [delivered]

variable {bus}

theorem delivered_of_ok (h : ∀ c ∈ bus, receivedFault c.frame ≠ none → c.ok) :
    delivered bus = reports bus := by
  rw [delivered, reports, List.filterMap_filter, reports]
  refine List.filterMap_congr fun c hc ↦ ?_
  cases hr : receivedFault c.frame with
  | none => simp
  | some r => simp [h c hc (by simp [hr])]

/-- The hidden variable of the on-change filter against the reports handed over. -/
structure Tracks (t : CanTask) : Prop where
  last : t.lastFaults = lastMask (reports t.bus)
  chain : List.IsChain (· ≠ ·) ((reports t.bus).map (·.faultBitmask) ++ [0])
  changed : ∀ snap, t.pc = .fault snap → snap.faults ≠ t.lastFaults

theorem init_tracks : Tracks init where
  last := rfl
  chain := List.isChain_singleton 0
  changed := by simp [init]

theorem isChain_report {rs : List FaultReport} {m : UInt16}
    (hc : List.IsChain (· ≠ ·) (rs.map (·.faultBitmask) ++ [0]))
    (hm : m ≠ lastMask rs) :
    List.IsChain (· ≠ ·) (m :: (rs.map (·.faultBitmask) ++ [0])) := by
  cases rs with
  | nil => exact List.isChain_pair.mpr hm
  | cons r rs => exact List.isChain_cons_cons.mpr ⟨hm, hc⟩

theorem Tracks.step {t t' : CanTask} {e : CanEvent} (h : Tracks t) (he : t.step e = some t') :
    Tracks t' := by
  cases step_stepped he with
  | snapshot snap hpc => exact ⟨h.last, h.chain, by simp⟩
  | status snap ok hpc => exact ⟨by simpa using h.last, by simpa using h.chain, by simp⟩
  | unchanged snap ok hpc hf => exact ⟨by simpa using h.last, by simpa using h.chain, by simp⟩
  | changed snap ok hpc hf =>
    refine ⟨by simpa using h.last, by simpa using h.chain, ?_⟩
    intro snap' hs
    cases hs
    exact hf
  | fault snap ok hpc =>
    have hne : snap.faults ≠ lastMask (reports t.bus) :=
      h.last ▸ h.changed snap hpc
    refine ⟨by simp [Snapshot.faultReport], ?_, by simp⟩
    rw [reports_fault, List.map_cons]
    exact isChain_report h.chain hne

theorem run_tracks {h : List CanEvent} {t : CanTask} (hr : Run step init h t) : Tracks t :=
  hr.invariant init_tracks fun _ _ _ ht he ↦ ht.step he

/-- The sends of an iteration that started from `t` with the snapshot `snap`,
newest first, and the task after them. -/
inductive Iteration (t : CanTask) (snap : Snapshot) : List CanEvent → CanTask → Prop
  | snapshot : Iteration t snap [] { t with pc := .status snap }
  | status (o₁ : Bool) : Iteration t snap [.send o₁]
      { t with pc := .cells snap, bus := ⟨snap.statusFrame, o₁⟩ :: t.bus }
  | changed (o₁ o₂ : Bool) (hf : snap.faults ≠ t.lastFaults) :
      Iteration t snap [.send o₂, .send o₁] { t with
        pc := .fault snap
        bus := ⟨snap.cellsFrame, o₂⟩ :: ⟨snap.statusFrame, o₁⟩ :: t.bus }
  | unchanged (o₁ o₂ : Bool) (hf : snap.faults = t.lastFaults) :
      Iteration t snap [.send o₂, .send o₁] { t with
        pc := .idle
        bus := ⟨snap.cellsFrame, o₂⟩ :: ⟨snap.statusFrame, o₁⟩ :: t.bus }
  | reported (o₁ o₂ o₃ : Bool) (hf : snap.faults ≠ t.lastFaults) :
      Iteration t snap [.send o₃, .send o₂, .send o₁]
        { lastFaults := snap.faults
          pc := .idle
          bus := ⟨snap.faultFrame, o₃⟩ :: ⟨snap.cellsFrame, o₂⟩ :: ⟨snap.statusFrame, o₁⟩ :: t.bus }

theorem Iteration.send {t t₁ t₂ : CanTask} {snap : Snapshot} {k : List CanEvent} {ok : Bool}
    (h : Iteration t snap k t₁) (he : t₁.step (.send ok) = some t₂) :
    Iteration t snap (.send ok :: k) t₂ := by
  cases h with
  | snapshot => exact Option.some.inj he ▸ .status ok
  | status o₁ =>
    simp only [step, Option.some.injEq] at he
    subst he
    split_ifs with hf
    · exact .changed o₁ ok hf
    · exact .unchanged o₁ ok (not_not.mp hf)
  | changed o₁ o₂ hf => exact Option.some.inj he ▸ .reported o₁ o₂ ok hf
  | unchanged o₁ o₂ hf => exact nomatch he
  | reported o₁ o₂ o₃ hf => exact nomatch he

theorem iteration_of_run {t t₁ t' : CanTask} {snap : Snapshot} {k : List CanEvent}
    (hs : t.step (.snapshot snap) = some t₁) (hr : Run step t₁ k t')
    (hk : ∀ e ∈ k, ∃ ok, e = .send ok) : Iteration t snap k t' := by
  induction hr with
  | start =>
    cases step_stepped hs with
    | snapshot snap hpc => exact .snapshot
  | next _ he ih =>
    obtain ⟨ok, rfl⟩ := hk _ List.mem_cons_self
    exact (ih fun e hm ↦ hk e (List.mem_cons_of_mem _ hm)).send he

theorem iteration_of_history {h k : List CanEvent} {snap : Snapshot} {t₀ t t' : CanTask}
    (ht : Run step t₀ h t) (ht' : Run step t₀ (k ++ .snapshot snap :: h) t')
    (hk : ∀ e ∈ k, ∃ ok, e = .send ok) : Iteration t snap k t' := by
  obtain ⟨t₁, he, hrun⟩ := ht'.cut ht
  exact iteration_of_run he hrun hk

theorem Iteration.finished {t t' : CanTask} {snap : Snapshot} {k : List CanEvent}
    (h : Iteration t snap k t') (hidle : t'.pc = .idle) : t'.lastFaults = snap.faults ∧
      (snap.faults = t.lastFaults ∧ reports t'.bus = reports t.bus ∨
        snap.faults ≠ t.lastFaults ∧ reports t'.bus = snap.faultReport :: reports t.bus) := by
  cases h with
  | snapshot => exact nomatch hidle
  | status o₁ => exact nomatch hidle
  | changed o₁ o₂ hf => exact nomatch hidle
  | unchanged o₁ o₂ hf => exact ⟨hf.symm, .inl ⟨hf, by simp⟩⟩
  | reported o₁ o₂ o₃ hf => exact ⟨rfl, .inr ⟨hf, by simp⟩⟩

theorem Iteration.delivered_iff {t t' : CanTask} {snap : Snapshot} {k : List CanEvent}
    (h : Iteration t snap k t') (ht : Tracks t) (hk : ∀ e ∈ k, e = .send true)
    (hidle : t'.pc = .idle) : lastMask (delivered t'.bus) = snap.faults ↔
      (snap.faults = lastMask (reports t.bus) → snap.faults = lastMask (delivered t.bus)) := by
  have hlast : t.lastFaults = lastMask (reports t.bus) := ht.last
  cases h with
  | snapshot => exact nomatch hidle
  | status o₁ => exact nomatch hidle
  | changed o₁ o₂ hf => exact nomatch hidle
  | unchanged o₁ o₂ hf =>
    simp only [delivered_cells, delivered_status, ← hlast, hf, true_implies]
    exact eq_comm
  | reported o₁ o₂ o₃ hf =>
    obtain rfl : o₃ = true := by simpa using hk (.send o₃) (by simp)
    have hne : snap.faults ≠ lastMask (reports t.bus) := hlast ▸ hf
    refine iff_of_true ?_ fun he ↦ absurd he hne
    simp [Snapshot.faultReport]

/-- After an iteration whose sends were all accepted the last delivered mask is
the snapshot's, unless the snapshot repeats the mask of a report that was lost. -/
theorem report_delivered_iff {h k : List CanEvent} {snap : Snapshot} {t t' : CanTask}
    (ht : Run step init h t) (ht' : Run step init (k ++ .snapshot snap :: h) t')
    (hk : ∀ e ∈ k, e = .send true) (hidle : t'.pc = .idle) :
    (lastMask (delivered t'.bus) = snap.faults ↔
      (snap.faults = lastMask (reports t.bus) → snap.faults = lastMask (delivered t.bus))) ∧
    ((∀ c ∈ t.bus, receivedFault c.frame ≠ none → c.ok) →
      lastMask (delivered t'.bus) = snap.faults) := by
  have hit : Iteration t snap k t' := iteration_of_history ht ht' fun e he ↦ ⟨true, hk e he⟩
  have hiff := hit.delivered_iff (run_tracks ht) hk hidle
  refine ⟨hiff, fun hok ↦ hiff.mpr ?_⟩
  rw [delivered_of_ok hok]
  exact id

def lowCell : Snapshot where
  status := ⟨0, 0, 0, BmsState.fault.code⟩
  reading := .uniform bmsCellUndervoltageMv 25 0
  faults := faultBitUndervoltage
  severity := .c

def lostReport : List CanEvent :=
  [.send false, .send true, .send true, .snapshot lowCell]

def acceptedSends : List CanEvent := [.send true, .send true]

theorem report_delivered_iff_first : ∃ t t', Run step init [] t ∧
    Run step init (.send true :: acceptedSends ++ [.snapshot lowCell]) t' ∧
    lastMask (delivered t'.bus) = lowCell.faults := by
  obtain ⟨t', ht'⟩ : ∃ t', Run step init (.send true :: acceptedSends ++ [.snapshot lowCell]) t' :=
    ⟨_, run_iff_replay.mpr rfl⟩
  have hidle : t'.pc = .idle := by
    rw [Option.some.inj ((run_iff_replay.mp ht').symm.trans rfl)]
  exact ⟨init, t', .start, ht',
    (report_delivered_iff .start ht' (by decide) hidle).2 (by simp [init])⟩

theorem report_lost : ∃ t, Run step init (acceptedSends ++ .snapshot lowCell :: lostReport) t ∧
    (∀ e ∈ acceptedSends, e = .send true) ∧ t.pc = .idle ∧
    lastMask (delivered t.bus) ≠ lowCell.faults := by
  refine ⟨_, run_iff_replay.mpr rfl, by decide, rfl, ?_⟩
  decide

structure Graded (t : CanTask) : Prop where
  sent : ∀ r ∈ reports t.bus, r.severity = (FaultManager.getSeverity r.faultBitmask).code
  pending : ∀ snap, t.pc.pending = some snap →
    snap.severity = FaultManager.getSeverity snap.faults

theorem init_graded : Graded init where
  sent := by simp [init, reports]
  pending := by simp [init, CanPc.pending]

theorem Graded.step {t t' : CanTask} {e : CanEvent} (h : Graded t) (he : t.step e = some t')
    (hsnap : ∀ snap, e = .snapshot snap → snap.severity = FaultManager.getSeverity snap.faults) :
    Graded t' := by
  cases step_stepped he with
  | snapshot snap hpc =>
    refine ⟨h.sent, fun snap' hs ↦ ?_⟩
    obtain rfl : snap = snap' := Option.some.inj hs
    exact hsnap snap rfl
  | status snap ok hpc =>
    refine ⟨by simpa using h.sent, fun snap' hs ↦ h.pending snap' ?_⟩
    rw [hpc]
    exact hs
  | unchanged snap ok hpc hf => exact ⟨by simpa using h.sent, by simp [CanPc.pending]⟩
  | changed snap ok hpc hf =>
    refine ⟨by simpa using h.sent, fun snap' hs ↦ h.pending snap' ?_⟩
    rw [hpc]
    exact hs
  | fault snap ok hpc =>
    have hsnap : snap.severity = FaultManager.getSeverity snap.faults :=
      h.pending snap (by rw [hpc]; rfl)
    refine ⟨?_, by simp [CanPc.pending]⟩
    rw [reports_fault]
    exact List.forall_mem_cons.mpr ⟨congrArg BmsAsil.code hsnap, h.sent⟩

theorem Graded.last_report {t : CanTask} (h : Graded t) : lastReport (reports t.bus) =
    ⟨lastMask (reports t.bus),
      (FaultManager.getSeverity (lastMask (reports t.bus))).code⟩ := by
  have hr := h.sent
  generalize reports t.bus = rs at hr ⊢
  cases rs with
  | nil => decide
  | cons r rs => rw [lastMask_cons, ← hr r List.mem_cons_self, lastReport_cons]

theorem Iteration.last_report {t t' : CanTask} {snap : Snapshot} {k : List CanEvent}
    (h : Iteration t snap k t') (hidle : t'.pc = .idle) (ht : Tracks t) (hg : Graded t)
    (hsnap : snap.severity = FaultManager.getSeverity snap.faults) :
    lastReport (reports t'.bus) = snap.faultReport := by
  obtain ⟨_, ⟨hf, hsame⟩ | ⟨_, hnew⟩⟩ := h.finished hidle
  · rw [hsame, hg.last_report, ← ht.last, ← hf, ← hsnap]
    rfl
  · rw [hnew, lastReport_cons]

structure Settled (rs : List FaultReport) (t : CanTask) : Prop where
  sent : reports t.bus = rs
  pending : ∀ snap, t.pc.pending = some snap → snap.faults = t.lastFaults

theorem Settled.step {rs : List FaultReport} {t t' : CanTask} {e : CanEvent} (h : Settled rs t)
    (ht : Tracks t) (he : t.step e = some t')
    (hsnap : ∀ snap, e = .snapshot snap → snap.faults = t.lastFaults) :
    Settled rs t' ∧ t'.lastFaults = t.lastFaults := by
  cases step_stepped he with
  | snapshot snap hpc =>
    refine ⟨⟨h.sent, fun snap' hs ↦ ?_⟩, rfl⟩
    obtain rfl : snap = snap' := Option.some.inj hs
    exact hsnap snap rfl
  | status snap ok hpc =>
    refine ⟨⟨by simpa using h.sent, fun snap' hs ↦ h.pending snap' ?_⟩, rfl⟩
    rw [hpc]
    exact hs
  | unchanged snap ok hpc hf =>
    exact ⟨⟨by simpa using h.sent, by simp [CanPc.pending]⟩, rfl⟩
  | changed snap ok hpc hf => exact absurd (h.pending snap (by rw [hpc]; rfl)) hf
  | fault snap ok hpc =>
    exact absurd (h.pending snap (by rw [hpc]; rfl)) (ht.changed snap hpc)

theorem step_bus {t t' : CanTask} {e : CanEvent} (he : t.step e = some t') :
    t'.bus = t.bus ∨ ∃ c : Sent, e = .send c.ok ∧ t'.bus = c :: t.bus := by
  cases step_stepped he with
  | snapshot snap hpc => exact .inl rfl
  | _ => exact .inr ⟨_, rfl, rfl⟩

/-- A send hands over one frame, a BMS_STATUS only right after the snapshot. -/
theorem step_send {t t' : CanTask} {ok : Bool} (he : t.step (.send ok) = some t') :
    (∀ snap, t'.pc ≠ .status snap) ∧ ∃ c, t'.bus = c :: t.bus ∧
      ∀ st, receivedStatus c.frame = some st → ∃ snap, t.pc = .status snap := by
  cases step_stepped he with
  | status snap _ hpc => exact ⟨by simp, _, rfl, fun _ _ ↦ ⟨snap, hpc⟩⟩
  | _ => exact ⟨by simp, _, rfl, by simp⟩

end CanTask

end BmsFirmware
