import BmsFirmware.SocketCanRx
import Mathlib.Data.Nat.Bitwise

namespace BmsFirmware.SocketCan

open Config CanProtocol

abbrev canEffFlag : UInt32 := 0x80000000
abbrev canRtrFlag : UInt32 := 0x40000000
abbrev canErrFlag : UInt32 := 0x20000000

/-- `can_id` stands for a data frame of the standard format with identifier `id`. -/
structure StandardData (canId id : UInt32) : Prop where
  base : canId &&& canEffFlag = 0
  data : canId &&& canRtrFlag = 0
  ok : canId &&& canErrFlag = 0
  sff : canId &&& canSffMask = id

theorem and_two_pow_eq_zero_iff {v m : UInt32} {k : ℕ} (hm : m.toNat = 2 ^ k) :
    v &&& m = 0 ↔ v.toNat.testBit k = false := by
  rw [← UInt32.toNat_inj, UInt32.toNat_and, hm, Nat.and_two_pow]
  cases v.toNat.testBit k <;> simp

/-- The three flags are the bits above the 29 of the longest identifier. -/
theorem flags_clear_iff {v : UInt32} :
    (v &&& canEffFlag = 0 ∧ v &&& canRtrFlag = 0 ∧ v &&& canErrFlag = 0) ↔ v.toNat < 2 ^ 29 := by
  have heff : canEffFlag.toNat = 2 ^ 31 := rfl
  have hrtr : canRtrFlag.toNat = 2 ^ 30 := rfl
  have herr : canErrFlag.toNat = 2 ^ 29 := rfl
  rw [and_two_pow_eq_zero_iff heff, and_two_pow_eq_zero_iff hrtr, and_two_pow_eq_zero_iff herr]
  constructor
  · rintro ⟨h31, h30, h29⟩
    refine Nat.lt_pow_two_of_testBit _ fun i hi ↦ ?_
    rcases Nat.lt_or_ge i 32 with hlt | hge
    · obtain rfl | rfl | rfl : i = 29 ∨ i = 30 ∨ i = 31 := by omega
      · exact h29
      · exact h30
      · exact h31
    · have hpow := Nat.pow_le_pow_right (show 2 > 0 by decide) hge
      exact Nat.testBit_lt_two_pow (v.toNat_lt.trans_le hpow)
  · intro hlt
    exact ⟨Nat.testBit_lt_two_pow (by omega), Nat.testBit_lt_two_pow (by omega),
      Nat.testBit_lt_two_pow (by omega)⟩

variable {κ : Type} {s : SocketCan κ} {o : InitOutcome} {cs : List (HalCall κ)}
  {rs : List (Option ℤ)}

/-- The round of the reader after a read of a frame into `raw` makes only callbacks that the
frame kind allows. -/
def DispatchesOwn (order : ByteOrder) (s : SocketCan κ) (n : ℤ) (raw : Vector UInt8 canfdMtu)
    (junk : Vector UInt8 canMaxDlc) : Prop :=
  ∀ calls sub frame, rxRound order s n raw junk = .ok calls → (sub, frame) ∈ calls →
    StandardData (rawId order raw) frame.id

def DecodesOwn (order : ByteOrder) (s : SocketCan κ) (n : ℤ) (raw : Vector UInt8 canfdMtu)
    (junk : Vector UInt8 canMaxDlc) : Prop :=
  ∀ calls sub frame out, rxRound order s n raw junk = .ok calls → (sub, frame) ∈ calls →
    (unpackChargeCommand frame out).1 = 0 → StandardData (rawId order raw) canIdChargeCommand

theorem StandardData.of_lt {canId id : UInt32} (hlt : canId.toNat < 2 ^ 29)
    (hid : canId &&& canSffMask = id) : StandardData canId id := by
  obtain ⟨heff, hrtr, herr⟩ := flags_clear_iff.mpr hlt
  exact ⟨heff, hrtr, herr, hid⟩

theorem StandardData.lt {canId id : UInt32} (h : StandardData canId id) :
    canId.toNat < 2 ^ 29 :=
  flags_clear_iff.mp ⟨h.base, h.data, h.ok⟩

theorem rxCopy_dlc_lt_two (canId : UInt32) (len : UInt8) (payload junk : Vector UInt8 canMaxDlc) :
    (rxCopy canId len payload junk).dlc < 2 ↔ len < 2 := by
  have htwo : (2 : UInt8).toNat = 2 := rfl
  have hmax : (UInt8.ofNat linuxCanMaxDlc).toNat = 8 := rfl
  simp only [rxCopy]
  split_ifs with hlong
  · have hlong : 8 < len.toNat := hlong
    rw [UInt8.lt_iff_toNat_lt, UInt8.lt_iff_toNat_lt, hmax, htwo]
    omega
  · exact Iff.rfl

theorem unpackChargeCommand_ok (frame : CanFrame) (out : ChargeCommand) :
    (unpackChargeCommand frame out).1 = 0 ↔ frame.id = canIdChargeCommand ∧ ¬ frame.dlc < 2 := by
  unfold unpackChargeCommand
  split_ifs with hbad
  · exact iff_of_false (show (-1 : ℤ) ≠ 0 by decide) fun h ↦ hbad.elim (absurd h.1) h.2
  · rw [not_or, not_not] at hbad
    exact iff_of_true rfl hbad

/-- A read of a whole frame is dispatched to every subscriber, whatever its kind. -/
theorem rxRound_frame (hr : Serves o cs rs s) (htask : o.task = true) (order : ByteOrder) {n : ℤ}
    (hn : n = canMtu ∨ n = canfdMtu) (raw : Vector UInt8 canfdMtu)
    (junk : Vector UInt8 canMaxDlc) : rxRound order s n raw junk =
      .ok ((subscribed cs rs).map
        (·, rxCopy (rawId order raw) (rawLen raw) (rawData raw) junk)) := by
  apply hr.serving.rxRound htask
  rcases hn with rfl | rfl <;> rfl

section Dispatch

variable (hr : Serves o cs rs s) (htask : o.task = true) (order : ByteOrder) {n : ℤ}
  (hn : n = canMtu ∨ n = canfdMtu) (raw : Vector UInt8 canfdMtu) (junk : Vector UInt8 canMaxDlc)

include hr htask hn

theorem dispatched {calls : List (κ × CanFrame)} {sub : κ} {frame : CanFrame}
    (hcalls : rxRound order s n raw junk = .ok calls) (hin : (sub, frame) ∈ calls) :
    subscribed cs rs ≠ [] ∧ frame = rxCopy (rawId order raw) (rawLen raw) (rawData raw) junk := by
  rw [rxRound_frame hr htask order hn] at hcalls
  cases hcalls
  obtain ⟨sub', hsub, heq⟩ := List.mem_map.mp hin
  cases heq
  exact ⟨List.ne_nil_of_mem hsub, rfl⟩

theorem exists_dispatched (hsubs : subscribed cs rs ≠ []) : ∃ calls sub,
    rxRound order s n raw junk = .ok calls ∧
      (sub, rxCopy (rawId order raw) (rawLen raw) (rawData raw) junk) ∈ calls := by
  obtain ⟨sub, hsub⟩ := List.exists_mem_of_ne_nil _ hsubs
  exact ⟨_, sub, rxRound_frame hr htask order hn raw junk, List.mem_map_of_mem hsub⟩

theorem dispatchesOwn_iff : DispatchesOwn order s n raw junk ↔
    (rawId order raw).toNat < 2 ^ 29 ∨ subscribed cs rs = [] := by
  constructor
  · intro h
    by_cases hsubs : subscribed cs rs = []
    · exact .inr hsubs
    · obtain ⟨calls, sub, hcalls, hin⟩ := exists_dispatched hr htask order hn raw junk hsubs
      exact .inl (h calls sub _ hcalls hin).lt
  · intro hcond calls sub frame hcalls hin
    obtain ⟨hsubs, rfl⟩ := dispatched hr htask order hn raw junk hcalls hin
    exact .of_lt (hcond.resolve_right hsubs) rfl

theorem decodesOwn_iff : DecodesOwn order s n raw junk ↔
    (rawId order raw).toNat < 2 ^ 29 ∨ rawId order raw &&& canSffMask ≠ canIdChargeCommand ∨
      rawLen raw < 2 ∨ subscribed cs rs = [] := by
  constructor
  · intro h
    by_contra hnone
    simp only [not_or, not_not] at hnone
    obtain ⟨hflags, hid, hlen, hsubs⟩ := hnone
    obtain ⟨calls, sub, hcalls, hin⟩ := exists_dispatched hr htask order hn raw junk hsubs
    have hok := (unpackChargeCommand_ok (rxCopy (rawId order raw) (rawLen raw) (rawData raw) junk)
      ⟨0⟩).mpr ⟨hid, (rxCopy_dlc_lt_two _ _ _ _).not.mpr hlen⟩
    exact hflags (h calls sub _ ⟨0⟩ hcalls hin hok).lt
  · intro hcond calls sub frame out hcalls hin hok
    obtain ⟨hsubs, rfl⟩ := dispatched hr htask order hn raw junk hcalls hin
    obtain ⟨hid, hdlc⟩ := (unpackChargeCommand_ok _ _).mp hok
    rcases hcond with hlt | hne | hlen | hnil
    · exact .of_lt hlt hid
    · exact absurd hid hne
    · exact absurd ((rxCopy_dlc_lt_two _ _ _ _).mpr hlen) hdlc
    · exact absurd hnil hsubs

/-- The reader keeps foreign frames from its subscribers exactly when the frame it has read is
none, and from the decoder of the ChargeCommand exactly when, beside that, the low bits of the
identifier or the length keep it out. -/
theorem foreign_frames_iff :
    (DispatchesOwn order s n raw junk ↔
      (rawId order raw).toNat < 2 ^ 29 ∨ subscribed cs rs = []) ∧
    (DecodesOwn order s n raw junk ↔
      (rawId order raw).toNat < 2 ^ 29 ∨ rawId order raw &&& canSffMask ≠ canIdChargeCommand ∨
        rawLen raw < 2 ∨ subscribed cs rs = []) :=
  ⟨dispatchesOwn_iff hr htask order hn raw junk, decodesOwn_iff hr htask order hn raw junk⟩

end Dispatch

def listening : SocketCan Bool := (canHalSubscribe (canHalInit start ⟨5, 0, 0, true⟩).2
  (some true)).toOption.elim start Prod.snd

def received100 (canId : UInt32) : Vector UInt8 canfdMtu :=
  readInto (.replicate _ 0) (RawFrame.header .little canId 2 ++ [100, 0])

theorem foreign_frames_iff_own :
    DispatchesOwn .little listening canMtu (received100 canIdChargeCommand) (.replicate _ 0) := by
  have hr : Serves ⟨5, 0, 0, true⟩ [.subscribe (some true)] [some 0] listening :=
    ⟨rfl, by simp, rfl⟩
  exact (foreign_frames_iff hr rfl .little (.inl rfl) _ _).1.mpr (.inl (by decide))

def Mistakes (canId : UInt32) : Prop :=
  ¬ DispatchesOwn .little listening canMtu (received100 canId) (.replicate _ 0) ∧
    ¬ DecodesOwn .little listening canMtu (received100 canId) (.replicate _ 0)

/-- An extended frame, a remote request and an error frame whose low bits are those of the
ChargeCommand are decoded as one. -/
theorem foreign_frames_decoded : Mistakes (canEffFlag ||| canIdChargeCommand) ∧
    Mistakes (canRtrFlag ||| canIdChargeCommand) ∧
      Mistakes (canErrFlag ||| canIdChargeCommand) := by
  have hr : Serves ⟨5, 0, 0, true⟩ [.subscribe (some true)] [some 0] listening :=
    ⟨rfl, by simp, rfl⟩
  have hflag (canId : UInt32) := And.intro
    (dispatchesOwn_iff hr rfl .little (.inl rfl) (received100 canId) (.replicate _ 0)).not
    (decodesOwn_iff hr rfl .little (.inl rfl) (received100 canId) (.replicate _ 0)).not
  simp only [Mistakes, hflag]
  decide

end BmsFirmware.SocketCan
