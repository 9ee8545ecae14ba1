import BmsFirmware.SocketCan
import BmsFirmware.Lib.Message

namespace BmsFirmware

open Config Lib.Message

inductive ByteOrder
  | little | big
deriving DecidableEq, Repr

def u32Bytes (v : UInt32) : List UInt8 :=
  [.ofNat v.toNat, .ofNat (v.toNat / 2 ^ 8), .ofNat (v.toNat / 2 ^ 16), .ofNat (v.toNat / 2 ^ 24)]

def u32OfBytes (b₀ b₁ b₂ b₃ : UInt8) : UInt32 :=
  .ofNat (b₀.toNat + 2 ^ 8 * b₁.toNat + 2 ^ 16 * b₂.toNat + 2 ^ 24 * b₃.toNat)

def ByteOrder.store (v : UInt32) : ByteOrder → List UInt8
  | .little => u32Bytes v
  | .big => (u32Bytes v).reverse

def ByteOrder.load (b₀ b₁ b₂ b₃ : UInt8) : ByteOrder → UInt32
  | .little => u32OfBytes b₀ b₁ b₂ b₃
  | .big => u32OfBytes b₃ b₂ b₁ b₀

namespace SocketCan

abbrev canMtu : ℕ := 16
abbrev canfdMtu : ℕ := 72

end SocketCan

open SocketCan

/-- The first eight bytes of `struct can_frame` and `struct canfd_frame` alike:
identifier, length, and three bytes that the sender has cleared. -/
def RawFrame.header (order : ByteOrder) (canId : UInt32) (len : UInt8) : List UInt8 :=
  order.store canId ++ [len, 0, 0, 0]

def RawFrame.image (order : ByteOrder) : RawFrame → List UInt8
  | .classic canId canDlc data => header order canId canDlc ++ data.toList
  | .fd canId len data => header order canId len ++ data.toList

namespace SocketCan

variable {κ κ' : Type}

/-- `read` fills the start of the reader's buffer; behind it stays what was there. -/
def readInto (stale : Vector UInt8 canfdMtu) (bytes : List UInt8) : Vector UInt8 canfdMtu :=
  Vector.ofFn fun i ↦ bytes.getD i (stale.get i)

def rawId (order : ByteOrder) (raw : Vector UInt8 canfdMtu) : UInt32 :=
  order.load raw[0] raw[1] raw[2] raw[3]

def rawLen (raw : Vector UInt8 canfdMtu) : UInt8 := raw[4]

def rawData (raw : Vector UInt8 canfdMtu) : Vector UInt8 canMaxDlc :=
  Vector.ofFn fun i : Fin canMaxDlc ↦ raw.get ⟨8 + i.val, by
    have := i.isLt
    simp only [canMaxDlc, canfdMtu] at *
    omega⟩

/-- `junk` is what the reader's uninitialised `frame.data` holds. -/
def rxCopy (canId : UInt32) (payloadLen : UInt8) (payloadData junk : Vector UInt8 canMaxDlc) :
    CanFrame :=
  let dlc :=
    if payloadLen.toNat > linuxCanMaxDlc then UInt8.ofNat linuxCanMaxDlc else payloadLen
  { id := canId &&& canSffMask
    dlc := dlc
    data := Vector.ofFn fun i ↦ if i.val < dlc.toNat then payloadData.get i else junk.get i }

/-- The frame the reader makes of a read that returned `n`. In both structs the
identifier, the length and the data have the same offsets. -/
def rxFrame (order : ByteOrder) (n : ℤ) (raw : Vector UInt8 canfdMtu)
    (junk : Vector UInt8 canMaxDlc) : Option CanFrame :=
  if n = canfdMtu then some (rxCopy (rawId order raw) (rawLen raw) (rawData raw) junk)
  else if n = canMtu then some (rxCopy (rawId order raw) (rawLen raw) (rawData raw) junk)
  else none

def rxRound (order : ByteOrder) (s : SocketCan κ) (n : ℤ) (raw : Vector UInt8 canfdMtu)
    (junk : Vector UInt8 canMaxDlc) : Except MutexFault (List (κ × CanFrame)) :=
  match rxFrame order n raw junk with
  | none => .ok []
  | some frame => do
    let localSubs ← rxSnapshot s
    return localSubs.filterMap fun sub ↦ sub.map (·, frame)

def subscriber : HalCall κ → Option ℤ → Option κ
  | .subscribe sub, some r => if r = 0 then sub else none
  | _, _ => none

def subscribed (calls : List (HalCall κ)) (rs : List (Option ℤ)) : List κ :=
  (List.zipWith subscriber calls rs).filterMap id

structure Serves (o : InitOutcome) (calls : List (HalCall κ)) (rs : List (Option ℤ))
    (s : SocketCan κ) : Prop where
  init : o.succeeds = true
  calls_ne : ∀ c ∈ calls, c ≠ .shutdown
  run : halCalls (canHalInit start o).2 calls = .ok (rs, s)

theorem load_store (order : ByteOrder) (v : UInt32) :
    ∃ b₀ b₁ b₂ b₃, order.store v = [b₀, b₁, b₂, b₃] ∧ order.load b₀ b₁ b₂ b₃ = v := by
  have hbytes : u32OfBytes (.ofNat v.toNat) (.ofNat (v.toNat / 2 ^ 8)) (.ofNat (v.toNat / 2 ^ 16))
      (.ofNat (v.toNat / 2 ^ 24)) = v := by
    apply UInt32.toNat_inj.mp
    have hv := v.toNat_lt
    simp only [u32OfBytes, UInt32.toNat_ofNat', UInt8.toNat_ofNat']
    omega
  cases order with
  | little => exact ⟨_, _, _, _, rfl, hbytes⟩
  | big => exact ⟨_, _, _, _, rfl, hbytes⟩

@[simp] theorem readInto_getElem (stale : Vector UInt8 canfdMtu) (bytes : List UInt8) {i : ℕ}
    (h : i < bytes.length) (hi : i < canfdMtu) : (readInto stale bytes)[i] = bytes[i] := by
  simp only [readInto, Vector.getElem_ofFn, List.getD_eq_getElem _ _ h]

theorem rawData_getElem (raw : Vector UInt8 canfdMtu) {i : ℕ} (hi : i < canMaxDlc)
    (h : 8 + i < canfdMtu) : (rawData raw)[i] = raw[8 + i] := by
  rw [rawData, Vector.getElem_ofFn]
  rfl

theorem readInto_image (order : ByteOrder) (canId : UInt32) (len : UInt8) (data : List UInt8)
    (stale : Vector UInt8 canfdMtu) :
    rawId order (readInto stale (RawFrame.header order canId len ++ data)) = canId ∧
    rawLen (readInto stale (RawFrame.header order canId len ++ data)) = len ∧
    ∀ i (h : i < data.length) (hi : i < canMaxDlc),
      (rawData (readInto stale (RawFrame.header order canId len ++ data)))[i] = data[i] := by
  obtain ⟨b₀, b₁, b₂, b₃, hstore, hload⟩ := load_store order canId
  simp only [RawFrame.header, hstore]
  refine ⟨?_, ?_, ?_⟩
  · rw [← hload, rawId, readInto_getElem _ _ (by simp), readInto_getElem _ _ (by simp),
      readInto_getElem _ _ (by simp), readInto_getElem _ _ (by simp)]
    rfl
  · rw [rawLen, readInto_getElem _ _ (by simp)]
    rfl
  · intro i h hi
    have hlt : 8 + i < ([b₀, b₁, b₂, b₃] ++ [len, 0, 0, 0] ++ data).length := by
      simp only [List.length_append, List.length_cons, List.length_nil]
      omega
    have hmtu : 8 + i < canfdMtu := by
      simp only [canMaxDlc, canfdMtu] at *
      omega
    have hdata : ([b₀, b₁, b₂, b₃] ++ [len, 0, 0, 0] ++ data)[8 + i] = data[i] := by
      rw [List.getElem_append_right (by simp)]
      simp
    rw [rawData_getElem _ hi hmtu, readInto_getElem stale _ hlt hmtu, hdata]

theorem take_setIfInBounds (v : Vector (Option κ) maxSubscribers) {k : ℕ}
    (hk : k < maxSubscribers) (sub : Option κ) :
    (v.setIfInBounds k sub).toList.take (k + 1) = v.toList.take k ++ [sub] := by
  have hlen : k < v.toList.length := by rwa [Vector.length_toList]
  rw [Vector.toList_setIfInBounds, List.take_add_one, List.take_set_of_le le_rfl,
    List.getElem?_set_self hlen]
  rfl

section Reader

variable {s : SocketCan κ} {o : InitOutcome} {subs : List κ}

structure Serving (o : InitOutcome) (subs : List κ) (s : SocketCan κ) : Prop where
  sock : 0 ≤ s.sock
  subLock : s.subLock = .live
  rxTask : s.rxTask = o.task
  running : s.running = true
  table : (s.subs.toList.take s.subCount).filterMap id = subs
  count : s.subCount ≤ maxSubscribers

theorem init_serving (κ : Type) (h : o.succeeds = true) :
    Serving o [] (canHalInit (start : SocketCan κ) o).2 := by
  simp only [InitOutcome.succeeds, Bool.and_eq_true, decide_eq_true_iff] at h
  unfold canHalInit
  dsimp only
  rw [if_neg (by omega), if_neg (by omega), if_neg (by omega)]
  exact ⟨h.1.1, rfl, rfl, rfl, rfl, Nat.zero_le _⟩

theorem Serving.subscribe (h : Serving o subs s) (sub : Option κ) :
    ∃ r s', canHalSubscribe s sub = .ok (r, s') ∧
      Serving o (subs ++ subscribed [.subscribe sub] [some r]) s' := by
  by_cases hc : s.subCount ≥ maxSubscribers
  · refine ⟨-1, s, if_pos hc, ?_⟩
    have hnone : subscribed [HalCall.subscribe sub] [some (-1)] = [] := by
      cases sub <;> rfl
    rwa [hnone, List.append_nil]
  · have hlt : s.subCount < maxSubscribers := Nat.lt_of_not_le hc
    refine ⟨0, { s with
      subs := s.subs.setIfInBounds s.subCount sub
      subCount := s.subCount + 1 }, ?_, ?_⟩
    · unfold canHalSubscribe
      rw [if_neg hc, h.subLock]
      rfl
    · refine ⟨h.sock, h.subLock, h.rxTask, h.running, ?_, hlt⟩
      rw [take_setIfInBounds _ hlt, List.filterMap_append, h.table]
      cases sub <;> rfl

theorem Serving.call (h : Serving o subs s) {c : HalCall κ} (hc : c ≠ .shutdown)
    {r : Option ℤ} {s' : SocketCan κ} (hcall : halCall s c = .ok (r, s')) :
    Serving o (subs ++ subscribed [c] [r]) s' := by
  cases c with
  | subscribe sub =>
    obtain ⟨r₁, s₁, hs₁, hserving⟩ := h.subscribe sub
    rw [halCall, hs₁] at hcall
    cases hcall
    exact hserving
  | send frame write =>
    cases hcall
    exact (List.append_nil subs).symm ▸ h
  | shutdown => exact absurd rfl hc
  | receive =>
    obtain ⟨l, hl⟩ := up_receive h.subLock
    rw [halCall, hl] at hcall
    cases hcall
    exact (List.append_nil subs).symm ▸ h

theorem subscribed_cons (c : HalCall κ) (r : Option ℤ) (cs : List (HalCall κ))
    (rs : List (Option ℤ)) :
    subscribed (c :: cs) (r :: rs) = subscribed [c] [r] ++ subscribed cs rs := by
  rw [subscribed, subscribed, subscribed, ← List.filterMap_append]
  rfl

theorem Serving.calls (h : Serving o subs s) {cs : List (HalCall κ)} {rs : List (Option ℤ)}
    {s' : SocketCan κ} (hcs : ∀ c ∈ cs, c ≠ .shutdown) (hrun : halCalls s cs = .ok (rs, s')) :
    Serving o (subs ++ subscribed cs rs) s' := by
  induction cs generalizing s subs rs with
  | nil =>
    cases hrun
    exact (List.append_nil subs).symm ▸ h
  | cons c cs ih =>
    obtain ⟨hc, hcs⟩ := List.forall_mem_cons.mp hcs
    obtain ⟨r, s₁, rs₁, hcall, hcalls, rfl⟩ := halCalls_cons_inv hrun
    rw [subscribed_cons, ← List.append_assoc]
    exact ih (h.call hc hcall) hcs hcalls

theorem Serves.serving {cs : List (HalCall κ)} {rs : List (Option ℤ)} (h : Serves o cs rs s) :
    Serving o (subscribed cs rs) s :=
  (init_serving κ h.init).calls h.calls_ne h.run

theorem Serving.snapshot (h : Serving o subs s) (htask : o.task = true) :
    ∃ localSubs, rxSnapshot s = .ok localSubs ∧ localSubs.filterMap id = subs := by
  refine ⟨_, ?_, h.table⟩
  unfold rxSnapshot
  rw [if_pos ⟨h.rxTask.trans htask, h.running⟩, h.subLock]
  rfl

theorem Serving.rxRound (h : Serving o subs s) (htask : o.task = true) {order : ByteOrder} {n : ℤ}
    {raw : Vector UInt8 canfdMtu} {junk : Vector UInt8 canMaxDlc} {frame : CanFrame}
    (hframe : rxFrame order n raw junk = some frame) :
    rxRound order s n raw junk = .ok (subs.map (·, frame)) := by
  obtain ⟨localSubs, hsnap, htable⟩ := h.snapshot htask
  rw [SocketCan.rxRound, hframe]
  simp only [hsnap, bind, Except.bind]
  rw [← htable, List.map_filterMap]
  rfl

theorem mask_mask {id : UInt32} (h : id ≤ canSffMask) : id &&& canSffMask &&& canSffMask = id := by
  have hmask (v : UInt32) : (v &&& canSffMask).toNat = v.toNat % 2 ^ 11 :=
    Nat.and_two_pow_sub_one_eq_mod v.toNat 11
  apply UInt32.toNat_inj.mp
  rw [hmask, hmask]
  have hle : id.toNat ≤ 2047 := UInt32.le_iff_toNat_le.mp h
  omega

theorem header_length (order : ByteOrder) (canId : UInt32) (len : UInt8) :
    (RawFrame.header order canId len).length = 8 := by
  obtain ⟨b₀, b₁, b₂, b₃, hstore, _⟩ := load_store order canId
  rw [RawFrame.header, hstore]
  rfl

/-- A frame of either size gives the reader its identifier, its length and its data. -/
theorem rxFrame_image (order : ByteOrder) (canId : UInt32) (len : UInt8) {data : List UInt8}
    (hdata : data.length = 8 ∨ data.length = 64) (stale : Vector UInt8 canfdMtu)
    (junk : Vector UInt8 canMaxDlc) :
    ∃ payload, rxFrame order (RawFrame.header order canId len ++ data).length
        (readInto stale (RawFrame.header order canId len ++ data)) junk =
          some (rxCopy canId len payload junk) ∧
      ∀ i (h : i < data.length) (hi : i < canMaxDlc), payload[i] = data[i] := by
  obtain ⟨hid, hlen, hpayload⟩ := readInto_image order canId len data stale
  refine ⟨_, ?_, hpayload⟩
  rw [rxFrame, hid, hlen, List.length_append, header_length]
  rcases hdata with hdata | hdata
  · rw [hdata]
    rfl
  · rw [hdata]
    rfl

theorem rxCopy_copies {frame : CanFrame} (hid : frame.id ≤ canSffMask)
    (hdlc : frame.dlc.toNat ≤ linuxCanMaxDlc) {payload : Vector UInt8 canMaxDlc}
    (hpayload : AgreeTo frame.dlc.toNat payload frame.data) (junk : Vector UInt8 canMaxDlc) :
    (rxCopy (frame.id &&& canSffMask) frame.dlc payload junk).id = frame.id ∧
    (rxCopy (frame.id &&& canSffMask) frame.dlc payload junk).dlc = frame.dlc ∧
    AgreeTo frame.dlc.toNat (rxCopy (frame.id &&& canSffMask) frame.dlc payload junk).data
      frame.data := by
  have hcap : ¬ frame.dlc.toNat > linuxCanMaxDlc := Nat.not_lt.mpr hdlc
  simp only [rxCopy, if_neg hcap]
  refine ⟨mask_mask hid, trivial, ?_⟩
  intro i hi hlt
  rw [Vector.getElem_ofFn, if_pos hlt]
  exact hpayload i hi hlt

/-- The reader gets back what `toRaw` was made of. -/
theorem rxFrame_toRaw (order : ByteOrder) {frame : CanFrame} (hid : frame.id ≤ canSffMask)
    (hdlc : frame.dlc.toNat ≤ linuxCanMaxDlc) (stale : Vector UInt8 canfdMtu)
    (junk : Vector UInt8 canMaxDlc) :
    ∃ frame', rxFrame order ((toRaw frame).image order).length
        (readInto stale ((toRaw frame).image order)) junk = some frame' ∧
      frame'.id = frame.id ∧ frame'.dlc = frame.dlc ∧
      AgreeTo frame.dlc.toNat frame'.data frame.data := by
  have hclassic : frame.dlc ≤ classicCanMaxLen := UInt8.le_iff_toNat_le.mpr hdlc
  rw [toRaw, if_pos hclassic]
  obtain ⟨payload, hrx, hpayload⟩ := rxFrame_image order (frame.id &&& canSffMask) frame.dlc
    (.inl Vector.length_toList) stale junk
  refine ⟨_, hrx, rxCopy_copies hid hdlc ?_ junk⟩
  intro i hi hlt
  have hle : frame.dlc.toNat ≤ 8 := hdlc
  rw [hpayload i (by rw [Vector.length_toList]; omega) hi, Vector.getElem_toList,
    Vector.getElem_ofFn, if_pos hlt]

end Reader

/-- `can_hal_send` hands the kernel one frame and returns 0 when it is written in full,
and the reader that reads this frame calls every subscriber with the same identifier,
the same length and the same data up to it. -/
def Transported (order : ByteOrder) (sender : SocketCan κ) (reader : SocketCan κ')
    (subs : List κ') (frame : CanFrame) : Prop :=
  ∃ raw, (∀ write, sendTo sender (some frame) write =
      (if write raw = raw.size then 0 else -1, [raw])) ∧
    ∀ stale junk, ∃ frame',
      rxRound order reader (raw.image order).length (readInto stale (raw.image order)) junk =
        .ok (subs.map (·, frame')) ∧
      frame'.id = frame.id ∧ frame'.dlc = frame.dlc ∧
      AgreeTo frame.dlc.toNat frame'.data frame.data

def Refused (sender : SocketCan κ) (frame : CanFrame) : Prop :=
  ∀ write, sendTo sender (some frame) write = (-1, [])

theorem Refused.not_transported {order : ByteOrder} {sender : SocketCan κ}
    {reader : SocketCan κ'} {subs : List κ'} {frame : CanFrame} (h : Refused sender frame) :
    ¬ Transported order sender reader subs frame := by
  intro ht
  obtain ⟨raw, hwrite, -⟩ := ht
  have hnone := (hwrite fun _ ↦ 0).symm.trans (h fun _ ↦ 0)
  exact absurd (congrArg Prod.snd hnone) (by simp)

/-- What the interface promises of a frame: up to 64 bytes it is transported, beyond refused. -/
def Lossless (order : ByteOrder) (sender : SocketCan κ) (reader : SocketCan κ')
    (subs : List κ') (frame : CanFrame) : Prop :=
  (frame.dlc.toNat ≤ canMaxDlc → Transported order sender reader subs frame) ∧
    (canMaxDlc < frame.dlc.toNat → Refused sender frame)

/-- Exactly which frames with an 11-bit identifier this is true of: all but those of 9 to
64 bytes. -/
theorem transport_lossless_iff (order : ByteOrder) {o o' : InitOutcome} {cs : List (HalCall κ)}
    {cs' : List (HalCall κ')} {rs rs' : List (Option ℤ)} {sender : SocketCan κ}
    {reader : SocketCan κ'} (hs : Serves o cs rs sender) (hr : Serves o' cs' rs' reader)
    (htask : o'.task = true) {frame : CanFrame} (hid : frame.id ≤ 0x7FF) :
    Lossless order sender reader (subscribed cs' rs') frame ↔
      frame.dlc.toNat ≤ linuxCanMaxDlc ∨ canMaxDlc < frame.dlc.toNat := by
  have hrefused (hdlc : linuxCanMaxDlc < frame.dlc.toNat) : Refused sender frame :=
    sendTo_refused (.inl hdlc)
  constructor
  · intro h
    by_contra hn
    obtain ⟨hlong, hshort⟩ := not_or.mp hn
    have ht := h.1 (Nat.le_of_not_lt hshort)
    exact (hrefused (Nat.lt_of_not_le hlong)).not_transported ht
  · intro hdlc
    refine ⟨fun hle ↦ ?_, fun hlt ↦ hrefused (Nat.lt_trans (by decide) hlt)⟩
    have hshort : frame.dlc.toNat ≤ linuxCanMaxDlc := by omega
    have hsend : ¬ (frame.dlc.toNat > linuxCanMaxDlc ∨ sender.sock < 0) := by
      have hsock := hs.serving.sock
      omega
    refine ⟨toRaw frame, sendTo_written hsend, fun stale junk ↦ ?_⟩
    obtain ⟨frame', hrx, hframe⟩ := rxFrame_toRaw order hid hshort stale junk
    exact ⟨frame', hr.serving.rxRound htask hrx, hframe⟩

def eightBytes : CanFrame := ⟨0x101, 8, Vector.ofFn fun i ↦ .ofNat i⟩

theorem transport_lossless_eight_bytes : ∃ (sender : SocketCan Unit) (reader : SocketCan Bool),
    Lossless .little sender reader [true, false] eightBytes := by
  have hs : Serves ⟨3, 0, 0, true⟩ ([] : List (HalCall Unit)) [] _ := ⟨rfl, by simp, rfl⟩
  have hr : Serves ⟨5, 0, 0, true⟩ [.subscribe (some true), .subscribe none,
      .subscribe (some false)] [some 0, some 0, some 0] _ := ⟨rfl, by simp, rfl⟩
  exact ⟨_, _, (transport_lossless_iff .little hs hr rfl (by decide)).mpr (.inl (by decide))⟩

/-- The frame of the cell voltages, of ten bytes, is refused. -/
theorem transport_fails_cell_voltages : ∃ (sender : SocketCan Unit) (reader : SocketCan Bool),
    Serves ⟨3, 0, 0, true⟩ [] [] sender ∧
    Serves ⟨5, 0, 0, true⟩ [.subscribe (some true)] [some 0] reader ∧
    ¬ Lossless .little sender reader [true]
      (CanProtocol.packCellVoltages ⟨.replicate _ 3700⟩) := by
  refine ⟨_, _, ⟨rfl, by simp, rfl⟩, ⟨rfl, by simp, rfl⟩, fun h ↦ ?_⟩
  have hrefused : Refused (canHalInit (start : SocketCan Unit) ⟨3, 0, 0, true⟩).2
      (CanProtocol.packCellVoltages ⟨.replicate _ 3700⟩) := sendTo_refused (.inl (by decide))
  exact hrefused.not_transported (h.1 (by decide))

end SocketCan

end BmsFirmware
