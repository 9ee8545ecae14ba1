import BmsFirmware.CanProtocol
import Mathlib.Tactic.SplitIfs

namespace BmsFirmware

open Config

/-- The pointer to an `osal_mutex_t`: never created or already destroyed, or live. -/
inductive MutexPtr
  | null | live
deriving DecidableEq, Repr

inductive MutexFault
  | lockNull | unlockNull
deriving DecidableEq, Repr

def osalMutexLock : MutexPtr → Except MutexFault Unit
  | .live => .ok ()
  | .null => .error .lockNull

def osalMutexUnlock : MutexPtr → Except MutexFault Unit
  | .live => .ok ()
  | .null => .error .unlockNull

inductive RawFrame
  | classic (canId : UInt32) (canDlc : UInt8) (data : Vector UInt8 8)
  | fd (canId : UInt32) (len : UInt8) (data : Vector UInt8 64)
deriving DecidableEq, Repr

def RawFrame.size : RawFrame → ℤ
  | .classic .. => 16
  | .fd .. => 72

namespace SocketCan

abbrev maxSubscribers : ℕ := 8
abbrev classicCanMaxLen : UInt8 := 8
abbrev canSffMask : UInt32 := 0x7FF

/-- `CAN_MAX_DLC` in this file: `linux/can.h`, included behind `can_hal.h`, defines
the name again. -/
abbrev linuxCanMaxDlc : ℕ := 8

end SocketCan

open SocketCan

structure SocketCan (κ : Type) where
  sock : ℤ
  subLock : MutexPtr
  subs : Vector (Option κ) maxSubscribers
  subCount : ℕ
  rxTask : Bool
  running : Bool

namespace SocketCan

variable {κ : Type}

def start : SocketCan κ where
  sock := -1
  subLock := .null
  subs := Vector.replicate maxSubscribers none
  subCount := 0
  rxTask := false
  running := false

/-- What the system calls of `can_hal_init` return; negative means failure.
`task` tells whether `osal_task_create` could create the reader task. -/
structure InitOutcome where
  socket : ℤ
  ioctl : ℤ
  bind : ℤ
  task : Bool
deriving DecidableEq, Repr

def canHalInit (s : SocketCan κ) (o : InitOutcome) : ℤ × SocketCan κ :=
  let s := { s with sock := o.socket }
  if s.sock < 0 then (-1, s)
  else if o.ioctl < 0 then (-1, { s with sock := -1 })
  else if o.bind < 0 then (-1, { s with sock := -1 })
  else (0,
    { s with
      subLock := .live
      subCount := 0
      subs := Vector.replicate maxSubscribers none
      running := true
      rxTask := o.task })

def canHalSubscribe (s : SocketCan κ) (sub : Option κ) : Except MutexFault (ℤ × SocketCan κ) :=
  if s.subCount ≥ maxSubscribers then .ok (-1, s)
  else do
    osalMutexLock s.subLock
    let s' := { s with
      subs := s.subs.setIfInBounds s.subCount sub
      subCount := s.subCount + 1 }
    osalMutexUnlock s'.subLock
    return (0, s')

def toRaw (frame : CanFrame) : RawFrame :=
  if frame.dlc ≤ classicCanMaxLen then
    .classic (frame.id &&& canSffMask) frame.dlc
      (Vector.ofFn fun i ↦ if i.val < frame.dlc.toNat then frame.data[i.val] else 0)
  else
    .fd (frame.id &&& canSffMask) frame.dlc
      (Vector.ofFn fun i ↦ if i.val < frame.dlc.toNat then frame.data[i.val] else 0)

/-- A null frame is `none`. -/
def canHalSend {m : Type → Type} [Monad m] (s : SocketCan κ) (frame : Option CanFrame)
    (write : RawFrame → m ℤ) : m ℤ :=
  match frame with
  | none => return -1
  | some frame =>
    if frame.dlc.toNat > linuxCanMaxDlc ∨ s.sock < 0 then return -1
    else do
      let n ← write (toRaw frame)
      return if n = (toRaw frame).size then 0 else -1

/-- The value it returns when the kernel answers with `write`, and the frames it hands over. -/
def sendTo (s : SocketCan κ) (frame : Option CanFrame) (write : RawFrame → ℤ) :
    ℤ × List RawFrame :=
  StateT.run (m := Id) (canHalSend s frame fun raw sent ↦ (write raw, sent ++ [raw])) []

def canHalShutdown (s : SocketCan κ) : SocketCan κ :=
  { s with
    running := false
    rxTask := false
    sock := if s.sock ≥ 0 then -1 else s.sock
    subLock := .null
    subCount := 0 }

def rxSnapshot (s : SocketCan κ) : Except MutexFault (List (Option κ)) := do
  if s.rxTask ∧ s.running then
    osalMutexLock s.subLock
    let localSubs := s.subs.toList.take s.subCount
    osalMutexUnlock s.subLock
    return localSubs
  else return []

inductive HalCall (κ : Type)
  | subscribe (sub : Option κ)
  | send (frame : Option CanFrame) (write : RawFrame → ℤ)
  | shutdown
  | receive

def halCall (s : SocketCan κ) : HalCall κ → Except MutexFault (Option ℤ × SocketCan κ)
  | .subscribe sub => do
    let (r, s) ← canHalSubscribe s sub
    return (some r, s)
  | .send frame write => return (some (sendTo s frame write).1, s)
  | .shutdown => return (none, canHalShutdown s)
  | .receive => do
    let _ ← rxSnapshot s
    return (none, s)

def halCalls (s : SocketCan κ) :
    List (HalCall κ) → Except MutexFault (List (Option ℤ) × SocketCan κ)
  | [] => return ([], s)
  | c :: cs => do
    let (r, s) ← halCall s c
    let (rs, s) ← halCalls s cs
    return (r :: rs, s)

/-- A failed or successful init is survived by the calls that follow it: none
of them uses a null mutex, and after a failed one they all return -1. -/
def Survives (o : InitOutcome) (calls : List (HalCall κ)) : Prop :=
  ∃ rs s, halCalls (canHalInit start o).2 calls = .ok (rs, s) ∧
    ((canHalInit (start : SocketCan κ) o).1 ≠ 0 → ∀ r ∈ rs, r = none ∨ r = some (-1))

def InitOutcome.succeeds (o : InitOutcome) : Bool :=
  decide (0 ≤ o.socket) && decide (0 ≤ o.ioctl) && decide (0 ≤ o.bind)

def SubscribesOnlyUp : Bool → List (HalCall κ) → Prop
  | _, [] => True
  | up, .subscribe _ :: cs => up = true ∧ SubscribesOnlyUp up cs
  | up, .send _ _ :: cs => SubscribesOnlyUp up cs
  | _, .shutdown :: cs => SubscribesOnlyUp false cs
  | up, .receive :: cs => SubscribesOnlyUp up cs

structure Down (s : SocketCan κ) : Prop where
  sock : s.sock < 0
  subLock : s.subLock = .null
  subCount : s.subCount = 0
  rxTask : s.rxTask = false

variable {s : SocketCan κ}

theorem shutdown_down (s : SocketCan κ) : Down (canHalShutdown s) := by
  constructor
  · unfold canHalShutdown
    dsimp only
    split_ifs <;> omega
  · rfl
  · rfl
  · rfl

theorem Down.subscribe (h : Down s) (sub : Option κ) :
    canHalSubscribe s sub = .error .lockNull := by
  unfold canHalSubscribe
  rw [if_neg (by rw [h.subCount]; decide), h.subLock]
  rfl

theorem sendTo_refused {frame : CanFrame} (h : frame.dlc.toNat > linuxCanMaxDlc ∨ s.sock < 0)
    (write : RawFrame → ℤ) : sendTo s (some frame) write = (-1, []) := by
  rw [sendTo]
  dsimp only [canHalSend]
  rw [if_pos h]
  rfl

theorem sendTo_written {frame : CanFrame} (h : ¬ (frame.dlc.toNat > linuxCanMaxDlc ∨ s.sock < 0))
    (write : RawFrame → ℤ) : sendTo s (some frame) write =
      (if write (toRaw frame) = (toRaw frame).size then 0 else -1, [toRaw frame]) := by
  rw [sendTo]
  dsimp only [canHalSend]
  rw [if_neg h]
  rfl

theorem Down.send (h : Down s) (frame : Option CanFrame) (write : RawFrame → ℤ) :
    sendTo s frame write = (-1, []) := by
  cases frame with
  | none => rfl
  | some frame => exact sendTo_refused (.inr h.sock) write

theorem Down.receive (h : Down s) : rxSnapshot s = .ok [] := by
  unfold rxSnapshot
  rw [if_neg (by simp [h.rxTask])]
  rfl

section Calls

theorem ok_of_bind {ε α β : Type} {x : Except ε α} {f : α → Except ε β} {b : β}
    (h : (x >>= f) = .ok b) : ∃ a, x = .ok a ∧ f a = .ok b := by
  cases x with
  | error e => cases h
  | ok a => exact ⟨a, rfl, h⟩

variable {s₁ s' : SocketCan κ} {c : HalCall κ} {cs : List (HalCall κ)} {r : Option ℤ}
  {rs : List (Option ℤ)}

theorem halCalls_cons_ok (hc : halCall s c = .ok (r, s₁)) (hcs : halCalls s₁ cs = .ok (rs, s')) :
    halCalls s (c :: cs) = .ok (r :: rs, s') := by
  rw [halCalls, hc]
  simp only [bind, Except.bind, hcs]
  rfl

theorem halCalls_cons_error (hc : halCall s c = .ok (r, s₁)) {e : MutexFault}
    (hcs : halCalls s₁ cs = .error e) : halCalls s (c :: cs) = .error e := by
  rw [halCalls, hc]
  simp only [bind, Except.bind, hcs]

theorem halCalls_cons_inv (h : halCalls s (c :: cs) = .ok (rs, s')) :
    ∃ r s₁ rs₁, halCall s c = .ok (r, s₁) ∧ halCalls s₁ cs = .ok (rs₁, s') ∧ rs = r :: rs₁ := by
  rw [halCalls] at h
  obtain ⟨⟨r, s₁⟩, hc, h⟩ := ok_of_bind h
  obtain ⟨⟨rs₁, s₂⟩, hcs, h⟩ := ok_of_bind h
  cases h
  exact ⟨r, s₁, rs₁, hc, hcs, rfl⟩

end Calls

theorem Down.calls (h : Down s) (calls : List (HalCall κ)) :
    (SubscribesOnlyUp false calls → ∃ rs s', halCalls s calls = .ok (rs, s') ∧
      ∀ r ∈ rs, r = none ∨ r = some (-1)) ∧
    (¬ SubscribesOnlyUp false calls → halCalls s calls = .error .lockNull) := by
  induction calls generalizing s with
  | nil => exact ⟨fun _ ↦ ⟨[], s, rfl, by simp⟩, fun hn ↦ absurd trivial hn⟩
  | cons c cs ih =>
    have hcons (r : Option ℤ) (s₁ : SocketCan κ) (hc : halCall s c = .ok (r, s₁))
        (hr : r = none ∨ r = some (-1)) (h₁ : Down s₁) :
        (SubscribesOnlyUp false cs → ∃ rs s', halCalls s (c :: cs) = .ok (rs, s') ∧
          ∀ r ∈ rs, r = none ∨ r = some (-1)) ∧
        (¬ SubscribesOnlyUp false cs → halCalls s (c :: cs) = .error .lockNull) := by
      refine ⟨fun hup ↦ ?_, fun hn ↦ ?_⟩
      · obtain ⟨rs, s', hrs, hall⟩ := (ih h₁).1 hup
        refine ⟨r :: rs, s', halCalls_cons_ok hc hrs, ?_⟩
        exact List.forall_mem_cons.mpr ⟨hr, hall⟩
      · exact halCalls_cons_error hc ((ih h₁).2 hn)
    cases c with
    | subscribe sub =>
      refine ⟨fun hup ↦ absurd hup.1 (by decide), fun _ ↦ ?_⟩
      rw [halCalls, halCall, h.subscribe]
      rfl
    | send frame write =>
      exact hcons (some (-1)) s (by rw [halCall, h.send]; rfl) (.inr rfl) h
    | shutdown => exact hcons none (canHalShutdown s) rfl (.inl rfl) (shutdown_down s)
    | receive => exact hcons none s (by rw [halCall, h.receive]; rfl) (.inl rfl) h

theorem up_subscribe (h : s.subLock = .live) (sub : Option κ) :
    ∃ r s', canHalSubscribe s sub = .ok (r, s') ∧ s'.subLock = .live := by
  by_cases hc : s.subCount ≥ maxSubscribers
  · exact ⟨-1, s, if_pos hc, h⟩
  · unfold canHalSubscribe
    rw [if_neg hc, h]
    exact ⟨_, _, rfl, rfl⟩

theorem up_receive (h : s.subLock = .live) : ∃ l, rxSnapshot s = .ok l := by
  unfold rxSnapshot
  rw [h]
  split_ifs
  · exact ⟨_, rfl⟩
  · exact ⟨_, rfl⟩

theorem up_calls (h : s.subLock = .live) (calls : List (HalCall κ)) :
    (SubscribesOnlyUp true calls → ∃ rs s', halCalls s calls = .ok (rs, s')) ∧
    (¬ SubscribesOnlyUp true calls → halCalls s calls = .error .lockNull) := by
  induction calls generalizing s with
  | nil => exact ⟨fun _ ↦ ⟨[], s, rfl⟩, fun hn ↦ absurd trivial hn⟩
  | cons c cs ih =>
    have hcons (r : Option ℤ) (s₁ : SocketCan κ) (up : Bool) (hc : halCall s c = .ok (r, s₁))
        (h₁ : (SubscribesOnlyUp up cs → ∃ rs s', halCalls s₁ cs = .ok (rs, s')) ∧
          (¬ SubscribesOnlyUp up cs → halCalls s₁ cs = .error .lockNull)) :
        (SubscribesOnlyUp up cs → ∃ rs s', halCalls s (c :: cs) = .ok (rs, s')) ∧
        (¬ SubscribesOnlyUp up cs → halCalls s (c :: cs) = .error .lockNull) := by
      refine ⟨fun hup ↦ ?_, fun hn ↦ ?_⟩
      · obtain ⟨rs, s', hrs⟩ := h₁.1 hup
        exact ⟨r :: rs, s', halCalls_cons_ok hc hrs⟩
      · exact halCalls_cons_error hc (h₁.2 hn)
    cases c with
    | subscribe sub =>
      obtain ⟨r, s₁, hs₁, hlive⟩ := up_subscribe h sub
      have hc := hcons (some r) s₁ true (by rw [halCall, hs₁]; rfl) (ih hlive)
      simpa only [SubscribesOnlyUp, true_and] using hc
    | send frame write => exact hcons (some (sendTo s frame write).1) s true rfl (ih h)
    | shutdown =>
      have hd := (shutdown_down s).calls cs
      refine hcons none (canHalShutdown s) false rfl ⟨fun hup ↦ ?_, hd.2⟩
      obtain ⟨rs, s', hrs, -⟩ := hd.1 hup
      exact ⟨rs, s', hrs⟩
    | receive =>
      obtain ⟨l, hl⟩ := up_receive h
      exact hcons none s true (by rw [halCall, hl]; rfl) (ih h)

theorem init_up (κ : Type) {o : InitOutcome} (h : o.succeeds = true) :
    (canHalInit (start : SocketCan κ) o).1 = 0 ∧
      (canHalInit (start : SocketCan κ) o).2.subLock = .live := by
  simp only [InitOutcome.succeeds, Bool.and_eq_true, decide_eq_true_iff] at h
  unfold canHalInit
  dsimp only
  rw [if_neg (by omega), if_neg (by omega), if_neg (by omega)]
  exact ⟨rfl, rfl⟩

theorem init_down (κ : Type) {o : InitOutcome} (h : o.succeeds = false) :
    (canHalInit (start : SocketCan κ) o).1 ≠ 0 ∧ Down (canHalInit (start : SocketCan κ) o).2 := by
  simp only [InitOutcome.succeeds, Bool.and_eq_false_iff, decide_eq_false_iff_not] at h
  unfold canHalInit
  dsimp only
  have hret : (-1 : ℤ) ≠ 0 := by decide
  have hneg : (-1 : ℤ) < 0 := by decide
  split_ifs with hs hi hb
  · exact ⟨hret, ⟨hs, rfl, rfl, rfl⟩⟩
  · exact ⟨hret, ⟨hneg, rfl, rfl, rfl⟩⟩
  · exact ⟨hret, ⟨hneg, rfl, rfl, rfl⟩⟩
  · omega

/-- Exactly which call sequences are survived: those that subscribe only
between a successful init and the first shutdown. -/
theorem survives_iff (o : InitOutcome) (calls : List (HalCall κ)) :
    Survives o calls ↔ SubscribesOnlyUp o.succeeds calls := by
  have hlost (he : halCalls (canHalInit start o).2 calls = .error .lockNull) :
      ¬ Survives o calls := by
    intro hsurv
    obtain ⟨rs, s, hrs, -⟩ := hsurv
    rw [he] at hrs
    cases hrs
  cases hs : o.succeeds with
  | true =>
    obtain ⟨hret, hlive⟩ := init_up κ hs
    have hc := up_calls hlive calls
    constructor
    · intro hsurv
      by_contra hn
      exact hlost (hc.2 hn) hsurv
    · intro hup
      obtain ⟨rs, s, hrs⟩ := hc.1 hup
      exact ⟨rs, s, hrs, fun hn ↦ absurd hret hn⟩
  | false =>
    obtain ⟨hret, hdown⟩ := init_down κ hs
    have hc := hdown.calls calls
    constructor
    · intro hsurv
      by_contra hn
      exact hlost (hc.2 hn) hsurv
    · intro hup
      obtain ⟨rs, s, hrs, hall⟩ := hc.1 hup
      exact ⟨rs, s, hrs, fun _ ↦ hall⟩

/-- No `vcan0`: the ioctl fails and the can task's subscription locks a null
mutex. -/
theorem survives_fails_without_interface :
    ¬ Survives ⟨3, -1, 0, true⟩ [HalCall.subscribe (some ())] := by
  intro hsurv
  obtain ⟨rs, s, hrs, -⟩ := hsurv
  cases hrs

end SocketCan

end BmsFirmware
