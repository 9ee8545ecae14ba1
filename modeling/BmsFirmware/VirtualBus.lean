import BmsFirmware.CanProtocol
import BmsFirmware.Lib.History
import Mathlib.Logic.Function.Basic
import Mathlib.Tactic.SplitIfs

namespace BmsFirmware

open Config Lib.History

/-- An accepted call of `can_hal_send`: its number in the order of the snapshots,
its frame, and its copy of the subscriber table. -/
structure Transmission (κ : Type) where
  num : ℕ
  frame : CanFrame
  localSubs : List (Option κ)

def Transmission.Receives {κ : Type} (tx : Transmission κ) (p : ℕ) : Prop :=
  ∃ k, tx.localSubs[p]? = some (some k)

structure Reception (κ : Type) where
  tx : Transmission κ
  slot : ℕ

/-- A call of `can_hal_send` behind its snapshot, `next` being the next entry of its loop. -/
structure SendCall (κ : Type) where
  tx : Transmission κ
  next : ℕ
  inCallback : Bool

inductive HalFrame (κ : Type)
  | send (c : SendCall κ)
  | subscribe (sub : Option κ)

abbrev VirtualBus.maxSubscribers : ℕ := 8

/-- The bus with its threads `τ` and subscribers `κ`, a callback with its context.
`sent` and `log` remember all snapshots and all callbacks, the newest first. -/
structure VirtualBus (τ κ : Type) where
  subs : Vector (Option κ) VirtualBus.maxSubscribers
  subCount : ℕ
  stack : τ → List (HalFrame κ)
  sent : List (Transmission κ)
  log : List (Reception κ)

/-- The steps of a thread: the capacity test and the locked insertion of a
subscription, the locked snapshot of a send, one round of its loop, the return
of a callback, and the return of the send. -/
inductive BusAction (κ : Type)
  | subscribe (sub : Option κ)
  | insert
  | send (frame : Option CanFrame)
  | deliver
  | callbackReturn
  | sendReturn

structure BusEvent (τ κ : Type) where
  thread : τ
  action : BusAction κ

def mayCall {κ : Type} : List (HalFrame κ) → Bool
  | [] => true
  | .send c :: _ => c.inCallback
  | .subscribe _ :: _ => false

namespace VirtualBus

variable {τ κ : Type}

def canHalInit : VirtualBus τ κ where
  subs := Vector.replicate maxSubscribers none
  subCount := 0
  stack := fun _ ↦ []
  sent := []
  log := []

def localSubs (s : VirtualBus τ κ) : List (Option κ) := s.subs.toList.take s.subCount

variable [DecidableEq τ]

def setStack (s : VirtualBus τ κ) (t : τ) (st : List (HalFrame κ)) : VirtualBus τ κ :=
  { s with stack := Function.update s.stack t st }

def canHalSubscribe (s : VirtualBus τ κ) (t : τ) (sub : Option κ) : VirtualBus τ κ :=
  if s.subCount ≥ maxSubscribers then s else s.setStack t (.subscribe sub :: s.stack t)

def insert (s : VirtualBus τ κ) (t : τ) (sub : Option κ) (st : List (HalFrame κ)) :
    VirtualBus τ κ :=
  { s.setStack t st with
    subs := s.subs.setIfInBounds s.subCount sub
    subCount := s.subCount + 1 }

/-- A null frame is `none`; a rejected one leaves the bus alone and returns -1. -/
def canHalSend (s : VirtualBus τ κ) (t : τ) : Option CanFrame → VirtualBus τ κ
  | none => s
  | some frame =>
    if frame.dlc.toNat > canMaxDlc then s
    else
      let tx : Transmission κ := ⟨s.sent.length, frame, s.localSubs⟩
      { s.setStack t (.send ⟨tx, 0, false⟩ :: s.stack t) with sent := tx :: s.sent }

def deliver (s : VirtualBus τ κ) (t : τ) (c : SendCall κ) (st : List (HalFrame κ)) :
    Option (VirtualBus τ κ) :=
  match c.tx.localSubs[c.next]? with
  | none => none
  | some none => some (s.setStack t (.send { c with next := c.next + 1 } :: st))
  | some (some _) => some
    { s.setStack t (.send { c with next := c.next + 1, inCallback := true } :: st) with
      log := ⟨c.tx, c.next⟩ :: s.log }

def step (s : VirtualBus τ κ) (e : BusEvent τ κ) : Option (VirtualBus τ κ) :=
  match e.action, s.stack e.thread with
  | .subscribe sub, st => if mayCall st then some (s.canHalSubscribe e.thread sub) else none
  | .insert, .subscribe sub :: st => some (s.insert e.thread sub st)
  | .send frame, st => if mayCall st then some (s.canHalSend e.thread frame) else none
  | .deliver, .send c :: st => if c.inCallback then none else s.deliver e.thread c st
  | .callbackReturn, .send c :: st =>
    if c.inCallback then some (s.setStack e.thread (.send { c with inCallback := false } :: st))
    else none
  | .sendReturn, .send c :: st =>
    if ¬ c.inCallback ∧ c.tx.localSubs.length ≤ c.next then some (s.setStack e.thread st)
    else none
  | _, _ => none

inductive Stepped (s : VirtualBus τ κ) (t : τ) : BusAction κ → VirtualBus τ κ → Prop
  | full (sub : Option κ) (hc : maxSubscribers ≤ s.subCount) : Stepped s t (.subscribe sub) s
  | subscribe (sub : Option κ) (hc : s.subCount < maxSubscribers) :
      Stepped s t (.subscribe sub) (s.setStack t (.subscribe sub :: s.stack t))
  | insert (sub : Option κ) (st : List (HalFrame κ)) (hst : s.stack t = .subscribe sub :: st) :
      Stepped s t .insert (s.insert t sub st)
  | rejected (frame : Option CanFrame)
      (hf : ∀ f, frame = some f → canMaxDlc < f.dlc.toNat) : Stepped s t (.send frame) s
  | send (frame : CanFrame) (hf : frame.dlc.toNat ≤ canMaxDlc) :
      Stepped s t (.send (some frame))
        { s.setStack t (.send ⟨⟨s.sent.length, frame, s.localSubs⟩, 0, false⟩ :: s.stack t) with
          sent := ⟨s.sent.length, frame, s.localSubs⟩ :: s.sent }
  | skip (c : SendCall κ) (st : List (HalFrame κ)) (hst : s.stack t = .send c :: st)
      (hcb : c.inCallback = false) (hs : c.tx.localSubs[c.next]? = some none) :
      Stepped s t .deliver (s.setStack t (.send { c with next := c.next + 1 } :: st))
  | callback (c : SendCall κ) (st : List (HalFrame κ)) (hst : s.stack t = .send c :: st)
      (hcb : c.inCallback = false) (hs : c.tx.Receives c.next) :
      Stepped s t .deliver
        { s.setStack t (.send { c with next := c.next + 1, inCallback := true } :: st) with
          log := ⟨c.tx, c.next⟩ :: s.log }
  | callbackReturn (c : SendCall κ) (st : List (HalFrame κ)) (hst : s.stack t = .send c :: st)
      (hcb : c.inCallback = true) : Stepped s t .callbackReturn
        (s.setStack t (.send { c with inCallback := false } :: st))
  | sendReturn (c : SendCall κ) (st : List (HalFrame κ)) (hst : s.stack t = .send c :: st)
      (hcb : c.inCallback = false) (hn : c.tx.localSubs.length ≤ c.next) :
      Stepped s t .sendReturn (s.setStack t st)

theorem deliver_stepped {s s' : VirtualBus τ κ} {t : τ} {c : SendCall κ} {st : List (HalFrame κ)}
    (hst : s.stack t = .send c :: st) (hcb : c.inCallback = false)
    (h : s.deliver t c st = some s') : Stepped s t .deliver s' := by
  unfold deliver at h
  cases hs : c.tx.localSubs[c.next]? with
  | none => simp [hs] at h
  | some sub =>
    cases sub with
    | none =>
      simp only [hs, Option.some.injEq] at h
      exact h ▸ .skip c st hst hcb hs
    | some k =>
      simp only [hs, Option.some.injEq] at h
      exact h ▸ .callback c st hst hcb ⟨k, hs⟩

theorem send_stepped (s : VirtualBus τ κ) (t : τ) (frame : Option CanFrame) :
    Stepped s t (.send frame) (s.canHalSend t frame) := by
  cases frame with
  | none => exact .rejected none (by simp)
  | some frame =>
    simp only [canHalSend]
    split_ifs with hf
    · exact .rejected (some frame) (by simpa using hf)
    · exact .send frame (Nat.le_of_not_lt hf)

theorem step_stepped {s s' : VirtualBus τ κ} {t : τ} {a : BusAction κ}
    (h : s.step ⟨t, a⟩ = some s') : Stepped s t a s' := by
  cases a with
  | subscribe sub =>
    simp only [step, Option.ite_none_right_eq_some, Option.some.injEq] at h
    obtain ⟨_, rfl⟩ := h
    unfold canHalSubscribe
    split_ifs with hc
    · exact .full sub hc
    · exact .subscribe sub (Nat.lt_of_not_le hc)
  | send frame =>
    simp only [step, Option.ite_none_right_eq_some, Option.some.injEq] at h
    obtain ⟨_, rfl⟩ := h
    exact send_stepped s t frame
  | insert =>
    match hst : s.stack t with
    | [] => simp [step, hst] at h
    | .send c :: st => simp [step, hst] at h
    | .subscribe sub :: st =>
      simp only [step, hst, Option.some.injEq] at h
      exact h ▸ .insert sub st hst
  | deliver =>
    match hst : s.stack t with
    | [] => simp [step, hst] at h
    | .subscribe sub :: st => simp [step, hst] at h
    | .send c :: st =>
      simp only [step, hst, Option.ite_none_left_eq_some, Bool.not_eq_true] at h
      exact deliver_stepped hst h.1 h.2
  | callbackReturn =>
    match hst : s.stack t with
    | [] => simp [step, hst] at h
    | .subscribe sub :: st => simp [step, hst] at h
    | .send c :: st =>
      simp only [step, hst, Option.ite_none_right_eq_some, Option.some.injEq] at h
      exact h.2 ▸ .callbackReturn c st hst h.1
  | sendReturn =>
    match hst : s.stack t with
    | [] => simp [step, hst] at h
    | .subscribe sub :: st => simp [step, hst] at h
    | .send c :: st =>
      simp only [step, hst, Option.ite_none_right_eq_some, Option.some.injEq,
        Bool.not_eq_true] at h
      exact h.2 ▸ .sendReturn c st hst h.1.1 h.1.2

end VirtualBus

end BmsFirmware
