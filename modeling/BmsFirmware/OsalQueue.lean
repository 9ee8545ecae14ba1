import BmsFirmware.Clock
import BmsFirmware.Lib.History
import BmsFirmware.Lib.Ring
import Mathlib.Logic.Function.Basic

namespace BmsFirmware

open Lib.History Lib.Ring

theorem deadlineNsec_nonneg (now : Timespec) (timeoutMs : UInt32) :
    0 ≤ now.tvNsec + ((timeoutMs % 1000).toNat : ℤ) * 1000000 :=
  add_nonneg now.nsec_nonneg (mul_nonneg (Int.natCast_nonneg _) (by decide))

def absDeadline (now : Timespec) (timeoutMs : UInt32) : Timespec where
  tvSec := now.tvSec + (timeoutMs / 1000).toNat +
    (now.tvNsec + ((timeoutMs % 1000).toNat : ℤ) * 1000000).tdiv 1000000000
  tvNsec := (now.tvNsec + ((timeoutMs % 1000).toNat : ℤ) * 1000000).tmod 1000000000
  nsec_nonneg := Int.tmod_nonneg _ (deadlineNsec_nonneg now timeoutMs)
  nsec_lt := Int.tmod_lt_of_pos _ (by decide)

theorem absDeadline_toNs (now : Timespec) (timeoutMs : UInt32) :
    (absDeadline now timeoutMs).toNs = now.toNs + timeoutMs.toNat * 1000000 := by
  have hns := Int.tdiv_mul_add_tmod
    (now.tvNsec + ((timeoutMs % 1000).toNat : ℤ) * 1000000) 1000000000
  have hms : (timeoutMs / 1000).toNat * 1000 + (timeoutMs % 1000).toNat = timeoutMs.toNat := by
    rw [UInt32.toNat_div, UInt32.toNat_mod]
    exact Nat.div_add_mod' _ _
  simp only [absDeadline, Timespec.toNs]
  omega

structure OsalQueue (itemSize : ℕ) where
  buf : ℕ → UInt8
  capacity : ℕ
  count : ℕ
  head : ℕ

namespace OsalQueue

variable {itemSize : ℕ}

def osalQueueCreate (itemSize capacity : ℕ) : OsalQueue itemSize where
  buf := fun _ ↦ 0
  capacity := capacity
  count := 0
  head := 0

/-- The `%` of C, undefined for a zero divisor. -/
def modulo (a b : ℕ) : Option ℕ := if b = 0 then none else some (a % b)

theorem offset_lt {off a n : ℕ} (h : off ≤ a ∧ a < off + n) : a - off < n := by
  omega

def memcpyIn (q : OsalQueue itemSize) (off : ℕ) (item : Vector UInt8 itemSize) :
    Option (ℕ → UInt8) :=
  if off + itemSize ≤ q.capacity * itemSize then
    some fun a ↦ if h : off ≤ a ∧ a < off + itemSize then item.get ⟨a - off, offset_lt h⟩
      else q.buf a
  else none

def memcpyOut (q : OsalQueue itemSize) (off : ℕ) : Option (Vector UInt8 itemSize) :=
  if off + itemSize ≤ q.capacity * itemSize then some (Vector.ofFn fun i ↦ q.buf (off + i))
  else none

def put (q : OsalQueue itemSize) (item : Vector UInt8 itemSize) : Option (OsalQueue itemSize) := do
  let tail ← modulo (q.head + q.count) q.capacity
  let buf ← q.memcpyIn (tail * itemSize) item
  return { q with buf := buf, count := q.count + 1 }

def take (q : OsalQueue itemSize) : Option (Vector UInt8 itemSize × OsalQueue itemSize) := do
  let item ← q.memcpyOut (q.head * itemSize)
  let head ← modulo (q.head + 1) q.capacity
  return (item, { q with head := head, count := q.count - 1 })

end OsalQueue

/-- Where a thread stands between two passes: outside the queue, or in the wait of one of
the two calls. -/
inductive QueueCall (itemSize : ℕ) where
  | idle
  | sending (item : Vector UInt8 itemSize) (deadline : Timespec)
  | receiving (deadline : Timespec)

inductive QueueResult (itemSize : ℕ) where
  | waits
  | sent (item : Vector UInt8 itemSize)
  | received (item : Vector UInt8 itemSize)
  | sendTimedOut
  | receiveTimedOut
  | undefined
deriving DecidableEq

/-- How a pass begins: with a call, or with the return of `pthread_cond_timedwait`. Every
reading is of the clock that the deadlines are set by. -/
inductive QueueAction (itemSize : ℕ) where
  | osalQueueSend (item : Vector UInt8 itemSize) (timeoutMs : UInt32) (now : Timespec)
  | osalQueueReceive (timeoutMs : UInt32) (now : Timespec)
  | timedwait (etimedout : Bool) (now : Timespec)

namespace OsalQueue

variable {itemSize : ℕ}

def sendPass (q : OsalQueue itemSize) (item : Vector UInt8 itemSize) (deadline : Timespec) :
    OsalQueue itemSize × QueueCall itemSize × QueueResult itemSize :=
  if q.count = q.capacity then (q, .sending item deadline, .waits)
  else
    match q.put item with
    | none => (q, .idle, .undefined)
    | some q' => (q', .idle, .sent item)

def receivePass (q : OsalQueue itemSize) (deadline : Timespec) :
    OsalQueue itemSize × QueueCall itemSize × QueueResult itemSize :=
  if q.count = 0 then (q, .receiving deadline, .waits)
  else
    match q.take with
    | none => (q, .idle, .undefined)
    | some (item, q') => (q', .idle, .received item)

/-- One pass with the lock held. A wait may end early for no reason, and with `ETIMEDOUT`
at any time after its deadline. -/
def pass (q : OsalQueue itemSize) : QueueCall itemSize → QueueAction itemSize →
    Option (OsalQueue itemSize × QueueCall itemSize × QueueResult itemSize)
  | .idle, .osalQueueSend item timeoutMs now => some (q.sendPass item (absDeadline now timeoutMs))
  | .idle, .osalQueueReceive timeoutMs now => some (q.receivePass (absDeadline now timeoutMs))
  | .sending item deadline, .timedwait false _ => some (q.sendPass item deadline)
  | .sending _ deadline, .timedwait true now =>
    if deadline.toNs ≤ now.toNs then some (q, .idle, .sendTimedOut) else none
  | .receiving deadline, .timedwait false _ => some (q.receivePass deadline)
  | .receiving deadline, .timedwait true now =>
    if deadline.toNs ≤ now.toNs then some (q, .idle, .receiveTimedOut) else none
  | _, _ => none

end OsalQueue

structure QueueEvent (τ : Type) (itemSize : ℕ) where
  thread : τ
  action : QueueAction itemSize
  result : QueueResult itemSize

structure QueueUsers (τ : Type) (itemSize : ℕ) where
  queue : OsalQueue itemSize
  call : τ → QueueCall itemSize

namespace QueueUsers

variable {τ : Type} {itemSize : ℕ}

def init (τ : Type) (itemSize capacity : ℕ) : QueueUsers τ itemSize where
  queue := .osalQueueCreate itemSize capacity
  call := fun _ ↦ .idle

def step [DecidableEq τ] (s : QueueUsers τ itemSize) (e : QueueEvent τ itemSize) :
    Option (QueueUsers τ itemSize) :=
  match s.queue.pass (s.call e.thread) e.action with
  | some (q, call, result) =>
    if result = e.result then some ⟨q, Function.update s.call e.thread call⟩ else none
  | none => none

end QueueUsers

end BmsFirmware
