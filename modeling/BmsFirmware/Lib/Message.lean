import Mathlib.Algebra.Ring.Parity

namespace BmsFirmware.Lib.Message

variable {ι β α : Type} {n : ℕ}

def AgreeTo (k : ℕ) (d d' : Vector β n) : Prop := ∀ i (h : i < n), i < k → d[i] = d'[i]

instance [DecidableEq β] (k : ℕ) (d d' : Vector β n) : Decidable (AgreeTo k d d') :=
  inferInstanceAs (Decidable (∀ i (h : i < n), i < k → d[i] = d'[i]))

@[simp] theorem agreeTo_zero (d d' : Vector β n) : AgreeTo 0 d d' :=
  fun _ _ hk ↦ (Nat.not_lt_zero _ hk).elim

theorem agreeTo_succ {k : ℕ} (hk : k < n) {d d' : Vector β n} :
    AgreeTo (k + 1) d d' ↔ AgreeTo k d d' ∧ d[k] = d'[k] := by
  constructor
  · intro h
    exact ⟨fun i hi hik ↦ h i hi (Nat.lt_succ_of_lt hik), h k hk (Nat.lt_succ_self k)⟩
  · intro h i hi hik
    rcases Nat.lt_succ_iff_lt_or_eq.mp hik with hlt | rfl
    · exact h.1 i hi hlt
    · exact h.2

/-- Agreement cell by cell is agreement pair by pair. -/
theorem agreeTo_mul_two {m : ℕ} (hm : m * 2 ≤ n) {d d' : Vector β n} :
    AgreeTo (m * 2) d d' ↔
      ∀ i (_ : i < m), d[i * 2] = d'[i * 2] ∧ d[i * 2 + 1] = d'[i * 2 + 1] := by
  constructor
  · intro h i hi
    exact ⟨h _ (by omega) (by omega), h _ (by omega) (by omega)⟩
  · intro h i hi him
    obtain ⟨j, hj | hj⟩ := Nat.even_or_odd' i
    · obtain rfl : i = j * 2 := by omega
      exact (h j (by omega)).1
    · obtain rfl : i = j * 2 + 1 := by omega
      exact (h j (by omega)).2

/-- A message format: a tag, a payload size, and a reading of the payload, which
tells two buffers apart if and only if their payloads differ. -/
structure Format (ι β : Type) (n : ℕ) (α : Type) where
  tag : ι
  size : ℕ
  read : Vector β n → α
  read_eq_iff : ∀ d d', read d = read d' ↔ AgreeTo size d d'

structure Codec (ι β : Type) (n : ℕ) (α : Type) extends Format ι β n α where
  blank : β
  write : α → Vector β n
  read_write : ∀ v, read (write v) = v
  write_blank : ∀ v i (h : i < n), size ≤ i → (write v)[i] = blank

namespace Format

variable [DecidableEq ι] {F : Format ι β n α} {tag : ι} {len : ℕ}

def decode (F : Format ι β n α) (tag : ι) (len : ℕ) (d : Vector β n) : Option α :=
  if tag = F.tag ∧ F.size ≤ len then some (F.read d) else none

theorem decode_accepted (d : Vector β n) (ht : tag = F.tag) (hl : F.size ≤ len) :
    F.decode tag len d = some (F.read d) :=
  if_pos ⟨ht, hl⟩

theorem decode_rejected (d : Vector β n) (h : ¬ (tag = F.tag ∧ F.size ≤ len)) :
    F.decode tag len d = none :=
  if_neg h

end Format

namespace Codec

/-- Writing a value that was read gives its payload back. -/
theorem write_read (C : Codec ι β n α) (d : Vector β n) :
    AgreeTo C.size (C.write (C.read d)) d :=
  (C.read_eq_iff _ _).mp (C.read_write _)

/-- A decoder recovers what was written, whatever follows the payload. -/
theorem decode_write [DecidableEq ι] (C : Codec ι β n α) {v : α} {d : Vector β n} {len : ℕ}
    (hd : AgreeTo C.size (C.write v) d) (hl : C.size ≤ len) : C.decode C.tag len d = some v := by
  rw [Format.decode_accepted d rfl hl, ← (C.read_eq_iff _ _).mpr hd, C.read_write]

end Codec

end BmsFirmware.Lib.Message
