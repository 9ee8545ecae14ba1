import Mathlib.Data.Finset.Card

namespace BmsFirmware.Lib

/-- A condition variable: the threads that it holds back, and those that a signal has let
go and that have not gone on yet. -/
structure CondVar (τ : Type) where
  blocked : Finset τ
  notified : Finset τ
  disjoint : Disjoint blocked notified

namespace CondVar

variable {τ : Type}

def init (τ : Type) : CondVar τ := ⟨∅, ∅, Finset.disjoint_empty_left _⟩

variable (c : CondVar τ)

def Signals (woken : Finset τ) : Prop :=
  woken ⊆ c.blocked ∧ (c.blocked.Nonempty → woken.Nonempty)

/-- Threads are held back only if `n` others are on their way. -/
def Covers (n : ℕ) : Prop := c.blocked.Nonempty → n ≤ c.notified.card

variable {c} {n m : ℕ} {woken : Finset τ}

theorem signals_blocked : c.Signals c.blocked := ⟨Finset.Subset.refl _, id⟩

theorem covers_init (n : ℕ) : (init τ).Covers n := fun h ↦ absurd h Finset.not_nonempty_empty

theorem covers_zero : c.Covers 0 := fun _ ↦ Nat.zero_le _

theorem Covers.mono (h : c.Covers n) (hm : m ≤ n) : c.Covers m := fun hb ↦ hm.trans (h hb)

variable [DecidableEq τ]

instance (woken : Finset τ) : Decidable (c.Signals woken) :=
  inferInstanceAs (Decidable (_ ∧ _))

section

variable (c) (t : τ)

def block : CondVar τ where
  blocked := insert t c.blocked
  notified := c.notified.erase t
  disjoint := Finset.disjoint_insert_left.mpr
    ⟨Finset.notMem_erase t _, c.disjoint.mono_right (Finset.erase_subset t _)⟩

def leave : CondVar τ where
  blocked := c.blocked.erase t
  notified := c.notified
  disjoint := c.disjoint.mono_left (Finset.erase_subset t _)

def resume : CondVar τ where
  blocked := c.blocked
  notified := c.notified.erase t
  disjoint := c.disjoint.mono_right (Finset.erase_subset t _)

def signal (woken : Finset τ) : CondVar τ where
  blocked := c.blocked \ woken
  notified := c.notified ∪ woken
  disjoint := Finset.disjoint_union_right.mpr
    ⟨c.disjoint.mono_left Finset.sdiff_subset, Finset.sdiff_disjoint⟩

def waiting : Finset τ := c.blocked ∪ c.notified

end

variable {t u : τ}

theorem Covers.leave (h : c.Covers n) : (c.leave t).Covers n :=
  fun hb ↦ h (hb.mono (Finset.erase_subset t _))

theorem Covers.resume (h : c.Covers (n + 1)) : (c.resume t).Covers n := by
  intro hb
  have hcard : c.notified.card - 1 ≤ (c.notified.erase t).card := Finset.pred_card_le_card_erase
  have hn := h hb
  show n ≤ (c.notified.erase t).card
  omega

theorem Covers.signal (h : c.Covers n) (hs : c.Signals woken) :
    (c.signal woken).Covers (n + 1) := by
  intro hb
  have hblocked : c.blocked.Nonempty := hb.mono Finset.sdiff_subset
  have hdisjoint : Disjoint c.notified woken := (c.disjoint.mono_left hs.1).symm
  have hcard : (c.notified ∪ woken).card = c.notified.card + woken.card :=
    Finset.card_union_of_disjoint hdisjoint
  have hwoken : 0 < woken.card := Finset.card_pos.mpr (hs.2 hblocked)
  have hn := h hblocked
  show n + 1 ≤ (c.notified ∪ woken).card
  omega

theorem mem_waiting_block (h : u ∈ (c.block t).waiting) : u = t ∨ u ∈ c.waiting := by
  simp only [waiting, CondVar.block, Finset.mem_union, Finset.mem_insert, Finset.mem_erase] at h ⊢
  tauto

theorem mem_waiting_leave (h : u ∈ (c.leave t).waiting) : u ∈ c.waiting := by
  simp only [waiting, CondVar.leave, Finset.mem_union, Finset.mem_erase] at h ⊢
  tauto

theorem mem_waiting_signal (hs : c.Signals woken) (h : u ∈ (c.signal woken).waiting) :
    u ∈ c.waiting := by
  simp only [waiting, CondVar.signal, Finset.mem_union, Finset.mem_sdiff] at h ⊢
  rcases h with ⟨hb, _⟩ | hn | hw
  · exact .inl hb
  · exact .inr hn
  · exact .inl (hs.1 hw)

theorem mem_waiting_resume (ht : t ∉ c.blocked) (h : u ∈ (c.resume t).waiting) :
    u ≠ t ∧ u ∈ c.waiting := by
  simp only [waiting, CondVar.resume, Finset.mem_union, Finset.mem_erase] at h ⊢
  rcases h with hb | ⟨hne, hn⟩
  · exact ⟨fun he ↦ ht (he ▸ hb), .inl hb⟩
  · exact ⟨hne, .inr hn⟩

end CondVar

end BmsFirmware.Lib
