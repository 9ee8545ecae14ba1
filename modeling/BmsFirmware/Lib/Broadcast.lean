import Mathlib.Data.List.Pairwise
import Mathlib.Order.Lattice

namespace BmsFirmware.Lib.Broadcast

variable {ν σ : Type} [DecidableEq σ]

/-- What the listener `p` has heard on a medium whose log lists the receptions,
each a message with its listener, the newest first. -/
def heard (log : List (ν × σ)) (p : σ) : List ν := (log.filter (·.2 = p)).map (·.1)

/-- No two listeners have heard two messages in different orders. -/
def TotallyOrdered (log : List (ν × σ)) : Prop :=
  ∀ p q m n, p ≠ q → m ≠ n → [m, n].Sublist (heard log p) → ¬ [n, m].Sublist (heard log q)

def LateAlone [LT ν] (log : List (ν × σ)) : Prop :=
  log.Pairwise fun r r' ↦ r.1 < r'.1 → ∀ q, (r.1, q) ∈ log → q = r.2

theorem sublist_of_heard {log : List (ν × σ)} {p : σ} {m n : ν}
    (h : [m, n].Sublist (heard log p)) : [(m, p), (n, p)].Sublist log := by
  obtain ⟨l, hl, hmap⟩ := List.sublist_map_iff.mp h
  match l, hmap with
  | [(a, x), (b, y)], hmap =>
    obtain ⟨rfl, rfl⟩ : m = a ∧ n = b := by simpa using hmap
    have hslot : ∀ r ∈ [(m, x), (n, y)], r.2 = p := fun r hr ↦ by
      simpa using (List.mem_filter.mp (hl.subset hr)).2
    obtain rfl : x = p := hslot _ List.mem_cons_self
    obtain rfl : y = x := hslot _ (List.mem_cons_of_mem _ List.mem_cons_self)
    exact hl.trans List.filter_sublist

theorem heard_append (new old : List (ν × σ)) (p : σ) :
    heard (new ++ old) p = heard new p ++ heard old p := by
  simp only [heard, List.filter_append, List.map_append]

theorem mem_of_mem_heard {log : List (ν × σ)} {p : σ} {m : ν} (h : m ∈ heard log p) :
    (m, p) ∈ log := by
  obtain ⟨⟨a, x⟩, hfilter, rfl⟩ := List.mem_map.mp h
  obtain ⟨hmem, hx⟩ := List.mem_filter.mp hfilter
  obtain rfl : x = p := by simpa using hx
  exact hmem

/-- A message that nobody hears any more is heard before one that nobody has heard yet. -/
theorem not_sublist_of_over {new old : List (ν × σ)} {m n : ν} (hm : ∀ q, (m, q) ∉ new)
    (hn : ∀ q, (n, q) ∉ old) (p : σ) : ¬ [m, n].Sublist (heard (new ++ old) p) := by
  intro h
  rw [heard_append, List.sublist_append_iff] at h
  obtain ⟨l₁, l₂, heq, h₁, h₂⟩ := h
  match l₁, heq with
  | [], heq =>
    obtain rfl : [m, n] = l₂ := heq
    exact hn p (mem_of_mem_heard (h₂.subset (by simp)))
  | x :: l₁, heq =>
    obtain ⟨rfl, _⟩ := List.cons.inj heq
    exact hm p (mem_of_mem_heard (h₁.subset List.mem_cons_self))

/-- Two listeners can only disagree about a message that both have heard, one of
them late. -/
theorem LateAlone.totallyOrdered [LinearOrder ν] {log : List (ν × σ)} (h : LateAlone log) :
    TotallyOrdered log := by
  intro p q m n hpq hmn hp hq
  have hp := sublist_of_heard hp
  have hq := sublist_of_heard hq
  rcases lt_or_gt_of_ne hmn with hlt | hlt
  · have halone := List.rel_of_pairwise_cons (h.sublist hp) List.mem_cons_self hlt
    exact hpq (halone q (hq.subset (by simp))).symm
  · have halone := List.rel_of_pairwise_cons (h.sublist hq) List.mem_cons_self hlt
    exact hpq (halone p (hp.subset (by simp)))

end BmsFirmware.Lib.Broadcast
