import Mathlib.Data.List.Basic

namespace BmsFirmware.Lib.Recent

variable {α β : Type}

def push (k : ℕ) (l : List α) (x : α) : List α :=
  if l.length < k then l ++ [x] else l.tail ++ [x]

/-- The register contents that an unbounded history, newest first, leaves behind. -/
def recent (k : ℕ) (h : List α) : List α := (h.take k).reverse

theorem recent_length (k : ℕ) (h : List α) : (recent k h).length = min k h.length := by
  simp [recent]

theorem push_recent {k : ℕ} (hk : 0 < k) (h : List α) (x : α) :
    push k (recent k h) x = recent k (x :: h) := by
  obtain ⟨n, rfl⟩ := Nat.exists_eq_add_of_lt hk
  simp only [Nat.zero_add] at *
  unfold push
  rw [recent_length]
  by_cases hl : h.length < n + 1
  · have hall : h.take (n + 1) = h := List.take_of_length_le (by omega)
    have hall' : h.take n = h := List.take_of_length_le (by omega)
    rw [if_pos (by omega)]
    simp [recent, hall, hall']
  · rw [if_neg (by omega)]
    have htail : (recent (n + 1) h).tail = recent n h := by
      have hlen : (h.take (n + 1)).length = n + 1 := by simp only [List.length_take]; omega
      rw [recent, recent, List.tail_reverse, List.dropLast_eq_take, hlen, List.take_take,
        Nat.add_sub_cancel, Nat.min_eq_left (Nat.le_succ n)]
    rw [htail]
    simp [recent]

theorem push_map (k : ℕ) (f : α → β) (l : List α) (x : α) :
    push k (l.map f) (f x) = (push k l x).map f := by
  unfold push
  rw [List.length_map]
  split_ifs <;> simp

theorem recent_head {n : ℕ} {h : List α} (hh : n + 1 ≤ h.length) :
    (recent (n + 1) h).head? = h[n]? := by
  simp only [recent, List.head?_reverse, List.getLast?_take]
  rw [if_neg (by omega)]
  simp [List.getElem?_eq_getElem (show n < h.length by omega)]

end BmsFirmware.Lib.Recent
