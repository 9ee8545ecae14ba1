import Mathlib.Data.List.Basic
import Mathlib.Data.Nat.ModEq

namespace BmsFirmware.Lib.Ring

variable {α : Type}

inductive Op (α : Type) where
  | none
  | put (x : α)
  | take (x : α)

inductive FifoStep (capacity : ℕ) : List α → Op α → List α → Prop
  | none (l : List α) : FifoStep capacity l .none l
  | put {l : List α} (x : α) : l.length < capacity → FifoStep capacity l (.put x) (l ++ [x])
  | take (x : α) (l : List α) : FifoStep capacity (x :: l) (.take x) l

def puts : List (Op α) → List α
  | [] => []
  | .put x :: ops => puts ops ++ [x]
  | .none :: ops => puts ops
  | .take _ :: ops => puts ops

def takes : List (Op α) → List α
  | [] => []
  | .take x :: ops => takes ops ++ [x]
  | .none :: ops => takes ops
  | .put _ :: ops => takes ops

/-- Nothing is lost, duplicated or reordered: what was put in is what was taken
out and then what is still there. -/
theorem FifoStep.conserves {capacity : ℕ} {l l' : List α} {op : Op α}
    (h : FifoStep capacity l op l') {ops : List (Op α)} (hl : puts ops = takes ops ++ l) :
    puts (op :: ops) = takes (op :: ops) ++ l' := by
  cases h with
  | none l => exact hl
  | put x _ => simp only [puts, takes, hl, List.append_assoc]
  | take x l => simp only [puts, takes, hl, List.append_assoc, List.singleton_append]

theorem FifoStep.level {capacity n : ℕ} {l l' : List α} {op : Op α}
    (h : FifoStep capacity l op l') {ops : List (Op α)}
    (hl : l.length + (takes ops).length = n + (puts ops).length) :
    l'.length + (takes (op :: ops)).length = n + (puts (op :: ops)).length := by
  cases h with
  | none l => exact hl
  | put x _ =>
    simp only [puts, takes, List.length_append, List.length_singleton]
    omega
  | take x l =>
    simp only [puts, takes, List.length_append, List.length_cons, List.length_nil] at hl ⊢
    omega

def contents (slot : ℕ → α) (capacity head count : ℕ) : List α :=
  (List.range count).map fun i ↦ slot ((head + i) % capacity)

theorem contents_length (slot : ℕ → α) (capacity head count : ℕ) :
    (contents slot capacity head count).length = count := by
  rw [contents, List.length_map, List.length_range]

/-- The slot behind the contents is none of theirs. -/
theorem slot_ne {capacity count : ℕ} (hc : count < capacity) (head : ℕ) {i : ℕ} (hi : i < count) :
    (head + i) % capacity ≠ (head + count) % capacity := by
  intro heq
  have hmod : i % capacity = count % capacity := Nat.ModEq.add_left_cancel' head heq
  rw [Nat.mod_eq_of_lt hc, Nat.mod_eq_of_lt (hi.trans hc)] at hmod
  omega

theorem contents_put {slot slot' : ℕ → α} {capacity head count : ℕ} (hc : count < capacity)
    (hsame : ∀ s, s ≠ (head + count) % capacity → slot' s = slot s) :
    contents slot' capacity head (count + 1) =
      contents slot capacity head count ++ [slot' ((head + count) % capacity)] := by
  have hold : contents slot' capacity head count = contents slot capacity head count := by
    refine List.map_congr_left fun i hi ↦ hsame _ ?_
    exact slot_ne hc head (List.mem_range.mp hi)
  rw [← hold, contents, List.range_succ, List.map_append]
  rfl

theorem contents_take (slot : ℕ → α) {capacity head : ℕ} (hh : head < capacity) (count : ℕ) :
    contents slot capacity head (count + 1) =
      slot head :: contents slot capacity ((head + 1) % capacity) count := by
  have hnext (i : ℕ) : (head + (i + 1)) % capacity = ((head + 1) % capacity + i) % capacity := by
    rw [Nat.mod_add_mod, Nat.add_assoc, Nat.add_comm 1 i]
  rw [contents, List.range_succ_eq_map, List.map_cons, List.map_map, Nat.add_zero,
    Nat.mod_eq_of_lt hh]
  exact congrArg (slot head :: ·) (List.map_congr_left fun i _ ↦ congrArg slot (hnext i))

end BmsFirmware.Lib.Ring
