import Mathlib.Algebra.Order.Field.Basic
import Mathlib.Algebra.Order.Field.Rat
import Mathlib.Data.List.Nodup
import Mathlib.Data.List.Pairwise
import Mathlib.Data.Nat.Cast.Order.Ring
import Mathlib.Order.Nat
import Mathlib.Tactic.FieldSimp
import Mathlib.Tactic.Linarith
import Mathlib.Tactic.Ring

namespace BmsFirmware.Lib.Interpolation

structure Point where
  x : ℕ
  y : ℕ
deriving DecidableEq

def Rises (p q : Point) : Prop := p.x < q.x ∧ p.y ≤ q.y

instance (p q : Point) : Decidable (Rises p q) := inferInstanceAs (Decidable (_ ∧ _))

def between (lo hi : Point) (x : ℕ) : ℕ := lo.y + (hi.y - lo.y) * (x - lo.x) / (hi.x - lo.x)

def line (lo hi : Point) (x : ℕ) : ℚ :=
  lo.y + ((hi.y : ℚ) - lo.y) * ((x : ℚ) - lo.x) / ((hi.x : ℚ) - lo.x)

section Between

variable {lo hi : Point} {x x' : ℕ}

theorem between_left : between lo hi lo.x = lo.y := by
  rw [between, Nat.sub_self, Nat.mul_zero, Nat.zero_div, Nat.add_zero]

theorem between_right (h : Rises lo hi) : between lo hi hi.x = hi.y := by
  have hspan : 0 < hi.x - lo.x := Nat.sub_pos_of_lt h.1
  rw [between, Nat.mul_div_cancel _ hspan, Nat.add_sub_cancel' h.2]

theorem le_between : lo.y ≤ between lo hi x := Nat.le_add_right _ _

theorem between_mono (h : x ≤ x') : between lo hi x ≤ between lo hi x' := by
  refine Nat.add_le_add_left (Nat.div_le_div_right ?_) _
  exact Nat.mul_le_mul_left _ (Nat.sub_le_sub_right h _)

theorem between_le (h : Rises lo hi) (hx : x ≤ hi.x) : between lo hi x ≤ hi.y :=
  (between_mono hx).trans (between_right h).le

/-- Truncation stays on the line or falls less than one below it. -/
theorem between_near (h : Rises lo hi) (hx : lo.x ≤ x) :
    (between lo hi x : ℚ) ≤ line lo hi x ∧ line lo hi x < between lo hi x + 1 := by
  have hspan : 0 < hi.x - lo.x := Nat.sub_pos_of_lt h.1
  have hline : line lo hi x =
      lo.y + ((hi.y - lo.y) * (x - lo.x) : ℕ) / ((hi.x - lo.x : ℕ) : ℚ) := by
    rw [line, Nat.cast_mul, Nat.cast_sub h.2, Nat.cast_sub hx, Nat.cast_sub h.1.le]
  have hpos : (0 : ℚ) < (hi.x - lo.x : ℕ) := Nat.cast_pos.mpr hspan
  rw [hline, between, Nat.cast_add]
  generalize (hi.y - lo.y) * (x - lo.x) = a
  generalize hi.x - lo.x = w at hspan hpos ⊢
  have hle : ((a / w : ℕ) : ℚ) ≤ (a : ℚ) / w := by
    rw [le_div_iff₀ hpos]
    exact_mod_cast Nat.div_mul_le_self a w
  have hlt : (a : ℚ) / w < (a / w : ℕ) + 1 := by
    rw [div_lt_iff₀ hpos, mul_comm]
    exact_mod_cast Nat.lt_mul_div_succ a hspan
  constructor
  · linarith
  · linarith

end Between

def search (x : ℕ) : List Point → Option ℕ
  | lo :: hi :: rest =>
    if lo.x ≤ x ∧ x ≤ hi.x then some (between lo hi x) else search x (hi :: rest)
  | _ => none

section Search

variable {t : List Point} {p lo hi : Point} {rest : List Point} {x x' v v' : ℕ}

theorem Rises.first (h : (lo :: hi :: rest).Pairwise Rises) : Rises lo hi :=
  List.rel_of_pairwise_cons h List.mem_cons_self

theorem search_hit (h : lo.x ≤ x ∧ x ≤ hi.x) :
    search x (lo :: hi :: rest) = some (between lo hi x) := if_pos h

theorem search_skip (h : hi.x < x) :
    search x (lo :: hi :: rest) = search x (hi :: rest) :=
  if_neg fun hin ↦ absurd hin.2 h.not_ge

/-- Whatever the search returns comes from two neighbours around `x`. -/
theorem search_segment (h : search x t = some v) :
    ∃ front lo hi rest, t = front ++ lo :: hi :: rest ∧ lo.x ≤ x ∧ x ≤ hi.x ∧
      v = between lo hi x := by
  induction t with
  | nil => cases h
  | cons lo t ih =>
    cases t with
    | nil => cases h
    | cons hi rest =>
      rw [search] at h
      split_ifs at h with hin
      · exact ⟨[], lo, hi, rest, rfl, hin.1, hin.2, (Option.some.inj h).symm⟩
      · obtain ⟨front, lo', hi', rest', heq, hseg⟩ := ih h
        exact ⟨lo :: front, lo', hi', rest', congrArg (List.cons lo) heq, hseg⟩

theorem head_le_of_search (hs : (p :: rest).Pairwise Rises)
    (h : search x (p :: rest) = some v) : p.x ≤ x ∧ p.y ≤ v := by
  induction rest generalizing p with
  | nil => cases h
  | cons hi rest ih =>
    rw [search] at h
    split_ifs at h with hin
    · obtain rfl := Option.some.inj h
      exact ⟨hin.1, le_between⟩
    · have hrise := Rises.first hs
      obtain ⟨hx, hv⟩ := ih (List.pairwise_cons.mp hs).2 h
      exact ⟨hrise.1.le.trans hx, hrise.2.trans hv⟩

/-- Between the first and the last breakpoint the search does not come to its end. -/
theorem exists_search (hs : (p :: rest).Pairwise Rises) (hne : rest ≠ [])
    (hlo : p.x ≤ x) (hhi : x ≤ ((p :: rest).getLast (List.cons_ne_nil p rest)).x) :
    ∃ v, search x (p :: rest) = some v := by
  induction rest generalizing p with
  | nil => exact absurd rfl hne
  | cons hi rest ih =>
    by_cases hin : x ≤ hi.x
    · exact ⟨_, search_hit ⟨hlo, hin⟩⟩
    · have hlt := Nat.lt_of_not_le hin
      rw [search_skip hlt]
      have hrest : rest ≠ [] := by
        rintro rfl
        exact hin hhi
      exact ih (List.pairwise_cons.mp hs).2 hrest hlt.le hhi

theorem search_mono (hs : t.Pairwise Rises) (hx : x ≤ x') (h : search x t = some v)
    (h' : search x' t = some v') : v ≤ v' := by
  induction t with
  | nil => cases h
  | cons lo t ih =>
    cases t with
    | nil => cases h
    | cons hi rest =>
      have hrest := (List.pairwise_cons.mp hs).2
      rw [search] at h h'
      split_ifs at h with hin
      · obtain rfl := Option.some.inj h
        split_ifs at h' with hin'
        · exact Option.some.inj h' ▸ between_mono hx
        · exact (between_le (Rises.first hs) hin.2).trans (head_le_of_search hrest h').2
      · have hlo := (head_le_of_search hrest h).1
        have hgt : hi.x ≤ x' := hlo.trans hx
        split_ifs at h' with hin'
        · -- both readings sit on the breakpoint `hi`, where the first segment ends
          have heq : x = hi.x := le_antisymm (hx.trans hin'.2) hlo
          exact absurd ⟨heq ▸ (Rises.first hs).1.le, heq.le⟩ hin
        · exact ih hrest h h'

end Search

def lookup (t : List Point) (hne : t ≠ []) (x : ℕ) : ℕ :=
  if x ≤ (t.head hne).x then (t.head hne).y
  else if (t.getLast hne).x ≤ x then (t.getLast hne).y
  else (search x t).getD 0

section Lookup

variable {t : List Point} {x x' : ℕ}

theorem le_last (hs : t.Pairwise Rises) (hne : t ≠ []) {p : Point} (hp : p ∈ t) :
    p.x ≤ (t.getLast hne).x ∧ p.y ≤ (t.getLast hne).y := by
  rw [← List.dropLast_append_getLast hne, List.pairwise_append] at hs
  rw [← List.dropLast_append_getLast hne] at hp
  rcases List.mem_append.mp hp with hp | hp
  · have hrise := hs.2.2 p hp _ (List.mem_singleton.mpr rfl)
    exact ⟨hrise.1.le, hrise.2⟩
  · obtain rfl := List.mem_singleton.mp hp
    exact ⟨le_rfl, le_rfl⟩

theorem head_le (hs : t.Pairwise Rises) (hne : t ≠ []) {p : Point} (hp : p ∈ t) :
    (t.head hne).x ≤ p.x ∧ (t.head hne).y ≤ p.y := by
  obtain ⟨q, rest, rfl⟩ := List.exists_cons_of_ne_nil hne
  rcases List.mem_cons.mp hp with rfl | hp
  · exact ⟨le_rfl, le_rfl⟩
  · have hrise := List.rel_of_pairwise_cons hs hp
    exact ⟨hrise.1.le, hrise.2⟩

/-- The three ways through a lookup; the search always finds its segment. -/
inductive LookedUp (t : List Point) (hne : t ≠ []) (x : ℕ) : ℕ → Prop
  | below (h : x ≤ (t.head hne).x) : LookedUp t hne x (t.head hne).y
  | above (h : (t.head hne).x < x) (h' : (t.getLast hne).x ≤ x) :
      LookedUp t hne x (t.getLast hne).y
  | inside (h : (t.head hne).x < x) (h' : x < (t.getLast hne).x) (v : ℕ)
      (hv : search x t = some v) : LookedUp t hne x v

theorem lookup_lookedUp (hs : t.Pairwise Rises) (hne : t ≠ []) (x : ℕ) :
    LookedUp t hne x (lookup t hne x) := by
  unfold lookup
  split_ifs with hlo hhi
  · exact .below hlo
  · exact .above (Nat.lt_of_not_le hlo) hhi
  · have hlt := Nat.lt_of_not_le hlo
    have hgt := Nat.lt_of_not_le hhi
    obtain ⟨p, rest, rfl⟩ := List.exists_cons_of_ne_nil hne
    have hrest : rest ≠ [] := by
      rintro rfl
      exact absurd (hlt.trans hgt) (lt_irrefl _)
    obtain ⟨v, hv⟩ := exists_search hs hrest hlt.le hgt.le
    rw [hv]
    exact .inside hlt hgt v hv

theorem search_le_last (hs : t.Pairwise Rises) (hne : t ≠ []) {v : ℕ} (h : search x t = some v) :
    v ≤ (t.getLast hne).y := by
  obtain ⟨front, lo, hi, rest, heq, hlo, hhi, rfl⟩ := search_segment h
  have hsub : (lo :: hi :: rest).Pairwise Rises :=
    hs.sublist (heq ▸ List.sublist_append_right front _)
  have hmem : hi ∈ t := heq ▸ List.mem_append_right _ (List.mem_cons_of_mem _ List.mem_cons_self)
  exact (between_le (Rises.first hsub) hhi).trans (le_last hs hne hmem).2

theorem head_le_search (hs : t.Pairwise Rises) (hne : t ≠ []) {v : ℕ} (h : search x t = some v) :
    (t.head hne).y ≤ v := by
  obtain ⟨p, rest, rfl⟩ := List.exists_cons_of_ne_nil hne
  exact (head_le_of_search hs h).2

theorem LookedUp.le_last {hne : t ≠ []} {v : ℕ} (hs : t.Pairwise Rises)
    (h : LookedUp t hne x v) : v ≤ (t.getLast hne).y := by
  cases h with
  | below h => exact (Interpolation.le_last hs hne (List.head_mem hne)).2
  | above h h' => exact le_rfl
  | inside h h' _ hv => exact search_le_last hs hne hv

theorem LookedUp.head_le {hne : t ≠ []} {v : ℕ} (hs : t.Pairwise Rises)
    (h : LookedUp t hne x v) : (t.head hne).y ≤ v := by
  cases h with
  | below h => exact le_rfl
  | above h h' => exact (Interpolation.head_le hs hne (List.getLast_mem hne)).2
  | inside h h' _ hv => exact head_le_search hs hne hv

theorem LookedUp.mono {hne : t ≠ []} {v v' : ℕ} (hs : t.Pairwise Rises) (hx : x ≤ x')
    (h : LookedUp t hne x v) (h' : LookedUp t hne x' v') : v ≤ v' := by
  cases h with
  | below _ => exact h'.head_le hs
  | above hlo hhi =>
    cases h' with
    | below h₁ => exact absurd (hlo.trans_le hx) h₁.not_gt
    | above _ _ => exact le_rfl
    | inside _ h₂ _ _ => exact absurd (hhi.trans hx) h₂.not_ge
  | inside hlo hhi _ hv =>
    cases h' with
    | below h₁ => exact absurd (hlo.trans_le hx) h₁.not_gt
    | above _ _ => exact search_le_last hs hne hv
    | inside _ _ _ hv' => exact search_mono hs hx hv hv'

theorem lookup_le_last (hs : t.Pairwise Rises) (hne : t ≠ []) (x : ℕ) :
    lookup t hne x ≤ (t.getLast hne).y :=
  (lookup_lookedUp hs hne x).le_last hs

theorem lookup_mono (hs : t.Pairwise Rises) (hne : t ≠ []) (hx : x ≤ x') :
    lookup t hne x ≤ lookup t hne x' :=
  (lookup_lookedUp hs hne x).mono hs hx (lookup_lookedUp hs hne x')

/-- Two segments meet in their breakpoint and agree there. -/
theorem search_breakpoint (hs : t.Pairwise Rises) {p : Point} (hp : p ∈ t) {v : ℕ}
    (h : search p.x t = some v) : v = p.y := by
  obtain ⟨front, lo, hi, rest, rfl, hlo, hhi, rfl⟩ := search_segment h
  obtain ⟨_, hseg, hfront⟩ := List.pairwise_append.mp hs
  obtain ⟨hlow, hrest⟩ := List.pairwise_cons.mp hseg
  rcases List.mem_append.mp hp with hp | hp
  · exact absurd hlo (hfront p hp lo List.mem_cons_self).1.not_ge
  · rcases List.mem_cons.mp hp with rfl | hp
    · exact between_left
    · rcases List.mem_cons.mp hp with rfl | hp
      · exact between_right (hlow p List.mem_cons_self)
      · exact absurd hhi (List.rel_of_pairwise_cons hrest hp).1.not_ge

theorem eq_of_x_eq (hs : t.Pairwise Rises) {p q : Point} (hp : p ∈ t) (hq : q ∈ t)
    (hx : p.x = q.x) : p = q := by
  have hnodup : (t.map Point.x).Nodup := List.pairwise_map.mpr (hs.imp fun h ↦ h.1.ne)
  exact List.inj_on_of_nodup_map hnodup hp hq hx

theorem lookup_breakpoint (hs : t.Pairwise Rises) (hne : t ≠ []) {p : Point} (hp : p ∈ t) :
    lookup t hne p.x = p.y := by
  have hlook := lookup_lookedUp hs hne p.x
  generalize lookup t hne p.x = v at hlook ⊢
  cases hlook with
  | below h =>
    have hx := le_antisymm (head_le hs hne hp).1 h
    exact congrArg Point.y (eq_of_x_eq hs (List.head_mem hne) hp hx)
  | above _ h =>
    have hx := le_antisymm h (le_last hs hne hp).1
    exact congrArg Point.y (eq_of_x_eq hs (List.getLast_mem hne) hp hx)
  | inside _ _ _ hv => exact search_breakpoint hs hp hv

end Lookup

end BmsFirmware.Lib.Interpolation
