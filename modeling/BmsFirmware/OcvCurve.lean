import BmsFirmware.Lib.Interpolation
import BmsFirmware.SocEstimator

namespace BmsFirmware

open Lib.Interpolation

def OcvPoint.point (p : OcvPoint) : Point where
  x := p.mv.toNat
  y := p.percentX2.toNat

namespace SocEstimator

/-- Voltages strictly increase along the table, percentages do not decrease. -/
def Calibrated (table : List OcvPoint) : Prop :=
  table.Pairwise fun p q ↦ p.mv < q.mv ∧ p.percentX2 ≤ q.percentX2

instance (table : List OcvPoint) : Decidable (Calibrated table) :=
  inferInstanceAs (Decidable (List.Pairwise _ _))

theorem ocvTable_calibrated : Calibrated ocvTable := by decide

theorem Calibrated.rises {table : List OcvPoint} (h : Calibrated table) :
    (table.map OcvPoint.point).Pairwise Rises :=
  List.pairwise_map.mpr (h.imp fun h ↦ ⟨UInt16.lt_iff_toNat_lt.mp h.1,
    UInt8.le_iff_toNat_le.mp h.2⟩)

def ocvSegment (avgCellMv : UInt16) : List OcvPoint → Option (OcvPoint × OcvPoint)
  | lo :: hi :: rest =>
    if avgCellMv ≥ lo.mv ∧ avgCellMv ≤ hi.mv then some (lo, hi)
    else ocvSegment avgCellMv (hi :: rest)
  | _ => none

def ocvProduct (lo hi : OcvPoint) (avgCellMv : UInt16) : Int32 :=
  (.ofNat hi.percentX2.toNat - .ofNat lo.percentX2.toNat) *
    (.ofNat avgCellMv.toNat - .ofNat lo.mv.toNat)

variable {lo hi : OcvPoint} {table : List OcvPoint} {v v' : UInt16}

theorem ocvSearch_segment (v : UInt16) (table : List OcvPoint) :
    ocvSearch v table = ((ocvSegment v table).map fun s ↦ ocvInterpolate s.1 s.2 v).getD 0 := by
  induction table with
  | nil => rfl
  | cons lo table ih =>
    cases table with
    | nil => rfl
    | cons hi rest =>
      rw [ocvSearch, ocvSegment]
      split_ifs with hin
      · rfl
      · exact ih

theorem search_segments (v : UInt16) (table : List OcvPoint) :
    search v.toNat (table.map OcvPoint.point) =
      (ocvSegment v table).map fun s ↦ between s.1.point s.2.point v.toNat := by
  induction table with
  | nil => rfl
  | cons lo table ih =>
    cases table with
    | nil => rfl
    | cons hi rest =>
      have hiff : (lo.point.x ≤ v.toNat ∧ v.toNat ≤ hi.point.x) ↔ v ≥ lo.mv ∧ v ≤ hi.mv :=
        and_congr UInt16.le_iff_toNat_le.symm UInt16.le_iff_toNat_le.symm
      rw [List.map_cons, List.map_cons, search, ocvSegment]
      simp only [hiff]
      split_ifs with hin
      · rfl
      · exact ih

theorem ocvSegment_enclosing (h : ocvSegment v table = some (lo, hi)) :
    ∃ front rest, table = front ++ lo :: hi :: rest ∧ lo.mv ≤ v ∧ v ≤ hi.mv := by
  induction table with
  | nil => cases h
  | cons p table ih =>
    cases table with
    | nil => cases h
    | cons q rest =>
      rw [ocvSegment] at h
      split_ifs at h with hin
      · obtain ⟨rfl, rfl⟩ := Prod.mk.inj (Option.some.inj h)
        exact ⟨[], rest, rfl, hin⟩
      · obtain ⟨front, rest', heq, hseg⟩ := ih h
        exact ⟨p :: front, rest', congrArg (List.cons p) heq, hseg⟩

theorem Calibrated.segment_rises (hs : Calibrated table)
    (h : ocvSegment v table = some (lo, hi)) : Rises lo.point hi.point := by
  obtain ⟨front, rest, rfl, _⟩ := ocvSegment_enclosing h
  have hrise := List.rel_of_pairwise_cons (List.pairwise_append.mp hs).2.1 List.mem_cons_self
  exact ⟨UInt16.lt_iff_toNat_lt.mp hrise.1, UInt8.le_iff_toNat_le.mp hrise.2⟩

theorem mul_lt_int32 {a b : ℕ} (ha : a < 256) (hb : b < 65536) : a * b < 2 ^ 31 :=
  calc a * b ≤ 255 * 65535 := Nat.mul_le_mul (by omega) (by omega)
    _ < 2 ^ 31 := by decide

theorem ocvProduct_eq (h : Rises lo.point hi.point) (hlo : lo.mv ≤ v) : ocvProduct lo hi v =
    .ofNat ((hi.percentX2.toNat - lo.percentX2.toNat) * (v.toNat - lo.mv.toNat)) := by
  have hx : lo.mv.toNat ≤ v.toNat := UInt16.le_iff_toNat_le.mp hlo
  have hy : lo.percentX2.toNat ≤ hi.percentX2.toNat := h.2
  rw [Int32.ofNat_mul, Int32.ofNat_sub _ _ hy, Int32.ofNat_sub _ _ hx]
  rfl

theorem ocvProduct_toInt (h : Rises lo.point hi.point) (hlo : lo.mv ≤ v) :
    (ocvProduct lo hi v).toInt =
      ((hi.percentX2.toNat - lo.percentX2.toNat) * (v.toNat - lo.mv.toNat) : ℕ) := by
  have hp := hi.percentX2.toNat_lt
  have hv := v.toNat_lt
  rw [ocvProduct_eq h hlo]
  exact Int32.toInt_ofNat_of_lt (mul_lt_int32 (by omega) (by omega))

theorem ocvInterpolate_toNat (h : Rises lo.point hi.point) (hlo : lo.mv ≤ v) (hhi : v ≤ hi.mv) :
    (ocvInterpolate lo hi v).toNat = between lo.point hi.point v.toNat := by
  have hp := hi.percentX2.toNat_lt
  have hm := hi.mv.toNat_lt
  have hv := v.toNat_lt
  have hlt := mul_lt_int32 (show hi.percentX2.toNat - lo.percentX2.toNat < 256 by omega)
    (show v.toNat - lo.mv.toNat < 65536 by omega)
  have hle : between lo.point hi.point v.toNat ≤ hi.percentX2.toNat :=
    between_le h (UInt16.le_iff_toNat_le.mp hhi)
  have hexact : ocvInterpolate lo hi v =
      (Int32.ofNat (between lo.point hi.point v.toNat)).toUInt32.toUInt8 := by
    have hdef : ocvInterpolate lo hi v = (Int32.ofNat lo.percentX2.toNat + ocvProduct lo hi v /
        (Int32.ofNat hi.mv.toNat - Int32.ofNat lo.mv.toNat)).toUInt32.toUInt8 := rfl
    have hspan : lo.mv.toNat ≤ hi.mv.toNat := h.1.le
    rw [hdef, ocvProduct_eq h hlo, ← Int32.ofNat_sub _ _ hspan,
      ← Int32.ofNat_div hlt (by omega), ← Int32.ofNat_add]
    rfl
  rw [hexact, Int32.toUInt32_ofNat', UInt32.toNat_toUInt8, UInt32.toNat_ofNat']
  omega

theorem map_ne_nil {table : List OcvPoint} (hne : table ≠ []) :
    table.map OcvPoint.point ≠ [] := mt List.map_eq_nil_iff.mp hne

/-- The lookup of the code is the truncated curve through its breakpoints. -/
theorem ocvLookup_toNat (hs : Calibrated table) (hne : table ≠ []) (v : UInt16) :
    (ocvLookup table hne v).toNat =
      lookup (table.map OcvPoint.point) (map_ne_nil hne) v.toNat := by
  have hhead : (table.map OcvPoint.point).head (map_ne_nil hne) = (table.head hne).point :=
    List.head_map ..
  have hlast : (table.map OcvPoint.point).getLast (map_ne_nil hne) = (table.getLast hne).point :=
    List.getLast_map ..
  have hbelow : v.toNat ≤ (table.head hne).point.x ↔ v ≤ (table.head hne).mv :=
    UInt16.le_iff_toNat_le.symm
  have habove : (table.getLast hne).point.x ≤ v.toNat ↔ v ≥ (table.getLast hne).mv :=
    UInt16.le_iff_toNat_le.symm
  rw [ocvLookup, lookup, hhead, hlast, search_segments, ocvSearch_segment]
  simp only [hbelow, habove]
  split_ifs with hlo hhi
  · rfl
  · rfl
  · cases hseg : ocvSegment v table with
    | none => rfl
    | some s =>
      obtain ⟨_, _, _, hle, hge⟩ := ocvSegment_enclosing hseg
      exact ocvInterpolate_toNat (hs.segment_rises hseg) hle hge

theorem ocvLookup_mono (hs : Calibrated table) (hne : table ≠ []) (h : v ≤ v') :
    ocvLookup table hne v ≤ ocvLookup table hne v' := by
  rw [UInt8.le_iff_toNat_le, ocvLookup_toNat hs, ocvLookup_toNat hs]
  exact lookup_mono hs.rises (map_ne_nil hne) (UInt16.le_iff_toNat_le.mp h)

theorem ocvLookup_le_last (hs : Calibrated table) (hne : table ≠ []) (v : UInt16) :
    ocvLookup table hne v ≤ (table.getLast hne).percentX2 := by
  have hle := lookup_le_last hs.rises (map_ne_nil hne) v.toNat
  rw [List.getLast_map] at hle
  rw [UInt8.le_iff_toNat_le, ocvLookup_toNat hs]
  exact hle

theorem ocvLookup_breakpoint (hs : Calibrated table) (hne : table ≠ []) {p : OcvPoint}
    (hp : p ∈ table) : ocvLookup table hne p.mv = p.percentX2 := by
  rw [← UInt8.toNat_inj, ocvLookup_toNat hs]
  exact lookup_breakpoint hs.rises (map_ne_nil hne) (List.mem_map_of_mem hp)

/-- Inside the table the loop returns from one of its segments. -/
theorem exists_segment (hs : Calibrated table) (hne : table ≠ []) (hlo : (table.head hne).mv < v)
    (hhi : v < (table.getLast hne).mv) : ∃ lo hi, ocvSegment v table = some (lo, hi) ∧
      ocvLookup table hne v = ocvInterpolate lo hi v := by
  have hlook := lookup_lookedUp hs.rises (map_ne_nil hne) v.toNat
  rw [UInt16.lt_iff_toNat_lt] at hlo hhi
  have hseg : ∃ s, ocvSegment v table = some s := by
    generalize lookup (table.map OcvPoint.point) (map_ne_nil hne) v.toNat = n at hlook
    cases hlook with
    | below h =>
      rw [List.head_map] at h
      exact absurd hlo (Nat.not_lt.mpr h)
    | above _ h =>
      rw [List.getLast_map] at h
      exact absurd hhi (Nat.not_lt.mpr h)
    | inside _ _ _ hv =>
      rw [search_segments] at hv
      exact (Option.map_eq_some_iff.mp hv).imp fun _ h ↦ h.1
  obtain ⟨⟨lo, hi⟩, hseg⟩ := hseg
  refine ⟨lo, hi, hseg, ?_⟩
  rw [ocvLookup, if_neg (UInt16.not_le.mpr (UInt16.lt_iff_toNat_lt.mpr hlo)),
    if_neg (UInt16.not_le.mpr (UInt16.lt_iff_toNat_lt.mpr hhi)), ocvSearch_segment, hseg]
  rfl

structure Interpolated (table : List OcvPoint) (v : UInt16) (value : UInt8) (lo hi : OcvPoint) :
    Prop where
  found : ocvSegment v table = some (lo, hi)
  neighbours : ∃ front rest, table = front ++ lo :: hi :: rest
  encloses : lo.mv ≤ v ∧ v ≤ hi.mv
  span_pos : lo.mv < hi.mv
  returned : value = ocvInterpolate lo hi v
  product : (ocvProduct lo hi v).toInt =
    ((hi.percentX2.toNat - lo.percentX2.toNat) * (v.toNat - lo.mv.toNat) : ℕ)
  cast : value.toNat = lo.percentX2.toNat + (hi.percentX2.toNat - lo.percentX2.toNat) *
    (v.toNat - lo.mv.toNat) / (hi.mv.toNat - lo.mv.toNat)
  bounds : lo.percentX2 ≤ value ∧ value ≤ hi.percentX2
  near : (value.toNat : ℚ) ≤ line lo.point hi.point v.toNat ∧
    line lo.point hi.point v.toNat < value.toNat + 1

theorem interpolated_inside (hs : Calibrated table) (hne : table ≠ [])
    (hlo : (table.head hne).mv < v) (hhi : v < (table.getLast hne).mv) :
    ∃ lo hi, Interpolated table v (ocvLookup table hne v) lo hi := by
  obtain ⟨lo, hi, hseg, hvalue⟩ := exists_segment hs hne hlo hhi
  obtain ⟨front, rest, htable, hle, hge⟩ := ocvSegment_enclosing hseg
  have hrise := hs.segment_rises hseg
  have hexact := ocvInterpolate_toNat hrise hle hge
  have hle' : lo.point.x ≤ v.toNat := UInt16.le_iff_toNat_le.mp hle
  refine ⟨lo, hi, hseg, ⟨front, rest, htable⟩, ⟨hle, hge⟩, UInt16.lt_iff_toNat_lt.mpr hrise.1,
    hvalue, ocvProduct_toInt hrise hle, ?_, ?_, ?_⟩
  · rw [hvalue, hexact]
    rfl
  · have hlow : lo.point.y ≤ between lo.point hi.point v.toNat := le_between
    rw [hvalue, UInt8.le_iff_toNat_le, UInt8.le_iff_toNat_le, hexact]
    exact ⟨hlow, between_le hrise (UInt16.le_iff_toNat_le.mp hge)⟩
  · rw [hvalue, hexact]
    exact between_near hrise hle'

/-- The lookup is the curve through any calibration table: inside the table it comes from
a segment, the ends are level, the breakpoints are hit and the curve never falls. -/
theorem ocv_interpolation_correct (table : List OcvPoint) (hne : table ≠ [])
    (hs : Calibrated table) :
    (∀ v, (table.head hne).mv < v → v < (table.getLast hne).mv →
      ∃ lo hi, Interpolated table v (ocvLookup table hne v) lo hi) ∧
    (∀ v ≤ (table.head hne).mv, ocvLookup table hne v = (table.head hne).percentX2) ∧
    (∀ v ≥ (table.getLast hne).mv, ocvLookup table hne v = (table.getLast hne).percentX2) ∧
    (∀ p ∈ table, ocvLookup table hne p.mv = p.percentX2) ∧
    ∀ v v', v ≤ v' → ocvLookup table hne v ≤ ocvLookup table hne v' := by
  refine ⟨fun v hlo hhi ↦ interpolated_inside hs hne hlo hhi, fun v hv ↦ if_pos hv, fun v hv ↦ ?_,
    fun p hp ↦ ocvLookup_breakpoint hs hne hp, fun v v' h ↦ ocvLookup_mono hs hne h⟩
  have hlast := ocvLookup_breakpoint hs hne (List.getLast_mem hne)
  refine UInt8.le_antisymm (ocvLookup_le_last hs hne v) ?_
  rw [← hlast]
  exact ocvLookup_mono hs hne hv

theorem ocv_interpolation_shipped : Calibrated ocvTable ∧
    ∃ lo hi, Interpolated ocvTable 3650 (ocvLookupPercentX2 3650) lo hi :=
  ⟨ocvTable_calibrated, (ocv_interpolation_correct ocvTable (by decide) ocvTable_calibrated).1 3650
    (by decide) (by decide)⟩

theorem ocvLookupPercentX2_mono (h : v ≤ v') : ocvLookupPercentX2 v ≤ ocvLookupPercentX2 v' :=
  ocvLookup_mono ocvTable_calibrated _ h

theorem ocvLookupPercentX2_le (v : UInt16) : ocvLookupPercentX2 v ≤ 200 :=
  ocvLookup_le_last ocvTable_calibrated _ v

end SocEstimator

end BmsFirmware
