import OtelviewPostgres.Model.MetricSearch

/-!
# One series, two notions

The statement partitions points by the value of their attributes, the pass over its result
groups them by the text. The text tells numbers apart that the value does not: attributes
with `1` and with `1.0` are one partition and two groups. Nothing else separates the two.
-/

namespace OtelviewPostgres

open Relational

section Series

variable (floatDigits : F64 → Jsonb.Numeric) (p p' : StoredPoint)

lemma samePartition_iff :
    samePartition floatDigits p p' = true ↔ p.row.service = p'.row.service ∧
      (p.row.attributes.toJsonb floatDigits).eqv (p'.row.attributes.toJsonb floatDigits) = true := by
  rw [samePartition, Bool.and_eq_true, beq_iff_eq]

lemma seriesKey_eq_iff :
    seriesKey floatDigits p = seriesKey floatDigits p' ↔ p.row.service = p'.row.service ∧
      p.row.attributes.toJsonb floatDigits = p'.row.attributes.toJsonb floatDigits := by
  rw [seriesKey, seriesKey, Prod.mk.injEq, seriesAttrs, seriesAttrs, Jsonb.Value.text_inj]

lemma samePartition_of_seriesKey_eq {p p' : StoredPoint} (h : seriesKey floatDigits p = seriesKey floatDigits p') :
    samePartition floatDigits p p' = true := by
  obtain ⟨hservice, hattrs⟩ := (seriesKey_eq_iff floatDigits p p').mp h
  exact (samePartition_iff floatDigits p p').mpr ⟨hservice, by rw [hattrs, Jsonb.Value.eqv_self]⟩

/-- Partitions and groups agree on two points unless these have equal attributes, in one
service, with some number written with other digits. -/
theorem partition_iff_group_iff :
    (samePartition floatDigits p p' = true ↔ seriesKey floatDigits p = seriesKey floatDigits p') ↔
      (p.row.service = p'.row.service →
        (p.row.attributes.toJsonb floatDigits).eqv (p'.row.attributes.toJsonb floatDigits) = true →
        (p.row.attributes.toJsonb floatDigits).numbersAlike (p'.row.attributes.toJsonb floatDigits) = true) := by
  constructor
  · intro h hservice heqv
    have hkey := h.mp ((samePartition_iff floatDigits p p').mpr ⟨hservice, heqv⟩)
    rw [((seriesKey_eq_iff floatDigits p p').mp hkey).2]
    exact Jsonb.Value.numbersAlike_self _
  · intro h
    constructor
    · intro hsame
      obtain ⟨hservice, heqv⟩ := (samePartition_iff floatDigits p p').mp hsame
      have hattrs := Jsonb.Value.eq_of_eqv_of_numbersAlike heqv (h hservice heqv)
      exact (seriesKey_eq_iff floatDigits p p').mpr ⟨hservice, hattrs⟩
    · exact samePartition_of_seriesKey_eq floatDigits

end Series

/-- A gauge with one point for each attribute list, at one point in time. -/
def gaugeOf (attributes : List (List KeyValue)) : MetricsData where
  resourceMetrics := [{ scopeMetrics := [{ metrics := [{
    name := "m"
    data := some (.gauge { dataPoints := attributes.map fun kvs => { attributes := kvs } }) }] }] }]

/-- A server that stores the double `1.0` with one fractional digit, as it is written. -/
def Externals.tenths : Externals := { Externals.inert with floatDigits := fun _ => ⟨10, 1⟩ }

/-- Two points that differ in `1` and `1.0` share a partition but no group. -/
theorem integer_and_double_split_series :
    ∃ p ∈ (writeMetrics .tenths {} (gaugeOf [[⟨"k", some (.intValue 1)⟩],
        [⟨"k", some (.doubleValue ⟨0x3ff0000000000000⟩)⟩]]) ∅).2.rows,
      ∃ p' ∈ (writeMetrics .tenths {} (gaugeOf [[⟨"k", some (.intValue 1)⟩],
        [⟨"k", some (.doubleValue ⟨0x3ff0000000000000⟩)⟩]]) ∅).2.rows,
        samePartition Externals.tenths.floatDigits p p' = true ∧
          seriesKey Externals.tenths.floatDigits p ≠ seriesKey Externals.tenths.floatDigits p' := by
  refine ⟨_, List.mem_cons_self, _, List.mem_cons_of_mem _ List.mem_cons_self, by decide, by decide⟩

end OtelviewPostgres
