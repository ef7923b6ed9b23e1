import TestTree.Proofs.Path.Enclosing
import Mathlib.Order.Bounds.Basic

/-! # The order of ancestors

An ancestor is below the paths that its labels start, so the root is below every path. A proper
ancestor is one with fewer labels (`lt_iff`).

* `isGLB_meet`: the meet of two paths is their greatest lower bound. So the order of the paths does
  not matter, nor how three of them are grouped (`meet_assoc`).
* `mem_between_iff_lt`: the nodes between two paths are the open interval, which is empty if the one
  is no ancestor of the other. -/

namespace TestTree.Path

/-- **The order of ancestors**: the labels of the lower path start those of the upper one. -/
instance : PartialOrder Path where
  le q p := q.labels <+: p.labels
  le_refl p := List.prefix_refl p.labels
  le_trans _ _ _ hrq hqp := hrq.trans hqp
  le_antisymm _ _ hqp hpq := Path.ext (hqp.eq_of_length_le hpq.length_le)

instance : DecidableLE Path := fun q p => inferInstanceAs (Decidable (q.labels <+: p.labels))

variable {p q r : Path}

theorem le_iff_startsWith : q ≤ p ↔ p.startsWith q := startsWith_iff.symm

theorem lt_iff : q < p ↔ p.startsWith q ∧ q.length < p.length := by
  rw [lt_iff_le_not_ge, le_iff_startsWith, le_iff_startsWith]
  refine and_congr_right fun h => ?_
  rw [startsWith_iff_length_le h (startsWith_refl p), not_le]

/-! ### Ancestors in common -/

theorem isGLB_meet (p q : Path) : IsGLB {p, q} (p.meet q) := by
  rw [isGLB_iff_le_iff]
  intro r
  rw [lowerBounds_insert, lowerBounds_singleton, Set.mem_inter_iff, Set.mem_Iic, Set.mem_Iic,
    le_iff_startsWith, le_iff_startsWith, le_iff_startsWith]
  exact startsWith_meet_iff

instance : SemilatticeInf Path := SemilatticeInf.ofIsGLB meet isGLB_meet

theorem inf_eq_meet (p q : Path) : p ⊓ q = p.meet q := rfl

theorem meet_assoc (p q r : Path) : (p.meet q).meet r = p.meet (q.meet r) := by
  simp only [← inf_eq_meet]
  exact inf_assoc p q r

theorem meet_self (p : Path) : p.meet p = p := by
  rw [← inf_eq_meet]
  exact inf_idem p

/-! ### Between an ancestor and a path -/

theorem between_of_not_le (h : ¬ q ≤ p) : p.between q = [] := by
  rw [le_iff_startsWith] at h
  rw [between, if_neg h]

/-- **The nodes between** an ancestor and a path are the proper ancestors of the path that have the
ancestor as a proper one of theirs. -/
theorem mem_between_iff_lt : r ∈ p.between q ↔ q < r ∧ r < p := by
  by_cases h : q ≤ p
  · have hq : p.startsWith q := le_iff_startsWith.mp h
    rw [mem_between_iff hq, lt_iff, lt_iff]
    constructor
    · rintro ⟨hr, hlt, hlt'⟩
      have hrq : r.startsWith q := (startsWith_iff_length_le hr hq).mpr hlt.le
      exact ⟨⟨hrq, hlt⟩, hr, hlt'⟩
    · rintro ⟨⟨-, hlt⟩, hr, hlt'⟩
      exact ⟨hr, hlt, hlt'⟩
  -- A node between the two would make the one an ancestor of the other.
  · rw [between_of_not_le h]
    constructor
    · exact fun hr => absurd hr List.not_mem_nil
    · rintro ⟨hqr, hrp⟩
      exact absurd (hqr.trans hrp).le h

theorem nodup_between (p q : Path) : (p.between q).Nodup := by
  refine (pairwise_between p q).imp fun hlt => ?_
  rintro rfl
  exact lt_irrefl _ hlt

/-- **Ancestors in common, and nodes between.** The meet of two paths is an ancestor of both, and
every ancestor that they have in common is an ancestor of it; so it is commutative, associative and
idempotent. There is nothing between a path and one that is no ancestor of it. Otherwise the nodes
between are exactly those that the ancestor is a proper ancestor of and that are proper ancestors of
the path, each once and with fewer labels from one to the next. -/
theorem ancestors_in_common_and_between (p q : Path) :
    IsGLB {p, q} (p.meet q) ∧
      p.meet q = q.meet p ∧
      (∀ r : Path, (p.meet q).meet r = p.meet (q.meet r)) ∧
      p.meet p = p ∧
      (¬ q ≤ p → p.between q = []) ∧
      (∀ r : Path, r ∈ p.between q ↔ q < r ∧ r < p) ∧
      (p.between q).Nodup ∧
      (p.between q).Pairwise fun inner outer => outer.length < inner.length :=
  ⟨isGLB_meet p q, meet_comm p q, meet_assoc p q, meet_self p, between_of_not_le,
    fun _ => mem_between_iff_lt, nodup_between p q, pairwise_between p q⟩

/-- Nothing is between `A/x` and `A/b/c/d`, although `A/x` has fewer labels. -/
theorem between_of_otherBlock :
    ¬ ofLabels ["A", "x"] ≤ ofLabels ["A", "b", "c", "d"] ∧
      (ofLabels ["A", "b", "c", "d"]).between (ofLabels ["A", "x"]) = [] := by
  have h : ¬ ofLabels ["A", "x"] ≤ ofLabels ["A", "b", "c", "d"] := by decide
  obtain ⟨-, -, -, -, hnone, -⟩ :=
    ancestors_in_common_and_between (ofLabels ["A", "b", "c", "d"]) (ofLabels ["A", "x"])
  exact ⟨h, hnone h⟩

end TestTree.Path
