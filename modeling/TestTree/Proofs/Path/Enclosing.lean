import TestTree.Proofs.Path

/-! # Suites around a path

The suites around a path are its ancestors other than the root and the path itself: `Encloses`.

* `le_commonLength_iff`: two lists start with no more elements in common than `commonLength` says.
* `startsWith_meet_iff`: the ancestors of the meet of two paths are those of both. The meet does not
  depend on the order of the paths (`meet_comm`), so the suites that are entered on the way to a
  test are those that are left on the way back (`opening_eq_reverse_closing`).
* `mem_between_iff`, `pairwise_between`: which nodes stand between an ancestor and a path, and in
  which order.
* `encloses_and_iff`: the suites around two tests are the common suite and those around it. This
  decides which suites are left and entered (`mem_closing_iff`, `mem_opening_iff`). -/

namespace TestTree.Path

/-- **A suite around a path**: a proper ancestor that is not the root. -/
def Encloses (suite p : Path) : Prop :=
  suite ≠ root ∧ suite.labels <+: p.labels ∧ suite ≠ p

instance (suite p : Path) : Decidable (suite.Encloses p) :=
  inferInstanceAs (Decidable (suite ≠ root ∧ suite.labels <+: p.labels ∧ suite ≠ p))

/-! ### Labels in common -/

section Common
variable {α : Type} [DecidableEq α]

theorem le_commonLength : ∀ {n : Nat} {as bs : List α}, n ≤ as.length → n ≤ bs.length →
    as.take n = bs.take n → n ≤ commonLength as bs
  | 0, _, _, _, _, _ => Nat.zero_le _
  | n + 1, [], _, ha, _, _ => by simp at ha
  | n + 1, _ :: _, [], _, hb, _ => by simp at hb
  | n + 1, a :: as, b :: bs, ha, hb, h => by
    simp only [List.length_cons] at ha hb
    simp only [List.take_succ_cons, List.cons.injEq] at h
    have ih : n ≤ commonLength as bs := le_commonLength (by omega) (by omega) h.2
    unfold commonLength
    rw [if_pos h.1]
    omega

/-- **The common labels** are all that two lists start with in common. -/
theorem le_commonLength_iff {n : Nat} {as bs : List α} :
    n ≤ commonLength as bs ↔ n ≤ as.length ∧ n ≤ bs.length ∧ as.take n = bs.take n := by
  constructor
  · intro h
    have hle := commonLength_le as bs
    refine ⟨by omega, by omega, ?_⟩
    have ht := congrArg (List.take n) (take_commonLength as bs)
    rwa [List.take_take, List.take_take, Nat.min_eq_left h] at ht
  · rintro ⟨ha, hb, h⟩
    exact le_commonLength ha hb h

theorem commonLength_comm (as bs : List α) : commonLength as bs = commonLength bs as := by
  refine Nat.le_antisymm ?_ ?_
  · obtain ⟨ha, hb, h⟩ := le_commonLength_iff.mp (Nat.le_refl (commonLength as bs))
    exact le_commonLength hb ha h.symm
  · obtain ⟨hb, ha, h⟩ := le_commonLength_iff.mp (Nat.le_refl (commonLength bs as))
    exact le_commonLength ha hb h.symm

/-- A list that starts two lists is no longer than what they have in common. -/
theorem length_le_commonLength {l as bs : List α} (ha : l <+: as) (hb : l <+: bs) :
    l.length ≤ commonLength as bs := by
  refine le_commonLength ha.length_le hb.length_le ?_
  rw [← List.prefix_iff_eq_take.mp ha, ← List.prefix_iff_eq_take.mp hb]

/-- The first elements of a list have in common with another list what the list has, as far as it
is among them. -/
theorem commonLength_take : ∀ (n : Nat) (as bs : List α),
    commonLength (as.take n) bs = min n (commonLength as bs)
  | 0, _, _ => by simp [commonLength]
  | n + 1, [], _ => by simp [commonLength]
  | n + 1, _ :: _, [] => by simp [commonLength]
  | n + 1, a :: as, b :: bs => by
    have ih := commonLength_take n as bs
    rw [List.take_succ_cons]
    unfold commonLength
    split
    · omega
    · rfl

theorem commonLength_dropLast (as bs : List α) :
    commonLength as.dropLast bs.dropLast =
      min (commonLength as bs) (min (as.length - 1) (bs.length - 1)) := by
  rw [List.dropLast_eq_take, commonLength_take, commonLength_comm, List.dropLast_eq_take,
    commonLength_take, commonLength_comm]
  omega

/-- With another element behind it a list has at most one more element in common. -/
theorem commonLength_concat (as bs : List α) (a : α) :
    commonLength as bs ≤ commonLength (as ++ [a]) bs ∧
      commonLength (as ++ [a]) bs ≤ commonLength as bs + 1 := by
  have h := commonLength_take as.length (as ++ [a]) bs
  have hle := (commonLength_le (as ++ [a]) bs).1
  rw [List.take_left] at h
  rw [List.length_append, List.length_singleton] at hle
  omega

end Common

variable {p q suite source target : Path}

/-! ### Ancestors -/

theorem startsWith_refl (p : Path) : p.startsWith p :=
  startsWith_iff.mpr (List.prefix_refl p.labels)

theorem startsWith_trans {r : Path} (h : p.startsWith q) (h' : q.startsWith r) :
    p.startsWith r :=
  startsWith_iff.mpr ((startsWith_iff.mp h').trans (startsWith_iff.mp h))

theorem length_le_of_startsWith (h : p.startsWith q) : q.length ≤ p.length :=
  (startsWith_iff.mp h).length_le

/-- An ancestor is known by its number of labels. -/
theorem eq_take_of_startsWith (h : p.startsWith q) : q = p.take q.length :=
  Path.ext (List.prefix_iff_eq_take.mp (startsWith_iff.mp h))

/-- Of two ancestors of a path, the one with fewer labels is an ancestor of the other one. -/
theorem startsWith_iff_length_le {r : Path} (hq : p.startsWith q) (hr : p.startsWith r) :
    q.startsWith r ↔ r.length ≤ q.length := by
  constructor
  · exact length_le_of_startsWith
  · intro h
    rw [startsWith_iff] at hq hr ⊢
    exact List.prefix_of_prefix_length_le hr hq h

/-! ### The meet of two paths -/

theorem length_meet (p q : Path) : (p.meet q).length = commonLength p.labels q.labels := by
  have := commonLength_le p.labels q.labels
  unfold meet
  rw [length_take]
  unfold length
  omega

theorem meet_comm (p q : Path) : p.meet q = q.meet p := by
  refine Path.ext ?_
  rw [meet, meet, labels_take, labels_take, commonLength_comm q.labels p.labels]
  exact take_commonLength p.labels q.labels

/-- **The meet** has the ancestors that two paths have in common. -/
theorem startsWith_meet_iff :
    (p.meet q).startsWith suite ↔ p.startsWith suite ∧ q.startsWith suite := by
  constructor
  · intro h
    exact ⟨startsWith_trans (startsWith_meet_left p q) h,
      startsWith_trans (startsWith_meet_right p q) h⟩
  · rintro ⟨hp, hq⟩
    rw [startsWith_iff_length_le (startsWith_meet_left p q) hp, length_meet]
    exact length_le_commonLength (startsWith_iff.mp hp) (startsWith_iff.mp hq)

/-- An ancestor of a path has as many labels as its meet with the path. -/
theorem startsWith_iff_length_meet : p.startsWith q ↔ (p.meet q).length = q.length := by
  have hle := length_le_of_startsWith (startsWith_meet_right p q)
  constructor
  · intro h
    have := length_le_of_startsWith (startsWith_meet_iff.mpr ⟨h, startsWith_refl q⟩)
    omega
  · intro h
    refine startsWith_trans (startsWith_meet_left p q) ?_
    rw [startsWith_iff_length_le (startsWith_meet_right p q) (startsWith_refl q)]
    omega

theorem commonSuite_comm (p q : Path) : commonSuite p q = commonSuite q p := meet_comm _ _

theorem length_commonSuite (p q : Path) :
    (commonSuite p q).length = min (p.meet q).length (min (p.length - 1) (q.length - 1)) := by
  rw [commonSuite, length_meet, length_meet, labels_suite, labels_suite]
  exact commonLength_dropLast _ _

/-! ### Between an ancestor and a path -/

theorem mem_between_iff (h : p.startsWith q) :
    suite ∈ p.between q ↔
      p.startsWith suite ∧ q.length < suite.length ∧ suite.length < p.length := by
  rw [between_of_startsWith h, List.mem_reverse, List.mem_map]
  constructor
  · rintro ⟨n, hn, rfl⟩
    rw [List.mem_range'_1] at hn
    rw [length_take]
    exact ⟨startsWith_take p n, by omega, by omega⟩
  · rintro ⟨hs, hq, hp⟩
    refine ⟨suite.length, ?_, (eq_take_of_startsWith hs).symm⟩
    rw [List.mem_range'_1]
    omega

/-- The innermost node comes first. -/
theorem pairwise_between (p q : Path) :
    (p.between q).Pairwise fun inner outer => outer.length < inner.length := by
  by_cases h : p.startsWith q
  · rw [between_of_startsWith h, List.pairwise_reverse, List.pairwise_map]
    refine (List.pairwise_lt_range' 1).imp_of_mem fun {m n} hm hn hlt => ?_
    rw [List.mem_range'_1] at hm hn
    rw [length_take, length_take]
    omega
  · rw [between, if_neg h]
    exact List.Pairwise.nil

/-! ### Suites around a path -/

theorem encloses_iff :
    suite.Encloses p ↔ p.startsWith suite ∧ 0 < suite.length ∧ suite.length < p.length := by
  have hroot : suite = root ↔ suite.length = 0 := by
    rw [Path.ext_iff, labels_root, length, List.length_eq_zero_iff]
  unfold Encloses
  rw [startsWith_iff, ne_eq, hroot]
  constructor
  · rintro ⟨hr, hs, hne⟩
    have hle : suite.length ≤ p.length := hs.length_le
    have hlt : suite.length ≠ p.length := fun he => hne (Path.ext (hs.eq_of_length he))
    exact ⟨hs, by omega, by omega⟩
  · rintro ⟨hs, h0, hlt⟩
    refine ⟨by omega, hs, ?_⟩
    rintro rfl
    omega

/-- The suites around a path are the one it is in and those around that. -/
theorem encloses_iff_suite :
    suite.Encloses p ↔ 0 < suite.length ∧ p.suite.startsWith suite := by
  have hp : p.startsWith p.suite := startsWith_of_suite (startsWith_refl p.suite)
  have hl : p.suite.length = p.length - 1 := by
    unfold length
    rw [labels_suite, List.length_dropLast]
  rw [encloses_iff]
  constructor
  · rintro ⟨hs, h0, hlt⟩
    refine ⟨h0, ?_⟩
    rw [startsWith_iff_length_le hp hs]
    omega
  · rintro ⟨h0, hs⟩
    have := length_le_of_startsWith hs
    exact ⟨startsWith_of_suite hs, h0, by omega⟩

/-- **The suites around two tests** are their common suite and those around that. -/
theorem encloses_and_iff :
    suite.Encloses source ∧ suite.Encloses target ↔
      0 < suite.length ∧ (commonSuite source target).startsWith suite := by
  rw [encloses_iff_suite, encloses_iff_suite, commonSuite, startsWith_meet_iff]
  constructor
  · rintro ⟨⟨h0, hs⟩, -, ht⟩
    exact ⟨h0, hs, ht⟩
  · rintro ⟨h0, hs, ht⟩
    exact ⟨⟨h0, hs⟩, h0, ht⟩

/-! ### From one test to the next -/

/-- The way back is the way there, from its end. -/
theorem opening_eq_reverse_closing (source target : Path) :
    source.opening target = (target.closing source).reverse := by
  rw [opening, closing, commonSuite_comm]

/-- **The suites that are left** are those around the first test only. -/
theorem mem_closing_iff :
    suite ∈ source.closing target ↔ suite.Encloses source ∧ ¬ suite.Encloses target := by
  have hc := startsWith_commonSuite_left source target
  rw [closing, mem_between_iff hc]
  constructor
  · rintro ⟨hs, hlt, hlt'⟩
    have h : suite.Encloses source := encloses_iff.mpr ⟨hs, by omega, hlt'⟩
    refine ⟨h, fun ht => ?_⟩
    have := length_le_of_startsWith (encloses_and_iff.mp ⟨h, ht⟩).2
    omega
  · rintro ⟨h, hn⟩
    obtain ⟨hs, h0, hlt⟩ := encloses_iff.mp h
    have hnot : ¬ suite.length ≤ (commonSuite source target).length := fun hle =>
      hn (encloses_and_iff.mpr ⟨h0, (startsWith_iff_length_le hc hs).mpr hle⟩).2
    exact ⟨hs, by omega, hlt⟩

/-- **The suites that are entered** are those around the second test only. -/
theorem mem_opening_iff :
    suite ∈ source.opening target ↔ suite.Encloses target ∧ ¬ suite.Encloses source := by
  rw [opening_eq_reverse_closing, List.mem_reverse, mem_closing_iff]

theorem pairwise_closing (source target : Path) :
    (source.closing target).Pairwise fun inner outer => outer.length < inner.length :=
  pairwise_between _ _

theorem pairwise_opening (source target : Path) :
    (source.opening target).Pairwise fun outer inner => outer.length < inner.length := by
  rw [opening_eq_reverse_closing, List.pairwise_reverse]
  exact pairwise_closing target source

end TestTree.Path
