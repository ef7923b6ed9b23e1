import TestTree.Path.Basic
import Mathlib.Tactic.Set

/-! # Ancestors

Every ancestor of a path is a `take` of it. The suites between an ancestor and a path have as names
the labels of the suite of the path below the ancestor (`map_name_between`), the innermost first.

* `labels_closing`, `labels_opening`: to go from one test to another is to take the names of the
  suites that are left from the labels of the first suite, down to those of the common suite, and to
  add the names of the suites that are entered.
* `labels_of_opening_eq_append`: a suite that is entered lies below the common suite and the suites
  entered before it. -/

namespace TestTree.Path

/-! ### First labels -/

@[simp] theorem labels_root : root.labels = [] := rfl

@[simp] theorem labels_take (p : Path) (n : Nat) : (p.take n).labels = p.labels.take n := rfl

@[simp] theorem length_take (p : Path) (n : Nat) : (p.take n).length = min n p.length :=
  List.length_take

theorem name_take {p : Path} {n : Nat} (h : n < p.length) :
    (p.take (n + 1)).name = p.labels[n] := by
  unfold length at h
  rw [name, labels_take, List.take_succ_eq_append_getElem h, List.getLastD_concat]

/-- A path that is not the root is its suite with its name below it. -/
theorem labels_eq_dropLast_append {p : Path} (h : p.labels ≠ []) :
    p.labels = p.labels.dropLast ++ [p.name] := by
  rw [name, List.getLastD_eq_getLast?, List.getLast?_eq_some_getLast h, Option.getD_some,
    List.dropLast_concat_getLast h]

/-! ### Any labels -/

/-- Labels of which only the last may be blank are those of their path. -/
theorem labels_ofLabels {labels : List String} (h : ∀ l ∈ labels.dropLast, l ≠ "") :
    (ofLabels labels).labels = labels := by
  have hf : labels.dropLast.filter (· ≠ "") = labels.dropLast :=
    List.filter_eq_self.mpr fun l hl => by simpa using h l hl
  show labels.dropLast.filter (· ≠ "") ++ labels.getLast?.toList = labels
  rw [hf]
  by_cases hn : labels = []
  · simp [hn]
  · rw [List.getLast?_eq_some_getLast hn, Option.toList_some, List.dropLast_concat_getLast hn]

theorem labels_ofLabels_tail (p : Path) : (ofLabels p.labels.tail).labels = p.labels.tail := by
  refine labels_ofLabels fun l hl => p.inner_ne_blank l ?_
  rw [← List.tail_dropLast] at hl
  exact List.mem_of_mem_tail hl

theorem labels_child (p : Path) (label : String) :
    (p.child label).labels = p.labels.filter (· ≠ "") ++ [label] := by
  simp [child, ofLabels]

/-- The labels that are not blank are the same before and after blank ones are left out. -/
theorem filter_labels_ofLabels (labels : List String) :
    (ofLabels labels).labels.filter (· ≠ "") = labels.filter (· ≠ "") := by
  rcases List.eq_nil_or_concat labels with rfl | ⟨front, last, rfl⟩
  · rfl
  · simp [ofLabels, List.filter_append]

/-! ### Suites -/

theorem suite_eq_take (p : Path) : p.suite = p.take (p.length - 1) := by
  unfold suite parent? isRoot
  by_cases h : p.labels = []
  · simp only [h, List.isEmpty_nil, if_true, Option.getD_none]
    exact Path.ext (by simp [h])
  · rw [if_neg (by simpa using h), Option.getD_some]

@[simp] theorem labels_suite (p : Path) : p.suite.labels = p.labels.dropLast := by
  rw [suite_eq_take, labels_take, List.dropLast_eq_take]; rfl

@[simp] theorem suite_root : root.suite = root := Path.ext (by simp)

/-! ### Ancestors -/

theorem startsWith_iff {p q : Path} : p.startsWith q ↔ q.labels <+: p.labels :=
  List.isPrefixOf_iff_prefix

theorem startsWith_take (p : Path) (n : Nat) : p.startsWith (p.take n) :=
  startsWith_iff.mpr (List.take_prefix n p.labels)

theorem startsWith_of_suite {p q : Path} (h : p.suite.startsWith q) : p.startsWith q := by
  rw [startsWith_iff] at h ⊢
  exact h.trans (labels_suite p ▸ List.dropLast_prefix p.labels)

theorem commonLength_le {α : Type} [DecidableEq α] :
    ∀ as bs : List α, commonLength as bs ≤ as.length ∧ commonLength as bs ≤ bs.length
  | [], _ => by simp [commonLength]
  | _ :: _, [] => by simp [commonLength]
  | a :: as, b :: bs => by
    have ih := commonLength_le as bs
    unfold commonLength
    split
    · rw [List.length_cons, List.length_cons]
      omega
    · exact ⟨Nat.zero_le _, Nat.zero_le _⟩

theorem take_commonLength {α : Type} [DecidableEq α] :
    ∀ as bs : List α, as.take (commonLength as bs) = bs.take (commonLength as bs)
  | [], _ => by simp [commonLength]
  | _ :: _, [] => by simp [commonLength]
  | a :: as, b :: bs => by
    unfold commonLength
    split
    · next h => rw [h, List.take_succ_cons, List.take_succ_cons, take_commonLength as bs]
    · simp

theorem startsWith_meet_left (p q : Path) : p.startsWith (p.meet q) := startsWith_take p _

theorem startsWith_meet_right (p q : Path) : q.startsWith (p.meet q) := by
  rw [startsWith_iff, meet, labels_take, take_commonLength]
  exact List.take_prefix _ _

/-! ### Between an ancestor and a path -/

theorem between_of_startsWith {p q : Path} (h : p.startsWith q) :
    p.between q =
      ((List.range' (q.length + 1) (p.length - (q.length + 1))).map p.take).reverse := by
  rw [between, if_pos h]

/-- The names of the suites between an ancestor and a path. -/
theorem map_name_between {p q : Path} (h : p.startsWith q) :
    (p.between q).map name = (p.labels.dropLast.drop q.length).reverse := by
  rw [between_of_startsWith h, List.map_reverse, List.map_map]
  congr 1
  refine List.ext_getElem (by simp [length]; omega) fun i h1 h2 => ?_
  simp only [List.length_map, List.length_range'] at h1
  simp only [List.getElem_map, List.getElem_range', Nat.one_mul, Function.comp_apply,
    List.getElem_drop, List.getElem_dropLast]
  rw [show q.length + 1 + i = (q.length + i) + 1 by omega, name_take (by omega)]
  rfl

/-! ### From one test to the next -/

theorem startsWith_commonSuite_left (source target : Path) :
    source.startsWith (commonSuite source target) :=
  startsWith_of_suite (startsWith_meet_left _ _)

theorem startsWith_commonSuite_right (source target : Path) :
    target.startsWith (commonSuite source target) :=
  startsWith_of_suite (startsWith_meet_right _ _)

theorem append_drop_of_suite {p q : Path} (h : p.suite.startsWith q) :
    q.labels ++ p.labels.dropLast.drop q.length = p.suite.labels := by
  rw [startsWith_iff, labels_suite] at h
  have hq : q.labels = p.labels.dropLast.take q.length := List.prefix_iff_eq_take.mp h
  calc q.labels ++ p.labels.dropLast.drop q.length
      = p.labels.dropLast.take q.length ++ p.labels.dropLast.drop q.length := by rw [← hq]
    _ = p.suite.labels := by rw [List.take_append_drop, labels_suite]

/-- **The suites that are left**: with their names, the common suite is the first suite. -/
theorem labels_closing (source target : Path) :
    (commonSuite source target).labels ++ ((source.closing target).map name).reverse =
      source.suite.labels := by
  rw [closing, map_name_between (startsWith_commonSuite_left source target), List.reverse_reverse]
  exact append_drop_of_suite (startsWith_meet_left _ _)

/-- **The suites that are entered**: with their names, the common suite is the second suite. -/
theorem labels_opening (source target : Path) :
    (commonSuite source target).labels ++ (source.opening target).map name =
      target.suite.labels := by
  rw [opening, List.map_reverse, map_name_between (startsWith_commonSuite_right source target),
    List.reverse_reverse]
  exact append_drop_of_suite (startsWith_meet_right _ _)

/-- The suites that are entered are the nodes below the common suite, the outermost first. -/
theorem opening_eq_map (source target : Path) :
    source.opening target = (List.range' ((commonSuite source target).length + 1)
      (target.length - ((commonSuite source target).length + 1))).map target.take := by
  rw [opening, between_of_startsWith (startsWith_commonSuite_right source target),
    List.reverse_reverse]

/-- Each suite that is entered lies directly below those that are entered before it. -/
theorem labels_of_opening_eq_append {source target suite : Path} {front rest : List Path}
    (h : source.opening target = front ++ suite :: rest) :
    suite.labels = (commonSuite source target).labels ++ front.map name ++ [suite.name] := by
  have hn := labels_opening source target
  have ho := opening_eq_map source target
  set c := commonSuite source target with hc
  have hl : front.length < target.length - (c.length + 1) := by
    have := congrArg List.length (ho.symm.trans h)
    simp at this; omega
  have hsuite : suite = target.take (c.length + front.length + 1) := by
    have h1 : (source.opening target)[front.length]? = some suite := by rw [h]; simp
    rw [ho, List.getElem?_map, List.getElem?_range' hl] at h1
    simp only [Option.map_some, Option.some.injEq] at h1
    rw [← h1]; congr 1; omega
  rw [h, List.map_append, List.map_cons, labels_suite] at hn
  have hlen : c.length + front.length + 1 ≤ target.labels.length - 1 := by
    unfold length at hl ⊢; omega
  have ht : target.labels.take (c.length + front.length + 1) =
      target.labels.dropLast.take (c.length + front.length + 1) := by
    rw [List.dropLast_eq_take, List.take_take, Nat.min_eq_left hlen]
  rw [hsuite, labels_take, ht, ← hn, ← hsuite, ← List.append_assoc]
  rw [show c.labels ++ front.map name ++ suite.name :: rest.map name =
    (c.labels ++ front.map name ++ [suite.name]) ++ rest.map name by simp]
  exact List.take_left' (by simp [length]; omega)

end TestTree.Path
