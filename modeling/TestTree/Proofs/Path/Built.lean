import TestTree.Proofs.Path

/-! # Paths that are built

A path comes from lists of labels by operations of two kinds: some put labels together and leave
blank ones out, others take first labels of what is there. An `Expr` is any composition of them. It
has a value among paths (`path?`), and one among plain lists of labels (`labels?`), where nothing
but the operations themselves keeps blank labels out.

* `map_labels_path?`: the labels of the first value are the second one.
* `innerNamed_of_labels?`: in a list that is built no label is blank, except possibly the last. -/

namespace TestTree.Path

/-- **No label is blank**, except possibly the last. -/
def InnerNamed (labels : List String) : Prop := ∀ l ∈ labels.dropLast, l ≠ ""

/-! ### Operations on labels -/

/-- Labels without the blank ones, except for the last label. -/
def withoutBlank (labels : List String) : List String :=
  labels.dropLast.filter (· ≠ "") ++ labels.getLast?.toList

/-- The labels of the nodes strictly between an ancestor and a node, the innermost first. -/
def labelsBetween (labels ancestor : List String) : List (List String) :=
  if ancestor.isPrefixOf labels then
    ((List.range' (ancestor.length + 1) (labels.length - (ancestor.length + 1))).map
      labels.take).reverse
  else []

/-- The labels of the deepest suite around two tests. -/
def commonLabels (labels others : List String) : List String :=
  labels.dropLast.take (commonLength labels.dropLast others.dropLast)

/-- **A way to build a path** from lists of labels. Of several nodes one is chosen by its index. -/
inductive Expr where
  | root
  | ofLabels (labels : List String)
  | child (p : Expr) (label : String)
  | take (p : Expr) (n : Nat)
  | parent (p : Expr)
  | meet (p q : Expr)
  | between (p q : Expr) (i : Nat)
  | closing (p q : Expr) (i : Nat)
  | opening (p q : Expr) (i : Nat)

/-- The path that is built, if there is one: the root has no parent, and an index may be too large.
-/
def Expr.path? : Expr → Option Path
  | root => some .root
  | ofLabels labels => some (.ofLabels labels)
  | child p label => p.path?.map fun a => a.child label
  | take p n => p.path?.map fun a => a.take n
  | parent p => p.path?.bind fun a => a.parent?
  | meet p q => p.path?.bind fun a => q.path?.bind fun b => some (a.meet b)
  | between p q i => p.path?.bind fun a => q.path?.bind fun b => (a.between b)[i]?
  | closing p q i => p.path?.bind fun a => q.path?.bind fun b => (a.closing b)[i]?
  | opening p q i => p.path?.bind fun a => q.path?.bind fun b => (a.opening b)[i]?

/-- The labels that are built, with lists of labels only. -/
def Expr.labels? : Expr → Option (List String)
  | root => some []
  | ofLabels labels => some (withoutBlank labels)
  | child p label => p.labels?.map fun a => withoutBlank (a ++ [label])
  | take p n => p.labels?.map fun a => a.take n
  | parent p => p.labels?.bind fun a => if a.isEmpty then none else some (a.take (a.length - 1))
  | meet p q => p.labels?.bind fun a => q.labels?.bind fun b =>
    some (a.take (commonLength a b))
  | between p q i => p.labels?.bind fun a => q.labels?.bind fun b => (labelsBetween a b)[i]?
  | closing p q i => p.labels?.bind fun a => q.labels?.bind fun b =>
    (labelsBetween a (commonLabels a b))[i]?
  | opening p q i => p.labels?.bind fun a => q.labels?.bind fun b =>
    (labelsBetween b (commonLabels a b)).reverse[i]?

/-! ### The two values -/

theorem map_labels_between (p q : Path) :
    (p.between q).map labels = labelsBetween p.labels q.labels := by
  unfold between labelsBetween startsWith
  split
  · rw [List.map_reverse, List.map_map]
    rfl
  · rfl

theorem labels_commonSuite (p q : Path) :
    (commonSuite p q).labels = commonLabels p.labels q.labels := by
  rw [commonSuite, meet, labels_take, labels_suite, labels_suite, commonLabels]

theorem map_labels_parent? (p : Path) :
    p.parent?.map labels =
      if p.labels.isEmpty then none else some (p.labels.take (p.labels.length - 1)) := by
  unfold parent? isRoot
  split <;> rfl

/-- Operations on two paths agree with those on their labels. -/
theorem map_labels_bind {p? q? : Option Path} {f : Path → Path → Option Path}
    {g : List String → List String → Option (List String)}
    (h : ∀ p q, (f p q).map labels = g p.labels q.labels) :
    (p?.bind fun a => q?.bind fun b => f a b).map labels =
      (p?.map labels).bind fun a => (q?.map labels).bind fun b => g a b := by
  cases p? with
  | none => rfl
  | some p =>
    cases q? with
    | none => rfl
    | some q => exact h p q

/-- **The labels of the path** that is built are built from labels alone. -/
theorem map_labels_path? (e : Expr) : e.path?.map labels = e.labels? := by
  induction e with
  | root => rfl
  | ofLabels labels => rfl
  | child p label ih =>
    rw [Expr.path?, Expr.labels?, ← ih, Option.map_map, Option.map_map]
    rfl
  | take p n ih =>
    rw [Expr.path?, Expr.labels?, ← ih, Option.map_map, Option.map_map]
    rfl
  | parent p ih =>
    rw [Expr.path?, Expr.labels?, ← ih]
    cases p.path? with
    | none => rfl
    | some a => exact map_labels_parent? a
  | meet p q ihp ihq =>
    rw [Expr.path?, Expr.labels?, ← ihp, ← ihq]
    exact map_labels_bind fun a b => rfl
  | between p q i ihp ihq =>
    rw [Expr.path?, Expr.labels?, ← ihp, ← ihq]
    refine map_labels_bind fun a b => ?_
    rw [← List.getElem?_map, map_labels_between]
  | closing p q i ihp ihq =>
    rw [Expr.path?, Expr.labels?, ← ihp, ← ihq]
    refine map_labels_bind fun a b => ?_
    rw [← List.getElem?_map, Path.closing, map_labels_between, labels_commonSuite]
  | opening p q i ihp ihq =>
    rw [Expr.path?, Expr.labels?, ← ihp, ← ihq]
    refine map_labels_bind fun a b => ?_
    rw [← List.getElem?_map, Path.opening, List.map_reverse, map_labels_between,
      labels_commonSuite]

/-! ### Blank labels -/

theorem innerNamed_withoutBlank (labels : List String) : InnerNamed (withoutBlank labels) :=
  (ofLabels labels).inner_ne_blank

theorem InnerNamed.take {labels : List String} (h : InnerNamed labels) (n : Nat) :
    InnerNamed (labels.take n) :=
  (Path.take ⟨labels, h⟩ n).inner_ne_blank

/-- What lies between an ancestor and a node are first labels of the node. -/
theorem InnerNamed.of_mem_labelsBetween {labels ancestor front : List String}
    (h : InnerNamed labels) (hf : front ∈ labelsBetween labels ancestor) : InnerNamed front := by
  unfold labelsBetween at hf
  split at hf
  · obtain ⟨n, -, rfl⟩ := List.mem_map.mp (List.mem_reverse.mp hf)
    exact h.take n
  · exact absurd hf List.not_mem_nil

/-- Labels without inner blank ones are left as they are. -/
theorem withoutBlank_eq_self {labels : List String} (h : InnerNamed labels) :
    withoutBlank labels = labels :=
  labels_ofLabels h

/-- **Labels that are built** have no blank one, except possibly the last. -/
theorem innerNamed_of_labels? {e : Expr} {labels : List String} (h : e.labels? = some labels) :
    InnerNamed labels := by
  induction e generalizing labels with
  | root =>
    obtain rfl := Option.some.inj h
    exact List.forall_mem_nil _
  | ofLabels labels =>
    obtain rfl := Option.some.inj h
    exact innerNamed_withoutBlank labels
  | child p label ih =>
    obtain ⟨a, -, rfl⟩ := Option.map_eq_some_iff.mp h
    exact innerNamed_withoutBlank (a ++ [label])
  | take p n ih =>
    obtain ⟨a, ha, rfl⟩ := Option.map_eq_some_iff.mp h
    exact (ih ha).take n
  | parent p ih =>
    obtain ⟨a, ha, hp⟩ := Option.bind_eq_some_iff.mp h
    split at hp
    · cases hp
    · obtain rfl := Option.some.inj hp
      exact (ih ha).take _
  | meet p q ihp ihq =>
    obtain ⟨a, ha, h⟩ := Option.bind_eq_some_iff.mp h
    obtain ⟨b, -, h⟩ := Option.bind_eq_some_iff.mp h
    obtain rfl := Option.some.inj h
    exact (ihp ha).take _
  | between p q i ihp ihq =>
    obtain ⟨a, ha, h⟩ := Option.bind_eq_some_iff.mp h
    obtain ⟨b, -, h⟩ := Option.bind_eq_some_iff.mp h
    exact (ihp ha).of_mem_labelsBetween (List.mem_of_getElem? h)
  | closing p q i ihp ihq =>
    obtain ⟨a, ha, h⟩ := Option.bind_eq_some_iff.mp h
    obtain ⟨b, -, h⟩ := Option.bind_eq_some_iff.mp h
    exact (ihp ha).of_mem_labelsBetween (List.mem_of_getElem? h)
  | opening p q i ihp ihq =>
    obtain ⟨a, -, h⟩ := Option.bind_eq_some_iff.mp h
    obtain ⟨b, hb, h⟩ := Option.bind_eq_some_iff.mp h
    exact (ihq hb).of_mem_labelsBetween (List.mem_reverse.mp (List.mem_of_getElem? h))

end TestTree.Path
