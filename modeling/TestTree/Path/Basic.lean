/-! # Paths in the test tree

A node of the test tree is named by the labels that lead to it: the module, the blocks within it,
and the title of the test. Only the last label of a path may be blank, for a test without a title;
blank labels of blocks are left out, so every suite has a name. -/

namespace TestTree

/-- The labels that lead to a node, the outermost first. The root has none. -/
structure Path where
  labels : List String
  inner_ne_blank : ∀ l ∈ labels.dropLast, l ≠ ""
  deriving DecidableEq

namespace Path

@[ext] theorem ext {p q : Path} (h : p.labels = q.labels) : p = q := by
  cases p; cases q; simp_all

/-- The root of the tree. -/
def root : Path := ⟨[], by simp⟩

instance : Inhabited Path := ⟨root⟩

/-- The path for any labels: blank ones are left out, except for the last label. -/
def ofLabels (labels : List String) : Path where
  labels := labels.dropLast.filter (· ≠ "") ++ labels.getLast?.toList
  inner_ne_blank l hl := by
    cases h : labels.getLast? with
    | none =>
      have : labels = [] := by simpa using h
      simp [this] at hl
    | some x =>
      simp only [h, Option.toList_some, List.dropLast_concat, List.mem_filter] at hl
      simpa using hl.2

/-- The first labels of a path. -/
def take (p : Path) (n : Nat) : Path where
  labels := p.labels.take n
  inner_ne_blank l hl := by
    refine p.inner_ne_blank l ?_
    rw [List.dropLast_eq_take] at hl ⊢
    rw [List.take_take] at hl
    refine (List.take_subset_take_left p.labels ?_) hl
    simp only [List.length_take]
    omega

/-- The number of labels. -/
def length (p : Path) : Nat := p.labels.length

/-- The path has no labels. -/
def isRoot (p : Path) : Bool := p.labels.isEmpty

/-- The last label; the root has a blank name. -/
def name (p : Path) : String := p.labels.getLastD ""

/-- The node around a node; none around the root. -/
def parent? (p : Path) : Option Path := if p.isRoot then none else some (p.take (p.length - 1))

/-- The suite around a node; around the root it is the root. -/
def suite (p : Path) : Path := p.parent?.getD root

/-- The node with a label below a node. -/
def child (p : Path) (label : String) : Path := ofLabels (p.labels ++ [label])

/-- The labels of an ancestor start a path. Every path is an ancestor of itself. -/
def startsWith (p ancestor : Path) : Bool := ancestor.labels.isPrefixOf p.labels

/-- A path as it is shown: the labels with slashes between. -/
def display (p : Path) : String := String.intercalate "/" p.labels

/-! ### Two paths -/

/-- The number of elements that two lists start with in common. -/
def commonLength {α : Type} [DecidableEq α] : List α → List α → Nat
  | a :: as, b :: bs => if a = b then commonLength as bs + 1 else 0
  | _, _ => 0

/-- The deepest node that two nodes have in common as an ancestor. -/
def meet (p q : Path) : Path := p.take (commonLength p.labels q.labels)

/-- The nodes strictly between an ancestor and a path, the innermost first; none if the ancestor is
no ancestor. -/
def between (p ancestor : Path) : List Path :=
  if p.startsWith ancestor then
    ((List.range' (ancestor.length + 1) (p.length - (ancestor.length + 1))).map p.take).reverse
  else []

/-! ### From one test to the next -/

/-- The deepest suite around two tests. A test is not a suite, so it is not its own. -/
def commonSuite (p q : Path) : Path := p.suite.meet q.suite

/-- The suites to leave on the way from a test to another one, the innermost first. -/
def closing (source target : Path) : List Path := source.between (commonSuite source target)

/-- The suites to enter on the way from a test to another one, the outermost first. -/
def opening (source target : Path) : List Path :=
  (target.between (commonSuite source target)).reverse

end Path

end TestTree
