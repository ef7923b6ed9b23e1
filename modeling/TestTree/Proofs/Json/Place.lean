import TestTree.Proofs.Json.Agreement
import TestTree.Proofs.Json.Forms

/-! # Places within a value

A `Place` leads into a value by keys and indices. `at?` is the value at a place and `replace` the
value with another one there. What is replaced in one member of a record, in either form, makes the
record vary in that member only (`memberwise_set`), and what is replaced in one item of a list makes
the list vary in that item only (`itemwise_set`). -/

namespace TestTree.Json

/-- To the value under a key or at an index. -/
inductive Step where
  | member (key : String)
  | item (index : Nat)

/-- The steps to a place, the outermost first. -/
abbrev Place := List Step

/-- The value one step further in. -/
def Step.at? : Step → Json → Option Json
  | .member key, .object members => Members.find? key members
  | .item index, .array items => items[index]?
  | _, _ => none

/-- The value with another one that step further in. -/
def Step.set (new : Json) : Step → Json → Json
  | .member key, .object members => .object (Members.insert key new members)
  | .item index, .array items => .array (items.set index new)
  | _, v => v

/-- The value at a place. -/
def at? : Place → Json → Option Json
  | [], v => some v
  | step :: rest, v => (step.at? v).bind (at? rest)

/-- A value with another one at a place; as it was if it has no such place. -/
def replace (new : Json) : Place → Json → Json
  | [], _ => new
  | step :: rest, v =>
    match step.at? v with
    | some inner => step.set (replace new rest inner) v
    | none => v

/-- A step goes to the member with a name, in one of the two forms of a record. -/
def IsStepTo (names : List String) (name : String) (step : Step) : Prop :=
  step = .member name ∨ step = .item (names.idxOf name)

/-- The values under a name vary, those under other names are equal. -/
def Only (name : String) (Vary : Json → Json → Prop) (other : String) (v w : Json) : Prop :=
  if other = name then Vary v w else v = w

variable {Vary : Json → Json → Prop} {name : String} {names : List String} {step : Step}
variable {v old new : Json}

theorem only_self : Only name Vary name = Vary := by
  funext v w
  exact if_pos rfl

/-! ### Equal values vary -/

theorem only_refl (h : ∀ v, Vary v v) (other : String) (v : Json) : Only name Vary other v v := by
  unfold Only
  split
  · exact h v
  · rfl

theorem forall₂_refl (h : ∀ v, Vary v v) (items : List Json) : List.Forall₂ Vary items items :=
  List.forall₂_same.mpr fun v _ => h v

theorem itemwise_refl (h : ∀ v, Vary v v) (v : Json) : Itemwise Vary v v := by
  cases v with
  | array items => exact forall₂_refl h items
  | _ => rfl

theorem rel_refl (h : ∀ v, Vary v v) (v? : Option Json) : Option.Rel Vary v? v? := by
  cases v? with
  | none => exact .none
  | some v => exact .some (h v)

theorem elementsVary_refl {Vary : String → Json → Json → Prop} (h : ∀ name v, Vary name v v) :
    ∀ (names : List String) (items : List Json), ElementsVary Vary names items items
  | [], items => .unnamed items
  | names, [] => .absent names
  | name :: names, v :: items => .next (h name v) (elementsVary_refl h names items)

theorem memberwise_refl {Vary : String → Json → Json → Prop} (h : ∀ name v, Vary name v v)
    (v : Json) : Memberwise names Vary v v := by
  cases v with
  | object members => exact fun name _ => rel_refl (h name) _
  | array items => exact elementsVary_refl h names items
  | _ => rfl

/-! ### What is read of values that vary under one name -/

theorem respects_only {α : Type} {read : Reading α} {Related : α → α → Prop}
    (h : Respects Vary read Related) : Respects (Only name Vary name) read Related := by
  rwa [only_self]

theorem respects_only_of_ne {α : Type} {other : String} (h : other ≠ name) (read : Reading α) :
    Respects (Only name Vary other) read Eq := by
  intro v w hv
  rw [Only, if_neg h] at hv
  exact respects_eq read v w hv

/-! ### One step -/

theorem forall₂_set (h : ∀ v, Vary v v) (hnew : Vary old new) :
    ∀ {items : List Json} {index : Nat}, items[index]? = some old →
      List.Forall₂ Vary items (items.set index new)
  | v :: items, 0, hi => by
    obtain rfl : v = old := by simpa using hi
    exact .cons hnew (forall₂_refl h items)
  | v :: items, index + 1, hi => .cons (h v) (forall₂_set h hnew (by simpa using hi))

/-- **One item** of a list is another one. -/
theorem itemwise_set (h : ∀ v, Vary v v) {index : Nat} (hi : (Step.item index).at? v = some old)
    (hnew : Vary old new) : Itemwise Vary v ((Step.item index).set new v) := by
  cases v with
  | array items => exact forall₂_set h hnew hi
  | _ => cases hi

theorem lookupsVary_insert {Vary : String → Json → Json → Prop} (hr : ∀ name v, Vary name v v)
    {members : Members} (hv : members.find? name = some old) (h : Vary name old new) :
    LookupsVary names Vary (members.find? ·) ((members.insert name new).find? ·) := by
  intro other _
  show Option.Rel _ (members.find? other) ((members.insert name new).find? other)
  rw [Members.find?_insert]
  split_ifs with he
  · subst he
    rw [hv]
    exact .some h
  · exact rel_refl (hr other) _

theorem elementsVary_set (h : ∀ v, Vary v v) (hnew : Vary old new) :
    ∀ {names : List String} {items : List Json}, name ∈ names →
      items[names.idxOf name]? = some old →
        ElementsVary (Only name Vary) names items (items.set (names.idxOf name) new)
  | first :: names, v :: items, hname, hi => by
    by_cases he : first = name
    · subst he
      rw [List.idxOf_cons_self] at hi ⊢
      obtain rfl : v = old := by simpa using hi
      exact .next (by rwa [only_self]) (elementsVary_refl (fun n => only_refl h n) _ _)
    · have hrest : name ∈ names := (List.mem_cons.mp hname).resolve_left (Ne.symm he)
      rw [List.idxOf_cons_ne _ he] at hi ⊢
      refine .next (only_refl h first v) (elementsVary_set h hnew hrest ?_)
      simpa using hi

/-- **One member** of a record is another one. -/
theorem memberwise_set (h : ∀ v, Vary v v) (hname : name ∈ names) (hs : IsStepTo names name step)
    (hv : step.at? v = some old) (hnew : Vary old new) :
    Memberwise names (Only name Vary) v (step.set new v) := by
  rcases hs with rfl | rfl
  · cases v with
    | object members => exact lookupsVary_insert (only_refl h) hv (by rwa [only_self])
    | _ => cases hv
  · cases v with
    | array items => exact elementsVary_set h hnew hname hv
    | _ => cases hv

end TestTree.Json
