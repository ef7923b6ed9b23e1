import TestTree.Json.Schema
import Mathlib.Data.List.Forall2

/-! # Readings that agree

Two values that differ in places that do not matter are read in the same way: with one mismatch, or
as records that differ in corresponding places (`Agree`). `Respects Vary read Related` says so of a
reading, where `Vary` tells how the values may differ and `Related` how the records then do. For a
schema the values may differ in a way that depends on the member (`Schema.Respects`), and it looks
at no member but those that it has the names of.

This is known of a schema from what it is built of (`Schema.respects_seq`, `Schema.respects_map`
and the cases of `Schema.respects_member`); from a schema it passes to the records
(`Schema.Respects.read`), and from items to lists (`respects_readList`). -/

namespace TestTree.Json

variable {ε α β : Type}

/-- Two results that fail in one way, or give related values. -/
inductive Agree (Related : α → α → Prop) : Except ε α → Except ε α → Prop
  | error (e : ε) : Agree Related (.error e) (.error e)
  | ok {a b : α} (h : Related a b) : Agree Related (.ok a) (.ok b)

theorem Agree.refl {Related : α → α → Prop} (h : ∀ a, Related a a) (x : Except ε α) :
    Agree Related x x := by
  cases x with
  | error e => exact .error e
  | ok a => exact .ok (h a)

theorem Agree.eq {x y : Except ε α} (h : Agree Eq x y) : x = y := by
  cases h with
  | error e => rfl
  | ok he => exact congrArg Except.ok he

theorem Agree.bind {Before : α → α → Prop} {Related : β → β → Prop} {x y : Except ε α}
    {f g : α → Except ε β} (h : Agree Before x y)
    (hf : ∀ a b, Before a b → Agree Related (f a) (g b)) :
    Agree Related (x.bind f) (y.bind g) := by
  cases h with
  | error e => exact .error e
  | ok hab => exact hf _ _ hab

theorem Agree.map {Before : α → α → Prop} {Related : β → β → Prop} {x y : Except ε α} {f : α → β}
    (h : Agree Before x y) (hf : ∀ a b, Before a b → Related (f a) (f b)) :
    Agree Related (x.map f) (y.map f) := by
  cases h with
  | error e => exact .error e
  | ok hab => exact .ok (hf _ _ hab)

/-! ### Single values and lists -/

/-- Values that vary are read in the same way, as related records. -/
def Respects (Vary : Json → Json → Prop) (read : Reading α) (Related : α → α → Prop) : Prop :=
  ∀ v w, Vary v w → Agree Related (read v) (read w)

/-- Any reading respects equal values. -/
theorem respects_eq (read : Reading α) : Respects Eq read Eq := by
  rintro v w rfl
  exact .refl (fun _ => rfl) (read v)

/-- Lists whose items vary one by one; other values are equal. -/
def Itemwise (Vary : Json → Json → Prop) : Json → Json → Prop
  | .array items, .array others => List.Forall₂ Vary items others
  | v, w => v = w

theorem agree_mapM {Vary : Json → Json → Prop} {read : Reading α} {Related : α → α → Prop}
    (h : Respects Vary read Related) {items others : List Json}
    (hv : List.Forall₂ Vary items others) :
    Agree (List.Forall₂ Related) (items.mapM read) (others.mapM read) := by
  induction hv with
  | nil => exact .ok .nil
  | cons hv _ ih =>
    rw [List.mapM_cons, List.mapM_cons]
    refine (h _ _ hv).bind fun a b hab => ih.bind fun as bs habs => .ok (.cons hab habs)

theorem respects_readList {Vary : Json → Json → Prop} {read : Reading α} {Related : α → α → Prop}
    (h : Respects Vary read Related) :
    Respects (Itemwise Vary) (readList read) (List.Forall₂ Related) := by
  intro v w hv
  unfold Itemwise at hv
  split at hv
  · exact agree_mapM h hv
  · next hn =>
    subst hv
    -- what is no list is not read, so nothing is asked of `Related`
    cases v with
    | array items => exact absurd rfl (hn items items rfl)
    | _ => exact .error _

/-! ### Records -/

/-- What is looked up may vary, in a way that depends on the name. -/
def LookupsVary (names : List String) (Vary : String → Json → Json → Prop)
    (find? others? : String → Option Json) : Prop :=
  ∀ name ∈ names, Option.Rel (Vary name) (find? name) (others? name)

/-- Sequences whose elements may vary, as far as there are names for them. -/
inductive ElementsVary (Vary : String → Json → Json → Prop) :
    List String → List Json → List Json → Prop
  | unnamed (items : List Json) : ElementsVary Vary [] items items
  | absent (names : List String) : ElementsVary Vary names [] []
  | next {name : String} {names : List String} {v w : Json} {items others : List Json}
    (h : Vary name v w) (hs : ElementsVary Vary names items others) :
    ElementsVary Vary (name :: names) (v :: items) (w :: others)

theorem ElementsVary.length_eq {Vary : String → Json → Json → Prop} {names : List String}
    {items others : List Json} (h : ElementsVary Vary names items others) :
    items.length = others.length := by
  induction h with
  | unnamed => rfl
  | absent => rfl
  | next _ _ ih => rw [List.length_cons, List.length_cons, ih]

theorem ElementsVary.eq {Vary : String → Json → Json → Prop} {items others : List Json}
    (h : ElementsVary Vary [] items others) : items = others := by
  cases h <;> rfl

/-- Records whose members vary, in either form; other values are equal. -/
def Memberwise (names : List String) (Vary : String → Json → Json → Prop) : Json → Json → Prop
  | .object members, .object others =>
    LookupsVary names Vary (Members.find? · members) (Members.find? · others)
  | .array items, .array others => ElementsVary Vary names items others
  | v, w => v = w

namespace Schema

variable {Vary : String → Json → Json → Prop} {names : List String}

/-- A schema of members with these names reads values that vary in the same way, as related
records. -/
structure Respects (schema : Schema α) (names : List String) (Vary : String → Json → Json → Prop)
    (Related : α → α → Prop) : Prop where
  faults {find? others? : String → Option Json} (h : LookupsVary names Vary find? others?) :
    schema.faults find? = schema.faults others?
  ofMembers {find? others? : String → Option Json} (h : LookupsVary names Vary find? others?) :
    Agree Related (schema.ofMembers find?) (schema.ofMembers others?)
  ofItems {later : List String} {index : Nat} {items others : List Json}
    (h : ElementsVary Vary (names ++ later) items others) :
    Agree (fun p q => Related p.1 q.1 ∧ ElementsVary Vary later p.2 q.2)
      (schema.ofItems index items) (schema.ofItems index others)

theorem respects_pure {Related : α → α → Prop} {a : α} (h : Related a a) :
    (pure a : Schema α).Respects [] Vary Related where
  faults _ := rfl
  ofMembers _ := .ok h
  ofItems hv := .ok ⟨h, hv⟩

theorem respects_seq {before after : List String} {f : Schema (α → β)} {x : Schema α}
    {Before : α → α → Prop} {Related : β → β → Prop}
    (hf : f.Respects before Vary fun g k => ∀ a b, Before a b → Related (g a) (k b))
    (hx : x.Respects after Vary Before) : (f <*> x).Respects (before ++ after) Vary Related where
  faults {find? others?} h := by
    obtain ⟨hbefore, hafter⟩ := List.forall_mem_append.mp h
    show f.faults find? ++ x.faults find? = f.faults others? ++ x.faults others?
    rw [hf.faults hbefore, hx.faults hafter]
  ofMembers h := by
    obtain ⟨hbefore, hafter⟩ := List.forall_mem_append.mp h
    exact (hf.ofMembers hbefore).bind fun g k hgk =>
      (hx.ofMembers hafter).bind fun a b hab => .ok (hgk a b hab)
  ofItems h := by
    rw [List.append_assoc] at h
    refine (hf.ofItems h).bind fun p q ⟨hgk, hrest⟩ => ?_
    exact (hx.ofItems hrest).bind fun r s ⟨hab, hlast⟩ => .ok ⟨hgk _ _ hab, hlast⟩

theorem respects_map {g : α → β} {x : Schema α} {Before : α → α → Prop} {Related : β → β → Prop}
    (hx : x.Respects names Vary Before) (h : ∀ a b, Before a b → Related (g a) (g b)) :
    (g <$> x).Respects names Vary Related :=
  respects_seq (f := pure g) (respects_pure h) hx

theorem respects_member {name : String} {read : Reading α} {unnamed unplaced : Option α}
    {Related : α → α → Prop} (h : Json.Respects (Vary name) read Related)
    (hn : ∀ a ∈ unnamed, Related a a) (hp : ∀ a ∈ unplaced, Related a a) :
    (member name read unnamed unplaced).Respects [name] Vary Related where
  faults {find? others?} hv := by
    have hname := hv name List.mem_cons_self
    simp only [member]
    generalize find? name = v? at hname
    generalize others? name = w? at hname
    cases hname with
    | none => rfl
    | @some v w hvw =>
      rw [Option.map_some, Option.map_some]
      have ha := h v w hvw
      generalize read v = x at ha
      generalize read w = y at ha
      cases ha <;> rfl
  ofMembers {find? others?} hv := by
    have hname := hv name List.mem_cons_self
    simp only [member]
    generalize find? name = v? at hname
    generalize others? name = w? at hname
    cases hname with
    | none =>
      cases unnamed with
      | none => exact .error _
      | some a => exact .ok (hn a rfl)
    | some hvw => cases unnamed <;> exact h _ _ hvw
  ofItems {later index items others} hv := by
    cases hv with
    | absent =>
      cases unplaced with
      | none => exact .error _
      | some a => exact .ok ⟨hp a rfl, .absent later⟩
    | @next _ _ v w _ _ hvw hs =>
      have ha := h v w hvw
      simp only [member]
      generalize read v = x at ha
      generalize read w = y at ha
      cases ha with
      | error m => exact .error _
      | ok hab => exact .ok ⟨hab, hs⟩

theorem respects_required {name : String} {read : Reading α} {Related : α → α → Prop}
    (h : Json.Respects (Vary name) read Related) :
    (required name read).Respects [name] Vary Related :=
  respects_member h (by simp) (by simp)

theorem respects_optional {name : String} {read : Reading α} {Related : Option α → Option α → Prop}
    (h : Json.Respects (Vary name) (readNullable read) Related) (hn : Related none none) :
    (optional name read).Respects [name] Vary Related :=
  respects_member h (by simpa using hn) (by simp)

theorem respects_defaulted {name : String} {read : Reading α} {value : α}
    {Related : α → α → Prop} (h : Json.Respects (Vary name) read Related)
    (hd : Related value value) : (defaulted name read value).Respects [name] Vary Related :=
  respects_member h (by simpa using hd) (by simpa using hd)

/-- **The members of an object** are read in the same way. -/
theorem Respects.readMembers {schema : Schema α} {Related : α → α → Prop}
    (h : schema.Respects names Vary Related) {find? others? : String → Option Json}
    (hv : LookupsVary names Vary find? others?) :
    Agree Related (schema.readMembers find?) (schema.readMembers others?) := by
  unfold Schema.readMembers
  rw [h.faults hv]
  split
  · exact .error _
  · exact h.ofMembers hv

/-- A schema looks at no member but those that it has the names of. -/
theorem Respects.readMembers_congr {schema : Schema α}
    (h : schema.Respects names (fun _ => Eq) Eq) {find? others? : String → Option Json}
    (hv : ∀ name ∈ names, find? name = others? name) :
    schema.readMembers find? = schema.readMembers others? := by
  refine (h.readMembers fun name hname => ?_).eq
  rw [hv name hname]
  cases others? name with
  | none => exact .none
  | some v => exact .some rfl

/-- **A record** in either form is read in the same way. -/
theorem Respects.read {schema : Schema α} {Related : α → α → Prop}
    (h : schema.Respects names Vary Related) (name : String) :
    Json.Respects (Memberwise names Vary) (schema.read name) Related := by
  intro v w hv
  unfold Memberwise at hv
  split at hv
  · exact h.readMembers hv
  · next items others =>
    have hitems : ElementsVary Vary (names ++ []) items others := by rwa [List.append_nil]
    have ha : Agree _ (schema.ofItems 0 items) (schema.ofItems 0 others) := h.ofItems hitems
    simp only [Schema.read, readItems, hv.length_eq]
    generalize schema.ofItems 0 items = x at ha
    generalize schema.ofItems 0 others = y at ha
    cases ha with
    | error fault => cases fault <;> exact .error _
    | @ok p q hpq =>
      obtain ⟨a, rest⟩ := p
      obtain ⟨b, rest'⟩ := q
      obtain rfl : rest = rest' := hpq.2.eq
      cases rest with
      | nil => exact .ok hpq.1
      | cons => exact .error _
  · next hobject harray =>
    subst hv
    cases v with
    | object members => exact absurd rfl (hobject members members rfl)
    | array items => exact absurd rfl (harray items items rfl)
    | _ => exact .error _

end Schema

end TestTree.Json
