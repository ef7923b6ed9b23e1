import TestTree.Proofs.Json.Schema

/-! # What readings ensure

`Ensures Given read Holds`: whatever is read from a value of which `Given` holds has the property
`Holds`. For a schema this is asked of both forms of a record (`Schema.Ensures`), and it is known
from what the schema is built of (`Schema.ensures_seq`, `Schema.ensures_map` and the cases of
`Schema.ensures_member`); from a schema it passes to the records (`Schema.Ensures.read`), and from
items to lists (`ensures_readList`). -/

namespace TestTree.Json

variable {α β : Type} {Given : Json → Prop}

/-- Whatever is read from a value of which `Given` holds has the property `Holds`. -/
def Ensures (Given : Json → Prop) (read : Reading α) (Holds : α → Prop) : Prop :=
  ∀ v a, Given v → read v = .ok a → Holds a

/-- `Given` holds of the values within a value of which it holds. -/
structure IsHereditary (Given : Json → Prop) : Prop where
  item {items : List Json} (h : Given (.array items)) : ∀ v ∈ items, Given v
  member {members : Members} (h : Given (.object members)) :
    ∀ key v, members.find? key = some v → Given v

/-! ### Single values -/

theorem ensures_trivial (Given : Json → Prop) (read : Reading α) :
    Ensures Given read fun _ => True :=
  fun _ _ _ _ => trivial

/-- What is read by way of a function is read to something first. -/
theorem exists_of_map_eq_ok {x : Except Mismatch α} {f : α → β} {b : β} (h : x.map f = .ok b) :
    ∃ a, x = .ok a ∧ f a = b := by
  cases x with
  | error => cases h
  | ok a => exact ⟨a, rfl, Except.ok.inj h⟩

/-- Each item of a list is read from some value. -/
theorem exists_of_mapM_eq_ok {read : Reading α} {items : List Json} {as : List α}
    (h : items.mapM read = .ok as) : ∀ a ∈ as, ∃ v ∈ items, read v = .ok a := by
  induction items generalizing as with
  | nil =>
    obtain rfl := mapM_nil_eq_ok_iff.mp h
    simp
  | cons v rest ih =>
    obtain ⟨a, others, rfl, hv, hrest⟩ := mapM_cons_eq_ok_iff.mp h
    refine List.forall_mem_cons.mpr ⟨⟨v, List.mem_cons_self, hv⟩, fun b hb => ?_⟩
    obtain ⟨w, hw, hrw⟩ := ih hrest b hb
    exact ⟨w, List.mem_cons_of_mem v hw, hrw⟩

theorem ensures_readList (hg : IsHereditary Given) {read : Reading α} {Holds : α → Prop}
    (h : Ensures Given read Holds) : Ensures Given (readList read) fun as => ∀ a ∈ as, Holds a := by
  intro v as hv hr a ha
  cases v with
  | array items =>
    obtain ⟨w, hw, hrw⟩ := exists_of_mapM_eq_ok hr a ha
    exact h w a (hg.item hv w hw) hrw
  | _ => cases hr

theorem ensures_readNullable {read : Reading α} {Holds : α → Prop}
    (h : Ensures Given read Holds) :
    Ensures Given (readNullable read) fun a? => ∀ a ∈ a?, Holds a := by
  intro v a? hv hr a ha
  rcases readNullable_cases hr with ⟨-, rfl⟩ | ⟨-, b, hb, rfl⟩
  · cases ha
  · obtain rfl := Option.some.inj ha
    exact h v b hv hb

namespace Schema

/-! ### Schemas -/

/-- Whatever a schema reads from values of which `Given` holds has the property `Holds`. -/
protected structure Ensures (Given : Json → Prop) (schema : Schema α) (Holds : α → Prop) :
    Prop where
  ofMembers {find? : String → Option Json} {a : α} (hg : ∀ key v, find? key = some v → Given v)
    (h : schema.ofMembers find? = .ok a) : Holds a
  ofItems {index : Nat} {items rest : List Json} {a : α} (hg : ∀ v ∈ items, Given v)
    (h : schema.ofItems index items = .ok (a, rest)) : Holds a ∧ ∀ v ∈ rest, Given v

theorem ensures_pure {a : α} {Holds : α → Prop} (h : Holds a) :
    (pure a : Schema α).Ensures Given Holds where
  ofMembers _ ha := by
    obtain rfl := Except.ok.inj ha
    exact h
  ofItems hg ha := by
    obtain ⟨rfl, rfl⟩ := Prod.mk.inj (Except.ok.inj ha)
    exact ⟨h, hg⟩

theorem ensures_seq {f : Schema (α → β)} {x : Schema α} {Before : α → Prop} {Holds : β → Prop}
    (hf : f.Ensures Given fun g => ∀ a, Before a → Holds (g a)) (hx : x.Ensures Given Before) :
    (f <*> x).Ensures Given Holds where
  ofMembers {find? b} hg hb := by
    replace hb : (f.ofMembers find?).bind (fun g => (x.ofMembers find?).bind fun a => .ok (g a)) =
        .ok b := hb
    rcases hfm : f.ofMembers find? with m | g
    · rw [hfm] at hb
      cases hb
    rcases hxm : x.ofMembers find? with m | a
    · rw [hfm, hxm] at hb
      cases hb
    rw [hfm, hxm] at hb
    obtain rfl := Except.ok.inj hb
    exact hf.ofMembers hg hfm a (hx.ofMembers hg hxm)
  ofItems {index items rest b} hg hb := by
    replace hb : (f.ofItems index items).bind (fun p =>
        (x.ofItems (index + f.size) p.2).bind fun q => .ok (p.1 q.1, q.2)) = .ok (b, rest) := hb
    rcases hfi : f.ofItems index items with m | ⟨g, others⟩
    · rw [hfi] at hb
      cases hb
    rcases hxi : x.ofItems (index + f.size) others with m | ⟨a, last⟩
    · simp only [hfi, hxi, Except.bind] at hb
      cases hb
    simp only [hfi, hxi, Except.bind, Except.ok.injEq, Prod.mk.injEq] at hb
    obtain ⟨rfl, rfl⟩ := hb
    obtain ⟨hg', hothers⟩ := hf.ofItems hg hfi
    obtain ⟨ha, hlast⟩ := hx.ofItems hothers hxi
    exact ⟨hg' a ha, hlast⟩

theorem ensures_map {g : α → β} {x : Schema α} {Before : α → Prop} {Holds : β → Prop}
    (hx : x.Ensures Given Before) (h : ∀ a, Before a → Holds (g a)) :
    (g <$> x).Ensures Given Holds :=
  ensures_seq (f := pure g) (ensures_pure h) hx

theorem ensures_member {name : String} {read : Reading α} {unnamed unplaced : Option α}
    {Holds : α → Prop} (h : Ensures Given read Holds) (hn : ∀ a ∈ unnamed, Holds a)
    (hp : ∀ a ∈ unplaced, Holds a) : (member name read unnamed unplaced).Ensures Given Holds where
  ofMembers {find? a} hg ha := by
    simp only [member] at ha
    rcases hv : find? name with - | v
    · rw [hv] at ha
      cases unnamed with
      | none => cases ha
      | some b =>
        obtain rfl := Except.ok.inj ha
        exact hn b rfl
    · rw [hv] at ha
      exact h v a (hg name v hv) (by cases unnamed <;> exact ha)
  ofItems {index items rest a} hg ha := by
    cases items with
    | nil =>
      cases unplaced with
      | none => cases ha
      | some b =>
        obtain ⟨rfl, rfl⟩ := Prod.mk.inj (Except.ok.inj ha)
        exact ⟨hp b rfl, hg⟩
    | cons v others =>
      obtain ⟨hv, hothers⟩ := List.forall_mem_cons.mp hg
      simp only [member] at ha
      split at ha
      · next b hb =>
        obtain ⟨rfl, rfl⟩ := Prod.mk.inj (Except.ok.inj ha)
        exact ⟨h v b hv hb, hothers⟩
      · cases ha

theorem ensures_required {name : String} {read : Reading α} {Holds : α → Prop}
    (h : Ensures Given read Holds) : (required name read).Ensures Given Holds :=
  ensures_member h (by simp) (by simp)

theorem ensures_optional {name : String} {read : Reading α} {Holds : Option α → Prop}
    (h : Ensures Given (readNullable read) Holds) (hn : Holds none) :
    (optional name read).Ensures Given Holds :=
  ensures_member h (by simpa using hn) (by simp)

theorem ensures_defaulted {name : String} {read : Reading α} {value : α} {Holds : α → Prop}
    (h : Ensures Given read Holds) (hd : Holds value) :
    (defaulted name read value).Ensures Given Holds :=
  ensures_member h (by simpa using hd) (by simpa using hd)

/-! ### Records -/

theorem Ensures.readMembers {schema : Schema α} {Holds : α → Prop}
    (h : schema.Ensures Given Holds) {find? : String → Option Json} {a : α}
    (hg : ∀ key v, find? key = some v → Given v) (ha : schema.readMembers find? = .ok a) :
    Holds a :=
  h.ofMembers hg (readMembers_eq_ok_iff.mp ha).ofMembers

/-- **A record** in either form. -/
theorem Ensures.read {schema : Schema α} {Holds : α → Prop} (h : schema.Ensures Given Holds)
    (hg : IsHereditary Given) (name : String) : Json.Ensures Given (schema.read name) Holds := by
  intro v a hv ha
  cases v with
  | object members => exact h.readMembers (hg.member hv) ha
  | array items =>
    simp only [Schema.read, readItems] at ha
    split at ha
    · next b hb =>
      obtain rfl := Except.ok.inj ha
      exact (h.ofItems (hg.item hv) hb).1
    all_goals cases ha
  | _ => cases ha

end Schema

end TestTree.Json
