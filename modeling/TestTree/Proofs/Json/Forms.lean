import TestTree.Proofs.Json.Schema
import Mathlib.Data.List.Basic

/-! # The two forms of a record

A record is an object, or a sequence of its values in the order of their names. `memberOf` finds the
value of a name in either form. `Schema.HasNames` gives a schema the names of its members, in
order, and says that a sequence is read as the object with its elements under these names. It is
known of a schema from what it is built of.

`Schema.HasNames.reads`: what is read of a record in either form is what its members are. -/

namespace TestTree.Json

variable {α β : Type}

/-- **The value of a member** of a record in either form, where the record has members with these
names in this order. -/
def memberOf (names : List String) : Json → String → Option Json
  | .object members, name => Members.find? name members
  | .array items, name => items[names.idxOf name]?
  | _, _ => none

namespace Schema

/-- The members of a schema have these names, in this order: a sequence is read as far as there are
names, and as an object with the elements under their names. -/
def HasNames (schema : Schema α) (names : List String) : Prop :=
  ∀ {index : Nat} {items rest : List Json} {a : α}, schema.ofItems index items = .ok (a, rest) →
    rest = items.drop names.length ∧
      ∀ find? : String → Option Json,
        (∀ name ∈ names, find? name = items[names.idxOf name]?) → schema.Reads find? a

theorem hasNames_pure (a : α) : (pure a : Schema α).HasNames [] := by
  intro index items rest b h
  obtain ⟨rfl, rfl⟩ := Prod.mk.inj (Except.ok.inj h)
  exact ⟨rfl, fun _ _ => reads_pure.mpr rfl⟩

theorem hasNames_seq {before after : List String} {f : Schema (α → β)} {x : Schema α}
    (hf : f.HasNames before) (hx : x.HasNames after) (hd : before.Disjoint after) :
    (f <*> x).HasNames (before ++ after) := by
  intro index items rest b h
  replace h : (f.ofItems index items).bind (fun p =>
      (x.ofItems (index + f.size) p.2).bind fun q => .ok (p.1 q.1, q.2)) = .ok (b, rest) := h
  rcases hfi : f.ofItems index items with m | ⟨g, others⟩
  · rw [hfi] at h
    cases h
  rcases hxi : x.ofItems (index + f.size) others with m | ⟨a, last⟩
  · simp only [hfi, hxi, Except.bind] at h
    cases h
  simp only [hfi, hxi, Except.bind, Except.ok.injEq, Prod.mk.injEq] at h
  obtain ⟨rfl, rfl⟩ := h
  obtain ⟨rfl, hg⟩ := hf hfi
  obtain ⟨rfl, ha⟩ := hx hxi
  refine ⟨by rw [List.drop_drop, List.length_append], fun find? hfind => ?_⟩
  refine reads_seq.mpr ⟨g, a, hg find? fun name hname => ?_, ha find? fun name hname => ?_, rfl⟩
  · rw [hfind name (List.mem_append_left after hname), List.idxOf_append_of_mem hname]
  · have hnot : name ∉ before := fun hb => hd hb hname
    rw [hfind name (List.mem_append_right before hname), List.idxOf_append, if_neg hnot,
      List.getElem?_drop, Nat.add_comm]

theorem hasNames_map {names : List String} {g : α → β} {x : Schema α} (hx : x.HasNames names) :
    (g <$> x).HasNames names :=
  hasNames_seq (f := pure g) (hasNames_pure g) hx (List.disjoint_nil_left names)

/-- A value that counts if a sequence ends before it counts also if an object lacks it. -/
theorem hasNames_member {name : String} {read : Reading α} {unnamed unplaced : Option α}
    (h : ∀ a ∈ unplaced, unnamed = some a) :
    (member name read unnamed unplaced).HasNames [name] := by
  intro index items rest a hr
  cases items with
  | nil =>
    cases unplaced with
    | none => cases hr
    | some b =>
      obtain ⟨rfl, rfl⟩ := Prod.mk.inj (Except.ok.inj hr)
      refine ⟨rfl, fun find? hfind => reads_member.mpr (.inr ⟨?_, h b rfl⟩)⟩
      exact hfind name List.mem_cons_self
  | cons v others =>
    simp only [member] at hr
    split at hr
    · next b hb =>
      obtain ⟨rfl, rfl⟩ := Prod.mk.inj (Except.ok.inj hr)
      refine ⟨rfl, fun find? hfind => reads_member.mpr (.inl ⟨v, ?_, hb⟩)⟩
      rw [hfind name List.mem_cons_self, List.idxOf_cons_self]
      rfl
    · cases hr

theorem hasNames_required {name : String} {read : Reading α} :
    (required name read).HasNames [name] :=
  hasNames_member (by simp)

theorem hasNames_optional {name : String} {read : Reading α} :
    (optional name read).HasNames [name] :=
  hasNames_member (by simp)

theorem hasNames_defaulted {name : String} {read : Reading α} {value : α} :
    (defaulted name read value).HasNames [name] :=
  hasNames_member (by simp)

/-- **What is read of a record** in either form is what its members are. -/
theorem HasNames.reads {schema : Schema α} {names : List String} (h : schema.HasNames names)
    {title : String} {v : Json} {a : α} (hr : schema.read title v = .ok a) :
    schema.Reads (memberOf names v) a := by
  cases v with
  | object members => exact readMembers_eq_ok_iff.mp hr
  | array items =>
    simp only [Schema.read, readItems] at hr
    split at hr
    · next b hb =>
      obtain rfl := Except.ok.inj hr
      exact (h hb).2 _ fun _ _ => rfl
    all_goals cases hr
  | _ => cases hr

end Schema

end TestTree.Json
