import TestTree.Json.Basic
import Mathlib.Data.String.Basic
import Mathlib.Tactic.SplitIfs

/-! # Members in order

Members that are put in order have each key once, in increasing order (`pairwise_sorted`), and are
left as they are after that (`sorted_eq_self`). What is found under a key stays the same if each key
was there once (`find?_sorted`). -/

namespace TestTree.Json.Members

variable {key k : String} {value v : Json} {members : Members}

/-! ### Finding -/

theorem find?_eq_none (h : key ∉ members.map Prod.fst) : members.find? key = none := by
  induction members with
  | nil => rfl
  | cons m rest ih =>
    simp only [List.map_cons, List.mem_cons, not_or] at h
    rw [find?, if_neg (Ne.symm h.1), ih h.2]

theorem mem_of_find? (h : members.find? key = some v) : (key, v) ∈ members := by
  induction members with
  | nil => cases h
  | cons m rest ih =>
    rw [find?] at h
    split_ifs at h with hk
    · cases h
      exact hk ▸ List.mem_cons_self
    · exact List.mem_cons_of_mem m (ih h)

theorem find?_foldl_insert (h : (members.map Prod.fst).Nodup) (sorted : Members) (key : String) :
    (members.foldl (fun sorted (k, v) => Members.insert k v sorted) sorted).find? key =
      (members.find? key).or (sorted.find? key) := by
  induction members generalizing sorted with
  | nil => rfl
  | cons m rest ih =>
    rw [List.map_cons, List.nodup_cons] at h
    rw [List.foldl_cons, ih h.2, find?_insert, find?]
    split_ifs with hk
    · rw [find?_eq_none (hk ▸ h.1)]
      rfl
    · rfl

/-- **Under each key** of members in order the same is found. -/
theorem find?_sorted (h : (members.map Prod.fst).Nodup) (key : String) :
    (Members.sorted members).find? key = members.find? key := by
  rw [sorted, find?_foldl_insert h]
  exact Option.or_none

/-! ### Inserting -/

theorem mem_of_mem_insert {m : String × Json} (h : m ∈ members.insert key value) :
    m = (key, value) ∨ m ∈ members := by
  induction members with
  | nil => exact .inl (List.mem_singleton.mp h)
  | cons first rest ih =>
    unfold insert at h
    split_ifs at h with he hl <;> simp only [List.mem_cons] at h ⊢
    · tauto
    · tauto
    · rcases h with h | h
      · exact .inr (.inl h)
      · exact (ih h).imp_right .inr

theorem key_of_mem_insert (h : k ∈ (members.insert key value).map Prod.fst) :
    k = key ∨ k ∈ members.map Prod.fst := by
  obtain ⟨m, hm, rfl⟩ := List.mem_map.mp h
  exact (mem_of_mem_insert hm).imp (congrArg Prod.fst) (List.mem_map_of_mem)

theorem pairwise_insert (h : (members.map Prod.fst).Pairwise (· < ·)) (key : String)
    (value : Json) : ((members.insert key value).map Prod.fst).Pairwise (· < ·) := by
  induction members with
  | nil => exact List.pairwise_singleton _ _
  | cons m rest ih =>
    obtain ⟨k, v⟩ := m
    obtain ⟨hk, hrest⟩ := List.pairwise_cons.mp h
    unfold insert
    split_ifs with he hl
    · exact he ▸ h
    · refine List.pairwise_cons.mpr ⟨fun other ho => ?_, h⟩
      rcases List.mem_cons.mp ho with rfl | ho
      · exact hl
      · exact hl.trans (hk other ho)
    · refine List.pairwise_cons.mpr ⟨fun other ho => ?_, ih hrest⟩
      rcases key_of_mem_insert ho with rfl | ho
      · exact lt_of_le_of_ne (not_lt.mp hl) (Ne.symm he)
      · exact hk other ho

theorem insert_of_lt (value : Json) (h : ∀ k ∈ members.map Prod.fst, k < key) :
    members.insert key value = members ++ [(key, value)] := by
  induction members with
  | nil => rfl
  | cons m rest ih =>
    obtain ⟨hm, hrest⟩ := List.forall_mem_cons.mp h
    rw [insert, if_neg (ne_of_gt hm), if_neg (lt_asymm hm), ih hrest, List.cons_append]

/-! ### Putting in order -/

theorem pairwise_sorted (members : Members) : (members.sorted.map Prod.fst).Pairwise (· < ·) := by
  have hfold (done : Members) (h : (done.map Prod.fst).Pairwise (· < ·)) :
      ((members.foldl (fun sorted m => Members.insert m.1 m.2 sorted) done).map
        Prod.fst).Pairwise (· < ·) := by
    induction members generalizing done with
    | nil => exact h
    | cons m rest ih => exact ih _ (pairwise_insert h m.1 m.2)
  exact hfold [] .nil

/-- **Members in order** have each key once. -/
theorem nodup_sorted (members : Members) : (members.sorted.map Prod.fst).Nodup :=
  (pairwise_sorted members).imp fun h => ne_of_lt h

/-- Members that are in order stay as they are. -/
theorem sorted_eq_self (h : (members.map Prod.fst).Pairwise (· < ·)) :
    members.sorted = members := by
  have hfold (rest done : Members) (h : ((done ++ rest).map Prod.fst).Pairwise (· < ·)) :
      rest.foldl (fun sorted m => Members.insert m.1 m.2 sorted) done = done ++ rest := by
    induction rest generalizing done with
    | nil => exact (List.append_nil done).symm
    | cons m rest ih =>
      have hlast : ∀ k ∈ done.map Prod.fst, k < m.1 := by
        rw [List.map_append] at h
        exact fun k hk => (List.pairwise_append.mp h).2.2 k hk m.1 List.mem_cons_self
      rw [List.append_cons] at h ⊢
      rw [List.foldl_cons, insert_of_lt m.2 hlast, ih _ h]
  exact hfold members [] h

end TestTree.Json.Members
