import TestTree.Proofs.Json.RoundTrip

/-! # One line for a value

The compact text of a readable value has no character below U+0020 (`le_toNat_of_mem_write`), so it
stays on one line whatever its strings contain, and it is read back (`parse?_compact`). -/

namespace TestTree.Json

/-- **The compact text of a value** is read back, with the members of each object in order. -/
theorem parse?_compact {v : Json} (h : Readable maxDepth v) :
    parse? v.compact.toList = some (normalize v) := by
  rw [compact, String.toList_ofList]
  exact parse?_write Style.isBlank_compact h

/-! ### Characters -/

theorem le_toNat_of_isNumeric {c : Char} (h : isNumeric c) : 0x20 ≤ c.toNat := by
  simp only [isNumeric, Bool.or_eq_true, Bool.and_eq_true, decide_eq_true_eq] at h
  rcases h with ((((h | rfl) | rfl) | rfl) | rfl) | rfl
  · have h0 : ('0' : Char).toNat ≤ c.toNat := h.1
    exact Nat.le_trans (by decide) h0
  all_goals decide

theorem le_toNat_hexDigit : ∀ n < 16, 0x20 ≤ (hexDigit n).toNat := by decide

theorem le_toNat_escapeChar (c : Char) : ∀ d ∈ escapeChar c, 0x20 ≤ d.toNat := by
  unfold escapeChar
  split_ifs with hq hb hf hn hr ht hc
  · rcases (by simpa using hq : c = '"' ∨ c = '\\') with rfl | rfl <;> simp
  · simp
  · simp
  · simp
  · simp
  · simp
  · have h1 := le_toNat_hexDigit (c.toNat / 16) (by omega)
    have h2 := le_toNat_hexDigit (c.toNat % 16) (by omega)
    simp [h1, h2]
  · simpa using hc

theorem le_toNat_writeString (s : String) : ∀ c ∈ writeString s, 0x20 ≤ c.toNat := by
  intro c hc
  simp only [writeString, List.mem_cons, List.mem_append, List.mem_flatMap, List.not_mem_nil,
    or_false] at hc
  rcases hc with rfl | ⟨d, -, hd⟩ | rfl
  · decide
  · exact le_toNat_escapeChar d c hd
  · decide

theorem Style.lineBreak_compact (level : Nat) : Style.compact.lineBreak level = [] := rfl

theorem Style.afterColon_compact : Style.compact.afterColon = [] := rfl

mutual

/-- **No control character** is in the compact text of a value. -/
theorem le_toNat_write : ∀ {n : Nat} {v : Json} (level : Nat), Readable n v →
    ∀ c ∈ write .compact level v, 0x20 ≤ c.toNat
  | _, .null, _, _ => by simp [write]
  | _, .bool true, _, _ => by simp [write]
  | _, .bool false, _, _ => by simp [write]
  | _, .number _, _, .number _ hx => fun c hc => le_toNat_of_isNumeric (hx.numeric c hc)
  | _, .string s, _, _ => le_toNat_writeString s
  | _, .array [], _, _ => by simp [write]
  | _, .array (item :: items), level, .array h => by
    have hitem := le_toNat_write (level + 1) (h item List.mem_cons_self)
    have hitems := le_toNat_writeItems (level + 1) fun v hv => h v (List.mem_cons_of_mem item hv)
    simp only [write, Style.lineBreak_compact, List.nil_append, List.forall_mem_cons,
      List.forall_mem_append]
    exact ⟨by decide, hitem, hitems, by simp⟩
  | _, .object [], _, _ => by simp [write]
  | _, .object ((key, value) :: members), level, .object h => by
    have hvalue := le_toNat_write (level + 1) (h (key, value) List.mem_cons_self)
    have hmembers := le_toNat_writeMembers (level + 1) fun m hm => h m (List.mem_cons_of_mem _ hm)
    simp only [write, Style.lineBreak_compact, Style.afterColon_compact, List.nil_append,
      List.forall_mem_cons, List.forall_mem_append]
    exact ⟨by decide, le_toNat_writeString key, by decide, hvalue, hmembers, by simp⟩

theorem le_toNat_writeItems : ∀ {n : Nat} {items : List Json} (level : Nat),
    (∀ v ∈ items, Readable n v) → ∀ c ∈ writeItems .compact level items, 0x20 ≤ c.toNat
  | _, [], _, _ => by simp [writeItems]
  | _, item :: items, level, h => by
    have hitem := le_toNat_write level (h item List.mem_cons_self)
    have hitems := le_toNat_writeItems level fun v hv => h v (List.mem_cons_of_mem item hv)
    simp only [writeItems, Style.lineBreak_compact, List.nil_append, List.forall_mem_cons,
      List.forall_mem_append]
    exact ⟨by decide, hitem, hitems⟩

theorem le_toNat_writeMembers : ∀ {n : Nat} {members : Members} (level : Nat),
    (∀ m ∈ members, Readable n m.2) → ∀ c ∈ writeMembers .compact level members, 0x20 ≤ c.toNat
  | _, [], _, _ => by simp [writeMembers]
  | _, (key, value) :: members, level, h => by
    have hvalue := le_toNat_write level (h (key, value) List.mem_cons_self)
    have hmembers := le_toNat_writeMembers level fun m hm => h m (List.mem_cons_of_mem _ hm)
    simp only [writeMembers, Style.lineBreak_compact, Style.afterColon_compact, List.nil_append,
      List.forall_mem_cons, List.forall_mem_append]
    exact ⟨by decide, le_toNat_writeString key, by decide, hvalue, hmembers⟩

end

theorem notMem_compact {v : Json} {n : Nat} (h : Readable n v) {c : Char} (hc : c.toNat < 0x20) :
    c ∉ v.compact.toList := by
  rw [compact, String.toList_ofList]
  intro hm
  exact absurd (le_toNat_write 0 h c hm) (by omega)

end TestTree.Json
