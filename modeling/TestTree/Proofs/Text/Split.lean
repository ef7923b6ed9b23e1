import TestTree.Text.Split

/-! # Cutting what was joined

`fields_join`: fields without the separator are found again. `cutFirst_append_mark`: a list is cut
at a mark that follows it if the mark does not begin earlier, within the list or at its end; for
that it suffices that the first element of the mark is not in the list (`cutFirst_of_notMem`).
`cutLast_of_notMem` is the same from the end. A mark is not found just if it is nowhere in the list
(`cutFirst_eq_none_iff`, `cutLast_eq_none_iff`). -/

namespace TestTree.Text

variable {α : Type} [DecidableEq α]

/-! ### At every separator -/

theorem fields_of_notMem {separator : α} {l : List α} (h : separator ∉ l) :
    fields separator l = (l, []) := by
  induction l with
  | nil => rfl
  | cons a rest ih =>
    simp only [List.mem_cons, not_or] at h
    simp [fields, ih h.2, Ne.symm h.1]

theorem fields_append_separator (separator : α) (l rest : List α) :
    fields separator (l ++ separator :: rest) =
      ((fields separator l).1,
        (fields separator l).2 ++ (fields separator rest).1 :: (fields separator rest).2) := by
  induction l with
  | nil => simp [fields]
  | cons a l ih => by_cases h : a = separator <;> simp [fields, ih, h]

theorem fields_append_cons {separator : α} {l : List α} (h : separator ∉ l) (rest : List α) :
    fields separator (l ++ separator :: rest) =
      (l, (fields separator rest).1 :: (fields separator rest).2) := by
  rw [fields_append_separator, fields_of_notMem h]
  rfl

/-- **Fields are found again.** -/
theorem fields_join {separator : α} {first : List α} {later : List (List α)}
    (hf : separator ∉ first) (hl : ∀ f ∈ later, separator ∉ f) :
    fields separator (join separator first later) = (first, later) := by
  induction later generalizing first with
  | nil => simpa [join] using fields_of_notMem hf
  | cons next later ih =>
    have h := ih (hl next (by simp)) fun f hfl => hl f (by simp [hfl])
    rw [join, List.flatMap_cons, List.cons_append, fields_append_cons hf]
    rw [join] at h
    rw [h]

/-! ### At the first mark -/

theorem cutFirst_eq_none_iff {mark l : List α} : cutFirst mark l = none ↔ ¬ mark <:+: l := by
  induction l with
  | nil =>
    by_cases h : mark = []
    · simp [cutFirst, cutFrom, h]
    · simp [cutFirst, cutFrom, h, List.infix_nil]
  | cons a rest ih =>
    rw [cutFirst_cons, List.infix_cons_iff, not_or, ← ih]
    by_cases h : mark <+: a :: rest
    · simp [List.isPrefixOf_iff_prefix.mpr h, h]
    · simp [h, List.isPrefixOf_iff_prefix]

/-- A mark that is found is also found if more follows. -/
theorem cutFirst_append_right {mark l before after : List α}
    (h : cutFirst mark l = some (before, after)) (t : List α) :
    cutFirst mark (l ++ t) = some (before, after ++ t) := by
  induction l generalizing before with
  | nil =>
    by_cases hm : mark = []
    · obtain ⟨rfl, rfl⟩ : before = [] ∧ after = [] := by
        simpa [cutFirst, cutFrom, hm, eq_comm] using h
      cases t <;> simp [cutFirst, cutFrom, hm]
    · simp [cutFirst, cutFrom, hm] at h
  | cons a rest ih =>
    rw [cutFirst_cons] at h
    rw [List.cons_append, cutFirst_cons]
    by_cases hp : mark <+: a :: rest
    · rw [if_pos (List.isPrefixOf_iff_prefix.mpr hp), Option.some.injEq, Prod.mk.injEq] at h
      have hp' : mark <+: a :: (rest ++ t) := hp.trans ⟨t, rfl⟩
      rw [if_pos (List.isPrefixOf_iff_prefix.mpr hp'), ← h.1, ← h.2, ← List.cons_append,
        List.drop_append_of_le_length hp.length_le]
    · rw [if_neg (by simpa [List.isPrefixOf_iff_prefix] using hp)] at h
      obtain ⟨⟨b, c⟩, hc, he⟩ := Option.map_eq_some_iff.mp h
      obtain ⟨hb, rfl⟩ : a :: b = before ∧ c = after := by simpa using he
      have hcut := ih hc
      have hp' : ¬ mark <+: a :: (rest ++ t) := by
        intro hu
        have ht : a :: rest <+: a :: (rest ++ t) := ⟨t, rfl⟩
        have hl : mark.length ≤ (a :: rest).length := by
          rw [eq_of_cutFirst hc]
          simp only [List.length_cons, List.length_append]
          omega
        exact hp (List.prefix_of_prefix_length_le hu ht hl)
      rw [if_neg (by simpa [List.isPrefixOf_iff_prefix] using hp'), hcut]
      simp [hb]

/-- **The mark after a list is the first one** if it begins nowhere before. -/
theorem cutFirst_append_mark {mark l t : List α}
    (h : ∀ s, s ≠ [] → s <:+ l → ¬ mark <+: s ++ (mark ++ t)) :
    cutFirst mark (l ++ (mark ++ t)) = some (l, t) := by
  induction l with
  | nil =>
    rw [List.nil_append]
    cases hm : mark ++ t with
    | nil => simp only [List.append_eq_nil_iff] at hm; simp [cutFirst, cutFrom, hm]
    | cons a rest =>
      rw [cutFirst_cons, if_pos (List.isPrefixOf_iff_prefix.mpr ⟨t, hm⟩), ← hm, List.drop_left]
  | cons a rest ih =>
    have hn : ¬ mark <+: a :: (rest ++ (mark ++ t)) := h (a :: rest) (by simp) List.suffix_rfl
    rw [List.cons_append, cutFirst_cons, if_neg (by simpa [List.isPrefixOf_iff_prefix] using hn),
      ih fun s hs hl => h s hs (hl.trans (List.suffix_cons a rest))]
    rfl

theorem cutFirst_of_notMem {a : α} {l : List α} (h : a ∉ l) (mark t : List α) :
    cutFirst (a :: mark) (l ++ (a :: mark ++ t)) = some (l, t) := by
  refine cutFirst_append_mark fun s hs hl hp => ?_
  cases s with
  | nil => exact hs rfl
  | cons b s =>
    rw [List.cons_append, List.cons_prefix_cons] at hp
    exact h (hp.1 ▸ hl.subset List.mem_cons_self)

/-! ### At the last mark -/

theorem cutLast_eq_none_iff {mark l : List α} : cutLast mark l = none ↔ ¬ mark <:+: l := by
  rw [cutLast, Option.map_eq_none_iff, cutFirst_eq_none_iff, List.reverse_infix]

/-- What was cut is the part before the mark, the mark, and the part after it. -/
theorem eq_of_cutLast {mark l before after : List α} (h : cutLast mark l = some (before, after)) :
    l = before ++ mark ++ after := by
  obtain ⟨⟨after', before'⟩, hc, he⟩ := Option.map_eq_some_iff.mp h
  obtain ⟨rfl, rfl⟩ : before'.reverse = before ∧ after'.reverse = after := by simpa using he
  have hl := congrArg List.reverse (eq_of_cutFirst hc)
  rw [List.reverse_reverse] at hl
  rw [hl]
  simp

theorem cutLast_of_notMem {a : α} {l : List α} (h : a ∉ l) (mark front : List α) :
    cutLast (mark ++ [a]) (front ++ (mark ++ [a]) ++ l) = some (front, l) := by
  have hl : a ∉ l.reverse := by simpa using h
  have hc := cutFirst_of_notMem hl mark.reverse front.reverse
  unfold cutLast
  rw [show (mark ++ [a]).reverse = a :: mark.reverse by simp,
    show (front ++ (mark ++ [a]) ++ l).reverse = l.reverse ++ (a :: mark.reverse ++ front.reverse)
      by simp, hc]
  simp

end TestTree.Text
