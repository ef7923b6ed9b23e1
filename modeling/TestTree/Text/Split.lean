/-! # Cutting lists

A list is cut at every occurrence of a separator (`fields`), at the first occurrence of a mark
(`cutFirst`) or at the last one (`cutLast`). Nothing is lost: putting the separators or the mark
back gives the list that was cut. -/

namespace TestTree.Text

variable {α : Type} [DecidableEq α]

/-! ### At every separator -/

/-- The field before the first separator, and the fields after each. -/
def fields (separator : α) : List α → List α × List (List α)
  | [] => ([], [])
  | a :: rest =>
    let (first, later) := fields separator rest
    if a = separator then ([], first :: later) else (a :: first, later)

/-- Fields in one list, with a separator before each but the first. -/
def join (separator : α) (first : List α) (later : List (List α)) : List α :=
  first ++ later.flatMap (separator :: ·)

theorem join_fields (separator : α) (l : List α) :
    join separator (fields separator l).1 (fields separator l).2 = l := by
  induction l with
  | nil => rfl
  | cons a rest ih =>
    by_cases h : a = separator
    · simpa [fields, join, h] using ih
    · simpa [fields, join, h] using ih

theorem notMem_fields (separator : α) (l : List α) :
    separator ∉ (fields separator l).1 ∧ ∀ f ∈ (fields separator l).2, separator ∉ f := by
  induction l with
  | nil => simp [fields]
  | cons a rest ih =>
    by_cases h : a = separator
    · simpa [fields, h] using ih
    · simpa [fields, h, Ne.symm h] using ih

/-! ### At one mark -/

/-- What stands before and after the first occurrence of a mark in a list that follows `before`,
whose last element comes first. -/
def cutFrom (mark before : List α) : List α → Option (List α × List α)
  | [] => if mark = [] then some (before.reverse, []) else none
  | a :: rest =>
    if mark.isPrefixOf (a :: rest) then some (before.reverse, (a :: rest).drop mark.length)
    else cutFrom mark (a :: before) rest

/-- What stands before and after the first occurrence of a mark. -/
def cutFirst (mark l : List α) : Option (List α × List α) := cutFrom mark [] l

/-- What stands before and after the last occurrence of a mark. -/
def cutLast (mark l : List α) : Option (List α × List α) :=
  (cutFirst mark.reverse l.reverse).map fun (after, before) => (before.reverse, after.reverse)

theorem cutFrom_eq_map (mark before l : List α) :
    cutFrom mark before l = (cutFirst mark l).map fun (b, a) => (before.reverse ++ b, a) := by
  unfold cutFirst
  induction l generalizing before with
  | nil => by_cases h : mark = [] <;> simp [cutFrom, h]
  | cons a rest ih =>
    by_cases h : mark.isPrefixOf (a :: rest) = true
    · simp [cutFrom, h]
    · simp only [cutFrom, h, if_false, Bool.false_eq_true]
      rw [ih, ih [a]]
      simp [Function.comp_def]

theorem cutFirst_cons (mark : List α) (a : α) (rest : List α) :
    cutFirst mark (a :: rest) =
      if mark.isPrefixOf (a :: rest) then some ([], (a :: rest).drop mark.length)
      else (cutFirst mark rest).map fun (b, c) => (a :: b, c) := by
  rw [cutFirst, cutFrom, cutFrom_eq_map]
  rfl

/-- What was cut is the part before the mark, the mark, and the part after it. -/
theorem eq_of_cutFirst {mark l before after : List α} (h : cutFirst mark l = some (before, after)) :
    l = before ++ mark ++ after := by
  induction l generalizing before with
  | nil =>
    simp only [cutFirst, cutFrom] at h
    split at h
    · simp_all
    · simp at h
  | cons a rest ih =>
    rw [cutFirst_cons] at h
    split at h
    · next hp =>
      obtain ⟨rfl, rfl⟩ : before = [] ∧ after = (a :: rest).drop mark.length := by simp_all
      obtain ⟨t, ht⟩ := List.isPrefixOf_iff_prefix.mp hp
      simp [← ht]
    · obtain ⟨⟨b, c⟩, hc, he⟩ := Option.map_eq_some_iff.mp h
      obtain ⟨rfl, rfl⟩ : before = a :: b ∧ after = c := by simp_all
      simp [ih hc]

end TestTree.Text
