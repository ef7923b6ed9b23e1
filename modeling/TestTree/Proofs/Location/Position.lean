import TestTree.Location
import TestTree.Proofs.Text.Numeral
import TestTree.Proofs.Text.Split

/-! # The grammar of positions

A position has one of three forms: a file alone, a file and a line, or a file, a line and a column,
with `::` between them. `Denotes` says which forms are positions and of what. Only with a line and a
column may the file contain `::` itself.

* `splitPosition_text`: a form that is a position is split into its parts. So a text has at most one
  such form (`form_unique`).
* `readPosition_eq_ok_iff`: what is read are the texts with such a form. -/

namespace TestTree.Location

open Text (cutLast cutLast_eq_none_iff cutLast_of_notMem eq_of_cutLast)
open Text.Numeral (IsNumeral)

/-- How a position is written: a file alone, with a line, or with a line and a column. -/
inductive PositionForm where
  | alone (file : String)
  | withLine (file line : String)
  | withColumn (file line column : String)

namespace PositionForm

/-- The text of a form. -/
def text : PositionForm → String
  | alone file => file
  | withLine file line => file ++ "::" ++ line
  | withColumn file line column => file ++ "::" ++ line ++ "::" ++ column

/-- **The position that a form denotes**: its file, line and column. Line and column are numerals of
32 bits, and 1 if they are left out. -/
def Denotes : PositionForm → String × UInt32 × UInt32 → Prop
  | alone file, (f, l, c) => ¬ [':', ':'] <:+: file.toList ∧ f = file ∧ l = 1 ∧ c = 1
  | withLine file line, (f, l, c) =>
    ¬ [':', ':'] <:+: file.toList ∧ f = file ∧ IsNumeral line.toList l.toNat ∧ c = 1
  | withColumn file line column, (f, l, c) =>
    f = file ∧ IsNumeral line.toList l.toNat ∧ IsNumeral column.toList c.toNat

/-- What a form is split into. -/
def parts : PositionForm → List Char × Option (List Char) × Option (List Char)
  | alone file => (file.toList, none, none)
  | withLine file line => (file.toList, some line.toList, none)
  | withColumn file line column => (file.toList, some line.toList, some column.toList)

theorem parts_inj {form form' : PositionForm} (h : form.parts = form'.parts) : form = form' := by
  cases form <;> cases form' <;> simp_all [parts, String.toList_inj]

/-- There is no `::` in the file, unless there is a column. -/
def IsPlain : PositionForm → Prop
  | alone file | withLine file _ => ¬ [':', ':'] <:+: file.toList
  | withColumn _ _ _ => True

theorem Denotes.isPlain {form : PositionForm} {place : String × UInt32 × UInt32}
    (h : form.Denotes place) : form.IsPlain := by
  cases form with
  | alone | withLine => exact h.1
  | withColumn => trivial

end PositionForm

variable {form form' : PositionForm} {place place' : String × UInt32 × UInt32}

/-! ### Numbers -/

theorem readNumber?_eq_some_iff {text : List Char} {n : UInt32} :
    readNumber? text = some n ↔ IsNumeral text n.toNat := by
  have hn : n.toNat ≤ Nat.pow 2 32 - 1 := Nat.le_sub_one_of_lt n.toNat_lt
  have hread : IsNumeral text n.toNat ↔
      Text.Numeral.read (Nat.pow 2 32 - 1) text = .ok n.toNat := by
    rw [Text.Numeral.read_eq_ok_iff, and_iff_left hn]
  rw [hread]
  unfold readNumber?
  cases hr : Text.Numeral.read (Nat.pow 2 32 - 1) text with
  | error fault => simp
  | ok m =>
    have hm : m < 2 ^ 32 := by
      have := (Text.Numeral.read_eq_ok_iff.mp hr).2
      rw [Nat.pow_eq] at this
      omega
    rw [Option.some.injEq, Except.ok.injEq, ← UInt32.toNat_inj, UInt32.toNat_ofNat',
      Nat.mod_eq_of_lt hm]

theorem colon_notMem_of_isNumeral {text : List Char} {n : Nat} (h : IsNumeral text n) :
    ':' ∉ text := by
  obtain ⟨digits, htext, -, hd, -⟩ := h
  have hnot : ':' ∉ digits := fun hm => absurd (hd ':' hm) (by decide)
  rcases htext with rfl | rfl
  · exact hnot
  · simpa using hnot

/-! ### Splitting -/

/-- **A position is split into its parts**: line and column have no colons, so the last `::` stand
before them. -/
theorem splitPosition_text (h : form.Denotes place) :
    splitPosition form.text.toList = form.parts := by
  obtain ⟨f, l, c⟩ := place
  cases form with
  | alone file =>
    have hnone := cutLast_eq_none_iff.mpr h.1
    unfold splitPosition PositionForm.text
    rw [hnone]
    rfl
  | withLine file line =>
    obtain ⟨hplain, -, hl, -⟩ := h
    have hline := cutLast_of_notMem (colon_notMem_of_isNumeral hl) [':'] file.toList
    have hnone := cutLast_eq_none_iff.mpr hplain
    rw [List.singleton_append] at hline
    unfold splitPosition PositionForm.text
    rw [String.toList_append, String.toList_append, show "::".toList = [':', ':'] from rfl, hline]
    dsimp only
    rw [hnone]
    rfl
  | withColumn file line column =>
    obtain ⟨-, hl, hc⟩ := h
    have hcolumn := cutLast_of_notMem (colon_notMem_of_isNumeral hc) [':']
      (file.toList ++ [':', ':'] ++ line.toList)
    have hline := cutLast_of_notMem (colon_notMem_of_isNumeral hl) [':'] file.toList
    rw [List.singleton_append] at hcolumn hline
    unfold splitPosition PositionForm.text
    simp only [String.toList_append, show "::".toList = [':', ':'] from rfl, hcolumn, hline]
    rfl

/-- Any text is split into the parts of some form. -/
theorem exists_form (text : String) :
    ∃ form : PositionForm, form.text = text ∧ form.parts = splitPosition text.toList ∧
      form.IsPlain := by
  unfold splitPosition
  cases hlast : cutLast [':', ':'] text.toList with
  | none => exact ⟨.alone text, rfl, rfl, cutLast_eq_none_iff.mp hlast⟩
  | some cut =>
    obtain ⟨front, last⟩ := cut
    have htext := eq_of_cutLast hlast
    dsimp only
    cases hfront : cutLast [':', ':'] front with
    | none =>
      refine ⟨.withLine (String.ofList front) (String.ofList last), ?_, ?_, ?_⟩
      · rw [← String.toList_inj, htext]
        simp [PositionForm.text]
      · simp [PositionForm.parts]
      · rw [PositionForm.IsPlain, String.toList_ofList]
        exact cutLast_eq_none_iff.mp hfront
    | some cut =>
      obtain ⟨file, line⟩ := cut
      refine ⟨.withColumn (String.ofList file) (String.ofList line) (String.ofList last), ?_, ?_,
        trivial⟩
      · rw [← String.toList_inj, htext, eq_of_cutLast hfront]
        simp [PositionForm.text]
      · simp [PositionForm.parts]

/-- **A text has one form** at most that is a position. -/
theorem form_unique (h : form.Denotes place) (h' : form'.Denotes place')
    (ht : form.text = form'.text) : form = form' := by
  refine PositionForm.parts_inj ?_
  rw [← splitPosition_text h, ← splitPosition_text h', ht]

/-! ### Reading -/

/-- The number that is read of a line or a column, if there is one. -/
def partNumber? (part : Option (List Char)) : Option UInt32 := part.elim (some 1) readNumber?

/-- A form denotes what its parts are read as. -/
theorem PositionForm.denotes_iff {f : String} {l c : UInt32} :
    form.Denotes (f, l, c) ↔ form.IsPlain ∧ f.toList = form.parts.1 ∧
      partNumber? form.parts.2.1 = some l ∧ partNumber? form.parts.2.2 = some c := by
  cases form with
  | alone file =>
    simp only [Denotes, IsPlain, parts, partNumber?, Option.elim, String.toList_inj,
      Option.some.injEq, @eq_comm UInt32 1]
  | withLine file line =>
    simp only [Denotes, IsPlain, parts, partNumber?, Option.elim, String.toList_inj,
      Option.some.injEq, readNumber?_eq_some_iff, @eq_comm UInt32 1]
  | withColumn file line column =>
    simp only [Denotes, IsPlain, parts, partNumber?, Option.elim, String.toList_inj,
      readNumber?_eq_some_iff, true_and]

/-- A text is read by its parts. -/
theorem readPosition_of_splitPosition (text : String) :
    readPosition text =
      match partNumber? (splitPosition text.toList).2.1,
        partNumber? (splitPosition text.toList).2.2 with
      | some l, some c => .ok (String.ofList (splitPosition text.toList).1, l, c)
      | _, _ => .error ⟨text⟩ := by
  unfold readPosition
  rcases splitPosition text.toList with ⟨file, _ | line, _ | column⟩ <;> rfl

theorem readPosition_eq_ok_iff_parts {text f : String} {l c : UInt32} :
    readPosition text = .ok (f, l, c) ↔ f.toList = (splitPosition text.toList).1 ∧
      partNumber? (splitPosition text.toList).2.1 = some l ∧
      partNumber? (splitPosition text.toList).2.2 = some c := by
  rw [readPosition_of_splitPosition]
  rcases splitPosition text.toList with ⟨file, line, column⟩
  dsimp only
  cases partNumber? line <;> cases partNumber? column <;>
    simp [← String.toList_inj, eq_comm]

/-- **What is read** are the texts with a form that is a position. -/
theorem readPosition_eq_ok_iff {text : String} :
    readPosition text = .ok place ↔
      ∃ form : PositionForm, form.text = text ∧ form.Denotes place := by
  obtain ⟨f, l, c⟩ := place
  rw [readPosition_eq_ok_iff_parts]
  constructor
  · intro h
    obtain ⟨form, ht, hparts, hplain⟩ := exists_form text
    rw [← hparts] at h
    exact ⟨form, ht, PositionForm.denotes_iff.mpr ⟨hplain, h⟩⟩
  · rintro ⟨form, rfl, h⟩
    rw [splitPosition_text h]
    exact (PositionForm.denotes_iff.mp h).2

/-- Of the colons in a row the last two are the mark. -/
example : readPosition "src/A:::7" = .ok ("src/A:", 7, 1) := rfl

/-- **All other texts** are invalid as a whole. -/
theorem readPosition_eq_error_iff {text : String} {invalid : Invalid} :
    readPosition text = .error invalid ↔
      (∀ (form : PositionForm) place, form.text = text → ¬ form.Denotes place) ∧
        invalid = ⟨text⟩ := by
  have hinvalid : ∀ e, readPosition text = .error e → e = ⟨text⟩ := by
    intro e he
    rw [readPosition_of_splitPosition] at he
    split at he
    · cases he
    · exact (Except.error.inj he).symm
  constructor
  · intro h
    refine ⟨fun form place ht hd => ?_, hinvalid _ h⟩
    have hok := readPosition_eq_ok_iff.mpr ⟨form, ht, hd⟩
    rw [h] at hok
    cases hok
  · rintro ⟨hnone, rfl⟩
    cases hr : readPosition text with
    | error e => rw [hinvalid e hr]
    | ok place =>
      obtain ⟨form, ht, hd⟩ := readPosition_eq_ok_iff.mp hr
      exact absurd hd (hnone form place ht)

end TestTree.Location
