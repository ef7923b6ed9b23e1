import TestTree.Text.Blank

/-! # What is left without white space

A text is trimmed to what stands between white space, and neither begins nor ends with white space
(`trim_eq_iff`). The characters that are white space are the 25 of `whiteSpace`
(`isBlank_iff_mem_whiteSpace`). -/

namespace TestTree.Text

variable {text before core : List Char}

/-! ### Characters -/

/-- The code points of white space, one by one. -/
def whiteSpace : List Nat :=
  [0x9, 0xA, 0xB, 0xC, 0xD, 0x20, 0x85, 0xA0, 0x1680, 0x2000, 0x2001, 0x2002, 0x2003, 0x2004,
    0x2005, 0x2006, 0x2007, 0x2008, 0x2009, 0x200A, 0x2028, 0x2029, 0x202F, 0x205F, 0x3000]

theorem isBlank_iff_mem_whiteSpace {c : Char} : isBlank c = true ↔ c.toNat ∈ whiteSpace := by
  simp only [isBlank, whiteSpace, Bool.or_eq_true, Bool.and_eq_true, decide_eq_true_eq,
    List.mem_cons, List.not_mem_nil, or_false]
  omega

theorem forall_isBlank_iff {l : List Char} :
    (∀ c ∈ l, isBlank c = true) ↔ ∀ c ∈ l, c.toNat ∈ whiteSpace := by
  simp only [isBlank_iff_mem_whiteSpace]

/-! ### Texts -/

theorem dropWhile_isBlank_append (hb : ∀ c ∈ before, isBlank c = true) (later : List Char) :
    (before ++ later).dropWhile isBlank = later.dropWhile isBlank := by
  induction before with
  | nil => rfl
  | cons c rest ih =>
    obtain ⟨hc, hrest⟩ := List.forall_mem_cons.mp hb
    rw [List.cons_append, List.dropWhile_cons_of_pos hc, ih hrest]

theorem dropWhile_isBlank_of_head? (hne : core ≠ []) (hc : ∀ c ∈ core.head?, isBlank c = false)
    (later : List Char) : (core ++ later).dropWhile isBlank = core ++ later := by
  obtain ⟨c, rest, rfl⟩ := List.exists_cons_of_ne_nil hne
  refine List.dropWhile_cons_of_neg ?_
  rw [hc c rfl]
  exact Bool.false_ne_true

theorem isBlank_head?_dropWhile (text : List Char) :
    ∀ c ∈ (text.dropWhile isBlank).head?, isBlank c = false := by
  intro c hc
  have h := List.head?_dropWhile_not isBlank text
  rw [Option.mem_def.mp hc] at h
  simpa using h

theorem isBlank_of_mem_takeWhile {c : Char} (h : c ∈ text.takeWhile isBlank) : isBlank c = true :=
  List.all_eq_true.mp List.all_takeWhile c h

/-- **What is left of a text**: all of it but white space before and after, with none at its own
ends. -/
theorem trim_eq_iff :
    trim text = core ↔
      (∃ before after : List Char, text = before ++ core ++ after ∧
        (∀ c ∈ before, isBlank c = true) ∧ ∀ c ∈ after, isBlank c = true) ∧
      (∀ c ∈ core.head?, isBlank c = false) ∧ ∀ c ∈ core.getLast?, isBlank c = false := by
  constructor
  · rintro rfl
    have hfront := List.takeWhile_append_dropWhile (p := isBlank) (l := text)
    have hback := congrArg List.reverse (List.takeWhile_append_dropWhile (p := isBlank)
      (l := (text.dropWhile isBlank).reverse))
    rw [List.reverse_append, List.reverse_reverse] at hback
    refine ⟨⟨text.takeWhile isBlank, ((text.dropWhile isBlank).reverse.takeWhile isBlank).reverse,
      ?_, fun c => isBlank_of_mem_takeWhile, fun c hc => ?_⟩, fun c hc => ?_, fun c hc => ?_⟩
    · rw [trim, List.append_assoc, hback, hfront]
    · exact isBlank_of_mem_takeWhile (List.mem_reverse.mp hc)
    · -- Where the text begins with it, the trimmed text does if anything of it is left.
      have hhead : (text.dropWhile isBlank).head? = some c := by
        rw [← hback, List.head?_append, ← trim, Option.mem_def.mp hc]
        rfl
      exact isBlank_head?_dropWhile text c hhead
    · rw [trim, List.getLast?_reverse] at hc
      exact isBlank_head?_dropWhile _ c hc
  · rintro ⟨⟨before, after, rfl, hbefore, hafter⟩, hhead, hlast⟩
    rw [trim, List.append_assoc, dropWhile_isBlank_append hbefore]
    by_cases hne : core = []
    · have hnil := dropWhile_isBlank_append hafter []
      rw [List.append_nil] at hnil
      rw [hne, List.nil_append, hnil]
      rfl
    · have hrev := dropWhile_isBlank_of_head? (List.reverse_ne_nil_iff.mpr hne)
        (by rwa [List.head?_reverse]) []
      rw [List.append_nil] at hrev
      rw [dropWhile_isBlank_of_head? hne hhead, List.reverse_append,
        dropWhile_isBlank_append fun c hc => hafter c (List.mem_reverse.mp hc), hrev,
        List.reverse_reverse]

end TestTree.Text
