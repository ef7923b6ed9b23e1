import TestTree.Proofs.Location

/-! # Which texts are identifiers, and of what

* `read_follows_grammar`: a position is read just if it has one of its forms, and an identifier just
  if it begins with a scheme that is known and, for the scheme of errors, a position follows. The
  text that is reported as invalid is the position alone or the whole identifier.
* `identifiers_distinct`: two paths have the same identifier only if both are blank, and identifiers
  of different schemes are different. -/

namespace TestTree

/-! ### Forms of paths -/

theorem Label.encode_inj {label label' : String} (h : encode label = encode label') :
    label = label' := by
  rw [← decode_encode label, ← decode_encode label', h]

namespace Path

variable {p q : Path}

/-- The paths with nothing to write: the root, and a module without a name. -/
def IsBlank (p : Path) : Prop := p = root ∨ p = ofLabels [""]

theorem isBlank_iff : p.IsBlank ↔ p.labels.headD "" = "" ∧ p.labels.tail = [] := by
  unfold IsBlank
  rw [Path.ext_iff, Path.ext_iff, labels_root, labels_ofLabels (by simp)]
  rcases p.labels with _ | ⟨first, later⟩ <;> simp

theorem encode_of_isBlank (h : p.IsBlank) : p.encode = "" := by
  rcases h with rfl | rfl <;> rfl

theorem labels_of_not_isBlank (h : ¬ p.IsBlank) :
    p.labels = p.labels.headD "" :: p.labels.tail := by
  rcases hl : p.labels with _ | ⟨first, later⟩
  · exact absurd (Or.inl (Path.ext hl)) h
  · rfl

/-- **Paths are written differently**, unless they are blank. -/
theorem encode_eq_iff : p.encode = q.encode ↔ p = q ∨ p.IsBlank ∧ q.IsBlank := by
  constructor
  · intro h
    -- The fields of the text are the forms of the labels, and a form has one label.
    have hf := congrArg (fun text => Text.fields '/' text.toList) h
    simp only [fields_encode, Prod.mk.injEq, String.toList_inj] at hf
    have hhead : p.labels.headD "" = q.labels.headD "" := Label.encode_inj hf.1
    have htail : p.labels.tail = q.labels.tail :=
      (List.map_inj_right fun _ _ he => Label.encode_inj (String.toList_inj.mp he)).mp hf.2
    have hblank : p.IsBlank ↔ q.IsBlank := by rw [isBlank_iff, isBlank_iff, hhead, htail]
    by_cases hp : p.IsBlank
    · exact Or.inr ⟨hp, hblank.mp hp⟩
    · have hq : ¬ q.IsBlank := fun hq => hp (hblank.mpr hq)
      refine Or.inl (Path.ext ?_)
      calc p.labels = p.labels.headD "" :: p.labels.tail := labels_of_not_isBlank hp
        _ = q.labels.headD "" :: q.labels.tail := by rw [hhead, htail]
        _ = q.labels := (labels_of_not_isBlank hq).symm
  · rintro (rfl | ⟨hp, hq⟩)
    · rfl
    · rw [encode_of_isBlank hp, encode_of_isBlank hq]

end Path

namespace Location

/-! ### Different places -/

/-- **Different places have different identifiers.** The identifiers of two suites, or of two tests,
are the same only if their paths are, or if both paths are the root or the single label that is
blank. No identifier is one of a suite and one of a test or of a position, or of a test and of a
position. -/
theorem identifiers_distinct (p q : Path) (file : String) (line column : UInt32) :
    (testIdentifier p = testIdentifier q ↔
        p = q ∨ (p = .root ∨ p = .ofLabels [""]) ∧ (q = .root ∨ q = .ofLabels [""])) ∧
      (suiteIdentifier p = suiteIdentifier q ↔
        p = q ∨ (p = .root ∨ p = .ofLabels [""]) ∧ (q = .root ∨ q = .ofLabels [""])) ∧
      suiteIdentifier p ≠ testIdentifier q ∧
      suiteIdentifier p ≠ errorIdentifier file line column ∧
      testIdentifier p ≠ errorIdentifier file line column := by
  have hp := read_suiteIdentifier p
  have ht := read_testIdentifier p
  have hq := read_testIdentifier q
  have he := read_errorIdentifier file line column
  refine ⟨?_, ?_, fun h => ?_, fun h => ?_, fun h => ?_⟩
  · rw [testIdentifier, testIdentifier, String.append_right_inj]
    exact Path.encode_eq_iff
  · rw [suiteIdentifier, suiteIdentifier, String.append_right_inj]
    exact Path.encode_eq_iff
  -- An identifier of two kinds would be read as a place of both.
  · rw [h, hq] at hp
    cases hp
  · rw [h, he] at hp
    cases hp
  · rw [h, he] at ht
    cases ht

/-! ### What is read -/

/-- An identifier begins with a scheme that is known, or with none. -/
theorem scheme_cases (identifier : String) :
    (∃ rest, identifier = suiteScheme ++ "://" ++ rest) ∨
      (∃ rest, identifier = testScheme ++ "://" ++ rest) ∨
      (∃ rest, identifier = errorScheme ++ "://" ++ rest) ∨
      ∀ scheme ∈ [suiteScheme, testScheme, errorScheme], ∀ rest,
        identifier ≠ scheme ++ "://" ++ rest := by
  by_cases hs : ∃ rest, identifier = suiteScheme ++ "://" ++ rest
  · exact Or.inl hs
  by_cases ht : ∃ rest, identifier = testScheme ++ "://" ++ rest
  · exact Or.inr (Or.inl ht)
  by_cases he : ∃ rest, identifier = errorScheme ++ "://" ++ rest
  · exact Or.inr (Or.inr (Or.inl he))
  refine Or.inr (Or.inr (Or.inr ?_))
  simp only [List.mem_cons, List.not_mem_nil, or_false]
  rintro scheme (rfl | rfl | rfl) rest h
  · exact hs ⟨rest, h⟩
  · exact ht ⟨rest, h⟩
  · exact he ⟨rest, h⟩

/-- **The places** that identifiers are read as. -/
theorem read_eq_ok_iff {identifier : String} {place : Location} :
    read identifier = .ok place ↔
      (∃ rest, identifier = suiteScheme ++ "://" ++ rest ∧
        place = .suite (readPath rest).1 (readPath rest).2) ∨
      (∃ rest, identifier = testScheme ++ "://" ++ rest ∧
        place = .test (readPath rest).1 (readPath rest).2) ∨
      ∃ (form : PositionForm) (f : String) (l c : UInt32),
        identifier = errorScheme ++ "://" ++ form.text ∧ form.Denotes (f, l, c) ∧
        place = .error f l c := by
  constructor
  · intro h
    rcases scheme_cases identifier with ⟨rest, rfl⟩ | ⟨rest, rfl⟩ | ⟨rest, rfl⟩ | hnone
    · rw [read_suite] at h
      exact Or.inl ⟨rest, rfl, (Except.ok.inj h).symm⟩
    · rw [read_test] at h
      exact Or.inr (Or.inl ⟨rest, rfl, (Except.ok.inj h).symm⟩)
    · rw [read_error] at h
      cases hr : readPosition rest with
      | error invalid =>
        rw [hr] at h
        cases h
      | ok position =>
        obtain ⟨form, rfl, hd⟩ := readPosition_eq_ok_iff.mp hr
        rw [hr] at h
        exact Or.inr (Or.inr ⟨form, _, _, _, rfl, hd, (Except.ok.inj h).symm⟩)
    · rw [read_eq_error_of_forall hnone] at h
      cases h
  · rintro (⟨rest, rfl, rfl⟩ | ⟨rest, rfl, rfl⟩ | ⟨form, f, l, c, rfl, hd, rfl⟩)
    · exact read_suite rest
    · exact read_test rest
    · rw [read_error, readPosition_eq_ok_iff.mpr ⟨form, rfl, hd⟩]
      rfl

/-- **The texts** that are reported as invalid. -/
theorem read_eq_error_iff {identifier : String} {invalid : Invalid} :
    read identifier = .error invalid ↔
      (∃ rest, identifier = errorScheme ++ "://" ++ rest ∧
        (∀ (form : PositionForm) position, form.text = rest → ¬ form.Denotes position) ∧
        invalid = ⟨rest⟩) ∨
      (∀ scheme ∈ [suiteScheme, testScheme, errorScheme], ∀ rest,
        identifier ≠ scheme ++ "://" ++ rest) ∧ invalid = ⟨identifier⟩ := by
  constructor
  · intro h
    rcases scheme_cases identifier with ⟨rest, rfl⟩ | ⟨rest, rfl⟩ | ⟨rest, rfl⟩ | hnone
    · rw [read_suite] at h
      cases h
    · rw [read_test] at h
      cases h
    · rw [read_error] at h
      cases hr : readPosition rest with
      | error e =>
        rw [hr] at h
        obtain rfl : e = invalid := Except.error.inj h
        exact Or.inl ⟨rest, rfl, readPosition_eq_error_iff.mp hr⟩
      | ok position =>
        rw [hr] at h
        cases h
    · rw [read_eq_error_of_forall hnone] at h
      exact Or.inr ⟨hnone, (Except.error.inj h).symm⟩
  · rintro (⟨rest, rfl, hr⟩ | ⟨hnone, rfl⟩)
    · rw [read_error, readPosition_eq_error_iff.mpr hr]
      rfl
    · exact read_eq_error_of_forall hnone

/-- **What is read follows a grammar.** A position is read just if it has one of the three forms, as
what the form denotes; it has no two of them and no form in two ways, and any other text is invalid.
An identifier is read just if it begins with the scheme of suites, with that of tests, or with that
of errors before a position. With any other scheme, or without one, the whole identifier is invalid,
and with a bad position the text of that alone. -/
theorem read_follows_grammar (text identifier : String) :
    (∀ position, readPosition text = .ok position ↔
        ∃ form : PositionForm, form.text = text ∧ form.Denotes position) ∧
      (∀ (form form' : PositionForm) position position', form.text = text →
        form'.text = text → form.Denotes position → form'.Denotes position' → form = form') ∧
      (∀ invalid, readPosition text = .error invalid ↔
        (∀ (form : PositionForm) position, form.text = text → ¬ form.Denotes position) ∧
          invalid = ⟨text⟩) ∧
      (∀ place, read identifier = .ok place ↔
        (∃ rest, identifier = "elmTestDescribe://" ++ rest ∧
          place = .suite (readPath rest).1 (readPath rest).2) ∨
        (∃ rest, identifier = "elmTestTest://" ++ rest ∧
          place = .test (readPath rest).1 (readPath rest).2) ∨
        ∃ (form : PositionForm) (f : String) (l c : UInt32),
          identifier = "elmTestError://" ++ form.text ∧ form.Denotes (f, l, c) ∧
          place = .error f l c) ∧
      ∀ invalid, read identifier = .error invalid ↔
        (∃ rest, identifier = "elmTestError://" ++ rest ∧
          (∀ (form : PositionForm) position, form.text = rest → ¬ form.Denotes position) ∧
          invalid = ⟨rest⟩) ∨
        (∀ scheme ∈ ["elmTestDescribe", "elmTestTest", "elmTestError"], ∀ rest,
          identifier ≠ scheme ++ "://" ++ rest) ∧ invalid = ⟨identifier⟩ := by
  have hunique : ∀ (form form' : PositionForm) position position', form.text = text →
      form'.text = text → form.Denotes position → form'.Denotes position' → form = form' :=
    fun form form' _ _ ht ht' hd hd' => form_unique hd hd' (ht.trans ht'.symm)
  exact ⟨fun _ => readPosition_eq_ok_iff, hunique, fun _ => readPosition_eq_error_iff,
    fun _ => read_eq_ok_iff, fun _ => read_eq_error_iff⟩

end Location

end TestTree
