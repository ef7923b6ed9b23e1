import TestTree.Location
import TestTree.Proofs.Label
import TestTree.Proofs.Location.Position
import TestTree.Proofs.Path
import TestTree.Proofs.Text.Numeral

/-! # Identifiers are read back

* `read_suite`, `read_test`, `read_error`: what follows a scheme is read by itself.
* `read_suiteIdentifier`, `read_testIdentifier`: the identifier of a path is read as the file of the
  module that its first label names, and the labels below. What is lost is only which dots and
  slashes of the module were dots.
* `read_errorIdentifier`: the identifier of a position is read as that position, for any file, since
  line and column are taken from the end and have no colons. -/

namespace TestTree.Location

/-! ### Schemes -/

/-- The first mark after a scheme ends it. -/
theorem cutFirst_scheme {scheme : String} (h : ':' ∉ scheme.toList) (rest : String) :
    Text.cutFirst [':', '/', '/'] (scheme ++ "://" ++ rest).toList =
      some (scheme.toList, rest.toList) := by
  rw [String.toList_append, String.toList_append, List.append_assoc]
  exact Text.cutFirst_of_notMem h _ rest.toList

theorem read_suite (rest : String) :
    read (suiteScheme ++ "://" ++ rest) = .ok (.suite (readPath rest).1 (readPath rest).2) := by
  rw [read, cutFirst_scheme (by decide)]
  simp only [if_true, String.ofList_toList]

theorem read_test (rest : String) :
    read (testScheme ++ "://" ++ rest) = .ok (.test (readPath rest).1 (readPath rest).2) := by
  rw [read, cutFirst_scheme (by decide)]
  simp only [if_neg (show ¬ testScheme.toList = suiteScheme.toList by decide), if_true,
    String.ofList_toList]

theorem read_error (rest : String) :
    read (errorScheme ++ "://" ++ rest) =
      (readPosition rest).map fun (file, line, column) => .error file line column := by
  rw [read, cutFirst_scheme (by decide)]
  simp only [if_neg (show ¬ errorScheme.toList = suiteScheme.toList by decide),
    if_neg (show ¬ errorScheme.toList = testScheme.toList by decide), if_true,
    String.ofList_toList]

/-! ### Suites and tests -/

theorem readPath_encode (p : Path) :
    readPath p.encode = (moduleFile (p.labels.headD ""), Path.ofLabels p.labels.tail) := by
  have hl : (p.labels.tail.map fun label => (Label.encode label).toList).map
      (fun form => Label.decode (String.ofList form)) = p.labels.tail := by
    rw [List.map_map]
    exact List.map_id'' (fun label => by simp [Label.decode_encode]) _
  rw [readPath, Path.fields_encode]
  simp only [String.ofList_toList, Label.decode_encode, hl]

theorem read_suiteIdentifier (p : Path) :
    read (suiteIdentifier p) =
      .ok (.suite (moduleFile (p.labels.headD "")) (Path.ofLabels p.labels.tail)) := by
  rw [suiteIdentifier, read_suite, readPath_encode]

theorem read_testIdentifier (p : Path) :
    read (testIdentifier p) =
      .ok (.test (moduleFile (p.labels.headD "")) (Path.ofLabels p.labels.tail)) := by
  rw [testIdentifier, read_test, readPath_encode]

/-! ### Positions -/

theorem denotes_number (file : String) (line column : UInt32) :
    (PositionForm.withColumn file (number line) (number column)).Denotes (file, line, column) := by
  refine ⟨rfl, ?_, ?_⟩
  · rw [number, String.toList_ofList]
    exact Text.Numeral.isNumeral_digits _
  · rw [number, String.toList_ofList]
    exact Text.Numeral.isNumeral_digits _

/-- **Positions are read back.** -/
theorem read_errorIdentifier (file : String) (line column : UInt32) :
    read (errorIdentifier file line column) = .ok (.error file line column) := by
  have hs : errorIdentifier file line column = errorScheme ++ "://" ++
      (PositionForm.withColumn file (number line) (number column)).text := by
    simp only [errorIdentifier, PositionForm.text, String.append_assoc]
  rw [hs, read_error, readPosition_eq_ok_iff.mpr ⟨_, rfl, denotes_number file line column⟩]
  rfl

/-! ### All identifiers -/

/-- An identifier that begins with no scheme is invalid as a whole. -/
theorem read_eq_error_of_forall {identifier : String}
    (h : ∀ scheme ∈ [suiteScheme, testScheme, errorScheme], ∀ rest,
      identifier ≠ scheme ++ "://" ++ rest) : read identifier = .error ⟨identifier⟩ := by
  unfold read
  cases hc : Text.cutFirst [':', '/', '/'] identifier.toList with
  | none => rfl
  | some cut =>
    obtain ⟨scheme, rest⟩ := cut
    have hi : identifier = String.ofList scheme ++ "://" ++ String.ofList rest := by
      rw [← String.toList_inj, Text.eq_of_cutFirst hc]
      simp
    have hne : ∀ known ∈ [suiteScheme, testScheme, errorScheme], scheme ≠ known.toList := by
      rintro known hk rfl
      rw [String.ofList_toList] at hi
      exact h known hk _ hi
    dsimp only
    rw [if_neg (hne suiteScheme (by simp)), if_neg (hne testScheme (by simp)),
      if_neg (hne errorScheme (by simp))]

end TestTree.Location
