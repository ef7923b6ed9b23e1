import TestTree.Proofs.Json.Arrangement
import TestTree.Proofs.Report.Records

/-! # Reading back compiler reports

What is read of a compiler report is read back from the value that it is written as, however the
members of that value are arranged. Positions, regions and diagnostics are read back in any case
(`Diagnostic.read_arrange_toJson`). A chunk that is neither a string nor styled text is kept as it
was given, so it is read back if it was read before: only then is it known that it does not read as
one of the others (`Chunk.ensures_read`). The problems of modules and the problem outside of all
modules are read back because their chunks are (`modulesSchema_ensures`,
`GeneralProblem.schema_ensures`). -/

namespace TestTree.Report

open Json (Arrangement Ensures readNullable)
open Json.Schema (reads_required ensures_seq ensures_map ensures_required ensures_optional
  ensures_defaulted)

variable {arrange : Json → Json} {Settled : Json → Prop}

theorem ofRegion?_eq_elim (region : Option Region) :
    ofRegion? region = region.elim .null Region.toJson := by
  cases region <;> rfl

theorem ofMessage?_eq_elim (message : Option (List Chunk)) :
    ofMessage? message = message.elim .null fun chunks => .array (chunks.map Chunk.toJson) := by
  cases message <;> rfl

section Arranged

variable (ha : Arrangement arrange Settled)
include ha

/-! ### Places -/

theorem readCoordinate_ofNat (n : UInt32) :
    readCoordinate (arrange (.ofNat n.toNat)) = .ok n := by
  rw [readCoordinate, ha.readUnsigned n.toNat_lt]
  exact congrArg Except.ok UInt32.ofNat_toNat

theorem Position.read_toJson (p : Position) :
    Position.schema.read "Position" (arrange p.toJson) = .ok p := by
  obtain ⟨line, column⟩ := p
  refine ha.read_object _ (by simp) (.seq (.map ?line) ?column)
  case line => exact .member rfl (readCoordinate_ofNat ha line)
  case column => exact .member rfl (readCoordinate_ofNat ha column)

theorem Region.read_toJson (r : Region) :
    Region.schema.read "Region" (arrange r.toJson) = .ok r := by
  obtain ⟨start, stop⟩ := r
  refine ha.read_object _ (by simp) (.seq (.map ?start) ?stop)
  case start => exact .member rfl (Position.read_toJson ha start)
  case stop => exact .member rfl (Position.read_toJson ha stop)

theorem readNullable_ofRegion? (region : Option Region) :
    readNullable (Region.schema.read "Region") (arrange (ofRegion? region)) = .ok region := by
  rw [ofRegion?_eq_elim]
  refine ha.readNullable fun r _ => ⟨ha.object_ne_null (by simp), Region.read_toJson ha r⟩

/-- **A diagnostic** is read back. -/
theorem Diagnostic.read_arrange_toJson (d : Diagnostic) :
    Diagnostic.read (arrange d.toJson) = .ok d := by
  obtain ⟨title, file, region, message⟩ := d
  refine ha.read_object _ (by simp) (.seq (.seq (.seq (.map ?title) ?file) ?region) ?message)
  case title => exact .member rfl (ha.readString title)
  case file => exact .member rfl (ha.readNullable_ofText? file)
  case region => exact .member rfl (readNullable_ofRegion? ha region)
  case message => exact .member rfl (ha.readString message)

/-! ### Messages -/

theorem Chunk.read_styled (text : String) (bold underline : Bool) (color : Option String) :
    Chunk.read (arrange (Chunk.styled text bold underline color).toJson) =
      .ok (.styled text bold underline color) := by
  have hreads : Chunk.schema.Reads
      (fun key => (Json.Members.find? key [("string", .string text), ("bold", .bool bold),
        ("underline", .bool underline), ("color", .ofText? color)]).map arrange)
      (.styled text bold underline color) := by
    refine .seq (.seq (.seq (.map ?text) ?bold) ?underline) ?color
    case text => exact .member rfl (ha.readString text)
    case bold => exact .member rfl (ha.readBool bold)
    case underline => exact .member rfl (ha.readBool underline)
    case color => exact .member rfl (ha.readNullable_ofText? color)
  obtain ⟨arranged, he, hr⟩ := ha.exists_readMembers (by simp) hreads
  rw [Chunk.toJson, he, Chunk.read, hr]

omit ha in
/-- What the schema of a styled chunk reads is styled. -/
theorem Chunk.eq_styled {find? : String → Option Json} {c : Chunk}
    (h : Chunk.schema.readMembers find? = .ok c) :
    ∃ text bold underline color, c = .styled text bold underline color := by
  have hr := Json.Schema.readMembers_eq_ok_iff.mp h
  obtain ⟨text, bold, underline, color, he, -⟩ := Chunk.of_reads hr
  exact ⟨text, bold, underline, color, he⟩

/-- **A chunk** is read back if it was read before. -/
theorem Chunk.ensures_read :
    Ensures Settled Chunk.read fun c => Chunk.read (arrange c.toJson) = .ok c := by
  intro v c hv hr
  -- reading `v` again is the only way to know that `v` is neither a string nor styled
  have hother (h : c = .other v) : Chunk.read (arrange c.toJson) = .ok c :=
    ha.read_kept hv hr (by rw [h, Chunk.toJson])
  cases v with
  | string text =>
    obtain rfl := Except.ok.inj hr
    rw [Chunk.toJson, ha.string]
    rfl
  | object members =>
    simp only [Chunk.read] at hr
    split at hr
    · next chunk hs =>
      obtain rfl := Except.ok.inj hr
      obtain ⟨text, bold, underline, color, rfl⟩ := Chunk.eq_styled hs
      exact Chunk.read_styled ha text bold underline color
    · exact hother (Except.ok.inj hr).symm
  | _ => exact hother (Except.ok.inj hr).symm

theorem ensures_readMessage :
    Ensures Settled (readNullable readMessage) fun message =>
      readNullable readMessage (arrange (ofMessage? message)) = .ok message := by
  simp only [ofMessage?_eq_elim]
  refine ha.ensures_readNullable fun v chunks hv hr => ⟨?_, ?_⟩
  · rw [ha.array]
    exact Json.noConfusion
  · exact ha.readList (Json.ensures_readList ha.hereditary (Chunk.ensures_read ha) v chunks hv hr)

/-! ### Problems -/

theorem Problem.schema_ensures :
    Problem.schema.Ensures Settled fun p =>
      Problem.schema.read "Problem" (arrange p.toJson) = .ok p := by
  refine ensures_seq (ensures_seq (ensures_map
    (ensures_defaulted (Json.ensures_trivial _ _) trivial) ?_)
    (ensures_optional (Json.ensures_trivial _ _) trivial))
    (ensures_optional (ensures_readMessage ha) (ha.readNullable_null _))
  intro title _ region _ message hm
  refine ha.read_object _ (by simp) (.seq (.seq (.map ?title) ?region) ?message)
  case title => exact .member rfl (ha.readString title)
  case region => exact .member rfl (readNullable_ofRegion? ha region)
  case message => exact .member rfl hm

theorem ModuleProblems.schema_ensures :
    ModuleProblems.schema.Ensures Settled fun m =>
      ModuleProblems.schema.read "ModuleErrors" (arrange m.toJson) = .ok m := by
  have hproblems := Json.ensures_readList ha.hereditary
    ((Problem.schema_ensures ha).read ha.hereditary "Problem")
  refine ensures_seq (ensures_seq (ensures_map
    (ensures_optional (Json.ensures_trivial _ _) trivial) ?_)
    (ensures_optional (Json.ensures_trivial _ _) trivial)) (ensures_defaulted hproblems (by simp))
  intro path _ name _ problems hp
  refine ha.read_object _ (by simp) (.seq (.seq (.map ?path) ?name) ?problems)
  case path => exact .member rfl (ha.readNullable_ofText? path)
  case name => exact .member rfl (ha.readNullable_ofText? name)
  case problems => exact .member rfl (ha.readList hp)

theorem modulesSchema_ensures :
    modulesSchema.Ensures Settled fun errors =>
      Json.readList (ModuleProblems.schema.read "ModuleErrors")
        (arrange (.array (errors.map ModuleProblems.toJson))) = .ok errors := by
  have hmodules := Json.ensures_readList ha.hereditary
    ((ModuleProblems.schema_ensures ha).read ha.hereditary "ModuleErrors")
  refine ensures_required fun v errors hv hr => ?_
  exact ha.readList (hmodules v errors hv hr)

omit ha in
theorem modulesSchema_reads {errors : List ModuleProblems}
    (h : Json.readList (ModuleProblems.schema.read "ModuleErrors")
      (arrange (.array (errors.map ModuleProblems.toJson))) = .ok errors) :
    modulesSchema.Reads (fun key => (Json.Members.find? key
      [("type", .string "compile-errors"),
        ("errors", .array (errors.map ModuleProblems.toJson))]).map arrange) errors :=
  reads_required.mpr ⟨_, rfl, h⟩

theorem GeneralProblem.schema_ensures :
    GeneralProblem.schema.Ensures Settled fun e =>
      readNullable readMessage (arrange (ofMessage? e.message)) = .ok e.message := by
  refine ensures_seq (ensures_seq (ensures_map
    (ensures_optional (Json.ensures_trivial _ _) trivial) ?_)
    (ensures_defaulted (Json.ensures_trivial _ _) trivial))
    (ensures_optional (ensures_readMessage ha) (ha.readNullable_null _))
  intro path _ title _ message hm
  exact hm

theorem GeneralProblem.reads_toMembers {e : GeneralProblem}
    (h : readNullable readMessage (arrange (ofMessage? e.message)) = .ok e.message) :
    GeneralProblem.schema.Reads (fun key => (Json.Members.find? key
      (("type", .string "error") :: e.toMembers)).map arrange) e := by
  obtain ⟨path, title, message⟩ := e
  refine .seq (.seq (.map ?path) ?title) ?message
  case path => exact .member rfl (ha.readNullable_ofText? path)
  case title => exact .member rfl (ha.readString title)
  case message => exact .member rfl h

end Arranged

end TestTree.Report
