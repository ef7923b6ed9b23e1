import TestTree.Proofs.Json.Ensures
import TestTree.Proofs.Json.Forms
import TestTree.Proofs.Report.Records

/-! # The problems of a compiler report

A compiler report is a value with problems in it (`problemValues`). What is shown of a problem is
told by its members alone (`ShownAs`): the title, and the texts of all elements of the message one
after the other (`MessageText`). An element that is neither a string nor styled text has no text
(`ElementText`), so no message is refused for its elements.

`diagnostics_shown`: the diagnostics of a report are its problems, one for one and in order. -/

namespace TestTree.Report

open Json (memberOf readString readBool readNullable readString_eq_ok_iff readBool_eq_ok_iff)
open Json.Schema (required defaulted reads_required reads_optional reads_defaulted
  exists_reads_member_iff readMembers_eq_ok_iff hasNames_seq hasNames_map hasNames_optional
  hasNames_defaulted)

/-! ### Messages -/

/-- The members of styled text. Those that style it may be absent, and the color also null. -/
structure IsStyled (members : Json.Members) (text : String) : Prop where
  text : members.find? "string" = some (.string text)
  bold : ∀ v, members.find? "bold" = some v → ∃ b, v = .bool b
  underline : ∀ v, members.find? "underline" = some v → ∃ b, v = .bool b
  color : ∀ v, members.find? "color" = some v → v = .null ∨ ∃ s, v = .string s

/-- **The text of an element** of a message. -/
inductive ElementText : Json → String → Prop
  | plain (s : String) : ElementText (.string s) s
  | styled {members : Json.Members} {text : String} (h : IsStyled members text) :
    ElementText (.object members) text
  | other {v : Json} (hplain : ∀ s, v ≠ .string s)
    (hstyled : ∀ members text, v = .object members → ¬ IsStyled members text) : ElementText v ""

/-- **The text of a message**, if there is one. -/
inductive MessageText : Option Json → String → Prop
  | absent : MessageText none "UNKNOWN"
  | null : MessageText (some .null) "UNKNOWN"
  | elements {items : List Json} {texts : List String} (h : List.Forall₂ ElementText items texts) :
    MessageText (some (.array items)) (String.join texts)

theorem readNullable_readString_eq_ok_iff {v : Json} {text : Option String} :
    readNullable readString v = .ok text ↔ v = .ofText? text := by
  cases v with
  | null => cases text <;> simp [readNullable, Json.ofText?]
  | string s => cases text <;> simp [readNullable, readString, Json.ofText?, Except.map]
  | _ => cases text <;> simp [readNullable, readString, Json.ofText?, Except.map]

/-- A text that may be missing is read just if it is absent, null or a string. -/
theorem exists_reads_text_iff (find? : String → Option Json) (name : String) :
    (∃ text, (Json.Schema.optional name readString).Reads find? text) ↔
      ∀ v, find? name = some v → v = .null ∨ ∃ s, v = .string s := by
  rw [Json.Schema.optional, exists_reads_member_iff (by simp)]
  simp only [readNullable_readString_eq_ok_iff, Option.exists, Json.ofText?]

/-- **Styled text** is what reads as a styled chunk. -/
theorem isStyled_iff {members : Json.Members} {text : String} :
    IsStyled members text ↔
      ∃ c, Chunk.schema.readMembers (members.find? ·) = .ok c ∧ c.text = text := by
  have hstyle {name : String} :
      (∃ b, (defaulted name readBool false).Reads (members.find? ·) b) ↔
        ∀ v, members.find? name = some v → ∃ b, v = .bool b := by
    rw [defaulted, exists_reads_member_iff (by simp)]
    simp only [readBool_eq_ok_iff]
  have hcolor := exists_reads_text_iff (members.find? ·) "color"
  simp only [readMembers_eq_ok_iff]
  constructor
  · intro h
    obtain ⟨bold, hbold⟩ := hstyle.mpr h.bold
    obtain ⟨underline, hunderline⟩ := hstyle.mpr h.underline
    obtain ⟨color, hcolor⟩ := hcolor.mpr h.color
    have htext : (required "string" readString).Reads (members.find? ·) text :=
      reads_required.mpr ⟨_, h.text, rfl⟩
    have hreads : Chunk.schema.Reads (members.find? ·) (.styled text bold underline color) :=
      .seq (.seq (.seq (.map htext) hbold) hunderline) hcolor
    exact ⟨_, hreads, rfl⟩
  · rintro ⟨c, hc, rfl⟩
    obtain ⟨text, bold, underline, color, rfl, ht, hb, hu, hc⟩ := Chunk.of_reads hc
    obtain ⟨v, hv, hr⟩ := reads_required.mp ht
    obtain rfl := readString_eq_ok_iff.mp hr
    exact ⟨hv, hstyle.mp ⟨bold, hb⟩, hstyle.mp ⟨underline, hu⟩, hcolor.mp ⟨color, hc⟩⟩

/-- **Every element is read**, as a chunk with its text. -/
theorem Chunk.exists_read (v : Json) : ∃ c, Chunk.read v = .ok c ∧ ElementText v c.text := by
  cases v with
  | string s => exact ⟨.plain s, rfl, .plain s⟩
  | object members =>
    rcases hc : Chunk.schema.readMembers (Json.Members.find? · members) with m | c
    · refine ⟨.other (.object members), by rw [Chunk.read, hc], .other nofun ?_⟩
      rintro _ text ⟨⟩ hs
      obtain ⟨c, hok, -⟩ := isStyled_iff.mp hs
      rw [hc] at hok
      cases hok
    · exact ⟨c, by rw [Chunk.read, hc], .styled (isStyled_iff.mpr ⟨c, hc, rfl⟩)⟩
  | _ => exact ⟨.other _, rfl, .other nofun nofun⟩

theorem messageText_of_reads {find? : String → Option Json} {message : Option (List Chunk)}
    (h : (Json.Schema.optional "message" readMessage).Reads find? message) :
    MessageText (find? "message") (messageText message) := by
  rcases reads_optional.mp h with ⟨v, hv, hr⟩ | ⟨hn, rfl⟩
  · rw [hv]
    cases v with
    | null =>
      obtain rfl := Except.ok.inj hr
      exact .null
    | array items =>
      obtain ⟨chunks, hc, rfl⟩ := Json.exists_of_map_eq_ok hr
      refine .elements (List.forall₂_map_right_iff.mpr ?_)
      refine (Json.mapM_eq_ok_iff.mp hc).imp fun item c hread => ?_
      obtain ⟨c', hc', ht⟩ := Chunk.exists_read item
      obtain rfl : c' = c := Except.ok.inj (hc'.symm.trans hread)
      exact ht
    | _ => cases hr
  · rw [hn]
    exact .absent

/-! ### Problems -/

/-- The names of the members of a problem. -/
def Problem.memberNames : List String := ["title", "region", "message"]

/-- The names of the members of the problems of a module. -/
def ModuleProblems.memberNames : List String := ["path", "name", "problems"]

theorem Problem.hasNames : Problem.schema.HasNames Problem.memberNames :=
  hasNames_seq (hasNames_seq (hasNames_map hasNames_defaulted) hasNames_optional (by simp))
    hasNames_optional (by simp)

theorem ModuleProblems.hasNames : ModuleProblems.schema.HasNames ModuleProblems.memberNames :=
  hasNames_seq (hasNames_seq (hasNames_map hasNames_optional) hasNames_optional (by simp))
    hasNames_defaulted (by simp)

/-- **The title of a problem**, blank if there is none. -/
inductive TitleText : Option Json → String → Prop
  | absent : TitleText none ""
  | text (s : String) : TitleText (some (.string s)) s

theorem titleText_of_reads {find? : String → Option Json} {title : String}
    (h : (defaulted "title" readString "").Reads find? title) :
    TitleText (find? "title") title := by
  rcases reads_defaulted.mp h with ⟨v, hv, hr⟩ | ⟨hn, rfl⟩
  · obtain rfl := readString_eq_ok_iff.mp hr
    rw [hv]
    exact .text title
  · rw [hn]
    exact .absent

/-- **What is shown of a problem.** -/
structure ShownAs (problem : Json) (d : Diagnostic) : Prop where
  title : TitleText (memberOf Problem.memberNames problem "title") d.title
  message : MessageText (memberOf Problem.memberNames problem "message") d.message

/-- The problems of a module, in order. -/
def moduleProblems (m : Json) : List Json :=
  match memberOf ModuleProblems.memberNames m "problems" with
  | some (.array problems) => problems
  | _ => []

/-- **The problems of a report**, in the order of the modules and in each module in order. A problem
outside of all modules is the report itself. -/
def problemValues (members : Json.Members) : CompilerTag → List Json
  | .compileErrors =>
    match members.find? "errors" with
    | some (.array modules) => modules.flatMap moduleProblems
    | _ => []
  | .error => [.object members]

theorem Problem.shown {v : Json} {p : Problem} (h : Problem.schema.read "Problem" v = .ok p)
    (file : Option String) : ShownAs v (p.toDiagnostic file) := by
  obtain ⟨ht, -, hm⟩ := Problem.of_reads (Problem.hasNames.reads h)
  exact ⟨titleText_of_reads ht, messageText_of_reads hm⟩

/-- The problems of a module are read one by one. -/
theorem ModuleProblems.problems_read {v : Json} {m : ModuleProblems}
    (h : ModuleProblems.schema.read "ModuleErrors" v = .ok m) :
    List.Forall₂ (fun item p => Problem.schema.read "Problem" item = .ok p) (moduleProblems v)
      m.problems := by
  obtain ⟨-, -, hp⟩ := ModuleProblems.of_reads (ModuleProblems.hasNames.reads h)
  unfold moduleProblems
  rcases reads_defaulted.mp hp with ⟨w, hw, hread⟩ | ⟨hn, hnil⟩
  · cases w with
    | array items =>
      rw [hw]
      exact Json.mapM_eq_ok_iff.mp hread
    | _ => cases hread
  · rw [hn, hnil]
    exact .nil

theorem ModuleProblems.shown {v : Json} {m : ModuleProblems}
    (h : ModuleProblems.schema.read "ModuleErrors" v = .ok m) :
    List.Forall₂ ShownAs (moduleProblems v) (m.problems.map (Problem.toDiagnostic m.path)) := by
  refine List.forall₂_map_right_iff.mpr ((ModuleProblems.problems_read h).imp ?_)
  exact fun item p hitem => Problem.shown hitem m.path

/-- The modules of a report are read one by one. -/
theorem modules_read {members : Json.Members} {errors : List ModuleProblems}
    (h : modulesSchema.readMembers (members.find? ·) = .ok errors) :
    ∃ modules, members.find? "errors" = some (.array modules) ∧
      List.Forall₂ (fun v m => ModuleProblems.schema.read "ModuleErrors" v = .ok m) modules
        errors := by
  obtain ⟨v, hv, hread⟩ := reads_required.mp (readMembers_eq_ok_iff.mp h)
  cases v with
  | array modules => exact ⟨modules, hv, Json.mapM_eq_ok_iff.mp hread⟩
  | _ => cases hread

/-- **The diagnostics of a report** show its problems, one for one and in order. -/
theorem diagnostics_shown {members : Json.Members} {tag : CompilerTag} {r : CompileReport}
    (h : CompileReport.readMembers tag (members.find? ·) = .ok r) :
    List.Forall₂ ShownAs (problemValues members tag) r.diagnostics := by
  cases tag with
  | compileErrors =>
    obtain ⟨errors, he, rfl⟩ := Json.exists_of_map_eq_ok h
    obtain ⟨modules, hv, hread⟩ := modules_read he
    rw [problemValues, hv]
    exact List.rel_flatMap hread fun m read hm => ModuleProblems.shown hm
  | error =>
    obtain ⟨error, he, rfl⟩ := Json.exists_of_map_eq_ok h
    obtain ⟨-, ht, hm⟩ := GeneralProblem.of_reads (readMembers_eq_ok_iff.mp he)
    exact .cons ⟨titleText_of_reads ht, messageText_of_reads hm⟩ .nil

end TestTree.Report
