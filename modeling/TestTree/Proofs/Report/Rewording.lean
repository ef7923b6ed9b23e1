import TestTree.Proofs.Json.Place
import TestTree.Proofs.Report.Members
import TestTree.Proofs.Report.Problems

/-! # Messages with other elements

A message is read whatever its elements are, so it does not matter for anything else in a report of
the compiler which elements it has. Two reports that differ in the elements of their messages vary
in some problems of some modules, or in the message of the report itself (`reportVary`). Hence they
are read as reports with the same titles and places, or not at all (`read_agree`).

`read_replace_message`: this is so if one message is replaced by another array. -/

namespace TestTree.Report

open Json (Agree Itemwise Memberwise LookupsVary Only IsStepTo Respects readNullable respects_only
  respects_only_of_ne)
open Json.Schema (respects_seq respects_map respects_required respects_optional
  respects_defaulted)

/-- **The places of messages**: in the report itself, or in a problem of a module. -/
inductive IsMessagePlace : Json.Place → Prop
  | general : IsMessagePlace [.member "message"]
  | problem (i j : Nat) {problems message : Json.Step}
    (hp : IsStepTo ModuleProblems.memberNames "problems" problems)
    (hm : IsStepTo Problem.memberNames "message" message) :
    IsMessagePlace [.member "errors", .item i, problems, .item j, message]

/-! ### Values that differ in the elements of messages -/

/-- A message with other elements. -/
inductive Reworded : Json → Json → Prop
  | same (v : Json) : Reworded v v
  | elements (items others : List Json) : Reworded (.array items) (.array others)

/-- A problem with another message. -/
def ProblemReworded : Json → Json → Prop :=
  Memberwise Problem.memberNames (Only "message" Reworded)

/-- A module with other messages. -/
def ModuleReworded : Json → Json → Prop :=
  Memberwise ModuleProblems.memberNames (Only "problems" (Itemwise ProblemReworded))

/-- The members of a report with other messages. -/
def reportVary (name : String) : Json → Json → Prop :=
  if name = "errors" then Itemwise ModuleReworded else Only "message" Reworded name

theorem problemReworded_refl (v : Json) : ProblemReworded v v :=
  Json.memberwise_refl (Json.only_refl .same) v

theorem moduleReworded_refl (v : Json) : ModuleReworded v v :=
  Json.memberwise_refl (Json.only_refl (Json.itemwise_refl problemReworded_refl)) v

theorem reportVary_errors : reportVary "errors" = Itemwise ModuleReworded :=
  if_pos rfl

theorem reportVary_of_ne {name : String} (h : name ≠ "errors") :
    reportVary name = Only "message" Reworded name :=
  if_neg h

theorem reportVary_message : reportVary "message" = Reworded :=
  (reportVary_of_ne (by decide)).trans Json.only_self

theorem reportVary_refl (name : String) (v : Json) : reportVary name v v := by
  unfold reportVary
  split
  · exact Json.itemwise_refl moduleReworded_refl v
  · exact Json.only_refl .same name v

/-- **A message that is replaced** makes the members of a report vary. -/
theorem reportVary_replace {members : Json.Members} {place : Json.Place} {old : List Json}
    (hp : IsMessagePlace place) (h : Json.at? place (.object members) = some (.array old))
    (new : List Json) :
    ∃ others : Json.Members, Json.replace (.array new) place (.object members) = .object others ∧
      LookupsVary knownMembers reportVary (members.find? ·) (others.find? ·) := by
  cases hp with
  | general =>
    obtain ⟨v, hv, he⟩ := Option.bind_eq_some_iff.mp h
    obtain rfl : v = .array old := Option.some.inj he
    refine ⟨members.insert "message" (.array new), by rw [Json.replace, hv]; rfl, ?_⟩
    exact Json.lookupsVary_insert reportVary_refl hv (reportVary_message ▸ .elements old new)
  | problem i j hp hm =>
    obtain ⟨modules, hmodules, h⟩ := Option.bind_eq_some_iff.mp h
    obtain ⟨m, hmodule, h⟩ := Option.bind_eq_some_iff.mp h
    obtain ⟨problems, hproblems, h⟩ := Option.bind_eq_some_iff.mp h
    obtain ⟨problem, hproblem, h⟩ := Option.bind_eq_some_iff.mp h
    obtain ⟨v, hv, he⟩ := Option.bind_eq_some_iff.mp h
    obtain rfl : v = .array old := Option.some.inj he
    -- from the message outwards, each value varies because the one within it does
    have hp' := Json.memberwise_set Reworded.same (by decide) hm hv (.elements old new)
    have hps := Json.itemwise_set problemReworded_refl hproblem hp'
    have hm' := Json.memberwise_set (Json.itemwise_refl problemReworded_refl) (by decide) hp
      hproblems hps
    have hms := Json.itemwise_set moduleReworded_refl hmodule hm'
    refine ⟨_, by simp only [Json.replace, hmodules, hmodule, hproblems, hproblem, hv]; rfl, ?_⟩
    exact Json.lookupsVary_insert reportVary_refl hmodules (reportVary_errors ▸ hms)

/-! ### Reports that differ in messages -/

/-- The title and the place of a diagnostic. -/
def Diagnostic.heading (d : Diagnostic) : String × Option String × Option Region :=
  (d.title, d.file, d.region)

/-- Two reports of the compiler have the same titles and places; any others are the same. -/
def SameHeadings : Option Report → Option Report → Prop
  | some (.compiler r), some (.compiler s) =>
    r.diagnostics.map Diagnostic.heading = s.diagnostics.map Diagnostic.heading
  | r, s => r = s

/-- Two problems have the same title and region. -/
def SameProblem (p q : Problem) : Prop := p.title = q.title ∧ p.region = q.region

/-- Two modules have the same path and the same problems, apart from messages. -/
def SameModule (m n : ModuleProblems) : Prop :=
  m.path = n.path ∧ List.Forall₂ SameProblem m.problems n.problems

theorem map_heading_problems {problems others : List Problem}
    (h : List.Forall₂ SameProblem problems others) (file : Option String) :
    (problems.map (Problem.toDiagnostic file)).map Diagnostic.heading =
      (others.map (Problem.toDiagnostic file)).map Diagnostic.heading := by
  induction h with
  | nil => rfl
  | cons hp _ ih =>
    simp only [List.map_cons, ih, Diagnostic.heading, Problem.toDiagnostic, hp.1, hp.2]

theorem map_heading_modules {errors others : List ModuleProblems}
    (h : List.Forall₂ SameModule errors others) :
    (CompileReport.modules errors).diagnostics.map Diagnostic.heading =
      (CompileReport.modules others).diagnostics.map Diagnostic.heading := by
  induction h with
  | nil => rfl
  | cons hm _ ih =>
    simp only [CompileReport.diagnostics, List.flatMap_cons, List.map_append] at ih ⊢
    rw [ih, map_heading_problems hm.2, hm.1]

/-! ### Reading -/

theorem exists_readMessage (items : List Json) :
    ∃ chunks, readMessage (.array items) = .ok chunks := by
  induction items with
  | nil => exact ⟨[], rfl⟩
  | cons item rest ih =>
    obtain ⟨c, hc, -⟩ := Chunk.exists_read item
    obtain ⟨chunks, hchunks⟩ := ih
    exact ⟨c :: chunks, Json.mapM_cons_eq_ok_iff.mpr ⟨c, chunks, rfl, hc, hchunks⟩⟩

/-- **Any elements** are read as a message. -/
theorem respects_readMessage :
    Respects Reworded (readNullable readMessage) fun _ _ => True := by
  intro v w hv
  cases hv with
  | same => exact .refl (fun _ => trivial) _
  | elements items others =>
    obtain ⟨chunks, hchunks⟩ := exists_readMessage items
    obtain ⟨chunks', hchunks'⟩ := exists_readMessage others
    show Agree _ ((readMessage (.array items)).map some) ((readMessage (.array others)).map some)
    rw [hchunks, hchunks']
    exact .ok trivial

theorem Problem.schema_respects :
    Problem.schema.Respects Problem.memberNames (Only "message" Reworded) SameProblem := by
  refine respects_seq (respects_seq (respects_map
    (respects_defaulted (respects_only_of_ne (by decide) _) rfl) ?_)
    (respects_optional (respects_only_of_ne (by decide) _) rfl))
    (respects_optional (respects_only respects_readMessage) trivial)
  intro title _ htitle region _ hregion message _ _
  exact ⟨htitle, hregion⟩

theorem ModuleProblems.schema_respects :
    ModuleProblems.schema.Respects ModuleProblems.memberNames
      (Only "problems" (Itemwise ProblemReworded)) SameModule := by
  have hproblems := Json.respects_readList (Problem.schema_respects.read "Problem")
  refine respects_seq (respects_seq (respects_map
    (respects_optional (respects_only_of_ne (by decide) _) rfl) ?_)
    (respects_optional (respects_only_of_ne (by decide) _) rfl))
    (respects_defaulted (respects_only hproblems) .nil)
  intro path _ hpath name _ _ problems _ hsame
  exact ⟨hpath, hsame⟩

theorem modulesSchema_respects_reworded :
    modulesSchema.Respects CompilerTag.compileErrors.members reportVary
      (List.Forall₂ SameModule) :=
  respects_required (Json.respects_readList (ModuleProblems.schema_respects.read "ModuleErrors"))

theorem GeneralProblem.schema_respects_reworded :
    GeneralProblem.schema.Respects CompilerTag.error.members (Only "message" Reworded)
      fun e f => e.path = f.path ∧ e.title = f.title := by
  refine respects_seq (respects_seq (respects_map
    (respects_optional (respects_only_of_ne (by decide) _) rfl) ?_)
    (respects_defaulted (respects_only_of_ne (by decide) _) rfl))
    (respects_optional (respects_only respects_readMessage) trivial)
  intro path _ hpath title _ htitle message _ _
  exact ⟨hpath, htitle⟩

variable {find? others? : String → Option Json}

theorem CompileReport.readMembers_agree {tag : CompilerTag}
    (h : LookupsVary tag.members reportVary find? others?) :
    Agree (fun r s => r.diagnostics.map Diagnostic.heading = s.diagnostics.map Diagnostic.heading)
      (CompileReport.readMembers tag find?) (CompileReport.readMembers tag others?) := by
  cases tag with
  | compileErrors =>
    exact (modulesSchema_respects_reworded.readMembers h).map fun _ _ => map_heading_modules
  | error =>
    have hmessage : LookupsVary CompilerTag.error.members (Only "message" Reworded)
        find? others? := by
      intro name hname
      have hne : name ≠ "errors" := by
        rintro rfl
        exact absurd hname (by decide)
      exact reportVary_of_ne hne ▸ h name hname
    refine (GeneralProblem.schema_respects_reworded.readMembers hmessage).map fun e f hef => ?_
    simp only [CompileReport.diagnostics, List.map_cons, List.map_nil, Diagnostic.heading, hef.1,
      hef.2]

/-- What is no message and has no messages in it is the same. -/
theorem eq_of_lookupsVary (h : LookupsVary knownMembers reportVary find? others?) (name : String)
    (hname : name ∈ knownMembers) (he : name ≠ "errors") (hm : name ≠ "message") :
    find? name = others? name := by
  have hrel := h name hname
  rw [reportVary_of_ne he] at hrel
  generalize find? name = v? at hrel
  generalize others? name = w? at hrel
  cases hrel with
  | none => rfl
  | some hvw =>
    rw [Only, if_neg hm] at hvw
    rw [hvw]

/-- **Reports with other messages** are read as reports with the same titles and places. -/
theorem readMembers_agree (h : LookupsVary knownMembers reportVary find? others?) :
    Agree SameHeadings (readMembers find?) (readMembers others?) := by
  have hcompiler (tag : CompilerTag) :
      Agree SameHeadings
        ((CompileReport.readMembers tag find?).map fun r => some (Report.compiler r))
        ((CompileReport.readMembers tag others?).map fun r => some (Report.compiler r)) :=
    (CompileReport.readMembers_agree fun name hname => h name (tag.members_subset hname)).map
      fun _ _ hrs => hrs
  have hrunner (tag : RunnerTag) :
      RunnerRecord.readMembers tag find? = RunnerRecord.readMembers tag others? := by
    refine RunnerRecord.readMembers_congr fun name hname =>
      eq_of_lookupsVary h name (tag.members_subset hname) ?_ ?_
    all_goals
      rintro rfl
      cases tag <;> exact absurd hname (by decide)
  have hrefl (x : Except Json.Mismatch (Option Report)) : Agree SameHeadings x x := by
    refine .refl (fun r? => ?_) x
    rcases r? with - | (r | r) <;> rfl
  have htype := eq_of_lookupsVary h "type" (by decide) (by decide) (by decide)
  have hevent := eq_of_lookupsVary h "event" (by decide) (by decide) (by decide)
  simp only [readMembers, htype, hevent, hrunner]
  split
  · split
    · exact hcompiler _
    · exact hrefl _
  · exact hrefl _

/-- **A message that is replaced** by any array leaves the titles and places as they were. -/
theorem read_replace_message {members : Json.Members} {place : Json.Place} {old new : List Json}
    (hp : IsMessagePlace place) (h : Json.at? place (.object members) = some (.array old)) :
    Agree SameHeadings (read (.object members))
      (read (Json.replace (.array new) place (.object members))) := by
  obtain ⟨others, he, hvary⟩ := reportVary_replace hp h new
  rw [he]
  exact readMembers_agree hvary

end TestTree.Report
