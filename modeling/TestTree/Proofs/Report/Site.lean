import TestTree.Proofs.Location
import TestTree.Proofs.Report.Problems
import TestTree.Proofs.Report.Runner

/-! # Where the problems of a compiler report are

A compiler report tells for each problem which file it is in and where in the file it starts. A
problem of a module is in the file of the module and starts where its region does; a problem outside
of all modules may have a file, but has no region. `problemSites` lists the values that tell this,
as they are in the report; `FileText` and `RegionStart` say what they tell.

* `diagnostics_placed`: the diagnostics of a report are at the sites of its problems, one for one
  and in order.
* `PlacedAt.namesSite`: the identifier of a diagnostic names its site. -/

namespace TestTree.Report

open Json (memberOf readString readNullable)
open Json.Schema (reads_required reads_optional hasNames_seq hasNames_map hasNames_required
  readMembers_eq_ok_iff)

/-! ### Sites -/

/-- The values of a report that tell the title, the file and the region of a problem. -/
structure Site where
  title : Option Json
  file : Option Json
  region : Option Json

/-- The sites of the problems of a module, in order. The file is that of the module. -/
def moduleSites (m : Json) : List Site :=
  (moduleProblems m).map fun problem =>
    ⟨memberOf Problem.memberNames problem "title", memberOf ModuleProblems.memberNames m "path",
      memberOf Problem.memberNames problem "region"⟩

/-- **The sites of the problems** of a report, in the order of the modules and in each module in
order. A problem outside of all modules has no region. -/
def problemSites (members : Json.Members) : List Site :=
  match members.find? "type", members.find? "errors" with
  | some (.string "compile-errors"), some (.array modules) => modules.flatMap moduleSites
  | some (.string "error"), _ => [⟨members.find? "title", members.find? "path", none⟩]
  | _, _ => []

/-! ### What a site tells -/

/-- **The file of a problem**, if it is known. -/
inductive FileText : Option Json → Option String → Prop
  | absent : FileText none none
  | null : FileText (some .null) none
  | text (file : String) : FileText (some (.string file)) (some file)

/-- The names of the members of a position. -/
def Position.memberNames : List String := ["line", "column"]

/-- The names of the members of a region. -/
def Region.memberNames : List String := ["start", "end"]

/-- **The line and the column** where a region starts. Without a region they are those of the start
of a file. -/
inductive RegionStart : Option Json → UInt32 → UInt32 → Prop
  | absent : RegionStart none 1 1
  | null : RegionStart (some .null) 1 1
  | region {region start : Json} {line column : UInt32}
    (hstart : memberOf Region.memberNames region "start" = some start)
    (hline : memberOf Position.memberNames start "line" = some (.ofNat line.toNat))
    (hcolumn : memberOf Position.memberNames start "column" = some (.ofNat column.toNat)) :
    RegionStart (some region) line column

/-- **A location names a site** if it is read as the file with the line and the column where the
region starts. If the file is not known there is no location. -/
inductive NamesSite (site : Site) : Option String → Prop
  | known {file identifier : String} {line column : UInt32} (hfile : FileText site.file (some file))
    (hstart : RegionStart site.region line column)
    (hread : Location.read identifier = .ok (.error file line column)) :
    NamesSite site (some identifier)
  | unknown (hfile : FileText site.file none) : NamesSite site none

theorem FileText.unique {v? : Option Json} {file other : Option String} (h : FileText v? file)
    (ho : FileText v? other) : file = other := by
  cases h <;> cases ho <;> rfl

/-- A number is written in one way. -/
theorem ofNat_toNat_injective {n m : UInt32} (h : Json.ofNat n.toNat = Json.ofNat m.toNat) :
    n = m := by
  simp only [Json.ofNat, Json.number.injEq, Json.Number.integer.injEq, Int.natCast_inj] at h
  exact UInt32.toNat_inj.mp h

theorem RegionStart.unique {v? : Option Json} {line column line' column' : UInt32}
    (h : RegionStart v? line column) (ho : RegionStart v? line' column') :
    line = line' ∧ column = column' := by
  cases h with
  | absent =>
    cases ho
    exact ⟨rfl, rfl⟩
  | null =>
    cases ho with
    | null => exact ⟨rfl, rfl⟩
    | region hstart => simp [memberOf] at hstart
  | region hstart hline hcolumn =>
    cases ho with
    | null => simp [memberOf] at hstart
    | region hstart' hline' hcolumn' =>
      obtain rfl := Option.some.inj (hstart.symm.trans hstart')
      exact ⟨ofNat_toNat_injective (Option.some.inj (hline.symm.trans hline')),
        ofNat_toNat_injective (Option.some.inj (hcolumn.symm.trans hcolumn'))⟩

/-- A location that names a site is read as what the site tells, and as nothing else. -/
theorem NamesSite.read_eq {site : Site} {file identifier : String} {line column : UInt32}
    (h : NamesSite site (some identifier)) (hfile : FileText site.file (some file))
    (hstart : RegionStart site.region line column) :
    Location.read identifier = .ok (.error file line column) := by
  cases h with
  | known hfile' hstart' hread =>
    obtain rfl := Option.some.inj (hfile.unique hfile')
    obtain ⟨rfl, rfl⟩ := hstart.unique hstart'
    exact hread

/-- **A diagnostic is at a site.** -/
structure PlacedAt (site : Site) (d : Diagnostic) : Prop where
  title : TitleText site.title d.title
  file : FileText site.file d.file
  start : RegionStart site.region d.start.line d.start.column

theorem PlacedAt.namesSite {site : Site} {d : Diagnostic} (h : PlacedAt site d) :
    NamesSite site d.identifier? := by
  have hfile := h.file
  unfold Diagnostic.identifier?
  cases hf : d.file with
  | none =>
    rw [hf] at hfile
    exact .unknown hfile
  | some file =>
    rw [hf] at hfile
    exact .known hfile h.start (Location.read_errorIdentifier file _ _)

/-! ### Reading -/

theorem fileText_of_reads {find? : String → Option Json} {file : Option String}
    (h : (Json.Schema.optional "path" readString).Reads find? file) :
    FileText (find? "path") file := by
  rcases reads_optional.mp h with ⟨v, hv, hr⟩ | ⟨hn, rfl⟩
  · obtain rfl := readNullable_readString_eq_ok_iff.mp hr
    rw [hv]
    cases file with
    | none => exact .null
    | some file => exact .text file
  · rw [hn]
    exact .absent

theorem eq_ofNat_of_readCoordinate {v : Json} {n : UInt32} (h : readCoordinate v = .ok n) :
    v = .ofNat n.toNat := by
  obtain ⟨m, hm, rfl⟩ := Json.exists_of_map_eq_ok h
  unfold Json.readUnsigned at hm
  split at hm
  · next i =>
    split at hm
    · next hi =>
      obtain rfl := Except.ok.inj hm
      have hlt : i.toNat < Nat.pow 2 32 := by omega
      rw [UInt32.toNat_ofNat_of_lt' hlt, Json.ofNat, Int.toNat_of_nonneg hi.1]
    · cases hm
  · cases hm

theorem Position.hasNames : Position.schema.HasNames Position.memberNames :=
  hasNames_seq (hasNames_map hasNames_required) hasNames_required (by simp)

theorem Region.hasNames : Region.schema.HasNames Region.memberNames :=
  hasNames_seq (hasNames_map hasNames_required) hasNames_required (by simp)

theorem regionStart_of_read {v : Json} {region : Region}
    (h : Region.schema.read "Region" v = .ok region) :
    RegionStart (some v) region.start.line region.start.column := by
  obtain ⟨hs, -⟩ := Region.of_reads (Region.hasNames.reads h)
  obtain ⟨start, hstart, hposition⟩ := reads_required.mp hs
  obtain ⟨hl, hc⟩ := Position.of_reads (Position.hasNames.reads hposition)
  obtain ⟨line, hline, hr⟩ := reads_required.mp hl
  obtain rfl := eq_ofNat_of_readCoordinate hr
  obtain ⟨column, hcolumn, hr⟩ := reads_required.mp hc
  obtain rfl := eq_ofNat_of_readCoordinate hr
  exact .region hstart hline hcolumn

/-- The start of a diagnostic is that of the region it was read with. -/
theorem regionStart_of_reads {find? : String → Option Json} {d : Diagnostic}
    (h : (Json.Schema.optional "region" (Region.schema.read "Region")).Reads find? d.region) :
    RegionStart (find? "region") d.start.line d.start.column := by
  unfold Diagnostic.start
  rcases reads_optional.mp h with ⟨v, hv, hr⟩ | ⟨hn, hd⟩
  · rw [hv]
    rcases Json.readNullable_cases hr with ⟨rfl, hd⟩ | ⟨-, region, hregion, hd⟩
    · rw [hd]
      exact .null
    · rw [hd]
      exact regionStart_of_read hregion
  · rw [hn, hd]
    exact .absent

/-! ### Reports -/

theorem ModuleProblems.placed {v : Json} {m : ModuleProblems}
    (h : ModuleProblems.schema.read "ModuleErrors" v = .ok m) :
    List.Forall₂ PlacedAt (moduleSites v) (m.problems.map (Problem.toDiagnostic m.path)) := by
  obtain ⟨hpath, -, -⟩ := ModuleProblems.of_reads (ModuleProblems.hasNames.reads h)
  refine List.forall₂_map_left_iff.mpr (List.forall₂_map_right_iff.mpr ?_)
  refine (ModuleProblems.problems_read h).imp fun problem p hp => ?_
  obtain ⟨htitle, hregion, -⟩ := Problem.of_reads (Problem.hasNames.reads hp)
  exact ⟨titleText_of_reads htitle, fileText_of_reads hpath,
    regionStart_of_reads (d := p.toDiagnostic m.path) hregion⟩

theorem GeneralProblem.placed {find? : String → Option Json} {e : GeneralProblem}
    (h : GeneralProblem.schema.Reads find? e) (message : String) :
    PlacedAt ⟨find? "title", find? "path", none⟩ ⟨e.title, e.path, none, message⟩ := by
  obtain ⟨hpath, htitle, -⟩ := GeneralProblem.of_reads h
  exact ⟨titleText_of_reads htitle, fileText_of_reads hpath, .absent⟩

/-- The name of a report of the compiler. -/
theorem CompilerTag.of_ofName?_eq_some {name : String} {tag : CompilerTag}
    (h : ofName? name = some tag) :
    name = "compile-errors" ∧ tag = .compileErrors ∨ name = "error" ∧ tag = .error := by
  unfold ofName? at h
  split_ifs at h with hmodules hgeneral
  · exact .inl ⟨hmodules, (Option.some.inj h).symm⟩
  · exact .inr ⟨hgeneral, (Option.some.inj h).symm⟩

/-- **The diagnostics of a report** are at the sites of its problems, one for one and in order. -/
theorem diagnostics_placed {v : Json} {r : CompileReport} (h : read v = .ok (some (.compiler r))) :
    ∃ members : Json.Members, v = .object members ∧
      List.Forall₂ PlacedAt (problemSites members) r.diagnostics := by
  obtain ⟨members, rfl, hc⟩ := of_read_eq_ok h
  refine ⟨members, rfl, ?_⟩
  rcases hc with ⟨name, tag, c, hname, htag, hread, he⟩ | ⟨_, _, _, _, _, _, he⟩
  · obtain rfl := Report.compiler.inj he
    unfold problemSites
    rcases CompilerTag.of_ofName?_eq_some htag with ⟨rfl, rfl⟩ | ⟨rfl, rfl⟩
    · obtain ⟨errors, hm, rfl⟩ := Json.exists_of_map_eq_ok hread
      obtain ⟨modules, hv, hmodules⟩ := modules_read hm
      rw [hname, hv]
      exact List.rel_flatMap hmodules fun v m hm => ModuleProblems.placed hm
    · obtain ⟨e, hg, rfl⟩ := Json.exists_of_map_eq_ok hread
      rw [hname]
      exact .cons (GeneralProblem.placed (readMembers_eq_ok_iff.mp hg) _) .nil
  · cases he

end TestTree.Report
