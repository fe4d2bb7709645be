import ArtifactGraph.Assembly
import ArtifactGraph.Proofs.Places
import ArtifactGraph.Proofs.Records
import ArtifactGraph.Proofs.TableRows

/-!
# The section on what is missing

That a direct dependency has no counterpart is a bit in a model, a name in a report, and a row in
Markdown.  Each is looked for by a loop of its own; this module says that they find the same.

* One record.  `missingName` is the name of the flag, so `isMissing_ofDependency`: the name is there
  if and only if the bit is.
* Reports.  `missing_ofModel`: the records that a report finds are those of the model, in their
  order and with their owners.
* Lines.  `splitOnChar_join`: lines without line feeds are the pieces of the text that they make up.
  `missingSection_eq` takes the section apart in this way.
* `missing_section_of_model` puts these together.
-/

namespace ArtifactGraph

/-! ## Lines -/

/-- Lines without line feeds, each ended by one, are the pieces between the line feeds. -/
theorem Text.splitOnChar_join {lines : List String} (h : ∀ line ∈ lines, '\n' ∉ line.toList) :
    splitOnChar '\n' (String.join (lines.map (· ++ "\n"))) = lines ++ [""] := by
  induction lines with
  | nil => rfl
  | cons line rest ih =>
    obtain ⟨hline, hrest⟩ := List.forall_mem_cons.1 h
    have hchars : (String.join ((line :: rest).map (· ++ "\n"))).toList =
        line.toList ++ '\n' :: (String.join (rest.map (· ++ "\n"))).toList := by
      simp [String.join_cons]
    have hpieces := ih hrest
    rw [splitOnChar_eq] at hpieces
    rw [splitOnChar_eq, hchars, List.splitOn_append_cons_self, List.splitOn_eq_singleton hline,
      List.map_append, hpieces, List.map_singleton, String.ofList_toList, List.singleton_append,
      List.cons_append]

/-! ## What a model finds -/

namespace ApplicationModel

/-- The direct dependencies without a counterpart, with the artifacts that have them: first those of
the application, then those of the nodes. -/
def missing (m : ApplicationModel) : List (ResolvedArtifact × DirectDependency) :=
  m.artifacts.flatMap fun a => (a.directDependencies.filter (·.isMissing)).map (a, ·)

/-- As many are found as are counted. -/
theorem length_missing (m : ApplicationModel) : m.missing.length = m.missingCount := by
  unfold missing missingCount
  rw [List.length_flatMap, List.countP_flatMap]
  congr 1
  apply List.map_congr_left
  intro a _
  rw [List.length_map, Function.comp_apply, List.countP_eq_length_filter]

theorem missing_eq_nil_iff (m : ApplicationModel) : m.missing = [] ↔ m.missingCount = 0 := by
  rw [← length_missing, List.length_eq_zero_iff]

end ApplicationModel

namespace Report

/-! ## What a report finds -/

theorem missingName_eq : missingName = Flag.missingFromApplication.name := rfl

/-- The name of the flag is in a report if and only if its bit is in the model. -/
theorem isMissing_ofDependency (d : DirectDependency) :
    (Record.ofDependency d).isMissing = d.isMissing := by
  have hname : Flag.missingFromApplication.name ∈ d.flags.names ↔ d.isMissing = true :=
    d.flags.mem_names_iff .missingFromApplication
  rw [Bool.eq_iff_iff, Record.isMissing, List.contains_iff_mem, missingName_eq]
  exact hname

theorem artifacts_ofModel (stamp : Stamp) (mode : LaunchMode) (m : ApplicationModel) :
    (ofModel stamp mode m).artifacts = m.artifacts.map Artifact.ofResolved := rfl

theorem filter_isMissing_ofDependency (ds : List DirectDependency) :
    (ds.map Record.ofDependency).filter (·.isMissing) =
      (ds.filter (·.isMissing)).map Record.ofDependency := by
  rw [List.filter_map]
  congr 2
  funext d
  exact isMissing_ofDependency d

/-- A report finds what the model finds, in the same order and under the same owners. -/
theorem missing_ofModel (stamp : Stamp) (mode : LaunchMode) (m : ApplicationModel) :
    (ofModel stamp mode m).missing =
      m.missing.map fun (a, d) => (Artifact.ofResolved a, Record.ofDependency d) := by
  unfold missing ApplicationModel.missing
  rw [artifacts_ofModel, List.flatMap_map, List.map_flatMap]
  congr 1
  funext a
  have hrecords := filter_isMissing_ofDependency a.directDependencies
  show (((a.directDependencies.map Record.ofDependency).filter (·.isMissing)).map _) = _
  rw [hrecords, List.map_map, List.map_map]
  rfl

/-- As many records of a report have the name as are counted. -/
theorem countP_isMissing_ofModel (stamp : Stamp) (mode : LaunchMode) (m : ApplicationModel) :
    ((ofModel stamp mode m).artifacts.flatMap (·.records)).countP (·.isMissing) =
      m.missingCount := by
  unfold ApplicationModel.missingCount
  rw [artifacts_ofModel, List.flatMap_map, List.countP_flatMap, List.countP_flatMap]
  congr 1
  apply List.map_congr_left
  intro a _
  rw [Function.comp_apply, Function.comp_apply, List.countP_eq_length_filter,
    List.countP_eq_length_filter]
  have hrecords := filter_isMissing_ofDependency a.directDependencies
  exact (congrArg List.length hrecords).trans (List.length_map _)

/-! ## What Markdown shows -/

/-- The lines over the rows of what is missing. -/
def missingHeading : List String :=
  ["## Missing From Application", "",
    "Declared dependencies with no counterpart in the resolved application graph.", "",
    "| Declared By | Dependency | Version |", "|-------------|------------|---------|"]

/-- The line of a missing dependency: the coordinates of its owner, its name, and its version. -/
def missingLine (owner : ResolvedArtifact) (d : DirectDependency) : String :=
  "| " ++ cell owner.coordinates.toText ++ " | " ++ cell (d.groupId ++ ":" ++ d.artifactId) ++
    " | " ++ cell (d.version.getD "-") ++ " |"

theorem missingRow_ofDependency (owner : ResolvedArtifact) (d : DirectDependency) :
    missingRow (Artifact.ofResolved owner) (Record.ofDependency d) =
      missingLine owner d ++ "\n" := by
  have hcolon : ":" = cell ":" := rfl
  rw [missingRow, hcolon, ← cell_append, ← cell_append, missingLine]
  simp only [row, Text.joinWith, versionCell, Artifact.ofResolved, Record.ofDependency,
    String.append_assoc]
  rfl

theorem feed_not_mem_missingLine (owner : ResolvedArtifact) (d : DirectDependency) :
    '\n' ∉ (missingLine owner d).toList := by
  have hmarks : '\n' ∉ "| ".toList ∧ '\n' ∉ " | ".toList ∧ '\n' ∉ " |".toList := by decide
  obtain ⟨hfirst, hbetween, hlast⟩ := hmarks
  simp only [missingLine, String.toList_append, List.mem_append, not_or]
  exact ⟨⟨⟨⟨⟨⟨hfirst, feed_not_mem_cell _⟩, hbetween⟩, feed_not_mem_cell _⟩, hbetween⟩,
    feed_not_mem_cell _⟩, hlast⟩

/-- The lines of the section, without the feed that ends the last one. -/
def missingLines (m : ApplicationModel) : List String :=
  missingHeading ++ (m.missing.map fun (a, d) => missingLine a d) ++ [""]

theorem feed_not_mem_missingLines (m : ApplicationModel) :
    ∀ line ∈ missingLines m, '\n' ∉ line.toList := by
  intro line hline
  rcases List.mem_append.1 hline with hline | hline
  · rcases List.mem_append.1 hline with hheading | hrow
    · have hall : ∀ line ∈ missingHeading, '\n' ∉ line.toList := by decide
      exact hall line hheading
    · obtain ⟨⟨a, d⟩, -, rfl⟩ := List.mem_map.1 hrow
      exact feed_not_mem_missingLine a d
  · rw [List.mem_singleton.1 hline]
    exact List.not_mem_nil

/-- The section is nothing, or its lines one after the other. -/
theorem missingSection_eq (stamp : Stamp) (mode : LaunchMode) (m : ApplicationModel) :
    (ofModel stamp mode m).missingSection =
      if m.missing = [] then "" else String.join ((missingLines m).map (· ++ "\n")) := by
  have hrows (f : Artifact × Record → String)
      (hf : ∀ a d, f (Artifact.ofResolved a, Record.ofDependency d) = missingLine a d ++ "\n") :
      (ofModel stamp mode m).missing.map f =
        (m.missing.map fun (a, d) => missingLine a d).map (· ++ "\n") := by
    rw [missing_ofModel, List.map_map, List.map_map]
    exact List.map_congr_left fun p _ => hf p.1 p.2
  have hnil : (ofModel stamp mode m).missing.isEmpty = true ↔ m.missing = [] := by
    rw [List.isEmpty_iff, missing_ofModel, List.map_eq_nil_iff]
  unfold missingSection
  rw [hrows _ fun a d => missingRow_ofDependency a d]
  by_cases hempty : m.missing = []
  · rw [if_pos (hnil.2 hempty), if_pos hempty]
  · have hheading : String.join (missingHeading.map (· ++ "\n")) =
        "## Missing From Application\n\n" ++
          "Declared dependencies with no counterpart in the resolved application graph.\n\n" ++
          "| Declared By | Dependency | Version |\n" ++
          "|-------------|------------|---------|\n" := by decide +kernel
    rw [if_neg (fun h => hempty (hnil.1 h)), if_neg hempty, concat_eq_join, missingLines,
      List.map_append, List.map_append, String.join_append, String.join_append, hheading]
    rfl

end Report

end ArtifactGraph
