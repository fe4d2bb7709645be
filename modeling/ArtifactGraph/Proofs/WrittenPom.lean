import ArtifactGraph.Pom
import ArtifactGraph.Proofs.WrittenFields
import Mathlib.Data.List.Sort
import Mathlib.Data.String.Basic

/-!
# POMs as they are written

A document writes a POM if its root holds the fields of it, each in an element of its own: texts
with their references, properties and dependencies with nothing but white space between them, and
everything else in any order, with unknown elements anywhere.  The reader gives back the POM of
every such document.

* Maps.  `NameMap.ofList_of_perm`: properties may stand in any order.
* Records of texts: `IsParent` and `IsDependency`.
* Lists and properties: `IsDependencies`, in their order, `IsProperties` and `IsManagement`.
* POMs.  `IsField` has a rule for each kind of field; `read?_of_isWrittenIn` is the theorem.
-/

namespace ArtifactGraph

/-! ## Maps from names -/

namespace NameMap

variable {α : Type}

/-- A list of pairs is a map: in the order of the names, each once. -/
def IsOrdered (m : NameMap α) : Prop := m.Pairwise fun p q => p.1 < q.1

instance (m : NameMap α) : Decidable (IsOrdered m) :=
  inferInstanceAs (Decidable (List.Pairwise _ m))

theorem insert_perm {m : NameMap α} {name : String} (h : name ∉ m.map Prod.fst) (value : α) :
    (insert name value m).Perm ((name, value) :: m) := by
  induction m with
  | nil => exact .refl _
  | cons p rest ih =>
    obtain ⟨n, v⟩ := p
    rw [List.map_cons, List.mem_cons, not_or] at h
    rw [insert, if_neg (by simpa using h.1)]
    split
    · exact .refl _
    · exact ((ih h.2).cons (n, v)).trans (.swap _ _ _)

theorem IsOrdered.insert {m : NameMap α} (hm : IsOrdered m) {name : String}
    (h : name ∉ m.map Prod.fst) (value : α) : IsOrdered (insert name value m) := by
  induction m with
  | nil => exact List.pairwise_singleton _ _
  | cons p rest ih =>
    obtain ⟨n, v⟩ := p
    rw [List.map_cons, List.mem_cons, not_or] at h
    obtain ⟨hfirst, hrest⟩ := List.pairwise_cons.1 hm
    rw [NameMap.insert, if_neg (by simpa using h.1)]
    split
    · rename_i hlt
      refine List.pairwise_cons.2 ⟨List.forall_mem_cons.2 ⟨hlt, fun q hq => ?_⟩, hm⟩
      exact String.lt_trans hlt (hfirst q hq)
    · rename_i hlt
      have hafter : n < name := ((lt_trichotomy name n).resolve_left hlt).resolve_left h.1
      refine List.pairwise_cons.2 ⟨fun q hq => ?_, ih hrest h.2⟩
      rcases List.mem_cons.1 ((insert_perm h.2 value).mem_iff.1 hq) with rfl | hq
      · exact hafter
      · exact hfirst q hq

theorem extend_perm {pairs : List (String × α)} {m : NameMap α} (hm : IsOrdered m)
    (hdistinct : (pairs.map Prod.fst ++ m.map Prod.fst).Nodup) :
    (extend m pairs).Perm (pairs ++ m) ∧ IsOrdered (extend m pairs) := by
  induction pairs generalizing m with
  | nil => exact ⟨.refl _, hm⟩
  | cons p rest ih =>
    obtain ⟨name, value⟩ := p
    rw [List.map_cons, List.cons_append, List.nodup_cons, List.mem_append, not_or] at hdistinct
    obtain ⟨⟨hrest, hfresh⟩, hothers⟩ := hdistinct
    have hinsert := insert_perm hfresh value
    have hkeys : (rest.map Prod.fst ++ (insert name value m).map Prod.fst).Nodup := by
      refine (((hinsert.map Prod.fst).append_left _).trans List.perm_middle).nodup_iff.2 ?_
      rw [List.nodup_cons, List.mem_append, not_or]
      exact ⟨⟨hrest, hfresh⟩, hothers⟩
    obtain ⟨hperm, hordered⟩ := ih (hm.insert hfresh value) hkeys
    exact ⟨(hperm.trans (hinsert.append_left rest)).trans List.perm_middle, hordered⟩

/-- The map of the pairs of a map is the map, whatever their order is. -/
theorem ofList_of_perm {pairs : List (String × α)} {m : NameMap α} (h : pairs.Perm m)
    (hm : IsOrdered m) : ofList pairs = m := by
  have hdistinct : (m.map Prod.fst).Nodup :=
    List.pairwise_map.2 (hm.imp fun hlt => ne_of_lt hlt)
  have hkeys : (pairs.map Prod.fst ++ ([] : NameMap α).map Prod.fst).Nodup := by
    rw [List.map_nil, List.append_nil]
    exact (h.map Prod.fst).nodup_iff.2 hdistinct
  obtain ⟨hperm, hordered⟩ := extend_perm .nil hkeys
  rw [List.append_nil] at hperm
  refine (hperm.trans h).eq_of_pairwise (fun p q _ _ hpq hqp => ?_) hordered hm
  exact absurd (String.lt_trans hpq hqp) (String.lt_irrefl _)

end NameMap

namespace Pom

open Xml

/-! ## Records of texts -/

/-- The fields of the reference to a parent. -/
def Parent.fields (p : Parent) : List (String × Option String) :=
  [("groupId", p.groupId), ("artifactId", p.artifactId), ("version", p.version)]

/-- The fields of a dependency. -/
def RawDependency.fields (d : RawDependency) : List (String × Option String) :=
  [("groupId", d.groupId), ("artifactId", d.artifactId), ("version", d.version),
    ("classifier", d.classifier), ("type", d.type), ("scope", d.scope), ("optional", d.optional)]

/-- The element of the reference to a parent. -/
def IsParent (p : Parent) (e : Element) : Prop := IsRecord IsText p.fields e

/-- The element of a dependency. -/
def IsDependency (d : RawDependency) (e : Element) : Prop := IsRecord IsText d.fields e

/-- The texts of a record are read back. -/
theorem reads_textFields {fields : List (String × Option String)} {e : Element}
    (h : IsRecord IsText fields e) (hnames : AreFieldNames (fields.map Prod.fst)) :
    ∃ found, Reads (e.textFields (fields.map Prod.fst)) found ∧
      ∀ name, fieldValue found name = (fields.lookup name).join :=
  h.reads_fields hnames fun _ _ _ _ _ htext => ⟨htext.isFilled, htext.reads_text?⟩

theorem Parent.areFieldNames (p : Parent) : AreFieldNames (p.fields.map Prod.fst) := by
  change AreFieldNames ["groupId", "artifactId", "version"]
  exact ⟨by decide, by decide⟩

theorem RawDependency.areFieldNames (d : RawDependency) :
    AreFieldNames (d.fields.map Prod.fst) := by
  change AreFieldNames
    ["groupId", "artifactId", "version", "classifier", "type", "scope", "optional"]
  exact ⟨by decide, by decide⟩

theorem reads_readParent {p : Parent} {e : Element} (h : IsParent p e) :
    Reads (readParent e) p := by
  obtain ⟨found, hfound, hvalue⟩ := reads_textFields h p.areFieldNames
  refine hfound.bind ?_
  simp only [hvalue]
  exact reads_pure p

theorem reads_readDependency {d : RawDependency} {e : Element} (h : IsDependency d e) :
    Reads (readDependency e) d := by
  obtain ⟨found, hfound, hvalue⟩ := reads_textFields h d.areFieldNames
  refine hfound.bind ?_
  simp only [hvalue]
  exact reads_pure d

theorem IsParent.isFilled {p : Parent} {e : Element} (h : IsParent p e) : e.IsFilled :=
  IsRecord.isFilled h fun _ _ htext => htext.valued.isTagged

theorem IsDependency.isFilled {d : RawDependency} {e : Element} (h : IsDependency d e) :
    e.IsFilled :=
  IsRecord.isFilled h fun _ _ htext => htext.valued.isTagged

/-! ## Lists and properties -/

/-- The element of a list of dependencies, between which nothing but white space stands. -/
structure IsDependencies (ds : List RawDependency) (e : Element) : Prop where
  valued : e.IsValued
  children : Children (fun _ => False) IsDependency (ds.map fun d => ("dependency", d)) e.children

/-- The element of properties, in any order. Attributes would be properties too. -/
structure IsProperties (m : Bindings) (e : Element) : Prop where
  bare : Attributes e.tagRest []
  ordered : m.IsOrdered
  unprefixed : ∀ p ∈ m, ':' ∉ p.1.toList
  children : ∃ order, order.Perm m ∧ Children (fun _ => False) IsText order e.children

/-- A dependency may stand at the start of a list and behind another one. -/
theorem dependenciesOfItems_dependency {place : ListPlace}
    (hplace : place = .before ∨ place = .within "dependency") (read : List RawDependency)
    {e : Element} (he : e.name = "dependency") (rest : List Item) :
    dependenciesOfItems place read (.element e :: rest) = (do
      Reading.enter e
      let d ← readDependency e
      Reading.leave
      dependenciesOfItems (.within "dependency") (d :: read) rest) := by
  have hlocal : localName "dependency" = "dependency" := by decide
  rcases hplace with rfl | rfl
  · simp only [dependenciesOfItems, he, hlocal, beq_self_eq_true, if_true]
  · simp only [dependenciesOfItems, he, beq_self_eq_true, if_true]

/-- Dependencies are read in the order of the document. -/
theorem reads_dependenciesOfItems {fields : List (String × RawDependency)} {nodes : List Node}
    (h : Children (fun _ => False) IsDependency fields nodes)
    (hnames : ∀ p ∈ fields, p.1 = "dependency") {place : ListPlace}
    (hplace : place = .before ∨ place = .within "dependency") (read : List RawDependency) :
    Reads (dependenciesOfItems place read (elementItems nodes))
      (read.reverse ++ fields.map Prod.snd) := by
  induction h generalizing place read with
  | nil =>
    rw [List.map_nil, List.append_nil]
    exact reads_pure _
  | space _ _ ih => exact ih hnames hplace read
  | passed hpassed _ _ => exact hpassed.elim
  | @field name tagRest children nodes d fields hd _ ih =>
    obtain ⟨rfl, hrest⟩ := List.forall_mem_cons.1 hnames
    have hlater := ih hrest (.inr rfl) (d :: read)
    rw [List.reverse_cons, List.append_assoc] at hlater
    rw [elementItems, dependenciesOfItems_dependency hplace read rfl]
    exact (reads_enter hd.isFilled.valued.isTagged).bind
      ((reads_readDependency hd).bind (reads_leave.bind hlater))

theorem reads_readDependencies {ds : List RawDependency} {e : Element}
    (h : IsDependencies ds e) : Reads (readDependencies e) ds := by
  rw [readDependencies, if_pos h.valued.isTagged.hasAttributes, Element.items,
    h.children.items_eq]
  have hread := reads_dependenciesOfItems h.children (by simp) (.inl rfl) []
  have hvalues : (ds.map fun d => ("dependency", d)).map Prod.snd = ds := by simp
  rwa [hvalues] at hread

theorem reads_itemProperties {order : List (String × String)} {nodes : List Node}
    (h : Children (fun _ => False) IsText order nodes)
    (hnames : ∀ p ∈ order, ':' ∉ p.1.toList) :
    Reads (itemProperties (elementItems nodes)) order := by
  induction h with
  | nil => exact reads_pure []
  | space _ _ ih => exact ih hnames
  | passed hpassed _ _ => exact hpassed.elim
  | @field name tagRest children nodes value order hvalue _ ih =>
    obtain ⟨hname, hrest⟩ := List.forall_mem_cons.1 hnames
    refine (reads_enter hvalue.valued.isTagged).bind (hvalue.reads_text?.bind
      (reads_leave.bind ((ih hrest).bind ?_)))
    rw [localName_eq_self hname]
    exact reads_pure _

theorem reads_readProperties {m : Bindings} {e : Element} (h : IsProperties m e) :
    Reads (readProperties e) m := by
  obtain ⟨hbare, hordered, hunprefixed, order, horder, hchildren⟩ := h
  have hread := reads_itemProperties hchildren fun p hp => hunprefixed p (horder.mem_iff.1 hp)
  rw [← hchildren.items_eq] at hread
  have hattributes : attributeProperties? [] = some [] := rfl
  refine (reads_lift (Element.attributes?_eq hbare)).bind
    ((reads_lift hattributes).bind (hread.bind ?_))
  rw [List.nil_append, NameMap.ofList_of_perm horder hordered]
  exact reads_pure m

/-- The element of the section on management. -/
def IsManagement (ds : Option (List RawDependency)) (e : Element) : Prop :=
  IsRecord IsDependencies [("dependencies", ds)] e

theorem IsDependencies.isFilled {ds : List RawDependency} {e : Element}
    (h : IsDependencies ds e) : e.IsFilled :=
  h.children.isFilled h.valued (fun _ hnone => hnone.elim)
    fun _ _ hd => hd.isFilled.valued.isTagged

theorem IsProperties.isFilled {m : Bindings} {e : Element} (h : IsProperties m e) :
    e.IsFilled := by
  obtain ⟨hbare, -, -, order, -, hchildren⟩ := h
  exact hchildren.isFilled ⟨[], hbare, fun _ hp => absurd hp List.not_mem_nil⟩
    (fun _ hnone => hnone.elim) fun _ _ htext => htext.valued.isTagged

theorem IsManagement.isFilled {ds : Option (List RawDependency)} {e : Element}
    (h : IsManagement ds e) : e.IsFilled :=
  IsRecord.isFilled h fun _ _ hds => hds.valued.isTagged

theorem reads_readManagement {ds : Option (List RawDependency)} {e : Element}
    (h : IsManagement ds e) : Reads (readManagement e) ds := by
  have hnames : AreFieldNames ["dependencies"] := ⟨by decide, by decide⟩
  obtain ⟨found, hfound, hvalue⟩ := IsRecord.reads_fields h hnames fun _ _ _ _ _ hds =>
    ⟨hds.isFilled, reads_readDependencies hds⟩
  refine hfound.bind ?_
  rw [hvalue]
  exact reads_pure ds

/-! ## POMs -/

/-- The fields of a POM. -/
def fields (p : Pom) : List (String × Option Field) :=
  [("groupId", p.groupId.map .text), ("artifactId", p.artifactId.map .text),
    ("version", p.version.map .text), ("packaging", p.packaging.map .text),
    ("parent", p.parent.map .parent), ("properties", p.properties.map .properties),
    ("dependencies", p.dependencies.map .dependencies),
    ("dependencyManagement", p.management.map .management)]

/-- The element of a field of a POM. -/
inductive IsField : Field → Element → Prop
  | text {s : String} {e : Element} (h : IsText s e) : IsField (.text s) e
  | parent {p : Parent} {e : Element} (h : IsParent p e) : IsField (.parent p) e
  | properties {m : Bindings} {e : Element} (h : IsProperties m e) : IsField (.properties m) e
  | dependencies {ds : List RawDependency} {e : Element} (h : IsDependencies ds e) :
      IsField (.dependencies ds) e
  | management {ds : Option (List RawDependency)} {e : Element} (h : IsManagement ds e) :
      IsField (.management ds) e

theorem areFieldNames (p : Pom) : AreFieldNames (p.fields.map Prod.fst) := by
  change AreFieldNames fieldNames
  exact ⟨by decide, by decide⟩

/-- The value of a field is read back under its name. -/
theorem reads_readField {p : Pom} {name : String} {a : Field} {e : Element}
    (hmem : (name, some a) ∈ p.fields) (h : IsField a e) : Reads (readField name e) a := by
  have htext {name : String} {text : Option String} (ha : some a = text.map .text)
      (hname : readField name e = (do return .text (← e.text?))) : Reads (readField name e) a := by
    obtain ⟨s, -, rfl⟩ := Option.map_eq_some_iff.1 ha.symm
    cases h with
    | text h =>
      rw [hname]
      exact h.reads_text?.bind (reads_pure _)
  simp only [fields, List.mem_cons, Prod.mk.injEq, List.not_mem_nil, or_false] at hmem
  rcases hmem with ⟨rfl, ha⟩ | ⟨rfl, ha⟩ | ⟨rfl, ha⟩ | ⟨rfl, ha⟩ | ⟨rfl, ha⟩ | ⟨rfl, ha⟩ |
    ⟨rfl, ha⟩ | ⟨rfl, ha⟩
  · exact htext ha rfl
  · exact htext ha rfl
  · exact htext ha rfl
  · exact htext ha rfl
  · obtain ⟨parent, -, rfl⟩ := Option.map_eq_some_iff.1 ha.symm
    cases h with
    | parent h => exact (reads_readParent h).bind (reads_pure _)
  · obtain ⟨m, -, rfl⟩ := Option.map_eq_some_iff.1 ha.symm
    cases h with
    | properties h => exact (reads_readProperties h).bind (reads_pure _)
  · obtain ⟨ds, -, rfl⟩ := Option.map_eq_some_iff.1 ha.symm
    cases h with
    | dependencies h => exact (reads_readDependencies h).bind (reads_pure _)
  · obtain ⟨ds, -, rfl⟩ := Option.map_eq_some_iff.1 ha.symm
    cases h with
    | management h => exact (reads_readManagement h).bind (reads_pure _)

/-- The root of the document of a POM holds its fields. -/
def IsRoot (p : Pom) (root : Element) : Prop := IsRecord IsField p.fields root

/-- A document that writes a POM. -/
def IsWrittenIn (p : Pom) (document : String) : Prop :=
  ∃ root, WritesDocument document root ∧ p.IsRoot root

theorem IsField.isFilled {a : Field} {e : Element} (h : IsField a e) : e.IsFilled := by
  cases h with
  | text h => exact h.isFilled
  | parent h => exact h.isFilled
  | properties h => exact h.isFilled
  | dependencies h => exact h.isFilled
  | management h => exact h.isFilled

/-- A POM is made of its fields. -/
theorem ofFields_eq {p : Pom} {found : List (String × Option Field)}
    (h : ∀ name, fieldValue found name = (p.fields.lookup name).join) : ofFields found = p := by
  obtain ⟨groupId, artifactId, version, packaging, parent, properties, dependencies,
    management⟩ := p
  simp only [ofFields, textField, h]
  congr 1
  · cases groupId <;> rfl
  · cases artifactId <;> rfl
  · cases version <;> rfl
  · cases packaging <;> rfl
  · cases parent <;> rfl
  · cases properties <;> rfl
  · cases dependencies <;> rfl
  · cases management <;> rfl

theorem reads_readRoot {p : Pom} {root : Element} (h : p.IsRoot root) :
    Reads (readRoot root) p := by
  obtain ⟨found, hfound, hvalue⟩ := IsRecord.reads_fields h p.areFieldNames
    fun _ _ _ hmem _ hfield => ⟨hfield.isFilled, reads_readField hmem hfield⟩
  refine (reads_enter h.valued.isTagged).bind (hfound.bind ?_)
  rw [ofFields_eq hvalue]
  exact reads_pure p

/-- Every POM is read back from every document that writes it. -/
theorem read?_of_isWrittenIn {p : Pom} {document : String} (h : p.IsWrittenIn document) :
    Pom.read? document = some p := by
  obtain ⟨root, hdocument, hroot⟩ := h
  obtain ⟨after, hread⟩ := reads_readRoot hroot []
  rw [Pom.read?, readRoot?_of_writes hdocument]
  simp [hread]

/-- An element that holds a text and whose tags hold its name only. -/
def textNode (name value : String) : Node :=
  .element name [] [.text (value.toList.flatMap escape)]

theorem writes_textNode (name value : String) (hname : IsName name)
    (hne : value.toList.flatMap escape ≠ []) (hraw : '<' ∉ value.toList.flatMap escape)
    {rest : List Char} {nodes : List Node} (hrest : Writes rest nodes) :
    Writes ('<' :: (name.toList ++ ([] ++ ['>']) ++ (value.toList.flatMap escape ++ [] ++ '<' ::
      ('/' :: (name.toList ++ ([] ++ ['>'])) ++ rest)))) (textNode name value :: nodes) :=
  .bare hname (.text hne hraw nofun .nil) hrest

theorem isText_textNode {name value : String} (hvalue : IsTrimmed value) :
    IsText value ⟨name, [], [.text (value.toList.flatMap escape)]⟩ :=
  ⟨Element.isValued_bare, hvalue, _, rfl, spells_escape _⟩

/-- A POM with some of its fields. -/
def samplePom : Pom where
  artifactId := some "a&b"
  version := some "1"
  parent := some { version := some "2" }
  properties := some [("p", "4 < 5"), ("q", "3")]
  dependencies := some [{ groupId := some "g", artifactId := some "d" }]
  management := some none

/-- A root with the fields of the POM in another order, and with an unknown element. -/
def sampleRoot : Element :=
  ⟨"project", " xmlns='m'".toList,
    [.element "build" [] [.element "x" [] [], .text ['y'], .cdata ['&']],
      textNode "version" "1", .text [' '], textNode "artifactId" "a&b",
      .element "parent" [] [textNode "version" "2"],
      .element "properties" [] [textNode "q" "3", textNode "p" "4 < 5"],
      .element "dependencies" []
        [.element "dependency" [] [textNode "artifactId" "d", textNode "groupId" "g"]],
      .element "dependencyManagement" [] []]⟩

/-- The document of the root, in parts. -/
def sampleParts : List String :=
  ["<?xml version='1.0'?>", "<project xmlns='m'>", "<build><x/>y<![CDATA[&]]></build>",
    "<version>1</version>", "<!-- v --> ", "<artifactId>a&amp;b</artifactId>",
    "<parent><version>2</version></parent>", "<properties><q>3</q><p>4 &lt; 5</p></properties>",
    "<dependencies><dependency><artifactId>d</artifactId>", "<groupId>g</groupId></dependency>",
    "</dependencies><dependencyManagement/></project>\n"]

def sampleDocument : String := String.ofList (sampleParts.flatMap String.toList)

theorem attributeText_sampleRoot : AttributeText sampleRoot.tagRest [("xmlns", ['m'])] :=
  @AttributeText.cons [' '] [] [] ['m'] [] "xmlns" '\x27' [] (by decide) rfl ⟨by decide, rfl⟩ rfl
    rfl (.inr rfl) (by decide) (.nil rfl)

theorem writesDocument_sampleDocument : WritesDocument sampleDocument sampleRoot := by
  have hbuild : Writes _ [.element "x" [] [], .text ['y'], .cdata ['&']] :=
    .empty (.emptyTag ⟨by decide, rfl⟩ (.nil rfl)) (.text (by decide) (by decide)
      (isMarkupOrEnd_markup _) (.cdata (.cdata (by decide)) .nil))
  have hparent : Writes _ [textNode "version" "2"] :=
    writes_textNode _ _ ⟨by decide, rfl⟩ (by decide) (by decide) .nil
  have hproperties : Writes _ [textNode "q" "3", textNode "p" "4 < 5"] :=
    writes_textNode _ _ ⟨by decide, rfl⟩ (by decide) (by decide)
      (writes_textNode _ _ ⟨by decide, rfl⟩ (by decide) (by decide) .nil)
  have hdependency : Writes _ [textNode "artifactId" "d", textNode "groupId" "g"] :=
    writes_textNode _ _ ⟨by decide, rfl⟩ (by decide) (by decide)
      (writes_textNode _ _ ⟨by decide, rfl⟩ (by decide) (by decide) .nil)
  have hcomment : WritesMarkup _ .comment := @WritesMarkup.comment " v ".toList (by decide)
  have hchildren : Writes _ sampleRoot.children :=
    .bare ⟨by decide, rfl⟩ hbuild
    (writes_textNode _ _ ⟨by decide, rfl⟩ (by decide) (by decide)
    (.comment hcomment
    (.text (by decide) (by decide) (isMarkupOrEnd_markup _)
    (writes_textNode _ _ ⟨by decide, rfl⟩ (by decide) (by decide)
    (.bare ⟨by decide, rfl⟩ hparent
    (.bare ⟨by decide, rfl⟩ hproperties
    (.bare ⟨by decide, rfl⟩ (.bare ⟨by decide, rfl⟩ hdependency .nil)
    (.empty (.emptyTag ⟨by decide, rfl⟩ (.nil rfl)) .nil))))))))
  have hstart : WritesMarkup _ (.startTag sampleRoot.name sampleRoot.tagRest) :=
    .startTag ⟨by decide, rfl⟩ attributeText_sampleRoot
  have hclose : WritesMarkup _ (.endTag sampleRoot.name) :=
    @WritesMarkup.endTag _ [] ⟨by decide, rfl⟩ rfl
  have hdeclaration : WritesMarkup _ .instruction :=
    @WritesMarkup.instruction "xml version='1.0'".toList (by decide) (by decide)
  have hroot : WritesRoot _ sampleRoot :=
    .instruction hdeclaration (@WritesRoot.element _ _ _ ['\n'] _ _ _ hstart hchildren hclose)
  refine ⟨_, hroot, .inl (String.toList_ofList.trans ?_)⟩
  decide +kernel

theorem isRoot_samplePom : samplePom.IsRoot sampleRoot := by
  have hattributes : Attributes sampleRoot.tagRest [("xmlns", ['m'])] := by
    refine ⟨attributeText_sampleRoot, by decide, fun p hp word hword => ?_⟩
    have hnone : boundWord? "xmlns" = none := by decide
    rw [List.mem_singleton.1 hp, hnone] at hword
    cases hword
  have hbuild : IsUnknown fieldNames
      ⟨"build", [], [.element "x" [] [], .text ['y'], .cdata ['&']]⟩ :=
    ⟨by decide, Element.isValued_bare.isTagged,
      .element Element.isValued_bare.isTagged .nil (.text (by decide) (.cdata .nil))⟩
  have hparent : IsParent { version := some "2" } ⟨"parent", [], [textNode "version" "2"]⟩ :=
    ⟨Element.isValued_bare, _, .refl _, .field (isText_textNode ⟨rfl, rfl⟩) .nil⟩
  have hproperties : IsProperties [("p", "4 < 5"), ("q", "3")]
      ⟨"properties", [], [textNode "q" "3", textNode "p" "4 < 5"]⟩ :=
    ⟨.bare, by decide, by decide, _, .swap _ _ _, .field (isText_textNode ⟨rfl, rfl⟩)
      (.field (isText_textNode ⟨rfl, rfl⟩) .nil)⟩
  have hdependency : IsDependency { groupId := some "g", artifactId := some "d" }
      ⟨"dependency", [], [textNode "artifactId" "d", textNode "groupId" "g"]⟩ :=
    ⟨Element.isValued_bare, _, .swap _ _ _, .field (isText_textNode ⟨rfl, rfl⟩)
      (.field (isText_textNode ⟨rfl, rfl⟩) .nil)⟩
  have hdependencies : IsDependencies [{ groupId := some "g", artifactId := some "d" }]
      ⟨"dependencies", [],
        [.element "dependency" [] [textNode "artifactId" "d", textNode "groupId" "g"]]⟩ :=
    ⟨Element.isValued_bare, .field hdependency .nil⟩
  have hmanagement : IsManagement none ⟨"dependencyManagement", [], []⟩ :=
    ⟨Element.isValued_bare, _, .refl _, .nil⟩
  refine ⟨⟨_, hattributes, by decide⟩, _, .swap _ _ _, .passed hbuild ?_⟩
  exact .field (.text (isText_textNode ⟨rfl, rfl⟩)) (.space rfl
    (.field (.text (isText_textNode ⟨rfl, rfl⟩)) (.field (.parent hparent)
    (.field (.properties hproperties) (.field (.dependencies hdependencies)
    (.field (.management hmanagement) .nil))))))

theorem read?_sampleDocument : samplePom.IsWrittenIn sampleDocument ∧
    Pom.read? sampleDocument = some samplePom := by
  have hwritten : samplePom.IsWrittenIn sampleDocument :=
    ⟨sampleRoot, writesDocument_sampleDocument, isRoot_samplePom⟩
  exact ⟨hwritten, read?_of_isWrittenIn hwritten⟩

end Pom

end ArtifactGraph
