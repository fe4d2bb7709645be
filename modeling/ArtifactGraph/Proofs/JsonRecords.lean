import ArtifactGraph.Coordinates
import ArtifactGraph.NameMap
import ArtifactGraph.Proofs.JsonPrinting
import ArtifactGraph.Proofs.Runs
import Mathlib.Data.List.Nodup

/-!
# Records of strings in JSON

Keys, coordinates and triples are read back from their texts.  An object need not have the members
of a record in their order, others may stand among them, and a member that has its default value may
be left out.

* Members.  `fieldsOfMembers_text`: the known members of an object are decoded, and the others are
  passed over.
* Records.  `Restates` says when an object has the members of a record, and `textFields_of_restates`
  that decoding it finds the fields of the record.
* Identities.  `decodeText_identities`: each of the three is read from every text that it may be
  written as, its printed forms among them.
-/

namespace ArtifactGraph

namespace Json

/-! ## Members -/

/-- A string as a member. -/
def textMember (f : String × String) : String × Json := (f.1, .string f.2)

theorem textMember_injective : Function.Injective textMember := by
  rintro ⟨name, s⟩ ⟨other, t⟩ h
  cases h
  rfl

/-- The field that a member is, if its name is known. -/
def textMember? (names : List String) : String × Json → Option (String × String)
  | (name, .string s) => if names.contains name then some (name, s) else none
  | _ => none

/-- A member that can be read whatever its name is, and is a string if its name is known. -/
structure IsTextMember (names : List String) (m : String × Json) : Prop where
  text : m.1 ∈ names → ∃ s, m.2 = .string s
  skippable : m.2.skippable = true
  named : ∀ v, m.2 ≠ .unnamed v

theorem textMember?_textMember {names : List String} {f : String × String} (h : f.1 ∈ names) :
    textMember? names (textMember f) = some f :=
  if_pos (List.contains_iff_mem.2 h)

theorem textMember?_of_not_mem {names : List String} {m : String × Json} (h : m.1 ∉ names) :
    textMember? names m = none := by
  unfold textMember?
  split
  · exact if_neg fun hname => h (List.contains_iff_mem.1 hname)
  · rfl

/-- The known members are decoded in their order, and the others are passed over. -/
theorem fieldsOfMembers_text {names : List String} {members : List (String × Json)}
    (h : ∀ m ∈ members, IsTextMember names m) (seen : List (String × String))
    (hdistinct : ((seen ++ members.filterMap (textMember? names)).map Prod.fst).Nodup) :
    fieldsOfMembers names Json.skippable (fun _ => decodeString) seen members =
      .ok (seen ++ members.filterMap (textMember? names)) := by
  induction members generalizing seen with
  | nil => simp [fieldsOfMembers]
  | cons m rest ih =>
    obtain ⟨name, v⟩ := m
    have hm := h _ List.mem_cons_self
    have hrest := fun m hmem => h m (List.mem_cons_of_mem _ hmem)
    rw [fieldsOfMembers]
    · by_cases hname : name ∈ names
      · obtain ⟨s, rfl⟩ := hm.text hname
        have hfield : textMember? names (name, .string s) = some (name, s) :=
          textMember?_textMember (f := (name, s)) hname
        rw [List.filterMap_cons_some hfield] at hdistinct ⊢
        have hnew : seen.lookup name = none := by
          rw [List.map_append, List.map_cons, List.nodup_append] at hdistinct
          rw [List.lookup_eq_none_iff]
          intro f hf
          have hne := hdistinct.2.2 f.1 (List.mem_map_of_mem hf) name List.mem_cons_self
          simpa using hne.symm
        rw [List.append_cons] at hdistinct ⊢
        rw [if_pos (List.contains_iff_mem.2 hname), hnew]
        exact ih hrest _ hdistinct
      · rw [List.filterMap_cons_none (textMember?_of_not_mem hname)] at hdistinct ⊢
        rw [if_neg fun hknown => hname (List.contains_iff_mem.1 hknown), if_pos hm.skippable]
        exact ih hrest _ hdistinct
    · exact hm.named

/-! ## Records -/

/-- The members that may be left out. -/
def defaultMembers : List (String × Json) :=
  [("classifier", .string defaultClassifier), ("type", .string defaultType)]

/-- An object has the members of a record, in any order and among members of other names; those with
their default values need not be there. -/
def Restates (record members : List (String × Json)) : Prop :=
  ∃ kept others, kept.Sublist record ∧ (∀ m ∈ record, m ∈ kept ∨ m ∈ defaultMembers) ∧
    (∀ m ∈ others, m.1 ∉ record.map Prod.fst) ∧ members.Perm (kept ++ others)

/-- The decoded fields have the values of a record, but for some that are defaults. -/
def Recovers (decoded fields : List (String × String)) : Prop :=
  ∀ f ∈ fields, decoded.lookup f.1 = some f.2 ∨
    decoded.lookup f.1 = none ∧ textMember f ∈ defaultMembers

section

variable {decoded fields : List (String × String)} {name s : String}

theorem Recovers.required (h : Recovers decoded fields) (hmem : (name, s) ∈ fields)
    (hname : name ∉ defaultMembers.map Prod.fst) : required decoded name = .ok s := by
  rcases h _ hmem with hfound | ⟨-, hdefault⟩
  · rw [Json.required, hfound]
  · exact absurd (List.mem_map_of_mem hdefault) hname

theorem Recovers.getD_lookup (h : Recovers decoded fields) (hmem : (name, s) ∈ fields)
    {default : String} (hdefault : ∀ v, (name, v) ∈ defaultMembers → v = .string default) :
    (decoded.lookup name).getD default = s := by
  rcases h _ hmem with hfound | ⟨hnone, hleft⟩
  · rw [hfound, Option.getD_some]
  · rw [hnone, Option.getD_none]
    exact (Json.string.inj (hdefault _ hleft)).symm

/-- Fields with distinct names are found, in whatever order they were decoded. -/
theorem recovers_of_perm {kept : List (String × String)} (hdistinct : (fields.map Prod.fst).Nodup)
    (hkept : kept.Sublist fields)
    (hdefaults : ∀ f ∈ fields, f ∈ kept ∨ textMember f ∈ defaultMembers)
    (hperm : decoded.Perm kept) : Recovers decoded fields := by
  have hkeys : (decoded.map Prod.fst).Nodup :=
    (hperm.map Prod.fst).nodup_iff.2 (hdistinct.sublist (hkept.map Prod.fst))
  have hlookup (f : String × String) : decoded.lookup f.1 = some f.2 ↔ f ∈ kept := by
    rw [NameMap.lookup_eq_some_iff hkeys, hperm.mem_iff]
  intro f hf
  by_cases hin : f ∈ kept
  · exact .inl ((hlookup f).2 hin)
  · refine .inr ⟨Option.eq_none_iff_forall_ne_some.2 fun s hs => hin ?_,
      (hdefaults f hf).resolve_left hin⟩
    -- another field of this name would be one of the record, whose names are distinct
    have hother : (f.1, s) ∈ kept := (hlookup (f.1, s)).1 hs
    have heq : (f.1, s) = f := List.inj_on_of_nodup_map hdistinct (hkept.subset hother) hf rfl
    rwa [heq] at hother

theorem filterMap_textMembers {names : List String} (h : ∀ f ∈ fields, f.1 ∈ names) :
    (fields.map textMember).filterMap (textMember? names) = fields := by
  rw [List.filterMap_map]
  calc fields.filterMap (textMember? names ∘ textMember)
      = fields.filterMap some :=
        List.filterMap_congr fun f hf => textMember?_textMember (h f hf)
    _ = fields := List.filterMap_some

/-- The known members of an object that restates a record are those that it keeps. -/
theorem filterMap_append_others {names : List String} (h : ∀ f ∈ fields, f.1 ∈ names)
    {others : List (String × Json)} (hothers : ∀ m ∈ others, m.1 ∉ names) :
    (fields.map textMember ++ others).filterMap (textMember? names) = fields := by
  have hnone : others.filterMap (textMember? names) = [] :=
    List.filterMap_eq_nil_iff.2 fun m hm => textMember?_of_not_mem (hothers m hm)
  rw [List.filterMap_append, filterMap_textMembers h, hnone, List.append_nil]

theorem isTextMember_of_writes {names : List String} {m : String × Json} {cs : List Char}
    (hwritten : Writes cs m.2) (htext : m.1 ∈ names → ∃ s, m.2 = .string s) :
    IsTextMember names m := by
  refine ⟨htext, hwritten.skippable, fun v heq => ?_⟩
  rw [heq] at hwritten
  cases hwritten

/-- The fields of a record are decoded from every object that has its members. -/
theorem textFields_of_restates {members : List (String × Json)}
    (hdistinct : (fields.map Prod.fst).Nodup) (h : Restates (fields.map textMember) members)
    (hwritten : ∀ m ∈ members, ∃ cs, Writes cs m.2) :
    ∃ decoded, textFields (fields.map Prod.fst) (.object members) = .ok decoded ∧
      Recovers decoded fields := by
  obtain ⟨_, others, hsublist, hdefaults, hothers, hperm⟩ := h
  obtain ⟨kept, hkept, rfl⟩ := List.sublist_map_iff.1 hsublist
  have hnames : (fields.map textMember).map Prod.fst = fields.map Prod.fst := by
    rw [List.map_map]
    rfl
  rw [hnames] at hothers
  have hknown : ∀ f ∈ kept, f.1 ∈ fields.map Prod.fst := fun f hf =>
    List.mem_map_of_mem (hkept.subset hf)
  have hdecoded : (members.filterMap (textMember? (fields.map Prod.fst))).Perm kept := by
    have hfiltered := hperm.filterMap (textMember? (fields.map Prod.fst))
    rwa [filterMap_append_others hknown hothers] at hfiltered
  have hmembers : ∀ m ∈ members, IsTextMember (fields.map Prod.fst) m := by
    intro m hm
    obtain ⟨cs, hcs⟩ := hwritten m hm
    refine isTextMember_of_writes hcs fun hname => ?_
    rcases List.mem_append.1 (hperm.mem_iff.1 hm) with hm | hm
    · obtain ⟨f, -, rfl⟩ := List.mem_map.1 hm
      exact ⟨f.2, rfl⟩
    · exact absurd hname (hothers m hm)
  have hkeys : ((members.filterMap (textMember? (fields.map Prod.fst))).map Prod.fst).Nodup :=
    (hdecoded.map Prod.fst).nodup_iff.2 (hdistinct.sublist (hkept.map Prod.fst))
  refine ⟨_, fieldsOfMembers_text hmembers [] hkeys, ?_⟩
  apply recovers_of_perm hdistinct hkept _ hdecoded
  intro f hf
  have hleft := hdefaults _ (List.mem_map_of_mem hf)
  rwa [List.mem_map_of_injective textMember_injective] at hleft

end

end Json

/-! ## Identities -/

open Json

namespace ArtifactKey

/-- The fields of a key as it is written. -/
def fields (k : ArtifactKey) : List (String × String) :=
  [("group_id", k.groupId), ("artifact_id", k.artifactId), ("classifier", k.classifier),
    ("type", k.type)]

theorem decode_of_restates (k : ArtifactKey) {members : List (String × Json)}
    (h : Restates (k.fields.map textMember) members)
    (hwritten : ∀ m ∈ members, ∃ cs, Writes cs m.2) : decode (.object members) = .ok k := by
  obtain ⟨decoded, hdecoded, hfields⟩ := textFields_of_restates (by simp [fields]) h hwritten
  have hgroup : required decoded "group_id" = .ok k.groupId :=
    hfields.required (by simp [fields]) (by decide)
  have hartifact : required decoded "artifact_id" = .ok k.artifactId :=
    hfields.required (by simp [fields]) (by decide)
  have hclassifier : (decoded.lookup "classifier").getD defaultClassifier = k.classifier :=
    hfields.getD_lookup (by simp [fields]) (by simp [defaultMembers])
  have htype : (decoded.lookup "type").getD defaultType = k.type :=
    hfields.getD_lookup (by simp [fields]) (by simp [defaultMembers])
  refine bind_eq_ok_iff.2 ⟨decoded, hdecoded, bind_eq_ok_iff.2 ⟨k.groupId, hgroup,
    bind_eq_ok_iff.2 ⟨k.artifactId, hartifact, ?_⟩⟩⟩
  rw [hclassifier, htype]
  rfl

end ArtifactKey

namespace Coordinates

/-- The fields of coordinates as they are written. -/
def fields (c : Coordinates) : List (String × String) :=
  [("group_id", c.groupId), ("artifact_id", c.artifactId), ("classifier", c.classifier),
    ("type", c.type), ("version", c.version)]

theorem decode_of_restates (c : Coordinates) {members : List (String × Json)}
    (h : Restates (c.fields.map textMember) members)
    (hwritten : ∀ m ∈ members, ∃ cs, Writes cs m.2) : decode (.object members) = .ok c := by
  obtain ⟨decoded, hdecoded, hfields⟩ := textFields_of_restates (by simp [fields]) h hwritten
  have hgroup : required decoded "group_id" = .ok c.groupId :=
    hfields.required (by simp [fields]) (by decide)
  have hartifact : required decoded "artifact_id" = .ok c.artifactId :=
    hfields.required (by simp [fields]) (by decide)
  have hversion : required decoded "version" = .ok c.version :=
    hfields.required (by simp [fields]) (by decide)
  have hclassifier : (decoded.lookup "classifier").getD defaultClassifier = c.classifier :=
    hfields.getD_lookup (by simp [fields]) (by simp [defaultMembers])
  have htype : (decoded.lookup "type").getD defaultType = c.type :=
    hfields.getD_lookup (by simp [fields]) (by simp [defaultMembers])
  refine bind_eq_ok_iff.2 ⟨decoded, hdecoded, bind_eq_ok_iff.2 ⟨c.groupId, hgroup,
    bind_eq_ok_iff.2 ⟨c.artifactId, hartifact, bind_eq_ok_iff.2 ⟨c.version, hversion, ?_⟩⟩⟩⟩
  rw [hclassifier, htype]
  rfl

end Coordinates

namespace Gav

/-- The fields of a triple as it is written. -/
def fields (g : Gav) : List (String × String) :=
  [("group_id", g.groupId), ("artifact_id", g.artifactId), ("version", g.version)]

theorem decode_of_restates (g : Gav) {members : List (String × Json)}
    (h : Restates (g.fields.map textMember) members)
    (hwritten : ∀ m ∈ members, ∃ cs, Writes cs m.2) : decode (.object members) = .ok g := by
  obtain ⟨decoded, hdecoded, hfields⟩ := textFields_of_restates (by simp [fields]) h hwritten
  have hgroup : required decoded "group_id" = .ok g.groupId :=
    hfields.required (by simp [fields]) (by decide)
  have hartifact : required decoded "artifact_id" = .ok g.artifactId :=
    hfields.required (by simp [fields]) (by decide)
  have hversion : required decoded "version" = .ok g.version :=
    hfields.required (by simp [fields]) (by decide)
  exact bind_eq_ok_iff.2 ⟨decoded, hdecoded, bind_eq_ok_iff.2 ⟨g.groupId, hgroup,
    bind_eq_ok_iff.2 ⟨g.artifactId, hartifact, bind_eq_ok_iff.2 ⟨g.version, hversion, rfl⟩⟩⟩⟩

end Gav

namespace Json

/-- A value is read back from the texts of a record: from its printed forms, and from every text of
an object that has its members. -/
structure ReadsBack {α : Type} (decode : Decoder α) (written : Json) (a : α) : Prop where
  compact : decodeText decode written.compact = .ok a
  pretty : decodeText decode written.pretty = .ok a
  restated : ∀ record members text, written = .object record → Restates record members →
    WritesText text (.object members) → decodeText decode text = .ok a

theorem decodeText_of_writesText {α : Type} {decode : Decoder α} {text : String} {v : Json} {a : α}
    (h : WritesText text v) (hdecode : decode v = .ok a) : decodeText decode text = .ok a := by
  unfold decodeText
  rw [read_of_writesText h]
  simp only [hdecode]
  rfl

theorem restates_self (record : List (String × Json)) : Restates record record := by
  refine ⟨record, [], List.Sublist.refl _, fun m hm => .inl hm, fun m hm => ?_, ?_⟩
  · exact absurd hm List.not_mem_nil
  · rw [List.append_nil]

theorem exists_writesMembers {fields : List (String × String)} (h : fields ≠ []) :
    ∃ cs, WritesMembers cs (fields.map textMember) := by
  induction fields with
  | nil => exact absurd rfl h
  | cons f rest ih =>
    have hname := writesName_quoted isGap_nil f.1
    have hvalue : WritesPadded _ (.string f.2) := (writes_quoted f.2).padded isGap_nil isGap_nil
    cases rest with
    | nil => exact ⟨_, .one hname hvalue⟩
    | cons g rest =>
      obtain ⟨cs, hcs⟩ := ih (List.cons_ne_nil _ _)
      exact ⟨_, .cons hname hvalue hcs⟩

/-- If decoding finds a value in each object that has the members of a record, it is read back. -/
theorem readsBack_of_restates {α : Type} {decode : Decoder α} {a : α}
    (fields : List (String × String)) (hne : fields ≠ [])
    (h : ∀ {members}, Restates (fields.map textMember) members →
      (∀ m ∈ members, ∃ cs, Writes cs m.2) → decode (.object members) = .ok a) :
    ReadsBack decode (.object (fields.map textMember)) a := by
  have hrestated : ∀ members text, Restates (fields.map textMember) members →
      WritesText text (.object members) → decodeText decode text = .ok a := by
    intro members text hmembers htext
    exact decodeText_of_writesText htext (h hmembers htext.exists_writes_members)
  obtain ⟨cs, hcs⟩ := exists_writesMembers hne
  have hself := restates_self (fields.map textMember)
  refine ⟨hrestated _ _ hself ?_, hrestated _ _ hself ?_, ?_⟩
  · exact (Writes.object hcs).writesText_compact
  · exact (Writes.object hcs).writesText_pretty
  · intro record members text hrecord
    obtain rfl := Json.object.inj hrecord
    exact hrestated members text

end Json

/-- Keys, coordinates and triples are read back from their texts, whatever strings they are made
of. -/
theorem decodeText_identities :
    (∀ k : ArtifactKey, ReadsBack ArtifactKey.decode k.toJson k) ∧
      (∀ c : Coordinates, ReadsBack Coordinates.decode c.toJson c) ∧
      ∀ g : Gav, ReadsBack Gav.decode g.toJson g := by
  refine ⟨fun k => ?_, fun c => ?_, fun g => ?_⟩
  · exact readsBack_of_restates k.fields (List.cons_ne_nil _ _) k.decode_of_restates
  · exact readsBack_of_restates c.fields (List.cons_ne_nil _ _) c.decode_of_restates
  · exact readsBack_of_restates g.fields (List.cons_ne_nil _ _) g.decode_of_restates

/-- Another member in front, the order reversed, the defaults left out, and a letter by its code. -/
example :
    decodeText Coordinates.decode
      " \x7b\"x\": [1e3], \"version\": \"1\", \"artifact_id\": \"\\u0061\", \"group_id\":\"g\"\x7d" =
        .ok { groupId := "g", artifactId := "a", version := "1" } := by
  decide +kernel

end ArtifactGraph
