import ArtifactGraph.Reconciliation
import Mathlib.Data.List.Forall2

/-!
# What a record says

A record has the key and the scope of its declaration, whatever it is matched with.  Its version and
its flags come from the node, but for the two flags that say how it is declared.  The flags are
compared bit by bit, so that bits without a name count, too.

* One record.  `version_matchedRecord`, `scope_matchedRecord` and `isTestScoped_matchedRecord`;
  `getLsbD_flags_matchedRecord` for every bit and `has_flags_matchedRecord` for every flag.
* `IsRecordOf` puts these together, and `isRecordOf_iff` says that they leave no choice.
* Lists of records.  `filter_records_reconcile` picks those of the test scope, and
  `records_of_reconcile`: reconciling makes one record of each declaration that counts, in their
  order, and of two lists what it makes of each.
-/

namespace ArtifactGraph

/-! ## Flags -/

theorem Flags.getLsbD_put (fs : Flags) (f : Flag) (present : Bool) (i : Nat) :
    (fs.put f present).bits.getLsbD i = if f.position = i then present else fs.bits.getLsbD i := by
  cases present with
  | false =>
    rw [put, if_neg Bool.false_ne_true, drop, getLsbD_remove, getLsbD_of]
    by_cases hfi : f.position = i <;> simp [hfi]
  | true =>
    rw [put, if_pos rfl, getLsbD_add]
    by_cases hfi : f.position = i <;> simp [hfi]

theorem Flag.name_inj {f g : Flag} (h : f.name = g.name) : f = g := by
  have hall : ∀ f ∈ all, ∀ g ∈ all, f.name = g.name → f = g := by decide +kernel
  exact hall f f.mem_all g g.mem_all h

/-- A flag is in a set exactly when its name is written. -/
theorem Flags.mem_names_iff (fs : Flags) (f : Flag) : f.name ∈ fs.names ↔ fs.has f = true := by
  have hname : ∀ g : Flag, g.name = f.name ↔ g = f := fun g =>
    ⟨Flag.name_inj, congrArg Flag.name⟩
  simp only [names, toList, List.mem_map, List.mem_filter, Flag.mem_all, true_and, hname]
  exact exists_eq_right

/-! ## One record -/

/-- Whether a record is of the test scope. -/
def DirectDependency.isTestScoped (r : DirectDependency) : Bool := r.scope == Scope.test.toText

namespace DeclaredDependency

variable (d : DeclaredDependency) (node : Option ResolvedArtifact)

@[simp] theorem scope_matchedRecord :
    (d.matchedRecord node).scope = d.scope.getD Scope.compile.toText := by
  cases node <;> rfl

/-- A record is of the test scope exactly when its declaration is: a scope that is left out is
another one. -/
theorem isTestScoped_matchedRecord : (d.matchedRecord node).isTestScoped = d.isTestScoped := by
  rw [DirectDependency.isTestScoped, scope_matchedRecord, isTestScoped]
  cases d.scope with
  | none => decide
  | some scope => rfl

theorem version_matchedRecord : (d.matchedRecord node).version =
    match node with
    | none => d.version
    | some n => some n.coordinates.version := by
  cases node <;> rfl

/-- The bits of a record are those of the node, or the one that says there is none. Whether it is
optional is up to the declaration, and it is always direct. -/
theorem getLsbD_flags_matchedRecord (i : Nat) :
    (d.matchedRecord node).flags.bits.getLsbD i =
      if i = Flag.position .direct then true
      else if i = Flag.position .optional then d.optional
      else match node with
        | none => i == Flag.position .missingFromApplication
        | some n => n.flags.bits.getLsbD i := by
  have hflags : (d.matchedRecord node).flags = ((match node with
      | none => Flags.none.add .missingFromApplication
      | some n => Flags.none.insert n.flags).put .optional d.optional).add .direct := by
    cases node <;> rfl
  have hnone : Flags.none.bits.getLsbD i = false := BitVec.getLsbD_zero
  rw [hflags, Flags.getLsbD_add, Flags.getLsbD_put]
  by_cases hdirect : i = Flag.position .direct
  · simp [hdirect]
  · rw [if_neg hdirect, beq_eq_false_iff_ne.2 (Ne.symm hdirect), Bool.or_false]
    by_cases hoptional : i = Flag.position .optional
    · rw [if_pos hoptional.symm, if_pos hoptional]
    · rw [if_neg (Ne.symm hoptional), if_neg hoptional]
      cases node with
      | none =>
        simp only [Flags.getLsbD_add, hnone, Bool.false_or]
        rw [Bool.beq_comm]
      | some n => simp only [Flags.getLsbD_insert, hnone, Bool.false_or]

/-- The same for every flag. -/
theorem has_flags_matchedRecord (f : Flag) :
    (d.matchedRecord node).flags.has f =
      if f = .direct then true
      else if f = .optional then d.optional
      else match node with
        | none => f == .missingFromApplication
        | some n => n.flags.has f := by
  have hposition : ∀ g : Flag, f.position = g.position ↔ f = g := fun g =>
    ⟨Flag.position_inj, congrArg Flag.position⟩
  rw [Flags.has_eq_getLsbD, getLsbD_flags_matchedRecord]
  simp only [hposition]
  cases node with
  | none =>
    have hmissing : (f.position == Flag.position .missingFromApplication) =
        (f == .missingFromApplication) := by
      rw [Bool.eq_iff_iff, beq_iff_eq, beq_iff_eq, hposition]
    simp only [hmissing]
  | some n => simp only [Flags.has_eq_getLsbD]

/-- The field of a record says what its flags say. -/
theorem isOptional_eq_has_flags :
    (d.matchedRecord node).isOptional = (d.matchedRecord node).flags.has .optional :=
  DirectDependency.isOptional_withFlags _ _

theorem isOptional_matchedRecord : (d.matchedRecord node).isOptional = d.optional := by
  rw [isOptional_eq_has_flags, has_flags_matchedRecord, if_neg (by decide), if_pos rfl]

end DeclaredDependency

theorem DirectDependency.eq_of_bits {r r' : DirectDependency} (hkey : r.key = r'.key)
    (hversion : r.version = r'.version) (hscope : r.scope = r'.scope)
    (hoptional : r.isOptional = r'.isOptional)
    (hbits : ∀ i, r.flags.bits.getLsbD i = r'.flags.bits.getLsbD i) : r = r' := by
  obtain ⟨groupId, artifactId, classifier, type, version, scope, isOptional, ⟨bits⟩⟩ := r
  obtain ⟨groupId', artifactId', classifier', type', version', scope', isOptional', ⟨bits'⟩⟩ := r'
  cases hkey
  cases hversion
  cases hscope
  cases hoptional
  cases BitVec.eq_of_getLsbD_eq fun i _ => hbits i
  rfl

namespace ApplicationModel

variable (m : ApplicationModel)

/-- What the record of a declaration says: the key and the scope of the declaration, the version
and the bits of the node of this key if there is one, and how the dependency is declared. -/
structure IsRecordOf (d : DeclaredDependency) (r : DirectDependency) : Prop where
  key : r.key = d.key
  scope : r.scope = d.scope.getD "compile"
  version : r.version = match m.get? d.key with
    | none => d.version
    | some n => some n.coordinates.version
  bits : ∀ i, r.flags.bits.getLsbD i =
    if i = Flag.position .direct then true
    else if i = Flag.position .optional then d.optional
    else match m.get? d.key with
      | none => i == Flag.position .missingFromApplication
      | some n => n.flags.bits.getLsbD i
  optional : r.isOptional = d.optional

theorem isRecordOf_matchedRecord (d : DeclaredDependency) :
    m.IsRecordOf d (d.matchedRecord (m.get? d.key)) where
  key := d.key_matchedRecord _
  scope := d.scope_matchedRecord _
  version := d.version_matchedRecord _
  bits := d.getLsbD_flags_matchedRecord _
  optional := d.isOptional_matchedRecord _

/-- There is one record that says this. -/
theorem isRecordOf_iff (d : DeclaredDependency) (r : DirectDependency) :
    m.IsRecordOf d r ↔ d.matchedRecord (m.get? d.key) = r := by
  have hmatched := m.isRecordOf_matchedRecord d
  constructor
  · intro h
    exact DirectDependency.eq_of_bits (hmatched.key.trans h.key.symm)
      (hmatched.version.trans h.version.symm) (hmatched.scope.trans h.scope.symm)
      (hmatched.optional.trans h.optional.symm) fun i => (hmatched.bits i).trans (h.bits i).symm
  · intro h
    exact h ▸ hmatched

/-! ## Lists of records -/

theorem forall₂_isRecordOf_iff (ds : List DeclaredDependency) (records : List DirectDependency) :
    List.Forall₂ m.IsRecordOf ds records ↔
      (ds.map fun d => d.matchedRecord (m.get? d.key)) = records := by
  have hrecord : m.IsRecordOf = fun d r => d.matchedRecord (m.get? d.key) = r :=
    funext₂ fun d r => propext (m.isRecordOf_iff d r)
  rw [hrecord, ← List.forall₂_map_left_iff, List.forall₂_eq_eq_eq]

theorem reconcile_append (retainTest : Bool) (declared more : List DeclaredDependency) :
    m.reconcile retainTest (declared ++ more) =
      { dependencies := (m.reconcile retainTest declared).dependencies ++
          (m.reconcile retainTest more).dependencies
        directDependencies := (m.reconcile retainTest declared).directDependencies ++
          (m.reconcile retainTest more).directDependencies } := by
  simp only [reconcile, List.filter_append, List.filterMap_append, List.map_append]

/-- The records of the test scope are those of the declarations of the test scope, where these
count. -/
theorem filter_records_reconcile (retainTest : Bool) (declared : List DeclaredDependency) :
    (m.reconcile retainTest declared).directDependencies.filter (·.isTestScoped) =
      if retainTest then
        (declared.filter (·.isTestScoped)).map fun d => d.matchedRecord (m.get? d.key)
      else [] := by
  have htest : (fun r : DirectDependency => r.isTestScoped) ∘
      (fun d : DeclaredDependency => d.matchedRecord (m.get? d.key)) = (·.isTestScoped) :=
    funext fun d => d.isTestScoped_matchedRecord _
  rw [reconcile, List.filter_map, htest, List.filter_filter]
  cases retainTest with
  | false =>
    have hnone : (declared.filter fun d => d.isTestScoped && d.isRetained false) = [] := by
      rw [List.filter_eq_nil_iff]
      intro d _
      simp [DeclaredDependency.isRetained]
    rw [if_neg Bool.false_ne_true, hnone, List.map_nil]
  | true => simp [DeclaredDependency.isRetained]

/-- Reconciling makes one record of each declaration that is not for tests or is retained, in the
order of the declarations, and each record says what it should. A record is optional exactly when
this is written among its flags. Of two lists, one behind the other, it makes what it makes of the
first and then what it makes of the second. -/
theorem records_of_reconcile (retainTest : Bool) (declared : List DeclaredDependency) :
    (∀ records, (m.reconcile retainTest declared).directDependencies = records ↔
      List.Forall₂ m.IsRecordOf
        (declared.filter fun d => d.scope != some "test" || retainTest) records) ∧
    (∀ r ∈ (m.reconcile retainTest declared).directDependencies,
      r.isOptional = true ↔ "OPTIONAL" ∈ r.flags.names) ∧
    ∀ more, m.reconcile retainTest (declared ++ more) =
      { dependencies := (m.reconcile retainTest declared).dependencies ++
          (m.reconcile retainTest more).dependencies
        directDependencies := (m.reconcile retainTest declared).directDependencies ++
          (m.reconcile retainTest more).directDependencies } := by
  refine ⟨fun records => ?_, fun r hr => ?_, m.reconcile_append retainTest declared⟩
  · rw [forall₂_isRecordOf_iff]
    rfl
  · obtain ⟨d, -, rfl⟩ := List.mem_map.1 hr
    rw [d.isOptional_eq_has_flags]
    exact (Flags.mem_names_iff _ .optional).symm

-- The node is optional and direct, and says nothing of how it is declared: the first declaration
-- is not optional, the second one is, and the third one has another key.
example :
    let resolved : ResolvedArtifact :=
      { coordinates := { groupId := "g", artifactId := "a", version := "2" }
        flags := ((Flags.of .optional).add .direct).add .visited }
    let model : ApplicationModel :=
      { application := { coordinates := { groupId := "g", artifactId := "app", version := "1" } }
        nodes := [resolved] }
    (model.reconcile false
      [{ groupId := "g", artifactId := "a", classifier := some "", version := some "1" },
        { groupId := "g", artifactId := "a", scope := some "runtime", optional := true },
        { groupId := "g", artifactId := "a", type := some "" }]).directDependencies =
      [{ groupId := "g", artifactId := "a", version := some "2"
         flags := (Flags.of .direct).add .visited },
        { groupId := "g", artifactId := "a", version := some "2", scope := "runtime"
          isOptional := true, flags := ((Flags.of .direct).add .visited).add .optional },
        { groupId := "g", artifactId := "a", type := "",
          flags := (Flags.of .direct).add .missingFromApplication }] := by
  decide

end ApplicationModel

end ArtifactGraph
