import ArtifactGraph.Proofs.Runs

/-!
# Shelves of documents

Documents whose text is known can be read once and for all.  A `Volume` is such a document with
the POM it is read as, and `fetch_locator` says that whoever finds it on a shelf gets this POM.

The text of a document is put together from short pieces: its characters are then those of the
pieces, and no long text has to be taken apart.
-/

namespace ArtifactGraph

/-- The text made of pieces. -/
def Text.ofPieces (pieces : List String) : String := String.ofList (pieces.flatMap String.toList)

theorem Text.toList_ofPieces (pieces : List String) :
    (Text.ofPieces pieces).toList = pieces.flatMap String.toList :=
  String.toList_ofList

/-- The POM of a triple, as a document and as it is read. -/
structure Volume where
  gav : Gav
  pieces : List String
  pom : Pom
  read_eq : Pom.read? (Text.ofPieces pieces) = some pom

namespace Shelf

variable {σ : Type}

/-- The locator that looks at a shelf. -/
def locator (shelf : Shelf) : Locate (StateM σ) := fun gav => pure (shelf.locate gav)

/-- The shelf of the documents of volumes. -/
def ofVolumes (name : String) (volumes : List Volume) : Shelf :=
  { name, poms := volumes.map fun v => (v.gav, Text.ofPieces v.pieces) }

end Shelf

namespace Pom

variable {σ : Type}

/-- Gets the POM of a triple from among those of volumes. -/
def fetchVolume (name : String) (volumes : List Volume) : Fetch (StateM σ) := fun gav =>
  match volumes.find? (·.gav == gav) with
  | some v => return v.pom
  | none => throw (.notLocated (.refused (name ++ " has no " ++ gav.toText)))

/-- What is fetched from a shelf of volumes is what they are read as. -/
theorem fetch_locator (name : String) (volumes : List Volume) :
    fetch (Shelf.ofVolumes name volumes).locator =
      (fetchVolume name volumes : Fetch (StateM σ)) := by
  have hlookup (gav : Gav) : (volumes.map fun v => (v.gav, Text.ofPieces v.pieces)).lookup gav =
      (volumes.find? (·.gav == gav)).map fun v => Text.ofPieces v.pieces := by
    induction volumes with
    | nil => rfl
    | cons v rest ih =>
      by_cases hv : v.gav = gav
      · simp [hv]
      · have hne : (gav == v.gav) = false := beq_eq_false_iff_ne.2 (Ne.symm hv)
        simp [hv, hne, List.lookup_cons, ih]
  funext gav
  simp only [fetch, fetchVolume, Shelf.locator, Shelf.locate, Shelf.ofVolumes, hlookup]
  cases volumes.find? (·.gav == gav) with
  | none => rfl
  | some v =>
    simp only [Option.map_some, liftM_pure, pure_bind, v.read_eq]

end Pom

end ArtifactGraph
