import ArtifactGraph.Text
import ArtifactGraph.Json.Record

/-!
# Flags of a dependency

A `Flag` says one thing about the role of an artifact in the application, and `Flags` is a set of
them, kept as a pattern of 32 bits.  A pattern may hold bits that no flag has; they are kept but
have no name.

* The set: `Flags.of`, `insert`, `remove`, `contains`, and how they act on single bits
  (`getLsbD_insert`, `getLsbD_remove`).
* The written form: a list of names in the order of the bits.  A name is read in any ASCII case.
-/

namespace ArtifactGraph

/-- One statement about the role of an artifact. -/
inductive Flag where
  | optional
  | direct
  | runtimeClasspath
  | deploymentClasspath
  | runtimeExtension
  | workspaceModule
  | reloadable
  | topLevelRuntimeExtension
  | classloaderParentFirst
  | classloaderRunnerParentFirst
  | classloaderLesserPriority
  | compileOnly
  | visited
  | missingFromApplication
  deriving DecidableEq, Repr

namespace Flag

/-- The flags in the order of their bits. -/
def all : List Flag :=
  [.optional, .direct, .runtimeClasspath, .deploymentClasspath, .runtimeExtension,
    .workspaceModule, .reloadable, .topLevelRuntimeExtension, .classloaderParentFirst,
    .classloaderRunnerParentFirst, .classloaderLesserPriority, .compileOnly, .visited,
    .missingFromApplication]

/-- The position of a flag's bit, counted from the lowest one. -/
def position : Flag → Nat
  | .optional => 0
  | .direct => 1
  | .runtimeClasspath => 2
  | .deploymentClasspath => 3
  | .runtimeExtension => 4
  | .workspaceModule => 5
  | .reloadable => 6
  | .topLevelRuntimeExtension => 7
  | .classloaderParentFirst => 8
  | .classloaderRunnerParentFirst => 9
  | .classloaderLesserPriority => 10
  | .compileOnly => 11
  | .visited => 12
  | .missingFromApplication => 13

/-- The name of a flag in documents and reports. -/
def name : Flag → String
  | .optional => "OPTIONAL"
  | .direct => "DIRECT"
  | .runtimeClasspath => "RUNTIME_CP"
  | .deploymentClasspath => "DEPLOYMENT_CP"
  | .runtimeExtension => "RUNTIME_EXTENSION_ARTIFACT"
  | .workspaceModule => "WORKSPACE_MODULE"
  | .reloadable => "RELOADABLE"
  | .topLevelRuntimeExtension => "TOP_LEVEL_RUNTIME_EXTENSION_ARTIFACT"
  | .classloaderParentFirst => "CLASSLOADER_PARENT_FIRST"
  | .classloaderRunnerParentFirst => "CLASSLOADER_RUNNER_PARENT_FIRST"
  | .classloaderLesserPriority => "CLASSLOADER_LESSER_PRIORITY"
  | .compileOnly => "COMPILE_ONLY"
  | .visited => "VISITED"
  | .missingFromApplication => "MISSING_FROM_APPLICATION"

/-- The flag of a name in any ASCII case. -/
def ofName? (s : String) : Option Flag := all.find? fun f => Text.sameIgnoringCase f.name s

theorem mem_all (f : Flag) : f ∈ all := by cases f <;> decide

theorem position_lt (f : Flag) : f.position < 32 := by cases f <;> decide

theorem position_inj {f g : Flag} (h : f.position = g.position) : f = g := by
  cases f <;> cases g <;> simp_all [position]

end Flag

/-- A set of flags, as a pattern of bits. -/
structure Flags where
  bits : BitVec 32
  deriving DecidableEq, Repr

namespace Flags

/-- No flag. -/
def none : Flags := ⟨0⟩

/-- A single flag. -/
def of (f : Flag) : Flags := ⟨BitVec.twoPow 32 f.position⟩

/-- The flags of both sets. -/
def insert (fs gs : Flags) : Flags := ⟨fs.bits ||| gs.bits⟩

/-- The flags of the first set that are not in the second. -/
def remove (fs gs : Flags) : Flags := ⟨fs.bits &&& ~~~gs.bits⟩

/-- Whether every bit of the second set is in the first. -/
def contains (fs gs : Flags) : Bool := fs.bits &&& gs.bits == gs.bits

/-- Whether a flag is in a set. -/
def has (fs : Flags) (f : Flag) : Bool := fs.contains (of f)

/-- Adds a flag. -/
def add (fs : Flags) (f : Flag) : Flags := fs.insert (of f)

/-- Takes a flag away. -/
def drop (fs : Flags) (f : Flag) : Flags := fs.remove (of f)

/-- Puts a flag in or takes it out. -/
def put (fs : Flags) (f : Flag) (present : Bool) : Flags :=
  if present then fs.add f else fs.drop f

def isEmpty (fs : Flags) : Bool := fs.bits == 0

/-- The flags of a list. -/
def ofList (fs : List Flag) : Flags := fs.foldl add none

/-- The flags of a set, in the order of their bits. -/
def toList (fs : Flags) : List Flag := Flag.all.filter fs.has

/-- The names of the flags of a set, in the order of their bits. -/
def names (fs : Flags) : List String := fs.toList.map Flag.name

/-! ## Single bits -/

theorem getLsbD_insert (fs gs : Flags) (i : Nat) :
    (fs.insert gs).bits.getLsbD i = (fs.bits.getLsbD i || gs.bits.getLsbD i) := by
  simp [insert]

theorem getLsbD_remove (fs gs : Flags) (i : Nat) :
    (fs.remove gs).bits.getLsbD i = (fs.bits.getLsbD i && !gs.bits.getLsbD i) := by
  by_cases h : i < 32
  · simp [remove, h]
  · simp [remove, BitVec.getLsbD_of_ge, Nat.le_of_not_lt h]

theorem getLsbD_of (f : Flag) (i : Nat) : (of f).bits.getLsbD i = (f.position == i) := by
  have hf := f.position_lt
  by_cases h : f.position = i
  · have hi : i < 32 := h ▸ hf
    simp [of, h, hi]
  · simp [of, BitVec.getLsbD_twoPow, h]

theorem getLsbD_add (fs : Flags) (f : Flag) (i : Nat) :
    (fs.add f).bits.getLsbD i = (fs.bits.getLsbD i || f.position == i) := by
  rw [add, getLsbD_insert, getLsbD_of]

/-- A set contains another one if each bit of the other is in it. -/
theorem contains_iff (fs gs : Flags) :
    fs.contains gs = true ↔ ∀ i, gs.bits.getLsbD i = true → fs.bits.getLsbD i = true := by
  simp only [contains, beq_iff_eq]
  constructor
  · intro h i hi
    have hbit : (fs.bits &&& gs.bits).getLsbD i = gs.bits.getLsbD i := by rw [h]
    rw [BitVec.getLsbD_and, hi, Bool.and_true] at hbit
    exact hbit
  · intro h
    apply BitVec.eq_of_getLsbD_eq
    intro i _
    have := h i
    cases hg : gs.bits.getLsbD i <;> simp_all

/-- A flag is in a set if its bit is. -/
theorem has_eq_getLsbD (fs : Flags) (f : Flag) : fs.has f = fs.bits.getLsbD f.position := by
  rw [Bool.eq_iff_iff, has, contains_iff]
  constructor
  · intro h
    exact h _ (by rw [getLsbD_of]; simp)
  · intro h i hi
    rw [getLsbD_of] at hi
    rw [← eq_of_beq hi]
    exact h

/-! ## Written form -/

/-- The written form of a set. -/
def toJson (fs : Flags) : Json := .strings fs.names

/-- The set of the flags of a list of names. The first name that no flag has is the fault. -/
def ofNames : List String → Except DecodeFault Flags
  | names => names.foldlM (fun fs s =>
      match Flag.ofName? s with
      | some f => .ok (fs.add f)
      | Option.none => .error (.unknownFlag s)) none

/-- Reads the written form of a set. All of it has to be a list of strings before any name is looked
at. -/
def decode : Json.Decoder Flags := fun v =>
  match Json.decodeList Json.decodeString v with
  | .error e => .error e
  | .ok names => ofNames names

end Flags

end ArtifactGraph
