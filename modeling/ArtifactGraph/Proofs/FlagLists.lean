import ArtifactGraph.Proofs.Records
import Mathlib.Data.List.Forall2
import Mathlib.Tactic.SplitIfs
import Mathlib.Tactic.Tauto

/-!
# Lists of flag names

The written form of a set of flags is a list of names.  A user may write the names in any order and
case and repeat them; what the library writes has each name once, in capitals and in the order of
the bits.

* Names.  A text is the name of a flag if its capitals are (`Flag.ofName?_eq_some_iff`), and no two
  flags share a name or a bit.
* Reading.  `Flags.ofNames_eq` is the fold over a list as one decision: the first text that is no
  name, or else the flags of all of them.
* Writing.  The flags of a set stand in the order of their positions (`Flags.pairwise_toList`), and
  those of a list are those that it mentions (`Flags.has_ofList`).
* Both.  `Flags.decode_strings_normalises`: what is read is accepted, refused, written and read
  again as it should be.
-/

namespace ArtifactGraph

/-! ## Names -/

namespace Text

theorem toNat_toUpper (c : Char) :
    c.toUpper.toNat = if 97 ≤ c.toNat ∧ c.toNat ≤ 122 then c.toNat - 32 else c.toNat := by
  have hword := c.val.toNat_lt
  unfold Char.toUpper Char.toNat
  by_cases h : 'a'.val ≤ c.val ∧ c.val ≤ 'z'.val
  · have hletter : 97 ≤ c.val.toNat ∧ c.val.toNat ≤ 122 := h
    -- the distance to the capitals is negative and added as a word
    have hdistance : ('A'.val - 'a'.val).toNat = 2 ^ 32 - 32 := rfl
    rw [dif_pos h, if_pos hletter, UInt32.toNat_add, hdistance]
    omega
  · have hother : ¬ (97 ≤ c.val.toNat ∧ c.val.toNat ≤ 122) := h
    rw [dif_neg h, if_neg hother]

theorem toNat_toLower (c : Char) :
    c.toLower.toNat = if 65 ≤ c.toNat ∧ c.toNat ≤ 90 then c.toNat + 32 else c.toNat := by
  unfold Char.toLower Char.toNat
  by_cases h : c.val ≥ 'A'.val ∧ c.val ≤ 'Z'.val
  · have hletter : 65 ≤ c.val.toNat ∧ c.val.toNat ≤ 90 := h
    have hdistance : ('a'.val - 'A'.val).toNat = 32 := rfl
    rw [dif_pos h, if_pos hletter, UInt32.toNat_add, hdistance]
    omega
  · have hother : ¬ (65 ≤ c.val.toNat ∧ c.val.toNat ≤ 90) := h
    rw [dif_neg h, if_neg hother]

/-- Characters have the same small letter exactly when they have the same capital. -/
theorem toLower_eq_toLower_iff {c d : Char} : c.toLower = d.toLower ↔ c.toUpper = d.toUpper := by
  rw [← Char.toNat_inj, ← Char.toNat_inj, toNat_toLower, toNat_toLower, toNat_toUpper,
    toNat_toUpper]
  split_ifs <;> omega

/-- Two texts are the same up to the case of ASCII letters if their capitals are. -/
theorem sameIgnoringCase_iff {s t : String} :
    sameIgnoringCase s t = true ↔ s.toUpper = t.toUpper := by
  rw [sameIgnoringCase, beq_iff_eq, ← String.toList_inj, String.toUpper, String.toUpper,
    String.toList_map, String.toList_map, ← List.forall₂_eq_eq_eq, List.forall₂_map_left_iff,
    List.forall₂_map_right_iff, List.forall₂_map_left_iff, List.forall₂_map_right_iff]
  simp only [toLower_eq_toLower_iff]

end Text

namespace Flag

/-- Whether a text is the name of a flag, in any case of its letters. -/
def IsNamed (s : String) : Prop := ∃ f : Flag, s.toUpper = f.name

theorem toUpper_name (f : Flag) : f.name.toUpper = f.name := by
  cases f <;> decide +kernel

theorem sameIgnoringCase_name_iff {f : Flag} {s : String} :
    Text.sameIgnoringCase f.name s = true ↔ s.toUpper = f.name := by
  rw [Text.sameIgnoringCase_iff, f.toUpper_name, eq_comm]

theorem ofName?_eq_some_iff {s : String} {f : Flag} : ofName? s = some f ↔ s.toUpper = f.name := by
  have hsound : ∀ {g}, ofName? s = some g → s.toUpper = g.name := by
    intro g hg
    rw [ofName?] at hg
    exact sameIgnoringCase_name_iff.1 (List.find?_some hg :)
  constructor
  · exact hsound
  · intro h
    obtain ⟨g, hg⟩ : ∃ g, ofName? s = some g := by
      rw [← Option.isSome_iff_exists, ofName?, List.find?_isSome]
      exact ⟨f, f.mem_all, sameIgnoringCase_name_iff.2 h⟩
    rw [hg, name_inj ((hsound hg).symm.trans h)]

/-- Whether all texts of a list are names is a matter of their capitals. -/
theorem forall_isNamed_iff {names : List String} :
    (∀ s ∈ names, IsNamed s) ↔ ∀ s ∈ names.map String.toUpper, ∃ f : Flag, s = f.name := by
  simp only [List.mem_map, forall_exists_index, and_imp, forall_apply_eq_imp_iff₂, IsNamed]

theorem ofName?_eq_none_iff {s : String} : ofName? s = none ↔ ¬ IsNamed s := by
  rw [Option.eq_none_iff_forall_ne_some, IsNamed, not_exists]
  exact forall_congr' fun f => not_congr ofName?_eq_some_iff

instance : DecidablePred IsNamed := fun s =>
  decidable_of_iff ((ofName? s).isSome = true) <| by
    rw [Option.isSome_iff_ne_none, Ne, ofName?_eq_none_iff, not_not]

/-- The list of all flags is in the order of their bits. -/
theorem pairwise_all : all.Pairwise (·.position < ·.position) := by decide

end Flag

namespace Flags

/-! ## Reading -/

/-- A list of names is read as strings, whatever they are. -/
theorem decode_strings (names : List String) : decode (.strings names) = ofNames names := by
  have hitems : Json.decodeItems Json.decodeString (names.map .string) = .ok names := by
    induction names with
    | nil => rfl
    | cons s rest ih => rw [List.map_cons, Json.decodeItems, Json.decodeString, ih]; rfl
  rw [decode, Json.strings, Json.decodeList, hitems]

/-- The first text that is no name is the fault, and else there are the flags of all texts. -/
theorem ofNames_eq (names : List String) :
    ofNames names =
      match names.find? (¬ Flag.IsNamed ·) with
      | some s => .error (.unknownFlag s)
      | Option.none => .ok (ofList (names.filterMap Flag.ofName?)) := by
  unfold ofNames ofList
  generalize none = start
  induction names generalizing start with
  | nil => rfl
  | cons s rest ih =>
    rw [List.foldlM_cons, List.find?_cons, List.filterMap_cons]
    cases hs : Flag.ofName? s with
    | none =>
      rw [decide_eq_true (Flag.ofName?_eq_none_iff.1 hs)]
      rfl
    | some f =>
      have hnamed : Flag.IsNamed s := ⟨f, Flag.ofName?_eq_some_iff.1 hs⟩
      rw [decide_eq_false (not_not_intro hnamed)]
      exact ih (start.add f)

theorem ofNames_eq_ok_iff {names : List String} {fs : Flags} :
    ofNames names = .ok fs ↔
      (∀ s ∈ names, Flag.IsNamed s) ∧ fs = ofList (names.filterMap Flag.ofName?) := by
  rw [ofNames_eq]
  split
  · rename_i s hs
    have hunknown : ¬ Flag.IsNamed s := by simpa using List.find?_some hs
    refine iff_of_false nofun fun h => ?_
    exact hunknown (h.1 s (List.mem_of_find?_eq_some hs))
  · rename_i hnone
    have hnamed : ∀ s ∈ names, Flag.IsNamed s := by simpa using hnone
    rw [and_iff_right hnamed, Except.ok.injEq, eq_comm]

theorem find?_not_isNamed_eq_some_iff {names : List String} {s : String} :
    names.find? (¬ Flag.IsNamed ·) = some s ↔
      ∃ before after, names = before ++ s :: after ∧ (∀ t ∈ before, Flag.IsNamed t) ∧
        ¬ Flag.IsNamed s := by
  rw [List.find?_eq_some_iff_append]
  constructor
  · rintro ⟨hs, before, after, hsplit, hbefore⟩
    exact ⟨before, after, hsplit, by simpa using hbefore, by simpa using hs⟩
  · rintro ⟨before, after, hsplit, hbefore, hs⟩
    exact ⟨by simpa using hs, before, after, hsplit, by simpa using hbefore⟩

theorem ofNames_eq_error_iff {names : List String} {e : DecodeFault} :
    ofNames names = .error e ↔
      ∃ before s after, names = before ++ s :: after ∧ (∀ t ∈ before, Flag.IsNamed t) ∧
        ¬ Flag.IsNamed s ∧ e = .unknownFlag s := by
  rw [ofNames_eq]
  constructor
  · intro h
    split at h
    · rename_i s hs
      obtain ⟨before, after, hsplit, hbefore, hunknown⟩ := find?_not_isNamed_eq_some_iff.1 hs
      exact ⟨before, s, after, hsplit, hbefore, hunknown, (Except.error.inj h).symm⟩
    · cases h
  · rintro ⟨before, s, after, hsplit, hbefore, hunknown, rfl⟩
    rw [find?_not_isNamed_eq_some_iff.2 ⟨before, after, hsplit, hbefore, hunknown⟩]

/-! ## Writing -/

theorem getLsbD_foldl_add (l : List Flag) (fs : Flags) (i : Nat) :
    (l.foldl add fs).bits.getLsbD i = (fs.bits.getLsbD i || l.any (·.position == i)) := by
  induction l generalizing fs with
  | nil => simp
  | cons f rest ih => rw [List.foldl_cons, ih, getLsbD_add, List.any_cons, Bool.or_assoc]

/-- A bit is in the set of a list if it is that of a flag in it. -/
theorem getLsbD_ofList {l : List Flag} {i : Nat} :
    (ofList l).bits.getLsbD i = true ↔ ∃ f ∈ l, f.position = i := by
  have hnone : none.bits.getLsbD i = false := by simp [none]
  rw [ofList, getLsbD_foldl_add, hnone, Bool.false_or, List.any_eq_true]
  simp only [beq_iff_eq]

theorem has_ofList {l : List Flag} {f : Flag} : (ofList l).has f = true ↔ f ∈ l := by
  rw [has_eq_getLsbD, getLsbD_ofList]
  constructor
  · rintro ⟨g, hg, hposition⟩
    rwa [← Flag.position_inj hposition]
  · intro hf
    exact ⟨f, hf, rfl⟩

/-- Sets of two lists are equal if the lists have the same members. -/
theorem ofList_congr {l l' : List Flag} (h : ∀ f, f ∈ l ↔ f ∈ l') : ofList l = ofList l' := by
  have hbits : (ofList l).bits = (ofList l').bits := by
    apply BitVec.eq_of_getLsbD_eq
    intro i _
    rw [Bool.eq_iff_iff, getLsbD_ofList, getLsbD_ofList]
    simp only [h]
  calc ofList l = ⟨(ofList l).bits⟩ := rfl
    _ = ⟨(ofList l').bits⟩ := by rw [hbits]
    _ = ofList l' := rfl

theorem pairwise_toList (fs : Flags) : fs.toList.Pairwise (·.position < ·.position) :=
  Flag.pairwise_all.filter _

theorem mem_toList_iff {fs : Flags} {f : Flag} : f ∈ fs.toList ↔ fs.has f = true := by
  simp [toList, f.mem_all]

theorem mem_filterMap_ofName?_iff {names : List String} {f : Flag} :
    f ∈ names.filterMap Flag.ofName? ↔ f.name ∈ names.map String.toUpper := by
  simp only [List.mem_filterMap, List.mem_map, Flag.ofName?_eq_some_iff]

/-! ## Both -/

/-- The names that are written stand for the flags of the set. -/
theorem filterMap_ofName?_names (fs : Flags) : fs.names.filterMap Flag.ofName? = fs.toList := by
  have hname : ∀ f : Flag, Flag.ofName? f.name = some f := fun f =>
    Flag.ofName?_eq_some_iff.2 f.toUpper_name
  rw [names, List.filterMap_map]
  simp [hname]

/-- What is written is read as the flags of the set, without the bits that no flag has. -/
theorem decode_toJson (fs : Flags) : decode fs.toJson = .ok (ofList fs.toList) := by
  rw [toJson, decode_strings, ofNames_eq_ok_iff, filterMap_ofName?_names]
  refine ⟨fun s hs => ?_, rfl⟩
  obtain ⟨f, _, rfl⟩ := List.mem_map.1 hs
  exact ⟨f, f.toUpper_name⟩

/-- A list of texts is accepted if each of them is the name of a flag, and else the first one that
is not is named.  What is written of the accepted list are the names that it mentions, each once and
in the order of the bits, so that only the capitals of the texts matter and neither their order nor
their number.  Of any pattern of bits, writing and reading keep those that a flag has. -/
theorem decode_strings_normalises :
    (∀ names : List String,
      ((∃ fs, decode (.strings names) = .ok fs) ↔ ∀ s ∈ names, Flag.IsNamed s) ∧
      (∀ e, decode (.strings names) = .error e ↔
        ∃ before s after, names = before ++ s :: after ∧ (∀ t ∈ before, Flag.IsNamed t) ∧
          ¬ Flag.IsNamed s ∧ e = .unknownFlag s ∧
          e.message = "unknown dependency flag '" ++ s ++ "'") ∧
      (∀ fs, decode (.strings names) = .ok fs →
        ∃ l : List Flag, fs.toJson = .strings (l.map Flag.name) ∧
          l.Pairwise (·.position < ·.position) ∧
          ∀ f, f ∈ l ↔ f.name ∈ names.map String.toUpper) ∧
      ∀ names' : List String, (∀ s, s ∈ names'.map String.toUpper ↔ s ∈ names.map String.toUpper) →
        ∀ fs, decode (.strings names') = .ok fs ↔ decode (.strings names) = .ok fs) ∧
    ∀ bits, ∃ fs, decode (Flags.mk bits).toJson = .ok fs ∧
      ∀ i, fs.bits.getLsbD i = true ↔ bits.getLsbD i = true ∧ ∃ f : Flag, f.position = i := by
  refine ⟨fun names => ⟨?accepted, ?refused, ?written, ?same⟩, fun bits => ?_⟩
  case accepted =>
    simp only [decode_strings, ofNames_eq_ok_iff, exists_and_left, exists_eq, and_true]
  case refused =>
    intro e
    rw [decode_strings, ofNames_eq_error_iff]
    constructor
    · rintro ⟨before, s, after, hsplit, hbefore, hs, rfl⟩
      exact ⟨before, s, after, hsplit, hbefore, hs, rfl, rfl⟩
    · rintro ⟨before, s, after, hsplit, hbefore, hs, he, _⟩
      exact ⟨before, s, after, hsplit, hbefore, hs, he⟩
  case written =>
    intro fs h
    obtain ⟨_, rfl⟩ := ofNames_eq_ok_iff.1 ((decode_strings names).symm.trans h)
    refine ⟨_, rfl, pairwise_toList _, fun f => ?_⟩
    rw [mem_toList_iff, has_ofList, mem_filterMap_ofName?_iff]
  case same =>
    intro names' h fs
    have hflags : ofList (names'.filterMap Flag.ofName?) = ofList (names.filterMap Flag.ofName?) :=
      ofList_congr fun f => by simp only [mem_filterMap_ofName?_iff, h]
    rw [decode_strings, decode_strings, ofNames_eq_ok_iff, ofNames_eq_ok_iff, hflags,
      Flag.forall_isNamed_iff, Flag.forall_isNamed_iff]
    simp only [h]
  · refine ⟨_, decode_toJson _, fun i => ?_⟩
    rw [getLsbD_ofList]
    constructor
    · rintro ⟨f, hf, rfl⟩
      rw [mem_toList_iff, has_eq_getLsbD] at hf
      exact ⟨hf, f, rfl⟩
    · rintro ⟨hi, f, rfl⟩
      exact ⟨f, mem_toList_iff.2 (by rwa [has_eq_getLsbD]), rfl⟩

theorem decode_strings_normalises_mixedCase :
    decode (.strings ["visited", "Direct", "VISITED"]) = .ok (ofList [.direct, .visited]) ∧
      (∃ l : List Flag, (ofList [.direct, .visited]).toJson = .strings (l.map Flag.name) ∧
        l.Pairwise (·.position < ·.position) ∧
        ∀ f, f ∈ l ↔ f.name ∈ ["visited", "Direct", "VISITED"].map String.toUpper) ∧
      (∀ s, s ∈ ["direct", "Visited"].map String.toUpper ↔
        s ∈ ["visited", "Direct", "VISITED"].map String.toUpper) ∧
      decode (.strings ["direct", "Visited"]) = .ok (ofList [.direct, .visited]) ∧
      (∀ t ∈ ["direct"], Flag.IsNamed t) ∧ ¬ Flag.IsNamed "DIRECT " ∧
      decode (.strings ["direct", "DIRECT ", "x"]) = .error (.unknownFlag "DIRECT ") := by
  have hread : decode (.strings ["visited", "Direct", "VISITED"]) =
      .ok (ofList [.direct, .visited]) := by decide +kernel
  have hsame : ∀ s, s ∈ ["direct", "Visited"].map String.toUpper ↔
      s ∈ ["visited", "Direct", "VISITED"].map String.toUpper := by
    have hfew : ["direct", "Visited"].map String.toUpper = ["DIRECT", "VISITED"] := by
      decide +kernel
    have hmany : ["visited", "Direct", "VISITED"].map String.toUpper =
        ["VISITED", "DIRECT", "VISITED"] := by
      decide +kernel
    intro s
    simp only [hfew, hmany, List.mem_cons, List.not_mem_nil, or_false]
    tauto
  have hnamed : ∀ t ∈ ["direct"], Flag.IsNamed t := by decide +kernel
  have hunknown : ¬ Flag.IsNamed "DIRECT " := by decide +kernel
  obtain ⟨hlists, _⟩ := decode_strings_normalises
  obtain ⟨_, _, hwritten, hmatter⟩ := hlists ["visited", "Direct", "VISITED"]
  obtain ⟨_, hrefused, _, _⟩ := hlists ["direct", "DIRECT ", "x"]
  exact ⟨hread, hwritten _ hread, hsame, (hmatter _ hsame _).2 hread, hnamed, hunknown,
    (hrefused _).2 ⟨["direct"], "DIRECT ", ["x"], rfl, hnamed, hunknown, rfl, rfl⟩⟩

end Flags

end ArtifactGraph
