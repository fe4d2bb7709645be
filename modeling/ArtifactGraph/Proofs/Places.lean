import ArtifactGraph.Files.Tree
import ArtifactGraph.Repository

/-!
# Places of POMs

A repository makes the place of a POM out of the texts of a triple, and these may be any texts.  The
three checks of a part are enough to keep the place inside the repository: no part is empty, has a
separator, or leads upwards, and what a group is taken apart into has no dots at all.

* Pieces.  `Text.splitCharsOn_eq_splitOn` and `Text.of_mem_splitOn`: pieces have no separator and
  nothing that the text does not have.
* Paths.  `FilePath.names` are the names of a path; `FilePath.names_foldl_join` says that names
  without a separator are put behind those of the path, and that nothing else happens to it.
* URLs.  `UrlText` are the texts of plain characters, separators and written bytes, and
  `urlText_urlEncode` says that every text is written as one.
* Triples.  `Gav.names_ne` and `Gav.isWhole_names`: no name that a good triple stands for leads
  upwards or elsewhere; `Gav.places_inside` is this for both kinds of repositories.
-/

namespace ArtifactGraph

/-! ## Pieces -/

namespace Text

theorem splitCharsOn_eq_splitOn (sep : Char) (cs : List Char) :
    splitCharsOn sep cs = cs.splitOn sep := by
  induction cs with
  | nil => rfl
  | cons c rest ih =>
    rw [splitCharsOn, List.splitOn_cons_eq_if_modifyHead, ih]
    split
    · rfl
    · cases hrest : rest.splitOn sep with
      | nil => exact absurd hrest (List.splitOn_ne_nil sep rest)
      | cons piece pieces => rfl

theorem splitOnChar_eq (sep : Char) (s : String) :
    splitOnChar sep s = (s.toList.splitOn sep).map String.ofList := by
  rw [splitOnChar, splitCharsOn_eq_splitOn]

/-- A piece has no separator, and its characters are those of the text. -/
theorem of_mem_splitOn {sep : Char} {cs piece : List Char} (h : piece ∈ cs.splitOn sep) :
    sep ∉ piece ∧ ∀ c ∈ piece, c ∈ cs := by
  induction cs generalizing piece with
  | nil =>
    rw [List.mem_singleton.1 h]
    exact ⟨List.not_mem_nil, fun _ hc => absurd hc List.not_mem_nil⟩
  | cons c rest ih =>
    have hstay {piece : List Char} (h : piece ∈ rest.splitOn sep) :
        sep ∉ piece ∧ ∀ d ∈ piece, d ∈ c :: rest :=
      ⟨(ih h).1, fun d hd => List.mem_cons_of_mem c ((ih h).2 d hd)⟩
    rw [List.splitOn_cons_eq_if_modifyHead] at h
    split at h
    · rcases List.mem_cons.1 h with rfl | h
      · exact ⟨List.not_mem_nil, fun _ hd => absurd hd List.not_mem_nil⟩
      · exact hstay h
    · rename_i hc
      cases hrest : rest.splitOn sep with
      | nil => exact absurd hrest (List.splitOn_ne_nil sep rest)
      | cons first pieces =>
        rw [hrest, List.modifyHead_cons] at h
        rw [hrest] at hstay
        rcases List.mem_cons.1 h with rfl | h
        · obtain ⟨hsep, hchars⟩ := hstay List.mem_cons_self
          constructor
          · rw [List.mem_cons, not_or]
            exact ⟨fun heq => hc (beq_iff_eq.2 heq.symm), hsep⟩
          · intro d hd
            rcases List.mem_cons.1 hd with rfl | hd
            · exact List.mem_cons_self
            · exact hchars d hd
        · exact hstay (List.mem_cons_of_mem first h)

theorem toList_joinWith (sep : String) (ss : List String) :
    (joinWith sep ss).toList = sep.toList.intercalate (ss.map String.toList) := by
  induction ss with
  | nil => rfl
  | cons s rest ih =>
    cases rest with
    | nil => simp [joinWith]
    | cons t more =>
      rw [List.map_cons, List.map_cons, List.intercalate_cons_cons, ← List.map_cons, ← ih,
        List.append_assoc, ← String.toList_append, ← String.toList_append, ← String.append_assoc]
      simp only [joinWith]

/-- Texts without a separator are the pieces of what they are joined to. -/
theorem splitOnChar_joinWith {sep : Char} {ss : List String} (hne : ss ≠ [])
    (hss : ∀ s ∈ ss, sep ∉ s.toList) :
    splitOnChar sep (joinWith (String.ofList [sep]) ss) = ss := by
  have hpieces : ∀ l ∈ ss.map String.toList, sep ∉ l := by
    intro l hl
    obtain ⟨s, hs, rfl⟩ := List.mem_map.1 hl
    exact hss s hs
  rw [splitOnChar_eq, toList_joinWith, String.toList_ofList,
    List.splitOn_intercalate sep hpieces (by simpa using hne), List.map_map]
  exact (List.map_congr_left fun s _ => String.ofList_toList).trans (List.map_id ss)

end Text

/-! ## Paths -/

namespace FilePath

/-- The names of a path, in their order. -/
def names (path : String) : List String := (Text.splitOnChar separator path).filter (!·.isEmpty)

theorem names_of_not_mem {name : String} (h : separator ∉ name.toList) :
    names name = [name].filter (!·.isEmpty) := by
  rw [names, Text.splitOnChar_eq, List.splitOn_eq_singleton h, List.map_singleton,
    String.ofList_toList]

/-- The names on both sides of a separator are the names of a path. -/
theorem names_append (a b : List Char) :
    names (String.ofList (a ++ separator :: b)) =
      names (String.ofList a) ++ names (String.ofList b) := by
  simp only [names, Text.splitOnChar_eq, String.toList_ofList, List.splitOn_append_cons_self,
    List.map_append, List.filter_append]

/-- What putting a name behind a path comes to. -/
theorem join_cases (path name : String) (h : separator ∉ name.toList) :
    (path = "" ∧ join path name = name) ∨
      (∃ front, path.toList = front ++ [separator] ∧
        (join path name).toList = front ++ separator :: name.toList) ∨
      path ≠ "" ∧ (join path name).toList = path.toList ++ separator :: name.toList := by
  have hrelative : (name.toList.head? == some separator) = false := by
    rw [beq_eq_false_iff_ne]
    exact fun hhead => h (List.mem_of_head? hhead)
  rw [join, hrelative, if_neg Bool.false_ne_true]
  split
  · rename_i hend
    rw [Bool.or_eq_true] at hend
    rcases hend with hempty | hlast
    · obtain rfl := String.isEmpty_iff.1 hempty
      exact Or.inl ⟨rfl, String.empty_append⟩
    · obtain ⟨front, hfront⟩ := List.getLast?_eq_some_iff.1 (beq_iff_eq.1 hlast)
      refine Or.inr (Or.inl ⟨front, hfront, ?_⟩)
      rw [String.toList_append, hfront, List.append_assoc, List.singleton_append]
  · rename_i hend
    rw [Bool.or_eq_true, not_or] at hend
    refine Or.inr (Or.inr ⟨fun hempty => hend.1 (String.isEmpty_iff.2 hempty), ?_⟩)
    rw [String.toList_append, String.toList_append, List.append_assoc]
    rfl

section

variable {path name : String} (h : separator ∉ name.toList)
include h

theorem names_join : names (join path name) = names path ++ [name].filter (!·.isEmpty) := by
  rw [← names_of_not_mem h]
  rcases join_cases path name h with ⟨rfl, hjoin⟩ | ⟨front, hpath, hjoin⟩ | ⟨-, hjoin⟩
  · rw [hjoin]
    rfl
  · rw [← String.ofList_toList (s := join path name), hjoin, names_append, String.ofList_toList,
      ← String.ofList_toList (s := path), hpath, names_append]
    congr 1
    exact (List.append_nil _).symm
  · rw [← String.ofList_toList (s := join path name), hjoin, names_append, String.ofList_toList,
      String.ofList_toList]

/-- A path stays as it is in front of a name. -/
theorem prefix_join : path.toList <+: (join path name).toList := by
  rcases join_cases path name h with ⟨rfl, -⟩ | ⟨front, hpath, hjoin⟩ | ⟨-, hjoin⟩
  · exact List.nil_prefix
  · rw [hpath, hjoin]
    exact ⟨name.toList, by simp⟩
  · rw [hjoin]
    exact List.prefix_append _ _

theorem suffix_join : name.toList <:+ (join path name).toList := by
  rcases join_cases path name h with ⟨-, hjoin⟩ | ⟨front, -, hjoin⟩ | ⟨-, hjoin⟩
  · exact ⟨[], by rw [hjoin, List.nil_append]⟩
  · rw [hjoin]
    exact ⟨front ++ [separator], by simp⟩
  · rw [hjoin]
    exact ⟨path.toList ++ [separator], by simp⟩

theorem isAbsolute_join : FileTree.isAbsolute (join path name) = FileTree.isAbsolute path := by
  have hrelative : name.toList.head? ≠ some separator := fun hhead => h (List.mem_of_head? hhead)
  rcases join_cases path name h with ⟨rfl, hjoin⟩ | ⟨front, hpath, hjoin⟩ | ⟨hpath, hjoin⟩
  · rw [hjoin, FileTree.isAbsolute, beq_eq_false_iff_ne.2 hrelative]
    rfl
  · rw [FileTree.isAbsolute, FileTree.isAbsolute, hjoin, hpath]
    cases front <;> rfl
  · rw [FileTree.isAbsolute, FileTree.isAbsolute, hjoin]
    cases hchars : path.toList with
    | nil => exact absurd (String.toList_eq_nil_iff.1 hchars) hpath
    | cons c rest => rfl

end

section

variable {root : String} {ns : List String} (h : ∀ n ∈ ns, separator ∉ n.toList)
include h

/-- Names without a separator come behind those of the root. -/
theorem names_foldl_join : names (ns.foldl join root) = names root ++ ns.filter (!·.isEmpty) := by
  induction ns generalizing root with
  | nil => exact (List.append_nil _).symm
  | cons n rest ih =>
    obtain ⟨hn, hrest⟩ := List.forall_mem_cons.1 h
    rw [List.foldl_cons, ih hrest, names_join hn, List.append_assoc, ← List.filter_append,
      List.singleton_append]

theorem prefix_foldl_join : root.toList <+: (ns.foldl join root).toList := by
  induction ns generalizing root with
  | nil => exact List.prefix_rfl
  | cons n rest ih =>
    obtain ⟨hn, hrest⟩ := List.forall_mem_cons.1 h
    exact (prefix_join hn).trans (ih hrest)

theorem isAbsolute_foldl_join :
    FileTree.isAbsolute (ns.foldl join root) = FileTree.isAbsolute root := by
  induction ns generalizing root with
  | nil => rfl
  | cons n rest ih =>
    obtain ⟨hn, hrest⟩ := List.forall_mem_cons.1 h
    rw [List.foldl_cons, ih hrest, isAbsolute_join hn]

end

end FilePath

/-! ## URLs -/

/-- The digits of a byte that is written in a URL. -/
def urlDigits : List Char := "0123456789ABCDEF".toList

/-- Texts that have no meaning in a URL but as names with separators between them: of plain
characters, separators, and bytes with a percent sign and two digits. -/
inductive UrlText : List Char → Prop
  | nil : UrlText []
  | plain {c : Char} {rest : List Char} (hc : isPlainInUrl c = true) (hrest : UrlText rest) :
      UrlText (c :: rest)
  | separator {rest : List Char} (hrest : UrlText rest) : UrlText (FilePath.separator :: rest)
  | byte {high low : Char} {rest : List Char} (hhigh : high ∈ urlDigits) (hlow : low ∈ urlDigits)
      (hrest : UrlText rest) : UrlText ('%' :: high :: low :: rest)

theorem UrlText.append {a b : List Char} (ha : UrlText a) (hb : UrlText b) : UrlText (a ++ b) := by
  induction ha with
  | nil => exact hb
  | plain hc _ ih => exact .plain hc ih
  | separator _ ih => exact .separator ih
  | byte hhigh hlow _ ih => exact .byte hhigh hlow ih

theorem UrlText.not_mem {cs : List Char} (h : UrlText cs) {c : Char}
    (hc : isPlainInUrl c = false ∧ c ≠ FilePath.separator ∧ c ≠ '%' ∧ c ∉ urlDigits) : c ∉ cs := by
  obtain ⟨hplain, hseparator, hpercent, hdigit⟩ := hc
  induction h with
  | nil => exact List.not_mem_nil
  | plain hd _ ih =>
    rw [List.mem_cons, not_or]
    refine ⟨fun heq => ?_, ih⟩
    rw [← heq, hplain] at hd
    cases hd
  | separator _ ih =>
    rw [List.mem_cons, not_or]
    exact ⟨hseparator, ih⟩
  | byte hhigh hlow _ ih =>
    simp only [List.mem_cons, not_or]
    exact ⟨hpercent, fun heq => hdigit (heq ▸ hhigh), fun heq => hdigit (heq ▸ hlow), ih⟩

theorem capitalDigit_mem_urlDigits : ∀ n < 16, Text.capitalDigit n ∈ urlDigits := by decide

theorem urlText_urlByte (b : UInt8) : UrlText (urlByte b) := by
  have hsize : b.toNat < 256 := b.toNat_lt
  exact .byte (capitalDigit_mem_urlDigits _ (by omega)) (capitalDigit_mem_urlDigits _ (by omega))
    .nil

theorem not_mem_urlByte {b : UInt8} : FilePath.separator ∉ urlByte b := by
  have hsize : b.toNat < 256 := b.toNat_lt
  have hdigit : FilePath.separator ∉ urlDigits := by decide
  simp only [urlByte, List.mem_cons, List.not_mem_nil, or_false, not_or]
  exact ⟨by decide,
    fun heq => hdigit (heq ▸ capitalDigit_mem_urlDigits _ (by omega)),
    fun heq => hdigit (heq ▸ capitalDigit_mem_urlDigits _ (by omega))⟩

/-- How a character is written in a URL. -/
def urlCharacter (c : Char) : List Char :=
  if isPlainInUrl c then [c] else (String.utf8EncodeChar c).flatMap urlByte

theorem toList_urlEncode (s : String) : (urlEncode s).toList = s.toList.flatMap urlCharacter :=
  String.toList_ofList

theorem urlText_urlCharacter (c : Char) : UrlText (urlCharacter c) := by
  unfold urlCharacter
  split
  · rename_i hc
    exact .plain hc .nil
  · induction String.utf8EncodeChar c with
    | nil => exact .nil
    | cons b rest ih => exact (urlText_urlByte b).append ih

/-- Every text is written without a character that has a meaning in URLs. -/
theorem urlText_urlEncode (s : String) : UrlText (urlEncode s).toList := by
  rw [toList_urlEncode]
  induction s.toList with
  | nil => exact .nil
  | cons c rest ih => exact (urlText_urlCharacter c).append ih

/-- A text is written without separators. -/
theorem not_mem_urlEncode (s : String) : FilePath.separator ∉ (urlEncode s).toList := by
  rw [toList_urlEncode]
  intro hmem
  obtain ⟨c, -, hc⟩ := List.mem_flatMap.1 hmem
  unfold urlCharacter at hc
  split at hc
  · rename_i hplain
    rw [← List.mem_singleton.1 hc] at hplain
    exact absurd hplain (by decide)
  · obtain ⟨b, -, hb⟩ := List.mem_flatMap.1 hc
    exact not_mem_urlByte hb

/-- A character that is not plain leaves a percent sign. -/
theorem percent_mem_urlCharacter {c : Char} (h : isPlainInUrl c = false) :
    '%' ∈ urlCharacter c := by
  rw [urlCharacter, h, if_neg Bool.false_ne_true]
  have hne : String.utf8EncodeChar c ≠ [] := String.utf8EncodeChar_ne_nil
  obtain ⟨b, rest, hbytes⟩ := List.exists_cons_of_ne_nil hne
  rw [hbytes, List.flatMap_cons]
  exact List.mem_append_left _ List.mem_cons_self

/-- What is written without a percent sign is written as it is. -/
theorem urlEncode_eq_self {s : String} (h : '%' ∉ (urlEncode s).toList) : urlEncode s = s := by
  rw [toList_urlEncode] at h
  apply String.ext
  rw [toList_urlEncode]
  generalize s.toList = cs at h
  induction cs with
  | nil => rfl
  | cons c rest ih =>
    rw [List.flatMap_cons, List.mem_append, not_or] at h
    cases hc : isPlainInUrl c with
    | false => exact absurd (percent_mem_urlCharacter hc) h.1
    | true => rw [List.flatMap_cons, ih h.2, urlCharacter, if_pos hc, List.singleton_append]

/-- Only the way upwards is written as the way upwards. -/
theorem urlEncode_ne {s : String} (h : s ≠ "..") : urlEncode s ≠ ".." := by
  intro hup
  have hplain : '%' ∉ (urlEncode s).toList := by
    rw [hup]
    decide
  rw [urlEncode_eq_self hplain] at hup
  exact h hup

theorem urlText_joinWith {ss : List String} (h : ∀ s ∈ ss, UrlText s.toList) :
    UrlText (Text.joinWith "/" ss).toList := by
  induction ss with
  | nil => exact .nil
  | cons s rest ih =>
    obtain ⟨hs, hrest⟩ := List.forall_mem_cons.1 h
    cases rest with
    | nil => exact hs
    | cons t more =>
      have hjoin : (Text.joinWith "/" (s :: t :: more)).toList =
          s.toList ++ FilePath.separator :: (Text.joinWith "/" (t :: more)).toList := by
        simp [Text.joinWith, FilePath.separator]
      rw [hjoin]
      exact hs.append (.separator (ih hrest))

/-! ## Triples -/

/-- A part of a triple without a fault is a name, it is one name only, and it has no two dots in a
row. -/
theorem of_partFault?_eq_none {text : String} (h : partFault? text = none) :
    text ≠ "" ∧ FilePath.separator ∉ text.toList ∧ ¬ "..".toList <:+: text.toList := by
  unfold partFault? at h
  simp only at h
  split at h
  · cases h
  · rename_i hblank
    split at h
    · cases h
    · rename_i hseparated
      split at h
      · cases h
      · rename_i hupward
        refine ⟨?_, ?_, ?_⟩
        · rintro rfl
          exact hblank (by decide)
        · rw [Bool.or_eq_true, not_or, List.contains_iff_mem] at hseparated
          exact hseparated.1
        · rwa [Text.occurs, Text.occursIn_iff] at hupward

namespace Gav

theorem partFault?_of_fault?_eq_none {g : Gav} (h : g.fault? = none) :
    partFault? g.groupId = none ∧ partFault? g.artifactId = none ∧
      partFault? g.version = none := by
  have hpart (what text : String) (hmem : (what, text) ∈ g.parts) : partFault? text = none := by
    have hmap : (partFault? text).map (PartFault.message what) = none :=
      List.findSome?_eq_none_iff.1 h (what, text) hmem
    exact Option.map_eq_none_iff.1 hmap
  exact ⟨hpart "Group id" g.groupId (by simp [parts]),
    hpart "Artifact id" g.artifactId (by simp [parts]), hpart "Version" g.version (by simp [parts])⟩

theorem pomName_ne (artifactId version : String) : pomName artifactId version ≠ ".." := by
  intro hup
  have hmem : '-' ∈ (pomName artifactId version).toList := by simp [pomName]
  rw [hup] at hmem
  exact absurd hmem (by decide)

/-- The names that a triple stands for in a repository: those of the group, the artifact, the
version and the POM. -/
def names (g : Gav) : List String :=
  g.groupNames ++ [g.artifactId, g.version, pomName g.artifactId g.version]

theorem mem_names {g : Gav} {n : String} :
    n ∈ g.names ↔ n ∈ g.groupNames ∨ n = g.artifactId ∨ n = g.version ∨
      n = pomName g.artifactId g.version := by
  simp [names]

theorem of_mem_groupNames {g : Gav} {n : String} (hn : n ∈ g.groupNames) :
    '.' ∉ n.toList ∧ ∀ c ∈ n.toList, c ∈ g.groupId.toList := by
  rw [groupNames, Text.splitOnChar_eq] at hn
  obtain ⟨piece, hpiece, rfl⟩ := List.mem_map.1 hn
  rw [String.toList_ofList]
  exact Text.of_mem_splitOn hpiece

/-- No name of a good triple leads upwards. -/
theorem names_ne {g : Gav} (h : g.fault? = none) : ∀ n ∈ g.names, n ≠ ".." := by
  obtain ⟨-, hartifact, hversion⟩ := partFault?_of_fault?_eq_none h
  have hpart {text : String} (htext : partFault? text = none) : text ≠ ".." := by
    rintro rfl
    exact (of_partFault?_eq_none htext).2.2 List.infix_rfl
  intro n hn
  rcases mem_names.1 hn with hn | rfl | rfl | rfl
  · rintro rfl
    exact (of_mem_groupNames hn).1 (by decide)
  · exact hpart hartifact
  · exact hpart hversion
  · exact pomName_ne _ _

/-- No name of a good triple has a separator. -/
theorem isWhole_names {g : Gav} (h : g.fault? = none) :
    ∀ n ∈ g.names, FilePath.separator ∉ n.toList := by
  obtain ⟨hgroup, hartifact, hversion⟩ := partFault?_of_fault?_eq_none h
  have hartifact := (of_partFault?_eq_none hartifact).2.1
  have hversion := (of_partFault?_eq_none hversion).2.1
  intro n hn
  rcases mem_names.1 hn with hn | rfl | rfl | rfl
  · exact fun hmem => (of_partFault?_eq_none hgroup).2.1 ((of_mem_groupNames hn).2 _ hmem)
  · exact hartifact
  · exact hversion
  · have hsigns : FilePath.separator ∉ "-".toList ∧ FilePath.separator ∉ ".pom".toList := by decide
    simp only [pomName, String.toList_append, List.mem_append, not_or]
    exact ⟨⟨⟨hartifact, hsigns.1⟩, hversion⟩, hsigns.2⟩

/-- The names of a triple that are not empty. -/
theorem filter_names {g : Gav} (h : g.fault? = none) :
    g.names.filter (!·.isEmpty) = g.groupNames.filter (!·.isEmpty) ++
      [g.artifactId, g.version, pomName g.artifactId g.version] := by
  obtain ⟨-, hartifact, hversion⟩ := partFault?_of_fault?_eq_none h
  have hfull {text : String} (htext : text ≠ "") : (!text.isEmpty) = true := by
    simpa [String.isEmpty_iff] using htext
  have hpom : pomName g.artifactId g.version ≠ "" := by
    intro hempty
    have hmem : '-' ∈ (pomName g.artifactId g.version).toList := by simp [pomName]
    rw [hempty] at hmem
    cases hmem
  have hrest : ∀ n ∈ [g.artifactId, g.version, pomName g.artifactId g.version],
      (!n.isEmpty) = true := by
    simp only [List.mem_cons, List.not_mem_nil, or_false]
    rintro n (rfl | rfl | rfl)
    · exact hfull (of_partFault?_eq_none hartifact).1
    · exact hfull (of_partFault?_eq_none hversion).1
    · exact hfull hpom
  rw [names, List.filter_append, List.filter_eq_self.2 hrest]

end Gav

theorem LocalRepository.pomPath_eq (l : LocalRepository) (g : Gav) :
    l.pomPath g = match g.fault? with
      | some fault => .error fault
      | none => .ok (g.names.foldl FilePath.join l.root) := rfl

/-- The names of a triple as they are written in a URL. -/
def Gav.urlNames (g : Gav) : List String :=
  g.groupNames.map urlEncode ++
    [urlEncode g.artifactId, urlEncode g.version,
      pomName (urlEncode g.artifactId) (urlEncode g.version)]

theorem RemoteRepository.pomUrl_eq (r : RemoteRepository) (g : Gav) :
    r.pomUrl g = match g.fault? with
      | some fault => .error fault
      | none => .ok (r.base ++ "/" ++ Text.joinWith "/" g.urlNames) := by
  rw [pomUrl]
  cases g.fault? with
  | some fault => rfl
  | none =>
    change Except.ok (Text.joinWith "/" (r.base :: g.urlNames)) = _
    cases hnames : g.urlNames with
    | nil => simp [Gav.urlNames] at hnames
    | cons n rest => simp only [Text.joinWith]

namespace Gav

theorem urlText_pomName (artifactId version : String) :
    UrlText (pomName (urlEncode artifactId) (urlEncode version)).toList := by
  have hdash : UrlText "-".toList := .plain (by decide) .nil
  have hending : UrlText ".pom".toList :=
    .plain (by decide) (.plain (by decide) (.plain (by decide) (.plain (by decide) .nil)))
  simp only [pomName, String.toList_append]
  exact (((urlText_urlEncode artifactId).append hdash).append (urlText_urlEncode version)).append
    hending

theorem mem_urlNames {g : Gav} {n : String} :
    n ∈ g.urlNames ↔ (∃ m ∈ g.groupNames, urlEncode m = n) ∨ n = urlEncode g.artifactId ∨
      n = urlEncode g.version ∨ n = pomName (urlEncode g.artifactId) (urlEncode g.version) := by
  simp [urlNames]

/-- A name of a good triple is written in a URL as one name that does not lead upwards. -/
theorem of_mem_urlNames {g : Gav} (h : g.fault? = none) {n : String} (hn : n ∈ g.urlNames) :
    n ≠ ".." ∧ FilePath.separator ∉ n.toList ∧ UrlText n.toList := by
  have hwritten {m : String} (hm : m ∈ g.names) : urlEncode m ≠ ".." ∧
      FilePath.separator ∉ (urlEncode m).toList ∧ UrlText (urlEncode m).toList :=
    ⟨urlEncode_ne (names_ne h m hm), not_mem_urlEncode m, urlText_urlEncode m⟩
  rcases mem_urlNames.1 hn with ⟨m, hm, rfl⟩ | rfl | rfl | rfl
  · exact hwritten (mem_names.2 (.inl hm))
  · exact hwritten (mem_names.2 (.inr (.inl rfl)))
  · exact hwritten (mem_names.2 (.inr (.inr (.inl rfl))))
  · have hsigns : FilePath.separator ∉ "-".toList ∧ FilePath.separator ∉ ".pom".toList := by decide
    refine ⟨pomName_ne _ _, ?_, urlText_pomName _ _⟩
    simp only [pomName, String.toList_append, List.mem_append, not_or]
    exact ⟨⟨⟨not_mem_urlEncode _, hsigns.1⟩, not_mem_urlEncode _⟩, hsigns.2⟩

/-- The places that are made of a triple are inside the repository. A path is the root with names
behind it, the last one that of the POM, none of which leads upwards or to somewhere else; a URL is
the base with such names behind it, written without a character that has a meaning in URLs. Both
kinds of repositories accept the same triples. -/
theorem places_inside (l : LocalRepository) (r : RemoteRepository) (g : Gav) :
    (∀ path, l.pomPath g = .ok path → ∃ names,
      FilePath.names path = FilePath.names l.root ++ names ∧
      names = g.groupNames.filter (!·.isEmpty) ++
        [g.artifactId, g.version, pomName g.artifactId g.version] ∧
      (∀ n ∈ names, n ≠ ".." ∧ FilePath.separator ∉ n.toList) ∧
      l.root.toList <+: path.toList ∧
      (pomName g.artifactId g.version).toList <:+ path.toList ∧
      FileTree.isAbsolute path = FileTree.isAbsolute l.root) ∧
    (∀ url, r.pomUrl g = .ok url → ∃ tail, url = r.base ++ "/" ++ tail ∧
      UrlText tail.toList ∧ ".." ∉ Text.splitOnChar FilePath.separator tail ∧
      ∀ c ∈ ['?', '#', '@'], c ∉ tail.toList) ∧
    ((∃ path, l.pomPath g = .ok path) ↔ ∃ url, r.pomUrl g = .ok url) := by
  rw [l.pomPath_eq, r.pomUrl_eq]
  cases hfault : g.fault? with
  | some fault => exact ⟨nofun, nofun, by simp⟩
  | none =>
    refine ⟨?_, ?_, by simp⟩
    · rintro path ⟨⟩
      have hwhole := isWhole_names hfault
      refine ⟨_, FilePath.names_foldl_join hwhole, filter_names hfault, ?_,
        FilePath.prefix_foldl_join hwhole, ?_, FilePath.isAbsolute_foldl_join hwhole⟩
      · intro n hn
        obtain ⟨hn, -⟩ := List.mem_filter.1 hn
        exact ⟨names_ne hfault n hn, hwhole n hn⟩
      · have hlast : pomName g.artifactId g.version ∈ g.names :=
          mem_names.2 (.inr (.inr (.inr rfl)))
        rw [names, List.foldl_append]
        exact FilePath.suffix_join (hwhole _ hlast)
    · rintro url ⟨⟩
      have hne : g.urlNames ≠ [] := by simp [urlNames]
      have hpieces : Text.splitOnChar FilePath.separator (Text.joinWith "/" g.urlNames) =
          g.urlNames :=
        Text.splitOnChar_joinWith hne fun n hn => (of_mem_urlNames hfault hn).2.1
      have htext : UrlText (Text.joinWith "/" g.urlNames).toList :=
        urlText_joinWith fun n hn => (of_mem_urlNames hfault hn).2.2
      refine ⟨_, rfl, htext, ?_, ?_⟩
      · rw [hpieces]
        exact fun hup => (of_mem_urlNames hfault hup).1 rfl
      · intro c hc
        apply htext.not_mem
        simp only [List.mem_cons, List.not_mem_nil, or_false] at hc
        rcases hc with rfl | rfl | rfl
        · decide
        · decide
        · decide

/-- A triple with empty names in its group, a single dot for an artifact, and a version with
characters that URLs do not have. -/
def oddTriple : Gav := ⟨".acme.tools.", ".", "1 β%2e"⟩

theorem places_inside_oddTriple :
    (⟨"repo"⟩ : LocalRepository).pomPath oddTriple =
        .ok "repo/acme/tools/./1 β%2e/.-1 β%2e.pom" ∧
      (⟨"https://h"⟩ : RemoteRepository).pomUrl oddTriple =
        .ok "https://h//acme/tools//./1%20%CE%B2%252e/.-1%20%CE%B2%252e.pom" ∧
      (∃ names, FilePath.names "repo/acme/tools/./1 β%2e/.-1 β%2e.pom" =
          FilePath.names "repo" ++ names ∧
        (∀ n ∈ names, n ≠ ".." ∧ FilePath.separator ∉ n.toList)) ∧
      ∃ tail, "https://h//acme/tools//./1%20%CE%B2%252e/.-1%20%CE%B2%252e.pom" =
          "https://h" ++ "/" ++ tail ∧
        UrlText tail.toList ∧ ".." ∉ Text.splitOnChar FilePath.separator tail ∧
        ∀ c ∈ ['?', '#', '@'], c ∉ tail.toList := by
  have hpath : (⟨"repo"⟩ : LocalRepository).pomPath oddTriple =
      .ok "repo/acme/tools/./1 β%2e/.-1 β%2e.pom" := rfl
  have hurl : (⟨"https://h"⟩ : RemoteRepository).pomUrl oddTriple =
      .ok "https://h//acme/tools//./1%20%CE%B2%252e/.-1%20%CE%B2%252e.pom" := rfl
  obtain ⟨hlocal, hremote, -⟩ := places_inside ⟨"repo"⟩ ⟨"https://h"⟩ oddTriple
  obtain ⟨names, hnames, -, hinside, -⟩ := hlocal _ hpath
  exact ⟨hpath, hurl, ⟨names, hnames, hinside⟩, hremote _ hurl⟩

end Gav

end ArtifactGraph
