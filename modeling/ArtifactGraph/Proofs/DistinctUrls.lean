import ArtifactGraph.Proofs.Places
import ArtifactGraph.Proofs.Runs

/-!
# URLs that tell triples apart

In the URL of a POM the dots of the group are separators, while those of the artifact and the
version stay, and both are repeated in the name of the file.  The triple can still be read off it.

* Writing.  `urlBytes` reads the bytes of a text that is written in a URL, and `urlEncode_inj`
  follows: different texts are written differently.
* Pieces.  `Text.joinWith_splitOnChar`: a text is what its pieces are joined to.
* Names.  `Gav.eq_of_urlNames_eq`: the names of a triple in a URL are those of no other triple.
* `pomUrl_tells_apart` is this for URLs, and for what is fetched from them.
-/

namespace ArtifactGraph

/-! ## Writing -/

/-- The bytes that a text of a URL stands for: two digits behind a percent sign are one byte, and
any other character stands for itself. -/
def urlBytes : List Char → List UInt8
  | '%' :: high :: low :: rest =>
    UInt8.ofNat (16 * (Text.digit? 16 high).getD 0 + (Text.digit? 16 low).getD 0) :: urlBytes rest
  | c :: rest => String.utf8EncodeChar c ++ urlBytes rest
  | [] => []

theorem urlBytes_urlByte (b : UInt8) (rest : List Char) :
    urlBytes (urlByte b ++ rest) = b :: urlBytes rest := by
  have hsize : b.toNat < 256 := b.toNat_lt
  have hhigh := Text.digit?_capitalDigit (b.toNat / 16) (by omega)
  have hlow := Text.digit?_capitalDigit (b.toNat % 16) (by omega)
  have hbyte : 16 * (b.toNat / 16) + b.toNat % 16 = b.toNat := by omega
  show urlBytes ('%' :: Text.capitalDigit _ :: Text.capitalDigit _ :: rest) = _
  rw [urlBytes, hhigh, hlow, Option.getD_some, Option.getD_some, hbyte, UInt8.ofNat_toNat]

theorem urlBytes_flatMap_urlByte (bytes : List UInt8) (rest : List Char) :
    urlBytes (bytes.flatMap urlByte ++ rest) = bytes ++ urlBytes rest := by
  induction bytes with
  | nil => rfl
  | cons b more ih =>
    rw [List.flatMap_cons, List.append_assoc, urlBytes_urlByte, ih, List.cons_append]

theorem urlBytes_cons_of_ne {c : Char} (h : c ≠ '%') (rest : List Char) :
    urlBytes (c :: rest) = String.utf8EncodeChar c ++ urlBytes rest := by
  rw [urlBytes]
  intro high low more heq
  exact fun _ => h heq

/-- A character stands for its own bytes, however it is written. -/
theorem urlBytes_urlCharacter (c : Char) (rest : List Char) :
    urlBytes (urlCharacter c ++ rest) = String.utf8EncodeChar c ++ urlBytes rest := by
  unfold urlCharacter
  split
  · rename_i hplain
    have hpercent : c ≠ '%' := by
      rintro rfl
      exact absurd hplain (by decide)
    exact urlBytes_cons_of_ne hpercent rest
  · exact urlBytes_flatMap_urlByte _ rest

/-- The bytes of a text are read off it as it is written. -/
theorem urlBytes_urlEncode (s : String) :
    urlBytes (urlEncode s).toList = s.toList.flatMap String.utf8EncodeChar := by
  rw [toList_urlEncode]
  induction s.toList with
  | nil => rfl
  | cons c rest ih => rw [List.flatMap_cons, List.flatMap_cons, urlBytes_urlCharacter, ih]

/-- Different texts have different bytes. -/
theorem toList_inj_of_utf8 {s t : String}
    (h : s.toList.flatMap String.utf8EncodeChar = t.toList.flatMap String.utf8EncodeChar) :
    s = t := by
  have hbytes : s.toList.utf8Encode = t.toList.utf8Encode := congrArg List.toByteArray h
  rw [← String.toByteArray_ofList, ← String.toByteArray_ofList, String.toByteArray_inj,
    String.ofList_toList, String.ofList_toList] at hbytes
  exact hbytes

/-- Different texts are written differently. -/
theorem urlEncode_inj {s t : String} (h : urlEncode s = urlEncode t) : s = t := by
  apply toList_inj_of_utf8
  rw [← urlBytes_urlEncode, h, urlBytes_urlEncode]

/-! ## Pieces -/

/-- A text is what its pieces are joined to. -/
theorem Text.joinWith_splitOnChar (sep : Char) (s : String) :
    joinWith (String.ofList [sep]) (splitOnChar sep s) = s := by
  have hid : String.toList ∘ String.ofList = id := funext fun _ => String.toList_ofList
  apply String.toList_inj.1
  rw [toList_joinWith, splitOnChar_eq, List.map_map, hid, List.map_id, String.toList_ofList,
    List.intercalate_splitOn]

/-! ## Names -/

namespace Gav

theorem groupId_eq_of_groupNames_eq {g h : Gav} (heq : g.groupNames = h.groupNames) :
    g.groupId = h.groupId := by
  rw [← Text.joinWith_splitOnChar '.' g.groupId, ← Text.joinWith_splitOnChar '.' h.groupId]
  exact congrArg _ heq

/-- The last three names are those of the artifact, of the version and of the POM, and all names
before them are those of the group. -/
theorem eq_of_urlNames_eq {g h : Gav} (heq : g.urlNames = h.urlNames) : g = h := by
  obtain ⟨hgroups, hrest⟩ := List.append_inj' heq rfl
  have hgroup : g.groupNames = h.groupNames :=
    List.map_inj_right (fun _ _ => urlEncode_inj) |>.1 hgroups
  have hartifact : urlEncode g.artifactId = urlEncode h.artifactId := (List.cons.inj hrest).1
  have hversion : urlEncode g.version = urlEncode h.version :=
    (List.cons.inj (List.cons.inj hrest).2).1
  cases g
  cases h
  simp only [mk.injEq]
  exact ⟨groupId_eq_of_groupNames_eq hgroup, urlEncode_inj hartifact, urlEncode_inj hversion⟩

end Gav

namespace RemoteRepository

variable {r : RemoteRepository} {g h : Gav}

theorem fault?_eq_none_of_pomUrl {url : String} (hg : r.pomUrl g = .ok url) :
    g.fault? = none := by
  cases hfault : g.fault? with
  | none => rfl
  | some reason =>
    rw [pomUrl, hfault] at hg
    cases hg

/-- The names in a URL are read off it. -/
theorem splitOnChar_pomUrl {url : String} (hg : r.pomUrl g = .ok url) :
    ∃ tail, url = r.base ++ "/" ++ tail ∧
      Text.splitOnChar FilePath.separator tail = g.urlNames := by
  have hfault := fault?_eq_none_of_pomUrl hg
  have hne : g.urlNames ≠ [] := by simp [Gav.urlNames]
  rw [pomUrl_eq, hfault] at hg
  cases hg
  exact ⟨_, rfl, Text.splitOnChar_joinWith hne fun n hn => (Gav.of_mem_urlNames hfault hn).2.1⟩

/-- The URL of a POM belongs to one triple. -/
theorem eq_of_pomUrl_eq {url : String} (hg : r.pomUrl g = .ok url) (hh : r.pomUrl h = .ok url) :
    g = h := by
  obtain ⟨tail, htail, hnames⟩ := splitOnChar_pomUrl hg
  obtain ⟨other, hother, hothers⟩ := splitOnChar_pomUrl hh
  have hsame : tail = other := by
    rw [htail] at hother
    exact String.append_right_inj _ |>.1 hother
  apply Gav.eq_of_urlNames_eq
  rw [← hnames, ← hothers, hsame]

/-- What is found for a triple is found at its URL. -/
theorem pomUrl_of_gives_locate {σ : Type} {net : Network (StateM σ)} {s t : σ}
    {source : PomSource} (hfound : Gives (r.locate net g) s (.ok source) t) :
    r.pomUrl g = .ok source.location := by
  rw [locate, gives_bind_iff] at hfound
  obtain ⟨fetched, u, hfetch, hfetched⟩ := hfound
  obtain ⟨hfetched, -⟩ := gives_pure_iff.1 hfetched
  unfold fetch at hfetch
  cases hurl : r.pomUrl g with
  | error reason =>
    simp only [hurl] at hfetch
    obtain ⟨rfl, -⟩ := gives_pure_iff.1 hfetch
    cases hfetched
  | ok url =>
    simp only [hurl] at hfetch
    obtain ⟨reply, v, -, hreply⟩ := gives_bind_iff.1 hfetch
    obtain ⟨rfl, -⟩ := gives_pure_iff.1 hreply
    cases reply with
    | error fault => cases hfetched
    | ok content =>
      cases hfetched
      rfl

/-- Triples without a fault have the same URL in a repository only if they are the same. So nothing
is found for two triples at one place, whatever networks are asked. -/
theorem pomUrl_tells_apart (r : RemoteRepository) (g h : Gav) :
    (g.fault? = none → h.fault? = none → r.pomUrl g = r.pomUrl h → g = h) ∧
    ∀ {σ τ : Type} {net : Network (StateM σ)} {other : Network (StateM τ)} {s s' : σ} {t t' : τ}
      {source found : PomSource},
      Gives (r.locate net g) s (.ok source) s' → Gives (r.locate other h) t (.ok found) t' →
        source.location = found.location → g = h := by
  constructor
  · intro hg hh hsame
    have hurl : r.pomUrl h = .ok (r.base ++ "/" ++ Text.joinWith "/" h.urlNames) := by
      rw [pomUrl_eq, hh]
    exact eq_of_pomUrl_eq (hsame.trans hurl) hurl
  · intro σ τ net other s s' t t' source found hsource hfound hsame
    have hg := pomUrl_of_gives_locate hsource
    rw [hsame] at hg
    exact eq_of_pomUrl_eq hg (pomUrl_of_gives_locate hfound)

/-- A network that has one text everywhere. -/
def everywhere : Network (StateM Unit) where
  request _ := return .answer { status := 200, body := "<project/>".toUTF8 }
  wait _ := return ()

/-- Two triples whose POMs have the same file name have different URLs, and what is found for them
is found in two places. -/
theorem pomUrl_tells_apart_dashes :
    (⟨"https://h"⟩ : RemoteRepository).pomUrl ⟨"a", "b", "c-d"⟩ ≠
        (⟨"https://h"⟩ : RemoteRepository).pomUrl ⟨"a", "b-c", "d"⟩ ∧
      ∃ source found,
        Gives ((⟨"https://h"⟩ : RemoteRepository).locate everywhere ⟨"a", "b", "c-d"⟩) ()
          (.ok source) () ∧
        Gives ((⟨"https://h"⟩ : RemoteRepository).locate everywhere ⟨"a", "b-c", "d"⟩) ()
          (.ok found) () ∧
        source.location ≠ found.location := by
  have hsource : Gives ((⟨"https://h"⟩ : RemoteRepository).locate everywhere ⟨"a", "b", "c-d"⟩) ()
      (.ok ⟨"https://h/a/b/c-d/b-c-d.pom", "<project/>"⟩) () := rfl
  have hfound : Gives ((⟨"https://h"⟩ : RemoteRepository).locate everywhere ⟨"a", "b-c", "d"⟩) ()
      (.ok ⟨"https://h/a/b-c/d/b-c-d.pom", "<project/>"⟩) () := rfl
  have hne : (⟨"a", "b", "c-d"⟩ : Gav) ≠ ⟨"a", "b-c", "d"⟩ := by decide
  obtain ⟨hurls, hplaces⟩ := pomUrl_tells_apart ⟨"https://h"⟩ ⟨"a", "b", "c-d"⟩ ⟨"a", "b-c", "d"⟩
  exact ⟨fun hsame => hne (hurls (by decide) (by decide) hsame), _, _, hsource, hfound,
    fun hsame => hne (hplaces hsource hfound hsame)⟩

end RemoteRepository

end ArtifactGraph
