import ArtifactGraph.Proofs.Runs
import ArtifactGraph.Settings
import Mathlib.Data.List.DropRight

/-!
# What a checked file is good for

A configuration file is checked when it is read, and its settings are taken up later: the policy
when the settings are merged, and the URLs when the locators are made.  What is accepted first
should not be refused then.

* URLs.  A locator is made of a URL without the separators at its end, so a URL that ends with its
  scheme loses a part of it.  `RemoteRepository.IsBare` are these URLs, and `exists_ofUrl_iff` says
  that of the URLs with a scheme no others are refused.
* Entries.  `Settings.ofEntries` reads the words of the entries a second time, when arguments are
  known; what was accepted once is accepted again, with the same settings
  (`Settings.ofEntries_of_check`).
* Both.  `Settings.exists_locators_iff_of_check`: without URLs on the command line, the locators of
  a checked file are made unless one of its URLs is bare.
-/

namespace ArtifactGraph

/-! ## URLs -/

/-- What is dropped at the end of two lists reaches into the first one only if nothing of the second
one is left. -/
theorem rdropWhile_append {α : Type} (p : α → Bool) (l l' : List α) :
    (l ++ l').rdropWhile p = if l'.all p then l.rdropWhile p else l ++ l'.rdropWhile p := by
  have hempty : (l'.reverse.dropWhile p).isEmpty = l'.all p := by
    rw [Bool.eq_iff_iff, List.isEmpty_iff, List.dropWhile_eq_nil_iff, List.all_eq_true]
    simp only [List.mem_reverse]
  rw [List.rdropWhile, List.reverse_append, List.dropWhile_append, hempty]
  split
  · rfl
  · rw [List.reverse_append, List.reverse_reverse]
    rfl

namespace RemoteRepository

/-- Whether there are only separators behind the scheme of a URL, if any. -/
def IsBare (url : String) : Prop :=
  ∃ scheme ∈ schemes, ∃ separators : List Char,
    url.toList = scheme.toList ++ separators ∧ ∀ c ∈ separators, c = '/'

theorem hasScheme_iff {url : String} :
    hasScheme url = true ↔ ∃ scheme ∈ schemes, scheme.toList <+: url.toList := by
  simp only [hasScheme, List.any_eq_true, List.isPrefixOf_iff_prefix]

/-- The text of a URL without the separators at its end. -/
def baseOf (url : String) : String := String.ofList (url.toList.rdropWhile (· == '/'))

theorem exists_ofUrl_iff_hasScheme {url : String} :
    (∃ r, ofUrl url = .ok r) ↔ hasScheme (baseOf url) = true := by
  change (∃ r, (if hasScheme (baseOf url) then _ else _) = Except.ok r) ↔ _
  split <;> simp_all

/-- Separators behind a scheme are cut off together with those of the scheme. -/
theorem toList_baseOf_of_bare {scheme url : String} {separators : List Char}
    (hurl : url.toList = scheme.toList ++ separators) (h : ∀ c ∈ separators, c = '/') :
    (baseOf url).toList = scheme.toList.rdropWhile (· == '/') := by
  have hall : separators.all (· == '/') = true := by simpa using h
  rw [baseOf, String.toList_ofList, hurl, rdropWhile_append, if_pos hall]

/-- Something else behind a scheme keeps the scheme as it is. -/
theorem prefix_toList_baseOf {scheme url : String} {rest : List Char}
    (hurl : url.toList = scheme.toList ++ rest) (h : ¬ ∀ c ∈ rest, c = '/') :
    scheme.toList <+: (baseOf url).toList := by
  have hall : ¬ rest.all (· == '/') = true := by simpa using h
  rw [baseOf, String.toList_ofList, hurl, rdropWhile_append, if_neg hall]
  exact List.prefix_append _ _

/-- Of the URLs with a scheme, a repository is made of those that are not bare. -/
theorem exists_ofUrl_iff {url : String} (h : hasScheme url = true) :
    (∃ r, ofUrl url = .ok r) ↔ ¬ IsBare url := by
  rw [exists_ofUrl_iff_hasScheme]
  constructor
  · rintro hbase ⟨scheme, hscheme, separators, hurl, hseparators⟩
    have hlost : ∀ scheme ∈ schemes,
        hasScheme (String.ofList (scheme.toList.rdropWhile (· == '/'))) = false := by
      decide +kernel
    rw [← String.ofList_toList (s := baseOf url), toList_baseOf_of_bare hurl hseparators,
      hlost scheme hscheme] at hbase
    cases hbase
  · intro hbare
    obtain ⟨scheme, hscheme, rest, hurl⟩ := hasScheme_iff.1 h
    have hrest : ¬ ∀ c ∈ rest, c = '/' := fun hseparators =>
      hbare ⟨scheme, hscheme, rest, hurl.symm, hseparators⟩
    exact hasScheme_iff.2 ⟨scheme, hscheme, prefix_toList_baseOf hurl.symm hrest⟩

end RemoteRepository

namespace Repository

theorem exists_remoteLocators_iff {urls : List String} :
    (∃ members, remoteLocators urls = .ok members) ↔
      ∀ url ∈ urls, ∃ r, RemoteRepository.ofUrl url = .ok r := by
  induction urls with
  | nil => simp [remoteLocators]
  | cons url rest ih =>
    rw [List.forall_mem_cons, ← ih, remoteLocators]
    cases RemoteRepository.ofUrl url with
    | error reason => simp
    | ok r => cases remoteLocators rest <;> simp [Except.map]

/-- Without a network locators are made whatever URLs there are. -/
theorem exists_locators_iff {s : RepositorySettings} {environment : Bindings} :
    (∃ members, locators s environment = .ok members) ↔
      s.offline = true ∨ ∀ url ∈ s.remoteUrls, ∃ r, RemoteRepository.ofUrl url = .ok r := by
  rw [← exists_remoteLocators_iff]
  unfold locators
  extract_lets first
  cases s.offline with
  | true => simp
  | false => cases remoteLocators s.remoteUrls <;> simp [Except.map]

end Repository

/-! ## Entries -/

namespace Configuration

/-- A word that is accepted means what it is parsed as. -/
theorem eq_bind_of_checkWord {α : Type} {parse? : String → Option α} {refusal : String → String}
    {word : Option String} {meaning : Option α} (h : checkWord parse? refusal word = .ok meaning) :
    meaning = word.bind parse? := by
  cases word with
  | none => exact (Except.ok.inj h).symm
  | some s =>
    rw [checkWord] at h
    rw [Option.bind_some]
    split at h
    · rename_i hs
      rw [hs]
      exact (Except.ok.inj h).symm
    · cases h

/-- The policy of entries that are accepted: that of their table, or else of their preset. -/
theorem policy_of_checkPolicy {e : Entries} {choice : Option PolicyChoice}
    (h : checkPolicy e = .ok choice) :
    (∃ rows policy, e.configurations = some rows ∧ ScopePolicy.ofRows rows = .ok policy ∧
        choice = some (.table policy)) ∨
      e.configurations = none ∧
        choice = (e.scopePolicy.bind PolicyPreset.parse?).map PolicyChoice.preset := by
  obtain ⟨preset, hpreset, h⟩ := bind_eq_ok_iff.1 h
  split at h
  · cases h
  · rename_i hone
    obtain ⟨table, htable, h⟩ := bind_eq_ok_iff.1 h
    cases h
    cases hrows : e.configurations with
    | none =>
      rw [hrows] at htable
      cases htable
      exact .inr ⟨rfl, by simp [eq_bind_of_checkWord hpreset]⟩
    | some rows =>
      obtain rfl : preset = none := by simpa [hrows] using hone
      rw [hrows, checkTable] at htable
      split at htable
      · rename_i policy hpolicy
        cases htable
        exact .inl ⟨rows, policy, rfl, hpolicy, rfl⟩
      · cases htable

/-- URLs are accepted if each of them has a scheme. -/
theorem badUrl?_eq_none_iff {position : Nat} {urls : List String} :
    badUrl? position urls = none ↔ ∀ url ∈ urls, RemoteRepository.hasScheme url = true := by
  induction urls generalizing position with
  | nil => simp [badUrl?]
  | cons url rest ih =>
    rw [badUrl?, List.forall_mem_cons, ← ih]
    split
    · rename_i h
      rw [and_iff_right h]
    · rename_i h
      simp [h]

/-- What a check finds out. -/
structure Entries.IsCheckedAs (e : Entries) (c : Configuration) : Prop where
  format : c.format = e.format.bind OutputFormat.parse?
  launchMode : c.launchMode = e.launchMode.bind LaunchMode.parse?
  policy : checkPolicy e = .ok c.policy
  urls : ∀ url ∈ e.remoteRepositories.getD [], RemoteRepository.hasScheme url = true
  kept : c.localRepository = e.localRepository ∧ c.remoteRepositories = e.remoteRepositories ∧
    c.offline = e.offline ∧ c.systemProperties = e.systemProperties

theorem isCheckedAs_of_check {e : Entries} {c : Configuration} (h : e.check = .ok c) :
    e.IsCheckedAs c := by
  obtain ⟨format, hformat, h⟩ := bind_eq_ok_iff.1 h
  obtain ⟨launchMode, hmode, h⟩ := bind_eq_ok_iff.1 h
  obtain ⟨policy, hpolicy, h⟩ := bind_eq_ok_iff.1 h
  split at h
  · cases h
  · rename_i hurls
    cases h
    exact
      { format := eq_bind_of_checkWord hformat
        launchMode := eq_bind_of_checkWord hmode
        policy := hpolicy
        urls := badUrl?_eq_none_iff.1 hurls
        kept := ⟨rfl, rfl, rfl, rfl⟩ }

end Configuration

namespace Settings

open ArtifactGraph.Configuration (Entries)

/-- The policy that entries stand for when they are read without a check. -/
def policyOf (e : Entries) : Except PolicyFault ScopePolicy :=
  match e.configurations with
  | some rows => ScopePolicy.ofRows rows
  | none => .ok (.ofPreset ((e.scopePolicy.bind PolicyPreset.parse?).getD default))

/-- The settings of arguments and entries whose words are read once more. -/
def ofEntries (a : Arguments) (e : Entries) : Except PolicyFault Settings := do
  let policy ← match a.scopePolicy with
    | some preset => .ok (ScopePolicy.ofPreset preset)
    | none => policyOf e
  return {
    format := (a.format.or (e.format.bind OutputFormat.parse?)).getD default
    launchMode := a.launchMode.or (e.launchMode.bind LaunchMode.parse?)
    policy
    repositories :=
      { localRoot := a.localRepository.or e.localRepository
        remoteUrls :=
          if a.repositories.isEmpty then
            e.remoteRepositories.getD [RemoteRepository.centralUrl]
          else a.repositories
        offline := a.offline || e.offline.getD false }
    systemProperties := e.systemProperties.getD [] }

variable {e : Entries} {c : Configuration}

theorem policyOf_of_isCheckedAs (h : e.IsCheckedAs c) :
    policyOf e = .ok ((c.policy.map PolicyChoice.policy).getD default) := by
  unfold policyOf
  rcases Configuration.policy_of_checkPolicy h.policy with
    ⟨rows, policy, hrows, hpolicy, hchoice⟩ | ⟨hrows, hchoice⟩
  · rw [hrows, hchoice]
    exact hpolicy
  · rw [hrows, hchoice]
    cases e.scopePolicy.bind PolicyPreset.parse? <;> rfl

/-- What is accepted once is accepted when it is read again, and the settings are the same. -/
theorem ofEntries_of_check (h : e.check = .ok c) (a : Arguments) :
    ofEntries a e = .ok (merge a c) := by
  have hchecked := Configuration.isCheckedAs_of_check h
  obtain ⟨hlocal, hremote, hoffline, hsystem⟩ := hchecked.kept
  unfold ofEntries merge
  rw [policyOf_of_isCheckedAs hchecked, hchecked.format, hchecked.launchMode, hlocal, hremote,
    hoffline, hsystem]
  cases a.scopePolicy <;> rfl

/-- The settings of a checked file are merged with any arguments.  If these name no URLs, the
locators are made exactly if there is no network or none of the URLs in the file ends with its
scheme. -/
theorem exists_locators_iff_of_check (h : e.check = .ok c) (a : Arguments)
    (hurls : a.repositories = []) (environment : Bindings) :
    ofEntries a e = .ok (merge a c) ∧
      ((∃ members, Repository.locators (merge a c).repositories environment = .ok members) ↔
        a.offline = true ∨ e.offline = some true ∨
          ∀ url ∈ e.remoteRepositories.getD [], ¬ RemoteRepository.IsBare url) := by
  refine ⟨ofEntries_of_check h a, ?_⟩
  have hchecked := Configuration.isCheckedAs_of_check h
  obtain ⟨_, hremote, hoffline, _⟩ := hchecked.kept
  have hnetwork : (merge a c).repositories.offline = true ↔
      a.offline = true ∨ e.offline = some true := by
    simp only [merge, hoffline, Bool.or_eq_true]
    cases e.offline <;> simp
  have hmade : (∀ url ∈ (merge a c).repositories.remoteUrls,
      ∃ r, RemoteRepository.ofUrl url = .ok r) ↔
        ∀ url ∈ e.remoteRepositories.getD [], ¬ RemoteRepository.IsBare url := by
    simp only [merge, hurls, List.isEmpty_nil, if_true, hremote]
    cases hfile : e.remoteRepositories with
    | none =>
      have hcentral : ∃ r, RemoteRepository.ofUrl RemoteRepository.centralUrl = .ok r :=
        ⟨⟨RemoteRepository.centralUrl⟩, by decide +kernel⟩
      simp [hcentral]
    | some urls =>
      refine forall₂_congr fun url hurl => RemoteRepository.exists_ofUrl_iff ?_
      exact hchecked.urls url (by simpa [hfile] using hurl)
  rw [Repository.exists_locators_iff, hnetwork, hmade, or_assoc]

/-- Two URLs that name a place, and words for the rest. -/
def mirroredEntries : Entries :=
  { format := some "MD"
    configurations := some [⟨"api", some .compile⟩]
    remoteRepositories := some ["https://repo.example.com//", "http://mirror.example.com"] }

theorem exists_locators_mirrored :
    ∃ c, mirroredEntries.check = .ok c ∧
      ofEntries { buildModel := "model.json" } mirroredEntries =
        .ok (merge { buildModel := "model.json" } c) ∧
      (∀ url ∈ mirroredEntries.remoteRepositories.getD [], ¬ RemoteRepository.IsBare url) ∧
      ∃ members, Repository.locators (merge { buildModel := "model.json" } c).repositories [] =
        .ok members := by
  have hbare : ∀ url ∈ mirroredEntries.remoteRepositories.getD [],
      ¬ RemoteRepository.IsBare url := by
    intro url hurl
    have hmade : ∀ url ∈ mirroredEntries.remoteRepositories.getD [],
        RemoteRepository.hasScheme url = true ∧
          RemoteRepository.hasScheme (RemoteRepository.baseOf url) = true := by
      decide +kernel
    obtain ⟨hscheme, hbase⟩ := hmade url hurl
    exact (RemoteRepository.exists_ofUrl_iff hscheme).1
      (RemoteRepository.exists_ofUrl_iff_hasScheme.2 hbase)
  have hchecked : mirroredEntries.check = .ok
      { format := some .markdown
        policy := some (.table ⟨[⟨"api", some .compile⟩]⟩)
        remoteRepositories :=
          some ["https://repo.example.com//", "http://mirror.example.com"] } := by
    decide +kernel
  obtain ⟨hmerged, hlocators⟩ :=
    exists_locators_iff_of_check hchecked { buildModel := "model.json" } rfl []
  exact ⟨_, hchecked, hmerged, hbare, hlocators.2 (.inr (.inr hbare))⟩

/-- A URL that is nothing but its scheme. -/
def bareEntries : Entries := { remoteRepositories := some ["https://"] }

/-- It is accepted with its file, and then no locator is made of it. -/
theorem checked_url_refused :
    bareEntries.check = .ok { remoteRepositories := some ["https://"] } ∧
      Repository.locators
          (merge { buildModel := "model.json" }
            { remoteRepositories := some ["https://"] }).repositories [] =
        .error "Repository URL must start with http:// or https://: https:" := by
  have hchecked : bareEntries.check = .ok { remoteRepositories := some ["https://"] } := by
    decide +kernel
  exact ⟨hchecked, rfl⟩

end Settings

end ArtifactGraph
