import ArtifactGraph.Proofs.Runs
import ArtifactGraph.Repository

/-!
# Requests to a chain of locators

A chain is asked again and again, and some of its members remember what they found.  The sources may
change their state while they are asked, but each answers a triple in one way.

* One locator.  What a source, a memory and a chain do in one request.
* Notes.  `recorded` sources note what they are asked, and `exists_gives_locate_recorded` says that
  this changes nothing else.
* One answer.  `firstAnswer` puts the answers of the members together.
* What is remembered.  `Holds` says what a member is like after some requests: it remembers what it
  has of those that came as far as it.  `Stand` is this for the members of a chain.
* Requests.  `gives_locate_of_holds` is all that a request does to a member,
  `gives_locateFirst_of_stand` all that it does to a chain, and `gives_locateEach_of_stand` what
  many requests do, with all that is noted.
* `gives_locateEach_of_locators` is this for the chain that a run makes of its repositories.
-/

namespace ArtifactGraph

variable {σ α : Type}

namespace Locator

/-! ## Requests -/

/-- What is answered to a request. -/
abbrev Answer := Except LocateFault PomSource

/-- Finds the POMs of several triples, one after the other. -/
def locateEach {m : Type → Type} [Monad m] (ask : α → Locate m) :
    List Gav → Locator α → m (List Answer × Locator α)
  | [], l => return ([], l)
  | gav :: rest, l => do
    let (answer, l') ← l.locate ask gav
    let (answers, l'') ← locateEach ask rest l'
    return (answer :: answers, l'')

/-- Asks a source, and notes that it was asked for this triple. -/
def recorded (ask : α → Locate (StateM σ)) : α → Locate (StateM (σ × List (α × Gav))) :=
  fun a gav => do
    let (s, asked) ← get
    let (answer, t) := (ask a gav).run s
    set (t, asked ++ [(a, gav)])
    return answer

/-- A source, with an empty memory before it if it is to be wrapped. -/
def wrap (wrapped : α → Bool) (a : α) : Locator α :=
  if wrapped a then .cached [] (.source a) else .source a

/-- The chain of some sources, of which some are wrapped. -/
def chainOf (wrapped : α → Bool) (sources : List α) : Locator α :=
  .chain (sources.map (wrap wrapped))

/-! ## One locator -/

/-- A memory after an answer to a request for something that is not in it. -/
def remember (gav : Gav) : Answer → List (Gav × PomSource) → List (Gav × PomSource)
  | .ok pom, found => (gav, pom) :: found
  | .error _, found => found

section

variable {ask : α → Locate (StateM σ)} {gav : Gav}

theorem gives_locate_source {a : α} {s t : σ} {answer : Answer}
    (h : Gives (ask a gav) s answer t) :
    Gives ((Locator.source a).locate ask gav) s (answer, .source a) t := by
  rw [locate, gives_bind_iff]
  exact ⟨_, _, h, gives_pure_iff.2 ⟨rfl, rfl⟩⟩

/-- What is remembered is answered at once. -/
theorem gives_locate_of_lookup {found : List (Gav × PomSource)} {pom : PomSource}
    (hfound : found.lookup gav = some pom) (inner : Locator α) (s : σ) :
    Gives ((Locator.cached found inner).locate ask gav) s (.ok pom, .cached found inner) s := by
  simp only [locate, hfound]
  exact gives_pure_iff.2 ⟨rfl, rfl⟩

/-- For anything else the locator behind the memory is asked. -/
theorem gives_locate_of_lookup_none {found : List (Gav × PomSource)}
    (hfound : found.lookup gav = none) {inner inner' : Locator α} {s t : σ} {answer : Answer}
    (h : Gives (inner.locate ask gav) s (answer, inner') t) :
    Gives ((Locator.cached found inner).locate ask gav) s
      (answer, .cached (remember gav answer found) inner') t := by
  simp only [locate, hfound, gives_bind_iff]
  refine ⟨_, _, h, ?_⟩
  cases answer with
  | ok pom => exact gives_pure_iff.2 ⟨rfl, rfl⟩
  | error e => exact gives_pure_iff.2 ⟨rfl, rfl⟩

theorem gives_locate_chain {members members' : List (Locator α)} {s t : σ} {answer : Answer}
    (h : Gives (locateFirst ask gav [] members) s (answer, members') t) :
    Gives ((Locator.chain members).locate ask gav) s (answer, .chain members') t := by
  rw [locate, gives_bind_iff]
  exact ⟨_, _, h, gives_pure_iff.2 ⟨rfl, rfl⟩⟩

end

/-! ## Notes -/

section

variable {ask : α → Locate (StateM σ)} {gav : Gav}

theorem gives_recorded {a : α} {s t : σ} {answer : Answer} (h : Gives (ask a gav) s answer t)
    (asked : List (α × Gav)) :
    Gives (recorded ask a gav) (s, asked) answer (t, asked ++ [(a, gav)]) := by
  have hrun : Gives (recorded ask a gav) (s, asked) ((ask a gav).run s).1
      (((ask a gav).run s).2, asked ++ [(a, gav)]) := rfl
  rw [h] at hrun
  exact hrun

mutual

/-- Noting what is asked changes nothing else. -/
theorem exists_gives_locate_recorded {l l' : Locator α} {s t : σ} {answer : Answer}
    (h : Gives (l.locate ask gav) s (answer, l') t) (asked : List (α × Gav)) :
    ∃ asked', Gives (l.locate (recorded ask) gav) (s, asked) (answer, l') (t, asked') := by
  cases l with
  | source a =>
    rw [locate, gives_bind_iff] at h
    obtain ⟨given, u, hask, hpure⟩ := h
    obtain ⟨heq, rfl⟩ := gives_pure_iff.1 hpure
    cases heq
    exact ⟨_, gives_locate_source (gives_recorded hask asked)⟩
  | cached found inner =>
    cases hlookup : found.lookup gav with
    | some pom =>
      simp only [locate, hlookup] at h
      obtain ⟨heq, rfl⟩ := gives_pure_iff.1 h
      cases heq
      exact ⟨asked, gives_locate_of_lookup hlookup inner _⟩
    | none =>
      simp only [locate, hlookup, gives_bind_iff] at h
      obtain ⟨⟨given, inner'⟩, u, hinner, hrest⟩ := h
      obtain ⟨asked', hinner'⟩ := exists_gives_locate_recorded hinner asked
      refine ⟨asked', ?_⟩
      cases given with
      | ok pom =>
        obtain ⟨heq, rfl⟩ := gives_pure_iff.1 hrest
        cases heq
        exact gives_locate_of_lookup_none hlookup hinner'
      | error e =>
        obtain ⟨heq, rfl⟩ := gives_pure_iff.1 hrest
        cases heq
        exact gives_locate_of_lookup_none hlookup hinner'
  | chain members =>
    simp only [locate, gives_bind_iff] at h
    obtain ⟨⟨given, members'⟩, u, hfirst, hpure⟩ := h
    obtain ⟨asked', hfirst'⟩ := exists_gives_locateFirst_recorded hfirst asked
    obtain ⟨heq, rfl⟩ := gives_pure_iff.1 hpure
    cases heq
    exact ⟨asked', gives_locate_chain hfirst'⟩

theorem exists_gives_locateFirst_recorded {members members' : List (Locator α)}
    {faults : List LocateFault} {s t : σ} {answer : Answer}
    (h : Gives (locateFirst ask gav faults members) s (answer, members') t)
    (asked : List (α × Gav)) :
    ∃ asked', Gives (locateFirst (recorded ask) gav faults members) (s, asked) (answer, members')
      (t, asked') := by
  cases members with
  | nil =>
    rw [locateFirst] at h ⊢
    obtain ⟨heq, rfl⟩ := gives_pure_iff.1 h
    exact ⟨asked, gives_pure_iff.2 ⟨heq, rfl⟩⟩
  | cons l rest =>
    simp only [locateFirst, gives_bind_iff] at h ⊢
    obtain ⟨⟨given, l'⟩, u, hlocate, hrest⟩ := h
    obtain ⟨asked', hlocate'⟩ := exists_gives_locate_recorded hlocate asked
    cases given with
    | ok pom =>
      obtain ⟨heq, rfl⟩ := gives_pure_iff.1 hrest
      exact ⟨asked', _, _, hlocate', gives_pure_iff.2 ⟨heq, rfl⟩⟩
    | error e =>
      simp only [gives_bind_iff] at hrest
      obtain ⟨⟨given', rest'⟩, v, hfirst, hpure⟩ := hrest
      obtain ⟨asked'', hfirst'⟩ := exists_gives_locateFirst_recorded hfirst asked'
      obtain ⟨heq, rfl⟩ := gives_pure_iff.1 hpure
      refine ⟨asked'', _, _, hlocate', ?_⟩
      simp only [gives_bind_iff]
      exact ⟨_, _, hfirst', gives_pure_iff.2 ⟨heq, rfl⟩⟩

end

theorem exists_gives_locateEach_recorded {requests : List Gav} {l l' : Locator α} {s t : σ}
    {given : List Answer} (h : Gives (locateEach ask requests l) s (given, l') t)
    (asked : List (α × Gav)) :
    ∃ asked', Gives (locateEach (recorded ask) requests l) (s, asked) (given, l') (t, asked') := by
  induction requests generalizing l l' given s t asked with
  | nil =>
    obtain ⟨heq, rfl⟩ := gives_pure_iff.1 h
    exact ⟨asked, gives_pure_iff.2 ⟨heq, rfl⟩⟩
  | cons gav rest ih =>
    simp only [locateEach, gives_bind_iff] at h ⊢
    obtain ⟨⟨answer, l₁⟩, u, hlocate, ⟨others, l₂⟩, v, hrest, hpure⟩ := h
    obtain ⟨asked', hlocate'⟩ := exists_gives_locate_recorded hlocate asked
    obtain ⟨asked'', hrest'⟩ := ih hrest asked'
    obtain ⟨heq, rfl⟩ := gives_pure_iff.1 hpure
    exact ⟨asked'', _, _, hlocate', _, _, hrest', gives_pure_iff.2 ⟨heq, rfl⟩⟩

end

/-! ## One answer -/

/-- The fault of an answer, if it is one. -/
def fault? : Answer → Option LocateFault
  | .ok _ => none
  | .error e => some e

/-- The first POM among some answers to a request, or else all the faults in their order. -/
def firstAnswer (gav : Gav) (given : List Answer) : Answer :=
  match given.findSome? Except.toOption with
  | some pom => .ok pom
  | none =>
    .error (if given.isEmpty then .noSource gav else .nowhere gav (given.filterMap fault?))

theorem firstAnswer_faults (gav : Gav) (faults : List LocateFault) :
    firstAnswer gav (faults.map .error) =
      .error (if faults.isEmpty then .noSource gav else .nowhere gav faults) := by
  have hnone : (faults.map Except.error : List Answer).findSome? Except.toOption = none := by
    simp [Except.toOption]
  have hfaults : (faults.map Except.error : List Answer).filterMap fault? = faults := by
    rw [List.filterMap_map]
    exact List.filterMap_some
  rw [firstAnswer, hnone, hfaults, List.isEmpty_map]

theorem firstAnswer_ok (gav : Gav) (faults : List LocateFault) (pom : PomSource)
    (others : List Answer) :
    firstAnswer gav (faults.map .error ++ .ok pom :: others) = .ok pom := by
  have hnone : (faults.map Except.error : List Answer).findSome? Except.toOption = none := by
    simp [Except.toOption]
  rw [firstAnswer, List.findSome?_append, hnone]
  rfl

/-- Where there is a POM, what stands behind does not count. -/
theorem firstAnswer_append {given : List Answer} {pom : PomSource} (h : .ok pom ∈ given)
    (gav : Gav) (others : List Answer) :
    ∃ first, firstAnswer gav given = .ok first ∧ firstAnswer gav (given ++ others) = .ok first := by
  cases hfirst : given.findSome? Except.toOption with
  | none => exact absurd (List.findSome?_eq_none_iff.1 hfirst _ h) (by simp [Except.toOption])
  | some first =>
    refine ⟨first, by rw [firstAnswer, hfirst], ?_⟩
    rw [firstAnswer, List.findSome?_append, hfirst]
    rfl

/-! ## What is remembered -/

section

variable (answers : α → Gav → Answer) (wrapped : α → Bool)

/-- Whether none of some sources has a triple. -/
def AllFail (before : List α) (gav : Gav) : Prop := ∀ a ∈ before, (answers a gav).isOk = false

/-- Whether a memory has what a source has of the past requests that came as far as it, when the
sources in `before` are asked first. -/
def Remembers (past : List Gav) (before : List α) (a : α) (found : List (Gav × PomSource)) : Prop :=
  ∀ gav pom, found.lookup gav = some pom ↔
    gav ∈ past ∧ AllFail answers before gav ∧ answers a gav = .ok pom

/-- Whether a locator is what becomes of a source of a chain, and of the memory before it. -/
inductive Holds (past : List Gav) (before : List α) (a : α) : Locator α → Prop
  | plain (hwrapped : wrapped a = false) : Holds past before a (.source a)
  | cached {found : List (Gav × PomSource)} (hwrapped : wrapped a = true)
      (hfound : Remembers answers past before a found) :
      Holds past before a (.cached found (.source a))

/-- Whether the members of a chain are what becomes of its sources. -/
inductive Stand (past : List Gav) : List α → List α → List (Locator α) → Prop
  | nil {before : List α} : Stand past before [] []
  | cons {before sources : List α} {a : α} {l : Locator α} {members : List (Locator α)}
      (hhead : Holds answers wrapped past before a l)
      (htail : Stand past (before ++ [a]) sources members) :
      Stand past before (a :: sources) (l :: members)

/-- Whether a source need not be asked any more, if a request comes as far as it. -/
def isRemembered (past : List Gav) (gav : Gav) (a : α) : Bool :=
  wrapped a && (answers a gav).isOk && past.contains gav

/-- The sources as far as the first that has a triple. -/
def consulted (gav : Gav) : List α → List α
  | [] => []
  | a :: rest => a :: if (answers a gav).isOk then [] else consulted gav rest

/-- Those of them that a request asks. -/
def questions (past : List Gav) (gav : Gav) (sources : List α) : List α :=
  (consulted answers gav sources).filter (!isRemembered answers wrapped past gav ·)

/-- What is noted in some requests. -/
def notes (sources : List α) (past : List Gav) : List Gav → List (α × Gav)
  | [] => []
  | gav :: rest =>
    (questions answers wrapped past gav sources).map (·, gav) ++ notes sources (past ++ [gav]) rest

end

section

variable {answers : α → Gav → Answer} {wrapped : α → Bool} {past : List Gav} {before : List α}
  {gav : Gav}

theorem allFail_nil (gav : Gav) : AllFail answers [] gav := by simp [AllFail]

theorem isOk_iff {answer : Answer} : answer.isOk = true ↔ ∃ pom, answer = .ok pom := by
  cases answer with
  | ok pom => simp [Except.isOk, Except.toBool]
  | error e => simp [Except.isOk, Except.toBool]

theorem isRemembered_iff {a : α} :
    isRemembered answers wrapped past gav a = true ↔
      wrapped a = true ∧ (∃ pom, answers a gav = .ok pom) ∧ gav ∈ past := by
  rw [isRemembered, Bool.and_eq_true, Bool.and_eq_true, isOk_iff, List.contains_iff_mem, and_assoc]

theorem map_questions_cons (a : α) (rest : List α) :
    (questions answers wrapped past gav (a :: rest)).map (·, gav) =
      (if isRemembered answers wrapped past gav a then [] else [(a, gav)]) ++
        if (answers a gav).isOk then []
        else (questions answers wrapped past gav rest).map (·, gav) := by
  rw [questions, consulted, List.filter_cons]
  cases isRemembered answers wrapped past gav a <;> cases (answers a gav).isOk <;> rfl

theorem holds_wrap (wrapped : α → Bool) (before : List α) (a : α) :
    Holds answers wrapped [] before a (wrap wrapped a) := by
  rw [wrap]
  cases hwrapped : wrapped a with
  | true => exact .cached hwrapped (by simp [Remembers])
  | false => exact .plain hwrapped

theorem stand_wrap (wrapped : α → Bool) (before sources : List α) :
    Stand answers wrapped [] before sources (sources.map (wrap wrapped)) := by
  induction sources generalizing before with
  | nil => exact .nil
  | cons a rest ih => exact .cons (holds_wrap wrapped before a) (ih _)

/-- Nothing has to be added for a request that does not come as far as the source, for one that it
fails, and for one that came before. -/
theorem Remembers.same {a : α} {found : List (Gav × PomSource)}
    (h : Remembers answers past before a found)
    (hsame : ∀ pom, AllFail answers before gav → answers a gav = .ok pom → gav ∈ past) :
    Remembers answers (past ++ [gav]) before a found := by
  intro other pom
  rw [h, List.mem_append, List.mem_singleton]
  constructor
  · intro hknown
    exact ⟨Or.inl hknown.1, hknown.2⟩
  · intro hknown
    obtain ⟨hmem | rfl, hfail, hpom⟩ := hknown
    · exact ⟨hmem, hfail, hpom⟩
    · exact ⟨hsame pom hfail hpom, hfail, hpom⟩

/-- For a request that does the answer is added, if it is a POM. -/
theorem Remembers.remember {a : α} {found : List (Gav × PomSource)}
    (h : Remembers answers past before a found) (hbefore : AllFail answers before gav) :
    Remembers answers (past ++ [gav]) before a (remember gav (answers a gav) found) := by
  cases hanswer : answers a gav with
  | ok pom =>
    intro other pom'
    rw [Locator.remember, List.lookup_cons, List.mem_append, List.mem_singleton]
    by_cases hother : other = gav
    · subst hother
      simp [hbefore, hanswer]
    · rw [beq_eq_false_iff_ne.2 hother]
      simp [h other pom', hother]
  | error e =>
    refine h.same ?_
    intro pom _ hpom
    rw [hanswer] at hpom
    cases hpom

theorem Holds.idle {a : α} {l : Locator α} (h : Holds answers wrapped past before a l)
    (hbefore : ¬ AllFail answers before gav) :
    Holds answers wrapped (past ++ [gav]) before a l := by
  cases h with
  | plain hwrapped => exact .plain hwrapped
  | cached hwrapped hfound =>
    exact .cached hwrapped (hfound.same fun _ hfail => absurd hfail hbefore)

/-- A request that does not come as far as some members leaves them what they are. -/
theorem Stand.idle {sources : List α} {members : List (Locator α)}
    (h : Stand answers wrapped past before sources members)
    (hbefore : ¬ AllFail answers before gav) :
    Stand answers wrapped (past ++ [gav]) before sources members := by
  induction h with
  | nil => exact .nil
  | cons hhead _ ih =>
    refine .cons (hhead.idle hbefore) (ih ?_)
    intro hfail
    exact hbefore fun b hb => hfail b (List.mem_append_left _ hb)

theorem Stand.take {sources : List α} {members : List (Locator α)}
    (h : Stand answers wrapped past before sources members) (n : Nat) :
    Stand answers wrapped past before (sources.take n) (members.take n) := by
  induction h generalizing n with
  | nil => simpa using Stand.nil
  | cons hhead _ ih =>
    cases n with
    | zero => exact .nil
    | succ n => exact .cons hhead (ih n)

end

/-! ## What requests do -/

section

variable {ask : α → Locate (StateM σ)} {answers : α → Gav → Answer} {wrapped : α → Bool}
  {past : List Gav} {before : List α} {gav : Gav}

section

variable (hanswers : ∀ a gav s, ∃ t, Gives (ask a gav) s (answers a gav) t)
include hanswers

/-- A member answers what its source does, and asks it only if it has to. -/
theorem gives_locate_of_holds {a : α} {l : Locator α} (h : Holds answers wrapped past before a l)
    (hbefore : AllFail answers before gav) (s : σ) (asked : List (α × Gav)) :
    ∃ l' t, Gives (l.locate (recorded ask) gav) (s, asked) (answers a gav, l')
        (t, asked ++ if isRemembered answers wrapped past gav a then [] else [(a, gav)]) ∧
      Holds answers wrapped (past ++ [gav]) before a l' := by
  obtain ⟨t, hask⟩ := hanswers a gav s
  have hsource := gives_locate_source (gives_recorded hask asked)
  cases h with
  | plain hwrapped =>
    have hasks : isRemembered answers wrapped past gav a = false := by
      rw [isRemembered, hwrapped]
      rfl
    rw [hasks]
    exact ⟨_, t, hsource, .plain hwrapped⟩
  | @cached found hwrapped hfound =>
    cases hlookup : found.lookup gav with
    | some pom =>
      obtain ⟨hmem, -, hpom⟩ := (hfound gav pom).1 hlookup
      have hasks : isRemembered answers wrapped past gav a = true :=
        isRemembered_iff.2 ⟨hwrapped, ⟨pom, hpom⟩, hmem⟩
      rw [hasks, hpom, if_pos rfl, List.append_nil]
      exact ⟨_, s, gives_locate_of_lookup hlookup _ _,
        .cached hwrapped (hfound.same fun _ _ _ => hmem)⟩
    | none =>
      have hasks : isRemembered answers wrapped past gav a = false := by
        rw [← Bool.not_eq_true, isRemembered_iff]
        intro hknown
        obtain ⟨-, ⟨pom, hpom⟩, hmem⟩ := hknown
        rw [(hfound gav pom).2 ⟨hmem, hbefore, hpom⟩] at hlookup
        cases hlookup
      rw [hasks]
      exact ⟨_, t, gives_locate_of_lookup_none hlookup hsource,
        .cached hwrapped (hfound.remember hbefore)⟩

/-- A request to the members of a chain is answered by the first of their sources that has the
triple. -/
theorem gives_locateFirst_of_stand {sources : List α} {members : List (Locator α)}
    (h : Stand answers wrapped past before sources members) (hbefore : AllFail answers before gav)
    (faults : List LocateFault) (s : σ) (asked : List (α × Gav)) :
    ∃ members' t, Gives (locateFirst (recorded ask) gav faults members) (s, asked)
        (firstAnswer gav (faults.map .error ++ sources.map (answers · gav)), members')
        (t, asked ++ (questions answers wrapped past gav sources).map (·, gav)) ∧
      Stand answers wrapped (past ++ [gav]) before sources members' := by
  induction h generalizing faults s asked with
  | nil =>
    refine ⟨[], s, ?_, .nil⟩
    rw [locateFirst, List.map_nil, List.append_nil, firstAnswer_faults]
    exact gives_pure_iff.2 ⟨rfl, by simp [questions, consulted]⟩
  | @cons before sources a l members hhead htail ih =>
    obtain ⟨l', t, hlocate, hhead'⟩ := gives_locate_of_holds hanswers hhead hbefore s asked
    cases hanswer : answers a gav with
    | ok pom =>
      -- The others are not asked, and so they stay as they are.
      have hfail : ¬ AllFail answers (before ++ [a]) gav := by
        intro hfail
        have ha := hfail a (by simp)
        rw [hanswer] at ha
        cases ha
      refine ⟨l' :: members, t, ?_, .cons hhead' (htail.idle hfail)⟩
      rw [hanswer] at hlocate
      rw [locateFirst, gives_bind_iff]
      refine ⟨_, _, hlocate, ?_⟩
      rw [List.map_cons, hanswer, firstAnswer_ok]
      refine gives_pure_iff.2 ⟨rfl, ?_⟩
      rw [map_questions_cons, hanswer]
      simp [Except.isOk, Except.toBool]
    | error e =>
      have hfail : AllFail answers (before ++ [a]) gav := by
        intro b hb
        rcases List.mem_append.1 hb with hb | hb
        · exact hbefore b hb
        · cases List.mem_singleton.1 hb
          rw [hanswer]
          rfl
      obtain ⟨members', u, hrest, htail'⟩ := ih hfail (faults ++ [e]) t
        (asked ++ if isRemembered answers wrapped past gav a then [] else [(a, gav)])
      refine ⟨l' :: members', u, ?_, .cons hhead' htail'⟩
      rw [hanswer] at hlocate
      rw [locateFirst, gives_bind_iff]
      refine ⟨_, _, hlocate, ?_⟩
      simp only [gives_bind_iff]
      refine ⟨_, _, hrest, gives_pure_iff.2 ⟨?_, ?_⟩⟩
      · simp [hanswer]
      · rw [map_questions_cons, hanswer]
        simp [Except.isOk, Except.toBool]

/-- Requests to a chain, one after the other. -/
theorem gives_locateEach_of_stand {sources : List α} {members : List (Locator α)}
    (h : Stand answers wrapped past [] sources members) (requests : List Gav) (s : σ)
    (asked : List (α × Gav)) :
    ∃ members' t, Gives (locateEach (recorded ask) requests (.chain members)) (s, asked)
        (requests.map fun gav => firstAnswer gav (sources.map (answers · gav)), .chain members')
        (t, asked ++ notes answers wrapped sources past requests) ∧
      Stand answers wrapped (past ++ requests) [] sources members' := by
  induction requests generalizing past members s asked with
  | nil =>
    refine ⟨members, s, gives_pure_iff.2 ⟨rfl, by simp [notes]⟩, ?_⟩
    rw [List.append_nil]
    exact h
  | cons gav rest ih =>
    obtain ⟨members', t, hfirst, hstand⟩ :=
      gives_locateFirst_of_stand hanswers h (allFail_nil gav) [] s asked
    obtain ⟨members'', u, hrest, hstand'⟩ := ih hstand t
      (asked ++ (questions answers wrapped past gav sources).map (·, gav))
    refine ⟨members'', u, ?_, by simpa using hstand'⟩
    simp only [locateEach, gives_bind_iff]
    refine ⟨_, _, gives_locate_chain hfirst, _, _, hrest, ?_⟩
    exact gives_pure_iff.2 ⟨rfl, by rw [notes, List.append_assoc]⟩

end

/-- What stands behind a member with an answer is neither asked nor changed. -/
theorem gives_locateFirst_append {members members' : List (Locator α)} {faults : List LocateFault}
    {s t : σ} {pom : PomSource}
    (h : Gives (locateFirst ask gav faults members) s (.ok pom, members') t)
    (others : List (Locator α)) :
    Gives (locateFirst ask gav faults (members ++ others)) s (.ok pom, members' ++ others) t := by
  induction members generalizing members' faults s with
  | nil =>
    rw [locateFirst, gives_pure_iff] at h
    cases h.1
  | cons l rest ih =>
    rw [locateFirst, gives_bind_iff] at h
    obtain ⟨⟨answer, l'⟩, u, hlocate, hrest⟩ := h
    rw [List.cons_append, locateFirst, gives_bind_iff]
    refine ⟨_, _, hlocate, ?_⟩
    cases answer with
    | ok found =>
      obtain ⟨heq, rfl⟩ := gives_pure_iff.1 hrest
      cases heq
      exact gives_pure_iff.2 ⟨rfl, rfl⟩
    | error e =>
      simp only [gives_bind_iff] at hrest ⊢
      obtain ⟨⟨answer', rest'⟩, v, hfirst, hpure⟩ := hrest
      obtain ⟨heq, rfl⟩ := gives_pure_iff.1 hpure
      cases heq
      exact ⟨_, _, ih hfirst, gives_pure_iff.2 ⟨rfl, rfl⟩⟩

end

end Locator

/-! ## The chain of a run -/

namespace Repository

open Locator (firstAnswer locateEach recorded wrap)

def isRemote : Repository → Bool
  | .local _ => false
  | .remote _ => true

theorem exists_sources_of_remoteLocators {urls : List String} {members : List (Locator Repository)}
    (h : remoteLocators urls = .ok members) :
    ∃ sources : List Repository, members = sources.map (wrap isRemote) := by
  induction urls generalizing members with
  | nil =>
    cases h
    exact ⟨[], rfl⟩
  | cons url rest ih =>
    rw [remoteLocators] at h
    cases hurl : RemoteRepository.ofUrl url with
    | error reason =>
      rw [hurl] at h
      cases h
    | ok r =>
      rw [hurl] at h
      cases hrest : remoteLocators rest with
      | error reason =>
        rw [hrest] at h
        cases h
      | ok others =>
        obtain ⟨sources, hsources⟩ := ih hrest
        rw [hrest, hsources] at h
        cases h
        exact ⟨.remote r :: sources, rfl⟩

/-- The chain of a run is made of sources, of which the remote ones are wrapped. -/
theorem exists_sources_of_locators {settings : RepositorySettings} {environment : Bindings}
    {members : List (Locator Repository)} (h : locators settings environment = .ok members) :
    ∃ sources : List Repository, members = sources.map (wrap isRemote) := by
  unfold locators at h
  extract_lets first at h
  obtain ⟨own, hown⟩ : ∃ own : List Repository, first = own.map (wrap isRemote) := by
    simp only [first]
    split
    · exact ⟨[], rfl⟩
    · exact ⟨[.local ⟨_⟩], rfl⟩
  rw [hown] at h
  split at h
  · cases h
    exact ⟨own, rfl⟩
  · cases hremote : remoteLocators settings.remoteUrls with
    | error reason =>
      rw [hremote] at h
      cases h
    | ok others =>
      obtain ⟨sources, hsources⟩ := exists_sources_of_remoteLocators hremote
      rw [hremote, hsources] at h
      cases h
      exact ⟨own ++ sources, by rw [List.map_append]⟩

/-- And so the requests of a run are answered by the first repository that has the triple, or else
with what is wrong with each of them. -/
theorem gives_locateEach_of_locators {settings : RepositorySettings} {environment : Bindings}
    {members : List (Locator Repository)} (h : locators settings environment = .ok members)
    {ask : Repository → Locate (StateM σ)} {answers : Repository → Gav → Locator.Answer}
    (hanswers : ∀ r gav s, ∃ t, Gives (ask r gav) s (answers r gav) t) :
    ∃ sources : List Repository, ∀ requests s, ∃ members' t asked,
      Gives (locateEach (recorded ask) requests (.chain members)) (s, [])
        (requests.map fun gav => firstAnswer gav (sources.map (answers · gav)), .chain members')
        (t, asked) := by
  obtain ⟨sources, rfl⟩ := exists_sources_of_locators h
  refine ⟨sources, fun requests s => ?_⟩
  obtain ⟨members', t, hgives, -⟩ := Locator.gives_locateEach_of_stand hanswers
    (Locator.stand_wrap isRemote [] sources) requests s []
  exact ⟨members', t, _, hgives⟩

end Repository

end ArtifactGraph
