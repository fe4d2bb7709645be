import ArtifactGraph.Proofs.Requests
import ArtifactGraph.Proofs.Shelves
import Mathlib.Data.List.Count
import Mathlib.Data.List.FinRange

/-!
# Chains with and without memories

A chain some sources of which are wrapped is compared with the chain of the bare ones.  The sources
are numbered in the order in which they are asked.

* What is noted.  `mem_questions` says which sources a request asks, and the counts of `notes` how
  often many requests ask one of them: every time, until the triple was requested, or never.
* Many requests.  `requests_transparent`: the chain answers as it would without memories, its
  sources are asked no more than they have to be, and nothing that stands behind a source with an
  answer takes part in a request.
-/

namespace ArtifactGraph.Locator

variable {σ : Type}

/-! ## What is noted -/

section

variable {n : Nat} {answers : Fin n → Gav → Answer} {wrapped : Fin n → Bool} {past : List Gav}
  {gav : Gav} {i : Fin n}

/-- A source is consulted when all before it fail. -/
theorem mem_consulted {sources : List (Fin n)} (h : sources.Pairwise (· < ·)) :
    i ∈ consulted answers gav sources ↔
      i ∈ sources ∧ ∀ j ∈ sources, j < i → (answers j gav).isOk = false := by
  induction sources with
  | nil => simp [consulted]
  | cons k rest ih =>
    obtain ⟨hfirst, hrest⟩ := List.pairwise_cons.1 h
    rw [consulted, List.mem_cons, List.mem_cons, List.forall_mem_cons]
    by_cases hi : i = k
    · subst hi
      have hlater : ∀ j ∈ rest, j < i → (answers j gav).isOk = false :=
        fun j hj hlt => absurd hlt (lt_asymm (hfirst j hj))
      exact iff_of_true (Or.inl rfl) ⟨Or.inl rfl, fun hlt => absurd hlt (lt_irrefl i), hlater⟩
    · cases hanswer : (answers k gav).isOk with
      | true =>
        refine iff_of_false (by simp [hi]) ?_
        intro hbehind
        obtain ⟨hmem, hk, -⟩ := hbehind
        exact Bool.noConfusion (hk (hfirst i (hmem.resolve_left hi)))
      | false => simp [hi, ih hrest]

theorem consulted_sublist (sources : List (Fin n)) :
    (consulted answers gav sources).Sublist sources := by
  induction sources with
  | nil => exact .slnil
  | cons k rest ih =>
    rw [consulted]
    split
    · exact (List.nil_sublist rest).cons_cons k
    · exact ih.cons_cons k

theorem mem_questions :
    i ∈ questions answers wrapped past gav (List.finRange n) ↔
      (∀ j < i, (answers j gav).isOk = false) ∧
        isRemembered answers wrapped past gav i = false := by
  rw [questions, List.mem_filter, mem_consulted (List.pairwise_lt_finRange n)]
  simp

/-- In each request with a triple a source is asked for it once or not at all. -/
theorem count_notes_cons (g : Gav) (rest : List Gav) :
    (notes answers wrapped (List.finRange n) past (g :: rest)).count (i, gav) =
      (if g = gav ∧ i ∈ questions answers wrapped past gav (List.finRange n) then 1 else 0) +
        (notes answers wrapped (List.finRange n) (past ++ [g]) rest).count (i, gav) := by
  have hnodup : (questions answers wrapped past gav (List.finRange n)).Nodup :=
    ((List.nodup_finRange n).sublist (consulted_sublist _)).filter _
  rw [notes, List.count_append]
  congr 1
  by_cases hg : g = gav
  · subst hg
    rw [List.count_map_of_injective _ _ (fun a b hab => (Prod.mk.inj hab).1), hnodup.count]
    simp
  · rw [if_neg (fun hboth => hg hboth.1), List.count_eq_zero]
    intro hmem
    obtain ⟨a, -, heq⟩ := List.mem_map.1 hmem
    exact hg (Prod.mk.inj heq).2

/-- A source that is not asked in one request after the other is not asked at all. -/
theorem count_notes_of_not_mem {requests : List Gav}
    (h : ∀ later, i ∉ questions answers wrapped (past ++ later) gav (List.finRange n)) :
    (notes answers wrapped (List.finRange n) past requests).count (i, gav) = 0 := by
  induction requests generalizing past with
  | nil => rfl
  | cons g rest ih =>
    have hnow := h []
    rw [List.append_nil] at hnow
    rw [count_notes_cons, if_neg (fun hboth => hnow hboth.2), ih, Nat.add_zero]
    intro later
    rw [List.append_assoc]
    exact h ([g] ++ later)

/-- A source that is asked in each request is asked as often as there are requests. -/
theorem count_notes_of_mem {requests : List Gav}
    (h : ∀ later, i ∈ questions answers wrapped (past ++ later) gav (List.finRange n)) :
    (notes answers wrapped (List.finRange n) past requests).count (i, gav) =
      requests.count gav := by
  induction requests generalizing past with
  | nil => rfl
  | cons g rest ih =>
    have hnow := h []
    rw [List.append_nil] at hnow
    rw [count_notes_cons, ih, List.count_cons, Nat.add_comm]
    · simp [hnow]
    · intro later
      rw [List.append_assoc]
      exact h ([g] ++ later)

/-- A source that is asked until a triple has been requested is asked once, if that comes to be. -/
theorem count_notes_of_mem_iff {requests : List Gav} (hnew : gav ∉ past)
    (h : ∀ before, i ∈ questions answers wrapped before gav (List.finRange n) ↔ gav ∉ before) :
    (notes answers wrapped (List.finRange n) past requests).count (i, gav) =
      min 1 (requests.count gav) := by
  induction requests generalizing past with
  | nil => rfl
  | cons g rest ih =>
    rw [count_notes_cons, List.count_cons]
    by_cases hg : g = gav
    · subst hg
      rw [if_pos ⟨rfl, (h past).2 hnew⟩, count_notes_of_not_mem (by simp [h])]
      simp
    · rw [if_neg (fun hboth => hg hboth.1), ih (by simp [hnew, Ne.symm hg])]
      simp [hg]

end

/-! ## Many requests -/

/-- What is noted when a chain is asked for some triples, one after the other. -/
structure Economical {n : Nat} (answers : Fin n → Gav → Answer) (wrapped : Fin n → Bool)
    (requests : List Gav) (asked : List (Fin n × Gav)) : Prop where
  /-- Behind a source with the triple nobody is asked. -/
  behind : ∀ i j gav, j < i → (answers j gav).isOk = true → asked.count (i, gav) = 0
  /-- A wrapped source is asked once for what it has. -/
  once : ∀ i gav, (∀ j < i, (answers j gav).isOk = false) → wrapped i = true →
    (answers i gav).isOk = true → asked.count (i, gav) = min 1 (requests.count gav)
  /-- A wrapped source is asked every time for what it lacks, and another one for everything. -/
  always : ∀ i gav, (∀ j < i, (answers j gav).isOk = false) →
    (wrapped i = false ∨ (answers i gav).isOk = false) →
      asked.count (i, gav) = requests.count gav

theorem economical_notes {n : Nat} (answers : Fin n → Gav → Answer) (wrapped : Fin n → Bool)
    (requests : List Gav) :
    Economical answers wrapped requests
      (notes answers wrapped (List.finRange n) [] requests) := by
  constructor
  · intro i j gav hlt hanswer
    refine count_notes_of_not_mem ?_
    intro later hmem
    have hfail := (mem_questions.1 hmem).1 j hlt
    rw [hanswer] at hfail
    cases hfail
  · intro i gav hfail hwrapped hanswer
    refine count_notes_of_mem_iff (by simp) ?_
    intro before
    rw [mem_questions, and_iff_right hfail, isRemembered, hwrapped, hanswer]
    simp
  · intro i gav hfail hother
    refine count_notes_of_mem ?_
    intro later
    rw [mem_questions, and_iff_right hfail, isRemembered]
    rcases hother with hwrapped | hanswer
    · rw [hwrapped]
      rfl
    · rw [hanswer, Bool.and_false]
      rfl

/-- What a chain of sources answers. -/
def verdict {n : Nat} (answers : Fin n → Gav → Answer) (gav : Gav) : Answer :=
  firstAnswer gav ((List.finRange n).map (answers · gav))

/-- The answer is there as soon as a source with the triple is among those that were asked. -/
theorem exists_firstAnswer_take {n : Nat} {answers : Fin n → Gav → Answer} {gav : Gav} {i : Fin n}
    (h : (answers i gav).isOk = true) :
    ∃ pom, firstAnswer gav (((List.finRange n).take (i + 1)).map (answers · gav)) = .ok pom ∧
      verdict answers gav = .ok pom := by
  obtain ⟨pom, hpom⟩ := isOk_iff.1 h
  have hmem : i ∈ (List.finRange n).take (i + 1) := by
    rw [List.mem_take_iff_getElem]
    exact ⟨i, by simp, by simp⟩
  have hgiven := List.mem_map_of_mem (f := (answers · gav)) hmem
  rw [hpom] at hgiven
  have hboth := firstAnswer_append hgiven gav (((List.finRange n).drop (i + 1)).map (answers · gav))
  rw [← List.map_append, List.take_append_drop] at hboth
  exact hboth

/-- Whichever sources of a chain are wrapped, requests to it are answered in the same way: by the
first source that has the triple, or else with all the faults. No source is asked more than it has
to be. And after the requests, where a source has the triple of the next one, this takes its course
whatever stands behind the source, and leaves that as it is. -/
theorem requests_transparent {n : Nat} {ask : Fin n → Locate (StateM σ)}
    {answers : Fin n → Gav → Answer}
    (hanswers : ∀ i gav s, ∃ t, Gives (ask i gav) s (answers i gav) t) (requests : List Gav) :
    (∀ wrapped s, ∃ rest t, Gives (locateEach ask requests (chainOf wrapped (List.finRange n))) s
      (requests.map (verdict answers), rest) t) ∧
    ∀ wrapped s, ∃ members t asked,
      Gives (locateEach (recorded ask) requests (chainOf wrapped (List.finRange n))) (s, [])
        (requests.map (verdict answers), .chain members) (t, asked) ∧
      Economical answers wrapped requests asked ∧
      ∀ gav i, (answers i gav).isOk = true → ∃ first u, ∀ others,
        Gives ((Locator.chain (members.take (i + 1) ++ others)).locate (recorded ask) gav)
          (t, asked) (verdict answers gav, .chain (first ++ others)) u := by
  have hrun (wrapped : Fin n → Bool) (s : σ) :=
    gives_locateEach_of_stand hanswers (stand_wrap wrapped [] (List.finRange n)) requests s []
  constructor
  · intro wrapped s
    obtain ⟨members, t, hgives, -⟩ := hrun wrapped s
    obtain ⟨⟨given, rest⟩, u, hplain⟩ : ∃ given u,
        Gives (locateEach ask requests (chainOf wrapped (List.finRange n))) s given u :=
      ⟨_, _, rfl⟩
    obtain ⟨asked, hnoted⟩ := exists_gives_locateEach_recorded hplain []
    cases (hnoted.unique hgives).1
    exact ⟨_, u, hplain⟩
  · intro wrapped s
    obtain ⟨members, t, hgives, hstand⟩ := hrun wrapped s
    refine ⟨members, t, _, hgives, economical_notes answers wrapped requests, ?_⟩
    intro gav i hanswer
    obtain ⟨pom, hfirst, hverdict⟩ := exists_firstAnswer_take hanswer
    obtain ⟨first, u, hlocate, -⟩ := gives_locateFirst_of_stand hanswers (hstand.take (i + 1))
      (allFail_nil gav) [] t (notes answers wrapped (List.finRange n) [] requests)
    rw [List.map_nil, List.nil_append, hfirst] at hlocate
    rw [hverdict]
    exact ⟨first, _, fun others => gives_locate_chain (gives_locateFirst_append hlocate others)⟩

/-- Two shelves, of which the second has more. -/
def twoShelves : Fin 2 → Shelf
  | 0 => { name := "near", poms := [(⟨"x", "a", "1"⟩, "<a/>")] }
  | 1 => { name := "far", poms := [(⟨"x", "a", "1"⟩, "<z/>"), (⟨"x", "b", "1"⟩, "<b/>")] }

def askShelves (i : Fin 2) : Locate (StateM Unit) := (twoShelves i).locator

/-- Triples that are on the second shelf, on neither, and on both. -/
def shelfRequests : List Gav :=
  [⟨"x", "b", "1"⟩, ⟨"x", "c", "1"⟩, ⟨"x", "b", "1"⟩, ⟨"x", "c", "1"⟩, ⟨"x", "a", "1"⟩]

def shelfAnswers : List Answer :=
  let missing : Answer := .error (.nowhere ⟨"x", "c", "1"⟩
    [.refused "near has no x:c:1", .refused "far has no x:c:1"])
  let found : Answer := .ok ⟨"far/x:b:1", "<b/>"⟩
  [found, missing, found, missing, .ok ⟨"near/x:a:1", "<a/>"⟩]

/-- Only the second shelf is behind a memory. -/
theorem requests_transparent_shelves :
    (∀ i gav s, ∃ t, Gives (askShelves i gav) s ((twoShelves i).locate gav) t) ∧
    (∃ rest t, Gives (locateEach askShelves shelfRequests
      (chainOf (· == 1) (List.finRange 2))) () (shelfAnswers, rest) t) ∧
    ∃ members t asked,
      Gives (locateEach (recorded askShelves) shelfRequests (chainOf (· == 1) (List.finRange 2)))
        ((), []) (shelfAnswers, .chain members) (t, asked) ∧
      asked.count (0, ⟨"x", "b", "1"⟩) = 2 ∧ asked.count (1, ⟨"x", "b", "1"⟩) = 1 ∧
      asked.count (1, ⟨"x", "c", "1"⟩) = 2 ∧ asked.count (1, ⟨"x", "a", "1"⟩) = 0 := by
  have hanswers (i : Fin 2) (gav : Gav) (s : Unit) :
      ∃ t, Gives (askShelves i gav) s ((twoShelves i).locate gav) t := ⟨s, rfl⟩
  have hgiven : shelfRequests.map (verdict fun i => (twoShelves i).locate) = shelfAnswers := by
    rfl
  obtain ⟨hsame, hnoted⟩ := requests_transparent hanswers shelfRequests
  rw [hgiven] at hsame hnoted
  obtain ⟨members, t, asked, hgives, heconomical, -⟩ := hnoted (· == 1) ()
  refine ⟨hanswers, hsame (· == 1) (), members, t, asked, hgives, ?_, ?_, ?_, ?_⟩
  · exact heconomical.always 0 _ (by decide) (Or.inl rfl)
  · exact heconomical.once 1 _ (by decide) rfl rfl
  · exact heconomical.always 1 _ (by decide) (Or.inr rfl)
  · exact heconomical.behind 1 0 _ (by decide) rfl

end ArtifactGraph.Locator
