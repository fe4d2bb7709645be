import ArtifactGraph.Proofs.Places
import ArtifactGraph.Proofs.Runs

/-!
# Repeated requests

A POM is asked for again as long as the next reply may be another one, and three times at most.
This module says what is asked of a server and what comes of it, for every sequence of replies.

* Replies.  `Reply.MayPass` are the replies after which another request makes sense, and
  `Answer.Delivers` says which answers are a POM.  `Answer.outcome_cases` goes through the stages of
  an answer; `exists_mayPass_iff` and `outcome_eq_found_iff` read the two off it.
* One request.  `Network.replaying` is a server that replies from a sequence and notes what it is
  asked; `gives_attempt` is all that one request does.
* Repetition.  `gives_fetch_replaying` is the only induction: there are requests up to the first
  reply that is final, or to the last one allowed, and the last reply decides.
* `requests_of_locate` puts these together.
-/

namespace ArtifactGraph

/-! ## Replies -/

/-- Bytes are read as a text if and only if they are those of the text. -/
theorem fromUTF8?_eq_some_iff {bytes : ByteArray} {content : String} :
    String.fromUTF8? bytes = some content ↔ bytes = content.toUTF8 := by
  unfold String.fromUTF8?
  constructor
  · intro h
    split at h
    · rw [← Option.some.inj h]
      rfl
    · cases h
  · rintro rfl
    have hvalid : content.toUTF8.IsValidUTF8 := content.isValidUTF8
    rw [dif_pos hvalid]
    rfl

namespace Answer

/-- Whether the status is that of a fault of the server. -/
def IsServerError (a : Answer) : Prop := 500 ≤ a.status ∧ a.status < 600

/-- Whether the status is that of a success. -/
def IsSuccess (a : Answer) : Prop := 200 ≤ a.status ∧ a.status < 300

instance (a : Answer) : Decidable a.IsServerError := inferInstanceAs (Decidable (_ ∧ _))

instance (a : Answer) : Decidable a.IsSuccess := inferInstanceAs (Decidable (_ ∧ _))

/-- Whether the body is within the limit, by the length that is announced, if one is, and by the
bytes that arrive. -/
def FitsLimit (a : Answer) : Prop :=
  (∀ length ∈ a.announced, length ≤ pomSizeLimit) ∧ a.body.size ≤ pomSizeLimit

/-- An answer that delivers a POM: a success within the limit, with all bytes of the text. -/
structure Delivers (a : Answer) (content : String) : Prop where
  success : a.IsSuccess
  fits : a.FitsLimit
  complete : a.complete = true
  body_eq : a.body = content.toUTF8

end Answer

/-- A reply after which the next one may be another: none, a fault of the server, or a body that
breaks off. A body is only read in an answer that is a success and does not announce too much, and
no further than to the first byte beyond the limit; what is not read cannot break off. -/
inductive Reply.MayPass : Reply → Prop
  | silence : MayPass .silence
  | serverError {a : Answer} (h : a.IsServerError) : MayPass (.answer a)
  | brokenOff {a : Answer} (hsuccess : a.IsSuccess) (hfits : a.FitsLimit)
      (hbroken : a.complete = false) : MayPass (.answer a)

namespace Answer

variable {a : Answer}

theorem IsSuccess.not_isServerError (h : a.IsSuccess) : ¬ a.IsServerError := by
  unfold IsSuccess IsServerError at *
  omega

theorem fitsLimit_of_mem (hannounced : a.announced ∈ [none, some pomSizeLimit])
    (hsize : a.body.size ≤ pomSizeLimit) : a.FitsLimit := by
  refine ⟨fun length hlength => ?_, hsize⟩
  rw [Option.mem_def.1 hlength] at hannounced
  have hlimit : length = pomSizeLimit := by simpa using hannounced
  exact Nat.le_of_eq hlimit

theorem not_fitsLimit_of_eq
    (h : a.announced = some (pomSizeLimit + 1) ∨ a.body.size = pomSizeLimit + 1) :
    ¬ a.FitsLimit := by
  rintro ⟨hannounced, hsize⟩
  rcases h with h | h
  · have hle := hannounced _ h
    omega
  · omega

theorem any_announced_eq_false_iff :
    a.announced.any (· > pomSizeLimit) = false ↔
      ∀ length ∈ a.announced, length ≤ pomSizeLimit := by
  cases a.announced with
  | none => simp
  | some length => simp

/-- The status is looked at first, and then the length that a success announces. -/
theorem outcome_eq (a : Answer) :
    a.outcome =
      if a.IsServerError then .mayPass (.status a.status)
      else if a.IsSuccess then
        if a.announced.any (· > pomSizeLimit) then .final .tooLong else a.bodyOutcome
      else .final (.status a.status) := by
  have hserver : (500 ≤ a.status && a.status < 600) = decide a.IsServerError :=
    (Bool.decide_and _ _).symm
  have hsuccess : (200 ≤ a.status && a.status < 300) = decide a.IsSuccess :=
    (Bool.decide_and _ _).symm
  rw [outcome, hserver, hsuccess]
  by_cases h : a.IsSuccess
  · simp [h]
  · simp [h]

theorem outcome_of_not_isSuccess (hserver : ¬ a.IsServerError) (h : ¬ a.IsSuccess) :
    a.outcome = .final (.status a.status) := by
  rw [outcome_eq, if_neg hserver, if_neg h]

/-- An answer that is too long by one byte or more is refused, whether or not it says so. -/
theorem outcome_of_not_fitsLimit (h : a.IsSuccess) (hlong : ¬ a.FitsLimit) :
    a.outcome = .final .tooLong := by
  rw [outcome_eq, if_neg h.not_isServerError, if_pos h]
  by_cases hannounced : ∀ length ∈ a.announced, length ≤ pomSizeLimit
  · have hsize : pomSizeLimit < a.body.size := Nat.lt_of_not_le fun hle => hlong ⟨hannounced, hle⟩
    rw [any_announced_eq_false_iff.2 hannounced, if_neg Bool.false_ne_true, bodyOutcome,
      if_pos hsize]
  · rw [← any_announced_eq_false_iff, Bool.not_eq_false] at hannounced
    rw [if_pos hannounced]

/-- Of an answer that fits all bytes have to arrive, and they have to be a text. -/
theorem outcome_of_fitsLimit (h : a.IsSuccess) (hfits : a.FitsLimit) :
    a.outcome =
      if a.complete = false then .mayPass .brokenOff
      else match String.fromUTF8? a.body with
        | some content => .found content
        | none => .final .notText := by
  rw [outcome_eq, if_neg h.not_isServerError, if_pos h, any_announced_eq_false_iff.2 hfits.1,
    if_neg Bool.false_ne_true, bodyOutcome, if_neg (Nat.not_lt.2 hfits.2)]
  cases a.complete with
  | false => rfl
  | true => rfl

theorem Delivers.outcome_eq {content : String} (h : a.Delivers content) :
    a.outcome = .found content := by
  rw [outcome_of_fitsLimit h.success h.fits, if_neg (by simp [h.complete]),
    fromUTF8?_eq_some_iff.2 h.body_eq]

end Answer

namespace Reply

theorem MayPass.exists_fault {reply : Reply} (h : reply.MayPass) :
    ∃ fault, reply.outcome = .mayPass fault := by
  cases h with
  | silence => exact ⟨.silence, rfl⟩
  | @serverError a h => exact ⟨_, (a.outcome_eq).trans (if_pos h)⟩
  | brokenOff hsuccess hfits hbroken =>
    exact ⟨.brokenOff, (Answer.outcome_of_fitsLimit hsuccess hfits).trans (if_pos hbroken)⟩

/-- All that a reply can mean, stage by stage. -/
theorem outcome_cases (reply : Reply) :
    reply.MayPass ∨ (∃ a content, reply = .answer a ∧ a.Delivers content) ∨
      ∃ fault, reply.outcome = .final fault := by
  cases reply with
  | silence => exact .inl .silence
  | answer a =>
    by_cases hserver : a.IsServerError
    · exact .inl (.serverError hserver)
    by_cases hsuccess : a.IsSuccess
    · by_cases hfits : a.FitsLimit
      · cases hcomplete : a.complete with
        | false => exact .inl (.brokenOff hsuccess hfits hcomplete)
        | true =>
          cases hread : String.fromUTF8? a.body with
          | some content =>
            have hbody := fromUTF8?_eq_some_iff.1 hread
            exact .inr (.inl ⟨a, content, rfl, hsuccess, hfits, hcomplete, hbody⟩)
          | none =>
            refine .inr (.inr ⟨.notText, ?_⟩)
            show a.outcome = _
            rw [Answer.outcome_of_fitsLimit hsuccess hfits, if_neg (by simp [hcomplete]), hread]
      · exact .inr (.inr ⟨_, Answer.outcome_of_not_fitsLimit hsuccess hfits⟩)
    · exact .inr (.inr ⟨_, Answer.outcome_of_not_isSuccess hserver hsuccess⟩)

/-- Another request makes sense after exactly these replies. -/
theorem exists_mayPass_iff (reply : Reply) :
    (∃ fault, reply.outcome = .mayPass fault) ↔ reply.MayPass := by
  constructor
  · rintro ⟨fault, hfault⟩
    rcases reply.outcome_cases with h | ⟨a, content, rfl, h⟩ | ⟨other, h⟩
    · exact h
    · cases hfault.symm.trans h.outcome_eq
    · cases hfault.symm.trans h
  · exact MayPass.exists_fault

/-- A POM is found in exactly the answers that deliver it. -/
theorem outcome_eq_found_iff {reply : Reply} {content : String} :
    reply.outcome = .found content ↔ ∃ a, reply = .answer a ∧ a.Delivers content := by
  constructor
  · intro hfound
    rcases reply.outcome_cases with h | ⟨a, other, rfl, h⟩ | ⟨other, h⟩
    · obtain ⟨fault, hfault⟩ := h.exists_fault
      cases hfault.symm.trans hfound
    · cases h.outcome_eq.symm.trans hfound
      exact ⟨a, rfl, h⟩
    · cases h.symm.trans hfound
  · rintro ⟨a, rfl, h⟩
    exact h.outcome_eq

theorem not_mayPass_of_delivers {reply : Reply} {content : String}
    (h : ∃ a, reply = .answer a ∧ a.Delivers content) : ¬ reply.MayPass := by
  intro hpass
  obtain ⟨fault, hfault⟩ := hpass.exists_fault
  cases hfault.symm.trans (outcome_eq_found_iff.2 h)

theorem not_mayPass_of_final {reply : Reply} {fault : ReplyFault}
    (h : reply.outcome = .final fault) : ¬ reply.MayPass := by
  intro hpass
  obtain ⟨other, hother⟩ := hpass.exists_fault
  cases hother.symm.trans h

/-- What is answered when a reply is the last one. -/
def verdict (url : String) (reply : Reply) : Except FetchFault String :=
  match reply.outcome with
  | .found content => .ok content
  | .final fault => .error (.final url fault)
  | .mayPass fault => .error (.exhausted url fault)

theorem verdict_eq_ok_iff {url : String} {reply : Reply} {content : String} :
    reply.verdict url = .ok content ↔ ∃ a, reply = .answer a ∧ a.Delivers content := by
  rw [← outcome_eq_found_iff, verdict]
  cases reply.outcome with
  | found other => simp
  | mayPass fault => simp
  | final fault => simp

end Reply

/-! ## One request -/

/-- A server that replies from a sequence, whatever it is asked, and notes what that was. -/
def Network.replaying (replies : Nat → Reply) : Network (StateM (List String)) where
  request url := do
    let asked ← get
    set (asked ++ [url])
    return replies asked.length
  wait _ := return ()

section

variable {replies : Nat → Reply} {url : String} {asked : List String}

theorem gives_request_replaying :
    Gives ((Network.replaying replies).request url) asked (replies asked.length)
      (asked ++ [url]) := rfl

theorem gives_wait_replaying (milliseconds : Nat) :
    Gives ((Network.replaying replies).wait milliseconds) asked () asked := rfl

/-- A final reply ends the requests. -/
theorem gives_attempt_of_not_mayPass (h : ¬ (replies asked.length).MayPass)
    (otherwise : ReplyFault → StateM (List String) (Except FetchFault String)) :
    Gives ((Network.replaying replies).attempt url otherwise) asked
      ((replies asked.length).verdict url) (asked ++ [url]) := by
  unfold Network.attempt Reply.verdict
  rw [gives_bind_iff]
  refine ⟨_, _, gives_request_replaying, ?_⟩
  cases houtcome : (replies asked.length).outcome with
  | found content => exact gives_pure_iff.2 ⟨rfl, rfl⟩
  | final fault => exact gives_pure_iff.2 ⟨rfl, rfl⟩
  | mayPass fault => exact absurd ((Reply.exists_mayPass_iff _).1 ⟨fault, houtcome⟩) h

/-- After any other reply it is up to what is to be done then. -/
theorem gives_attempt_of_mayPass (h : (replies asked.length).MayPass)
    {otherwise : ReplyFault → StateM (List String) (Except FetchFault String)}
    {answer : Except FetchFault String} {t : List String}
    (hotherwise : ∀ fault, (replies asked.length).outcome = .mayPass fault →
      Gives (otherwise fault) (asked ++ [url]) answer t) :
    Gives ((Network.replaying replies).attempt url otherwise) asked answer t := by
  obtain ⟨fault, hfault⟩ := h.exists_fault
  unfold Network.attempt
  rw [gives_bind_iff]
  refine ⟨_, _, gives_request_replaying, ?_⟩
  rw [hfault]
  exact hotherwise fault hfault

/-! ## Repetition -/

variable (replies url asked) in
/-- There are requests as long as the reply may be another one next time, and the last one decides:
the first that is final, or the last one allowed. -/
theorem gives_fetch_replaying {again last : Nat} (hlast : last ≤ again)
    (hbefore : ∀ i < last, (replies (asked.length + i)).MayPass)
    (hend : last = again ∨ ¬ (replies (asked.length + last)).MayPass) :
    Gives ((Network.replaying replies).fetch url again) asked
      ((replies (asked.length + last)).verdict url) (asked ++ List.replicate (last + 1) url) := by
  induction again generalizing asked last with
  | zero =>
    obtain rfl : last = 0 := Nat.le_zero.1 hlast
    rw [Network.fetch]
    by_cases h : (replies asked.length).MayPass
    · refine gives_attempt_of_mayPass h fun fault hfault => ?_
      rw [Nat.add_zero, Reply.verdict, hfault]
      exact gives_pure_iff.2 ⟨rfl, rfl⟩
    · exact gives_attempt_of_not_mayPass h _
  | succ again ih =>
    rw [Network.fetch]
    cases last with
    | zero =>
      have h : ¬ (replies asked.length).MayPass := hend.resolve_left (by omega)
      exact gives_attempt_of_not_mayPass h _
    | succ last =>
      have hfirst : (replies asked.length).MayPass := hbefore 0 (by omega)
      refine gives_attempt_of_mayPass hfirst fun fault _ => ?_
      rw [gives_bind_iff]
      refine ⟨(), _, gives_wait_replaying _, ?_⟩
      have hshift (i : Nat) : (asked ++ [url]).length + i = asked.length + (i + 1) := by
        simp
        omega
      have hrest := ih (asked ++ [url]) (Nat.le_of_succ_le_succ hlast)
        (fun i hi => by rw [hshift]; exact hbefore (i + 1) (by omega))
        (by rw [hshift]; exact hend.imp (by omega) id)
      rw [hshift, List.append_assoc, List.singleton_append, ← List.replicate_succ] at hrest
      exact hrest

end

/-- Whether the reply at a position is the first one that is final. -/
def FirstFinal (replies : Nat → Reply) (n : Nat) : Prop :=
  ¬ (replies n).MayPass ∧ ∀ i < n, (replies i).MayPass

/-- Where the requests end if `again` of them may follow the first one. -/
structure IsLast (replies : Nat → Reply) (again last : Nat) : Prop where
  le : last ≤ again
  before : ∀ i < last, (replies i).MayPass
  ending : last = again ∨ ¬ (replies last).MayPass

theorem exists_isLast (replies : Nat → Reply) (again : Nat) :
    ∃ last, IsLast replies again last := by
  induction again with
  | zero => exact ⟨0, Nat.le_refl 0, by omega, .inl rfl⟩
  | succ again ih =>
    obtain ⟨last, hle, hbefore, hend⟩ := ih
    by_cases h : (replies last).MayPass
    · obtain rfl : last = again := hend.resolve_right (not_not_intro h)
      refine ⟨last + 1, Nat.le_refl _, fun i hi => ?_, .inl rfl⟩
      rcases Nat.lt_succ_iff_lt_or_eq.1 hi with hi | rfl
      · exact hbefore i hi
      · exact h
    · exact ⟨last, by omega, hbefore, .inr h⟩

/-- The requests end at the first final reply, if they get as far. -/
theorem IsLast.eq_min {replies : Nat → Reply} {again last n : Nat} (h : IsLast replies again last)
    (hn : FirstFinal replies n) : last = min again n := by
  have hle := h.le
  have hlater : ¬ n < last := fun hlt => hn.1 (h.before n hlt)
  have hsooner : last < n → last = again := fun hlt =>
    h.ending.resolve_right (not_not_intro (hn.2 last hlt))
  omega

theorem IsLast.eq_of_firstFinal {replies : Nat → Reply} {again last n : Nat}
    (h : IsLast replies again last) (hn : FirstFinal replies n) (hle : n ≤ again) : last = n := by
  have hmin := h.eq_min hn
  omega

theorem IsLast.eq_of_passing {replies : Nat → Reply} {again last : Nat}
    (h : IsLast replies again last) (hpass : ∀ n, (replies n).MayPass) : last = again :=
  h.ending.resolve_right (not_not_intro (hpass last))

/-- The last reply delivers a POM if and only if the first final one is among those that are asked
for and does. -/
theorem IsLast.verdict_eq_ok_iff {replies : Nat → Reply} {again last : Nat} {url content : String}
    (h : IsLast replies again last) :
    (replies last).verdict url = .ok content ↔
      ∃ n ≤ again, FirstFinal replies n ∧ ∃ a, replies n = .answer a ∧ a.Delivers content := by
  rw [Reply.verdict_eq_ok_iff]
  constructor
  · intro hdelivers
    exact ⟨last, h.le, ⟨Reply.not_mayPass_of_delivers hdelivers, h.before⟩, hdelivers⟩
  · rintro ⟨n, hn, hfinal, hdelivers⟩
    rw [h.eq_of_firstFinal hfinal hn]
    exact hdelivers

/-- What a repository answers after the requests for a URL. -/
def located (url : String) (verdict : Except FetchFault String) : Except LocateFault PomSource :=
  (verdict.map (⟨url, ·⟩)).mapError fun fault => .refused fault.message

theorem located_eq_ok_iff {url : String} {verdict : Except FetchFault String}
    {source : PomSource} :
    located url verdict = .ok source ↔ source.location = url ∧ verdict = .ok source.content := by
  cases verdict with
  | error fault =>
    constructor
    · intro h
      cases h
    · rintro ⟨-, h⟩
      cases h
  | ok content =>
    constructor
    · intro h
      cases h
      exact ⟨rfl, rfl⟩
    · rintro ⟨rfl, h⟩
      cases h
      rfl

namespace RemoteRepository

variable {r : RemoteRepository} {g : Gav}

/-- Without a URL nothing is asked. -/
theorem gives_locate_of_error {σ : Type} {net : Network (StateM σ)} {reason : String}
    (h : r.pomUrl g = .error reason) (s : σ) :
    Gives (r.locate net g) s (.error (.refused reason)) s := by
  simp only [locate, fetch, h]
  rfl

theorem gives_locate_replaying {url : String} (h : r.pomUrl g = .ok url)
    {replies : Nat → Reply} {last : Nat} (hend : IsLast replies (attemptLimit - 1) last) :
    Gives (r.locate (.replaying replies) g) [] (located url ((replies last).verdict url))
      (List.replicate (last + 1) url) := by
  have hfetch := gives_fetch_replaying replies url [] hend.le (by simpa using hend.before)
    (by simpa using hend.ending)
  simp only [List.length_nil, Nat.zero_add, List.nil_append] at hfetch
  simp only [locate, fetch, h, gives_bind_iff, gives_pure_iff]
  exact ⟨_, _, ⟨_, _, hfetch, rfl, rfl⟩, rfl, rfl⟩

/-- A triple with a fault causes no request. For any other the URL of its POM is asked for, and
nothing else, up to the first reply that is final, but three times at most. The POM is found if and
only if that reply is among them and delivers it. A body of exactly the greatest size is taken, and
one byte more, announced or actual, is refused without another request. -/
theorem requests_of_locate (r : RemoteRepository) (replies : Nat → Reply) (g : Gav) :
    (∀ reason, g.fault? = some reason →
      Gives (r.locate (.replaying replies) g) [] (.error (.refused reason)) []) ∧
    (g.fault? = none → ∃ url answer asked, r.pomUrl g = .ok url ∧
      Gives (r.locate (.replaying replies) g) [] answer asked ∧
      (∀ n, FirstFinal replies n → asked = List.replicate (min 3 (n + 1)) url) ∧
      ((∀ n, (replies n).MayPass) → asked = List.replicate 3 url) ∧
      (∀ source, answer = .ok source ↔ source.location = url ∧
        ∃ n ≤ 2, FirstFinal replies n ∧
          ∃ a, replies n = .answer a ∧ a.Delivers source.content) ∧
      ∀ n ≤ 2, (∀ i < n, (replies i).MayPass) → ∀ a, replies n = .answer a → a.IsSuccess →
        (a.announced ∈ [none, some pomSizeLimit] → a.body.size = pomSizeLimit →
          a.complete = true → ∀ content, a.body = content.toUTF8 →
            answer = .ok ⟨url, content⟩) ∧
        (a.announced = some (pomSizeLimit + 1) ∨ a.body.size = pomSizeLimit + 1 →
          answer = .error (.refused (FetchFault.final url .tooLong).message) ∧
          asked = List.replicate (n + 1) url)) := by
  constructor
  · intro reason hfault
    have hurl : r.pomUrl g = .error reason := by rw [pomUrl, hfault]
    exact gives_locate_of_error hurl []
  · intro hfault
    obtain ⟨url, hurl⟩ : ∃ url, r.pomUrl g = .ok url := by
      rw [pomUrl, hfault]
      exact ⟨_, rfl⟩
    obtain ⟨last, hend⟩ := exists_isLast replies (attemptLimit - 1)
    refine ⟨url, _, _, hurl, gives_locate_replaying hurl hend, ?_, ?_, ?_, ?_⟩
    · intro n hn
      have hlast : last = min 2 n := hend.eq_min hn
      have hcount : last + 1 = min 3 (n + 1) := by omega
      rw [hcount]
    · intro hpass
      rw [hend.eq_of_passing hpass]
      rfl
    · intro source
      rw [located_eq_ok_iff, hend.verdict_eq_ok_iff]
      rfl
    · intro n hn hbefore a hreply hsuccess
      constructor
      · intro hannounced hsize hcomplete content hbody
        have hfits : a.FitsLimit :=
          Answer.fitsLimit_of_mem hannounced (Nat.le_of_eq hsize)
        have hdelivers : a.Delivers content := ⟨hsuccess, hfits, hcomplete, hbody⟩
        have hfinal := Reply.not_mayPass_of_delivers ⟨a, hreply, hdelivers⟩
        exact located_eq_ok_iff.2 ⟨rfl, hend.verdict_eq_ok_iff.2
          ⟨n, hn, ⟨hfinal, hbefore⟩, a, hreply, hdelivers⟩⟩
      · intro hlong
        have houtcome : (replies n).outcome = .final .tooLong := by
          rw [hreply]
          exact Answer.outcome_of_not_fitsLimit hsuccess (Answer.not_fitsLimit_of_eq hlong)
        have hfinal := Reply.not_mayPass_of_final houtcome
        rw [hend.eq_of_firstFinal ⟨hfinal, hbefore⟩ hn, Reply.verdict, houtcome]
        exact ⟨rfl, rfl⟩

/-- A fault of the server and a body that breaks off are worth another request. -/
example :
    Gives ((⟨"https://h"⟩ : RemoteRepository).locate
        (.replaying fun
          | 0 => .answer { status := 503, body := "".toUTF8 }
          | 1 => .answer { status := 200, body := "<pro".toUTF8, complete := false }
          | _ => .answer { status := 200, body := "<project/>".toUTF8 })
        ⟨"g", "a", "1"⟩) []
      (.ok ⟨"https://h/g/a/1/a-1.pom", "<project/>"⟩)
      (List.replicate 3 "https://h/g/a/1/a-1.pom") := rfl

end RemoteRepository

end ArtifactGraph
