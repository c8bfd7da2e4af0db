import HeaviestChain.Proofs.Chain.ArrivalOrder
import HeaviestChain.Proofs.Chain.Atomicity
import HeaviestChain.Proofs.Chain.Availability
import HeaviestChain.Proofs.Chain.Mining
import HeaviestChain.Proofs.Service.Requests
import HeaviestChain.Proofs.Service.Visits

/-!
What visitors see of a tracker. Looking changes nothing; the status of the answer to a posted header
says how its submission ended; and a header that was taken in is shown under its hash from then on,
whatever else is asked and submitted.
-/

namespace HeaviestChain

namespace Visit

theorem submissions_posting (h : Header) (now : Int) :
    submissions [⟨.posting h, now⟩] = [⟨h, now⟩] := by
  have made : (Visit.mk (.posting h) now).submission? = some ⟨h, now⟩ :=
    submission?_of_query (Request.query_posting h)
  exact submissions_of_some made []

end Visit

namespace Response

variable {h : Header} {result : Except SubmitError Outcome}

theorem status_ofSubmission_eq_ok :
    (ofSubmission h result).status = .ok ↔ ∃ outcome, result = .ok outcome := by
  rcases result with (reason | e | trap) | outcome <;>
    simp [ofSubmission, ofFailure, ofError, ofFields]

theorem status_ofSubmission_eq_unprocessable :
    (ofSubmission h result).status = .unprocessable ↔
      ∃ reason, result = .error (.rejected reason) := by
  rcases result with (reason | e | trap) | outcome <;>
    simp [ofSubmission, ofFailure, ofError, ofFields]

theorem status_ofSubmission_eq_failure :
    (ofSubmission h result).status = .failure ↔
      (∃ e, result = .error (.failed (.store e))) ∨
        ∃ trap, result = .error (.failed (.trap trap)) := by
  rcases result with (reason | e | trap) | outcome <;>
    simp [ofSubmission, ofFailure, ofError, ofFields]

end Response

namespace Tracker

variable {g r : Record} {p : Params} {outages : Nat → Operation → Bool} {t : Tracker} {h : Header}
  {now : Int} {reply : Reply}

/-- A submission that succeeds files the header, unless it was there before. -/
theorem Reports.exists_adds {outcome : Outcome} (reports : t.Reports h now reply (.ok outcome))
    (new : outcome ≠ .duplicate) : ∃ r, t.Adds h now r reply := by
  cases reports with
  | duplicate _ => exact absurd rfl new
  | aside _ adds => exact ⟨_, adds⟩
  | extended adds _ _ => exact ⟨_, adds⟩
  | reorganized adds _ _ => exact ⟨_, adds⟩

/-- Whether a record is shown to those who look its hash up, in any letter case, if no outage ends
the lookup. -/
def Shows (t : Tracker) (r : Record) : Prop :=
  ∀ (v : Visit) (text : String), v.request.query = .ok (.header text) →
    text.toLower = r.hash.render → t.connection.fails .get = false →
    (t.serve v.now v.request).response = .ofRecord r

/-- Whether visitors see a tracker as it is. -/
structure Viewed (t : Tracker) : Prop where
  reads : ∀ v : Visit, v.request.method = "GET" →
    ∃ n, (t.serve v.now v.request).tracker = t.withCalls n
  accepted : ∀ (v : Visit) (h : Header), v.request.query = .ok (.submit h) →
    ((t.serve v.now v.request).response.status = .ok ↔
      ∃ outcome, (t.submit h v.now).result = .ok outcome)
  refused : ∀ (v : Visit) (h : Header), v.request.query = .ok (.submit h) →
    ((t.serve v.now v.request).response.status = .unprocessable ↔
      ∃ reason, (t.submit h v.now).result = .error (.rejected reason))
  failed : ∀ (v : Visit) (h : Header), v.request.query = .ok (.submit h) →
    ((t.serve v.now v.request).response.status = .failure ↔
      (∃ e, (t.submit h v.now).result = .error (.failed (.store e))) ∨
        ∃ trap, (t.submit h v.now).result = .error (.failed (.trap trap)))
  answered : t.connection.Dependable → t.params.medianSpan.toNat < wordCapacity → t.store.Room →
    ∀ (v : Visit) (h : Header), v.request.query = .ok (.submit h) →
      v.now + t.params.maxDrift.toNat ≤ Int64.maxValue.toInt →
      (t.serve v.now v.request).response.status = .ok ∨
        (t.serve v.now v.request).response.status = .unprocessable
  kept : ∀ (v : Visit) (h : Header), v.request.query = .ok (.submit h) →
    (t.serve v.now v.request).response.status = .ok →
    (t.submit h v.now).result ≠ .ok .duplicate →
    ∃ parent r, t.store.find? h.previous = some parent ∧ parent.extend h = .ok r ∧
      r.header = h ∧ ∀ later, ((t.serve v.now v.request).tracker.visited later).Shows r
  unknown : ∀ (v : Visit) (text : String), v.request.query = .ok (.header text) →
    Hash.IsText text → (∀ r ∈ t.store.catalog, text.toLower ≠ r.hash.render) →
    t.connection.fails .get = false → (t.serve v.now v.request).response.status = .notFound
  malformed : ∀ (v : Visit) (text : String), v.request.query = .ok (.header text) →
    ¬Hash.IsText text → (t.serve v.now v.request).response.status = .badRequest

/-- Whether visits leave what their submissions leave, each begun at the count of calls that the
visits before it have come to; without outages the counts make no difference. -/
structure Follows (t : Tracker) (visits : List Visit) : Prop where
  made : (t.begun visits).map Prod.fst = Visit.submissions visits
  inTurn : ∃ n, t.visited visits = (t.afterAt (t.begun visits)).withCalls n
  undisturbed : t.connection.outages = (fun _ _ => false) →
    ∃ n, t.visited visits = (t.after (Visit.submissions visits)).withCalls n

theorem serve_of_header {v : Visit} {text : String} (asks : v.request.query = .ok (.header text)) :
    (t.serve v.now v.request).response = (t.serveHeader text).1 := by
  rw [serve, asks]
  rfl

/-- Whoever looks at the path of the hash sees the record. -/
theorem Shows.response_looking (shows : t.Shows r) (up : t.connection.fails .get = false)
    {text : List Char} (named : (String.ofList text).toLower = r.hash.render) (now : Int) :
    (t.serve now (.looking text)).response = .ofRecord r := by
  have whole := Hash.isText_of_toLower named
  have digits := Hex.isDigit_encode_iff.1 whole.digits
  have length := whole.length
  rw [String.toList_ofList] at digits length
  have long : text ≠ [] := by
    rintro rfl
    cases length
  exact shows ⟨.looking text, now⟩ (String.ofList text) (Request.query_looking long digits) named up

section Rooted

variable (rooted : t.Rooted g)
include rooted

theorem shows_of_mem (m : r ∈ t.store.catalog) : t.Shows r := by
  intro v text asks named up
  have found : t.store.find? r.hash = some r := m
  rw [serve_of_header asks,
    serveHeader_of_parse rooted.hidden (Hash.parse_eq_ok_iff.2 named), up, found]
  rfl

theorem viewed_of_rooted : t.Viewed where
  reads v get := serve_of_submission?_eq_none rooted.hidden (v.request.submission?_of_get get v.now)
  accepted v h asks := by
    rw [serve_of_submission? (Visit.submission?_of_query asks)]
    exact Response.status_ofSubmission_eq_ok
  refused v h asks := by
    rw [serve_of_submission? (Visit.submission?_of_query asks)]
    exact Response.status_ofSubmission_eq_unprocessable
  failed v h asks := by
    rw [serve_of_submission? (Visit.submission?_of_query asks)]
    exact Response.status_ofSubmission_eq_failure
  answered sure recalls room v h asks fits := by
    rw [serve_of_submission? (Visit.submission?_of_query asks)]
    exact (submit_answered rooted sure recalls room h fits).imp
      Response.status_ofSubmission_eq_ok.2 Response.status_ofSubmission_eq_unprocessable.2
  kept v h asks done new := by
    rw [serve_of_submission? (Visit.submission?_of_query asks)] at done ⊢
    obtain ⟨outcome, result⟩ := Response.status_ofSubmission_eq_ok.1 done
    rw [result] at new
    have reports := reports_submit rooted h v.now
    rw [result] at reports
    obtain ⟨r, adds⟩ := reports.exists_adds fun same => new (congrArg Except.ok same)
    obtain ⟨parent, known, extend⟩ := adds.parent
    have rooted' := rooted.submit h v.now
    have filed : r ∈ (t.submit h v.now).tracker.store.catalog := by
      rw [adds.catalog]
      exact (Catalog.mem_file adds.new).2 (.inl rfl)
    refine ⟨parent, r, known, extend, Record.header_of_extend extend, ?_⟩
    intro later
    exact shows_of_mem (rooted'.visited later)
      ((rooted'.visited_prolongs later).kept r.hash r filed)
  unknown v text asks whole absent up := by
    obtain ⟨x, read, shown⟩ := whole.exists_parse
    have missing : t.store.find? x = none := by
      rw [Option.eq_none_iff_forall_ne_some]
      intro r found
      refine absent r (Catalog.mem_of_find? found) ?_
      rw [Catalog.hash_of_find? found, shown]
    rw [serve_of_header asks, serveHeader_of_parse rooted.hidden read, up, missing]
    rfl
  malformed v text asks broken := by
    rw [serve_of_header asks, serveHeader]
    cases read : Hash.parse text with
    | ok x => exact absurd (Hash.exists_parse_eq_ok_iff.1 ⟨x, read⟩) broken
    | error e => rfl

theorem follows_of_rooted (visits : List Visit) : t.Follows visits :=
  ⟨t.map_fst_begun visits, visited_eq_afterAt rooted visits,
    fun up => visited_eq_after rooted up visits⟩

end Rooted

/-- Whatever calls fail, visits in turn leave what their submissions leave, and visitors see the
tracker as it is. -/
theorem visits_faithful (begins : Begins p outages t) (visits : List Visit) :
    t.Follows visits ∧ (t.visited visits).Viewed :=
  ⟨follows_of_rooted begins.rooted visits, viewed_of_rooted (begins.rooted.visited visits)⟩

/-- A header that was not stored and is accepted is no duplicate. -/
theorem exists_outcome_of_ruling (rooted : t.Rooted g) (absent : t.store.find? h.hash = none)
    (accepted : (t.submit h now).ruling = .ok ()) :
    ∃ outcome, (t.submit h now).result = .ok outcome ∧ outcome ≠ .duplicate := by
  obtain ⟨outcome, result⟩ := Reply.ruling_eq_ok.1 accepted
  refine ⟨outcome, result, ?_⟩
  rintro rfl
  have reports := reports_submit rooted h now
  rw [result] at reports
  obtain ⟨r, found⟩ := rooted.stored_of_ruling accepted
  cases reports with
  | duplicate keeps =>
    rw [keeps.catalog] at found
    cases absent.symm.trans found

/-- A header that is posted and taken in is shown under its hash from then on. -/
theorem Viewed.shown_of_posting {outcome : Outcome} (viewed : t.Viewed)
    (result : (t.submit h now).result = .ok outcome) (new : outcome ≠ .duplicate) :
    ∃ r, r.header = h ∧ ∀ later, (t.visited (⟨.posting h, now⟩ :: later)).Shows r := by
  have asks := Request.query_posting h
  have status := (viewed.accepted ⟨.posting h, now⟩ h asks).2 ⟨outcome, result⟩
  have first : (t.submit h now).result ≠ .ok .duplicate := by
    rw [result]
    exact fun same => new (Except.ok.inj same)
  obtain ⟨-, r, -, -, own, shows⟩ := viewed.kept ⟨.posting h, now⟩ h asks status first
  refine ⟨r, own, ?_⟩
  intro later
  rw [visited]
  exact shows later

/-- So it is on the unit test network for a header that is posted there: from then on it is shown at
the path of its hash in any letter case. -/
theorem visits_faithful_unitTestNext :
    ∃ t, Begins .unitTest (fun _ _ => false) t ∧ t.Viewed ∧
      t.Follows [⟨.posting Params.unitTestNext, 1231006685⟩] ∧
      Visit.submissions [⟨.posting Params.unitTestNext, 1231006685⟩] =
        [⟨Params.unitTestNext, 1231006685⟩] ∧
      ∃ r, r.header = Params.unitTestNext ∧ ∀ later text now,
        (String.ofList text).toLower = r.hash.render →
        ((t.visited (⟨.posting Params.unitTestNext, 1231006685⟩ :: later)).serve now
          (.looking text)).response = .ofRecord r := by
  obtain ⟨t, begins⟩ := exists_begins (fun _ _ => false) Params.sound_unitTest (by decide) rfl
  have absent : t.store.find? Params.unitTestNext.hash = none := by
    show t.store.catalog.find? _ = none
    rw [begins.find?_eq, Params.hash_unitTestNext]
    apply if_neg
    rw [Params.hash_genesis_unitTest]
    decide
  obtain ⟨accepted, -⟩ := begins.carries_next (by decide) [] begins.carries mined_unitTestNext
  obtain ⟨outcome, result, new⟩ := exists_outcome_of_ruling begins.rooted absent accepted
  have viewed : t.Viewed := (visits_faithful begins []).2
  obtain ⟨follows, -⟩ := visits_faithful begins [⟨.posting Params.unitTestNext, 1231006685⟩]
  obtain ⟨r, own, shows⟩ := viewed.shown_of_posting result new
  refine ⟨t, begins, viewed, follows, Visit.submissions_posting _ _, r, own, ?_⟩
  intro later text now named
  have resumes := resumes_visited begins.rooted
    (⟨.posting Params.unitTestNext, 1231006685⟩ :: later)
  exact (shows later).response_looking ((resumes.dependable begins.dependable).not_fails .get)
    named now

/-- Where the span of the median is beyond the memory, the service fails to answer a header that
keeps all conditions though the store has not failed. -/
theorem failure_beyond_memory :
    (Params.unitTestSpan 2305843009213693952).Sound ∧
      ∃ t, Begins (.unitTestSpan 2305843009213693952) (fun _ _ => false) t ∧
        (Request.posting Params.unitTestNext).query = .ok (.submit Params.unitTestNext) ∧
        (t.serve 1231006565 (.posting Params.unitTestNext)).response.status = .failure ∧
        ¬∃ e, (t.submit Params.unitTestNext 1231006565).result = .error (.failed (.store e)) := by
  have sound : (Params.unitTestSpan 2305843009213693952).Sound := by decide
  obtain ⟨t, begins⟩ := exists_begins (fun _ _ => false) sound (by decide) rfl
  obtain ⟨ready, admits⟩ := admits_unitTestNext (by decide) begins
  have stuck : (t.submit Params.unitTestNext 1231006565).ruling =
      .error (.failed (.trap .capacity)) := by
    apply (settles_after begins [] ready).stuck
    rintro (fits | early)
    · exact absurd fits (by decide)
    · exact early admits.due
  have result := Reply.ruling_eq_error.1 stuck
  have asks := Request.query_posting Params.unitTestNext
  refine ⟨sound, t, begins, asks, ?_, ?_⟩
  · rw [serve_of_submission? (v := ⟨.posting Params.unitTestNext, 1231006565⟩)
      (Visit.submission?_of_query asks)]
    exact Response.status_ofSubmission_eq_failure.2 (.inr ⟨_, result⟩)
  · rintro ⟨e, failed⟩
    cases result.symm.trans failed

end Tracker

end HeaviestChain
