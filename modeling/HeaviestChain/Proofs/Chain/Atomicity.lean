import HeaviestChain.Proofs.Chain.Acceptance

/-!
What a submission changes where calls fail. It changes what its result reports and nothing else: a
failed one leaves head, window and listeners as they were, and adds at most the record of a header
that keeps all conditions.
-/

namespace HeaviestChain.Tracker

open Catalog

variable {g r : Record} {p : Params} {outages : Nat → Operation → Bool} {t : Tracker} {h : Header}
  {now : Int} {reply : Reply}

/-- Whether a reply leaves head and window as they are and nothing is heard. -/
structure Rests (t : Tracker) (reply : Reply) : Prop where
  head : reply.tracker.store.head = t.store.head
  window : reply.tracker.window = t.window
  events : reply.events = []

/-- Whether a reply adds one record, that of a header which keeps all conditions. -/
structure Adds (t : Tracker) (h : Header) (now : Int) (r : Record) (reply : Reply) : Prop where
  parent : ∃ parent, t.store.find? h.previous = some parent ∧ parent.extend h = .ok r
  new : t.store.find? r.hash = none
  admitted : t.params.Admits (t.store.catalog.lineage h) h now
  catalog : reply.tracker.store.catalog = t.store.catalog.file r

/-- What a reply may have changed, by its result. -/
inductive Reports (t : Tracker) (h : Header) (now : Int) (reply : Reply) :
    Except SubmitError Outcome → Prop where
  | duplicate (keeps : t.Keeps reply) : Reports t h now reply (.ok .duplicate)
  | rejected {reason : Rejection} (keeps : t.Keeps reply) :
      Reports t h now reply (.error (.rejected reason))
  | failed {f : Failure} (rests : t.Rests reply)
      (records : reply.tracker.store.catalog = t.store.catalog ∨ ∃ r, t.Adds h now r reply) :
      Reports t h now reply (.error (.failed f))
  | aside {r : Record} (rests : t.Rests reply) (adds : t.Adds h now r reply) :
      Reports t h now reply (.ok (.sideBranch r.height))
  | extended {r : Record} (adds : t.Adds h now r reply) (head : reply.tracker.store.head = r)
      (events : reply.events = [.connected r]) :
      Reports t h now reply (.ok (.extendedHead r.height))
  | reorganized {r : Record} {f : Fork} (adds : t.Adds h now r reply)
      (head : reply.tracker.store.head = r) (events : reply.events = changes f) :
      Reports t h now reply (.ok (.reorganized f.base.height f.left.length f.entered.length))

theorem Keeps.rests (keeps : t.Keeps reply) : t.Rests reply :=
  ⟨keeps.head, keeps.window, keeps.events⟩

theorem Stops.reports {result : Except SubmitError Outcome} (stops : t.Stops h now result)
    (keeps : t.Keeps reply) : t.Reports h now reply result := by
  cases stops with
  | known _ => exact .duplicate keeps
  | rejected _ => exact .rejected keeps
  | failed _ => exact .failed keeps.rests (.inl keeps.catalog)

/-- A record that was not filed before is not on the branch of one that was. -/
theorem not_mem_branch_filed {n : Nat} (rooted : t.Rooted g) (new : t.store.find? r.hash = none) :
    r ∉ (t.filed r n).store.catalog.branch (t.filed r n).store.head := by
  have same : (t.filed r n).store.catalog.branch (t.filed r n).store.head =
      t.store.catalog.branch t.store.head :=
    rooted.grown.branch_of_within (within_insert _ r) t.store.head_mem
  rw [same]
  intro on
  cases new.symm.trans (rooted.grown.mem_of_mem_branch t.store.head_mem r on)

/-- A sound record that is filed and chosen was added, and nothing else happened to the records. -/
theorem Chooses.adds {n : Nat} (rooted : t.Rooted g) (said : t.verdict h now = .ok (.sound r))
    (chooses : (t.filed r n).Chooses r reply) : t.Adds h now r reply := by
  obtain ⟨own, new, parent, link⟩ := Params.sound_of_run_examine (c := t.store.catalog) said
  have filed : t.store.catalog.insert r = t.store.catalog.file r := by simp [Catalog.insert, new]
  refine ⟨⟨parent, ?_, ?_⟩, new, Params.admits_of_run_examine rooted.grown t.sound said,
    chooses.catalog.trans filed⟩
  · rw [← own]
    exact link.found
  · rw [← own]
    exact link.extend

theorem Chooses.reports {n : Nat} (rooted : t.Rooted g) (said : t.verdict h now = .ok (.sound r))
    (chooses : (t.filed r n).Chooses r reply) : t.Reports h now reply reply.result := by
  have adds := chooses.adds rooted said
  cases chooses with
  | failed result _ keeps =>
    rw [result]
    exact .failed ⟨keeps.head, keeps.window, keeps.events⟩ (.inr ⟨r, adds⟩)
  | stayed result _ keeps =>
    rw [result, if_neg (not_mem_branch_filed rooted adds.new)]
    exact .aside ⟨keeps.head, keeps.window, keeps.events⟩ adds
  | moved moves result _ _ _ head _ events =>
    rw [result]
    cases moves with
    | extended _ => exact .extended adds head events
    | reorganized _ => exact .reorganized adds head events

theorem reports_submit (rooted : t.Rooted g) (h : Header) (now : Int) :
    t.Reports h now (t.submit h now) (t.submit h now).result := by
  cases (submit_submits rooted h now).2 with
  | stopped stops keeps => exact stops.reports keeps
  | filed said _ _ _ chooses => exact chooses.reports rooted said

/-- The schedule of later outages is no part of what is reported. -/
theorem Reports.of_under {schedule : Nat → Operation → Bool} {result : Except SubmitError Outcome}
    (reports : (t.under schedule).Reports h now reply result) : t.Reports h now reply result := by
  have keeps (k : (t.under schedule).Keeps reply) : t.Keeps reply :=
    ⟨k.catalog, k.head, k.window, k.events⟩
  have rests (k : (t.under schedule).Rests reply) : t.Rests reply := ⟨k.head, k.window, k.events⟩
  have adds {r : Record} (a : (t.under schedule).Adds h now r reply) : t.Adds h now r reply :=
    ⟨a.parent, a.new, a.admitted, a.catalog⟩
  cases reports with
  | duplicate k => exact .duplicate (keeps k)
  | rejected k => exact .rejected (keeps k)
  | failed k records =>
    exact .failed (rests k) (records.imp id fun ⟨r, a⟩ => ⟨r, adds a⟩)
  | aside k a => exact .aside (rests k) (adds a)
  | extended a head events => exact .extended (adds a) head events
  | reorganized a head events => exact .reorganized (adds a) head events

/-- Whatever calls failed before and fail now, a submission changes what its result reports and
nothing else. -/
theorem changes_reported (begins : Begins p outages t) (submissions : List Submission)
    (schedule : Nat → Operation → Bool) (h : Header) (now : Int) :
    (t.after submissions).Reports h now (((t.after submissions).under schedule).submit h now)
      (((t.after submissions).under schedule).submit h now).result :=
  (reports_submit ((begins.rooted.after submissions).under schedule) h now).of_under

/-- So it is on the unit test network where the head cannot be moved. -/
theorem changes_reported_unitTest :
    ∃ t, Begins .unitTest (fun call _ => call = 2) t ∧
      ∃ u, u = t.after [⟨Params.unitTestNext, 1231006565⟩] ∧
        ∃ reply, reply = (u.under fun _ op => op = .setChainHead).submit Params.unitTestNext
            1231006565 ∧
          u.Reports Params.unitTestNext 1231006565 reply reply.result := by
  obtain ⟨t, begins⟩ := exists_begins (fun call _ => call = 2) Params.sound_unitTest (by decide) rfl
  exact ⟨t, begins, _, rfl, _, rfl, changes_reported begins _ _ _ _⟩

end HeaviestChain.Tracker
