import HeaviestChain.Proofs.Chain.Acceptance
import HeaviestChain.Proofs.Tracker.Faultless

/-!
Submitting a header again after its submission failed. As long as the first attempt stored nothing,
or the header does not outweigh the head, the second one ends where a single one does. A header that
was stored before its attempt failed is a duplicate to the second one, and the head stays behind.
-/

namespace HeaviestChain

/-- Whether a second attempt ends where a single one does, and the same was heard in all. -/
structure Reply.Heals (once first again : Reply) : Prop where
  catalog : again.tracker.store.catalog = once.tracker.store.catalog
  head : again.tracker.store.head = once.tracker.store.head
  window : again.tracker.window = once.tracker.window
  events : first.events ++ again.events = once.events

namespace Tracker

open Catalog

variable {g r : Record} {p : Params} {t : Tracker} {h : Header} {now : Int}
  {schedule : Nat → Operation → Bool} {e : StoreError}

/-- The second of two attempts, where a schedule of outages holds for the first one. -/
def again (t : Tracker) (schedule : Nat → Operation → Bool) (h : Header) (now : Int) : Reply :=
  (((t.under schedule).submit h now).tracker.under fun _ _ => false).submit h now

/-- Whether a second attempt finds a duplicate and leaves the head where it was. -/
structure Misses (t : Tracker) (once first again : Reply) : Prop where
  result : again.result = .ok .duplicate
  catalog : again.tracker.store.catalog = once.tracker.store.catalog
  head : again.tracker.store.head = t.store.head
  window : again.tracker.window = t.window
  events : first.events ++ again.events = []

/-- What a second attempt comes to after a first one failed: it ends where a single one does if the
first one stored nothing or the head would have stayed anyway, and only then. -/
structure Retries (t : Tracker) (schedule : Nat → Operation → Bool) (h : Header) (now : Int) :
    Prop where
  heals : (t.submit h now).Heals ((t.under schedule).submit h now) (t.again schedule h now) ↔
    ((t.under schedule).submit h now).tracker.store.catalog = t.store.catalog ∨
      (t.submit h now).tracker.store.head = t.store.head
  misses : ((t.under schedule).submit h now).tracker.store.catalog ≠ t.store.catalog →
    t.Misses (t.submit h now) ((t.under schedule).submit h now) (t.again schedule h now)

theorem insert_ne_of_none (new : t.store.catalog.find? r.hash = none) :
    t.store.catalog.insert r ≠ t.store.catalog := by
  intro same
  have m : r ∈ t.store.catalog.insert r := mem_insert_of_none new
  rw [same] at m
  cases new.symm.trans m

theorem under_withCalls (up : t.connection.outages = fun _ _ => false) (n : Nat) :
    ((t.under schedule).withCalls n).under (fun _ _ => false) = t.withCalls n := by
  rw [under, under, withCalls, withCalls, ← up]
  rfl

theorem chooses_filed (rooted : t.Rooted g) (said : t.verdict h now = .ok (.sound r)) (n : Nat) :
    (t.filed r n).Chooses r ((t.filed r n).choose r) := by
  obtain ⟨-, new, parent, link⟩ := Params.sound_of_run_examine (c := t.store.catalog) said
  have rooted' : (t.filed r n).Rooted g := ⟨rooted.hidden, rooted.grown.insert link⟩
  exact (choose_chooses rooted' (mem_insert_of_none new)).2

/-- Without outages a sound header that outweighs the head becomes it. Another one is stored and
nothing else happens. -/
theorem once_cases (rooted : t.Rooted g) (sure : t.connection.Dependable)
    (said : t.verdict h now = .ok (.sound r)) :
    r.Outweighs t.store.head ∧ (t.submit h now).tracker.store.head = r ∧
        (t.submit h now).tracker.store.catalog = t.store.catalog.insert r ∨
      ¬r.Outweighs t.store.head ∧ (t.filed r 0).Keeps (t.submit h now) := by
  have up (call : Nat) (op : Operation) : t.connection.outages call op = false := by
    rw [sure.faultless]
  obtain ⟨n, filed⟩ := submit_of_sound rooted.hidden (up · .get) (up · .put) said
  have chooses := chooses_filed rooted said n
  rw [← filed] at chooses
  cases chooses with
  | failed _ faulty _ => exact absurd ((resumes_filed t r n).dependable sure) faulty
  | stayed _ lighter keeps =>
    exact .inr ⟨lighter, keeps.catalog, keeps.head, keeps.window, keeps.events⟩
  | moved _ _ heavier _ catalog head _ _ => exact .inl ⟨heavier, head, catalog⟩

/-- Without outages the head stays exactly if a sound header does not outweigh it. -/
theorem head_once_iff (rooted : t.Rooted g) (sure : t.connection.Dependable)
    (said : t.verdict h now = .ok (.sound r)) :
    (t.submit h now).tracker.store.head = t.store.head ↔ ¬r.Outweighs t.store.head := by
  rcases once_cases rooted sure said with ⟨heavier, head, -⟩ | ⟨lighter, keeps⟩
  · refine ⟨fun same => ?_, fun lighter => absurd heavier lighter⟩
    have same : r = t.store.head := head.symm.trans same
    exact absurd (same ▸ heavier) (Nat.lt_irrefl _)
  · exact ⟨fun _ => lighter, fun _ => keeps.head⟩

/-- A submission that fails stopped with nothing done, or filed the record of a sound header. -/
theorem failed_cases (rooted : t.Rooted g)
    (failed : (t.submit h now).result = .error (.failed (.store e))) :
    (∃ n, (t.submit h now).tracker = t.withCalls n ∧ (t.submit h now).events = []) ∨
      ∃ r, t.verdict h now = .ok (.sound r) ∧ (t.filed r 0).Keeps (t.submit h now) := by
  rcases submit_cases rooted.hidden h now with ⟨n, result, made, -⟩ | ⟨n, r, said, made⟩
  · rw [made]
    exact .inl ⟨n, rfl, rfl⟩
  · have chooses := chooses_filed rooted said n
    rw [← made] at chooses
    cases chooses with
    | failed _ _ keeps =>
      exact .inr ⟨r, said, keeps.catalog, keeps.head, keeps.window, keeps.events⟩
    | stayed result _ _ => cases failed.symm.trans result
    | moved _ result _ _ _ _ _ _ => cases failed.symm.trans result

/-- Where the first attempt did nothing, the second one does what a single one does. -/
theorem heals_of_stopped (rooted : t.Rooted g) (up : t.connection.outages = fun _ _ => false)
    {n : Nat} (still : ((t.under schedule).submit h now).tracker = (t.under schedule).withCalls n)
    (events : ((t.under schedule).submit h now).events = []) :
    (t.submit h now).Heals ((t.under schedule).submit h now) (t.again schedule h now) := by
  obtain ⟨k, same⟩ := submit_withCalls rooted.hidden up n h now
  have made : t.again schedule h now = (t.submit h now).withCalls k := by
    rw [again, still, under_withCalls up, same]
  rw [made]
  refine ⟨rfl, rfl, rfl, ?_⟩
  rw [events]
  rfl

/-- Where the first attempt stored a record, the second one finds a duplicate. -/
theorem misses_of_filed (rooted : t.Rooted g) (sure : t.connection.Dependable)
    (said : t.verdict h now = .ok (.sound r))
    (keeps : ((t.under schedule).filed r 0).Keeps ((t.under schedule).submit h now)) :
    t.Misses (t.submit h now) ((t.under schedule).submit h now) (t.again schedule h now) := by
  obtain ⟨own, new, -⟩ := Params.sound_of_run_examine (c := t.store.catalog) said
  have known : ((t.under schedule).submit h now).tracker.store.find? h.hash = some r := by
    have m : r ∈ t.store.catalog.insert r := mem_insert_of_none new
    rw [Store.find?, keeps.catalog, ← own]
    exact m
  -- the second attempt goes no further than the check for duplicates
  have rooted' := ((rooted.under schedule).submit h now).under fun _ _ => false
  obtain ⟨k, made⟩ := submit_of_known rooted'.hidden (fun _ => rfl) known now
  have once : (t.submit h now).tracker.store.catalog = t.store.catalog.insert r := by
    rcases once_cases rooted sure said with ⟨-, -, catalog⟩ | ⟨-, still⟩
    · exact catalog
    · exact still.catalog
  rw [← again] at made
  rw [made]
  refine ⟨rfl, keeps.catalog.trans once.symm, keeps.head, keeps.window, ?_⟩
  rw [keeps.events]
  rfl

theorem retries_of_filed (rooted : t.Rooted g) (sure : t.connection.Dependable)
    (said : t.verdict h now = .ok (.sound r))
    (keeps : ((t.under schedule).filed r 0).Keeps ((t.under schedule).submit h now)) :
    t.Retries schedule h now := by
  have misses := misses_of_filed rooted sure said keeps
  refine ⟨⟨fun heals => .inr (heals.head.symm.trans misses.head), ?_⟩, fun _ => misses⟩
  rintro (same | same)
  · -- a record that was filed was not stored before
    obtain ⟨-, new, -⟩ := Params.sound_of_run_examine (c := t.store.catalog) said
    exact absurd (keeps.catalog.symm.trans same) (insert_ne_of_none new)
  · rcases once_cases rooted sure said with ⟨heavier, -, -⟩ | ⟨-, still⟩
    · exact absurd heavier ((head_once_iff rooted sure said).1 same)
    · exact ⟨misses.catalog, misses.head.trans same.symm, misses.window.trans still.window.symm,
        misses.events.trans still.events.symm⟩

theorem retries_of_failed (rooted : t.Rooted g) (sure : t.connection.Dependable)
    (failed : ((t.under schedule).submit h now).result = .error (.failed (.store e))) :
    t.Retries schedule h now := by
  rcases failed_cases (rooted.under schedule) failed with ⟨n, still, events⟩ | ⟨r, said, keeps⟩
  · have same : ((t.under schedule).submit h now).tracker.store.catalog = t.store.catalog := by
      rw [still]
      rfl
    have heals := heals_of_stopped rooted sure.faultless still events
    exact ⟨⟨fun _ => .inl same, fun _ => heals⟩, fun other => absurd same other⟩
  · exact retries_of_filed rooted sure said keeps

/-- Whatever calls failed in the first attempt, after every history without outages, a second
attempt ends where a single one does exactly if the first one stored nothing or the header does not
change the head. Otherwise it finds a duplicate, and the head stays behind. -/
theorem retry_settled (begins : Begins p (fun _ _ => false) t) (submissions : List Submission)
    (failed : (((t.after submissions).under schedule).submit h now).result =
      .error (.failed (.store e))) : (t.after submissions).Retries schedule h now := by
  have sure := (resumes_after begins.rooted submissions).dependable begins.dependable
  exact retries_of_failed (begins.rooted.after submissions) sure failed

/-- Where the head cannot be read, the record of a sound header is stored and its submission
fails. -/
theorem submit_of_headless (rooted : t.Rooted g) (said : t.verdict h now = .ok (.sound r)) :
    ∃ n, (t.under fun _ op => op = .chainHead).submit h now =
      ⟨.error (.failed (.store (.medium .unplugged))), [],
        (t.under fun _ op => op = .chainHead).filed r n⟩ := by
  obtain ⟨n, filed⟩ := submit_of_sound (t := t.under fun _ op => op = .chainHead) rooted.hidden
    (fun _ => rfl) (fun _ => rfl) said
  exact ⟨n + 1, filed.trans rfl⟩

/-- On the unit test network, the header mined on the first one is sound and outweighs the head. -/
theorem verdict_unitTestNext {outages : Nat → Operation → Bool}
    (begins : Begins (.unitTestSpan 11) outages t) :
    ∃ r, t.verdict Params.unitTestNext 1231006565 = .ok (.sound r) ∧
      r.Outweighs t.store.head := by
  obtain ⟨ready, admits⟩ := admits_unitTestNext (by decide) begins
  have grown := begins.rooted.grown
  obtain ⟨r, said⟩ := Params.run_examine_of_admits grown (by decide) ready (by decide) admits
    t.store.size
  obtain ⟨own, -, parent, link⟩ := Params.sound_of_run_examine said
  have found := link.found
  have next : (Params.unitTestSpan 11).genesis.hash = Params.unitTestNext.previous :=
    Params.hash_genesis_unitTest
  rw [own, begins.find?_eq, if_pos next] at found
  obtain rfl := Option.some.inj found
  refine ⟨r, ?_, grown.outweighs_parent link⟩
  rw [verdict, begins.records.1]
  exact said

/-- So it is on the unit test network where the head cannot be read in the first attempt. -/
theorem retry_settled_unitTestNext :
    ∃ t, Begins (.unitTestSpan 11) (fun _ _ => false) t ∧
      (((t.after []).under fun _ op => op = .chainHead).submit Params.unitTestNext
        1231006565).result = .error (.failed (.store (.medium .unplugged))) ∧
      (t.after []).Retries (fun _ op => op = .chainHead) Params.unitTestNext 1231006565 := by
  have sound : (Params.unitTestSpan 11).Sound := by decide
  obtain ⟨t, begins⟩ := exists_begins (fun _ _ => false) sound (by decide) rfl
  obtain ⟨r, said, -⟩ := verdict_unitTestNext begins
  obtain ⟨n, first⟩ := submit_of_headless begins.rooted said
  have failed := congrArg Reply.result first
  exact ⟨t, begins, failed, retry_settled begins [] failed⟩

/-- There the retry does not heal: the head stays the first record. -/
theorem retry_misses_head :
    ∃ t, Begins (.unitTestSpan 11) (fun _ _ => false) t ∧
      ((t.under fun _ op => op = .chainHead).submit Params.unitTestNext 1231006565).result =
        .error (.failed (.store (.medium .unplugged))) ∧
      (t.again (fun _ op => op = .chainHead) Params.unitTestNext 1231006565).result =
        .ok .duplicate ∧
      (t.again (fun _ op => op = .chainHead) Params.unitTestNext 1231006565).tracker.store.head ≠
        (t.submit Params.unitTestNext 1231006565).tracker.store.head := by
  have sound : (Params.unitTestSpan 11).Sound := by decide
  obtain ⟨t, begins⟩ := exists_begins (fun _ _ => false) sound (by decide) rfl
  obtain ⟨r, said, heavier⟩ := verdict_unitTestNext begins
  obtain ⟨n, first⟩ := submit_of_headless begins.rooted said
  have keeps : ((t.under fun _ op => op = .chainHead).filed r 0).Keeps
      ((t.under fun _ op => op = .chainHead).submit Params.unitTestNext 1231006565) := by
    rw [first]
    exact ⟨rfl, rfl, rfl, rfl⟩
  have misses := misses_of_filed begins.rooted begins.dependable said keeps
  refine ⟨t, begins, congrArg Reply.result first, misses.result, ?_⟩
  rw [misses.head]
  intro same
  exact (head_once_iff begins.rooted begins.dependable said).1 same.symm heavier

end Tracker

end HeaviestChain
