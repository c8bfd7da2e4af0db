import HeaviestChain.Proofs.Tracker.Choice
import HeaviestChain.Proofs.Tracker.Examination
import HeaviestChain.Tracker.Basic

/-!
What a submission can do. It stops before a record is stored, or stores the record that the
examination made and lets it be chosen. The choice changes nothing but the calls made, or makes the
record the head and tells of the way there.
-/

namespace HeaviestChain.Tracker

open Connection

variable {g r : Record} {t u v : Tracker} {h : Header} {now : Int}

/-- The store of a tracker. -/
abbrev store (t : Tracker) : Store := t.connection.store

/-- The tracker at another count of calls. -/
def withCalls (t : Tracker) (calls : Nat) : Tracker := t.reached (t.connection.withCalls calls)

/-- The tracker after a record is stored. -/
def filed (t : Tracker) (r : Record) (calls : Nat) : Tracker :=
  t.reached { t.connection.withCalls calls with store := t.store.put r }

/-- What the stored records alone say of a header. -/
def verdict (t : Tracker) (h : Header) (now : Int) : Except Failure Verdict :=
  (t.params.examine t.store.size h now).run t.store.find?

/-- A tracker that misses no stored record, over records that grew from a first one. -/
structure Rooted (g : Record) (t : Tracker) : Prop where
  hidden : t.connection.hidden = []
  grown : t.store.catalog.Grown g

/-- Whether a tracker can be another one after calls. -/
structure Resumes (u t : Tracker) : Prop where
  params : u.params = t.params
  continues : u.connection.Continues t.connection
  dependable : t.connection.Dependable → u.connection.Dependable

theorem Resumes.refl (t : Tracker) : t.Resumes t := ⟨rfl, .refl _, id⟩

theorem Resumes.trans (hv : v.Resumes u) (hu : u.Resumes t) : v.Resumes t :=
  ⟨hv.params.trans hu.params, hv.continues.trans hu.continues, hv.dependable ∘ hu.dependable⟩

theorem resumes_withCalls (t : Tracker) (n : Nat) : (t.withCalls n).Resumes t :=
  ⟨rfl, continues_withCalls _ n, (dependable_withCalls n).2⟩

theorem resumes_filed (t : Tracker) (r : Record) (n : Nat) : (t.filed r n).Resumes t :=
  ⟨rfl, ⟨rfl, rfl⟩, fun sure => ⟨sure.faultless, sure.writable.put r⟩⟩

/-- An examination reads and comes to what the stored records say, unless an outage ends it. -/
theorem examine_eq (hidden : t.connection.hidden = []) (h : Header) (now : Int) :
    ∃ n, (t.examine h now).2 = t.withCalls n ∧
      ((t.examine h now).1 = t.verdict h now ∨
        ¬t.connection.Dependable ∧
          (t.examine h now).1 = .error (.store (.medium .unplugged))) := by
  obtain ⟨n, e⟩ := (t.params.examine t.store.size h now).resolve_snd hidden
  have found := (t.params.examine t.store.size h now).resolve_fst hidden
  exact ⟨n, congrArg t.reached e, found⟩

/-- The results of submissions that stop before a record is stored. -/
inductive Stops (t : Tracker) (h : Header) (now : Int) : Except SubmitError Outcome → Prop where
  | known (found : t.verdict h now = .ok .known) : Stops t h now (.ok .duplicate)
  | rejected {reason : Rejection} (found : t.verdict h now = .ok (.rejected reason)) :
      Stops t h now (.error (.rejected reason))
  | failed {f : Failure} (cause : t.verdict h now = .error f ∨ ¬t.connection.Dependable) :
      Stops t h now (.error (.failed f))

/-- A submission stops early or stores the record of a sound header and chooses. -/
theorem submit_cases (hidden : t.connection.hidden = []) (h : Header) (now : Int) :
    (∃ n result, t.submit h now = ⟨result, [], t.withCalls n⟩ ∧ Stops t h now result) ∨
      ∃ n r, t.verdict h now = .ok (.sound r) ∧ t.submit h now = (t.filed r n).choose r := by
  obtain ⟨n, after, found⟩ := examine_eq hidden h now
  unfold submit
  generalize t.examine h now = examined at after found
  obtain ⟨result, u⟩ := examined
  obtain rfl : u = t.withCalls n := after
  cases result with
  | error f =>
    refine .inl ⟨n, _, rfl, .failed ?_⟩
    rcases found with found | ⟨faulty, -⟩
    · exact .inl found.symm
    · exact .inr faulty
  | ok said =>
    have found : t.verdict h now = .ok said := by
      rcases found with found | ⟨-, found⟩
      · exact found.symm
      · cases found
    cases said with
    | known => exact .inl ⟨n, _, rfl, .known found⟩
    | rejected reason => exact .inl ⟨n, _, rfl, .rejected found⟩
    | sound r =>
      by_cases fails : (t.connection.withCalls n).fails .put
      · refine .inl ⟨n + 1, .error (.failed (.store (.medium .unplugged))), ?_, .failed ?_⟩
        · simp only [file, withCalls, reached, put_eq, fails, if_true]
          rfl
        · exact .inr fun sure => not_dependable_of_fails fails ((dependable_withCalls n).2 sure)
      · refine .inr ⟨n + 1, r, found, ?_⟩
        simp only [file, withCalls, reached, put_eq, fails]
        rfl

/-- Whether a reply leaves records, head and window as they are and nothing is heard. -/
structure Keeps (t : Tracker) (reply : Reply) : Prop where
  catalog : reply.tracker.store.catalog = t.store.catalog
  head : reply.tracker.store.head = t.store.head
  window : reply.tracker.window = t.window
  events : reply.events = []

theorem keeps_answer {c : Connection} (catalog : c.store.catalog = t.store.catalog)
    (head : c.store.head = t.store.head) (result : Except SubmitError Outcome) :
    t.Keeps (t.answer c result) := ⟨catalog, head, rfl, rfl⟩

theorem keeps_withCalls (t : Tracker) (n : Nat) (result : Except SubmitError Outcome) :
    t.Keeps ⟨result, [], t.withCalls n⟩ := ⟨rfl, rfl, rfl, rfl⟩

/-- What moving the head to a record comes to: the outcome, the way from the old head, and the
window of version signals. -/
inductive Moves (t : Tracker) (r : Record) : Outcome → Fork → SignalWindow → Prop where
  | extended (link : t.store.catalog.Links t.store.head r) :
      Moves t r (.extendedHead r.height) ⟨t.store.head, [], [r]⟩ (t.window.add r.header.version)
  | reorganized {f : Fork} (apart : r.header.previous ≠ t.store.head.hash) :
      Moves t r (.reorganized f.base.height f.left.length f.entered.length) f
        (t.window.refill (t.window.latestOf (t.store.catalog.branch r)))

/-- What choosing a filed record does. -/
inductive Chooses (t : Tracker) (r : Record) (reply : Reply) : Prop where
  | failed {f : Failure} (result : reply.result = .error (.failed f))
      (faulty : ¬t.connection.Dependable) (keeps : t.Keeps reply)
  | stayed (result : reply.result =
        .ok (if r ∈ t.store.catalog.branch t.store.head then .duplicate else .sideBranch r.height))
      (lighter : ¬r.Outweighs t.store.head) (keeps : t.Keeps reply)
  | moved {o : Outcome} {f : Fork} {w : SignalWindow} (moves : t.Moves r o f w)
      (result : reply.result = .ok o) (heavier : r.Outweighs t.store.head)
      (joins : t.store.catalog.Joins t.store.head r f)
      (catalog : reply.tracker.store.catalog = t.store.catalog)
      (head : reply.tracker.store.head = r) (window : reply.tracker.window = w)
      (events : reply.events = changes f)

/-- Making a record the head tells of the fork to it, or a call failed and nothing happened. -/
theorem advance_chooses {c : Connection} {w : SignalWindow} (size : w.size = t.window.size)
    {o : Outcome} {f : Fork} (moves : t.Moves r o f w) (m : r ∈ t.store.catalog)
    (same : c.store = t.store) (continues : c.Continues t.connection)
    (heavier : r.Outweighs t.store.head) (joins : t.store.catalog.Joins t.store.head r f) :
    (t.advance c r w size o (changes f)).tracker.Resumes t ∧
      t.Chooses r (t.advance c r w size o (changes f)) := by
  have sure (h : t.connection.Dependable) : c.Dependable :=
    ⟨continues.outages.trans h.faultless, same ▸ h.writable⟩
  have catalog : c.store.catalog = t.store.catalog := by rw [same]
  obtain ⟨d, after, kept, ⟨e, head, still⟩ | ⟨e, failed, head, faulty⟩⟩ :=
    c.setChainHead_of_mem (r := r) (same ▸ m)
  · unfold advance
    rw [e]
    exact ⟨⟨rfl, after.trans continues, still ∘ sure⟩,
      .moved moves rfl heavier joins (kept.trans catalog) head rfl rfl⟩
  · unfold advance
    rw [failed]
    refine ⟨⟨rfl, after.trans continues, fun h => absurd (sure h) faulty⟩, ?_⟩
    refine .failed rfl (fun h => faulty (sure h)) (keeps_answer (kept.trans catalog) ?_ _)
    rw [head, same]

/-- There is a choice, and to follow it over the same records has one of the effects. -/
theorem exists_choice (rooted : t.Rooted g) (m : r ∈ t.store.catalog) :
    ∃ choice, (Choice.between t.window t.store.size t.store.head r).run t.store.find? =
        .ok choice ∧
      ∀ c : Connection, c.store = t.store → c.Continues t.connection →
        (t.follow c r choice).tracker.Resumes t ∧ t.Chooses r (t.follow c r choice) := by
  have mh := t.store.head_mem
  by_cases heavier : r.Outweighs t.store.head
  · by_cases next : r.header.previous = t.store.head.hash
    · have link := rooted.grown.links_of_outweighs mh m heavier next
      refine ⟨.extend, Choice.run_between_of_extends heavier next _, ?_⟩
      intro c same continues
      exact advance_chooses (SignalWindow.size_add _ _) (.extended link) m same continues heavier
        link.joins
    · obtain ⟨f, found, joins⟩ :=
        Choice.run_between_of_rival (w := t.window) rooted.grown mh m heavier next t.store.size
      refine ⟨_, found, ?_⟩
      intro c same continues
      exact advance_chooses (SignalWindow.size_refill _ _) (.reorganized next) m same continues
        heavier joins
  · refine ⟨_, Choice.run_between_of_lighter rooted.grown mh m heavier _, ?_⟩
    intro c same continues
    have resumes : (t.reached c).Resumes t := by
      refine ⟨rfl, continues, fun h => ⟨continues.outages.trans h.faultless, ?_⟩⟩
      exact same ▸ h.writable
    have keeps (result : Except SubmitError Outcome) : t.Keeps (t.answer c result) :=
      keeps_answer (by rw [same]) (by rw [same]) result
    by_cases on : r ∈ t.store.catalog.branch t.store.head
    · rw [if_pos on]
      exact ⟨resumes, .stayed (by rw [if_pos on]; rfl) heavier (keeps _)⟩
    · rw [if_neg on]
      exact ⟨resumes, .stayed (by rw [if_neg on]; rfl) heavier (keeps _)⟩

/-- A filed record is chosen, or a call failed and nothing happened. -/
theorem choose_chooses (rooted : t.Rooted g) (m : r ∈ t.store.catalog) :
    (t.choose r).tracker.Resumes t ∧ t.Chooses r (t.choose r) := by
  obtain ⟨choice, found, follows⟩ := exists_choice rooted m
  unfold choose
  rw [chainHead_eq]
  by_cases fails : t.connection.fails .chainHead
  · simp only [fails, if_true]
    exact ⟨resumes_withCalls t _, .failed rfl (not_dependable_of_fails fails)
      (keeps_withCalls t _ _)⟩
  · simp only [fails, if_false, Bool.false_eq_true]
    obtain ⟨n, e | ⟨faulty, e⟩⟩ := Walk.resolve_of_run_eq_ok
      (c := t.connection.withCalls (t.connection.calls + 1)) rooted.hidden found
    · rw [store_withCalls, e]
      exact follows _ rfl (continues_withCalls t.connection n)
    · rw [store_withCalls, e]
      exact ⟨resumes_withCalls t n, .failed rfl (by simpa using faulty) (keeps_withCalls t n _)⟩

/-- What a submission does. -/
inductive Submits (t : Tracker) (h : Header) (now : Int) (reply : Reply) : Prop where
  | stopped (stops : t.Stops h now reply.result) (keeps : t.Keeps reply)
  | filed {p r : Record} {n : Nat} (said : t.verdict h now = .ok (.sound r)) (own : r.header = h)
      (new : t.store.catalog.find? r.hash = none) (link : t.store.catalog.Links p r)
      (chooses : (t.filed r n).Chooses r reply)

theorem Rooted.resumes (rooted : t.Rooted g) (resumes : u.Resumes t)
    (grown : u.store.catalog.Grown g) : u.Rooted g :=
  ⟨resumes.continues.hidden.trans rooted.hidden, grown⟩

/-- A submission stops with nothing done, or files a child of a filed record and chooses it. -/
theorem submit_submits (rooted : t.Rooted g) (h : Header) (now : Int) :
    (t.submit h now).tracker.Resumes t ∧ t.Submits h now (t.submit h now) := by
  rcases submit_cases rooted.hidden h now with ⟨n, result, e, stops⟩ | ⟨n, r, said, e⟩
  · rw [e]
    exact ⟨resumes_withCalls t n, .stopped stops (keeps_withCalls t n result)⟩
  · obtain ⟨own, new, p, link⟩ := Params.sound_of_run_examine (c := t.store.catalog) said
    have rooted' : (t.filed r n).Rooted g :=
      rooted.resumes (resumes_filed t r n) (rooted.grown.insert link)
    have m : r ∈ t.store.catalog.insert r := Catalog.mem_insert_of_none new
    obtain ⟨resumes, chooses⟩ := choose_chooses rooted' m
    rw [e]
    exact ⟨resumes.trans (resumes_filed t r n), .filed said own new link chooses⟩

end HeaviestChain.Tracker
