import HeaviestChain.Proofs.Chain.ArrivalOrder
import HeaviestChain.Proofs.Tracker.Traffic

/-!
Interleaved submissions. Without outages the steps of submissions may come in any order: after each
of them what was heard leads from the first record to the chain up to the head, the window describes
that chain, no record is connected again before it was disconnected, and what was accepted is stored.
The head is behind only while the record of some submission is stored and not yet compared with it.
-/

namespace HeaviestChain

open Catalog

/-! ### Replays -/

section Replays

variable {chain next : List Record} {a r last : Record} {e : Event} {events : List Event}

/-- Whether heights grow along a chain. -/
def Ascends (chain : List Record) : Prop :=
  chain.Pairwise fun a b => a.height.toNat < b.height.toNat

theorem Ascends.height_le (ascends : Ascends chain) (newest : chain.getLast? = some last)
    (m : a ∈ chain) : a.height.toNat ≤ last.height.toNat := by
  obtain ⟨older, rfl⟩ := List.getLast?_eq_some_iff.1 newest
  rcases List.mem_append.1 m with m | m
  · exact Nat.le_of_lt ((List.pairwise_append.1 ascends).2.2 a m last (List.mem_singleton_self _))
  · rw [List.mem_singleton.1 m]

theorem apply_connected_eq_some (fits : Event.apply chain (.connected r) = some next) :
    ∃ last, chain.getLast? = some last ∧ r.height.toNat = last.height.toNat + 1 ∧
      next = chain ++ [r] := by
  rw [Event.apply] at fits
  cases newest : chain.getLast? with
  | none =>
    rw [newest] at fits
    cases fits
  | some last =>
    simp only [newest, Option.ite_none_right_eq_some, Option.some.injEq] at fits
    exact ⟨last, rfl, fits.1.2, fits.2.symm⟩

theorem apply_disconnected_eq_some (fits : Event.apply chain (.disconnected r) = some next) :
    chain = next ++ [r] := by
  simp only [Event.apply, Option.ite_none_right_eq_some, Option.some.injEq] at fits
  obtain ⟨newest, rfl⟩ := fits
  obtain ⟨older, rfl⟩ := List.getLast?_eq_some_iff.1 newest
  rw [List.dropLast_concat]

theorem Ascends.apply (ascends : Ascends chain) (fits : e.apply chain = some next) :
    Ascends next := by
  cases e with
  | connected r =>
    obtain ⟨last, newest, above, rfl⟩ := apply_connected_eq_some fits
    refine List.pairwise_append.2 ⟨ascends, List.pairwise_singleton _ _, ?_⟩
    intro a m b own
    rw [List.mem_singleton.1 own, above]
    exact Nat.lt_succ_of_le (ascends.height_le newest m)
  | disconnected r =>
    rw [apply_disconnected_eq_some fits] at ascends
    exact (List.pairwise_append.1 ascends).1

theorem Ascends.replay (ascends : Ascends chain) (fits : replay events chain = some next) :
    Ascends next := by
  induction events generalizing chain with
  | nil => exact Option.some.inj fits ▸ ascends
  | cons e events ih =>
    rw [replay_cons, Option.bind_eq_some_iff] at fits
    obtain ⟨mid, applied, fits⟩ := fits
    exact ih (ascends.apply applied) fits

/-- A record stays on a chain until it is disconnected. -/
theorem mem_of_replay (fits : replay events chain = some next) (m : a ∈ chain)
    (stays : .disconnected a ∉ events) : a ∈ next := by
  induction events generalizing chain with
  | nil => exact Option.some.inj fits ▸ m
  | cons e events ih =>
    rw [replay_cons, Option.bind_eq_some_iff] at fits
    obtain ⟨mid, applied, fits⟩ := fits
    rw [List.mem_cons, not_or] at stays
    refine ih fits ?_ stays.2
    cases e with
    | connected r =>
      obtain ⟨-, -, -, rfl⟩ := apply_connected_eq_some applied
      exact List.mem_append_left _ m
    | disconnected r =>
      rw [apply_disconnected_eq_some applied] at m
      rcases List.mem_append.1 m with m | m
      · exact m
      · rw [List.mem_singleton.1 m] at stays
        exact absurd rfl stays.1

/-- A record is connected again only after it was disconnected: its height has a place on a chain
already where it stands. -/
theorem disconnected_of_connected_again {earlier between later : List Event}
    (ascends : Ascends chain)
    (fits : replay (earlier ++ .connected r :: (between ++ .connected r :: later)) chain =
      some next) : .disconnected r ∈ between := by
  simp only [replay_append, replay_cons, Option.bind_eq_some_iff] at fits
  obtain ⟨before, led, upon, applied, behind, led', _, again, -⟩ := fits
  -- otherwise the record stands on the chain below the one that it would be put upon
  by_contra stays
  have ascends' := ((ascends.replay led).apply applied).replay led'
  obtain ⟨-, -, -, rfl⟩ := apply_connected_eq_some applied
  have m := mem_of_replay led' (List.mem_append_right _ (List.mem_singleton_self r)) stays
  obtain ⟨last, newest, above, -⟩ := apply_connected_eq_some again
  exact Nat.not_succ_le_self _ (above ▸ ascends'.height_le newest m)

end Replays

/-! ### Single steps -/

/-- Whether hashes tell the headers of submissions apart. -/
def Submission.Apart (submissions : List Submission) : Prop :=
  ∀ a ∈ submissions, ∀ b ∈ submissions, a.header.hash = b.header.hash → a.header = b.header

/-- Whether a stage fits the records: the record of a sound header is the child of a stored one, and
the record of a header that was stored or accepted is there. -/
def Stage.Fits (g : Record) (c : Catalog) (h : Header) : Stage → Prop
  | .waiting => True
  | .examined r => r.header = h ∧ r.hash ≠ g.hash ∧ ∃ parent, c.Links parent r
  | .filed r => r.header = h ∧ r ∈ c
  | .ended (.ok _) => ∃ r, c.find? h.hash = some r
  | .ended (.error _) => True

theorem Stage.Fits.mono {g : Record} {c d : Catalog} {h : Header} {stage : Stage}
    (fits : stage.Fits g c h) (w : c.Within d) : stage.Fits g d h := by
  cases stage with
  | waiting => trivial
  | examined r =>
    obtain ⟨own, apart, parent, link⟩ := fits
    exact ⟨own, apart, parent, link.mono w⟩
  | filed r => exact ⟨fits.1, w.mem fits.2⟩
  | ended result =>
    cases result with
    | ok outcome =>
      obtain ⟨r, found⟩ := fits
      exact ⟨r, w _ _ found⟩
    | error e => trivial

namespace Tracker

variable {g r x : Record} {p : Params} {t : Tracker} {s : Submission} {stage : Stage}
  {next : Progress}

/-- What a step of a submission does to a tracker. What outweighs the head behind it is the record
that it stored, or did so before and is not the record that it compared with the head. -/
structure Proceeds (g : Record) (t : Tracker) (s : Submission) (stage : Stage) (next : Progress) :
    Prop where
  resumes : next.tracker.Resumes t
  within : t.store.catalog.Within next.tracker.store.catalog
  grown : next.tracker.store.catalog.Grown g
  shows : t.window.Shows t.signals → next.tracker.window.Shows next.tracker.signals
  replay : replay next.events t.store.bestChain = some next.tracker.store.bestChain
  connected : ∀ x, .connected x ∈ next.events → x ∈ next.tracker.store.catalog
  own : ∀ x ∈ next.tracker.store.catalog, x ∈ t.store.catalog ∨ x.header = s.header
  fits : next.stage.Fits g next.tracker.store.catalog s.header
  leads : ∀ x ∈ next.tracker.store.catalog, x.Outweighs next.tracker.store.head →
    next.stage = .filed x ∨ stage ≠ .filed x ∧ x ∈ t.store.catalog ∧ x.Outweighs t.store.head

theorem Rooted.proceeds_quiet (rooted : t.Rooted g) (n : Nat) (early : ∀ x, stage ≠ .filed x)
    {reached : Stage} (fits : reached.Fits g t.store.catalog s.header) :
    t.Proceeds g s stage ⟨reached, [], t.withCalls n⟩ where
  resumes := resumes_withCalls t n
  within := .refl _
  grown := rooted.grown
  shows := id
  replay := rfl
  connected _ heard := absurd heard List.not_mem_nil
  own _ m := .inl m
  fits := fits
  leads x m heavier := .inr ⟨early x, m, heavier⟩

theorem proceeds_waiting (rooted : t.Rooted g) (sure : t.connection.Dependable) (s : Submission) :
    t.Proceeds g s .waiting (t.proceed s .waiting) := by
  obtain ⟨n, e⟩ := examine_of_gets rooted.hidden (fun _ => by rw [sure.faultless]) s.header s.now
  rw [proceed, e]
  cases said : t.verdict s.header s.now with
  | error f => exact rooted.proceeds_quiet n (by simp) trivial
  | ok found =>
    cases found with
    | known =>
      have known := Params.known_of_run_examine (c := t.store.catalog) said
      exact rooted.proceeds_quiet n (by simp) known
    | rejected reason => exact rooted.proceeds_quiet n (by simp) trivial
    | sound r =>
      obtain ⟨own, new, parent, link⟩ := Params.sound_of_run_examine (c := t.store.catalog) said
      refine rooted.proceeds_quiet n (by simp) ⟨own, ?_, parent, link⟩
      intro first
      rw [first] at new
      cases new.symm.trans rooted.grown.first_mem

theorem proceeds_examined (rooted : t.Rooted g) (sure : t.connection.Dependable)
    (fits : (Stage.examined r).Fits g t.store.catalog s.header)
    (only : ∀ x, t.store.catalog.find? r.hash = some x → x = r) :
    t.Proceeds g s (.examined r) (t.proceed s (.examined r)) := by
  obtain ⟨own, -, parent, link⟩ := fits
  have filed : t.file r = (.ok (), t.filed r (t.connection.calls + 1)) :=
    file_of_puts (fun _ => by rw [sure.faultless]) r
  -- a copy of the header may have stored the record meanwhile: then nothing is added
  have stored : r ∈ t.store.catalog.insert r ∧
      ∀ x ∈ t.store.catalog.insert r, x = r ∨ x ∈ t.store.catalog := by
    cases found : t.store.catalog.find? r.hash with
    | none => exact ⟨mem_insert_of_none found, fun x => (mem_insert found).1⟩
    | some x =>
      obtain rfl := only x found
      rw [insert_of_some found]
      exact ⟨found, fun x m => .inr m⟩
  rw [proceed, filed]
  refine ⟨resumes_filed t r _, within_insert _ r, rooted.grown.insert link, ?_, ?_,
    fun _ heard => absurd heard List.not_mem_nil, ?_, ⟨own, stored.1⟩, ?_⟩
  · intro shows
    show t.window.Shows (Record.versions _)
    rw [rooted.bestChain_filed r _]
    exact shows
  · rw [rooted.bestChain_filed r _]
    rfl
  · intro x m
    rcases stored.2 x m with rfl | old
    · exact .inr own
    · exact .inl old
  · intro x m heavier
    rcases stored.2 x m with rfl | old
    · exact .inl rfl
    · exact .inr ⟨by simp, old, heavier⟩

theorem Chooses.mem_of_connected {reply : Reply} (rooted : t.Rooted g) (m : r ∈ t.store.catalog)
    (chooses : t.Chooses r reply) (heard : .connected x ∈ reply.events) :
    x ∈ t.store.catalog := by
  cases chooses with
  | failed _ _ keeps =>
    rw [keeps.events] at heard
    cases heard
  | stayed _ _ keeps =>
    rw [keeps.events] at heard
    cases heard
  | @moved _ f _ _ _ _ joins _ _ _ events =>
    have entered : x ∈ f.entered := by
      rw [events] at heard
      simpa [changes] using heard
    refine rooted.grown.mem_of_mem_branch m x ?_
    rw [joins.entered]
    exact List.mem_append_left _ (List.mem_reverse.2 entered)

theorem proceeds_filed (rooted : t.Rooted g) (sure : t.connection.Dependable)
    (fits : (Stage.filed r).Fits g t.store.catalog s.header) :
    t.Proceeds g s (.filed r) (t.proceed s (.filed r)) := by
  obtain ⟨own, m⟩ := fits
  obtain ⟨resumes, chooses⟩ := choose_chooses rooted m
  have same := chooses.catalog
  -- whatever outweighs the head behind the choice is not the record that was chosen
  have leads (x : Record) (heavier : x.Outweighs (t.choose r).tracker.store.head) :
      x ≠ r ∧ x.Outweighs t.store.head := by
    cases chooses with
    | failed _ faulty _ => exact absurd sure faulty
    | stayed _ lighter keeps =>
      rw [keeps.head] at heavier
      exact ⟨fun own => lighter (own ▸ heavier), heavier⟩
    | moved _ _ moved _ _ head _ _ =>
      rw [head] at heavier
      exact ⟨fun own => Nat.lt_irrefl _ (own ▸ heavier), Nat.lt_trans moved heavier⟩
  refine ⟨resumes, ?_, ?_, chooses.shows, chooses.replay_events rooted, ?_, ?_, ?_, ?_⟩
  · rw [proceed, same]
    exact .refl _
  · rw [proceed, same]
    exact rooted.grown
  · intro x heard
    rw [proceed, same]
    exact chooses.mem_of_connected rooted m heard
  · intro x m
    rw [proceed, same] at m
    exact .inl m
  · show (Stage.ended (t.choose r).result).Fits g (t.choose r).tracker.store.catalog s.header
    rw [same]
    cases (t.choose r).result with
    | ok outcome => exact ⟨r, own ▸ m⟩
    | error e => trivial
  · intro x m heavier
    rw [proceed, same] at m
    obtain ⟨other, heavier⟩ := leads x heavier
    exact .inr ⟨fun same => other (Stage.filed.inj same).symm, m, heavier⟩

end Tracker

/-! ### Steps in any order -/

namespace Traffic

variable {g r : Record} {p : Params} {t : Tracker} {u : Traffic} {s : Submission} {stage : Stage}
  {next : Progress} {submissions : List Submission} {i : Nat}

/-- What every step of submissions passes on: the records are those of submitted headers below the
first one, the events so far lead to the chain up to the head, which the window shows, and what
outweighs the head is the record of a submission that is stored and not yet compared with it. -/
structure Orderly (p : Params) (g : Record) (submissions : List Submission) (u : Traffic) :
    Prop where
  params : u.tracker.params = p
  rooted : u.tracker.Rooted g
  sure : u.tracker.connection.Dependable
  shows : u.tracker.window.Shows u.tracker.signals
  replay : replay u.heard [g] = some u.tracker.store.bestChain
  connected : ∀ x, .connected x ∈ u.heard → x ∈ u.tracker.store.catalog
  submitted : ∀ x ∈ u.tracker.store.catalog, x = g ∨ ∃ s ∈ submissions, s.header = x.header
  flights : ∀ flight ∈ u.flights, flight.submission ∈ submissions ∧
    flight.stage.Fits g u.tracker.store.catalog flight.submission.header
  leads : ∀ x ∈ u.tracker.store.catalog, x.Outweighs u.tracker.store.head →
    ∃ flight ∈ u.flights, flight.stage = .filed x

theorem orderly_begin (begins : Tracker.Begins p (fun _ _ => false) t)
    (submissions : List Submission) :
    (begin t submissions).Orderly p t.store.head submissions := by
  have rooted := begins.rooted
  refine ⟨begins.records.1, rooted, begins.dependable, begins.shows_after [], ?_,
    fun _ heard => absurd heard List.not_mem_nil, ?_, ?_, ?_⟩
  · have first : t.store.bestChain = [t.store.head] := by
      rw [Store.bestChain, chain, rooted.grown.branch_first]
      rfl
    show some [t.store.head] = some t.store.bestChain
    rw [first]
  · exact fun x m => .inl (begins.eq_head m)
  · intro flight m
    obtain ⟨s, submitted, rfl⟩ := List.mem_map.1 m
    exact ⟨submitted, trivial⟩
  · intro x m heavier
    rw [begins.eq_head m] at heavier
    exact absurd heavier (Nat.lt_irrefl _)

theorem Orderly.set (orderly : u.Orderly p g submissions) (found : u.flights[i]? = some ⟨s, stage⟩)
    (proceeds : u.tracker.Proceeds g s stage next) : (u.set i s next).Orderly p g submissions := by
  have inside : i < u.flights.length := (List.getElem?_eq_some_iff.1 found).1
  obtain ⟨submitted, -⟩ := orderly.flights _ (List.mem_of_getElem? found)
  refine ⟨proceeds.resumes.params.trans orderly.params,
    orderly.rooted.resumes proceeds.resumes proceeds.grown,
    proceeds.resumes.dependable orderly.sure, proceeds.shows orderly.shows, ?_, ?_, ?_, ?_, ?_⟩
  · rw [Traffic.set, replay_append, orderly.replay]
    exact proceeds.replay
  · intro x heard
    rcases List.mem_append.1 heard with heard | heard
    · exact proceeds.within.mem (orderly.connected x heard)
    · exact proceeds.connected x heard
  · intro x m
    rcases proceeds.own x m with old | own
    · exact orderly.submitted x old
    · exact .inr ⟨s, submitted, own.symm⟩
  · intro flight m
    rcases List.mem_or_eq_of_mem_set m with m | rfl
    · obtain ⟨submitted, fits⟩ := orderly.flights flight m
      exact ⟨submitted, fits.mono proceeds.within⟩
    · exact ⟨submitted, proceeds.fits⟩
  · intro x m heavier
    rcases proceeds.leads x m heavier with stored | ⟨early, old, heavier⟩
    · exact ⟨⟨s, next.stage⟩, List.mem_set inside _, stored⟩
    · -- the flight that stored the record is another one, and still there
      obtain ⟨flight, m, stored⟩ := orderly.leads x old heavier
      refine ⟨flight, mem_flights_set found m ?_ s next, stored⟩
      rintro rfl
      exact early stored

/-- Where hashes tell the submitted headers apart, what is stored under the hash of an examined
header is its record. -/
theorem Orderly.eq_of_find? (orderly : u.Orderly p g submissions)
    (apart : Submission.Apart submissions) (m : s ∈ submissions)
    (fits : (Stage.examined r).Fits g u.tracker.store.catalog s.header) {x : Record}
    (found : u.tracker.store.catalog.find? r.hash = some x) : x = r := by
  obtain ⟨own, later, parent, link⟩ := fits
  have same : x.hash = r.hash := hash_of_find? found
  have m' := mem_of_find? found
  rcases orderly.submitted x m' with rfl | ⟨s', submitted, own'⟩
  · exact absurd same.symm later
  have header : x.header = r.header := by
    rw [own, ← own']
    refine apart s' submitted s m ?_
    rw [own', ← own]
    exact same
  have later' : x ≠ g := by
    rintro rfl
    exact later same.symm
  -- both have the parent that their header names, and a parent has one record for a header
  obtain ⟨q, link'⟩ := orderly.rooted.grown.parent m' later'
  obtain rfl : q = parent := by
    have found' := link'.found
    rw [header] at found'
    exact Option.some.inj (found'.symm.trans link.found)
  exact link'.eq_of_header_eq link header

theorem Orderly.advance (apart : Submission.Apart submissions)
    (orderly : u.Orderly p g submissions) (i : Nat) : (u.advance i).Orderly p g submissions := by
  cases found : u.flights[i]? with
  | none =>
    rw [Traffic.advance, found]
    exact orderly
  | some flight =>
    obtain ⟨s, stage⟩ := flight
    obtain ⟨submitted, fits⟩ := orderly.flights _ (List.mem_of_getElem? found)
    rw [advance_of_getElem? found]
    refine orderly.set found ?_
    cases stage with
    | waiting => exact Tracker.proceeds_waiting orderly.rooted orderly.sure s
    | examined r =>
      exact Tracker.proceeds_examined orderly.rooted orderly.sure fits fun x found =>
        orderly.eq_of_find? apart submitted fits found
    | filed r => exact Tracker.proceeds_filed orderly.rooted orderly.sure fits
    | ended result =>
      exact orderly.rooted.proceeds_quiet u.tracker.connection.calls (by simp) fits

theorem Orderly.run (apart : Submission.Apart submissions)
    (orderly : u.Orderly p g submissions) (schedule : List Nat) :
    (u.run schedule).Orderly p g submissions := by
  induction schedule generalizing u with
  | nil => exact orderly
  | cons i schedule ih => exact ih (orderly.advance apart i)

/-- Whether submissions under way are in order: the events so far lead from the first record to the
chain up to the head, the window describes that chain, a record that is connected twice was
disconnected in between, and what was accepted is stored. Unless a stored record is yet to be
compared with the head, no record has more work. -/
structure Consistent (p : Params) (u : Traffic) : Prop where
  replay : ∃ g, Record.genesis p.genesis = .ok g ∧
    u.tracker.store.Traces g u.tracker.store.head ∧
    replay u.heard [g] = some u.tracker.store.bestChain
  window : u.tracker.window.Describes p.signalWindow.toNat u.tracker.store
  once : ∀ earlier a between b later,
    u.heard = earlier ++ .connected a :: (between ++ .connected b :: later) → a.hash = b.hash →
      .disconnected a ∈ between
  stored : ∀ flight ∈ u.flights, ∀ outcome, flight.stage = .ended (.ok outcome) →
    ∃ r, u.tracker.store.find? flight.submission.header.hash = some r
  heaviest : (∀ flight ∈ u.flights, ∀ r, flight.stage ≠ .filed r) →
    u.tracker.store.Heaviest u.tracker.store.head

theorem Orderly.consistent (orderly : u.Orderly p g submissions)
    (first : Record.genesis p.genesis = .ok g) : u.Consistent p := by
  have grown := orderly.rooted.grown
  refine ⟨⟨g, first, ?_, orderly.replay⟩, ?_, ?_, ?_, ?_⟩
  · exact (Store.treeBelow_of_grown grown).traced _ _ u.tracker.store.find?_head
  · rw [← orderly.params, ← u.tracker.size_window]
    exact orderly.shows.describes grown
  · intro earlier a between b later heard same
    have ma : a ∈ u.tracker.store.catalog := orderly.connected a (by rw [heard]; simp)
    have mb : b ∈ u.tracker.store.catalog := orderly.connected b (by rw [heard]; simp)
    obtain rfl := eq_of_hash_eq ma mb same
    have replayed := orderly.replay
    rw [heard] at replayed
    exact disconnected_of_connected_again (List.pairwise_singleton _ g) replayed
  · intro flight m outcome accepted
    have fits := (orderly.flights flight m).2
    rw [accepted] at fits
    exact fits
  · intro compared
    refine ⟨u.tracker.store.find?_head, ?_⟩
    intro x found
    refine Nat.not_lt.1 fun heavier => ?_
    obtain ⟨flight, m, stored⟩ := orderly.leads x found heavier
    exact compared flight m x stored

/-- Without outages, whatever the order of the steps of submissions whose headers the hashes tell
apart, they are in order after every step. -/
theorem interleaving_consistent (begins : Tracker.Begins p (fun _ _ => false) t)
    (apart : Submission.Apart submissions) (schedule : List Nat) :
    ((begin t submissions).run schedule).Consistent p := by
  obtain ⟨-, -, first, -, -⟩ := begins.records
  exact ((orderly_begin begins submissions).run apart schedule).consistent first

/-- So it is on the unit test network where two copies of a header are examined before the first of
them is stored. -/
theorem interleaving_consistent_unitTest :
    ∃ t, Tracker.Begins .unitTest (fun _ _ => false) t ∧
      Submission.Apart (List.replicate 2 ⟨Params.unitTestNext, 1231006565⟩) ∧
      ((begin t (List.replicate 2 ⟨Params.unitTestNext, 1231006565⟩)).run
        [0, 1, 0, 1, 1, 0]).Consistent .unitTest := by
  obtain ⟨t, begins⟩ :=
    Tracker.exists_begins (fun _ _ => false) Params.sound_unitTest (by decide) rfl
  have apart : Submission.Apart (List.replicate 2 ⟨Params.unitTestNext, 1231006565⟩) := by
    intro a ma b mb _
    rw [List.eq_of_mem_replicate ma, List.eq_of_mem_replicate mb]
  exact ⟨t, begins, apart, interleaving_consistent begins apart _⟩

end Traffic

end HeaviestChain
