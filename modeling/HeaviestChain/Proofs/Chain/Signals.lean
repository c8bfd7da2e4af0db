import HeaviestChain.Proofs.Chain.Replay
import HeaviestChain.Proofs.Rules.Window

/-!
Version signals. Whatever calls fail, the window of a tracker shows the versions on the chain up to
the head after every history, and it is the window that a tracker started anew would have.
-/

namespace HeaviestChain

open Catalog

/-- The versions of the headers of records. -/
def Record.versions (records : List Record) : List UInt32 := records.map fun r => r.header.version

/-- Whether a window that holds `size` versions describes the chain up to the head: it holds the
versions of the latest records, oldest first, and counts them once there are enough. -/
structure SignalWindow.Describes (w : SignalWindow) (size : Nat) (s : Store) : Prop where
  held : w.versions = Record.versions (s.bestChain.rtake size)
  length : w.versions.length = min size (s.head.height.toNat + 1)
  filling : ∀ version, w.support version = none ↔ s.head.height.toNat + 1 < size
  counted : ∀ version, size ≤ s.head.height.toNat + 1 →
    w.support version =
      some ((s.bestChain.rtake size).countP fun r => version ≤ r.header.version)

theorem Record.versions_rtake (records : List Record) (count : Nat) :
    versions (records.rtake count) = (versions records).rtake count := by
  simp [versions, List.rtake, List.map_drop]

namespace SignalWindow

variable {g : Record} {c : Catalog} {w : SignalWindow}

/-- The versions to refill a window with are the end of those on the chain. -/
theorem latestOf_branch (some : w.size ≠ 0) (r : Record) :
    w.latestOf (c.branch r) = (Record.versions (c.chain r)).rtake w.size := by
  rw [latestOf, if_neg some, List.rtake_eq_reverse_take_reverse, Record.versions, Catalog.chain,
    List.map_reverse, List.reverse_reverse, List.map_take]

theorem Shows.describes {s : Store} (grown : s.catalog.Grown g)
    (shows : w.Shows (Record.versions s.bestChain)) : w.Describes w.size s := by
  have long : (Record.versions s.bestChain).length = s.head.height.toNat + 1 := by
    rw [Record.versions, List.length_map, Store.bestChain, Catalog.chain, List.length_reverse,
      grown.length_branch s.head_mem]
  have length := shows.length
  have support := shows.support
  rw [long] at length
  refine ⟨by rw [shows, Record.versions_rtake], length, ?_, ?_⟩
  · intro version
    rw [support, long]
    split <;> simp [*]
  · intro version full
    rw [support, long, if_neg (Nat.not_lt.2 full), ← Record.versions_rtake, Record.versions,
      List.countP_map]
    rfl

end SignalWindow

namespace Tracker

variable {g r : Record} {p : Params} {outages : Nat → Operation → Bool} {t u : Tracker} {h : Header}
  {now : Int} {reply : Reply}

/-- The versions on the chain up to the head. -/
def signals (t : Tracker) : List UInt32 := Record.versions t.store.bestChain

theorem size_window_ne_zero (t : Tracker) : t.window.size ≠ 0 := by
  obtain ⟨-, -, -, some, -⟩ := t.sound.bounds
  rw [t.size_window]
  intro none
  exact some (UInt64.toNat_inj.1 none)

theorem Moves.shows {o : Outcome} {f : Fork} {w : SignalWindow} (moves : t.Moves r o f w)
    (shows : t.window.Shows t.signals) :
    w.Shows (Record.versions (t.store.catalog.chain r)) := by
  cases moves with
  | extended link =>
    have longer : Record.versions (t.store.catalog.chain r) = t.signals ++ [r.header.version] := by
      simp [Record.versions, signals, Store.bestChain, link.chain]
    rw [longer]
    exact shows.add t.size_window_ne_zero _
  | reorganized _ =>
    rw [SignalWindow.latestOf_branch t.size_window_ne_zero]
    exact SignalWindow.shows_refill_rtake t.size_window_ne_zero _

theorem Keeps.shows (keeps : t.Keeps reply) (shows : t.window.Shows t.signals) :
    reply.tracker.window.Shows reply.tracker.signals := by
  rw [keeps.window, signals, keeps.bestChain]
  exact shows

theorem Chooses.shows (chooses : t.Chooses r reply) (shows : t.window.Shows t.signals) :
    reply.tracker.window.Shows reply.tracker.signals := by
  cases chooses with
  | failed _ _ keeps => exact keeps.shows shows
  | stayed _ _ keeps => exact keeps.shows shows
  | moved moves _ _ _ catalog head window _ =>
    rw [window, signals, Store.bestChain, head, catalog]
    exact moves.shows shows

theorem Submits.shows (rooted : t.Rooted g) (submits : t.Submits h now reply)
    (shows : t.window.Shows t.signals) : reply.tracker.window.Shows reply.tracker.signals := by
  cases submits with
  | stopped _ keeps => exact keeps.shows shows
  | @filed _ r n _ _ _ _ chooses =>
    refine chooses.shows ?_
    rw [signals, rooted.bestChain_filed r n]
    exact shows

theorem Started.shows {c : Connection} (grown : c.store.catalog.Grown g)
    (started : Started p c t) : t.window.Shows (Record.versions c.store.bestChain) := by
  obtain ⟨w, versions, size, run, window⟩ := started.history
  have some : w.size ≠ 0 := by
    have same := t.size_window
    rw [window, SignalWindow.size_refill] at same
    rw [same, ← t.size_window]
    exact t.size_window_ne_zero
  have read := SignalWindow.run_history grown w c.store.head_mem c.store.size
  obtain rfl := Except.ok.inj (run.symm.trans read)
  rw [window, SignalWindow.latestOf_branch some]
  exact SignalWindow.shows_refill_rtake some _

theorem Begins.started (begins : Begins p outages t) :
    ∃ s, s.catalog.Grown s.head ∧ Started p ⟨s, outages, 0, []⟩ t ∧ t.store = s := by
  obtain ⟨s, fresh, e⟩ := begins
  exact ⟨s, fresh.grown, started_of_start rfl e, store_of_start rfl e⟩

theorem Begins.shows_after (begins : Begins p outages t) (submissions : List Submission) :
    (t.after submissions).window.Shows (t.after submissions).signals := by
  obtain ⟨s, grown, started, same⟩ := begins.started
  have first : t.window.Shows t.signals := by
    rw [signals, same]
    exact started.shows grown
  refine (after_induct (motive := fun u => u.window.Shows u.signals) begins.rooted first ?_
    submissions).2
  intro u rooted shows h now
  exact (submit_submits rooted h now).2.shows rooted shows

theorem exists_start_reliable {s : Store} (sound : p.Sound)
    (fits : p.signalWindow.toNat < wordCapacity) (grown : s.catalog.Grown g) :
    ∃ u, start p (.reliable s) = .ok u := by
  unfold start
  split
  · rename_i f flawed
    cases flawed.symm.trans sound
  · rw [Connection.chainHead_eq]
    simp only [Connection.fails, Connection.reliable, Bool.false_eq_true, if_false]
    split
    · rename_i e failed
      rw [SignalWindow.new, if_neg (Nat.not_le.2 fits)] at failed
      cases failed
    · rename_i w _
      have read := SignalWindow.run_history grown w s.head_mem s.size
      have found := (w.history s.size s.head).resolve_of_gets
        (c := (Connection.reliable s).withCalls 1) rfl (fun _ => rfl)
      split
      · rename_i f d failed
        cases (congrArg Prod.fst failed).symm.trans (found.trans read)
      · exact ⟨_, rfl⟩

/-- Whatever calls fail, the window describes the chain up to the head after every history, and a
tracker that is started anew over the store has the same window. -/
theorem window_current (begins : Begins p outages t) (submissions : List Submission) :
    (∃ g, Record.genesis p.genesis = .ok g ∧
        (t.after submissions).store.Traces g (t.after submissions).store.head) ∧
      (t.after submissions).window.Describes p.signalWindow.toNat (t.after submissions).store ∧
      (∃ u, start p (.reliable (t.after submissions).store) = .ok u) ∧
      ∀ (c : Connection) (u : Tracker), c.store = (t.after submissions).store → c.hidden = [] →
        start p c = .ok u → u.window = (t.after submissions).window := by
  obtain ⟨s, -, started, -⟩ := begins.started
  have rooted := begins.rooted.after submissions
  have shows := begins.shows_after submissions
  have params : (t.after submissions).params = p :=
    (resumes_after begins.rooted submissions).params.trans begins.records.1
  have size : (t.after submissions).window.size = p.signalWindow.toNat := by
    rw [(t.after submissions).size_window, params]
  have sound : p.Sound := params ▸ (t.after submissions).sound
  have traced := (Store.treeBelow_of_grown rooted.grown).traced _ _
    (t.after submissions).store.find?_head
  obtain ⟨-, -, first, -, -⟩ := begins.records
  refine ⟨⟨t.store.head, first, traced⟩, size ▸ shows.describes rooted.grown, ?_, ?_⟩
  · exact exists_start_reliable sound started.fits rooted.grown
  · intro c u same hidden e
    have anew := started_of_start hidden e
    have shows' := anew.shows (same ▸ rooted.grown)
    rw [same] at shows'
    exact shows'.unique shows (by rw [u.size_window, anew.params, size])

/-- So it is on the unit test network where the third call fails and the header that it concerns is
submitted again. -/
theorem window_current_unitTest :
    ∃ t, Begins .unitTest (fun call _ => call = 2) t ∧
      ∃ u, u = t.after [⟨Params.unitTestNext, 1231006565⟩, ⟨Params.unitTestNext, 1231006565⟩] ∧
        (∃ g, Record.genesis Params.unitTest.genesis = .ok g ∧ u.store.Traces g u.store.head) ∧
        u.window.Describes Params.unitTest.signalWindow.toNat u.store ∧
        (∃ v, start .unitTest (.reliable u.store) = .ok v) ∧
        ∀ (c : Connection) (v : Tracker), c.store = u.store → c.hidden = [] →
          start .unitTest c = .ok v → v.window = u.window := by
  obtain ⟨t, begins⟩ := exists_begins (fun call _ => call = 2) Params.sound_unitTest (by decide) rfl
  exact ⟨t, begins, _, rfl, window_current begins _⟩

end Tracker

end HeaviestChain
