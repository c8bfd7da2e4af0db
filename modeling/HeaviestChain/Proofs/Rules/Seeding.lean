import HeaviestChain.Proofs.Params.Sound
import HeaviestChain.Proofs.Rules.Window
import HeaviestChain.Proofs.Walk.Resolve
import HeaviestChain.Rules.Seeding

/-!
The window of version signals under any changes. It recalls the latest versions since it was last
cleared, as many as fit, and counts them once it is full. A window that is filled from a branch is
as if it had been cleared and given the latest versions of the branch in turn, and one that cannot
be filled because a lookup fails stays what it was.
-/

namespace HeaviestChain.SignalWindow

/-- The version of the next header, or a new beginning. -/
inductive Change where
  | added (version : UInt32)
  | cleared
  deriving DecidableEq

/-- The window after a change. -/
def change (w : SignalWindow) : Change → SignalWindow
  | .added version => w.add version
  | .cleared => w.clear

/-- The version that a change adds. -/
def Change.version? : Change → Option UInt32
  | added version => some version
  | cleared => none

/-- The versions added since the last new beginning, oldest first. -/
def sinceCleared (changes : List Change) : List UInt32 :=
  (changes.rtakeWhile fun change => change ≠ .cleared).filterMap Change.version?

/-- Whether a window holds the latest versions of a history, as many as fit, and counts those at
least so high exactly if it is full. -/
structure Recalls (w : SignalWindow) (size : Nat) (history : List UInt32) : Prop where
  fixed : w.size = size
  held : w.versions = history.rtake (min history.length size)
  full : w.isFull ↔ size ≤ history.length
  uncounted : history.length < size → ∀ version, w.support version = none
  counted : size ≤ history.length → ∀ version,
    w.support version = some ((history.rtake size).countP fun v => version ≤ v)

/-- How many records of a branch fill the window. -/
def intake (w : SignalWindow) (tip : Record) : Nat := min w.size (tip.height.toNat + 1)

/-- Whether a window is filled from a branch by its latest versions in turn, and left alone if one
of the lookups fails, of which it takes one for each record but the first. -/
structure SeedsFrom (w : SignalWindow) (c : Connection) (tip : Record) (branch : List Record) :
    Prop where
  filled : (∀ i, i + 1 < w.intake tip → c.outages (c.calls + i) .get = false) →
    w.seed c tip =
      (if tip.height.toNat + 1 < w.size then .error (.short ⟨tip.height.toNat + 1, w.size⟩)
        else .ok (),
      ((branch.take (w.intake tip)).reverse.map fun r => r.header.version).foldl add w.clear,
      c.withCalls (c.calls + (w.intake tip - 1)))
  cut : ∀ i, i + 1 < w.intake tip → c.outages (c.calls + i) .get = true →
    ∃ n, w.seed c tip = (.error (.failed (.store (.medium .unplugged))), w, c.withCalls n)

variable {w : SignalWindow} {changes : List Change} {history : List UInt32} {c : Connection}
  {tip : Record} {branch : List Record}

@[simp]
theorem size_change (w : SignalWindow) (change : Change) : (w.change change).size = w.size := by
  cases change <;> rfl

@[simp]
theorem sinceCleared_added (changes : List Change) (version : UInt32) :
    sinceCleared (changes ++ [.added version]) = sinceCleared changes ++ [version] := by
  rw [sinceCleared, List.rtakeWhile_concat_pos _ _ _ (by simp), List.filterMap_append]
  rfl

@[simp]
theorem sinceCleared_cleared (changes : List Change) :
    sinceCleared (changes ++ [.cleared]) = [] := by
  rw [sinceCleared, List.rtakeWhile_concat_neg _ _ _ (by simp)]
  rfl

/-- A change keeps a window in step with the versions since the last new beginning. -/
theorem Shows.change (some : w.size ≠ 0) (shows : w.Shows (sinceCleared changes))
    (change : Change) : (w.change change).Shows (sinceCleared (changes ++ [change])) := by
  cases change with
  | added version =>
    rw [sinceCleared_added]
    exact shows.add some version
  | cleared =>
    rw [sinceCleared_cleared]
    exact w.shows_clear

theorem shows_changes (some : w.size ≠ 0) (shows : w.Shows []) (changes : List Change) :
    (changes.foldl change w).size = w.size ∧
      (changes.foldl change w).Shows (sinceCleared changes) := by
  induction changes using List.reverseRecOn with
  | nil => exact ⟨rfl, shows⟩
  | append_singleton changes change ih =>
    obtain ⟨size, ih⟩ := ih
    rw [List.foldl_append]
    exact ⟨(size_change _ _).trans size, ih.change (size ▸ some) change⟩

theorem Shows.recalls (shows : w.Shows history) : w.Recalls w.size history where
  fixed := rfl
  held := by
    rw [shows, List.rtake, List.rtake]
    congr 1
    omega
  full := by
    have length := shows.length
    rw [isFull, decide_eq_true_iff]
    omega
  uncounted short version := by rw [shows.support, if_pos short]
  counted long version := by rw [shows.support, if_neg (Nat.not_lt.2 long)]

theorem shows_new {size : Nat} (e : new size = .ok w) : w.Shows [] := by
  unfold new at e
  split at e <;> cases e
  exact shows_clear ⟨size, []⟩

theorem new_eq_ok_iff {size : Nat} : (∃ w, new size = .ok w) ↔ size < wordCapacity := by
  constructor
  · rintro ⟨w, e⟩
    exact lt_of_new e
  · intro fits
    exact ⟨_, if_neg (Nat.not_le.2 fits)⟩

/-- A branch that does not fill the window is taken in whole. -/
theorem intake_of_lt (short : tip.height.toNat + 1 < w.size) :
    w.intake tip = tip.height.toNat + 1 :=
  Nat.min_eq_right (Nat.le_of_lt short)

theorem intake_lt_iff : w.intake tip < w.size ↔ tip.height.toNat + 1 < w.size := by
  unfold intake
  omega

theorem length_intake {find : Hash → Option Record} (leads : Walk.Leads find tip branch) :
    ((branch.take (w.intake tip)).reverse.map fun r => r.header.version).length =
      w.intake tip := by
  rw [List.length_map, List.length_reverse, List.length_take, leads.length, intake]
  omega

/-- The walk for the versions of a branch finds those of its latest records, with a lookup for each
record but the first. -/
theorem history_of_leads (some : w.size ≠ 0) {find : Hash → Option Record}
    (leads : Walk.Leads find tip branch) (stored : Nat) :
    (w.history stored tip).run find =
        .ok ((branch.take (w.intake tip)).reverse.map fun r => r.header.version) ∧
      (w.history stored tip).lookups find + 1 = w.intake tip := by
  have front : branch.take (w.intake tip) = branch.take w.size := by
    rw [intake, ← leads.length]
    exact List.take_eq_take_min.symm
  obtain ⟨run, lookups⟩ := leads.latest stored w.size
  rw [if_neg some, ← front] at run lookups
  constructor
  · rw [SignalWindow.history, Walk.run_bind, run]
    rfl
  · rw [SignalWindow.history, Walk.lookups_bind_of_run_eq_ok run, Walk.lookups_done, Nat.add_zero,
      lookups, front, List.length_take, leads.length, intake]

/-- A window that is filled knows whether the branch was too short. -/
theorem seed_of_resolve {versions : List UInt32} {d : Connection}
    (e : (w.history c.store.size tip).resolve c = (.ok versions, d)) :
    w.seed c tip = (if versions.length < w.size then .error (.short ⟨versions.length, w.size⟩)
      else .ok (), w.refill versions, d) := by
  rw [seed, e]
  by_cases short : versions.length < w.size
  · simp only [shortage?, short, if_true]
  · simp only [shortage?, short, if_false]

theorem seedsFrom_of_leads (some : w.size ≠ 0) (hidden : c.hidden = [])
    (leads : Walk.Leads c.store.find? tip branch) : w.SeedsFrom c tip branch where
  filled up := by
    obtain ⟨run, lookups⟩ := history_of_leads some leads c.store.size
    have clear : ∀ i < (w.history c.store.size tip).lookups c.store.find?,
        c.outages (c.calls + i) .get = false := fun i inside => up i (by omega)
    have calls : (w.history c.store.size tip).lookups c.store.find? = w.intake tip - 1 := by omega
    have e := Walk.resolve_of_up _ hidden clear
    rw [run, calls] at e
    rw [seed_of_resolve e, length_intake leads, refill]
    by_cases short : tip.height.toNat + 1 < w.size
    · rw [if_pos short, if_pos (intake_lt_iff.2 short), intake_of_lt short]
    · rw [if_neg short, if_neg (mt intake_lt_iff.1 short)]
  cut i inside down := by
    obtain ⟨-, lookups⟩ := history_of_leads some leads c.store.size
    obtain ⟨n, e⟩ := Walk.resolve_of_down (w.history c.store.size tip) hidden (by omega) down
    exact ⟨n, by rw [seed, e]⟩

/-- Whatever ends the lookups early, a window that is not filled stays what it was. -/
theorem eq_of_seed_failed {u : SignalWindow} {d : Connection} {f : Failure}
    (e : w.seed c tip = (.error (.failed f), u, d)) : u = w := by
  unfold seed at e
  split at e
  · exact (congrArg (fun out => out.2.1) e).symm
  · split at e <;> cases e

/-- After any changes a window recalls the latest versions since the last new beginning. Filled from
a branch, it is as if it had been cleared and given the latest versions of the branch in turn, and
it tells if they are too few; if a lookup fails it stays what it was. -/
theorem window_slides :
    (∀ size, 1 ≤ size → ((∃ w, new size = .ok w) ↔ size < wordCapacity) ∧
        ∀ w, new size = .ok w → ∀ changes : List Change,
          (changes.foldl change w).Recalls size (sinceCleared changes)) ∧
      (∀ (w : SignalWindow) (c : Connection) (tip : Record) (branch : List Record), 1 ≤ w.size →
        c.hidden = [] → Walk.Leads c.store.find? tip branch → w.SeedsFrom c tip branch) ∧
      ∀ (w u : SignalWindow) (c d : Connection) (tip : Record) (f : Failure),
        w.seed c tip = (.error (.failed f), u, d) → u = w := by
  refine ⟨?_, ?_, fun _ _ _ _ _ _ => eq_of_seed_failed⟩
  · intro size some
    refine ⟨new_eq_ok_iff, ?_⟩
    intro w e changes
    have same : w.size = size := size_of_new e
    have held : w.size ≠ 0 := by omega
    obtain ⟨size', shows⟩ := shows_changes held (shows_new e) changes
    have recalls := shows.recalls
    rwa [size', same] at recalls
  · intro w c tip branch some hidden leads
    exact seedsFrom_of_leads (Nat.ne_of_gt some) hidden leads

theorem leads_unitTestNext {g r : Record} (first : g.header = Params.unitTest.genesis)
    (low : g.height = 0) (next : r.header = Params.unitTestNext) (high : r.height = 1) :
    Walk.Leads ((Store.ofGenesis g none).put r).find? r [r, g] := by
  have link : g.hash = r.header.previous := by
    rw [Record.hash, first, next]
    exact Params.hash_genesis_unitTest
  have below : (Catalog.empty.file g).find? r.header.previous = some g := by
    rw [Catalog.find?_file, if_pos link]
  refine .next (Catalog.find?_insert_of_some below r) ?_ (.low low)
  rw [high, low]
  rfl

/-- So it is with windows of two and three, over the first two headers of the unit test network. -/
theorem window_slides_unitTest :
    (∃ w, new 2 = .ok w) ∧
      ([Change.added 9, .cleared, .added 1, .added 2, .added 3].foldl change ⟨2, []⟩).Recalls 2
        [1, 2, 3] ∧
      ∃ g r c, Record.genesis Params.unitTest.genesis = .ok g ∧
        r = ⟨Params.unitTestNext, 1, Work.ofNat 4⟩ ∧
        c = Connection.reliable ((Store.ofGenesis g none).put r) ∧
        Walk.Leads c.store.find? r [r, g] ∧
        SignalWindow.seed ⟨2, [7]⟩ c r = (.ok (), ⟨2, [1, 1]⟩, c.withCalls 1) ∧
        SignalWindow.seed ⟨3, [7]⟩ c r =
          (.error (.short ⟨2, 3⟩), ⟨3, [1, 1]⟩, c.withCalls 1) ∧
        ∃ f u d, SignalWindow.seed ⟨3, [7]⟩ { c with outages := fun _ _ => true } r =
          (.error (.failed f), u, d) ∧ u = ⟨3, [7]⟩ := by
  obtain ⟨slides, seeds, kept⟩ := window_slides
  obtain ⟨fits, recalls⟩ := slides 2 (by decide)
  obtain ⟨g, first⟩ := Params.sound_unitTest.exists_genesis
  obtain ⟨t, -, rfl⟩ := Record.genesis_eq_ok.1 first
  have leads := leads_unitTestNext (g := ⟨_, 0, Work.ofNat t.work⟩)
    (r := ⟨_, 1, Work.ofNat 4⟩) rfl rfl rfl rfl
  have empty : new 2 = .ok ⟨2, []⟩ := by
    rw [new, if_neg (by decide)]
  have recalled := recalls _ empty [.added 9, .cleared, .added 1, .added 2, .added 3]
  refine ⟨fits.2 (by decide), recalled, _, _, _, first, rfl, rfl, leads, ?_, ?_, ?_⟩
  · exact (seeds ⟨2, [7]⟩ (.reliable _) _ _ (by decide) rfl leads).filled fun _ _ => rfl
  · exact (seeds ⟨3, [7]⟩ (.reliable _) _ _ (by decide) rfl leads).filled fun _ _ => rfl
  · obtain ⟨n, e⟩ := (seeds ⟨3, [7]⟩ { Connection.reliable _ with outages := fun _ _ => true } _ _
      (by decide) rfl leads).cut 0 (by decide) rfl
    exact ⟨_, _, _, e, kept _ _ _ _ _ _ e⟩

end HeaviestChain.SignalWindow
