import HeaviestChain.Proofs.Params.Sound
import HeaviestChain.Proofs.Store.Fresh
import HeaviestChain.Proofs.Tracker.Submission

/-!
The tracker that starts over a fresh store. It holds the first record of its network, which is its
head, and no other; over sound parameters whose window fits the memory there is one.
-/

namespace HeaviestChain.Tracker

variable {p : Params} {outages : Nat → Operation → Bool} {t : Tracker}

/-- Whether a tracker is the one that starts over a fresh store of its network, behind a connection
with a schedule of outages. -/
def Begins (p : Params) (outages : Nat → Operation → Bool) (t : Tracker) : Prop :=
  ∃ s, Store.Fresh p.genesis s ∧ start p ⟨s, outages, 0, []⟩ = .ok t

/-- What a tracker starts with: its parameters, whose window fits the memory, a connection that was
only read, and the window of the versions on the branch of the head. -/
structure Started (p : Params) (c : Connection) (t : Tracker) : Prop where
  params : t.params = p
  fits : p.signalWindow.toNat < wordCapacity
  read : ∃ n, t.connection = c.withCalls n
  history : ∃ (w : SignalWindow) (versions : List UInt32), w.size = p.signalWindow.toNat ∧
    (w.history c.store.size c.store.head).run c.store.find? = .ok versions ∧
    t.window = w.refill versions

theorem started_of_start {c : Connection} (hidden : c.hidden = []) (e : start p c = .ok t) :
    Started p c t := by
  unfold start at e
  split at e
  · cases e
  · rw [Connection.chainHead_eq] at e
    by_cases fails : c.fails .chainHead
    · simp [fails] at e
    · simp only [fails, if_false, Bool.false_eq_true] at e
      split at e
      · cases e
      · rename_i w new
        let walk := w.history c.store.size c.store.head
        obtain ⟨n, read⟩ := walk.resolve_snd (c := c.withCalls (c.calls + 1)) hidden
        have result := walk.resolve_fst (c := c.withCalls (c.calls + 1)) hidden
        rw [Connection.store_withCalls] at e
        split at e
        · cases e
        · rename_i versions d found
          cases e
          change walk.resolve _ = _ at found
          rw [found] at read result
          have run : walk.run c.store.find? = .ok versions := by
            rcases result with run | ⟨-, cut⟩
            · exact run.symm
            · cases cut
          exact ⟨rfl, SignalWindow.lt_of_new new, ⟨n, read⟩, w, versions,
            SignalWindow.size_of_new new, run, rfl⟩

/-- Nothing but calls happens to a connection that hides nothing while a tracker starts. -/
theorem start_eq_ok {c : Connection} (hidden : c.hidden = []) (e : start p c = .ok t) :
    t.params = p ∧ ∃ n, t.connection = c.withCalls n :=
  ⟨(started_of_start hidden e).params, (started_of_start hidden e).read⟩

theorem store_of_start {c : Connection} (hidden : c.hidden = []) (e : start p c = .ok t) :
    t.store = c.store := by
  obtain ⟨-, n, read⟩ := start_eq_ok hidden e
  rw [store, read]
  rfl

/-- At its beginning a tracker holds the first record of its network and no other. -/
theorem Begins.records (begins : Begins p outages t) :
    t.params = p ∧ t.connection.outages = outages ∧
      Record.genesis p.genesis = .ok t.store.head ∧
      t.store.catalog = Catalog.empty.file t.store.head ∧ t.store.Writable := by
  obtain ⟨s, fresh, started⟩ := begins
  obtain ⟨params, n, e⟩ := start_eq_ok rfl started
  have same : t.store = s := store_of_start rfl started
  obtain ⟨first, catalog, w⟩ := fresh.records
  rw [same]
  exact ⟨params, by rw [e]; rfl, first, catalog, w⟩

theorem Begins.head_header (begins : Begins p outages t) : t.store.head.header = p.genesis := by
  obtain ⟨-, -, first, -, -⟩ := begins.records
  obtain ⟨target, -, e⟩ := Record.genesis_eq_ok.1 first
  rw [e]

theorem Begins.find?_eq (begins : Begins p outages t) (h : Hash) :
    t.store.catalog.find? h = if p.genesis.hash = h then some t.store.head else none := by
  obtain ⟨-, -, -, catalog, -⟩ := begins.records
  rw [catalog, Catalog.find?_file, Record.hash, begins.head_header, Catalog.find?_empty]

theorem Begins.eq_head {r : Record} (begins : Begins p outages t) (m : r ∈ t.store.catalog) :
    r = t.store.head := by
  have found : t.store.catalog.find? r.hash = some r := m
  rw [begins.find?_eq] at found
  split at found <;> cases found
  rfl

theorem Begins.rooted (begins : Begins p outages t) : t.Rooted t.store.head := by
  obtain ⟨s, fresh, started⟩ := begins
  obtain ⟨-, n, e⟩ := start_eq_ok rfl started
  have same : t.store = s := store_of_start rfl started
  exact ⟨by rw [e]; rfl, by rw [same]; exact fresh.grown⟩

theorem Begins.dependable (begins : Begins p (fun _ _ => false) t) :
    t.connection.Dependable := by
  obtain ⟨-, outages, -, -, w⟩ := begins.records
  exact ⟨outages, w⟩

/-- The history of a first record is read off that record alone. -/
theorem resolve_history_of_height_eq_zero {w : SignalWindow} {tip : Record} (low : tip.height = 0)
    (stored : Nat) (c : Connection) :
    (w.history stored tip).resolve c = (.ok [tip.header.version], c) := by
  have latest : Walk.latest stored w.size tip = .done [tip] := by
    unfold Walk.latest
    cases Walk.reach stored tip <;> rw [Walk.latestWithin, if_pos (.inr low)]
  rw [SignalWindow.history, latest]
  rfl

/-- A tracker starts over a fresh store if the parameters are sound, the window fits the memory and
the first call does not fail. -/
theorem exists_start_eq_ok {s : Store} (sound : p.Sound)
    (fits : p.signalWindow.toNat < wordCapacity) (up : outages 0 .chainHead = false)
    (fresh : Store.Fresh p.genesis s) : ∃ t, start p ⟨s, outages, 0, []⟩ = .ok t := by
  obtain ⟨w, new⟩ : ∃ w, SignalWindow.new p.signalWindow.toNat = .ok w :=
    ⟨_, if_neg (Nat.not_le.2 fits)⟩
  unfold start
  split
  · rename_i f flawed
    cases flawed.symm.trans sound
  · rw [Connection.chainHead_eq]
    simp only [Connection.fails, up, Bool.false_eq_true, if_false]
    split
    · rename_i e failed
      cases failed.symm.trans new
    · rw [resolve_history_of_height_eq_zero fresh.grown.height_first]
      exact ⟨_, rfl⟩

/-- Over sound parameters whose window fits the memory a tracker begins. -/
theorem exists_begins (outages : Nat → Operation → Bool) (sound : p.Sound)
    (fits : p.signalWindow.toNat < wordCapacity) (up : outages 0 .chainHead = false) :
    ∃ t, Begins p outages t := by
  obtain ⟨g, first⟩ := sound.exists_genesis
  have fresh : Store.Fresh p.genesis (.ofGenesis g none) :=
    .inMemory (by rw [Store.inMemory, first])
  obtain ⟨t, e⟩ := exists_start_eq_ok sound fits up fresh
  exact ⟨t, _, fresh, e⟩

end HeaviestChain.Tracker
