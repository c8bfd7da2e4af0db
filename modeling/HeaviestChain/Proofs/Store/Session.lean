import HeaviestChain.Proofs.Store.Durability
import HeaviestChain.Proofs.Store.Fresh
import HeaviestChain.Walk.Ancestry

/-!
Sessions with a store. A store in files answers every sequence of calls as one without files does,
although it may be closed and opened again between any two of them: what it keeps in its files is
all that its answers depend on.
-/

namespace HeaviestChain

namespace Store

/-- A call on a store. -/
inductive Call where
  | get (h : Hash)
  | contains (h : Hash)
  | put (r : Record)
  | setHead (r : Record)
  | head
  | parent (r : Record)
  | ancestor (r : Record) (height : UInt32)
  deriving DecidableEq

/-- What a call answers. -/
inductive Answer where
  | found (r : Option Record)
  | held (b : Bool)
  | done
  | head (r : Record)
  deriving DecidableEq

/-- The answer to a call, and the store behind it. -/
def call (s : Store) : Call → Except Failure Answer × Store
  | .get h => (.ok (.found (s.find? h)), s)
  | .contains h => (.ok (.held (s.find? h).isSome), s)
  | .put r => (.ok .done, s.put r)
  | .setHead r =>
    (((s.setHead r.hash).1.mapError .store).map fun _ => .done, (s.setHead r.hash).2)
  | .head => (.ok (.head s.head), s)
  | .parent r => (((Walk.parent r).run s.find?).map .found, s)
  | .ancestor r height => (((Walk.ancestor s.size r height).run s.find?).map .found, s)

/-- The answers to calls in turn. -/
def calls (s : Store) : List Call → List (Except Failure Answer) × Store
  | [] => ([], s)
  | c :: rest =>
    let (answers, after) := (s.call c).2.calls rest
    ((s.call c).1 :: answers, after)

/-- The store that is opened once a store is closed. Nothing is left of one without files. -/
def reopen (genesis : Header) (s : Store) : Except StoreError Store :=
  match s.disk with
  | none => inMemory genesis
  | some d => (onDisk genesis d.directory).1

/-- A step of a session: a call, or the store is closed and opened again. -/
inductive Step where
  | call (c : Call)
  | reopen
  deriving DecidableEq

/-- The calls of a session, without the reopenings. -/
def Step.calls : List Step → List Call
  | [] => []
  | .call c :: rest => c :: calls rest
  | .reopen :: rest => calls rest

/-- The answers of a session, if the store always opens again. -/
def session (genesis : Header) (s : Store) :
    List Step → Except StoreError (List (Except Failure Answer) × Store)
  | [] => .ok ([], s)
  | .call c :: rest =>
    ((s.call c).2.session genesis rest).map fun (answers, after) => ((s.call c).1 :: answers, after)
  | .reopen :: rest => (s.reopen genesis).bind fun opened => opened.session genesis rest

variable {m f s s' : Store} {g r : Record} {d d' : Directory} {genesis : Header}
  {records added : List Record}

/-! ### Opening again -/

theorem KeptIn.append
    (kept : s.KeptIn g d (Log.entries records) (records.foldl Catalog.file .empty) added) :
    s.KeptIn g d [] .empty (records ++ added) where
  disk := kept.disk
  log := by rw [kept.log, List.nil_append, Log.entries_append]
  names := kept.names
  catalog := by rw [kept.catalog, List.foldl_append]
  first := kept.first

theorem writable_of_begin {c : Catalog} (plain : d.Plain) (e : begin c g d = (.ok s, d')) :
    s.Writable := by
  have logged : (if (c.find? g.hash).isSome then (⟨d, true⟩ : Disk)
      else Disk.log ⟨d, true⟩ g).directory.Plain := by
    split
    · exact plain
    · exact Disk.plain_log (d := ⟨d, true⟩) plain g
  obtain ⟨left, written, plain'⟩ := Disk.writeHead_of_plain logged g.hash
  simp only [begin, written, Prod.mk.injEq, Except.ok.injEq] at e
  obtain ⟨rfl, -⟩ := e
  intro disk same
  obtain rfl := Option.some.inj same
  exact plain'

theorem writable_of_resume {c : Catalog} {head : Node} (plain : d.Plain)
    (e : resume c g d head = .ok s) : s.Writable := by
  unfold resume at e
  split at e
  · cases e
  · split at e
    · cases e
    · split at e
      · cases e
      · split at e
        · cases e
        · cases e
          intro disk same
          obtain rfl := Option.some.inj same
          exact plain

/-- The files of a store that is opened in a plain directory can be written. -/
theorem writable_of_onDisk (plain : d.Plain) (e : onDisk genesis d = (.ok s, d')) : s.Writable := by
  obtain ⟨old, made⟩ := plain.append Log.name []
  have plain' := plain.set Log.name (old ++ [])
  unfold onDisk at e
  split at e
  · cases e
  · simp only [made] at e
    split at e
    · cases e
    · split at e
      · exact writable_of_begin plain' e
      · exact writable_of_resume plain' (Prod.mk.inj e).1

/-- A store that keeps all its records in its files comes back from them as it was. -/
theorem KeptIn.exists_reopen (kept : s.KeptIn g d [] .empty records) (w : s.Writable)
    (first : Record.genesis genesis = .ok g) :
    ∃ s' d' records', s.reopen genesis = .ok s' ∧ s'.catalog = s.catalog ∧ s'.head = s.head ∧
      s'.KeptIn g d' [] .empty records' ∧ s'.Writable := by
  obtain ⟨s', d', opened, catalog, head⟩ := kept.onDisk first kept.read
  obtain ⟨g', c, added, first', read, -, kept'⟩ := keptIn_of_onDisk opened
  obtain rfl := Except.ok.inj (first'.symm.trans first)
  obtain rfl := Except.ok.inj (read.symm.trans kept.read)
  have text : Log.textIn d = Log.entries records := Log.textIn_of_file kept.log
  rw [text, kept.catalog] at kept'
  refine ⟨s', d', records ++ added, ?_, catalog, head, kept'.append, ?_⟩
  · unfold reopen
    rw [kept.disk]
    exact congrArg Prod.fst opened
  · exact writable_of_onDisk (w _ kept.disk) opened

/-! ### Two stores side by side -/

/-- Whether a store in files and one without them hold the same, and the files hold it too. -/
structure Mirrors (g : Record) (f m : Store) : Prop where
  catalog : f.catalog = m.catalog
  head : f.head = m.head
  volatile : m.disk = none
  kept : ∃ d records, f.KeptIn g d [] .empty records
  writable : f.Writable

theorem Mirrors.find? (mirrors : f.Mirrors g m) : f.find? = m.find? := by
  funext h
  rw [Store.find?, Store.find?, mirrors.catalog]

theorem Mirrors.put (mirrors : f.Mirrors g m) (r : Record) : (f.put r).Mirrors g (m.put r) := by
  obtain ⟨d, records, kept⟩ := mirrors.kept
  obtain ⟨d', records', -, kept'⟩ := kept.put r
  refine ⟨?_, mirrors.head, ?_, ⟨d', records', kept'⟩, mirrors.writable.put r⟩
  · show f.catalog.insert r = m.catalog.insert r
    rw [mirrors.catalog]
  · show (if (m.find? r.hash).isSome then m.disk else m.disk.map (·.log r)) = none
    rw [mirrors.volatile]
    split <;> rfl

theorem setHead_of_volatile (volatile : m.disk = none) {h : Hash} {x : Record}
    (found : m.catalog.find? h = some x) :
    ∃ m', m.setHead h = (.ok (), m') ∧ m'.catalog = m.catalog ∧ m'.head = x ∧ m'.disk = none := by
  unfold setHead
  split
  · rename_i missing
    cases missing.symm.trans found
  · rename_i x' found'
    obtain rfl := Option.some.inj (found'.symm.trans found)
    split
    · exact ⟨_, rfl, rfl, rfl, rfl⟩
    · rename_i d disk
      cases disk.symm.trans volatile

theorem setHead_of_find?_eq_none {h : Hash} (missing : s.catalog.find? h = none) :
    s.setHead h = (.error (.unknownHead h), s) := by
  unfold setHead
  split
  · rfl
  · rename_i found
    cases found.symm.trans missing

theorem Mirrors.setHead (mirrors : f.Mirrors g m) (h : Hash) :
    (f.setHead h).1 = (m.setHead h).1 ∧ (f.setHead h).2.Mirrors g (m.setHead h).2 := by
  have catalog := mirrors.catalog
  cases found : m.catalog.find? h with
  | none =>
    rw [setHead_of_find?_eq_none found, setHead_of_find?_eq_none (by rw [catalog, found])]
    exact ⟨rfl, mirrors⟩
  | some x =>
    have own : x.hash = h := Catalog.hash_of_find? found
    obtain ⟨d, records, kept⟩ := mirrors.kept
    obtain ⟨d', -, kept'⟩ := kept.setHead h
    obtain ⟨m', moved, same, head, volatile⟩ := setHead_of_volatile mirrors.volatile found
    have stored : x ∈ f.catalog := by
      rw [catalog]
      exact Catalog.mem_of_find? found
    obtain ⟨f', same', ⟨moved', head', writable⟩ | ⟨e, -, -, broken⟩⟩ := setHead_of_mem stored
    · rw [own] at moved'
      rw [moved'] at kept' ⊢
      rw [moved]
      refine ⟨rfl, ?_, head'.trans head.symm, volatile, ⟨d', records, kept'⟩,
        writable mirrors.writable⟩
      rw [same', same, catalog]
    · exact absurd mirrors.writable broken

theorem Mirrors.call (mirrors : f.Mirrors g m) (c : Call) :
    (f.call c).1 = (m.call c).1 ∧ (f.call c).2.Mirrors g (m.call c).2 := by
  have found := mirrors.find?
  have size : f.size = m.size := by rw [Store.size, Store.size, mirrors.catalog]
  cases c with
  | get h => exact ⟨by rw [Store.call, Store.call, found], mirrors⟩
  | contains h => exact ⟨by rw [Store.call, Store.call, found], mirrors⟩
  | put r => exact ⟨rfl, mirrors.put r⟩
  | setHead r =>
    obtain ⟨answer, after⟩ := mirrors.setHead r.hash
    exact ⟨by rw [Store.call, Store.call, answer], after⟩
  | head => exact ⟨by rw [Store.call, Store.call, mirrors.head], mirrors⟩
  | parent r => exact ⟨by rw [Store.call, Store.call, found], mirrors⟩
  | ancestor r height => exact ⟨by rw [Store.call, Store.call, found, size], mirrors⟩

/-- A store in files goes through every session and answers its calls as the other store does. -/
theorem Mirrors.session (mirrors : f.Mirrors g m) (first : Record.genesis genesis = .ok g)
    (steps : List Step) :
    ∃ f', f.session genesis steps = .ok ((m.calls (Step.calls steps)).1, f') ∧
      f'.Mirrors g (m.calls (Step.calls steps)).2 := by
  induction steps generalizing f m with
  | nil => exact ⟨f, rfl, mirrors⟩
  | cons step rest ih =>
    cases step with
    | call c =>
      obtain ⟨answer, after⟩ := mirrors.call c
      obtain ⟨f', run, mirrors'⟩ := ih after
      refine ⟨f', ?_, mirrors'⟩
      rw [Store.session, run, answer]
      rfl
    | reopen =>
      obtain ⟨d, records, kept⟩ := mirrors.kept
      obtain ⟨f₁, d₁, records₁, opened, catalog, head, kept₁, writable⟩ :=
        kept.exists_reopen mirrors.writable first
      have mirrors₁ : f₁.Mirrors g m := ⟨catalog.trans mirrors.catalog, head.trans mirrors.head,
        mirrors.volatile, ⟨d₁, records₁, kept₁⟩, writable⟩
      obtain ⟨f', run, mirrors'⟩ := ih mirrors₁
      refine ⟨f', ?_, mirrors'⟩
      rw [Store.session, opened]
      exact run

/-! ### Records stay -/

theorem within_call (s : Store) (c : Call) : s.catalog.Within (s.call c).2.catalog := by
  cases c with
  | put r => exact Catalog.within_insert s.catalog r
  | setHead r =>
    show s.catalog.Within (s.setHead r.hash).2.catalog
    rw [catalog_setHead]
    exact .refl _
  | get _ | contains _ | head | parent _ | ancestor _ _ => exact .refl _

theorem within_calls (s : Store) (cs : List Call) : s.catalog.Within (s.calls cs).2.catalog := by
  induction cs generalizing s with
  | nil => exact .refl _
  | cons c rest ih => exact (s.within_call c).trans (ih (s.call c).2)

theorem calls_append (s : Store) (earlier later : List Call) :
    (s.calls (earlier ++ later)).1 =
        (s.calls earlier).1 ++ ((s.calls earlier).2.calls later).1 ∧
      (s.calls (earlier ++ later)).2 = ((s.calls earlier).2.calls later).2 := by
  induction earlier generalizing s with
  | nil => exact ⟨rfl, rfl⟩
  | cons c rest ih =>
    obtain ⟨answers, after⟩ := ih (s.call c).2
    exact ⟨congrArg (List.cons _) answers, after⟩

theorem Step.calls_append (earlier later : List Step) :
    Step.calls (earlier ++ later) = Step.calls earlier ++ Step.calls later := by
  induction earlier with
  | nil => rfl
  | cons step rest ih =>
    cases step with
    | call c => exact congrArg (List.cons c) ih
    | reopen => exact ih

/-- Stores that are made anew for one network, in memory and in an empty directory, hold the same. -/
theorem exists_mirrors (first : Record.genesis genesis = .ok g) (path : String) :
    ∃ m f d, inMemory genesis = .ok m ∧ onDisk genesis (.empty path) = (.ok f, d) ∧
      f.Mirrors g m := by
  obtain ⟨f, d, opened⟩ := exists_onDisk_empty first path
  have made : inMemory genesis = .ok (ofGenesis g none) := by rw [inMemory, first]
  obtain ⟨first', catalog, writable⟩ := (Fresh.onDisk opened).records
  obtain rfl := Except.ok.inj (first'.symm.trans first)
  obtain ⟨g', c, added, first'', read, -, kept⟩ := keptIn_of_onDisk opened
  obtain rfl := Except.ok.inj (first''.symm.trans first)
  have unread : Log.read (.empty path) = .ok .empty := by
    rw [Log.read, Directory.find?_empty]
  obtain rfl := Except.ok.inj (read.symm.trans unread)
  exact ⟨_, f, d, made, opened, catalog, rfl, rfl, ⟨d, added, kept⟩, writable⟩

/-- Whether a store in files goes through the steps of a session and answers their calls as a store
without files does; both have the same records and the same head then, which is a stored record. -/
structure Follows (genesis : Header) (f m : Store) (steps : List Step) (f' m' : Store) : Prop where
  answers : ∃ answers, f.session genesis steps = .ok (answers, f') ∧
    m.calls (Step.calls steps) = (answers, m')
  found : ∀ h, f'.find? h = m'.find? h
  head : (f'.call .head).1 = .ok (.head f'.head) ∧ (m'.call .head).1 = .ok (.head f'.head)
  stored : f'.find? f'.head.hash = some f'.head

theorem Mirrors.follows (mirrors : f.Mirrors g m) (first : Record.genesis genesis = .ok g)
    (steps : List Step) :
    ∃ f', Follows genesis f m steps f' (m.calls (Step.calls steps)).2 := by
  obtain ⟨f', run, mirrors'⟩ := mirrors.session first steps
  refine ⟨f', ⟨_, run, rfl⟩, congrFun mirrors'.find?, ⟨rfl, ?_⟩, f'.find?_head⟩
  rw [Store.call, mirrors'.head]

/-- Of a store in an empty directory and one without files, made for one network, the first answers
every session as the second answers its calls, wherever it is closed and opened again. No record that
is once stored is ever replaced. -/
theorem session_agrees (first : Record.genesis genesis = .ok g) (path : String) :
    ∃ m f d, inMemory genesis = .ok m ∧ onDisk genesis (.empty path) = (.ok f, d) ∧
      ∀ earlier later : List Step, ∃ f₁ m₁ f₂ m₂,
        Follows genesis f m earlier f₁ m₁ ∧ Follows genesis f m (earlier ++ later) f₂ m₂ ∧
        (∀ h r, m₁.find? h = some r → m₂.find? h = some r) ∧
        ∀ h r, f₁.find? h = some r → f₂.find? h = some r := by
  obtain ⟨m, f, d, made, opened, mirrors⟩ := exists_mirrors first path
  refine ⟨m, f, d, made, opened, ?_⟩
  intro earlier later
  obtain ⟨f₁, follows₁⟩ := mirrors.follows first earlier
  obtain ⟨f₂, follows₂⟩ := mirrors.follows first (earlier ++ later)
  have kept : ∀ h r, (m.calls (Step.calls earlier)).2.find? h = some r →
      (m.calls (Step.calls (earlier ++ later))).2.find? h = some r := by
    rw [Step.calls_append, (m.calls_append _ _).2]
    exact (m.calls (Step.calls earlier)).2.within_calls (Step.calls later)
  refine ⟨f₁, _, f₂, _, follows₁, follows₂, kept, ?_⟩
  intro h r found
  rw [follows₁.found] at found
  rw [follows₂.found]
  exact kept h r found

/-- So it is on the unit test network where a header is put twice, at two heights, and the store is
opened again after either. -/
theorem session_agrees_unitTest :
    ∃ m f d, inMemory Params.unitTest.genesis = .ok m ∧
      onDisk Params.unitTest.genesis (.empty "store") = (.ok f, d) ∧
      ∃ f₁ m₁ f₂ m₂,
        Follows Params.unitTest.genesis f m [.call (.put unitTestNext), .reopen] f₁ m₁ ∧
        Follows Params.unitTest.genesis f m
          ([.call (.put unitTestNext), .reopen] ++
            [.call (.put { unitTestNext with height := 7 }), .reopen,
              .call (.setHead unitTestNext), .call .head, .call (.ancestor unitTestNext 0)])
          f₂ m₂ ∧
        (∀ h r, m₁.find? h = some r → m₂.find? h = some r) ∧
        ∀ h r, f₁.find? h = some r → f₂.find? h = some r := by
  obtain ⟨g, first⟩ := Params.sound_unitTest.exists_genesis
  obtain ⟨m, f, d, made, opened, agrees⟩ := session_agrees first "store"
  exact ⟨m, f, d, made, opened, agrees _ _⟩

end Store

end HeaviestChain
