import HeaviestChain.Proofs.Record.Prefix
import HeaviestChain.Proofs.Store.Durability
import HeaviestChain.Proofs.Store.Writes

/-!
Stores whose process stopped. Wherever that happens, from the first opening in an empty directory
on, the directory opens again, as the store was before or after the change that was going on. A
record that broke off is passed over, and the head is never a record that the log lacks.
-/

namespace HeaviestChain

namespace Log

variable {d : Directory} {path : String} {records : List Record} {r : Record} {n : Nat}

/-- A last record without its line feed is read as any other. -/
theorem replay_entries_unended (records : List Record) (r : Record) :
    replay path (entries records ++ r.render) =
      .ok ((records ++ [r]).foldl Catalog.file .empty) := by
  obtain ⟨rest, e⟩ := r.render_eq_cons
  have some : r.render ≠ [] := by rw [e]; exact List.cons_ne_nil _ _
  have whole : '\n' ∉ r.render := r.written_toJson.shown.feed_not_mem
  have last : lines r.render = [⟨[] ++ r.render, false⟩] := by
    rw [lines, linesFrom_of_end whole, List.reverse_nil, List.nil_append, if_neg some]
  rw [replay, lines_entries_append, replayFrom_append, replayFrom_entries, last, List.foldl_append]
  rw [Except.bind, replayFrom_record rfl, replayFrom]
  rfl

/-- A log whose last record broke off behind some byte is read without that record, unless only the
line feed is missing. -/
theorem read_of_torn
    (file : d.find? name = some (.file (Utf8.encode (entries records) ++ (line r).take n))) :
    read d = .ok ((if n < r.render.length then records else records ++ [r]).foldl Catalog.file
      .empty) := by
  have ascii : Utf8.Ascii (r.render ++ ['\n']) := by
    rw [Utf8.ascii_append]
    exact ⟨r.ascii_render, by decide⟩
  rw [line, Utf8.take_encode ascii, ← Utf8.encode_append] at file
  rw [read_of_file file]
  by_cases short : n < r.render.length
  · have part : (r.render ++ ['\n']).take n = r.render.take n :=
      List.take_append_of_le_length (Nat.le_of_lt short)
    have whole : '\n' ∉ r.render.take n := fun m =>
      r.written_toJson.shown.feed_not_mem (List.mem_of_mem_take m)
    rw [part, if_pos short]
    exact replay_entries_torn whole (r.parse?_take short) records
  · rw [if_neg short]
    by_cases unended : n = r.render.length
    · rw [unended, List.take_left]
      exact replay_entries_unended records r
    · have all : (r.render ++ ['\n']).take n = entries [r] := by
        have long : (r.render ++ ['\n']).length ≤ n := by
          rw [List.length_append, List.length_singleton]
          omega
        rw [List.take_of_length_le long, entries, List.flatMap_singleton]
      rw [all, ← entries_append, replay_entries]

end Log

namespace Store

variable {s : Store} {g r : Record} {d d₀ k : Directory} {c : Catalog} {path : String}
  {genesis : Header} {h : Hash} {finished unfinished : List Change}

/-! ### Opening again -/

theorem onDisk_of_headless (first : Record.genesis genesis = .ok g) (plain : d.Plain)
    (read : Log.read d = .ok c) (headless : d.find? Disk.headName = none) :
    ∃ s' d', Store.onDisk genesis d = (.ok s', d') ∧ s'.catalog = c.insert g ∧
      (c.insert g).find? g.hash = some s'.head := by
  obtain ⟨old, made⟩ := plain.append Log.name []
  obtain ⟨-, -, others⟩ := Log.append_of_read read made
  have headless' := (others Disk.headName (by decide)).trans headless
  have plain' := plain.set Log.name (old ++ [])
  have logged : (if (c.find? g.hash).isSome then
      (⟨d.set Log.name (.file (old ++ [])), true⟩ : Disk)
      else Disk.log ⟨d.set Log.name (.file (old ++ [])), true⟩ g).directory.Plain := by
    split
    · exact plain'
    · exact Disk.plain_log (d := ⟨_, true⟩) plain' g
  obtain ⟨left, written, -⟩ := Disk.writeHead_of_plain logged g.hash
  simp only [Store.onDisk, read, made, first, headless', begin, written]
  exact ⟨_, _, rfl, rfl, (Option.some_get _).symm⟩

/-! ### Stopping in a change -/

/-- The records that changes put, in turn. -/
def puts : List Change → List Record
  | [] => []
  | .put r :: rest => r :: puts rest
  | .setHead _ :: rest => puts rest

theorem changed_cons (s : Store) (c : Change) (changes : List Change) :
    s.changed (c :: changes) = (s.change c).changed changes := rfl

theorem changed_append (s : Store) (earlier later : List Change) :
    s.changed (earlier ++ later) = (s.changed earlier).changed later := List.foldl_append

/-- A store has of each hash what it had, or the first record put. -/
theorem find?_changed (s : Store) (changes : List Change) (h : Hash) :
    (s.changed changes).find? h =
      (s.find? h).or ((puts changes).find? fun r => r.hash = h) := by
  induction changes generalizing s with
  | nil => simp [changed, puts]
  | cons c changes ih =>
    rw [changed_cons, ih]
    cases c with
    | put r =>
      have inserted : (s.change (.put r)).find? h =
          (s.find? h).or (if r.hash = h then some r else none) := Catalog.find?_insert _ r h
      rw [inserted, Option.or_assoc, puts]
      by_cases own : r.hash = h <;> simp [own]
    | setHead x =>
      have same : (s.change (.setHead x)).find? h = s.find? h :=
        congrArg (Catalog.find? · h) (s.catalog_setHead x)
      rw [same, puts]

theorem head_setHead (w : s.Writable) (found : s.find? h = some r) : (s.setHead h).2.head = r := by
  obtain rfl : r.hash = h := Catalog.hash_of_find? found
  obtain ⟨next, -, ⟨e, head, -⟩ | ⟨x, -, -, faulty⟩⟩ := setHead_of_mem (Catalog.mem_of_find? found)
  · rw [e]
    exact head
  · exact absurd w faulty

/-- Whether a directory is read as a store after some changes: it has the same records, and names
its head. -/
structure ReadAs (s : Store) (done : List Change) (d : Directory) : Prop where
  read : Log.read d = .ok (s.changed done).catalog
  names : d.Names (s.changed done).head.hash

theorem KeptIn.stops_put {added : List Record} (kept : s.KeptIn g k [] .empty added)
    (new : s.find? r.hash = none) (stops : k.Stops [.append Log.name (Log.line r)] d) :
    s.ReadAs [] d ∨ s.ReadAs [.put r] d := by
  have log := kept.log
  rw [List.nil_append] at log
  obtain ⟨n, file, others⟩ := stops.append_cases log
  have names := kept.names.congr (others Disk.headName (by decide))
  have read := Log.read_of_torn file
  have before : s.catalog = added.foldl Catalog.file .empty := kept.catalog
  -- a line that lacks only its line feed is a whole record
  by_cases short : n < r.render.length
  · rw [if_pos short, ← before] at read
    exact .inl ⟨read, names⟩
  · have behind : (s.put r).catalog = (added ++ [r]).foldl Catalog.file .empty := by
      have new : s.catalog.find? r.hash = none := new
      rw [List.foldl_append, ← before]
      show s.catalog.insert r = s.catalog.file r
      rw [Catalog.insert, new]
      rfl
    rw [if_neg short, ← behind] at read
    exact .inr ⟨read, names⟩

theorem KeptIn.stops_setHead {added : List Record} (kept : s.KeptIn g k [] .empty added)
    (w : s.Writable) (found : s.find? h = some r) (stops : k.Stops (Disk.headWrites h) d) :
    s.ReadAs [] d ∨ s.ReadAs [.setHead h] d := by
  have plain : k.Plain := w _ kept.disk
  obtain ⟨head, others⟩ := Disk.stops_headWrites plain stops
  have same : d.find? Log.name = k.find? Log.name := others Log.name (by decide) (by decide)
  have read : Log.read d = .ok s.catalog := by
    rw [Log.read_of_entries (same.trans kept.log), kept.catalog]
  rcases head with old | new
  · exact .inl ⟨read, kept.names.congr old⟩
  · have own : (s.setHead h).2.head.hash = h := by
      rw [head_setHead w found]
      exact Catalog.hash_of_find? found
    refine .inr ⟨?_, ?_⟩
    · show _ = Except.ok (s.setHead h).2.catalog
      rw [catalog_setHead, read]
    · show d.Names (s.setHead h).2.head.hash
      rw [own]
      exact Directory.names_of_headLine new

/-- What is left of a change is read as the store before it or behind it. -/
theorem KeptIn.stops {added : List Record} {change : Change} (kept : s.KeptIn g k [] .empty added)
    (w : s.Writable) (stops : k.Stops (s.writes change) d) :
    s.ReadAs [] d ∨ s.ReadAs [change] d := by
  -- where nothing is written the files are those before
  have still (same : d = k) : s.ReadAs [] d := by
    rw [same]
    exact ⟨kept.read, kept.names⟩
  cases change with
  | put r =>
    cases found : s.find? r.hash with
    | some x =>
      rw [writes, found] at stops
      exact .inl (still stops.nil)
    | none =>
      rw [writes, found] at stops
      exact kept.stops_put found stops
  | setHead h =>
    cases found : s.find? h with
    | none =>
      rw [writes, found] at stops
      exact .inl (still stops.nil)
    | some r =>
      rw [writes, found] at stops
      exact kept.stops_setHead w found stops

/-! ### Stopping in a run -/

/-- The directories that a run leaves which stops. A store that was opened in an empty directory has
finished some changes and was in the course of another one, or of its first opening. -/
inductive Leaves (s : Store) (path : String) : List Change → List Change → Directory → Prop where
  | opening {d : Directory} (stops : (Directory.empty path).Stops (opening s.head) d) :
      Leaves s path [] [] d
  | changing {finished : List Change} {change : Change} {k : Disk} {d : Directory}
      (disk : (s.changed finished).disk = some k)
      (stops : k.directory.Stops ((s.changed finished).writes change) d) :
      Leaves s path finished [change] d

theorem keptIn_of_empty (opened : onDisk genesis (.empty path) = (.ok s, d₀)) :
    Record.genesis genesis = .ok s.head ∧ s.catalog = Catalog.empty.file s.head ∧ s.Writable ∧
      ∃ added, s.KeptIn s.head d₀ [] .empty added := by
  obtain ⟨first, catalog, w⟩ := (Fresh.onDisk opened).records
  obtain ⟨g, c, added, first', read, -, kept⟩ := keptIn_of_onDisk opened
  obtain rfl := Except.ok.inj (first.symm.trans first')
  have unread : Log.read (.empty path) = .ok .empty := by
    rw [Log.read, Directory.find?_empty]
  obtain rfl := Except.ok.inj (read.symm.trans unread)
  have text : Log.textIn (.empty path) = [] := by rw [Log.textIn, Directory.find?_empty]
  rw [text] at kept
  exact ⟨first, catalog, w, added, kept⟩

/-- What is left of a first opening has a log that lacks at most the first record, and no head or
that one. -/
theorem read_of_opening (stops : (Directory.empty path).Stops (opening g) d) :
    ∃ c, Log.read d = .ok c ∧
      (c = .empty ∧ d.find? Disk.headName = none ∨
        c = Catalog.empty.file g ∧
          (d.find? Disk.headName = none ∨
            d.find? Disk.headName = some (.file (Disk.headLine g.hash)))) := by
  have created : (Directory.empty path).perform (.append Log.name []) =
      (Directory.empty path).set Log.name (.file []) := rfl
  have log : ((Directory.empty path).set Log.name (.file [])).find? Log.name =
      some (.file []) := by rw [Directory.find?_set, if_pos rfl]
  have headless : ((Directory.empty path).set Log.name (.file [])).find? Disk.headName = none := by
    rw [Directory.find?_set, if_neg (by decide), Directory.find?_empty]
  cases stops with
  | before => exact ⟨.empty, by rw [Log.read, Directory.find?_empty], .inl ⟨rfl, rfl⟩⟩
  | within begun =>
    cases begun with
    | append _ _ n =>
      have read : Log.read ((Directory.empty path).set Log.name (.file [])) =
          .ok ([].foldl Catalog.file .empty) := Log.read_of_entries log
      rw [List.take_nil, created]
      exact ⟨.empty, read, .inl ⟨rfl, headless⟩⟩
  | behind stops =>
    rw [created] at stops
    have parts : Directory.Stops _ ([.append Log.name (Log.line g)] ++ Disk.headWrites g.hash) d :=
      stops
    rcases parts.of_append with logging | naming
    · obtain ⟨n, file, others⟩ := logging.append_cases log
      have none := (others Disk.headName (by decide)).trans headless
      have torn : d.find? Log.name =
          some (.file (Utf8.encode (Log.entries []) ++ (Log.line g).take n)) := file
      have read := Log.read_of_torn torn
      by_cases short : n < g.render.length
      · rw [if_pos short] at read
        exact ⟨_, read, .inl ⟨rfl, none⟩⟩
      · rw [if_neg short] at read
        exact ⟨_, read, .inr ⟨rfl, .inl none⟩⟩
    · rw [Directory.performAll_cons, Directory.perform_append log] at naming
      have plain := ((Directory.plain_empty path).set Log.name []).set Log.name ([] ++ Log.line g)
      obtain ⟨head, others⟩ := Disk.stops_headWrites plain naming
      have file := others Log.name (by decide) (by decide)
      rw [Directory.find?_set, if_pos rfl, Log.line_eq, List.nil_append] at file
      rw [Directory.find?_set, if_neg (by decide), headless] at head
      exact ⟨_, Log.read_of_entries file, .inr ⟨rfl, head⟩⟩

theorem opens_of_opening (first : Record.genesis genesis = .ok g)
    (stops : (Directory.empty path).Stops (opening g) d) :
    ∃ s' d', onDisk genesis d = (.ok s', d') ∧ s'.catalog = Catalog.empty.file g ∧ s'.head = g ∧
      (d.Names g.hash ∨ d.find? Disk.headName = none) := by
  have plain := (Directory.plain_empty path).stops stops
  have known : (Catalog.empty.file g).find? g.hash = some g := by simp
  -- without a head the first record is added unless it is logged
  have begins {c : Catalog} (read : Log.read d = .ok c) (same : c.insert g = Catalog.empty.file g)
      (headless : d.find? Disk.headName = none) :
      ∃ s' d', onDisk genesis d = (.ok s', d') ∧ s'.catalog = Catalog.empty.file g ∧ s'.head = g ∧
        (d.Names g.hash ∨ d.find? Disk.headName = none) := by
    obtain ⟨s', d', opened, catalog, head⟩ := onDisk_of_headless first plain read headless
    rw [same] at catalog head
    exact ⟨s', d', opened, catalog, Option.some.inj (head.symm.trans known), .inr headless⟩
  obtain ⟨c, read, ⟨rfl, headless⟩ | ⟨rfl, headless | stands⟩⟩ := read_of_opening stops
  · exact begins read (by rw [Catalog.insert, if_neg (by simp)]) headless
  · exact begins read (Catalog.insert_of_some known) headless
  · have names := Directory.names_of_headLine stands
    obtain ⟨s', d', opened, catalog, head⟩ :=
      onDisk_of_names first read (by rw [known]; rfl) names known
    exact ⟨s', d', opened, catalog, head, .inl names⟩

/-- Whatever a run leaves opens as its store after the finished changes, the one that it was in the
course of among them or not. -/
theorem Leaves.opens (leaves : s.Leaves path finished unfinished d)
    (opened : onDisk genesis (.empty path) = (.ok s, d₀)) :
    ∃ s' d' done, onDisk genesis d = (.ok s', d') ∧
      (done = finished ∨ done = finished ++ unfinished) ∧
      s'.catalog = (s.changed done).catalog ∧ s'.head = (s.changed done).head ∧
      (d.Names s'.head.hash ∨ d.find? Disk.headName = none ∧ s'.head = s.head) := by
  obtain ⟨first, catalog, w, added, kept⟩ := keptIn_of_empty opened
  cases leaves with
  | opening stops =>
    obtain ⟨s', d', opened', catalog', head, named⟩ := opens_of_opening first stops
    refine ⟨s', d', [], opened', .inl rfl, catalog'.trans catalog.symm, head, ?_⟩
    rw [head]
    exact named.imp_right fun headless => ⟨headless, rfl⟩
  | @changing _ change k _ disk stops =>
    obtain ⟨d₁, added₁, -, kept₁⟩ := kept.changed finished
    obtain rfl := Option.some.inj (kept₁.disk.symm.trans disk)
    obtain ⟨done, either, read⟩ : ∃ done, (done = finished ∨ done = finished ++ [change]) ∧
        s.ReadAs done d := by
      rcases kept₁.stops (w.changed finished) stops with before | behind
      · exact ⟨finished, .inl rfl, before.read, before.names⟩
      · refine ⟨finished ++ [change], .inr rfl, ?_⟩
        obtain ⟨read, names⟩ := behind
        rw [← changed_append] at read names
        exact ⟨read, names⟩
    obtain ⟨d₂, added₂, -, kept₂⟩ := kept.changed done
    obtain ⟨s', d', opened', catalog', head⟩ :=
      onDisk_of_names first read.read kept₂.first read.names (s.changed done).find?_head
    exact ⟨s', d', done, opened', either, catalog', head, .inl (by rw [head]; exact read.names)⟩

/-- Wherever a run stops, the directory opens again. The store then has of each hash the first of
the first record, the records of the finished changes and perhaps the one that was going on; and its
head is the record that the file of the head names, or the first record if there is no such file. -/
theorem stops_recovered (opened : onDisk genesis (.empty path) = (.ok s, d₀))
    (leaves : s.Leaves path finished unfinished d) :
    ∃ s' d' done, onDisk genesis d = (.ok s', d') ∧ Record.genesis genesis = .ok s.head ∧
      (done = finished ∨ done = finished ++ unfinished) ∧
      (∀ h, s'.find? h = (s.head :: puts done).find? fun r => r.hash = h) ∧
      s'.head = (s.changed done).head ∧
      (d.Names s'.head.hash ∨ d.find? Disk.headName = none ∧ s'.head = s.head) := by
  obtain ⟨first, begun, -, -, -⟩ := keptIn_of_empty opened
  obtain ⟨s', d', done, opened', either, catalog, head, named⟩ := leaves.opens opened
  refine ⟨s', d', done, opened', first, either, ?_, head, named⟩
  intro h
  have found : s.find? h = if s.head.hash = h then some s.head else none := by
    rw [find?, begun, Catalog.find?_file, Catalog.find?_empty]
  have changed : s'.find? h = (s.changed done).find? h := by rw [find?, find?, catalog]
  rw [changed, find?_changed, found, List.find?_cons]
  by_cases own : s.head.hash = h <;> simp [own]

/-- So it is on the unit test network where the line of a record broke off behind some bytes. -/
theorem stops_recovered_unitTest :
    ∃ s d₀ d, onDisk Params.unitTest.genesis (.empty "chain") = (.ok s, d₀) ∧
      s.Leaves "chain" [] [.put unitTestNext] d ∧
      d.find? Log.name = some (.file (Utf8.encode (Log.entries [s.head]) ++
        (Log.line unitTestNext).take 17)) ∧
      ∃ s' d' done, onDisk Params.unitTest.genesis d = (.ok s', d') ∧
        Record.genesis Params.unitTest.genesis = .ok s.head ∧
        (done = [] ∨ done = [] ++ [.put unitTestNext]) ∧
        (∀ h, s'.find? h = (s.head :: puts done).find? fun r => r.hash = h) ∧
        s'.head = (s.changed done).head ∧
        (d.Names s'.head.hash ∨ d.find? Disk.headName = none ∧ s'.head = s.head) := by
  obtain ⟨g, first⟩ := Params.sound_unitTest.exists_genesis
  obtain ⟨s, opened, disk⟩ := onDisk_empty_writes first "chain"
  obtain ⟨first', catalog, -⟩ := keptIn_of_empty opened
  obtain rfl := Except.ok.inj (first'.symm.trans first)
  have apart : s.head.hash ≠ unitTestNext.hash := by
    obtain ⟨target, -, own⟩ := Record.genesis_eq_ok.1 first'
    rw [Record.hash, own, Params.hash_genesis_unitTest, Record.hash, unitTestNext,
      Params.hash_unitTestNext]
    decide
  have new : s.find? unitTestNext.hash = none := by
    rw [find?, catalog, Catalog.find?_file, if_neg apart, Catalog.find?_empty]
  have log : ((Directory.empty "chain").performAll (opening s.head)).find? Log.name =
      some (.file (Log.line s.head)) := rfl
  have leaves : s.Leaves "chain" [] [.put unitTestNext]
      (((Directory.empty "chain").performAll (opening s.head)).perform
        (.append Log.name ((Log.line unitTestNext).take 17))) := by
    refine .changing disk ?_
    show Directory.Stops _ (if (s.find? unitTestNext.hash).isSome then _ else _) _
    rw [new]
    exact .within (.append Log.name (Log.line unitTestNext) 17) []
  refine ⟨s, _, _, opened, leaves, ?_, stops_recovered opened leaves⟩
  rw [Directory.perform_append log, Directory.find?_set, if_pos rfl, Log.line_eq]

end Store

end HeaviestChain
