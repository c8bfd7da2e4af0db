import HeaviestChain.Proofs.Params.Sound
import HeaviestChain.Proofs.Store.Kept
import HeaviestChain.Proofs.Tree.Growth

/-!
Stores that are opened again. A store comes back from its files as it was if it has logged nothing
since it was opened, or only blanks stood behind the last line feed of its log; otherwise the log
does not open any more.
-/

namespace HeaviestChain

theorem Catalog.size_foldl_file (c : Catalog) (records : List Record) :
    (records.foldl file c).size = c.size + records.length := by
  induction records generalizing c with
  | nil => rfl
  | cons r records ih =>
    rw [List.foldl_cons, ih, List.length_cons]
    show c.size + 1 + records.length = _
    omega

namespace Store

variable {s s' : Store} {g r : Record} {d d' : Directory} {text : List Char} {c : Catalog}
  {added : List Record} {genesis : Header}

/-- Whether a store comes back from its files as it is. -/
def Reopens (s : Store) (genesis : Header) : Prop :=
  ∃ k, s.disk = some k ∧ ∃ s' d, onDisk genesis k.directory = (.ok s', d) ∧
    (∀ h, s'.find? h = s.find? h) ∧ s'.head = s.head

/-- Whether the files of a store do not open any more, for a line of the log that is no record. -/
def Jams (s : Store) (genesis : Header) (path : String) (line : Nat) : Prop :=
  ∃ k, s.disk = some k ∧
    Store.onDisk genesis k.directory = (.error (.corrupt (.badLine path line)), k.directory)

/-- What becomes of a store that was opened in a directory: it comes back if only blanks stood
behind the last line feed of the log, or if no record was added, and only then. -/
structure Returns (s : Store) (genesis : Header) (d : Directory) : Prop where
  reopens : s.Reopens genesis ↔ Log.Clean (Log.textIn d) ∨ Log.read d = .ok s.catalog
  jams : ¬Log.Clean (Log.textIn d) → Log.read d ≠ .ok s.catalog →
    s.Jams genesis (Log.pathIn d) ((Log.textIn d).count '\n' + 1)

theorem Jams.not_reopens {path : String} {line : Nat} (jams : s.Jams genesis path line) :
    ¬s.Reopens genesis := by
  rintro ⟨k, disk, s', d, opened, -⟩
  obtain ⟨k', disk', failed⟩ := jams
  obtain rfl := Option.some.inj (disk.symm.trans disk')
  cases failed.symm.trans opened

theorem KeptIn.reopens (kept : s.KeptIn g d text c added) (first : Record.genesis genesis = .ok g)
    (read : Log.read d = .ok s.catalog) : s.Reopens genesis := by
  obtain ⟨s', d', opened, catalog, head⟩ := kept.onDisk first read
  refine ⟨⟨d, true⟩, kept.disk, s', d', opened, ?_, head⟩
  intro h
  rw [find?, find?, catalog]

/-- A store that has added records behind a torn line jams. -/
theorem KeptIn.jams (kept : s.KeptIn g d text c added) (replay : Log.replay (Log.pathIn d) text = .ok c)
    (torn : ¬Log.Clean text) (some : added ≠ []) (genesis : Header) :
    s.Jams genesis (Log.pathIn d) (text.count '\n' + 1) := by
  obtain ⟨r, rest, rfl⟩ := List.exists_cons_of_ne_nil some
  have read := Log.read_of_file kept.log
  rw [Log.replay_append_of_torn torn replay] at read
  refine ⟨⟨d, true⟩, kept.disk, ?_⟩
  rw [Store.onDisk, read]

theorem KeptIn.returns (kept : s.KeptIn g d' (Log.textIn d) c added)
    (first : Record.genesis genesis = .ok g) (read : Log.read d = .ok c) (path : d'.path = d.path) :
    s.Returns genesis d := by
  have same : Log.pathIn d' = Log.pathIn d := by rw [Log.pathIn, Log.pathIn, path]
  have replay := Log.replay_of_read read
  rw [← same] at replay
  have file := Log.read_of_file kept.log
  by_cases none : added = []
  · -- the log holds the text that was read when the store was opened
    subst none
    have still : s.catalog = c := kept.catalog
    rw [Log.entries, List.flatMap_nil, List.append_nil, replay, ← still] at file
    rw [← still] at read
    exact ⟨⟨fun _ => .inr read, fun _ => kept.reopens first file⟩, fun _ more => absurd read more⟩
  · -- the catalog grew with every record added, so it is not the one that was read
    have grew : Log.read d ≠ .ok s.catalog := by
      intro e
      have size := congrArg Catalog.size (Except.ok.inj (read.symm.trans e))
      rw [kept.catalog, Catalog.size_foldl_file] at size
      exact none (List.length_eq_zero_iff.1 (by omega))
    by_cases clean : Log.Clean (Log.textIn d)
    · rw [Log.replay_append_of_clean clean replay, ← kept.catalog] at file
      exact ⟨⟨fun _ => .inl clean, fun _ => kept.reopens first file⟩, fun torn => absurd clean torn⟩
    · have jams := kept.jams replay clean none genesis
      refine ⟨⟨fun reopens => absurd reopens jams.not_reopens, ?_⟩, fun _ _ => same ▸ jams⟩
      rintro (clean' | still)
      · exact absurd clean' clean
      · exact absurd still grew

theorem keptIn_of_changed (opened : Store.onDisk genesis d = (.ok s, d')) (changes : List Change) :
    ∃ g c added k, Record.genesis genesis = .ok g ∧ Log.read d = .ok c ∧ k.path = d.path ∧
      (s.changed changes).KeptIn g k (Log.textIn d) c added := by
  obtain ⟨g, c, added, first, read, path, kept⟩ := keptIn_of_onDisk opened
  obtain ⟨k, added', path', kept'⟩ := kept.changed changes
  exact ⟨g, c, added', k, first, read, path'.trans path, kept'⟩

/-- After every sequence of changes, a store that was opened in a directory comes back as it was
exactly if it added no record or only blanks stood behind the last line feed of the log. Otherwise
its log does not open any more. -/
theorem changes_durable (opened : Store.onDisk genesis d = (.ok s, d')) (changes : List Change) :
    (s.changed changes).Returns genesis d := by
  obtain ⟨g, c, added, k, first, read, path, kept⟩ := keptIn_of_changed opened changes
  exact kept.returns first read path

/-- The start of a record, at which a writer stopped. -/
def torn : List Char := "\x7b\"header\":\x7b\"vers".toList

/-- A directory of a first record, whose log has a torn line behind it. -/
def tornAfter (g : Record) : Directory :=
  ⟨"store", [(Log.name, .file (Utf8.encode (Log.entries [g] ++ torn))),
    (Disk.headName, .file (Disk.headLine g.hash))]⟩

theorem find?_tornAfter (g : Record) :
    (tornAfter g).find? Log.name = some (.file (Utf8.encode (Log.entries [g] ++ torn))) := rfl

theorem read_tornAfter (g : Record) : Log.read (tornAfter g) = .ok (Catalog.empty.file g) := by
  rw [Log.read_of_file (find?_tornAfter g), Log.replay_entries_torn (by decide) rfl]
  rfl

/-- A torn line does not keep a store from opening. -/
theorem onDisk_tornAfter (first : Record.genesis genesis = .ok g) :
    ∃ s d', Store.onDisk genesis (tornAfter g) = (.ok s, d') := by
  have opened := Directory.append_of_file (find?_tornAfter g) []
  obtain ⟨named, stands, parsed⟩ : (tornAfter g).Names g.hash :=
    Directory.names_of_headLine rfl
  have found : (Catalog.empty.file g).find? g.hash = some g := by simp
  obtain ⟨-, -, others⟩ := Log.append_of_read (read_tornAfter g) opened
  have stands := (others Disk.headName (by decide)).trans stands
  obtain ⟨s, made, -⟩ := resume_of_names (by rw [found]; rfl) parsed found
  unfold Store.onDisk
  simp only [read_tornAfter, opened, first, stands]
  exact ⟨s, _, by rw [made]⟩

/-- So it is on the unit test network for a store that opens behind a torn line and is not
changed but for its head. -/
theorem changes_durable_unitTest :
    ∃ g s d', Record.genesis Params.unitTest.genesis = .ok g ∧
      Store.onDisk Params.unitTest.genesis (tornAfter g) = (.ok s, d') ∧
      (s.changed [.setHead g.hash]).Returns Params.unitTest.genesis (tornAfter g) := by
  obtain ⟨g, first⟩ := Params.sound_unitTest.exists_genesis
  obtain ⟨s, d', opened⟩ := onDisk_tornAfter first
  exact ⟨g, s, d', first, opened, changes_durable opened _⟩

/-- The record of the header mined on the first one of the unit test network. -/
def unitTestNext : Record := ⟨Params.unitTestNext, 1, Work.ofNat 4⟩

/-- There a store that opens behind a torn line does not come back once a record is put. -/
theorem torn_log_jams :
    ∃ g s d', Record.genesis Params.unitTest.genesis = .ok g ∧
      Store.onDisk Params.unitTest.genesis (tornAfter g) = (.ok s, d') ∧
      ¬(s.changed [.put unitTestNext]).Reopens Params.unitTest.genesis := by
  obtain ⟨g, first⟩ := Params.sound_unitTest.exists_genesis
  obtain ⟨s, d', opened⟩ := onDisk_tornAfter first
  refine ⟨g, s, d', first, opened, ?_⟩
  obtain ⟨g', c, added, k, first', read, path, kept⟩ :=
    keptIn_of_changed opened [.put unitTestNext]
  rw [(kept.returns first' read path).reopens,
    Log.textIn_of_file (find?_tornAfter g), read_tornAfter]
  rintro (clean | still)
  · have split : Log.entries [g] ++ torn = g.render ++ '\n' :: torn := by simp [Log.entries]
    rw [split, Log.Clean, Log.tail_append (by decide)] at clean
    exact absurd clean (by decide)
  · obtain ⟨target, -, own⟩ := Record.genesis_eq_ok.1 first
    have apart : g.hash ≠ unitTestNext.hash := by
      rw [Record.hash, own, Params.hash_genesis_unitTest, Record.hash, unitTestNext,
        Params.hash_unitTestNext]
      decide
    have stored := s.catalog.isSome_find?_insert unitTestNext
    have same : s.catalog.insert unitTestNext = Catalog.empty.file g :=
      (Except.ok.inj still).symm
    rw [same, Catalog.find?_file, if_neg apart, Catalog.find?_empty] at stored
    cases stored

end Store

end HeaviestChain
