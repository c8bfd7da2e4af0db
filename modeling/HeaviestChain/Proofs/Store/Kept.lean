import HeaviestChain.Proofs.Store.Disk
import HeaviestChain.Store.Opening

/-!
Stores and their files. An open store has its records and its head in its files, behind whatever
text the log held when it was opened, and every change of the store keeps it so.
-/

namespace HeaviestChain

namespace Store

/-- A change of a store: a record is put, or the record with a hash is made the head. -/
inductive Change where
  | put (r : Record)
  | setHead (h : Hash)
  deriving DecidableEq

/-- The store after a change. -/
def change (s : Store) : Change → Store
  | .put r => s.put r
  | .setHead h => (s.setHead h).2

/-- The store after changes in turn. -/
def changed (s : Store) (changes : List Change) : Store := changes.foldl change s

/-- Whether a store has its records and its head in a directory, whose log holds the added records
behind a text that was read as a catalog. -/
structure KeptIn (s : Store) (g : Record) (d : Directory) (text : List Char) (c : Catalog)
    (added : List Record) : Prop where
  disk : s.disk = some ⟨d, true⟩
  log : d.find? Log.name = some (.file (Utf8.encode (text ++ Log.entries added)))
  names : d.Names s.head.hash
  catalog : s.catalog = added.foldl Catalog.file c
  first : (s.catalog.find? g.hash).isSome

variable {s s' : Store} {g r : Record} {d d' : Directory} {text : List Char} {c : Catalog}
  {added : List Record} {genesis : Header}

theorem catalog_setHead (s : Store) (h : Hash) : (s.setHead h).2.catalog = s.catalog := by
  unfold setHead
  split
  · rfl
  · split
    · rfl
    · split <;> rfl

theorem KeptIn.read (kept : s.KeptIn g d [] .empty added) : Log.read d = .ok s.catalog := by
  rw [Log.read_of_entries kept.log, kept.catalog]

theorem KeptIn.put (kept : s.KeptIn g d text c added) (r : Record) :
    ∃ d' added', d'.path = d.path ∧ (s.put r).KeptIn g d' text c added' := by
  have catalog : (s.put r).catalog = s.catalog.insert r := rfl
  cases found : s.catalog.find? r.hash with
  | some s₀ =>
    -- the first record of a hash stays, and nothing is logged
    have same : (s.put r).catalog = s.catalog := catalog.trans (Catalog.insert_of_some found)
    have disk : (s.put r).disk = s.disk := if_pos (by rw [find?, found]; rfl)
    exact ⟨d, added, rfl, disk.trans kept.disk, kept.log, kept.names, same.trans kept.catalog,
      same ▸ kept.first⟩
  | none =>
    have filed : (s.put r).catalog = s.catalog.file r :=
      catalog.trans (by rw [Catalog.insert, found]; rfl)
    have disk : (s.put r).disk = s.disk.map (·.log r) :=
      if_neg (by rw [find?, found]; simp)
    rw [kept.disk, Option.map_some, Disk.log_of_file rfl kept.log, Log.line_eq,
      ← Utf8.encode_append, List.append_assoc, ← Log.entries_append] at disk
    refine ⟨d.set Log.name (.file (Utf8.encode (text ++ Log.entries (added ++ [r])))),
      added ++ [r], rfl, disk, by rw [Directory.find?_set, if_pos rfl], kept.names.congr ?_, ?_, ?_⟩
    · rw [Directory.find?_set, if_neg (by decide)]
    · rw [filed, kept.catalog, List.foldl_append]
      rfl
    · rw [filed, Catalog.find?_file]
      split
      · rfl
      · exact kept.first

theorem KeptIn.setHead (kept : s.KeptIn g d text c added) (h : Hash) :
    ∃ d', d'.path = d.path ∧ (s.setHead h).2.KeptIn g d' text c added := by
  unfold Store.setHead
  split
  · exact ⟨d, rfl, kept⟩
  · rename_i r found
    have own : r.hash = h := Catalog.hash_of_find? found
    split
    · rename_i none
      cases kept.disk.symm.trans none
    · rename_i k disk
      obtain rfl := Option.some.inj (kept.disk.symm.trans disk)
      rcases Disk.writeHead_cases ⟨d, true⟩ h with ⟨x, e, failed, log, head⟩ | ⟨e, made, log, head⟩
      · obtain ⟨directory, attached⟩ := e
        obtain rfl : attached = true := log.attached
        rw [failed]
        exact ⟨directory, log.path, rfl, log.find?.trans kept.log, kept.names.congr head,
          kept.catalog, kept.first⟩
      · obtain ⟨directory, attached⟩ := e
        obtain rfl : attached = true := log.attached
        rw [made]
        refine ⟨directory, log.path, rfl, log.find?.trans kept.log, ?_, kept.catalog, kept.first⟩
        rw [own]
        exact Directory.names_of_headLine head

theorem KeptIn.change (kept : s.KeptIn g d text c added) (change : Change) :
    ∃ d' added', d'.path = d.path ∧ (s.change change).KeptIn g d' text c added' := by
  cases change with
  | put r => exact kept.put r
  | setHead h =>
    obtain ⟨d', path, kept'⟩ := kept.setHead h
    exact ⟨d', added, path, kept'⟩

theorem KeptIn.changed (kept : s.KeptIn g d text c added) (changes : List Change) :
    ∃ d' added', d'.path = d.path ∧ (s.changed changes).KeptIn g d' text c added' := by
  induction changes generalizing s d added with
  | nil => exact ⟨d, added, rfl, kept⟩
  | cons change changes ih =>
    obtain ⟨d₁, added₁, path, kept₁⟩ := kept.change change
    obtain ⟨d₂, added₂, path', kept₂⟩ := ih kept₁
    exact ⟨d₂, added₂, path'.trans path, kept₂⟩

/-- The first header is logged unless the log has it. -/
theorem exists_logged (log : d.find? Log.name = some (.file (Utf8.encode text))) (c : Catalog)
    (g : Record) :
    ∃ d' added, (if (c.find? g.hash).isSome then (⟨d, true⟩ : Disk) else Disk.log ⟨d, true⟩ g) =
        ⟨d', true⟩ ∧ d'.path = d.path ∧ c.insert g = added.foldl Catalog.file c ∧
      d'.find? Log.name = some (.file (Utf8.encode (text ++ Log.entries added))) := by
  by_cases known : (c.find? g.hash).isSome
  · refine ⟨d, [], if_pos known, rfl, if_pos known, ?_⟩
    rw [log, Log.entries, List.flatMap_nil, List.append_nil]
  · refine ⟨_, [g], (if_neg known).trans (Disk.log_of_file rfl log g), rfl, if_neg known, ?_⟩
    rw [Log.line_eq, ← Utf8.encode_append, Directory.find?_set, if_pos rfl]

theorem keptIn_of_begin (log : d.find? Log.name = some (.file (Utf8.encode text)))
    (e : begin c g d = (.ok s, d')) :
    ∃ added, d'.path = d.path ∧ s.KeptIn g d' text c added := by
  obtain ⟨d₁, added, logged, path, filed, log₁⟩ := exists_logged log c g
  simp only [begin, logged] at e
  rcases Disk.writeHead_cases ⟨d₁, true⟩ g.hash with ⟨x, k, failed, -, -⟩ | ⟨k, made, same, head⟩
  · rw [failed] at e
    cases e
  · obtain ⟨d₂, attached⟩ := k
    obtain rfl : attached = true := same.attached
    rw [made] at e
    cases e
    refine ⟨added, same.path.trans path, rfl, same.find?.trans log₁, ?_, filed,
      c.isSome_find?_insert g⟩
    have own : (((c.insert g).find? g.hash).get (c.isSome_find?_insert g)).hash = g.hash :=
      Catalog.hash_of_find? (Option.some_get _).symm
    exact (congrArg d₂.Names own).mpr (Directory.names_of_headLine head)

theorem keptIn_of_resume {head : Node} (log : d.find? Log.name = some (.file (Utf8.encode text)))
    (stands : d.find? Disk.headName = some head) (e : resume c g d head = .ok s) :
    s.KeptIn g d text c [] := by
  unfold resume at e
  split at e
  · cases e
  · rename_i first
    split at e
    · cases e
    · rename_i named read
      split at e
      · cases e
      · rename_i h parsed
        split at e
        · cases e
        · rename_i r found
          cases e
          have own : r.hash = h := Catalog.hash_of_find? found
          obtain rfl := Node.eq_of_text read
          refine ⟨rfl, ?_, ⟨named, stands, ?_⟩, rfl, ?_⟩
          · rw [log, Log.entries, List.flatMap_nil, List.append_nil]
          · rw [parsed]
            exact congrArg _ own.symm
          · exact Option.isSome_iff_ne_none.2 (mt Option.isNone_iff_eq_none.2 first)

theorem keptIn_of_onDisk (e : onDisk genesis d = (.ok s, d')) :
    ∃ g c added, Record.genesis genesis = .ok g ∧ Log.read d = .ok c ∧ d'.path = d.path ∧
      s.KeptIn g d' (Log.textIn d) c added := by
  unfold onDisk at e
  split at e
  · cases e
  · rename_i c read
    split at e
    · cases e
    · rename_i d₁ opened
      obtain ⟨path, log, -⟩ := Log.append_of_read read opened
      split at e
      · cases e
      · rename_i g first
        split at e
        · obtain ⟨added, path', kept⟩ := keptIn_of_begin log e
          exact ⟨g, c, added, first, read, path'.trans path, kept⟩
        · rename_i head stands
          obtain ⟨made, rfl⟩ := Prod.mk.inj e
          exact ⟨g, c, [], first, read, path, keptIn_of_resume log stands made⟩

theorem resume_of_names {named : List Char} {h : Hash} (first : (c.find? g.hash).isSome)
    (parsed : Disk.parseHead named = .ok h) (found : c.find? h = some r) :
    ∃ s', resume c g d (.file (Utf8.encode named)) = .ok s' ∧ s'.catalog = c ∧ s'.head = r := by
  have known : ¬(c.find? g.hash).isNone := by
    obtain ⟨r, e⟩ := Option.isSome_iff_exists.1 first
    rw [e]
    exact Bool.false_ne_true
  unfold resume
  simp only [Node.text, Utf8.decode?_encode, parsed]
  rw [if_neg known]
  split
  · rename_i missing
    cases missing.symm.trans found
  · rename_i r' found'
    obtain rfl := Option.some.inj (found'.symm.trans found)
    exact ⟨_, rfl, rfl, rfl⟩

/-- A directory opens whose log is read and whose head names one of the records. -/
theorem onDisk_of_names {h : Hash} (first : Record.genesis genesis = .ok g)
    (read : Log.read d = .ok c) (known : (c.find? g.hash).isSome) (names : d.Names h)
    (found : c.find? h = some r) :
    ∃ s' d', Store.onDisk genesis d = (.ok s', d') ∧ s'.catalog = c ∧ s'.head = r := by
  obtain ⟨d', opened⟩ := Log.exists_append_of_read read
  obtain ⟨-, -, others⟩ := Log.append_of_read read opened
  obtain ⟨named, stands, parsed⟩ := names.congr (others Disk.headName (by decide))
  unfold Store.onDisk
  simp only [read, opened, first, stands]
  obtain ⟨s', made, catalog, head⟩ := resume_of_names known parsed found
  exact ⟨s', _, by rw [made], catalog, head⟩

/-- A store comes back from files whose log is read as its records. -/
theorem KeptIn.onDisk (kept : s.KeptIn g d text c added) (first : Record.genesis genesis = .ok g)
    (read : Log.read d = .ok s.catalog) :
    ∃ s' d', Store.onDisk genesis d = (.ok s', d') ∧ s'.catalog = s.catalog ∧ s'.head = s.head :=
  onDisk_of_names first read kept.first kept.names s.find?_head

end Store

end HeaviestChain
