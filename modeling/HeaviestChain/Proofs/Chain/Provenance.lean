import HeaviestChain.Proofs.Chain.Retry

/-!
Where stored records come from. Every record but the first one is that of a submitted header, which
passed its examination against the branch that the record still stands on; and without outages every
header that passes is stored.
-/

namespace HeaviestChain

open Catalog

/-- Whether a record is the child of `parent` that a submission made: its header passed against the
branch of the parent, at the time of the submission. -/
structure Catalog.Stems (c : Catalog) (p : Params) (s : Submission) (parent r : Record) : Prop where
  header : s.header = r.header
  link : c.Links parent r
  passes : p.Passes (c.branch parent) r.header s.now

theorem Catalog.Stems.mono {c d : Catalog} {p : Params} {s : Submission} {parent r g : Record}
    (stems : c.Stems p s parent r) (grown : Grown g c) (w : c.Within d) :
    d.Stems p s parent r := by
  have same : d.branch parent = c.branch parent := grown.branch_of_within w stems.link.mem
  exact ⟨stems.header, stems.link.mono w, same ▸ stems.passes⟩

namespace Tracker

variable {g r : Record} {p : Params} {outages : Nat → Operation → Bool} {t : Tracker}

/-- What a submission files has passed its examination. -/
theorem Submits.mem_or_stems {s : Submission} {reply : Reply} (rooted : t.Rooted g)
    (submits : t.Submits s.header s.now reply) (m : r ∈ reply.tracker.store.catalog) :
    r ∈ t.store.catalog ∨
      ∃ parent, reply.tracker.store.catalog.Stems t.params s parent r := by
  have within := (submits.grown rooted).1
  cases submits with
  | stopped _ keeps => exact .inl (keeps.catalog ▸ m)
  | @filed parent x n said own new link chooses =>
    have filed : reply.tracker.store.catalog = t.store.catalog.insert x := chooses.catalog
    rw [filed, mem_insert new] at m
    rcases m with rfl | old
    · have passes := Params.passes_of_run_examine rooted.grown t.sound said
      rw [← own] at passes
      rw [lineage_of_find? link.found] at passes
      have stems : t.store.catalog.Stems t.params s parent r := ⟨own.symm, link, passes⟩
      exact .inr ⟨parent, stems.mono rooted.grown within⟩
    · exact .inl old

theorem Rooted.mem_or_stems (rooted : t.Rooted g) (submissions : List Submission)
    (m : r ∈ (t.after submissions).store.catalog) :
    r ∈ t.store.catalog ∨
      ∃ s ∈ submissions, ∃ parent,
        (t.after submissions).store.catalog.Stems t.params s parent r := by
  induction submissions generalizing t with
  | nil => exact .inl m
  | cons s rest ih =>
    obtain ⟨resumes, submits⟩ := submit_submits rooted s.header s.now
    have next := rooted.submit s.header s.now
    rcases ih next m with old | ⟨later, submitted, parent, stems⟩
    · rcases submits.mem_or_stems rooted old with older | ⟨parent, stems⟩
      · exact .inl older
      · have within := (next.prolongs rest).kept
        exact .inr ⟨s, List.mem_cons_self, parent, stems.mono next.grown within⟩
    · rw [resumes.params] at stems
      exact .inr ⟨later, List.mem_cons_of_mem _ submitted, parent, stems⟩

/-- Whatever calls fail, every stored record but the first one stems from a submission. -/
theorem Begins.stems (begins : Begins p outages t) (submissions : List Submission)
    (m : r ∈ (t.after submissions).store.catalog) (later : r ≠ t.store.head) :
    ∃ s ∈ submissions, ∃ parent, (t.after submissions).store.catalog.Stems p s parent r := by
  rcases begins.rooted.mem_or_stems submissions m with old | ⟨s, submitted, parent, stems⟩
  · exact absurd (begins.eq_head old) later
  · exact ⟨s, submitted, parent, begins.records.1 ▸ stems⟩

/-- Whatever calls fail, every stored child passed against the branch of its parent. -/
theorem Begins.passes {parent : Record} (begins : Begins p outages t)
    (submissions : List Submission) (m : r ∈ (t.after submissions).store.catalog)
    (l : (t.after submissions).store.catalog.Links parent r) :
    ∃ s ∈ submissions, s.header = r.header ∧
      p.Passes ((t.after submissions).store.catalog.branch parent) r.header s.now := by
  obtain ⟨-, -, first, -, -⟩ := begins.records
  obtain ⟨s, submitted, other, stems⟩ := begins.stems submissions m (l.ne_of_genesis first)
  obtain rfl := Option.some.inj (stems.link.found.symm.trans l.found)
  exact ⟨s, submitted, stems.header, stems.passes⟩

/-- Without outages the record of a new header that passes is stored and chosen. -/
theorem Rooted.chooses_of_passes {parent : Record} {now : Int} (rooted : t.Rooted g)
    (sure : t.connection.Dependable) (link : t.store.catalog.Links parent r)
    (new : t.store.catalog.find? r.hash = none)
    (passes : t.params.Passes (t.store.catalog.branch parent) r.header now) :
    t.verdict r.header now = .ok (.sound r) ∧
      ∃ n, (t.filed r n).Chooses r (t.submit r.header now) := by
  have ready : t.params.Ready t.store.catalog r.header now := by
    refine ⟨new, ?_, passes.fits⟩
    intro other found
    obtain rfl := Option.some.inj (link.found.symm.trans found)
    exact (Record.extend_eq_ok.1 link.extend).1
  have admits : t.params.Admits (t.store.catalog.lineage r.header) r.header now := by
    rw [lineage_of_find? link.found]
    exact passes.admits
  obtain ⟨made, said⟩ := Params.run_examine_of_admits rooted.grown t.sound ready passes.recalls
    admits t.store.size
  -- the record that the examination makes is the child that the parent has
  obtain ⟨own, -, other, link'⟩ := Params.sound_of_run_examine said
  have found := link'.found
  have extend := link'.extend
  rw [own] at found extend
  obtain rfl := Option.some.inj (link.found.symm.trans found)
  obtain rfl := Except.ok.inj (link.extend.symm.trans extend)
  refine ⟨said, ?_⟩
  obtain ⟨n, filed⟩ := submit_of_sound rooted.hidden (fun call => by rw [sure.faultless])
    (fun call => by rw [sure.faultless]) said
  rw [filed]
  exact ⟨n, chooses_filed rooted said n⟩

/-- So it is accepted, and nothing else is stored. -/
theorem Rooted.submit_of_passes {parent : Record} {now : Int} (rooted : t.Rooted g)
    (sure : t.connection.Dependable) (link : t.store.catalog.Links parent r)
    (new : t.store.catalog.find? r.hash = none)
    (passes : t.params.Passes (t.store.catalog.branch parent) r.header now) :
    (t.submit r.header now).ruling = .ok () ∧
      (t.submit r.header now).tracker.store.catalog = t.store.catalog.insert r := by
  obtain ⟨said, n, chooses⟩ := rooted.chooses_of_passes sure link new passes
  have ruled := (submit_submits rooted r.header now).2.ruling_eq sure
  exact ⟨ruled.trans (congrArg ruling said), chooses.catalog⟩

/-- A header that passes behind a history without outages belongs to the longer one. -/
theorem Begins.after_of_passes {parent : Record} {now : Int}
    (begins : Begins p (fun _ _ => false) t) (submissions : List Submission)
    (link : (t.after submissions).store.catalog.Links parent r)
    (new : (t.after submissions).store.catalog.find? r.hash = none)
    (passes : p.Passes ((t.after submissions).store.catalog.branch parent) r.header now) :
    ((t.after submissions).submit r.header now).ruling = .ok () ∧
      (t.after (submissions ++ [⟨r.header, now⟩])).store.catalog =
        (t.after submissions).store.catalog.insert r := by
  rw [← params_after begins submissions] at passes
  rw [after_append]
  exact (begins.rooted.after submissions).submit_of_passes (begins.dependable_after _) link new
    passes

end Tracker

end HeaviestChain
