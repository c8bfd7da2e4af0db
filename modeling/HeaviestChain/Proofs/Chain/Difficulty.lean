import HeaviestChain.Proofs.Chain.Mining
import HeaviestChain.Proofs.Rules.Interval

/-!
Difficulty of stored headers. Whatever calls fail, the bits of every stored header but the first are
those of the start of its interval, or the easiest ones behind a long gap, and at the start of an
interval those that the interval before it calls for.
-/

namespace HeaviestChain.Tracker

variable {p : Params} {outages : Nat → Operation → Bool} {t : Tracker}

theorem Begins.regular (begins : Begins p outages t) (submissions : List Submission) :
    p.Regular (t.after submissions).store.catalog := by
  intro parent r m l
  obtain ⟨s, -, -, passes⟩ := begins.passes submissions m l
  exact passes.admits.due.bits

/-- Whatever calls fail, after every history the bits of every stored header but the first change
only where they may. -/
theorem difficulty_scheduled (begins : Begins p outages t) (submissions : List Submission) :
    ∃ g, Record.genesis p.genesis = .ok g ∧
      ∀ h r, (t.after submissions).store.find? h = some r → r ≠ g →
        ∃ parent, (t.after submissions).store.catalog.Links parent r ∧
          p.Scheduled (t.after submissions).store.catalog parent r := by
  obtain ⟨params, -, first, -, -⟩ := begins.records
  have sound : p.Sound := params ▸ t.sound
  have grown := (begins.rooted.after submissions).grown
  refine ⟨t.store.head, first, ?_⟩
  intro h r found later
  have m : r ∈ (t.after submissions).store.catalog := Catalog.mem_of_find? found
  obtain ⟨parent, l⟩ := grown.parent m later
  exact ⟨parent, l, Params.scheduled_of_regular grown sound (begins.regular submissions) m l⟩

/-- So it is on the unit test network after a header is mined on the first one. -/
theorem difficulty_scheduled_unitTestNext :
    ∃ t, Begins .unitTest (fun _ _ => false) t ∧
      ∃ u, u = t.after [⟨Params.unitTestNext, 1231006685⟩] ∧
        ∃ r parent, u.store.find? r.hash = some r ∧ r.header = Params.unitTestNext ∧
          u.store.catalog.Links parent r ∧
          Params.unitTest.Scheduled u.store.catalog parent r := by
  obtain ⟨t, begins⟩ := exists_begins (fun _ _ => false) Params.sound_unitTest (by decide) rfl
  obtain ⟨r, q, m, link, own, -⟩ := begins.exists_mined (by decide) mined_unitTestNext
  obtain ⟨g, first, scheduled⟩ := difficulty_scheduled begins _
  obtain ⟨parent, l, scheduled⟩ := scheduled r.hash r m (link.ne_of_genesis first)
  exact ⟨t, begins, _, rfl, r, parent, m, own, l, scheduled⟩

end HeaviestChain.Tracker
