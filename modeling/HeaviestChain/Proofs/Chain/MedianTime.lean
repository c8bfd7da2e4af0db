import HeaviestChain.Proofs.Chain.Mining

/-!
Median times of stored headers. Whatever calls fail, the median time never goes down along a branch,
and the time of every stored header is above the median times of all that it descends from, while the
times themselves may go down.
-/

namespace HeaviestChain.Tracker

open Catalog

variable {p : Params} {outages : Nat → Operation → Bool} {t : Tracker}

/-- Whether the median times of two records are found, where the newer one has not gone down and the
time of its record is above the older one. -/
structure Advances (p : Params) (s : Store) (older newer : Record) (past past' : UInt32) :
    Prop where
  found : (p.medianTime s.size older).run s.find? = .ok past
  found' : (p.medianTime s.size newer).run s.find? = .ok past'
  kept : past ≤ past'
  late : past < newer.header.time

theorem Begins.timely (begins : Begins p outages t) (submissions : List Submission) :
    p.Timely (t.after submissions).store.catalog := by
  intro parent r m l
  obtain ⟨s, -, -, passes⟩ := begins.passes submissions m l
  exact passes.admits.late

/-- Whatever calls fail, after every history the median times of every stored header but the first
and of all that it descends from are found; they do not go down towards the header, and its time is
above those of its ancestors. -/
theorem median_advances (begins : Begins p outages t) (submissions : List Submission) :
    ∃ g, Record.genesis p.genesis = .ok g ∧
      ∀ h r, (t.after submissions).store.find? h = some r → r ≠ g →
        ∃ parent, (t.after submissions).store.catalog.Links parent r ∧
          ∀ s ∈ (t.after submissions).store.catalog.branch parent,
            ∃ past past', Advances p (t.after submissions).store s r past past' := by
  obtain ⟨params, -, first, -, -⟩ := begins.records
  have sound : p.Sound := params ▸ t.sound
  have grown := (begins.rooted.after submissions).grown
  have timely := begins.timely submissions
  refine ⟨t.store.head, first, ?_⟩
  intro h r found later
  have m : r ∈ (t.after submissions).store.catalog := mem_of_find? found
  obtain ⟨parent, l⟩ := grown.parent m later
  obtain ⟨submission, -, -, passes⟩ := begins.passes submissions m l
  refine ⟨parent, l, ?_⟩
  intro s on
  have older : s ∈ (t.after submissions).store.catalog.branch r := by
    rw [l.branch]
    exact List.mem_cons_of_mem _ on
  have ms := grown.mem_of_mem_branch m s older
  have recalls : ¬wordCapacity ≤ p.medianSpan.toNat := Nat.not_le.2 passes.recalls
  have past := Params.run_medianTime grown sound ms (t.after submissions).store.size
  have past' := Params.run_medianTime grown sound m (t.after submissions).store.size
  rw [if_neg recalls] at past past'
  exact ⟨_, _, past, past', timely.medianPast_le sound grown m older,
    timely.medianPast_lt sound grown m l on⟩

/-- So it is on the unit test network below a header whose time is before that of its parent. -/
theorem median_advances_unitTestBack :
    ∃ t, Begins .unitTest (fun _ _ => false) t ∧
      ∃ u, u = t.after [⟨Params.unitTestNext, 1231006685⟩, ⟨Params.unitTestLate, 1231006685⟩,
          ⟨Params.unitTestBack, 1231006685⟩] ∧
        ∃ r parent, u.store.find? r.hash = some r ∧ r.header = Params.unitTestBack ∧
          u.store.catalog.Links parent r ∧ r.header.time < parent.header.time ∧
          ∀ s ∈ u.store.catalog.branch parent,
            ∃ past past', Advances .unitTest u.store s r past past' := by
  obtain ⟨t, begins⟩ := exists_begins (fun _ _ => false) Params.sound_unitTest (by decide) rfl
  obtain ⟨r, q, m, link, own, above⟩ := begins.exists_mined (by decide) mined_unitTestBack
  obtain ⟨g, first, advances⟩ := median_advances begins _
  obtain ⟨parent, l, advances⟩ := advances r.hash r m (link.ne_of_genesis first)
  obtain rfl := Option.some.inj (link.found.symm.trans l.found)
  refine ⟨t, begins, t.after (mining 1231006685 _), congrArg t.after rfl, r, q, m, own, l, ?_,
    advances⟩
  rw [own, above]
  decide

end HeaviestChain.Tracker
