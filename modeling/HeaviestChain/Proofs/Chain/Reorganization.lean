import HeaviestChain.Proofs.Chain.Mining

/-!
The way of a reorganization. Between two stored records it leads through their highest common
ancestor, down one branch and up the other, and a reorganization reports the way it goes, whether or
not the new head is higher than the old one.
-/

namespace HeaviestChain

open Catalog

/-- Whether a fork is the way from `old` to `new`: its base is the highest record of both branches,
and it names the records of either branch above the base, those left behind from the highest down
and those entered from the lowest up. -/
structure Catalog.Route (c : Catalog) (old new : Record) (f : Fork) : Prop where
  left : c.branch old = f.left ++ c.branch f.base
  entered : c.branch new = f.entered.reverse ++ c.branch f.base
  common : f.base ∈ c.branch old ∧ f.base ∈ c.branch new
  highest : ∀ r ∈ c.branch old, r ∈ c.branch new → r ≠ f.base →
    r.height.toNat < f.base.height.toNat
  falling : f.left.Pairwise fun a b => b.height.toNat < a.height.toNat
  rising : f.entered.Pairwise fun a b => a.height.toNat < b.height.toNat
  apart : ∀ r ∈ f.left, r ∉ f.entered
  down : old.height.toNat = f.base.height.toNat + f.left.length
  up : new.height.toNat = f.base.height.toNat + f.entered.length

namespace Catalog

variable {c : Catalog} {g r old new : Record} {f : Fork}

theorem Grown.pairwise_branch (grown : Grown g c) (m : r ∈ c) :
    (c.branch r).Pairwise fun a b => b.height.toNat < a.height.toNat := by
  induction r, m using grown.induct with
  | first =>
    rw [grown.branch_first]
    exact List.pairwise_singleton _ _
  | child p r _ _ l ih =>
    rw [l.branch]
    refine List.pairwise_cons.2 ⟨?_, ih⟩
    intro s on
    have low := grown.height_le_of_mem_branch l.mem on
    have up := l.height
    omega

/-- A fork that joins two branches is the way from one to the other. -/
theorem Joins.route (grown : Grown g c) (mo : old ∈ c) (mn : new ∈ c) (joins : c.Joins old new f) :
    c.Route old new f := by
  obtain ⟨rest, split⟩ := c.branch_eq_cons f.base
  have base : f.base ∈ c.branch f.base := split ▸ List.mem_cons_self
  have descent := grown.pairwise_branch joins.base_mem
  have wayOld := grown.pairwise_branch mo
  have wayNew := grown.pairwise_branch mn
  rw [joins.left] at wayOld
  rw [joins.entered] at wayNew
  obtain ⟨falling, -, above⟩ := List.pairwise_append.1 wayOld
  obtain ⟨rising, -, -⟩ := List.pairwise_append.1 wayNew
  refine ⟨joins.left, joins.entered, ?_, ?_, falling, List.pairwise_reverse.1 rising, ?_, ?_, ?_⟩
  · rw [joins.left, joins.entered]
    exact ⟨List.mem_append_right _ base, List.mem_append_right _ base⟩
  · intro r onOld onNew other
    have on := joins.shared r onOld onNew
    rw [split] at on descent
    rcases List.mem_cons.1 on with same | below
    · exact absurd same other
    · exact (List.pairwise_cons.1 descent).1 r below
  · -- what is on both ways is behind the base, and so lower than itself
    intro r gone come
    have onOld : r ∈ c.branch old := by
      rw [joins.left]
      exact List.mem_append_left _ gone
    have onNew : r ∈ c.branch new := by
      rw [joins.entered]
      exact List.mem_append_left _ (List.mem_reverse.2 come)
    exact Nat.lt_irrefl _ (above r gone r (joins.shared r onOld onNew))
  · rw [← grown.height_of_append mo (joins.left.trans (by rw [split]))]
  · rw [← grown.height_of_append mn (joins.entered.trans (by rw [split])), List.length_reverse]

end Catalog

namespace Tracker

variable {g : Record} {p : Params} {t : Tracker} {h : Header} {now : Int} {reply : Reply}

/-- A reorganization goes and reports the way from the old head to the new one. -/
theorem Submits.routed (rooted : t.Rooted g) (submits : t.Submits h now reply) {height : UInt32}
    {disconnected connected : Nat}
    (result : reply.result = .ok (.reorganized height disconnected connected)) :
    ∃ f, reply.tracker.store.catalog.Route t.store.head reply.tracker.store.head f ∧
      height = f.base.height ∧ disconnected = f.left.length ∧ connected = f.entered.length ∧
      reply.events = changes f := by
  have grown := (submits.grown rooted).2
  have within := (submits.grown rooted).1
  cases submits with
  | stopped stops _ =>
    rw [result] at stops
    cases stops
  | filed _ _ _ _ chooses =>
    cases chooses with
    | failed failure _ _ => cases result.symm.trans failure
    | stayed stayed _ _ =>
      rw [result] at stayed
      split at stayed <;> cases stayed
    | @moved _ f _ moves moved _ joins catalog head _ events =>
      cases moves with
      | extended _ => cases result.symm.trans moved
      | reorganized _ =>
        cases result.symm.trans moved
        have mo : t.store.head ∈ reply.tracker.store.catalog := within.mem t.store.head_mem
        rw [← catalog, ← head] at joins
        exact ⟨f, joins.route grown mo reply.tracker.store.head_mem, rfl, rfl, rfl, events⟩

/-- A submission that moves the head to a record that is no child of the old head reorganizes. -/
theorem Submits.exists_reorganized (submits : t.Submits h now reply)
    (moved : reply.tracker.store.head ≠ t.store.head)
    (apart : reply.tracker.store.head.header.previous ≠ t.store.head.hash) :
    ∃ height disconnected connected,
      reply.result = .ok (.reorganized height disconnected connected) := by
  cases submits with
  | stopped _ keeps => exact absurd keeps.head moved
  | filed _ _ _ _ chooses =>
    cases chooses with
    | failed _ _ keeps => exact absurd keeps.head moved
    | stayed _ _ keeps => exact absurd keeps.head moved
    | moved moves result _ _ _ head _ _ =>
      cases moves with
      | extended link =>
        rw [head] at apart
        exact absurd link.previous apart
      | reorganized _ => exact ⟨_, _, _, result⟩

/-- Without outages the way between any two stored records is found, and every reorganization goes
the way from the old head to the new one: it reports the height of their highest common ancestor and
how far both heads are above it, and tells of each record left behind and then of each record
entered. -/
theorem reorganization_routed (begins : Begins p (fun _ _ => false) t)
    (submissions : List Submission) :
    (∀ old ∈ (t.after submissions).store.catalog, ∀ new ∈ (t.after submissions).store.catalog,
        ∀ stored, ∃ f,
          ((Walk.fork stored old new).resolve (t.after submissions).connection).1 = .ok f ∧
            (t.after submissions).store.catalog.Route old new f) ∧
      ∀ (next : Submission) (reply : Reply) (height : UInt32) (disconnected connected : Nat),
        reply = (t.after submissions).submit next.header next.now →
        reply.result = .ok (.reorganized height disconnected connected) →
        ∃ f, reply.tracker.store.catalog.Route (t.after submissions).store.head
            reply.tracker.store.head f ∧
          height = f.base.height ∧
          (t.after submissions).store.head.height.toNat = height.toNat + disconnected ∧
          reply.tracker.store.head.height.toNat = height.toNat + connected ∧
          reply.events = f.left.map .disconnected ++ f.entered.map .connected := by
  have rooted := begins.rooted.after submissions
  have sure := begins.dependable_after submissions
  constructor
  · intro old mo new mn stored
    obtain ⟨f, found, joins⟩ := Walk.run_fork rooted.grown mo mn stored
    refine ⟨f, ?_, joins.route rooted.grown mo mn⟩
    rw [Walk.resolve_of_gets _ rooted.hidden (fun call => by rw [sure.faultless])]
    exact found
  · rintro next reply height disconnected connected rfl result
    obtain ⟨f, route, rfl, rfl, rfl, events⟩ :=
      (submit_submits rooted next.header next.now).2.routed rooted result
    exact ⟨f, route, rfl, route.down, route.up, events⟩

/-- So it is when a hard header decides a rivalry: the new head is lower than the old one, and three
records are left behind for two. -/
theorem reorganization_routed_unitTestHard :
    ∃ t, Begins (.unitTestPace 2 60) (fun _ _ => false) t ∧
      ∃ reply, reply = (t.after rivalry).submit Params.unitTestHard 1231006685 ∧
        reply.result = .ok (.reorganized 0 3 2) ∧
        (t.after rivalry).store.head.height.toNat = 3 ∧
        reply.tracker.store.head.height.toNat = 2 ∧
        ∃ f, reply.tracker.store.catalog.Route (t.after rivalry).store.head
            reply.tracker.store.head f ∧
          f.base = t.store.head ∧
          reply.events = f.left.map .disconnected ++ f.entered.map .connected := by
  have sound : (Params.unitTestPace 2 60).Sound := by decide
  obtain ⟨t, begins⟩ := exists_begins (fun _ _ => false) sound (by decide) rfl
  have rooted := begins.rooted.after rivalry
  have grown' := (begins.rooted.after (rivalry ++ [⟨Params.unitTestHard, 1231006685⟩])).grown
  obtain ⟨before, -, -⟩ := begins.rivalry_stored
  have left := before.mono rooted.grown (begins.rooted.within_after rivalry
    [⟨Params.unitTestHard, 1231006685⟩])
  have entered := begins.rivalry_decided
  have submits := (submit_submits rooted Params.unitTestHard 1231006685).2
  have routes := (reorganization_routed begins rivalry).2 ⟨Params.unitTestHard, 1231006685⟩
  have reached : t.after (rivalry ++ [⟨Params.unitTestHard, 1231006685⟩]) =
      ((t.after rivalry).submit Params.unitTestHard 1231006685).tracker := by
    rw [after_append]
    rfl
  rw [reached] at grown' left entered
  generalize replied : (t.after rivalry).submit Params.unitTestHard 1231006685 = reply at *
  have apart : reply.tracker.store.head.header.previous ≠ (t.after rivalry).store.head.hash := by
    rw [entered.header, Record.hash, before.header, Params.hash_unitTestBack]
    decide
  have moved : reply.tracker.store.head ≠ (t.after rivalry).store.head := by
    intro same
    have own := entered.header
    rw [same, before.header] at own
    exact absurd own (by decide)
  obtain ⟨height, disconnected, connected, result⟩ := submits.exists_reorganized moved apart
  obtain ⟨f, route, rfl, down, up, events⟩ := routes reply height disconnected connected rfl result
  -- the first record is the only one on both branches
  have base : f.base = t.store.head := by
    have shared : ∀ h ∈ [Params.unitTestBack, Params.unitTestLate, Params.unitTestNext,
        Params.unitTest.genesis], h ∈ [Params.unitTestHard, Params.unitTestQuick,
        Params.unitTest.genesis] → h = Params.unitTest.genesis := by decide
    obtain ⟨onOld, onNew⟩ := route.common
    have own : f.base.header = t.store.head.header :=
      (shared _ (left.branch ▸ List.mem_map_of_mem onOld)
        (entered.branch ▸ List.mem_map_of_mem onNew)).trans begins.head_header.symm
    exact eq_of_hash_eq (grown'.mem_of_mem_branch left.mem _ onOld) grown'.first_mem
      (congrArg Header.hash own)
  have three : (t.after rivalry).store.head.height.toNat = 3 := before.height rooted.grown
  have two : reply.tracker.store.head.height.toNat = 2 := entered.height grown'
  have low : f.base.height = 0 := base ▸ grown'.height_first
  have none : (0 : UInt32).toNat = 0 := rfl
  rw [low] at down up result
  obtain rfl : disconnected = 3 := by omega
  obtain rfl : connected = 2 := by omega
  exact ⟨t, begins, reply, replied.symm, result, three, two, f, route, base, events⟩

end Tracker

end HeaviestChain
