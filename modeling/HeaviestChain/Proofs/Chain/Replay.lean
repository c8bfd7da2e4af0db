import HeaviestChain.Proofs.Chain.HeaderTree

/-!
Replaying events. A listener that holds the chain up to the head and follows every later event,
taking off and putting on at its end, holds the chain up to the head again after every submission,
whatever calls fail.
-/

namespace HeaviestChain

/-- What an event makes of a chain, oldest first: a disconnected record must be the last, a
connected one must be the child of the last. -/
def Event.apply (chain : List Record) : Event → Option (List Record)
  | disconnected r => if chain.getLast? = some r then some chain.dropLast else none
  | connected r =>
    match chain.getLast? with
    | some last =>
      if r.header.previous = last.hash ∧ r.height.toNat = last.height.toNat + 1 then
        some (chain ++ [r])
      else none
    | none => none

/-- What events in turn make of a chain, if each of them fits. -/
def replay (events : List Event) (chain : List Record) : Option (List Record) :=
  events.foldlM Event.apply chain

theorem replay_append (es fs : List Event) (chain : List Record) :
    replay (es ++ fs) chain = (replay es chain).bind (replay fs) := List.foldlM_append

theorem replay_cons (e : Event) (es : List Event) (chain : List Record) :
    replay (e :: es) chain = (e.apply chain).bind (replay es) := List.foldlM_cons

theorem apply_disconnected (chain : List Record) (r : Record) :
    Event.apply (chain ++ [r]) (.disconnected r) = some chain := by
  have last : (chain ++ [r]).getLast? = some r := List.getLast?_concat
  rw [Event.apply, if_pos last, List.dropLast_concat]

namespace Catalog

variable {c : Catalog} {g r : Record}

/-- The chain from the first record up to one, oldest first. -/
def chain (c : Catalog) (r : Record) : List Record := (c.branch r).reverse

theorem getLast?_chain (c : Catalog) (r : Record) : (c.chain r).getLast? = some r := by
  obtain ⟨rest, split⟩ := c.branch_eq_cons r
  rw [chain, List.getLast?_reverse, split]
  rfl

theorem Links.chain {p : Record} (l : c.Links p r) : c.chain r = c.chain p ++ [r] := by
  rw [Catalog.chain, l.branch, List.reverse_cons]
  rfl

theorem Links.apply_connected {p : Record} (l : c.Links p r) :
    Event.apply (c.chain p) (.connected r) = some (c.chain r) := by
  rw [Event.apply, c.getLast?_chain]
  show (if _ then _ else _) = _
  rw [if_pos ⟨l.previous, l.height⟩, l.chain]

theorem Grown.chain_of_within (grown : Grown g c) {d : Catalog} (w : c.Within d) (m : r ∈ c) :
    d.chain r = c.chain r := by
  rw [chain, grown.branch_of_within w m]
  rfl

/-- The record in front of a branch is the child of the branch's newest. -/
theorem Grown.links_of_branch (grown : Grown g c) (m : r ∈ c) {p : Record}
    (e : c.branch r = r :: c.branch p) : c.Links p r := by
  have later : r ≠ g := by
    rintro rfl
    obtain ⟨rest, split⟩ := c.branch_eq_cons p
    rw [grown.branch_first, split] at e
    cases e
  obtain ⟨q, l⟩ := grown.parent m later
  obtain ⟨rest, split⟩ := c.branch_eq_cons q
  obtain ⟨rest', split'⟩ := c.branch_eq_cons p
  rw [l.branch, split, split'] at e
  obtain ⟨-, e⟩ := List.cons.inj e
  obtain rfl := (List.cons.inj e).1
  exact l

/-- Records that left a branch, newest first, are taken off its chain. -/
theorem replay_disconnected {left : List Record} {old base : Record}
    (e : c.branch old = left ++ c.branch base) :
    replay (left.map .disconnected) (c.chain old) = some (c.chain base) := by
  have split : c.chain old = c.chain base ++ left.reverse := by
    rw [chain, e, List.reverse_append]
    rfl
  rw [split]
  clear e split
  induction left with
  | nil =>
    rw [List.reverse_nil, List.append_nil]
    rfl
  | cons r left ih =>
    rw [List.map_cons, replay_cons, List.reverse_cons, ← List.append_assoc, apply_disconnected]
    exact ih

/-- Records that enter in front of a branch, oldest first, are put on its chain. -/
theorem Grown.replay_connected (grown : Grown g c) {entered : List Record} {new base : Record}
    (m : new ∈ c) (e : c.branch new = entered.reverse ++ c.branch base) :
    replay (entered.map .connected) (c.chain base) = some (c.chain new) := by
  induction entered generalizing base with
  | nil =>
    have same : c.chain base = c.chain new := by
      rw [chain, chain, e]
      rfl
    rw [same]
    rfl
  | cons r entered ih =>
    -- the record that enters first stands right in front of the base, and becomes the next base
    rw [List.reverse_cons, List.append_assoc, List.singleton_append] at e
    have next : c.branch r = r :: c.branch base := grown.branch_of_append m e
    have mr : r ∈ c := grown.mem_of_mem_branch m r (by simp [e])
    have link := grown.links_of_branch mr next
    rw [List.map_cons, replay_cons, link.apply_connected]
    exact ih (by rw [e, next])

theorem Grown.replay_changes (grown : Grown g c) {old new : Record} {f : Fork} (m : new ∈ c)
    (joins : c.Joins old new f) :
    replay (Tracker.changes f) (c.chain old) = some (c.chain new) := by
  rw [Tracker.changes, replay_append, replay_disconnected joins.left]
  exact grown.replay_connected m joins.entered

end Catalog

/-- The chain up to the head. -/
def Store.bestChain (s : Store) : List Record := s.catalog.chain s.head

namespace Tracker

open Catalog

variable {g r : Record} {p : Params} {outages : Nat → Operation → Bool} {t : Tracker}

theorem Keeps.bestChain {reply : Reply} (keeps : t.Keeps reply) :
    reply.tracker.store.bestChain = t.store.bestChain := by
  rw [Store.bestChain, keeps.catalog, keeps.head]
  rfl

theorem Keeps.replay_events {reply : Reply} (keeps : t.Keeps reply) :
    replay reply.events t.store.bestChain = some reply.tracker.store.bestChain := by
  rw [keeps.events, keeps.bestChain]
  rfl

theorem Chooses.replay_events (rooted : t.Rooted g) {reply : Reply} (chooses : t.Chooses r reply) :
    replay reply.events t.store.bestChain = some reply.tracker.store.bestChain := by
  cases chooses with
  | failed _ _ keeps => exact keeps.replay_events
  | stayed _ _ keeps => exact keeps.replay_events
  | moved _ _ _ joins catalog head _ events =>
    have m := reply.tracker.store.head_mem
    rw [catalog, head] at m
    have chain : reply.tracker.store.bestChain = t.store.catalog.chain r := by
      rw [Store.bestChain, catalog, head]
    rw [events, chain]
    exact rooted.grown.replay_changes m joins

/-- The record that is filed last leaves the chain up to the head as it was. -/
theorem Rooted.bestChain_filed (rooted : t.Rooted g) (r : Record) (n : Nat) :
    (t.filed r n).store.bestChain = t.store.bestChain :=
  rooted.grown.chain_of_within (within_insert _ r) t.store.head_mem

/-- The events of a submission lead from the chain before to the chain after. -/
theorem Submits.replay_events (rooted : t.Rooted g) {h : Header} {now : Int} {reply : Reply}
    (submits : t.Submits h now reply) :
    replay reply.events t.store.bestChain = some reply.tracker.store.bestChain := by
  cases submits with
  | stopped _ keeps => exact keeps.replay_events
  | @filed _ r n _ _ _ link chooses =>
    have rooted' : (t.filed r n).Rooted g := ⟨rooted.hidden, rooted.grown.insert link⟩
    rw [← rooted.bestChain_filed r n]
    exact chooses.replay_events rooted'

theorem Rooted.replay_heard (rooted : t.Rooted g) (submissions : List Submission) :
    replay (t.heard submissions) t.store.bestChain =
      some (t.after submissions).store.bestChain := by
  induction submissions generalizing t with
  | nil => rfl
  | cons s rest ih =>
    have first := (submit_submits rooted s.header s.now).2.replay_events rooted
    rw [heard, replay_append, first]
    exact ih (rooted.submit s.header s.now)

/-- Whatever calls fail, the events heard after a history lead from the chain up to its head to the
chain up to the head of every longer history. -/
theorem chain_replayed (begins : Begins p outages t) (earlier later : List Submission) :
    ∃ g, Record.genesis p.genesis = .ok g ∧
      (t.after earlier).store.Traces g (t.after earlier).store.head ∧
      (t.after (earlier ++ later)).store.Traces g (t.after (earlier ++ later)).store.head ∧
      replay ((t.after earlier).heard later) (t.after earlier).store.bestChain =
        some (t.after (earlier ++ later)).store.bestChain := by
  have rooted := begins.rooted.after earlier
  obtain ⟨-, -, first, -, -⟩ := begins.records
  have traced (submissions : List Submission) :
      (t.after submissions).store.Traces t.store.head (t.after submissions).store.head :=
    (Store.treeBelow_of_grown (begins.rooted.after submissions).grown).traced _ _
      (t.after submissions).store.find?_head
  refine ⟨t.store.head, first, traced earlier, traced (earlier ++ later), ?_⟩
  rw [after_append]
  exact rooted.replay_heard later

/-- So it is on the unit test network where every third call fails. -/
theorem chain_replayed_unitTest :
    ∃ t, Begins .unitTest (fun call _ => call % 3 = 2) t ∧
      ∃ g, Record.genesis Params.unitTest.genesis = .ok g ∧
        (t.after []).store.Traces g (t.after []).store.head ∧
        (t.after ([] ++ [⟨Params.unitTestNext, 1231006565⟩])).store.Traces g
          (t.after ([] ++ [⟨Params.unitTestNext, 1231006565⟩])).store.head ∧
        replay ((t.after []).heard [⟨Params.unitTestNext, 1231006565⟩])
            (t.after []).store.bestChain =
          some (t.after ([] ++ [⟨Params.unitTestNext, 1231006565⟩])).store.bestChain := by
  obtain ⟨t, begins⟩ :=
    exists_begins (fun call _ => call % 3 = 2) Params.sound_unitTest (by decide) rfl
  exact ⟨t, begins, chain_replayed begins _ _⟩

end Tracker

end HeaviestChain
