import HeaviestChain.Proofs.Chain.ForkChoice
import HeaviestChain.Proofs.Chain.Mining
import HeaviestChain.Proofs.Chain.Signals
import Mathlib.Data.Finset.Insert

/-!
The order of arrival. Without outages two histories that deliver the same headers end with the same
records, however the headers are ordered and repeated, as long as each comes at least once behind its
parent. The heads have the same work, and where no other record has as much, head and window are the
same too.
-/

namespace HeaviestChain

open Catalog

/-- A record is determined by its parent and its header. -/
theorem Catalog.Links.eq_of_header_eq {c d : Catalog} {parent r s : Record} (lr : c.Links parent r)
    (ls : d.Links parent s) (same : r.header = s.header) : r = s := by
  have extend := lr.extend
  rw [same, ls.extend] at extend
  exact (Except.ok.inj extend).symm

/-- Whether the hashes of headers tell them apart, from each other and from the first header. -/
structure Params.Distinguishes (p : Params) (headers : Finset Header) : Prop where
  inj : ∀ a ∈ headers, ∀ b ∈ headers, a.hash = b.hash → a = b
  first : ∀ a ∈ headers, a.hash ≠ p.genesis.hash

/-- Whether an order of headers delivers a set: it has no others, and each of the set at least once
where a condition on it and those in front of it holds. -/
structure Delivers (headers : Finset Header) (order : List Header)
    (condition : List Header → Header → Prop) : Prop where
  only : ∀ h ∈ order, h ∈ headers
  each : ∀ h ∈ headers, ∃ earlier later, order = earlier ++ h :: later ∧ condition earlier h

/-- Whether a record is stored and no stored one has more work. -/
structure Store.Heaviest (s : Store) (r : Record) : Prop where
  stored : s.find? r.hash = some r
  work_le : ∀ x, s.find? x.hash = some x → x.work.toNat ≤ r.work.toNat

theorem Store.Heaviest.of_within {s s' : Store} {r : Record} (heavy : s'.Heaviest r)
    (back : s'.catalog.Within s.catalog) (forth : s.catalog.Within s'.catalog) : s.Heaviest r :=
  ⟨back _ _ heavy.stored, fun x found => heavy.work_le x (forth _ _ found)⟩

/-- Whether two trackers have the same records, heads of the same work and, unless several records
have the most work, the same head and window. -/
structure Tracker.Agrees (t u : Tracker) : Prop where
  records : ∀ h, u.store.find? h = t.store.find? h
  work : u.store.head.work = t.store.head.work
  head : (∀ a b, t.store.Heaviest a → t.store.Heaviest b → a = b) →
    u.store.head = t.store.head ∧ u.window = t.window

namespace Tracker

variable {g r : Record} {p : Params} {t u : Tracker} {h : Header} {now : Int}
  {headers : Finset Header} {order others : List Header}

/-- The submissions of headers in turn at one time of the clock. -/
def arrivals (now : Int) (order : List Header) : List Submission := order.map fun h => ⟨h, now⟩

theorem arrivals_append (now : Int) (earlier : List Header) (h : Header) (later : List Header) :
    arrivals now (earlier ++ h :: later) =
      arrivals now earlier ++ ([⟨h, now⟩] ++ arrivals now later) := by
  simp [arrivals]

theorem Rooted.within_arrivals (rooted : t.Rooted g) (now : Int) (earlier : List Header)
    (h : Header) (later : List Header) :
    ((t.after (arrivals now earlier)).submit h now).tracker.store.catalog.Within
      (t.after (arrivals now (earlier ++ h :: later))).store.catalog := by
  rw [arrivals_append, after_append, after_append]
  exact (((rooted.after (arrivals now earlier)).submit h now).prolongs (arrivals now later)).kept

theorem Rooted.within_earlier (rooted : t.Rooted g) (now : Int) (earlier : List Header)
    (h : Header) (later : List Header) :
    (t.after (arrivals now earlier)).store.catalog.Within
      (t.after (arrivals now (earlier ++ h :: later))).store.catalog := by
  rw [arrivals_append]
  exact rooted.within_after _ _

/-- A header without a stored parent is refused for it, and nothing is stored. -/
theorem Rooted.submit_of_orphan (rooted : t.Rooted g) (sure : t.connection.Dependable)
    (new : t.store.catalog.find? h.hash = none)
    (orphan : t.store.catalog.find? h.previous = none) :
    (t.submit h now).ruling = .error (.rejected (.unknownParent h.previous)) ∧
      (t.submit h now).tracker.store.catalog = t.store.catalog := by
  have said : t.verdict h now = .ok (.rejected (.unknownParent h.previous)) := by
    have new' : t.store.find? h.hash = none := new
    have orphan' : t.store.find? h.previous = none := orphan
    rw [verdict, Params.examine, Walk.run, new', Walk.run, orphan']
    rfl
  have submits := (submit_submits rooted h now).2
  refine ⟨(submits.ruling_eq sure).trans (congrArg ruling said), ?_⟩
  cases submits with
  | stopped _ keeps => exact keeps.catalog
  | filed found _ _ _ _ => cases said.symm.trans found

theorem Rooted.stored_of_ruling (rooted : t.Rooted g) (accepted : (t.submit h now).ruling = .ok ()) :
    ∃ r, (t.submit h now).tracker.store.catalog.find? h.hash = some r := by
  obtain ⟨outcome, result⟩ := Reply.ruling_eq_ok.1 accepted
  cases (submit_submits rooted h now).2 with
  | stopped stops keeps =>
    rw [result] at stops
    rw [keeps.catalog]
    cases stops with
    | known found => exact Params.known_of_run_examine (c := t.store.catalog) found
  | filed _ own new _ chooses =>
    rw [chooses.catalog, ← own]
    exact ⟨_, mem_insert_of_none new⟩

theorem Begins.heaviest_head (begins : Begins p (fun _ _ => false) t)
    (submissions : List Submission) :
    (t.after submissions).store.Heaviest (t.after submissions).store.head := by
  have grown := (begins.rooted.after submissions).grown
  have lead := foremost_after begins submissions
  refine ⟨(t.after submissions).store.head_mem, ?_⟩
  intro x stored
  exact work_le_of_foremost? lead (grown.mem_inOrder.2 stored)

section Delivered

variable (begins : Begins p (fun _ _ => false) t)

include begins

/-- What is stored beside the first record is one of the arrivals, and has passed. -/
theorem Begins.arrived (order : List Header)
    (m : r ∈ (t.after (arrivals now order)).store.catalog) (later : r ≠ t.store.head) :
    r.header ∈ order ∧ ∃ parent, (t.after (arrivals now order)).store.catalog.Links parent r ∧
      p.Passes ((t.after (arrivals now order)).store.catalog.branch parent) r.header now := by
  obtain ⟨s, submitted, parent, stems⟩ := begins.stems _ m later
  obtain ⟨h, m', rfl⟩ := List.mem_map.1 submitted
  have own : h = r.header := stems.header
  exact ⟨own ▸ m', parent, stems.link, stems.passes⟩

/-- A record that is found under the hash of a delivered header is the record of that header. -/
theorem Begins.header_of_find? (apart : p.Distinguishes headers) (only : ∀ x ∈ order, x ∈ headers)
    (m : h ∈ headers) (found : (t.after (arrivals now order)).store.catalog.find? h.hash = some r) :
    r.header = h ∧ r ≠ t.store.head := by
  have hash : r.header.hash = h.hash := hash_of_find? found
  have later : r ≠ t.store.head := by
    intro same
    rw [same, begins.head_header] at hash
    exact apart.first h m hash.symm
  obtain ⟨arrived, -⟩ := begins.arrived order (mem_of_find? found) later
  exact ⟨apart.inj _ (only _ arrived) _ m hash, later⟩

/-- What is found under the hash of a delivered header is the child that a stored parent has. -/
theorem Begins.eq_of_find? (apart : p.Distinguishes headers) (only : ∀ x ∈ order, x ∈ headers)
    {c : Catalog} {parent s : Record} (link : c.Links parent r) (m : r.header ∈ headers)
    (stored : parent ∈ (t.after (arrivals now order)).store.catalog)
    (found : (t.after (arrivals now order)).store.catalog.find? r.hash = some s) : s = r := by
  obtain ⟨own, later⟩ := begins.header_of_find? apart only m found
  obtain ⟨-, other, link', -⟩ := begins.arrived order (mem_of_find? found) later
  have same : other = parent := by
    have found' := link'.found
    rw [own, link.previous] at found'
    exact Option.some.inj (found'.symm.trans stored)
  subst same
  exact link'.eq_of_header_eq link own

/-- A header that passes when it arrives is stored behind it, whether or not it was stored before. -/
theorem Begins.mem_of_passes (apart : p.Distinguishes headers) {earlier : List Header}
    (only : ∀ x ∈ earlier, x ∈ headers) {parent : Record}
    (link : (t.after (arrivals now earlier)).store.catalog.Links parent r)
    (m : r.header ∈ headers)
    (passes : p.Passes ((t.after (arrivals now earlier)).store.catalog.branch parent) r.header now)
    (later : List Header) :
    r ∈ (t.after (arrivals now (earlier ++ r.header :: later))).store.catalog := by
  cases stored : (t.after (arrivals now earlier)).store.catalog.find? r.hash with
  | some s =>
    have m' := mem_of_find? stored
    rw [begins.eq_of_find? apart only link m link.mem stored] at m'
    exact (begins.rooted.within_earlier now earlier r.header later).mem m'
  | none =>
    have made := (begins.after_of_passes (arrivals now earlier) link stored passes).2
    rw [after_append] at made
    have m' : r ∈ (t.after (arrivals now earlier)).store.catalog.insert r :=
      mem_insert_of_none stored
    rw [← made] at m'
    exact (begins.rooted.within_arrivals now earlier r.header later).mem m'

end Delivered

section TwoRuns

variable (begins : Begins p (fun _ _ => false) t) (begins' : Begins p (fun _ _ => false) u)

include begins begins'

theorem Begins.head_eq : u.store.head = t.store.head := by
  obtain ⟨-, -, first, -, -⟩ := begins.records
  obtain ⟨-, -, first', -, -⟩ := begins'.records
  exact Except.ok.inj (first'.symm.trans first)

/-- A history that accepts every header of a set stores all that another one of them stores. -/
theorem Begins.within_of_accepted (apart : p.Distinguishes headers)
    (accepts : Delivers headers order fun earlier h =>
      ((t.after (arrivals now earlier)).submit h now).ruling = .ok ())
    (only : ∀ x ∈ others, x ∈ headers) :
    (u.after (arrivals now others)).store.catalog.Within
      (t.after (arrivals now order)).store.catalog := by
  have grown := (begins.rooted.after (arrivals now order)).grown
  have grown' := (begins'.rooted.after (arrivals now others)).grown
  obtain ⟨-, -, first, -, -⟩ := begins'.records
  have stored (r : Record) (m : r ∈ (u.after (arrivals now others)).store.catalog) :
      r ∈ (t.after (arrivals now order)).store.catalog := by
    induction r, m using grown'.induct with
    | first =>
      rw [begins.head_eq begins']
      exact grown.first_mem
    | child q r _ m l ih =>
      obtain ⟨arrived, -⟩ := begins'.arrived others m (l.ne_of_genesis first)
      have wanted := only r.header arrived
      obtain ⟨earlier, later, rfl, accepted⟩ := accepts.each r.header wanted
      obtain ⟨s, made⟩ := (begins.rooted.after (arrivals now earlier)).stored_of_ruling accepted
      have made := begins.rooted.within_arrivals now earlier r.header later _ _ made
      have m := mem_of_find? made
      rwa [begins.eq_of_find? apart accepts.only l wanted ih made] at m
  intro x r found
  rw [← hash_of_find? found]
  exact stored r (mem_of_find? found)

/-- A history that delivers every header of a set behind its parent stores all that one stores which
accepts them. -/
theorem Begins.within_of_delivered (apart : p.Distinguishes headers)
    (accepts : Delivers headers order fun earlier h =>
      ((t.after (arrivals now earlier)).submit h now).ruling = .ok ())
    (follows : Delivers headers others fun earlier h =>
      ∃ parent, (u.after (arrivals now earlier)).store.find? h.previous = some parent) :
    (t.after (arrivals now order)).store.catalog.Within
      (u.after (arrivals now others)).store.catalog := by
  have grown := (begins.rooted.after (arrivals now order)).grown
  have grown' := (begins'.rooted.after (arrivals now others)).grown
  have back := begins.within_of_accepted begins' apart accepts follows.only
  obtain ⟨-, -, first, -, -⟩ := begins.records
  have stored (r : Record) (m : r ∈ (t.after (arrivals now order)).store.catalog) :
      r ∈ (u.after (arrivals now others)).store.catalog := by
    induction r, m using grown.induct with
    | first =>
      rw [← begins.head_eq begins']
      exact grown'.first_mem
    | child q r _ m l ih =>
      obtain ⟨arrived, other, link, passes⟩ :=
        begins.arrived order m (l.ne_of_genesis first)
      obtain rfl := Option.some.inj (link.found.symm.trans l.found)
      have wanted := accepts.only r.header arrived
      obtain ⟨earlier, later, rfl, parent, known⟩ := follows.each r.header wanted
      have rooted := begins'.rooted.after (arrivals now earlier)
      have within := begins'.rooted.within_earlier now earlier r.header later
      -- the parent that stands in front of the delivery is the one of the other history
      obtain rfl : parent = other := by
        have known' := within _ _ known
        rw [l.previous] at known'
        exact Option.some.inj (known'.symm.trans ih)
      have link' : (u.after (arrivals now earlier)).store.catalog.Links parent r :=
        ⟨known, l.extend⟩
      have branch := rooted.grown.branch_of_within (within.trans back) link'.mem
      rw [branch] at passes
      have only : ∀ x ∈ earlier, x ∈ headers := fun x m =>
        follows.only x (List.mem_append_left _ m)
      exact begins'.mem_of_passes apart only link' wanted passes later
  intro x r found
  rw [← hash_of_find? found]
  exact stored r (mem_of_find? found)

/-- Two histories that store the same records agree on their heads. -/
theorem Begins.agrees {before behind : List Submission}
    (forth : (t.after before).store.catalog.Within (u.after behind).store.catalog)
    (back : (u.after behind).store.catalog.Within (t.after before).store.catalog) :
    (t.after before).Agrees (u.after behind) := by
  have heavy := begins.heaviest_head before
  have heavy' := (begins'.heaviest_head behind).of_within back forth
  have level : (u.after behind).store.head.work = (t.after before).store.head.work :=
    Work.ext (Nat.le_antisymm (heavy.work_le _ heavy'.stored) (heavy'.work_le _ heavy.stored))
  refine ⟨fun h => Option.ext fun r => ⟨back h r, forth h r⟩, level, ?_⟩
  intro unique
  have head := unique _ _ heavy' heavy
  refine ⟨head, ?_⟩
  have shows := begins.shows_after before
  have shows' := begins'.shows_after behind
  have chain : (u.after behind).signals = (t.after before).signals := by
    have grown := (begins.rooted.after before).grown
    rw [signals, signals, Store.bestChain, Store.bestChain, head,
      grown.chain_of_within forth (t.after before).store.head_mem]
  rw [chain] at shows'
  apply shows'.unique shows
  rw [(u.after behind).size_window, (t.after before).size_window, params_after begins,
    params_after begins']

end TwoRuns

/-- Without outages, two histories from a fresh store that submit only headers of one set at one time
of the clock agree at their ends: one accepts them all, the other one takes them in any order, each
at least once behind its parent. What it takes before that is refused for the missing parent. -/
theorem arrival_order_immaterial (begins : Begins p (fun _ _ => false) t)
    (begins' : Begins p (fun _ _ => false) u) (apart : p.Distinguishes headers)
    (accepts : Delivers headers order fun earlier h =>
      ((t.after (arrivals now earlier)).submit h now).ruling = .ok ())
    (follows : Delivers headers others fun earlier h =>
      ∃ parent, (u.after (arrivals now earlier)).store.find? h.previous = some parent) :
    (t.after (arrivals now order)).Agrees (u.after (arrivals now others)) ∧
      ∀ earlier h later, others = earlier ++ h :: later →
        (u.after (arrivals now earlier)).store.find? h.previous = none →
        ((u.after (arrivals now earlier)).submit h now).ruling =
          .error (.rejected (.unknownParent h.previous)) := by
  have forth := begins.within_of_delivered begins' apart accepts follows
  have back := begins.within_of_accepted begins' apart accepts follows.only
  refine ⟨begins.agrees begins' forth back, ?_⟩
  rintro earlier h later rfl orphan
  have rooted := begins'.rooted.after (arrivals now earlier)
  have sure := begins'.dependable_after (arrivals now earlier)
  have wanted := follows.only h (List.mem_append_right _ List.mem_cons_self)
  have only : ∀ x ∈ earlier, x ∈ headers := fun x m => follows.only x (List.mem_append_left _ m)
  refine (rooted.submit_of_orphan sure ?_ orphan).1
  -- a stored header has a stored parent
  rw [Option.eq_none_iff_forall_ne_some]
  intro r found
  obtain ⟨own, later⟩ := begins'.header_of_find? apart only wanted found
  obtain ⟨parent, l⟩ := rooted.grown.parent (mem_of_find? found) later
  have known := l.found
  rw [own] at known
  cases known.symm.trans orphan

theorem distinguishes_unitTest :
    Params.unitTest.Distinguishes {Params.unitTestNext, Params.unitTestLate} := by
  have unlike : Params.unitTestNext.hash ≠ Params.unitTestLate.hash := by
    rw [Params.hash_unitTestNext, Params.hash_unitTestLate]
    decide
  refine ⟨?_, ?_⟩
  · intro a ha b hb same
    rw [Finset.mem_insert, Finset.mem_singleton] at ha hb
    rcases ha with rfl | rfl <;> rcases hb with rfl | rfl
    · rfl
    · exact absurd same unlike
    · exact absurd same.symm unlike
    · rfl
  · intro a ha
    rw [Finset.mem_insert, Finset.mem_singleton] at ha
    rw [Params.hash_genesis_unitTest]
    rcases ha with rfl | rfl
    · rw [Params.hash_unitTestNext]
      decide
    · rw [Params.hash_unitTestLate]
      decide

/-- The child of a header that is mined first finds no parent, and leaves everything as it is. -/
theorem Begins.orphan_unitTest (begins : Begins .unitTest (fun _ _ => false) t) :
    t.store.catalog.find? Params.unitTestLate.previous = none ∧
      (t.after (arrivals 1231006685 [Params.unitTestLate])).Carries
        [Params.unitTest.genesis] := by
  have orphan : t.store.catalog.find? Params.unitTestLate.previous = none := by
    have names : Params.unitTestLate.previous = Params.unitTestNext.hash :=
      Params.hash_unitTestNext.symm
    have apart := distinguishes_unitTest.first Params.unitTestNext (by simp)
    rw [begins.find?_eq, names, if_neg (Ne.symm apart)]
  have new : t.store.catalog.find? Params.unitTestLate.hash = none := by
    have apart := distinguishes_unitTest.first Params.unitTestLate (by simp)
    rw [begins.find?_eq, if_neg (Ne.symm apart)]
  exact ⟨orphan,
    begins.carries.congr (begins.rooted.submit_of_orphan begins.dependable new orphan).2⟩

theorem Begins.accepts_unitTest (begins : Begins .unitTest (fun _ _ => false) t) :
    Delivers {Params.unitTestNext, Params.unitTestLate}
      [Params.unitTestNext, Params.unitTestLate] fun earlier h =>
        ((t.after (arrivals 1231006685 earlier)).submit h 1231006685).ruling = .ok () := by
  obtain ⟨first, carries⟩ := begins.carries_next (by decide) [] begins.carries mined_unitTestNext
  obtain ⟨second, -⟩ := begins.carries_next (by decide) _ carries mined_unitTestLate
  refine ⟨by simp, ?_⟩
  intro h m
  rw [Finset.mem_insert, Finset.mem_singleton] at m
  rcases m with rfl | rfl
  · exact ⟨[], [Params.unitTestLate], rfl, first⟩
  · exact ⟨[Params.unitTestNext], [], rfl, second⟩

theorem Begins.follows_unitTest (begins : Begins .unitTest (fun _ _ => false) t) :
    Delivers {Params.unitTestNext, Params.unitTestLate}
      [Params.unitTestLate, Params.unitTestNext, Params.unitTestLate] fun earlier h =>
        ∃ parent, (t.after (arrivals 1231006685 earlier)).store.find? h.previous =
          some parent := by
  have carries := begins.orphan_unitTest.2
  refine ⟨by simp, ?_⟩
  intro h m
  rw [Finset.mem_insert, Finset.mem_singleton] at m
  rcases m with rfl | rfl
  · have names : Params.unitTestNext.previous = Params.unitTest.genesis.hash :=
      Params.hash_genesis_unitTest.symm
    refine ⟨[Params.unitTestLate], [Params.unitTestLate], rfl, ?_⟩
    rw [names]
    exact carries.exists_find?
  · have names : Params.unitTestLate.previous = Params.unitTestNext.hash :=
      Params.hash_unitTestNext.symm
    obtain ⟨-, mined⟩ := begins.carries_next (by decide) _ carries mined_unitTestNext
    refine ⟨[Params.unitTestLate, Params.unitTestNext], [], rfl, ?_⟩
    rw [names]
    exact mined.exists_find?

/-- So it is on the unit test network where the child of a mined header comes too early, and again
behind its parent. -/
theorem arrival_order_immaterial_unitTest :
    ∃ t, Begins .unitTest (fun _ _ => false) t ∧
      ∃ order others, order = [Params.unitTestNext, Params.unitTestLate] ∧
        others = [Params.unitTestLate, Params.unitTestNext, Params.unitTestLate] ∧
        (t.after (arrivals 1231006685 order)).Agrees (t.after (arrivals 1231006685 others)) ∧
        ((t.after (arrivals 1231006685 [])).submit Params.unitTestLate 1231006685).ruling =
          .error (.rejected (.unknownParent Params.unitTestLate.previous)) := by
  obtain ⟨t, begins⟩ := exists_begins (fun _ _ => false) Params.sound_unitTest (by decide) rfl
  obtain ⟨agrees, refused⟩ := arrival_order_immaterial begins begins distinguishes_unitTest
    begins.accepts_unitTest begins.follows_unitTest
  exact ⟨t, begins, _, _, rfl, rfl, agrees, refused [] _ _ rfl begins.orphan_unitTest.1⟩

end Tracker

end HeaviestChain
