import HeaviestChain.Proofs.Chain.Mining
import HeaviestChain.Proofs.Rules.Retarget

/-!
What follows an interval. Behind a stored header that closes its interval all children must carry
the target that the interval leaves. If it leaves none, no child is ever stored and the branch ends
there.
-/

namespace HeaviestChain

open Catalog Target

/-- Whether `next` follows the interval from `first` to `parent`, whose last target is `last`. Every
child must carry its compact form, and a header fits behind `parent` exactly if the interval leaves
a target, the header carries and meets it, and no checkpoint names another header. -/
structure Params.Renews (p : Params) (s : Store) (first parent : Record) (last next : Target) :
    Prop where
  opened : s.catalog.ancestor? parent (parent.height.toNat + 1 - p.interval.toNat) = some first
  claimed : ofCompact parent.header.bits = .ok last
  positive : 1 ≤ last.toNat
  limited : last.toNat ≤ p.limit.toNat
  retargets : p.Retargets last first.header.time parent.header.time next
  required : ∀ time, (p.requiredBits s.size parent time).run s.find? = .ok next.toCompact
  due : ∀ h, p.Due (s.catalog.branch parent) h ↔
    p.Sustains last first.header.time parent.header.time ∧ p.HeedsCheckpoint parent h ∧
      h.bits = next.toCompact ∧ ∃ target, h.target = .ok target ∧ h.Meets target

namespace Params

variable {p : Params} {g parent : Record} {c : Catalog} {last next : Target} {start stop : UInt32}

/-- A header with the bits of the next target can be mined only if the interval leaves one, and then
it is mined if it meets what it claims. -/
theorem Retargets.mined_iff (retargets : p.Retargets last start stop next) {h : Header}
    (bits : h.bits = next.toCompact) :
    p.Mined h ↔ p.Sustains last start stop ∧ ∃ target, h.target = .ok target ∧ h.Meets target := by
  have names : h.target = ofCompact next.toCompact := congrArg ofCompact bits
  constructor
  · rintro ⟨target, claims, -, meets⟩
    refine ⟨?_, target, claims, meets⟩
    by_contra spent
    rw [names, (retargets.vanished spent).2] at claims
    cases claims
  · rintro ⟨sustains, target, claims, meets⟩
    obtain ⟨other, claims', -, below⟩ := retargets.named sustains
    obtain rfl := Except.ok.inj (claims.symm.trans (names.trans claims'))
    exact ⟨target, claims, below, meets⟩

end Params

namespace Tracker

variable {p : Params} {outages : Nat → Operation → Bool} {t : Tracker} {parent : Record}

theorem Begins.target_le_limit (begins : Begins p outages t) (submissions : List Submission)
    (m : parent ∈ (t.after submissions).store.catalog) (high : parent.height ≠ 0) :
    ∃ last, ofCompact parent.header.bits = .ok last ∧ last.toNat ≤ p.limit.toNat := by
  have grown := (begins.rooted.after submissions).grown
  -- the parent closes an interval, so it is no first record and passed an examination itself
  have later : parent ≠ t.store.head := fun same => high (same ▸ grown.height_first)
  obtain ⟨older, l⟩ := grown.parent m later
  obtain ⟨s, -, -, passes⟩ := begins.passes submissions m l
  obtain ⟨last, claims, below, -⟩ := passes.admits.due.mined
  exact ⟨last, claims, below⟩

/-- Whatever calls fail, the end of an interval says what follows. -/
theorem Begins.renews (begins : Begins p outages t) (sound : p.Sound)
    (submissions : List Submission) (m : parent ∈ (t.after submissions).store.catalog)
    (closes : p.closesInterval parent.height = .ok true) (moving : p.fixedDifficulty = false)
    (room : parent.height.toNat + 1 < UInt32.size) :
    ∃ first last next, p.Renews (t.after submissions).store first parent last next := by
  have grown := (begins.rooted.after submissions).grown
  have ends : parent.height ≠ 0 ∧ (parent.height.toNat + 1) % p.interval.toNat = 0 := by
    rw [Params.closesInterval_eq sound] at closes
    exact of_decide_eq_true (Except.ok.inj closes)
  obtain ⟨last, claims, below⟩ := begins.target_le_limit submissions m ends.1
  obtain ⟨first, place, opened⟩ := Params.exists_first_of_closes grown sound m ends
  have retargets := Params.retargets_nextTarget sound last first.header.time parent.header.time
  generalize named : p.nextTarget last first.header.time parent.header.time = next at retargets
  have due (time : UInt32) :
      p.dueBits ((t.after submissions).store.catalog.branch parent) time =
        some next.toCompact := by
    rw [Params.dueBits_of_closes ends, if_neg (by simp [moving]), place,
      Header.claimed_of_target claims, Option.map_some, named]
  obtain ⟨rest, split⟩ := (t.after submissions).store.catalog.branch_eq_cons parent
  obtain ⟨-, positive, -⟩ := ofCompact_eq_ok.1 claims
  refine ⟨first, last, next, opened, claims, positive, below, retargets, ?_, ?_⟩
  · intro time
    obtain ⟨bits, set, run⟩ := Params.run_requiredBits grown sound m room
      (t.after submissions).store.size time
    obtain rfl := Option.some.inj ((due time).symm.trans set)
    exact run
  · intro h
    constructor
    · rintro ⟨⟨other, front, heeds⟩, mined, set⟩
      rw [split] at front
      obtain rfl := Option.some.inj front
      have bits : h.bits = next.toCompact := Option.some.inj (set.symm.trans (due h.time))
      obtain ⟨sustains, meets⟩ := (retargets.mined_iff bits).1 mined
      exact ⟨sustains, heeds, bits, meets⟩
    · rintro ⟨sustains, heeds, bits, meets⟩
      have mined := (retargets.mined_iff bits).2 ⟨sustains, meets⟩
      refine ⟨⟨parent, by rw [split]; rfl, heeds⟩, mined, ?_⟩
      rw [due, bits]

/-- Where no header fits, no child is ever stored. -/
theorem Begins.not_links_of_not_due (begins : Begins p outages t)
    (submissions later : List Submission) (m : parent ∈ (t.after submissions).store.catalog)
    (barren : ∀ h, ¬p.Due ((t.after submissions).store.catalog.branch parent) h) {r : Record}
    (stored : r ∈ (t.after (submissions ++ later)).store.catalog) :
    ¬(t.after (submissions ++ later)).store.catalog.Links parent r := by
  intro l
  have grown := (begins.rooted.after submissions).grown
  have within := begins.rooted.within_after submissions later
  obtain ⟨s, -, -, passes⟩ := begins.passes _ stored l
  rw [grown.branch_of_within within m] at passes
  exact barren _ passes.admits.due

/-- A target above zero, and no easier than the limit, follows an interval exactly if the last
target times the time that counts comes to the time that the interval should take. It does so
whatever the times are exactly if a quarter of that time is enough. Where none follows no child is
ever stored, whatever calls fail. -/
theorem succession_settled (sound : p.Sound) :
    (∀ last start stop, ∃ next, p.Retargets last start stop next) ∧
      (∀ last, (∀ start stop, p.Sustains last start stop) ↔
        p.timespan.toNat ≤ last.toNat * (p.timespan.toNat / 4)) ∧
      ∀ (outages : Nat → Operation → Bool) (t : Tracker), Begins p outages t →
        ∀ (submissions : List Submission), ∀ parent ∈ (t.after submissions).store.catalog,
          p.closesInterval parent.height = .ok true → p.fixedDifficulty = false →
          parent.height.toNat + 1 < UInt32.size →
          ∃ first last next, p.Renews (t.after submissions).store first parent last next ∧
            (¬p.Sustains last first.header.time parent.header.time →
              ∀ (later : List Submission), ∀ r ∈ (t.after (submissions ++ later)).store.catalog,
                ¬(t.after (submissions ++ later)).store.catalog.Links parent r) := by
  refine ⟨?_, fun last => Params.sustains_always_iff, ?_⟩
  · intro last start stop
    exact ⟨_, Params.retargets_nextTarget sound last start stop⟩
  · intro outages t begins submissions parent m closes moving room
    obtain ⟨first, last, next, renews⟩ := begins.renews sound submissions m closes moving room
    refine ⟨first, last, next, renews, ?_⟩
    intro spent later r stored
    apply begins.not_links_of_not_due submissions later m _ stored
    intro h due
    exact spent ((renews.due h).1 due).1

/-- So it is in intervals of two headers that should take a second, where three headers are mined of
which the last is earlier than the one before it: bits of zero are required behind it, and none of
the headers that are submitted later is stored there. -/
theorem succession_settled_unitTestBack :
    (Params.unitTestPace 2 1).Sound ∧
      ∃ t, Begins (.unitTestPace 2 1) (fun _ _ => false) t ∧
        ∃ submissions, submissions = mining 1231006685 [Params.unitTestBack, Params.unitTestLate,
          Params.unitTestNext, Params.unitTest.genesis] ∧
          ∃ parent ∈ (t.after submissions).store.catalog, parent.header = Params.unitTestBack ∧
            (∀ time, ((Params.unitTestPace 2 1).requiredBits (t.after submissions).store.size parent
              time).run (t.after submissions).store.find? = .ok 0) ∧
            ∀ (later : List Submission), ∀ r ∈ (t.after (submissions ++ later)).store.catalog,
              ¬(t.after (submissions ++ later)).store.catalog.Links parent r := by
  have sound : (Params.unitTestPace 2 1).Sound := by decide
  obtain ⟨t, begins⟩ := exists_begins (fun _ _ => false) sound (by decide) rfl
  refine ⟨sound, t, begins, _, rfl, ?_⟩
  generalize mined : mining 1231006685 [Params.unitTestBack, Params.unitTestLate,
    Params.unitTestNext, Params.unitTest.genesis] = submissions
  have grown := (begins.rooted.after submissions).grown
  obtain ⟨parent, bears⟩ := (mined ▸ begins.carries_unitTestBack rfl).exists_bears
  obtain ⟨start, link, before⟩ := bears.parent grown (List.cons_ne_nil _ _)
  have high := bears.height grown
  have closes : (Params.unitTestPace 2 1).closesInterval parent.height = .ok true := by
    have last : parent.height = 3 := UInt32.toNat_inj.1 high
    rw [last]
    decide
  obtain ⟨-, -, settled⟩ := succession_settled sound
  obtain ⟨first, last, next, renews, ends⟩ := settled _ t begins submissions parent bears.mem closes
    rfl (by rw [high]; decide)
  obtain rfl : start = first := by
    have up := link.height
    have two : (Params.unitTestPace 2 1).interval.toNat = 2 := rfl
    have low : parent.height.toNat + 1 - (Params.unitTestPace 2 1).interval.toNat =
        start.height.toNat := by omega
    have opened := renews.opened
    rw [low, link.ancestor?_eq (by omega), ancestor?_self] at opened
    exact Option.some.inj opened
  have spent : ¬(Params.unitTestPace 2 1).Sustains last start.header.time parent.header.time := by
    have back : parent.header.time ≤ start.header.time := by
      rw [bears.header, before.header]
      decide
    rw [Params.Sustains, boundedSpan_of_le _ back]
    exact Nat.not_succ_le_zero 0
  obtain ⟨none, -⟩ := renews.retargets.vanished spent
  have zero : next = Target.zero := Target.ext none
  refine ⟨parent, bears.mem, bears.header, ?_, ends spent⟩
  intro time
  rw [renews.required, zero]
  rfl

/-- Parameters without a flaw may ask for an interval of less than four seconds. Then an interval
whose last header is the earlier one leaves no target, not even behind the easiest one. -/
theorem retarget_vanishes :
    (Params.unitTestPace 2 1).Sound ∧ 1 ≤ (Params.unitTestPace 2 1).limit.toNat ∧
      (Params.unitTestPace 2 1).retarget (Params.unitTestPace 2 1).limit 1231006685 1231006625 =
        .ok .zero ∧ ofCompact Target.zero.toCompact = .error (.zero 0) := by
  have sound : (Params.unitTestPace 2 1).Sound := by decide
  refine ⟨sound, sound.limit_pos, ?_, by decide⟩
  rw [Params.retarget_eq (by decide)]
  decide

end Tracker

end HeaviestChain
