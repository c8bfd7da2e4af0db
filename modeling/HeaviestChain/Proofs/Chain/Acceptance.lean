import HeaviestChain.Proofs.Chain.HeaderTree
import HeaviestChain.Proofs.Rules.Verdict

/-!
Acceptance. Without outages a new header is accepted exactly if it fits its lineage and the clock,
and is otherwise refused for the first condition that fails. What is stored beside the lineage makes
no difference.
-/

namespace HeaviestChain

/-- What a reply says of a header, without what was done about it. -/
def Reply.ruling (reply : Reply) : Except SubmitError Unit := reply.result.map fun _ => ()

theorem Reply.ruling_eq_ok {reply : Reply} :
    reply.ruling = .ok () ↔ ∃ outcome, reply.result = .ok outcome := by
  unfold ruling
  cases reply.result <;> simp [Except.map]

theorem Reply.ruling_eq_error {reply : Reply} {e : SubmitError} :
    reply.ruling = .error e ↔ reply.result = .error e := by
  unfold ruling
  cases reply.result <;> simp [Except.map]

/-- The ruling that follows an examination. -/
def ruling : Except Failure Verdict → Except SubmitError Unit
  | .ok .known => .ok ()
  | .ok (.rejected reason) => .error (.rejected reason)
  | .ok (.sound _) => .ok ()
  | .error f => .error (.failed f)

namespace Params

/-- Whether the time of a header, once it is examined, can be compared with its past. -/
def Recalls (p : Params) (branch : List Record) (h : Header) : Prop :=
  p.medianSpan.toNat < wordCapacity ∨ ¬p.Due branch h

/-- Whether a ruling is the one that the lineage of a header calls for. -/
structure Settles (p : Params) (branch : List Record) (h : Header) (now : Int)
    (ruling : Except SubmitError Unit) : Prop where
  accepted : p.Recalls branch h → (ruling = .ok () ↔ p.Admits branch h now)
  refused : p.Recalls branch h → ∀ reason,
    (ruling = .error (.rejected reason) ↔ p.Refuses branch h now reason)
  decided : p.Recalls branch h → ruling = .ok () ∨ ∃ reason, ruling = .error (.rejected reason)
  stuck : ¬p.Recalls branch h → ruling = .error (.failed (.trap .capacity))

/-- The unit test network with another span of the median time. -/
def unitTestSpan (span : UInt64) : Params := { unitTest with medianSpan := span }

variable {p : Params} {branch : List Record} {h : Header} {now : Int}

/-- As a header keeps all conditions or fails one first, it is enough to rule in both cases. -/
theorem settles_of_cases {ruling : Except SubmitError Unit}
    (either : p.Admits branch h now ∨ ∃ reason, p.Refuses branch h now reason)
    (admitted : p.Recalls branch h → p.Admits branch h now → ruling = .ok ())
    (refused : p.Recalls branch h → ∀ reason, p.Refuses branch h now reason →
      ruling = .error (.rejected reason))
    (stuck : ¬p.Recalls branch h → ruling = .error (.failed (.trap .capacity))) :
    p.Settles branch h now ruling := by
  refine ⟨?_, ?_, ?_, stuck⟩
  · intro recalls
    refine ⟨?_, admitted recalls⟩
    intro e
    rcases either with admits | ⟨reason, refuses⟩
    · exact admits
    · cases e.symm.trans (refused recalls reason refuses)
  · intro recalls reason
    refine ⟨?_, refused recalls reason⟩
    intro e
    rcases either with admits | ⟨other, refuses⟩
    · cases e.symm.trans (admitted recalls admits)
    · cases e.symm.trans (refused recalls other refuses)
      exact refuses
  · intro recalls
    rcases either with admits | ⟨reason, refuses⟩
    · exact .inl (admitted recalls admits)
    · exact .inr ⟨reason, refused recalls reason refuses⟩

theorem Settles.unique {a b : Except SubmitError Unit} (ha : p.Settles branch h now a)
    (hb : p.Settles branch h now b) : a = b := by
  by_cases recalls : p.Recalls branch h
  · rcases ha.decided recalls with e | ⟨reason, e⟩
    · rw [e, (hb.accepted recalls).2 ((ha.accepted recalls).1 e)]
    · rw [e, (hb.refused recalls reason).2 ((ha.refused recalls reason).1 e)]
  · rw [ha.stuck recalls, hb.stuck recalls]

end Params

namespace Tracker

open Catalog

variable {g : Record} {p : Params} {t : Tracker} {h : Header} {now : Int} {reply : Reply}

/-- Without outages a submission rules as the examination finds. -/
theorem Submits.ruling_eq (sure : t.connection.Dependable) (submits : t.Submits h now reply) :
    reply.ruling = ruling (t.verdict h now) := by
  unfold Reply.ruling
  cases submits with
  | stopped stops _ =>
    generalize reply.result = result at stops
    cases stops with
    | known found => rw [found]; rfl
    | rejected found => rw [found]; rfl
    | failed cause =>
      rcases cause with found | faulty
      · rw [found]
        rfl
      · exact absurd sure faulty
  | @filed _ r n found _ _ _ chooses =>
    rw [found]
    cases chooses with
    | failed _ faulty _ => exact absurd ((resumes_filed t r n).dependable sure) faulty
    | stayed result _ _ =>
      rw [result]
      rfl
    | moved _ result _ _ _ _ _ _ =>
      rw [result]
      rfl

/-- Without outages the ruling on a new header is the one that its lineage calls for. -/
theorem settles_submit (rooted : t.Rooted g) (sure : t.connection.Dependable)
    (ready : t.params.Ready t.store.catalog h now) :
    t.params.Settles (t.store.catalog.lineage h) h now (t.submit h now).ruling := by
  have rules := (submit_submits rooted h now).2.ruling_eq sure
  apply Params.settles_of_cases
  · exact Params.admits_or_refuses now (ready.dueBits rooted.grown t.sound)
  · intro recalls admits
    have fits := recalls.resolve_right (not_not_intro admits.due)
    obtain ⟨r, said⟩ :=
      Params.run_examine_of_admits rooted.grown t.sound ready fits admits t.store.size
    exact rules.trans (congrArg ruling said)
  · intro recalls reason refuses
    have said :=
      Params.run_examine_of_refuses rooted.grown t.sound ready recalls refuses t.store.size
    exact rules.trans (congrArg ruling said)
  · intro fails
    obtain ⟨vast, due⟩ := not_or.1 fails
    obtain ⟨r, said⟩ := Params.run_examine_of_due rooted.grown t.sound ready
      (Classical.not_not.1 due) t.store.size
    rw [if_pos (Nat.not_lt.1 vast)] at said
    exact rules.trans (congrArg ruling said)

theorem params_after (begins : Begins p (fun _ _ => false) t) (submissions : List Submission) :
    (t.after submissions).params = p :=
  (resumes_after begins.rooted submissions).params.trans begins.records.1

theorem settles_after (begins : Begins p (fun _ _ => false) t) (submissions : List Submission)
    (ready : p.Ready (t.after submissions).store.catalog h now) :
    p.Settles ((t.after submissions).store.catalog.lineage h) h now
      ((t.after submissions).submit h now).ruling := by
  have same := params_after begins submissions
  have sure := begins.dependable_after submissions
  rw [← same] at ready
  have settles := settles_submit (begins.rooted.after submissions) sure ready
  rwa [same] at settles

/-- A ruling does not change while other branches grow. -/
theorem ruling_kept (begins : Begins p (fun _ _ => false) t) (earlier later : List Submission)
    {parent : Record} (known : (t.after earlier).store.find? h.previous = some parent)
    (ready : p.Ready (t.after earlier).store.catalog h now)
    (still : p.Ready (t.after (earlier ++ later)).store.catalog h now) :
    ((t.after (earlier ++ later)).submit h now).ruling =
      ((t.after earlier).submit h now).ruling := by
  have rooted := begins.rooted.after earlier
  have within := begins.rooted.within_after earlier later
  have settles := settles_after begins (earlier ++ later) still
  rw [rooted.grown.lineage_of_within within known] at settles
  exact settles.unique (settles_after begins earlier ready)

/-- On the unit test network, with any span of the median, a header mined on the first one keeps
all conditions. -/
theorem admits_unitTestNext {span : UInt64} {outages : Nat → Operation → Bool} (some : span ≠ 0)
    (begins : Begins (.unitTestSpan span) outages t) :
    (Params.unitTestSpan span).Ready t.store.catalog Params.unitTestNext 1231006565 ∧
      (Params.unitTestSpan span).Admits (t.store.catalog.lineage Params.unitTestNext)
        Params.unitTestNext 1231006565 := by
  have own : t.store.head.header = Params.unitTest.genesis := begins.head_header
  have low : t.store.head.height = 0 := begins.rooted.grown.height_first
  have known : t.store.catalog.find? Params.unitTestNext.previous = .some t.store.head := by
    rw [begins.find?_eq]
    exact if_pos Params.hash_genesis_unitTest
  have lineage : t.store.catalog.lineage Params.unitTestNext = [t.store.head] := by
    rw [lineage_of_find? known, branch_of_height_eq_zero _ low]
  have one : [t.store.head].take span.toNat = [t.store.head] := by
    refine List.take_of_length_le (Nat.one_le_iff_ne_zero.2 ?_)
    intro none
    exact some (UInt64.toNat_inj.1 none)
  have past : (Params.unitTestSpan span).medianPast [t.store.head] = 1231006505 := by
    show median (([t.store.head].take span.toNat).map fun r => r.header.time) = _
    rw [one, List.map_singleton, median_singleton, own]
    rfl
  have drift : (Params.unitTestSpan span).maxDrift.toNat = 7200 := rfl
  refine ⟨⟨?_, ?_, by rw [drift]; decide⟩, ?_⟩
  · rw [begins.find?_eq, Params.hash_unitTestNext]
    apply if_neg
    show Params.unitTest.genesis.hash ≠ _
    rw [Params.hash_genesis_unitTest]
    decide
  · intro parent found
    rw [known] at found
    rw [← Option.some.inj found, low]
    decide
  · rw [lineage]
    refine ⟨⟨⟨t.store.head, rfl, ?_⟩, ?_, ?_⟩, ?_, by rw [drift]; decide⟩
    · intro expected found
      cases found
    · have same : (Params.unitTestSpan span).limit = Params.unitTest.limit := by
        rw [Params.limit, Params.limit, Params.unitTestSpan]
      obtain ⟨claims, meets⟩ := Params.meets_unitTestNext
      exact ⟨_, claims, Nat.le_of_eq (by rw [same]), meets⟩
    · rw [Params.dueBits, if_neg (fun closes => closes.1 low)]
      show Option.some t.store.head.header.bits = _
      rw [own]
      rfl
    · rw [past]
      decide

/-- After every history without outages a new header is accepted exactly if it keeps all conditions
and is otherwise refused for the first one that fails, where the span of the median fits the memory.
The lineage, the header and the clock determine the ruling. -/
theorem ruling_settled (begins : Begins p (fun _ _ => false) t) (submissions : List Submission)
    (ready : p.Ready (t.after submissions).store.catalog h now) :
    p.Settles ((t.after submissions).store.catalog.lineage h) h now
        ((t.after submissions).submit h now).ruling ∧
      ∀ (u : Tracker) (others : List Submission), Begins p (fun _ _ => false) u →
        p.Ready (u.after others).store.catalog h now →
        (u.after others).store.catalog.lineage h = (t.after submissions).store.catalog.lineage h →
        ((u.after others).submit h now).ruling = ((t.after submissions).submit h now).ruling := by
  have settles := settles_after begins submissions ready
  refine ⟨settles, ?_⟩
  intro u others begins' ready' same
  have settles' := settles_after begins' others ready'
  rw [same] at settles'
  exact settles'.unique settles

/-- So it is on the unit test network for a header that keeps all conditions. -/
theorem ruling_settled_unitTestNext :
    ∃ t, Begins (.unitTestSpan 11) (fun _ _ => false) t ∧
      (Params.unitTestSpan 11).Ready (t.after []).store.catalog Params.unitTestNext 1231006565 ∧
      (Params.unitTestSpan 11).Admits ((t.after []).store.catalog.lineage Params.unitTestNext)
        Params.unitTestNext 1231006565 ∧
      (Params.unitTestSpan 11).Settles ((t.after []).store.catalog.lineage Params.unitTestNext)
        Params.unitTestNext 1231006565
        ((t.after []).submit Params.unitTestNext 1231006565).ruling := by
  have sound : (Params.unitTestSpan 11).Sound := by decide
  obtain ⟨t, begins⟩ := exists_begins (fun _ _ => false) sound (by decide) rfl
  obtain ⟨ready, admits⟩ := admits_unitTestNext (by decide) begins
  exact ⟨t, begins, ready, admits, (ruling_settled begins [] ready).1⟩

/-- Parameters without a flaw may ask for the median of more headers than the memory holds. Then a
header that keeps all conditions is not accepted. -/
theorem ruling_beyond_memory :
    (Params.unitTestSpan 2305843009213693952).Sound ∧
      ∃ t, Begins (.unitTestSpan 2305843009213693952) (fun _ _ => false) t ∧
        (Params.unitTestSpan 2305843009213693952).Ready t.store.catalog Params.unitTestNext
          1231006565 ∧
        (Params.unitTestSpan 2305843009213693952).Admits
          (t.store.catalog.lineage Params.unitTestNext) Params.unitTestNext 1231006565 ∧
        (t.submit Params.unitTestNext 1231006565).ruling = .error (.failed (.trap .capacity)) := by
  have sound : (Params.unitTestSpan 2305843009213693952).Sound := by decide
  obtain ⟨t, begins⟩ := exists_begins (fun _ _ => false) sound (by decide) rfl
  obtain ⟨ready, admits⟩ := admits_unitTestNext (by decide) begins
  refine ⟨sound, t, begins, ready, admits, ?_⟩
  apply (settles_after begins [] ready).stuck
  rintro (fits | early)
  · exact absurd fits (by decide)
  · exact early admits.due

end Tracker

end HeaviestChain
