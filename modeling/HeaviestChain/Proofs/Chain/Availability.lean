import HeaviestChain.Proofs.Chain.Retry
import HeaviestChain.Proofs.Rules.Subsidy

/-!
Availability. Over sound parameters, without outages, every call on a tracker that started over a
fresh store is answered: no word overflows, no walk misses a parent or an end, and nothing stored is
found corrupt. Only a clock that leaves no room for the drift, or a chain as long as heights can
count, can stop a submission.
-/

namespace HeaviestChain

/-- Whether no record of a store is as high as heights can count. -/
def Store.Room (s : Store) : Prop :=
  ∀ h r, s.find? h = some r → r.height.toNat + 1 < UInt32.size

/-- Whether every call on a tracker is answered: a header is accepted or refused where the store and
the clock leave room, the head and the records of its branch are found, and what depends on a height
alone is there at every height. -/
structure Params.Serves (p : Params) (t : Tracker) : Prop where
  submit : t.store.Room → ∀ h now, now + p.maxDrift.toNat ≤ Int64.maxValue.toInt →
    (∃ outcome, (t.submit h now).result = .ok outcome) ∨
      ∃ reason, (t.submit h now).result = .error (.rejected reason)
  head : t.head.1 = .ok t.store.head
  bestHeight : t.bestHeight.1 = .ok t.store.head.height
  atHeight : ∀ height,
    (t.atHeight height).1 = .ok (t.store.catalog.ancestor? t.store.head height.toNat)
  closesInterval : ∀ height, ∃ closes, p.closesInterval height = .ok closes
  halvesAfter : ∀ height, ∃ halves, p.halvesAfter height = .ok halves
  subsidy : ∀ height, ∃ coins, p.subsidy height = .ok coins

namespace Params

variable {p : Params}

/-- A halving interval of no headers is a flaw, so that nothing is divided by zero. -/
theorem exists_halvesAfter (sound : p.Sound) (height : UInt32) :
    ∃ halves, p.halvesAfter height = .ok halves := by
  obtain ⟨-, -, halving, -⟩ := sound.bounds
  exact ⟨_, if_neg halving⟩

theorem exists_subsidy (sound : p.Sound) (height : UInt32) :
    ∃ coins, p.subsidy height = .ok coins := by
  obtain ⟨-, -, halving, -⟩ := sound.bounds
  exact ⟨_, subsidy_eq halving height⟩

end Params

theorem Reply.answered_of_ruling {reply : Reply}
    (ruled : reply.ruling = .ok () ∨ ∃ reason, reply.ruling = .error (.rejected reason)) :
    (∃ outcome, reply.result = .ok outcome) ∨
      ∃ reason, reply.result = .error (.rejected reason) :=
  ruled.imp ruling_eq_ok.1 fun ⟨reason, refused⟩ => ⟨reason, ruling_eq_error.1 refused⟩

namespace Tracker

variable {g : Record} {p : Params} {t : Tracker} {s : Store}

theorem head_of_dependable (sure : t.connection.Dependable) :
    t.head = (.ok t.store.head, t.withCalls (t.connection.calls + 1)) := by
  rw [head, Connection.chainHead_eq, sure.not_fails]
  rfl

theorem bestHeight_of_dependable (sure : t.connection.Dependable) :
    t.bestHeight.1 = .ok t.store.head.height := by
  rw [bestHeight, head_of_dependable sure]

theorem atHeight_of_dependable (rooted : t.Rooted g) (sure : t.connection.Dependable)
    (height : UInt32) :
    (t.atHeight height).1 = .ok (t.store.catalog.ancestor? t.store.head height.toNat) := by
  have found := Walk.run_ancestor_eq rooted.grown t.store.head_mem t.store.size height
  have read := (Walk.ancestor t.store.size t.store.head height).resolve_of_gets
    (c := t.connection.withCalls (t.connection.calls + 1)) rooted.hidden
    (fun call => by rw [Connection.withCalls, sure.faultless])
  rw [atHeight, head_of_dependable sure]
  exact read.trans found

theorem submit_answered (rooted : t.Rooted g) (sure : t.connection.Dependable)
    (recalls : t.params.medianSpan.toNat < wordCapacity) (room : t.store.Room) (h : Header)
    {now : Int} (fits : now + t.params.maxDrift.toNat ≤ Int64.maxValue.toInt) :
    (∃ outcome, (t.submit h now).result = .ok outcome) ∨
      ∃ reason, (t.submit h now).result = .error (.rejected reason) := by
  cases known : t.store.find? h.hash with
  | some r =>
    obtain ⟨n, e⟩ := submit_of_known rooted.hidden (fun call => by rw [sure.faultless]) known now
    exact .inl ⟨.duplicate, by rw [e]⟩
  | none =>
    have ready : t.params.Ready t.store.catalog h now :=
      ⟨known, fun parent found => room _ _ found, fits⟩
    exact Reply.answered_of_ruling ((settles_submit rooted sure ready).decided (.inl recalls))

theorem Begins.serves (begins : Begins p (fun _ _ => false) t)
    (recalls : p.medianSpan.toNat < wordCapacity) (submissions : List Submission) :
    p.Serves (t.after submissions) := by
  have rooted := begins.rooted.after submissions
  have sure := begins.dependable_after submissions
  have params := params_after begins submissions
  have sound : p.Sound := params ▸ (t.after submissions).sound
  refine ⟨?_, by rw [head_of_dependable sure], bestHeight_of_dependable sure,
    atHeight_of_dependable rooted sure, fun height => ⟨_, Params.closesInterval_eq sound height⟩,
    Params.exists_halvesAfter sound, Params.exists_subsidy sound⟩
  intro room h now fits
  rw [← params] at recalls fits
  exact submit_answered rooted sure recalls room h fits

/-- Over sound parameters whose windows fit the memory a tracker starts over every fresh store, and
without outages every call on it is answered after every history. -/
theorem calls_answered (sound : p.Sound) (window : p.signalWindow.toNat < wordCapacity)
    (span : p.medianSpan.toNat < wordCapacity) (fresh : Store.Fresh p.genesis s) :
    ∃ t, start p (.reliable s) = .ok t ∧ ∀ submissions, p.Serves (t.after submissions) := by
  obtain ⟨t, started⟩ : ∃ t, start p (.reliable s) = .ok t :=
    exists_start_eq_ok sound window rfl fresh
  have begins : Begins p (fun _ _ => false) t := ⟨s, fresh, started⟩
  exact ⟨t, started, begins.serves span⟩

/-- So it is on the unit test network over an empty directory, where there is room for a header. -/
theorem calls_answered_unitTest :
    Params.unitTest.Sound ∧ Params.unitTest.signalWindow.toNat < wordCapacity ∧
      Params.unitTest.medianSpan.toNat < wordCapacity ∧
      ∃ s, Store.Fresh Params.unitTest.genesis s ∧
        ∃ t, start .unitTest (.reliable s) = .ok t ∧ t.store.Room ∧
          (1231006565 : Int) + Params.unitTest.maxDrift.toNat ≤ Int64.maxValue.toInt ∧
          ∀ submissions, Params.unitTest.Serves (t.after submissions) := by
  have sound := Params.sound_unitTest
  obtain ⟨g, first⟩ := sound.exists_genesis
  obtain ⟨s, d, opened⟩ := Store.exists_onDisk_empty first "chain"
  have fresh : Store.Fresh Params.unitTest.genesis s := .onDisk opened
  obtain ⟨t, started, serves⟩ := calls_answered sound (by decide) (by decide) fresh
  have begins : Begins .unitTest (fun _ _ => false) t := ⟨s, fresh, started⟩
  refine ⟨sound, by decide, by decide, s, fresh, t, started, ?_, by decide, serves⟩
  intro h r found
  obtain rfl := begins.eq_head (Catalog.mem_of_find? found)
  rw [begins.rooted.grown.height_first]
  decide

end Tracker

end HeaviestChain
