import HeaviestChain.Proofs.Rules.Verdict
import HeaviestChain.Proofs.Walk.Resolve

/-!
A header that an examination finds sound is not filed yet, its record is the child of a filed one,
and it keeps all conditions of its lineage and the clock.
-/

namespace HeaviestChain.Params

variable {p : Params} {c : Catalog} {stored : Nat} {h : Header} {now : Int} {r : Record}

/-- What is found of a header whose examination ends with a record. -/
structure Clears (p : Params) (find : Hash → Option Record) (stored : Nat) (parent : Record)
    (h : Header) (now : Int) (r : Record) : Prop where
  fit : p.misfit? (parent.height + 1) h = none
  bits : (p.requiredBits stored parent h.time).run find = .ok h.bits
  timed : ∃ median, (p.medianTime stored parent).run find = .ok median ∧
    p.mistimed? median now h.time = .ok none
  extend : parent.extend h = .ok r

theorem clears_of_run_examineChild {find : Hash → Option Record} {parent : Record}
    (e : (p.examineChild stored parent h now).run find = .ok (.sound r)) :
    p.Clears find stored parent h now r := by
  unfold examineChild at e
  split at e
  · cases e
  · split at e
    · cases e
    · rename_i fit
      obtain ⟨expected, bits, e⟩ := Walk.run_bind_eq_ok.1 e
      split at e
      · cases e
      · rename_i same
        obtain rfl : h.bits = expected := Decidable.not_not.1 same
        obtain ⟨median, past, e⟩ := Walk.run_bind_eq_ok.1 e
        obtain ⟨flaw, timed, e⟩ := Walk.run_bind_eq_ok.1 e
        split at e
        · cases e
        · have timed : p.mistimed? median now h.time = .ok none := by
            cases judged : p.mistimed? median now h.time <;> rw [judged] at timed <;> cases timed
            rfl
          cases link : parent.extend h with
          | error f => rw [link] at e; cases f <;> cases e
          | ok s =>
            rw [link] at e
            cases e
            exact ⟨fit, bits, ⟨median, past, timed⟩, link⟩

theorem run_examineChild_ne_known {find : Hash → Option Record} {parent : Record} :
    (p.examineChild stored parent h now).run find ≠ .ok .known := by
  intro e
  unfold examineChild at e
  split at e
  · cases e
  · split at e
    · cases e
    · obtain ⟨expected, -, e⟩ := Walk.run_bind_eq_ok.1 e
      split at e
      · cases e
      · obtain ⟨median, -, e⟩ := Walk.run_bind_eq_ok.1 e
        obtain ⟨flaw, -, e⟩ := Walk.run_bind_eq_ok.1 e
        split at e
        · cases e
        · cases link : parent.extend h with
          | error f => rw [link] at e; cases f <;> cases e
          | ok s => rw [link] at e; cases e

theorem known_of_run_examine (e : (p.examine stored h now).run c.find? = .ok .known) :
    ∃ r, c.find? h.hash = some r := by
  rw [examine, Walk.run] at e
  cases filed : c.find? h.hash with
  | some r => exact ⟨r, rfl⟩
  | none =>
    rw [filed, Walk.run] at e
    cases found : c.find? h.previous with
    | none => rw [found] at e; cases e
    | some parent =>
      rw [found] at e
      exact absurd e run_examineChild_ne_known

/-- A sound header is new and has a filed parent. -/
theorem sound_of_run_examine
    (e : (p.examine stored h now).run c.find? = .ok (.sound r)) :
    r.header = h ∧ c.find? r.hash = none ∧ ∃ parent, c.Links parent r := by
  rw [examine, Walk.run] at e
  cases filed : c.find? h.hash with
  | some s => rw [filed] at e; cases e
  | none =>
    rw [filed, Walk.run] at e
    cases found : c.find? h.previous with
    | none => rw [found] at e; cases e
    | some parent =>
      rw [found] at e
      have link := (clears_of_run_examineChild e).extend
      have own := Record.header_of_extend link
      rw [Record.hash, own]
      exact ⟨rfl, filed, parent, by rw [own, found], by rw [own, link]⟩

/-- Whether a header keeps all conditions, and the words of the machine have room for the median and
for the latest time it may have. -/
structure Passes (p : Params) (branch : List Record) (h : Header) (now : Int) : Prop where
  admits : p.Admits branch h now
  recalls : p.medianSpan.toNat < wordCapacity
  fits : now + p.maxDrift.toNat ≤ Int64.maxValue.toInt

theorem passes_of_run_examine {g : Record} (grown : c.Grown g) (sound : p.Sound)
    (e : (p.examine stored h now).run c.find? = .ok (.sound r)) :
    p.Passes (c.lineage h) h now := by
  obtain ⟨own, -, parent, link⟩ := sound_of_run_examine e
  have known : c.find? h.previous = some parent := own ▸ link.found
  have new : c.find? h.hash = none := by
    rw [examine, Walk.run] at e
    cases filed : c.find? h.hash with
    | some s => rw [filed] at e; cases e
    | none => rfl
  rw [run_examine_of_known new known] at e
  have clears := clears_of_run_examineChild e
  have m := link.mem
  have room : parent.height.toNat + 1 < UInt32.size := (Record.extend_eq_ok.1 link.extend).1
  obtain ⟨heeds, mined⟩ := mined_of_misfit?_eq_none clears.fit
  obtain ⟨bits, due, run⟩ := run_requiredBits grown sound m room stored h.time
  obtain rfl := Except.ok.inj (run.symm.trans clears.bits)
  obtain ⟨median, past, timed⟩ := clears.timed
  rw [run_medianTime grown sound m] at past
  split at past
  · cases past
  · rename_i recalls
    obtain rfl := Except.ok.inj past
    obtain ⟨late, fits, near⟩ := of_mistimed?_eq_none timed
    obtain ⟨rest, split⟩ := c.branch_eq_cons parent
    rw [Catalog.lineage_of_find? known]
    exact ⟨⟨⟨⟨parent, by rw [split]; rfl, heeds⟩, mined, due⟩, late, near⟩,
      Nat.not_le.1 recalls, fits⟩

/-- A sound header keeps all conditions. -/
theorem admits_of_run_examine {g : Record} (grown : c.Grown g) (sound : p.Sound)
    (e : (p.examine stored h now).run c.find? = .ok (.sound r)) :
    p.Admits (c.lineage h) h now := (passes_of_run_examine grown sound e).admits

end HeaviestChain.Params
