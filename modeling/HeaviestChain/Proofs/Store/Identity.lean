import HeaviestChain.Header.Mining
import HeaviestChain.Params.Presets
import HeaviestChain.Proofs.Header.Layout
import HeaviestChain.Proofs.Store.Crash
import HeaviestChain.Proofs.Store.Session
import Mathlib.Data.List.Find

/-!
Identities in stores. The eighty bytes of a header say all of it, and every eighty bytes are those
of one header, so that a store tells headers apart unless their bytes collide: what it has under the
identity of a header is of this header, whatever records are put and made the head.
-/

namespace HeaviestChain.Store

/-- Whether a store tells headers apart unless their bytes collide. What is found for a header is
its own, no two headers find one record, the head is of the header that it is set to, and changes
put for a header the first record of its own. -/
structure Identifies (s : Store) : Prop where
  found : ∀ (h : Header) r, s.find? h.hash = some r →
    r.header = h ∨ Hash.Collide r.header.bytes h.bytes
  shared : ∀ (a b : Header) r, s.find? a.hash = some r → s.find? b.hash = some r →
    a = b ∨ Hash.Collide a.bytes b.bytes
  chosen : ∀ h : Header, (s.setHead h.hash).1 = .ok () →
    (s.setHead h.hash).2.head.header = h ∨
      Hash.Collide (s.setHead h.hash).2.head.header.bytes h.bytes
  changed : ∀ changes (h : Header), (∀ r ∈ puts changes, ¬Hash.Collide r.header.bytes h.bytes) →
    (s.changed changes).find? h.hash =
      (s.find? h.hash).or ((puts changes).find? fun r => r.header = h)

variable {s : Store} {r : Record} {h : Header}

theorem header_of_find? (found : s.find? h.hash = some r) :
    r.header = h ∨ Hash.Collide r.header.bytes h.bytes :=
  Header.hash_eq_iff.1 (Catalog.hash_of_find? found)

theorem find?_of_setHead_eq_ok {hash : Hash} (e : (s.setHead hash).1 = .ok ()) :
    s.find? hash = some (s.setHead hash).2.head := by
  cases found : s.catalog.find? hash with
  | none =>
    rw [setHead_of_find?_eq_none found] at e
    cases e
  | some r =>
    obtain rfl : r.hash = hash := Catalog.hash_of_find? found
    obtain ⟨next, -, ⟨set, head, -⟩ | ⟨fault, set, -, -⟩⟩ := setHead_of_mem found
    · rw [set, head]
      exact found
    · rw [set] at e
      cases e

/-- Where no record collides with a header, its identity finds the records of it and no other. -/
theorem find?_hash_eq {records : List Record}
    (apart : ∀ r ∈ records, ¬Hash.Collide r.header.bytes h.bytes) :
    (records.find? fun r => r.hash = h.hash) = records.find? fun r => r.header = h := by
  apply List.find?_congr
  intro r m
  have own : r.hash = h.hash ↔ r.header = h :=
    Header.hash_eq_iff.trans (or_iff_left (apart r m))
  simp only [own]

theorem identifies (s : Store) : s.Identifies where
  found _ _ := header_of_find?
  shared _ _ _ ha hb :=
    Header.hash_eq_iff.1 ((Catalog.hash_of_find? ha).symm.trans (Catalog.hash_of_find? hb))
  chosen _ e := header_of_find? (find?_of_setHead_eq_ok e)
  changed changes h apart := by rw [find?_changed, find?_hash_eq apart]

/-- Any eighty bytes are those of exactly one header, whose fields tile them, so headers that differ
in a field differ in their bytes. Different headers share an identity exactly if their bytes are a
collision of the double digest, and only then does a store take one of them for the other. -/
theorem headers_identified :
    Function.Bijective Header.packed ∧
      (∀ buffer : Vector UInt8 80, ∃! h : Header, h.bytes = buffer.toList) ∧
      (∀ h : Header, h.Laid) ∧
      (∀ a b : Header, a.bytes ≠ b.bytes ↔
        a.version ≠ b.version ∨ a.previous ≠ b.previous ∨ a.merkleRoot ≠ b.merkleRoot ∨
          a.time ≠ b.time ∨ a.bits ≠ b.bits ∨ a.nonce ≠ b.nonce) ∧
      (∀ a b : Header, a ≠ b ∧ a.hash = b.hash ↔ Hash.Collide a.bytes b.bytes) ∧
      ∀ s : Store, s.Identifies := by
  refine ⟨Header.packed_bijective, fun buffer => Header.existsUnique_bytes buffer.length_toList,
    Header.laid, fun _ _ => Header.bytes_ne_iff, ?_, identifies⟩
  intro a b
  constructor
  · rintro ⟨apart, same⟩
    exact (Header.hash_eq_iff.1 same).resolve_left apart
  · intro collide
    exact ⟨fun same => collide.1 (congrArg Header.bytes same), Header.hash_eq_iff.2 (.inr collide)⟩

/-- The next nonce gives the first header of the public network another identity. -/
example : Params.main.genesis.bump.hash ≠ Params.main.genesis.hash := by decide +kernel

end HeaviestChain.Store
