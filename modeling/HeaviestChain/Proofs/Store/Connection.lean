import HeaviestChain.Proofs.Store.Writable
import HeaviestChain.Store.Connection

/-!
What single calls on a connection do. A call counts itself, keeps the schedule of outages and, where
it succeeds, does what the store does. On a dependable connection every call succeeds.
-/

namespace HeaviestChain.Connection

variable {b c d : Connection} {r : Record}

/-- The connection at another count of calls. -/
def withCalls (c : Connection) (calls : Nat) : Connection := { c with calls := calls }

@[simp]
theorem store_withCalls (c : Connection) (n : Nat) : (c.withCalls n).store = c.store := rfl

@[simp]
theorem hidden_withCalls (c : Connection) (n : Nat) : (c.withCalls n).hidden = c.hidden := rfl

@[simp]
theorem withCalls_withCalls (c : Connection) (m n : Nat) :
    (c.withCalls m).withCalls n = c.withCalls n := rfl

/-- A connection without outages, over files that can be written. -/
structure Dependable (c : Connection) : Prop where
  faultless : c.outages = fun _ _ => false
  writable : c.store.Writable

theorem Dependable.not_fails (sure : c.Dependable) (op : Operation) : c.fails op = false := by
  rw [fails, sure.faultless]

theorem not_dependable_of_outage {call : Nat} {op : Operation} (down : c.outages call op = true) :
    ¬c.Dependable := by
  intro sure
  rw [sure.faultless] at down
  exact Bool.false_ne_true down

theorem not_dependable_of_fails {op : Operation} (fails : c.fails op = true) : ¬c.Dependable :=
  not_dependable_of_outage fails

@[simp]
theorem dependable_withCalls (n : Nat) : (c.withCalls n).Dependable ↔ c.Dependable :=
  ⟨fun h => ⟨h.faultless, h.writable⟩, fun h => ⟨h.faultless, h.writable⟩⟩

/-- Whether a connection can be another one after calls on it. -/
structure Continues (d c : Connection) : Prop where
  outages : d.outages = c.outages
  hidden : d.hidden = c.hidden

theorem Continues.refl (c : Connection) : c.Continues c := ⟨rfl, rfl⟩

theorem Continues.trans (hd : d.Continues c) (hc : c.Continues b) : d.Continues b :=
  ⟨hd.outages.trans hc.outages, hd.hidden.trans hc.hidden⟩

theorem continues_withCalls (c : Connection) (n : Nat) : (c.withCalls n).Continues c := ⟨rfl, rfl⟩

/-- Where nothing is hidden a lookup fails or finds what the store finds. -/
theorem get_of_hidden_eq_nil (hidden : c.hidden = []) (h : Hash) :
    c.get h = (if c.fails .get then .error (.medium .unplugged) else .ok (c.store.find? h),
      c.withCalls (c.calls + 1)) := by
  unfold get
  split
  · rfl
  · simp [hidden, tick, withCalls]

theorem put_eq (c : Connection) (r : Record) :
    c.put r =
      if c.fails .put then (.error (.medium .unplugged), c.withCalls (c.calls + 1))
      else (.ok (), { c.withCalls (c.calls + 1) with store := c.store.put r }) := rfl

theorem chainHead_eq (c : Connection) :
    c.chainHead =
      (if c.fails .chainHead then .error (.medium .unplugged) else .ok c.store.head,
        c.withCalls (c.calls + 1)) := by
  unfold chainHead
  split <;> rfl

/-- Moving the head to a filed record changes no record. The call fails without effect, which a
dependable connection does not. -/
theorem setChainHead_of_mem (m : r ∈ c.store.catalog) :
    ∃ d, d.Continues c ∧ d.store.catalog = c.store.catalog ∧
      (c.setChainHead r.hash = (.ok (), d) ∧ d.store.head = r ∧
          (c.Dependable → d.Dependable) ∨
        ∃ e, c.setChainHead r.hash = (.error e, d) ∧ d.store.head = c.store.head ∧
          ¬c.Dependable) := by
  unfold setChainHead
  by_cases fails : c.fails .setChainHead
  · exact ⟨c.tick, ⟨rfl, rfl⟩, rfl, .inr ⟨_, by rw [if_pos fails], rfl,
      not_dependable_of_fails fails⟩⟩
  · obtain ⟨s, catalog, ⟨e, head, w⟩ | ⟨e, failed, head, unwritable⟩⟩ :=
      c.store.setHead_of_mem m
    · refine ⟨{ c.tick with store := s }, ⟨rfl, rfl⟩, catalog, .inl ⟨?_, head, ?_⟩⟩
      · rw [if_neg fails, e]
      · intro sure
        exact ⟨sure.faultless, w sure.writable⟩
    · refine ⟨{ c.tick with store := s }, ⟨rfl, rfl⟩, catalog, .inr ⟨.medium e, ?_, head, ?_⟩⟩
      · rw [if_neg fails, failed]
      · intro sure
        exact unwritable sure.writable

end HeaviestChain.Connection
