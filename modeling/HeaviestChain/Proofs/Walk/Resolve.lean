import HeaviestChain.Proofs.Store.Connection
import HeaviestChain.Proofs.Walk.Path

/-!
Walks over a connection that hides nothing. They only read: the connection afterwards is the one
before, some calls later. A walk that no outage ends has the result that the store alone gives.
-/

namespace HeaviestChain.Walk

variable {α : Type} {c : Connection}

/-- A walk whose lookups all succeed comes to what the store alone gives, a call later for each. -/
theorem resolve_of_up (w : Walk α) (hidden : c.hidden = [])
    (up : ∀ i < w.lookups c.store.find?, c.outages (c.calls + i) .get = false) :
    w.resolve c =
      (w.run c.store.find?, c.withCalls (c.calls + w.lookups c.store.find?)) := by
  induction w generalizing c with
  | done a => rfl
  | fail f => rfl
  | ask hash next ih =>
    have here : c.fails .get = false := up 0 (Nat.succ_pos _)
    have later : ∀ i < (next (c.store.find? hash)).lookups c.store.find?,
        c.outages (c.calls + 1 + i) .get = false := by
      intro i inside
      rw [Nat.add_right_comm, Nat.add_assoc]
      exact up (i + 1) (Nat.succ_lt_succ inside)
    have rest := ih (c.store.find? hash) (c := c.withCalls (c.calls + 1)) hidden later
    rw [resolve, Connection.get_of_hidden_eq_nil hidden, here]
    show (next (c.store.find? hash)).resolve (c.withCalls (c.calls + 1)) = _
    rw [rest, Connection.withCalls_withCalls]
    exact congrArg (fun n => (_, c.withCalls n)) (Nat.add_right_comm c.calls 1 _)

/-- A walk ends at the first of its lookups that fails. -/
theorem resolve_of_down (w : Walk α) (hidden : c.hidden = []) {i : Nat}
    (inside : i < w.lookups c.store.find?) (down : c.outages (c.calls + i) .get = true) :
    ∃ n, w.resolve c = (.error (.store (.medium .unplugged)), c.withCalls n) := by
  induction w generalizing c i with
  | done a => exact absurd inside (Nat.not_lt_zero i)
  | fail f => exact absurd inside (Nat.not_lt_zero i)
  | ask hash next ih =>
    rw [resolve, Connection.get_of_hidden_eq_nil hidden]
    by_cases fails : c.fails .get
    · exact ⟨c.calls + 1, by simp [fails]⟩
    · obtain ⟨i, rfl⟩ : ∃ j, i = j + 1 := by
        refine Nat.exists_eq_succ_of_ne_zero ?_
        rintro rfl
        exact fails down
      have later : c.outages (c.calls + 1 + i) .get = true := by
        rwa [Nat.add_right_comm, Nat.add_assoc]
      obtain ⟨n, e⟩ := ih (c.store.find? hash) (c := c.withCalls (c.calls + 1)) hidden
        (Nat.lt_of_succ_lt_succ inside) later
      exact ⟨n, by simpa [fails] using e⟩

/-- A walk comes to what the store alone gives, or is cut off by an outage. -/
theorem resolve_cases (w : Walk α) (hidden : c.hidden = []) :
    ∃ n, w.resolve c = (w.run c.store.find?, c.withCalls n) ∨
      ¬c.Dependable ∧ w.resolve c = (.error (.store (.medium .unplugged)), c.withCalls n) := by
  by_cases cut : ∃ i < w.lookups c.store.find?, c.outages (c.calls + i) .get = true
  · obtain ⟨i, inside, down⟩ := cut
    obtain ⟨n, e⟩ := w.resolve_of_down hidden inside down
    exact ⟨n, .inr ⟨Connection.not_dependable_of_outage down, e⟩⟩
  · have up : ∀ i < w.lookups c.store.find?, c.outages (c.calls + i) .get = false := by
      intro i inside
      exact Bool.eq_false_iff.2 fun down => cut ⟨i, inside, down⟩
    exact ⟨_, .inl (w.resolve_of_up hidden up)⟩

theorem resolve_snd (w : Walk α) (hidden : c.hidden = []) :
    ∃ n, (w.resolve c).2 = c.withCalls n := by
  obtain ⟨n, e | ⟨-, e⟩⟩ := w.resolve_cases hidden
  · exact ⟨n, by rw [e]⟩
  · exact ⟨n, by rw [e]⟩

theorem resolve_fst (w : Walk α) (hidden : c.hidden = []) :
    (w.resolve c).1 = w.run c.store.find? ∨
      ¬c.Dependable ∧ (w.resolve c).1 = .error (.store (.medium .unplugged)) := by
  obtain ⟨n, e | ⟨faulty, e⟩⟩ := w.resolve_cases hidden
  · exact .inl (by rw [e])
  · exact .inr ⟨faulty, by rw [e]⟩

/-- If no lookup fails, a walk comes to what the store alone gives. -/
theorem resolve_of_gets (w : Walk α) (hidden : c.hidden = [])
    (up : ∀ call, c.outages call .get = false) : (w.resolve c).1 = w.run c.store.find? := by
  rw [w.resolve_of_up hidden fun i _ => up (c.calls + i)]

/-- A walk that finds its way through the store finds it through the connection, or is cut off. -/
theorem resolve_of_run_eq_ok {w : Walk α} {a : α} (hidden : c.hidden = [])
    (e : w.run c.store.find? = .ok a) :
    ∃ n, w.resolve c = (.ok a, c.withCalls n) ∨
      ¬c.Dependable ∧ w.resolve c = (.error (.store (.medium .unplugged)), c.withCalls n) :=
  e ▸ w.resolve_cases hidden

theorem run_bind_eq_ok {β : Type} {find : Hash → Option Record} {w : Walk α} {k : α → Walk β}
    {b : β} : (w >>= k).run find = .ok b ↔ ∃ a, w.run find = .ok a ∧ (k a).run find = .ok b := by
  rw [run_bind]
  cases w.run find with
  | error e => simp [Except.bind]
  | ok a => simp [Except.bind]

end HeaviestChain.Walk
