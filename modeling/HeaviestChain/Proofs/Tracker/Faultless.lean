import HeaviestChain.Proofs.Tracker.History

/-!
Submissions without outages. How many calls were made before makes no difference then: the result,
the events and the tracker afterwards are the same but for the count.
-/

namespace HeaviestChain

namespace Connection

variable {c : Connection}

theorem setChainHead_withCalls (up : c.outages = fun _ _ => false) (n : Nat) (h : Hash) :
    (c.withCalls n).setChainHead h =
      ((c.setChainHead h).1, (c.setChainHead h).2.withCalls (n + 1)) := by
  simp only [setChainHead, fails, withCalls, up, Bool.false_eq_true, if_false, tick]

end Connection

theorem Walk.resolve_eq {α : Type} {c : Connection} (w : Walk α) (hidden : c.hidden = [])
    (up : ∀ call, c.outages call .get = false) :
    ∃ n, w.resolve c = (w.run c.store.find?, c.withCalls n) :=
  ⟨_, w.resolve_of_up hidden fun i _ => up (c.calls + i)⟩

/-- A reply at another count of calls. -/
def Reply.withCalls (reply : Reply) (n : Nat) : Reply :=
  { reply with tracker := reply.tracker.withCalls n }

namespace Tracker

variable {g r : Record} {t : Tracker} {h : Header} {now : Int}

theorem examine_of_gets (hidden : t.connection.hidden = [])
    (up : ∀ call, t.connection.outages call .get = false) (h : Header) (now : Int) :
    ∃ n, t.examine h now = (t.verdict h now, t.withCalls n) := by
  obtain ⟨n, e⟩ := (t.params.examine t.store.size h now).resolve_eq hidden up
  refine ⟨n, ?_⟩
  rw [examine, resolve, e]
  rfl

theorem submit_of_known (hidden : t.connection.hidden = [])
    (up : ∀ call, t.connection.outages call .get = false)
    (known : t.store.find? h.hash = some r) (now : Int) :
    ∃ n, t.submit h now = ⟨.ok .duplicate, [], t.withCalls n⟩ := by
  obtain ⟨n, e⟩ := examine_of_gets hidden up h now
  have said : t.verdict h now = .ok .known := by
    rw [verdict, Params.examine, Walk.run, known]
    rfl
  refine ⟨n, ?_⟩
  rw [submit, e, said]

theorem file_of_puts (puts : ∀ call, t.connection.outages call .put = false) (r : Record) :
    t.file r = (.ok (), t.filed r (t.connection.calls + 1)) := by
  have stored : t.connection.fails .put = false := puts _
  simp only [file, Connection.put_eq, stored, Bool.false_eq_true, if_false]
  rfl

/-- A sound header is filed and chosen if no lookup and no filing fails. -/
theorem submit_of_sound (hidden : t.connection.hidden = [])
    (gets : ∀ call, t.connection.outages call .get = false)
    (puts : ∀ call, t.connection.outages call .put = false)
    (said : t.verdict h now = .ok (.sound r)) :
    ∃ n, t.submit h now = (t.filed r n).choose r := by
  obtain ⟨n, e⟩ := examine_of_gets hidden gets h now
  refine ⟨n + 1, ?_⟩
  rw [submit, e, said]
  simp only [file_of_puts (t := t.withCalls n) puts]
  rfl

theorem advance_withCalls {c : Connection} (up : c.outages = fun _ _ => false) (m n : Nat)
    (r : Record) (w : SignalWindow) (size : w.size = t.window.size) (o : Outcome)
    (events : List Event) :
    (t.withCalls m).advance (c.withCalls n) r w size o events =
      (t.advance c r w size o events).withCalls (n + 1) := by
  unfold advance
  rw [Connection.setChainHead_withCalls up]
  generalize c.setChainHead r.hash = moved
  obtain ⟨result, d⟩ := moved
  cases result <;> rfl

theorem follow_withCalls {c : Connection} (up : c.outages = fun _ _ => false) (m n : Nat)
    (r : Record) (choice : Choice) :
    ∃ k, (t.withCalls m).follow (c.withCalls n) r choice = (t.follow c r choice).withCalls k := by
  cases choice with
  | known => exact ⟨n, rfl⟩
  | aside => exact ⟨n, rfl⟩
  | extend =>
    exact ⟨n + 1, advance_withCalls up m n r _ (SignalWindow.size_add t.window _) _ _⟩
  | reorganize fork versions =>
    exact ⟨n + 1, advance_withCalls up m n r _ (SignalWindow.size_refill t.window _) _ _⟩

/-- Without outages the choice that the stored records call for is made and followed. -/
theorem choose_of_faultless (hidden : t.connection.hidden = [])
    (up : t.connection.outages = fun _ _ => false) (r : Record) :
    ∃ n, t.choose r =
      match (Choice.between t.window t.store.size t.store.head r).run t.store.find? with
      | .error f => t.answer (t.connection.withCalls n) (.error (.failed f))
      | .ok choice => t.follow (t.connection.withCalls n) r choice := by
  have head : t.connection.fails .chainHead = false := by rw [Connection.fails, up]
  obtain ⟨n, read⟩ := (Choice.between t.window t.store.size t.store.head r).resolve_eq
    (c := t.connection.withCalls (t.connection.calls + 1)) hidden (by simp [Connection.withCalls, up])
  rw [Connection.store_withCalls, Connection.withCalls_withCalls] at read
  refine ⟨n, ?_⟩
  unfold choose
  rw [Connection.chainHead_eq, head]
  simp only [Bool.false_eq_true, if_false, Connection.store_withCalls, read]
  cases (Choice.between t.window t.store.size t.store.head r).run t.store.find? <;> rfl

theorem choose_withCalls (hidden : t.connection.hidden = [])
    (up : t.connection.outages = fun _ _ => false) (n : Nat) (r : Record) :
    ∃ k, (t.withCalls n).choose r = (t.choose r).withCalls k := by
  obtain ⟨a, ea⟩ := choose_of_faultless (t := t.withCalls n) hidden up r
  obtain ⟨b, eb⟩ := choose_of_faultless hidden up r
  have same : (Choice.between (t.withCalls n).window (t.withCalls n).store.size
        (t.withCalls n).store.head r).run (t.withCalls n).store.find? =
      (Choice.between t.window t.store.size t.store.head r).run t.store.find? := rfl
  rw [ea, eb, same]
  cases (Choice.between t.window t.store.size t.store.head r).run t.store.find? with
  | error f => exact ⟨a, rfl⟩
  | ok choice => exact follow_withCalls (c := t.connection.withCalls b) up n a r choice

/-- Without outages the calls made before make no difference. -/
theorem submit_withCalls (hidden : t.connection.hidden = [])
    (up : t.connection.outages = fun _ _ => false) (n : Nat) (h : Header) (now : Int) :
    ∃ k, (t.withCalls n).submit h now = (t.submit h now).withCalls k := by
  have gets (call : Nat) : t.connection.outages call .get = false := by rw [up]
  have puts (call : Nat) : t.connection.outages call .put = false := by rw [up]
  obtain ⟨a, ea⟩ := examine_of_gets (t := t.withCalls n) hidden gets h now
  obtain ⟨b, eb⟩ := examine_of_gets hidden gets h now
  have same : (t.withCalls n).verdict h now = t.verdict h now := rfl
  cases said : t.verdict h now with
  | error f =>
    rw [submit, submit, ea, eb, same, said]
    exact ⟨a, rfl⟩
  | ok found =>
    cases found with
    | known =>
      rw [submit, submit, ea, eb, same, said]
      exact ⟨a, rfl⟩
    | rejected reason =>
      rw [submit, submit, ea, eb, same, said]
      exact ⟨a, rfl⟩
    | sound r =>
      obtain ⟨m, em⟩ := submit_of_sound (t := t.withCalls n) hidden gets puts said
      obtain ⟨k, ek⟩ := submit_of_sound hidden gets puts said
      rw [em, ek]
      exact choose_withCalls (t := t.filed r k) hidden up m r

end Tracker

end HeaviestChain
