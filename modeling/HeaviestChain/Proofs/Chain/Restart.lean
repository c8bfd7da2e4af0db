import HeaviestChain.Proofs.Chain.ArrivalOrder
import HeaviestChain.Proofs.Chain.Retry
import HeaviestChain.Proofs.Store.Crash

/-!
Restarts. Wherever the process of a tracker over files stops, and whatever calls failed before, a
tracker starts again over what is left. Its head has the most work of all stored records but for
those whose submission failed, or was stopped, between storing them and making them the head: nobody
compares them with the head again.
-/

namespace HeaviestChain

open Catalog

/-- Whether an outcome makes the submitted record the head. -/
def Outcome.moves : Outcome → Bool
  | .extendedHead _ | .reorganized _ _ _ => true
  | .duplicate | .sideBranch _ => false

/-- Whether a reply says that the submitted record is the head. -/
def Reply.moves (reply : Reply) : Bool :=
  match reply.result with
  | .ok o => o.moves
  | .error _ => false

namespace Tracker

variable {g r x : Record} {p : Params} {outages : Nat → Operation → Bool} {t : Tracker}
  {s : Submission} {course : List Store.Change}

/-! ### The changes of a submission -/

/-- The changes that a submission makes to the store, in turn: the record of a sound header is put,
and made the head if it is chosen. -/
def changesOf (t : Tracker) (s : Submission) : List Store.Change :=
  match t.examine s.header s.now with
  | (.ok (.sound r), u) =>
    match u.file r with
    | (.ok (), u) => .put r :: if (u.choose r).moves then [.setHead r.hash] else []
    | (.error _, _) => []
  | _ => []

/-- The changes of submissions in turn. -/
def changesIn (t : Tracker) : List Submission → List Store.Change
  | [] => []
  | s :: rest => t.changesOf s ++ (t.submit s.header s.now).tracker.changesIn rest

theorem changesOf_cases (hidden : t.connection.hidden = []) (s : Submission) :
    t.changesOf s = [] ∧ (t.submit s.header s.now).tracker.store = t.store ∨
      ∃ r n, t.verdict s.header s.now = .ok (.sound r) ∧
        t.submit s.header s.now = (t.filed r n).choose r ∧
        t.changesOf s =
          .put r :: if ((t.filed r n).choose r).moves then [.setHead r.hash] else [] := by
  obtain ⟨n, after, found⟩ := examine_eq hidden s.header s.now
  unfold changesOf submit
  generalize t.examine s.header s.now = examined at after found
  obtain ⟨result, u⟩ := examined
  obtain rfl : u = t.withCalls n := after
  cases result with
  | error f => exact .inl ⟨rfl, rfl⟩
  | ok said =>
    cases said with
    | known => exact .inl ⟨rfl, rfl⟩
    | rejected reason => exact .inl ⟨rfl, rfl⟩
    | sound r =>
      -- only here can the store change: an outage of `put` leaves it as it was
      have found : t.verdict s.header s.now = .ok (.sound r) := by
        rcases found with found | ⟨-, found⟩
        · exact found.symm
        · cases found
      by_cases fails : (t.connection.withCalls n).fails .put
      · left
        simp only [file, withCalls, reached, Connection.put_eq, fails, if_true]
        exact ⟨trivial, rfl⟩
      · refine .inr ⟨r, n + 1, found, ?_⟩
        simp only [file, withCalls, reached, Connection.put_eq, fails]
        exact ⟨rfl, rfl⟩

theorem store_advance {c : Connection} {w : SignalWindow} (size : w.size = t.window.size)
    {o : Outcome} (moves : o.moves = true) (writable : c.store.Writable) (m : r ∈ c.store.catalog)
    (events : List Event) :
    (t.advance c r w size o events).tracker.store =
      if (t.advance c r w size o events).moves then (c.store.setHead r.hash).2 else c.store := by
  unfold advance Connection.setChainHead
  by_cases fails : c.fails .setChainHead
  · rw [if_pos fails]
    rfl
  · obtain ⟨next, -, ⟨e, -, -⟩ | ⟨f, -, -, faulty⟩⟩ := Store.setHead_of_mem m
    · simp only [fails, e]
      show _ = if o.moves then _ else _
      rw [moves]
      rfl
    · exact absurd writable faulty

theorem store_follow {c : Connection} (writable : c.store.Writable) (m : r ∈ c.store.catalog)
    (choice : Choice) :
    (t.follow c r choice).tracker.store =
      if (t.follow c r choice).moves then (c.store.setHead r.hash).2 else c.store := by
  cases choice with
  | known => rfl
  | aside => rfl
  | extend =>
    exact store_advance (o := .extendedHead _) (SignalWindow.size_add t.window _) rfl writable m _
  | reorganize fork versions =>
    exact store_advance (o := .reorganized _ _ _) (SignalWindow.size_refill t.window _) rfl
      writable m _

theorem choose_cases (hidden : t.connection.hidden = []) (r : Record) :
    (∃ n f, t.choose r = t.answer (t.connection.withCalls n) (.error (.failed f))) ∨
      ∃ n choice, t.choose r = t.follow (t.connection.withCalls n) r choice := by
  unfold choose
  rw [Connection.chainHead_eq]
  by_cases fails : t.connection.fails .chainHead
  · simp only [fails, if_true]
    exact .inl ⟨_, _, rfl⟩
  · simp only [fails, if_false, Bool.false_eq_true]
    obtain ⟨n, read⟩ := (Choice.between t.window t.store.size t.store.head r).resolve_snd
      (c := t.connection.withCalls (t.connection.calls + 1)) hidden
    rw [Connection.store_withCalls]
    generalize (Choice.between t.window t.store.size t.store.head r).resolve _ = chosen at read
    obtain ⟨result, c⟩ := chosen
    obtain rfl : c = t.connection.withCalls n := read
    cases result with
    | error f => exact .inl ⟨n, f, rfl⟩
    | ok choice => exact .inr ⟨n, choice, rfl⟩

/-- A choice that says so makes its record the head, and no other one changes the store. -/
theorem store_choose (hidden : t.connection.hidden = []) (writable : t.store.Writable)
    (m : r ∈ t.store.catalog) :
    (t.choose r).tracker.store =
      if (t.choose r).moves then (t.store.setHead r.hash).2 else t.store := by
  rcases choose_cases hidden r with ⟨n, f, e⟩ | ⟨n, choice, e⟩
  · rw [e]
    rfl
  · rw [e]
    exact store_follow (c := t.connection.withCalls n) writable m choice

/-- A submission does its changes to the store and no others. -/
theorem store_submit (rooted : t.Rooted g) (writable : t.store.Writable) (s : Submission) :
    (t.submit s.header s.now).tracker.store = t.store.changed (t.changesOf s) := by
  rcases changesOf_cases rooted.hidden s with ⟨none, same⟩ | ⟨r, n, said, made, changes⟩
  · rw [none, same]
    rfl
  · obtain ⟨-, new, -⟩ := Params.sound_of_run_examine (c := t.store.catalog) said
    have m : r ∈ (t.filed r n).store.catalog := mem_insert_of_none new
    rw [made, changes, store_choose (t := t.filed r n) rooted.hidden (writable.put r) m]
    split <;> rfl

theorem store_after (rooted : t.Rooted g) (writable : t.store.Writable)
    (submissions : List Submission) :
    (t.after submissions).store = t.store.changed (t.changesIn submissions) := by
  induction submissions generalizing t with
  | nil => rfl
  | cons s rest ih =>
    have stored := store_submit rooted writable s
    have writable' := writable.changed (t.changesOf s)
    rw [← stored] at writable'
    rw [changesIn, Store.changed_append, ← stored]
    exact ih (rooted.submit s.header s.now) writable'

/-! ### What outweighs the head -/

theorem Chooses.heavier {reply : Reply} (chooses : t.Chooses r reply)
    (moves : reply.moves = true) : r.Outweighs t.store.head := by
  unfold Reply.moves at moves
  cases chooses with
  | failed result _ _ =>
    rw [result] at moves
    cases moves
  | stayed result _ _ =>
    rw [result] at moves
    by_cases on : r ∈ t.store.catalog.branch t.store.head
    · rw [if_pos on] at moves
      cases moves
    · rw [if_neg on] at moves
      cases moves
  | moved _ _ heavier _ _ _ _ _ => exact heavier

/-- The first changes of a submission: none, a record put, or it put and made the head, where it
outweighs the old one. -/
theorem course_cases (rooted : t.Rooted g) (part : course <+: t.changesOf s) :
    course = [] ∨ ∃ r parent, t.store.catalog.find? r.hash = none ∧
      t.store.catalog.Links parent r ∧
      (course = [.put r] ∨ course = [.put r, .setHead r.hash] ∧ r.Outweighs t.store.head) := by
  rcases changesOf_cases rooted.hidden s with ⟨none, -⟩ | ⟨r, n, said, -, changes⟩
  · rw [none, List.prefix_nil] at part
    exact .inl part
  · obtain ⟨-, new, parent, link⟩ := Params.sound_of_run_examine (c := t.store.catalog) said
    rw [changes, List.prefix_cons_iff] at part
    rcases part with none | ⟨rest, rfl, part⟩
    · exact .inl none
    · refine .inr ⟨r, parent, new, link, ?_⟩
      by_cases moves : ((t.filed r n).choose r).moves = true
      · have heavier : r.Outweighs t.store.head := (chooses_filed rooted said n).heavier moves
        rw [if_pos moves, List.prefix_cons_iff] at part
        rcases part with rfl | ⟨none, rfl, part⟩
        · exact .inl rfl
        · rw [List.prefix_nil] at part
          subst part
          exact .inr ⟨rfl, heavier⟩
      · rw [if_neg moves, List.prefix_nil] at part
        subst part
        exact .inl rfl

/-- Where the first changes of a submission are done, what outweighs the head did so before, or is
the record that was put. -/
theorem outweighs_of_changed (rooted : t.Rooted g) (writable : t.store.Writable)
    (part : course <+: t.changesOf s) (m : x ∈ (t.store.changed course).catalog)
    (heavier : x.Outweighs (t.store.changed course).head) :
    x ∈ t.store.catalog ∧ x.Outweighs t.store.head ∨ .put x ∈ course := by
  rcases course_cases rooted part with rfl | ⟨r, parent, new, -, rfl | ⟨rfl, moved⟩⟩
  · exact .inl ⟨m, heavier⟩
  · rcases (mem_insert new).1 m with rfl | m
    · exact .inr List.mem_cons_self
    · exact .inl ⟨m, heavier⟩
  · -- the new head outweighs the old one, so what outweighs it did so before
    have known : (t.store.put r).find? r.hash = some r := mem_insert_of_none new
    have head : (t.store.changed [.put r, .setHead r.hash]).head = r :=
      Store.head_setHead (writable.put r) known
    have catalog : (t.store.changed [.put r, .setHead r.hash]).catalog = t.store.catalog.insert r :=
      (t.store.put r).catalog_setHead r.hash
    rw [head] at heavier
    rw [catalog] at m
    rcases (mem_insert new).1 m with rfl | m
    · exact .inr List.mem_cons_self
    · exact .inl ⟨m, Nat.lt_trans moved heavier⟩

theorem grown_changed (rooted : t.Rooted g) (part : course <+: t.changesOf s) :
    (t.store.changed course).catalog.Grown g := by
  rcases course_cases rooted part with rfl | ⟨r, parent, new, link, rfl | ⟨rfl, -⟩⟩
  · exact rooted.grown
  · exact rooted.grown.insert link
  · have catalog : (t.store.changed [.put r, .setHead r.hash]).catalog = t.store.catalog.insert r :=
      (t.store.put r).catalog_setHead r.hash
    rw [catalog]
    exact rooted.grown.insert link

/-- Whether a submission puts a record and fails behind that. -/
structure Abandons (t : Tracker) (s : Submission) (x : Record) : Prop where
  puts : .put x ∈ t.changesOf s
  failed : ∃ f, (t.submit s.header s.now).result = .error (.failed f)

theorem abandons_of_outweighs (rooted : t.Rooted g) (writable : t.store.Writable)
    (m : x ∈ (t.submit s.header s.now).tracker.store.catalog)
    (heavier : x.Outweighs (t.submit s.header s.now).tracker.store.head) :
    x ∈ t.store.catalog ∧ x.Outweighs t.store.head ∨ t.Abandons s x := by
  have stored := store_submit rooted writable s
  have either := outweighs_of_changed rooted writable (List.prefix_refl (t.changesOf s))
    (x := x) (by rw [← stored]; exact m) (by rw [← stored]; exact heavier)
  refine either.imp_right fun puts => ⟨puts, ?_⟩
  rcases changesOf_cases rooted.hidden s with ⟨none, -⟩ | ⟨r, n, said, made, changes⟩
  · rw [none] at puts
    cases puts
  · obtain rfl : x = r := by
      rw [changes] at puts
      split at puts <;> simpa using puts
    -- the record that was put does not outweigh the head unless its choice failed
    have chooses := chooses_filed rooted said n
    rw [← made] at chooses
    cases chooses with
    | failed result _ _ => exact ⟨_, result⟩
    | stayed _ lighter keeps =>
      rw [keeps.head] at heavier
      exact absurd heavier lighter
    | moved _ _ _ _ _ head _ _ =>
      rw [head] at heavier
      exact absurd heavier (Nat.lt_irrefl _)

/-- Whether one of submissions in turn abandons a record. -/
def Abandoned (t : Tracker) (submissions : List Submission) (x : Record) : Prop :=
  ∃ before s behind, submissions = before ++ s :: behind ∧ (t.after before).Abandons s x

theorem writable_after (rooted : t.Rooted g) (writable : t.store.Writable)
    (submissions : List Submission) : (t.after submissions).store.Writable := by
  rw [store_after rooted writable]
  exact writable.changed _

/-- What outweighs the head after submissions did so at their beginning, or was abandoned. -/
theorem abandoned_of_outweighs (rooted : t.Rooted g) (writable : t.store.Writable)
    (submissions : List Submission) (m : x ∈ (t.after submissions).store.catalog)
    (heavier : x.Outweighs (t.after submissions).store.head) :
    x ∈ t.store.catalog ∧ x.Outweighs t.store.head ∨ t.Abandoned submissions x := by
  -- from the end: the last submission abandons the record, or it outweighed the head before
  induction submissions using List.reverseRecOn with
  | nil => exact .inl ⟨m, heavier⟩
  | append_singleton earlier s ih =>
    rw [after_append] at m heavier
    rcases abandons_of_outweighs (rooted.after earlier) (writable_after rooted writable earlier) m
        heavier with ⟨m, heavier⟩ | abandons
    · refine (ih m heavier).imp_right ?_
      rintro ⟨before, other, behind, rfl, abandons⟩
      exact ⟨before, other, behind ++ [s], by simp, abandons⟩
    · exact .inr ⟨earlier, s, [], rfl, abandons⟩

/-! ### Starting again -/

/-- Whether a record was put by a submission that failed, or by the last one, in which the process
may have stopped. -/
def Strands (t : Tracker) (earlier : List Submission) (last : Submission) (x : Record) : Prop :=
  t.Abandoned earlier x ∨ .put x ∈ (t.after earlier).changesOf last

theorem strands_of_outweighs (rooted : t.Rooted g) (writable : t.store.Writable)
    (first : ∀ x ∈ t.store.catalog, ¬x.Outweighs t.store.head) {earlier : List Submission}
    (part : course <+: (t.after earlier).changesOf s)
    (m : x ∈ ((t.after earlier).store.changed course).catalog)
    (heavier : x.Outweighs ((t.after earlier).store.changed course).head) :
    t.Strands earlier s x := by
  have writable' := writable_after rooted writable earlier
  rcases outweighs_of_changed (rooted.after earlier) writable' part m heavier with
    ⟨m, heavier⟩ | puts
  · rcases abandoned_of_outweighs rooted writable earlier m heavier with ⟨m, heavier⟩ | abandoned
    · exact absurd heavier (first x m)
    · exact .inl abandoned
  · exact .inr (part.mem puts)

/-- Wherever the process of a tracker over files stops, and whatever calls failed, the directory
opens again and a tracker starts over it. Its head is the heaviest record exactly if no stored record
outweighs it whose submission failed, or was stopped, behind the putting of it. -/
theorem restart_settled {s : Store} {d₀ d : Directory} {path : String} {earlier : List Submission}
    {last : Submission} {finished unfinished : List Store.Change}
    (opened : Store.onDisk p.genesis (.empty path) = (.ok s, d₀))
    (started : start p ⟨s, outages, 0, []⟩ = .ok t)
    (course : finished ++ unfinished <+: (t.after earlier).changesOf last)
    (leaves : s.Leaves path (t.changesIn earlier ++ finished) unfinished d) :
    ∃ s' d' u, Store.onDisk p.genesis d = (.ok s', d') ∧ start p (.reliable s') = .ok u ∧
      u.store = s' ∧
      (s'.Heaviest s'.head ↔ ∀ x, s'.find? x.hash = some x → t.Strands earlier last x →
        ¬x.Outweighs s'.head) := by
  have begins : Begins p outages t := ⟨s, .onDisk opened, started⟩
  obtain ⟨-, -, -, -, writable⟩ := begins.records
  have rooted := begins.rooted
  have same : t.store = s := store_of_start rfl started
  have sound : p.Sound := begins.records.1 ▸ t.sound
  have first (x : Record) (m : x ∈ t.store.catalog) : ¬x.Outweighs t.store.head := by
    rw [begins.eq_head m]
    exact Nat.lt_irrefl _
  obtain ⟨s', d', done, opened', either, catalog, head, -⟩ := leaves.opens opened
  -- what is left is the store behind the first changes of the last submission
  obtain ⟨part, within, left⟩ : ∃ part, part <+: (t.after earlier).changesOf last ∧
      s.changed done = (t.after earlier).store.changed part := by
    rw [store_after rooted writable, same]
    rcases either with rfl | rfl
    · exact ⟨finished, (List.prefix_append _ _).trans course, s.changed_append _ _⟩
    · refine ⟨finished ++ unfinished, course, ?_⟩
      rw [List.append_assoc, Store.changed_append]
  rw [left] at catalog head
  have grown : s'.catalog.Grown t.store.head := by
    rw [catalog]
    exact grown_changed (rooted.after earlier) within
  obtain ⟨u, started'⟩ := exists_start_reliable sound (started_of_start rfl started).fits grown
  refine ⟨s', d', u, opened', started', store_of_start rfl started', ?_⟩
  constructor
  · intro heaviest x found _ heavier
    exact Nat.not_le.2 heavier (heaviest.work_le x found)
  · intro light
    refine ⟨s'.find?_head, ?_⟩
    intro x found
    refine Nat.not_lt.1 fun heavier => light x found ?_ heavier
    have m : x ∈ s'.catalog := mem_of_find? found
    rw [catalog] at m
    have heavier : x.Outweighs s'.head := heavier
    rw [head] at heavier
    exact strands_of_outweighs rooted writable first within m heavier

theorem changesOf_of_sound (rooted : t.Rooted g)
    (gets : ∀ call, t.connection.outages call .get = false)
    (puts : ∀ call, t.connection.outages call .put = false)
    (said : t.verdict s.header s.now = .ok (.sound r)) :
    ∃ n, t.changesOf s =
      .put r :: if ((t.filed r n).choose r).moves then [.setHead r.hash] else [] := by
  rcases changesOf_cases rooted.hidden s with ⟨-, same⟩ | ⟨r', n, said', -, changes⟩
  · obtain ⟨-, new, -⟩ := Params.sound_of_run_examine (c := t.store.catalog) said
    obtain ⟨n, made⟩ := submit_of_sound rooted.hidden gets puts said
    have catalog := (chooses_filed rooted said n).catalog
    rw [← made, same] at catalog
    exact absurd catalog.symm (insert_ne_of_none new)
  · cases said.symm.trans said'
    exact ⟨n, changes⟩

/-- So it is on the unit test network where the process stops behind the line of a record. -/
theorem restart_settled_unitTestNext :
    ∃ s d₀ t r d, Store.onDisk (Params.unitTestSpan 11).genesis (.empty "chain") = (.ok s, d₀) ∧
      start (.unitTestSpan 11) ⟨s, fun _ _ => false, 0, []⟩ = .ok t ∧
      [] ++ [.put r] <+: (t.after []).changesOf ⟨Params.unitTestNext, 1231006565⟩ ∧
      s.Leaves "chain" (t.changesIn [] ++ []) [.put r] d ∧
      ∃ s' d' u, Store.onDisk (Params.unitTestSpan 11).genesis d = (.ok s', d') ∧
        start (.unitTestSpan 11) (.reliable s') = .ok u ∧ u.store = s' ∧
        (s'.Heaviest s'.head ↔ ∀ x, s'.find? x.hash = some x →
          t.Strands [] ⟨Params.unitTestNext, 1231006565⟩ x → ¬x.Outweighs s'.head) := by
  have sound : (Params.unitTestSpan 11).Sound := by decide
  obtain ⟨g, first⟩ := sound.exists_genesis
  obtain ⟨s, opened, disk⟩ := Store.onDisk_empty_writes first "chain"
  obtain ⟨t, started⟩ : ∃ t, start (.unitTestSpan 11) ⟨s, fun _ _ => false, 0, []⟩ = .ok t :=
    exists_start_eq_ok sound (by decide) rfl (.onDisk opened)
  have begins : Begins (.unitTestSpan 11) (fun _ _ => false) t := ⟨s, .onDisk opened, started⟩
  have same : t.store = s := store_of_start rfl started
  obtain ⟨r, said, -⟩ := verdict_unitTestNext begins
  have up (call : Nat) (op : Operation) : t.connection.outages call op = false := by
    rw [begins.dependable.faultless]
  obtain ⟨n, changes⟩ := changesOf_of_sound (s := ⟨Params.unitTestNext, 1231006565⟩) begins.rooted
    (up · .get) (up · .put) said
  obtain ⟨-, new, -⟩ := Params.sound_of_run_examine (c := t.store.catalog) said
  have course : [] ++ [.put r] <+: (t.after []).changesOf ⟨Params.unitTestNext, 1231006565⟩ := by
    show [.put r] <+: t.changesOf _
    rw [changes]
    exact List.prefix_append [_] _
  have leaves : s.Leaves "chain" (t.changesIn [] ++ []) [.put r]
      (((Directory.empty "chain").performAll (Store.opening g)).performAll
        (s.writes (.put r))) := by
    have line : s.writes (.put r) = [.append Log.name (Log.line r)] := by
      have absent : s.find? r.hash = none := by
        rw [← same]
        exact new
      rw [Store.writes, absent]
      rfl
    refine .changing disk ?_
    show Directory.Stops _ (s.writes (.put r)) _
    rw [line]
    exact .behind (.before _ _)
  exact ⟨s, _, t, r, _, opened, started, course, leaves,
    restart_settled opened started course leaves⟩

theorem moves_follow_of_fails {c : Connection} (stuck : c.fails .setChainHead) (choice : Choice) :
    (t.follow c r choice).moves = false := by
  cases choice with
  | known => rfl
  | aside => rfl
  | extend =>
    unfold follow advance Connection.setChainHead
    rw [if_pos stuck]
    rfl
  | reorganize fork versions =>
    unfold follow advance Connection.setChainHead
    rw [if_pos stuck]
    rfl

theorem moves_choose_of_stuck (hidden : t.connection.hidden = [])
    (stuck : ∀ call, t.connection.outages call .setChainHead = true) (r : Record) :
    (t.choose r).moves = false := by
  rcases choose_cases hidden r with ⟨n, f, e⟩ | ⟨n, choice, e⟩
  · rw [e]
    rfl
  · rw [e]
    exact moves_follow_of_fails (c := t.connection.withCalls n) (stuck n) choice

/-- Where the head cannot be written, the header mined on the first one is stored, and after opening
the directory again the first record is the head still, which it outweighs. -/
theorem restart_misses_head :
    ∃ s d₀ t k s' d', Store.onDisk (Params.unitTestSpan 11).genesis (.empty "chain") = (.ok s, d₀) ∧
      start (.unitTestSpan 11) ⟨s, fun _ op => op = .setChainHead, 0, []⟩ = .ok t ∧
      (t.submit Params.unitTestNext 1231006565).tracker.store.disk = some ⟨k, true⟩ ∧
      Store.onDisk (Params.unitTestSpan 11).genesis k = (.ok s', d') ∧
      s'.head = s.head ∧ ¬s'.Heaviest s'.head := by
  have sound : (Params.unitTestSpan 11).Sound := by decide
  obtain ⟨g, first⟩ := sound.exists_genesis
  obtain ⟨s, opened, -⟩ := Store.onDisk_empty_writes first "chain"
  obtain ⟨first', -, writable, added, kept⟩ := Store.keptIn_of_empty opened
  obtain ⟨t, started⟩ : ∃ t, start (.unitTestSpan 11)
      ⟨s, fun _ op => op = .setChainHead, 0, []⟩ = .ok t :=
    exists_start_eq_ok sound (by decide) rfl (.onDisk opened)
  have begins : Begins (.unitTestSpan 11) (fun _ op => op = .setChainHead) t :=
    ⟨s, .onDisk opened, started⟩
  have same : t.store = s := store_of_start rfl started
  have up (call : Nat) (op : Operation) :
      t.connection.outages call op = decide (op = .setChainHead) := by
    rw [begins.records.2.1]
  obtain ⟨r, said, heavier⟩ := verdict_unitTestNext begins
  obtain ⟨-, new, -⟩ := Params.sound_of_run_examine (c := t.store.catalog) said
  -- the record is put, and nothing else happens
  have changes : t.changesOf ⟨Params.unitTestNext, 1231006565⟩ = [.put r] := by
    obtain ⟨n, changes⟩ := changesOf_of_sound (s := ⟨Params.unitTestNext, 1231006565⟩)
      begins.rooted (up · .get) (up · .put) said
    have stuck := moves_choose_of_stuck (t := t.filed r n) begins.rooted.hidden
      (up · .setChainHead) r
    rw [changes, stuck]
    rfl
  have stored := store_submit begins.rooted (same ▸ writable) ⟨Params.unitTestNext, 1231006565⟩
  rw [changes, same] at stored
  obtain ⟨k, added', -, kept'⟩ := kept.changed [.put r]
  obtain ⟨s', d', opened', catalog, head⟩ := kept'.onDisk first' kept'.read
  refine ⟨s, _, t, k, s', d', opened, started, ?_, opened', head, ?_⟩
  · rw [stored]
    exact kept'.disk
  · have m : s'.find? r.hash = some r := by
      rw [Store.find?, catalog, ← same]
      exact mem_insert_of_none new
    intro heaviest
    have level : r.work.toNat ≤ s'.head.work.toNat := heaviest.work_le r m
    have old : s'.head = t.store.head := by
      rw [head, same]
      rfl
    rw [old] at level
    exact Nat.not_le.2 heavier level

end Tracker

end HeaviestChain
