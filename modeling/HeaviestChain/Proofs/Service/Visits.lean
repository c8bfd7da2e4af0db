import HeaviestChain.Proofs.Chain.HeaderTree
import HeaviestChain.Proofs.Tracker.Faultless
import HeaviestChain.Service.Basic

/-!
Visits to the service. A request that submits no header changes nothing but the calls made, so that
visits in turn leave what their submissions leave, each begun at its own count of calls. Without
outages these counts make no difference.
-/

namespace HeaviestChain

/-- A request, and the time of the clock when it is served. -/
structure Visit where
  request : Request
  now : Int

namespace Visit

/-- The submission that a visit makes, if it makes one. -/
def submission? (v : Visit) : Option Submission :=
  match v.request.query with
  | .ok (.submit h) => some ⟨h, v.now⟩
  | _ => none

/-- The submissions of visits in turn. -/
def submissions (visits : List Visit) : List Submission := visits.filterMap submission?

theorem submission?_of_query {v : Visit} {h : Header} (asks : v.request.query = .ok (.submit h)) :
    v.submission? = some ⟨h, v.now⟩ := by
  rw [submission?, asks]

theorem submissions_of_none {v : Visit} (reads : v.submission? = none) (rest : List Visit) :
    submissions (v :: rest) = submissions rest := List.filterMap_cons_none reads

theorem submissions_of_some {v : Visit} {s : Submission} (submits : v.submission? = some s)
    (rest : List Visit) : submissions (v :: rest) = s :: submissions rest :=
  List.filterMap_cons_some submits

end Visit

namespace Request

variable {r : Request}

theorem lookup_ne_submit (segments : List String) (h : Header) :
    lookup segments ≠ .ok (.submit h) := by
  intro e
  unfold lookup at e
  split at e
  case h_1 => cases e
  case h_2 => cases e
  case h_3 => split at e <;> cases e
  case h_4 segment => cases read : height segment <;> rw [read] at e <;> cases e
  case h_5 segment => cases read : version segment <;> rw [read] at e <;> cases e
  case h_6 => cases e

/-- Only posted requests submit headers. -/
theorem submission?_of_get (get : r.method = "GET") (now : Int) :
    (Visit.mk r now).submission? = none := by
  unfold Visit.submission?
  split
  · rename_i h asks
    change r.query = _ at asks
    unfold query at asks
    rw [get] at asks
    split at asks
    · exact absurd asks (lookup_ne_submit _ h)
    · rename_i posted _
      exact absurd posted (by decide)
    · cases asks
  · rfl

end Request

namespace Tracker

variable {g : Record} {t : Tracker} {v : Visit}

/-- The tracker after visits in turn. -/
def visited (t : Tracker) : List Visit → Tracker
  | [] => t
  | v :: rest => (t.serve v.now v.request).tracker.visited rest

/-- The submissions of visits in turn, each with the count of calls when it begins. -/
def begun (t : Tracker) : List Visit → List (Submission × Nat)
  | [] => []
  | v :: rest =>
    let later := (t.serve v.now v.request).tracker.begun rest
    match v.submission? with
    | none => later
    | some s => (s, t.connection.calls) :: later

/-- The tracker after submissions in turn, each begun at a count of calls. -/
def afterAt (t : Tracker) : List (Submission × Nat) → Tracker
  | [] => t
  | (s, calls) :: rest => ((t.withCalls calls).submit s.header s.now).tracker.afterAt rest

/-! ### Single visits -/

theorem serve_of_submission? {s : Submission} (submits : v.submission? = some s) :
    t.serve v.now v.request =
      ⟨.ofSubmission s.header (t.submit s.header s.now).result,
        (t.submit s.header s.now).events, (t.submit s.header s.now).tracker⟩ := by
  unfold Visit.submission? at submits
  split at submits
  · rename_i h asks
    obtain rfl := Option.some.inj submits
    rw [serve, asks]
    rfl
  · cases submits

/-- A lookup answers what is stored under the hash that the text names. -/
theorem serveHeader_of_parse {text : String} {h : Hash} (hidden : t.connection.hidden = [])
    (read : Hash.parse text = .ok h) :
    t.serveHeader text =
      (if t.connection.fails .get then
          .ofError .failure (StoreError.medium .unplugged).message
        else
          match t.store.find? h with
          | none => .ofError .notFound ("unknown header " ++ h.render)
          | some r => .ofRecord r,
        t.withCalls (t.connection.calls + 1)) := by
  rw [serveHeader, read]
  simp only [Connection.get_of_hidden_eq_nil hidden]
  by_cases down : t.connection.fails .get
  · simp only [down, if_true]
    rfl
  · simp only [down]
    cases t.store.find? h <;> rfl

theorem serveHeader_snd (hidden : t.connection.hidden = []) (text : String) :
    ∃ n, (t.serveHeader text).2 = t.withCalls n := by
  cases read : Hash.parse text with
  | error e => exact ⟨t.connection.calls, by rw [serveHeader, read]; rfl⟩
  | ok h => exact ⟨_, by rw [serveHeader_of_parse hidden read]⟩

theorem serveHead_snd (t : Tracker) : ∃ n, t.serveHead.2 = t.withCalls n := by
  refine ⟨t.connection.calls + 1, ?_⟩
  rw [serveHead, head, Connection.chainHead_eq]
  cases t.connection.fails .chainHead <;> rfl

/-- A visit without a submission only reads. -/
theorem serve_of_submission?_eq_none (hidden : t.connection.hidden = [])
    (reads : v.submission? = none) :
    ∃ n, (t.serve v.now v.request).tracker = t.withCalls n := by
  unfold Visit.submission? at reads
  rw [serve]
  cases asks : v.request.query with
  | error status => exact ⟨t.connection.calls, rfl⟩
  | ok query =>
    cases query with
    | health => exact ⟨t.connection.calls, rfl⟩
    | head => exact t.serveHead_snd
    | header text => exact serveHeader_snd hidden text
    | submit h =>
      rw [asks] at reads
      cases reads
    | schedule height => exact ⟨t.connection.calls, rfl⟩
    | tally version => exact ⟨t.connection.calls, rfl⟩

/-! ### Visits in turn -/

theorem Rooted.withCalls (rooted : t.Rooted g) (n : Nat) : (t.withCalls n).Rooted g :=
  ⟨rooted.hidden, rooted.grown⟩

/-- What reading and every submission pass on holds after all visits. -/
theorem visited_induct {motive : Tracker → Prop} (rooted : t.Rooted g) (now : motive t)
    (reads : ∀ (u : Tracker) (n : Nat), u.Rooted g → motive u → motive (u.withCalls n))
    (submits : ∀ u : Tracker, u.Rooted g → motive u → ∀ (h : Header) (time : Int),
      motive (u.submit h time).tracker) (visits : List Visit) :
    (t.visited visits).Rooted g ∧ motive (t.visited visits) := by
  induction visits generalizing t with
  | nil => exact ⟨rooted, now⟩
  | cons v rest ih =>
    cases made : v.submission? with
    | none =>
      obtain ⟨n, same⟩ := serve_of_submission?_eq_none rooted.hidden made
      rw [visited, same]
      exact ih (rooted.withCalls n) (reads t n rooted now)
    | some s =>
      rw [visited, serve_of_submission? made]
      exact ih (rooted.submit s.header s.now) (submits t rooted now s.header s.now)

theorem Rooted.visited (rooted : t.Rooted g) (visits : List Visit) :
    (t.visited visits).Rooted g :=
  (visited_induct (motive := fun _ => True) rooted trivial (fun _ _ _ _ => trivial)
    (fun _ _ _ _ _ => trivial) visits).1

/-- Whatever is asked, the records are kept. -/
theorem Rooted.visited_prolongs (rooted : t.Rooted g) (visits : List Visit) :
    (t.visited visits).store.Prolongs t.store := by
  refine (visited_induct (motive := fun u => u.store.Prolongs t.store) rooted (.refl _)
    (fun _ _ _ prolongs => prolongs) ?_ visits).2
  intro u rooted prolongs h now
  exact ((submit_submits rooted h now).2.prolongs rooted).trans prolongs

theorem resumes_visited (rooted : t.Rooted g) (visits : List Visit) :
    (t.visited visits).Resumes t := by
  refine (visited_induct (motive := fun u => u.Resumes t) rooted (.refl t)
    (fun u n _ resumes => (resumes_withCalls u n).trans resumes) ?_ visits).2
  intro u rooted resumes h now
  exact (submit_submits rooted h now).1.trans resumes

theorem begun_of_none (reads : v.submission? = none) (rest : List Visit) :
    t.begun (v :: rest) = (t.serve v.now v.request).tracker.begun rest := by
  rw [begun, reads]

theorem begun_of_some {s : Submission} (submits : v.submission? = some s) (rest : List Visit) :
    t.begun (v :: rest) =
      (s, t.connection.calls) :: (t.serve v.now v.request).tracker.begun rest := by
  rw [begun, submits]

theorem map_fst_begun (t : Tracker) (visits : List Visit) :
    (t.begun visits).map Prod.fst = Visit.submissions visits := by
  induction visits generalizing t with
  | nil => rfl
  | cons v rest ih =>
    cases made : v.submission? with
    | none => rw [begun_of_none made, ih, Visit.submissions_of_none made]
    | some s => rw [begun_of_some made, List.map_cons, ih, Visit.submissions_of_some made]

/-- Each submission begins at its own count, so that calls made before do not matter. -/
theorem afterAt_withCalls (t : Tracker) (m n : Nat) (runs : List (Submission × Nat)) :
    ((t.withCalls m).afterAt runs).withCalls n = (t.afterAt runs).withCalls n := by
  cases runs with
  | nil => rfl
  | cons run rest => rfl

/-- Visits in turn leave what their submissions leave. -/
theorem visited_eq_afterAt (rooted : t.Rooted g) (visits : List Visit) :
    ∃ n, t.visited visits = (t.afterAt (t.begun visits)).withCalls n := by
  induction visits generalizing t with
  | nil => exact ⟨t.connection.calls, rfl⟩
  | cons v rest ih =>
    cases made : v.submission? with
    | none =>
      obtain ⟨m, same⟩ := serve_of_submission?_eq_none rooted.hidden made
      obtain ⟨n, e⟩ := ih (rooted.withCalls m)
      exact ⟨n, by rw [visited, begun_of_none made, same, e, afterAt_withCalls]⟩
    | some s =>
      obtain ⟨n, e⟩ := ih (rooted.submit s.header s.now)
      refine ⟨n, ?_⟩
      rw [visited, begun_of_some made, serve_of_submission? made]
      exact e

theorem after_withCalls (rooted : t.Rooted g) (up : t.connection.outages = fun _ _ => false)
    (n : Nat) (submissions : List Submission) :
    ∃ k, (t.withCalls n).after submissions = (t.after submissions).withCalls k := by
  induction submissions generalizing t n with
  | nil => exact ⟨n, rfl⟩
  | cons s rest ih =>
    obtain ⟨k, same⟩ := submit_withCalls rooted.hidden up n s.header s.now
    have resumes := (submit_submits rooted s.header s.now).1
    rw [after, same]
    exact ih (rooted.submit s.header s.now) (resumes.continues.outages.trans up) k

/-- Without outages visits in turn leave what their submissions alone leave. -/
theorem visited_eq_after (rooted : t.Rooted g)
    (up : t.connection.outages = fun _ _ => false) (visits : List Visit) :
    ∃ n, t.visited visits = (t.after (Visit.submissions visits)).withCalls n := by
  induction visits generalizing t with
  | nil => exact ⟨t.connection.calls, rfl⟩
  | cons v rest ih =>
    cases made : v.submission? with
    | none =>
      obtain ⟨m, same⟩ := serve_of_submission?_eq_none rooted.hidden made
      obtain ⟨n, e⟩ := ih (rooted.withCalls m) up
      obtain ⟨k, moved⟩ := after_withCalls rooted up m (Visit.submissions rest)
      refine ⟨n, ?_⟩
      rw [visited, same, e, moved, Visit.submissions_of_none made]
      rfl
    | some s =>
      have resumes := (submit_submits rooted s.header s.now).1
      obtain ⟨n, e⟩ :=
        ih (rooted.submit s.header s.now) (resumes.continues.outages.trans up)
      refine ⟨n, ?_⟩
      rw [visited, serve_of_submission? made, e, Visit.submissions_of_some made]
      rfl

end Tracker

end HeaviestChain
