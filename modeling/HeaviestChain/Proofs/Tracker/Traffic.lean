import HeaviestChain.Proofs.Tracker.History

/-!
Submissions under way at the same time. Each goes through its three steps in order, but the steps of
different ones may come in any order: between two steps of a submission others may store records and
move the head. A submission that nothing comes between is what `Tracker.submit` does.
-/

namespace HeaviestChain

/-- How far a submission has got: it has not begun, its header was found sound, its record is
stored, or it has ended. -/
inductive Stage where
  | waiting
  | examined (r : Record)
  | filed (r : Record)
  | ended (result : Except SubmitError Outcome)

/-- A submission at a stage. -/
structure Flight where
  submission : Submission
  stage : Stage

/-- What a step of a submission comes to: the stage that it leads to, the events, and the tracker
afterwards. -/
structure Progress where
  stage : Stage
  events : List Event
  tracker : Tracker

/-- Submissions under way on one tracker, and the events so far. -/
structure Traffic where
  tracker : Tracker
  flights : List Flight
  heard : List Event

namespace Tracker

/-- The next step of a submission. -/
def proceed (t : Tracker) (s : Submission) : Stage → Progress
  | .waiting =>
    match t.examine s.header s.now with
    | (.error f, t) => ⟨.ended (.error (.failed f)), [], t⟩
    | (.ok .known, t) => ⟨.ended (.ok .duplicate), [], t⟩
    | (.ok (.rejected reason), t) => ⟨.ended (.error (.rejected reason)), [], t⟩
    | (.ok (.sound r), t) => ⟨.examined r, [], t⟩
  | .examined r =>
    match t.file r with
    | (.error f, t) => ⟨.ended (.error (.failed f)), [], t⟩
    | (.ok (), t) => ⟨.filed r, [], t⟩
  | .filed r => ⟨.ended (t.choose r).result, (t.choose r).events, (t.choose r).tracker⟩
  | .ended result => ⟨.ended result, [], t⟩

end Tracker

/-- What another step makes of the progress of a submission. -/
def Progress.proceed (so : Progress) (s : Submission) : Progress :=
  let next := so.tracker.proceed s so.stage
  ⟨next.stage, so.events ++ next.events, next.tracker⟩

theorem Tracker.proceed_thrice (t : Tracker) (s : Submission) :
    ((t.proceed s .waiting).proceed s).proceed s =
      ⟨.ended (t.submit s.header s.now).result, (t.submit s.header s.now).events,
        (t.submit s.header s.now).tracker⟩ := by
  unfold Tracker.submit
  rcases examined : t.examine s.header s.now with ⟨f | said, v⟩
  · simp [Progress.proceed, Tracker.proceed, examined]
  · cases said with
    | known => simp [Progress.proceed, Tracker.proceed, examined]
    | rejected reason => simp [Progress.proceed, Tracker.proceed, examined]
    | sound r =>
      rcases filed : v.file r with ⟨f | done, w⟩
      · simp [Progress.proceed, Tracker.proceed, examined, filed]
      · simp [Progress.proceed, Tracker.proceed, examined, filed]

namespace Traffic

variable {u : Traffic} {s : Submission} {stage : Stage} {i : Nat}

/-- Submissions of which none has begun. -/
def begin (t : Tracker) (submissions : List Submission) : Traffic :=
  ⟨t, submissions.map fun s => ⟨s, .waiting⟩, []⟩

/-- The traffic after the submission at a place has made progress. -/
def set (u : Traffic) (i : Nat) (s : Submission) (next : Progress) : Traffic :=
  ⟨next.tracker, u.flights.set i ⟨s, next.stage⟩, u.heard ++ next.events⟩

/-- The traffic after the next step of the submission at a place, if there is one. -/
def advance (u : Traffic) (i : Nat) : Traffic :=
  match u.flights[i]? with
  | none => u
  | some flight => u.set i flight.submission (u.tracker.proceed flight.submission flight.stage)

/-- The traffic after steps in turn, each of the submission at the place that the schedule names. -/
def run (u : Traffic) (schedule : List Nat) : Traffic := schedule.foldl advance u

theorem advance_of_getElem? (found : u.flights[i]? = some ⟨s, stage⟩) :
    u.advance i = u.set i s (u.tracker.proceed s stage) := by
  rw [advance, found]

theorem mem_flights_set {flight other : Flight} (found : u.flights[i]? = some flight)
    (m : other ∈ u.flights) (apart : other ≠ flight) (s : Submission) (next : Progress) :
    other ∈ (u.set i s next).flights := by
  obtain ⟨j, there⟩ := List.mem_iff_getElem?.1 m
  have elsewhere : i ≠ j := by
    rintro rfl
    exact apart (Option.some.inj (there.symm.trans found))
  exact List.mem_iff_getElem?.2 ⟨j, (List.getElem?_set_ne elsewhere).trans there⟩

theorem advance_set (inside : i < u.flights.length) (s : Submission) (next : Progress) :
    (u.set i s next).advance i = u.set i s (next.proceed s) := by
  have there : (u.set i s next).flights[i]? = some ⟨s, next.stage⟩ := List.getElem?_set_self inside
  rw [advance_of_getElem? there, set, set, List.set_set, List.append_assoc]
  rfl

/-- The three steps of a submission that nothing comes between are those of a call. -/
theorem run_uninterrupted (waiting : u.flights[i]? = some ⟨s, .waiting⟩) :
    u.run [i, i, i] =
      u.set i s ⟨.ended (u.tracker.submit s.header s.now).result,
        (u.tracker.submit s.header s.now).events, (u.tracker.submit s.header s.now).tracker⟩ := by
  have inside : i < u.flights.length := (List.getElem?_eq_some_iff.1 waiting).1
  show ((u.advance i).advance i).advance i = _
  rw [advance_of_getElem? waiting, advance_set inside, advance_set inside, Tracker.proceed_thrice]

end Traffic

end HeaviestChain
