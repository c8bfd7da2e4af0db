import HeaviestChain.Proofs.Tracker.Start

/-!
Histories: submissions in turn. Through all of them the catalog grows from the first record and the
connection hides nothing; what one submission does to records and head adds up along the history.
-/

namespace HeaviestChain

/-- A header that is submitted, and the time of the clock. -/
structure Submission where
  header : Header
  now : Int
  deriving DecidableEq

namespace Tracker

variable {g : Record} {t : Tracker}

/-- The tracker after submissions in turn. -/
def after (t : Tracker) : List Submission → Tracker
  | [] => t
  | s :: rest => (t.submit s.header s.now).tracker.after rest

/-- The events of submissions in turn. -/
def heard (t : Tracker) : List Submission → List Event
  | [] => []
  | s :: rest =>
    (t.submit s.header s.now).events ++ (t.submit s.header s.now).tracker.heard rest

/-- The tracker with another schedule of outages for the calls to come. -/
def under (t : Tracker) (outages : Nat → Operation → Bool) : Tracker :=
  t.reached { t.connection with outages }

theorem after_append (t : Tracker) (earlier later : List Submission) :
    t.after (earlier ++ later) = (t.after earlier).after later := by
  induction earlier generalizing t with
  | nil => rfl
  | cons s earlier ih => exact ih _

theorem Chooses.catalog {r : Record} {reply : Reply} (chooses : t.Chooses r reply) :
    reply.tracker.store.catalog = t.store.catalog := by
  cases chooses with
  | failed _ _ keeps => exact keeps.catalog
  | stayed _ _ keeps => exact keeps.catalog
  | moved _ _ _ _ catalog _ _ _ => exact catalog

/-- A choice moves the head only to more work. -/
theorem Chooses.head {r : Record} {reply : Reply} (chooses : t.Chooses r reply) :
    reply.tracker.store.head = t.store.head ∨
      reply.tracker.store.head.Outweighs t.store.head := by
  cases chooses with
  | failed _ _ keeps => exact .inl keeps.head
  | stayed _ _ keeps => exact .inl keeps.head
  | moved _ _ heavier _ _ head _ _ => exact .inr (by rw [head]; exact heavier)

section Submits

variable {h : Header} {now : Int} {reply : Reply}

/-- A submission files nothing or the submitted header, as the child of a filed record. -/
theorem Submits.catalog (submits : t.Submits h now reply) :
    reply.tracker.store.catalog = t.store.catalog ∨
      ∃ p r, r.header = h ∧ t.store.catalog.find? r.hash = none ∧ t.store.catalog.Links p r ∧
        reply.tracker.store.catalog = t.store.catalog.insert r := by
  cases submits with
  | stopped _ keeps => exact .inl keeps.catalog
  | filed _ own new link chooses => exact .inr ⟨_, _, own, new, link, chooses.catalog⟩

theorem Submits.head (submits : t.Submits h now reply) :
    reply.tracker.store.head = t.store.head ∨
      reply.tracker.store.head.Outweighs t.store.head := by
  cases submits with
  | stopped _ keeps => exact .inl keeps.head
  | filed _ _ _ _ chooses => exact chooses.head

/-- A submission keeps what is filed, and the catalog grown. -/
theorem Submits.grown (rooted : t.Rooted g) (submits : t.Submits h now reply) :
    t.store.catalog.Within reply.tracker.store.catalog ∧
      reply.tracker.store.catalog.Grown g := by
  rcases submits.catalog with same | ⟨p, r, -, -, link, insert⟩
  · rw [same]
    exact ⟨.refl _, rooted.grown⟩
  · rw [insert]
    exact ⟨Catalog.within_insert _ _, rooted.grown.insert link⟩

end Submits

theorem Rooted.submit (rooted : t.Rooted g) (h : Header) (now : Int) :
    (t.submit h now).tracker.Rooted g := by
  obtain ⟨resumes, submits⟩ := submit_submits rooted h now
  exact rooted.resumes resumes (submits.grown rooted).2

/-- What every submission passes on holds after every history. -/
theorem after_induct {motive : Tracker → Prop} (rooted : t.Rooted g) (now : motive t)
    (step : ∀ u : Tracker, u.Rooted g → motive u → ∀ (h : Header) (time : Int),
      motive (u.submit h time).tracker) (submissions : List Submission) :
    (t.after submissions).Rooted g ∧ motive (t.after submissions) := by
  induction submissions generalizing t with
  | nil => exact ⟨rooted, now⟩
  | cons s rest ih => exact ih (rooted.submit s.header s.now) (step t rooted now s.header s.now)

theorem Rooted.after (rooted : t.Rooted g) (submissions : List Submission) :
    (t.after submissions).Rooted g :=
  (after_induct (motive := fun _ => True) rooted trivial (fun _ _ _ _ _ => trivial)
    submissions).1

theorem Rooted.under (rooted : t.Rooted g) (outages : Nat → Operation → Bool) :
    (t.under outages).Rooted g :=
  ⟨rooted.hidden, rooted.grown⟩

theorem resumes_after (rooted : t.Rooted g) (submissions : List Submission) :
    (t.after submissions).Resumes t := by
  refine (after_induct (motive := fun u => u.Resumes t) rooted (.refl t) ?_ submissions).2
  intro u rooted resumes h now
  exact (submit_submits rooted h now).1.trans resumes

theorem Begins.dependable_after {p : Params} (begins : Begins p (fun _ _ => false) t)
    (submissions : List Submission) : (t.after submissions).connection.Dependable :=
  (resumes_after begins.rooted submissions).dependable begins.dependable

end Tracker

end HeaviestChain
