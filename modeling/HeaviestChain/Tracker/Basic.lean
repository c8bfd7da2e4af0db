import HeaviestChain.Params.Flaw
import HeaviestChain.Store.Connection
import HeaviestChain.Tracker.Choice
import HeaviestChain.Tracker.Examination

/-!
A tracker takes headers one at a time, stores the sound ones and keeps the head of the store on the
branch with the most work, the first seen of equal ones. A submission has three steps: the header is
examined, its record is stored, and the head is chosen. All that is looked up for a choice is looked
up before anything changes; then the head moves, and with it the window of version signals and what
listeners hear.
-/

namespace HeaviestChain

/-- A change of the best chain. -/
inductive Event where
  | connected (r : Record)
  | disconnected (r : Record)
  deriving DecidableEq

/-- What a submission did. -/
inductive Outcome where
  | duplicate
  | extendedHead (height : UInt32)
  | sideBranch (height : UInt32)
  | reorganized (forkHeight : UInt32) (disconnected connected : Nat)
  deriving DecidableEq

/-- Why a submission did nothing, or stopped. -/
inductive SubmitError where
  | rejected (reason : Rejection)
  | failed (f : Failure)
  deriving DecidableEq

/-- Why there is no tracker. -/
inductive StartError where
  | flawed (f : Flaw)
  | failed (f : Failure)
  deriving DecidableEq

/-- The rules of a network, its store, and the versions of the latest headers of the best chain. -/
structure Tracker where
  params : Params
  sound : params.Sound
  connection : Connection
  window : SignalWindow
  size_window : window.size = params.signalWindow.toNat

/-- The result of a submission, the events in order, and the tracker afterwards. -/
structure Reply where
  result : Except SubmitError Outcome
  events : List Event
  tracker : Tracker

namespace Tracker

/-- A tracker over a store, at whatever head the store has. A best chain shorter than the window is
no hindrance. -/
def start (p : Params) (c : Connection) : Except StartError Tracker :=
  match sound : p.flaw? with
  | some f => .error (.flawed f)
  | none =>
    match c.chainHead with
    | (.error e, _) => .error (.failed (.store e))
    | (.ok head, c) =>
      match new : SignalWindow.new p.signalWindow.toNat with
      | .error t => .error (.failed (.trap t))
      | .ok w =>
        match (w.history c.store.size head).resolve c with
        | (.error f, _) => .error (.failed f)
        | (.ok versions, c) =>
          .ok ⟨p, sound, c, w.refill versions,
            (SignalWindow.size_refill w versions).trans (SignalWindow.size_of_new new)⟩

/-- The tracker after calls on its store. -/
def reached (t : Tracker) (c : Connection) : Tracker := { t with connection := c }

/-- The result of a walk over the stored records. -/
def resolve {α : Type} (t : Tracker) (walk : Nat → Walk α) : Except Failure α × Tracker :=
  let (result, c) := (walk t.connection.store.size).resolve t.connection
  (result, t.reached c)

/-- The head of the best chain. -/
def head (t : Tracker) : Except StoreError Record × Tracker :=
  let (result, c) := t.connection.chainHead
  (result, t.reached c)

/-- The height of the head. -/
def bestHeight (t : Tracker) : Except StoreError UInt32 × Tracker :=
  match t.head with
  | (.error e, t) => (.error e, t)
  | (.ok head, t) => (.ok head.height, t)

/-- The record at a height of the best chain, if it is that long. -/
def atHeight (t : Tracker) (height : UInt32) : Except Failure (Option Record) × Tracker :=
  match t.head with
  | (.error e, t) => (.error (.store e), t)
  | (.ok head, t) => t.resolve fun stored => Walk.ancestor stored head height

/-- A reply that changes nothing but the calls made. -/
def answer (t : Tracker) (c : Connection) (result : Except SubmitError Outcome) : Reply :=
  ⟨result, [], t.reached c⟩

/-- Makes a record the head; the window and the events follow if that succeeds. -/
def advance (t : Tracker) (c : Connection) (r : Record) (window : SignalWindow)
    (size : window.size = t.window.size) (outcome : Outcome) (events : List Event) : Reply :=
  match c.setChainHead r.hash with
  | (.error e, c) => t.answer c (.error (.failed (.store e)))
  | (.ok (), c) =>
    ⟨.ok outcome, events,
      { t with connection := c, window := window, size_window := size.trans t.size_window }⟩

/-- What a reorganization changes: records leave newest first and enter oldest first. -/
def changes (fork : Fork) : List Event :=
  fork.left.map .disconnected ++ fork.entered.map .connected

/-- Does what was chosen. -/
def follow (t : Tracker) (c : Connection) (r : Record) : Choice → Reply
  | .known => t.answer c (.ok .duplicate)
  | .aside => t.answer c (.ok (.sideBranch r.height))
  | .extend =>
    t.advance c r (t.window.add r.header.version) rfl (.extendedHead r.height) [.connected r]
  | .reorganize fork versions =>
    t.advance c r (t.window.refill versions) (SignalWindow.size_refill _ _)
      (.reorganized fork.base.height fork.left.length fork.entered.length) (changes fork)

/-- The first step of a submission: examines a header. -/
def examine (t : Tracker) (h : Header) (now : Int) : Except Failure Verdict × Tracker :=
  t.resolve fun stored => t.params.examine stored h now

/-- The second step: stores the record. -/
def file (t : Tracker) (r : Record) : Except Failure Unit × Tracker :=
  match t.connection.put r with
  | (.error e, c) => (.error (.store e), t.reached c)
  | (.ok (), c) => (.ok (), t.reached c)

/-- The third step: chooses between the head and a stored record. -/
def choose (t : Tracker) (r : Record) : Reply :=
  match t.connection.chainHead with
  | (.error e, c) => t.answer c (.error (.failed (.store e)))
  | (.ok head, c) =>
    match (Choice.between t.window c.store.size head r).resolve c with
    | (.error f, c) => t.answer c (.error (.failed f))
    | (.ok choice, c) => t.follow c r choice

/-- Submits a header at a time of the clock. -/
def submit (t : Tracker) (h : Header) (now : Int) : Reply :=
  match t.examine h now with
  | (.error f, t) => ⟨.error (.failed f), [], t⟩
  | (.ok .known, t) => ⟨.ok .duplicate, [], t⟩
  | (.ok (.rejected reason), t) => ⟨.error (.rejected reason), [], t⟩
  | (.ok (.sound r), t) =>
    match t.file r with
    | (.error f, t) => ⟨.error (.failed f), [], t⟩
    | (.ok (), t) => t.choose r

end Tracker

end HeaviestChain
