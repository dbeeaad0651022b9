import AdPipeline.Collector.PixelSender
import AdPipeline.Lib.Slices
import AdPipeline.Lib.Transition
import Mathlib.Logic.Function.Basic

/-!
# The emitter of the traffic generator

Users hand events to `emit`, which injects anomalies and passes each event to `_route`, and that
puts it into one of two buffers. A loop empties the buffers from time to time: it cuts the one into
batches and makes a task of each batch and of each pixel. Duplicates are tasks too, which sleep and
then route their copy. At the end `close` empties the buffers once more and waits for the tasks that
are in flight.

All of this runs on one event loop, so that what a coroutine does between two waits is one step, and
steps interleave in any order. `emit`, `_route` and `_flush` wait for nothing and are one step each.
A request ends with a status or with an exception; releasing it afterwards is taken not to fail.
What is random is given with the action.

The state keeps three histories that the code does not have: the calls of `_route`, the tasks made
for them and the requests. An event is kept with the number of the call it was passed in.
-/

namespace AdPipeline.Generator

open Collector (Event EventValue)

/-! ## Events -/

/-- `ev[field] = value`. -/
def putField (ev : Event) (field : String) (value : EventValue) : Event :=
  Lib.upsert Prod.fst (field, value) ev

/-- `ev.pop(field, None)`. -/
def popField (ev : Event) (field : String) : Event := ev.filter fun f => f.1 ≠ field

/-- `REQUIRED_FIELDS`. -/
def requiredFields : List String := ["event_id", "event_type", "campaign_id", "event_time"]

/-- `_TYPE_BUCKET`, and the bucket of the types it does not list. -/
def typeBucket : Option EventValue → String
  | some (.str "impression") => "t.impression"
  | some (.str "quartile") => "t.quartile"
  | some (.str "click") => "t.click"
  | some (.str "ad_request") => "t.request"
  | some (.str "ad_response") => "t.request"
  | _ => "t.behavior"

/-- `_strip`. -/
def strip (ev : Event) : Event := ev

/-- What is random in a call of `emit`: which anomalies it injects, and where `_route` puts the
event. -/
structure Draws where
  /-- The event goes on to the server path with this new id. -/
  ssai : Option String
  /-- The event is late by so many milliseconds. -/
  late : Option ℤ
  forge : Bool
  /-- The required field that is left out. -/
  bad : Option (Fin requiredFields.length)
  pixel : Bool
  dup : Bool

/-- The twin of an impression that the server path sends. There is none without an event id. -/
def twin (ev : Event) (id : String) : Option Event :=
  (ev.get "event_id").map fun original =>
    putField (putField (putField ev "event_id" (.str id)) "source" (.str "server"))
      "ssai_twin_of" original

/-- The event with a time in the past, which has to be a number. -/
def lateEvent (ev : Event) (ms : ℤ) : Option Event :=
  match ev.get "event_time" with
  | some (.int n) =>
    some (putField (putField ev "event_time" (.int (n - ms))) "_late" (.other "True" (.bool true)))
  | _ => none

/-- The event without a required field. -/
def badEvent (ev : Event) (victim : String) : Event :=
  putField (popField ev victim) "_bad" (.str victim)

/-- The copy of an event that is sent again. -/
def dupEvent (ev : Event) : Event := putField ev "_dup" (.other "True" (.bool true))

/-! ## The state -/

/-- An event in a buffer, with the number of its call of `_route` and the buffer it was put in. -/
structure Item where
  number : ℕ
  ev : Event
  forge : Bool
  pixel : Bool

/-- A call of `_post` or of `_pixel`. -/
inductive Send where
  | post (batch : List Item)
  | pixel (item : Item)

namespace Send

/-- The events that it sends. -/
def items : Send → List Item
  | post batch => batch
  | pixel item => [item]

/-- The counter of the requests that were answered. -/
def counter : Send → String
  | post _ => "sent.post"
  | pixel _ => "sent.pixel"

/-- The batches among some calls. -/
def batches (sends : List Send) : List (List Item) :=
  sends.filterMap fun
    | post batch => some batch
    | pixel _ => none

/-- The pixels among some calls. -/
def pixels (sends : List Send) : List Item :=
  sends.filterMap fun
    | post _ => none
    | pixel item => some item

end Send

/-- A task that runs a call. -/
structure Task where
  id : ℕ
  send : Send

/-- A task that waits to send an event again. -/
structure Delayed where
  id : ℕ
  ev : Event
  allowPixel : Bool

/-- How far `close` is. While it gathers it waits for the tasks it found in flight. -/
inductive Close where
  | uncalled
  | gathering (tasks : List ℕ)
  | returned
  | raised
deriving DecidableEq

/-- The emitter, with the tasks of the event loop and the counters of `stats.total`. -/
structure State where
  buf : List Item
  pixelBuf : List Item
  paused : Bool
  closing : Bool
  inflight : List ℕ
  total : String → ℕ
  nextId : ℕ
  /-- Tasks that have not begun to run. -/
  waiting : List Task
  /-- Tasks whose request has not ended. -/
  sending : List Task
  sleeping : List Delayed
  finished : List Task
  /-- `flush_loop` is running. -/
  flushing : Bool
  /-- The users are running. -/
  users : Bool
  close : Close
  routed : List Item
  spawned : List Send
  requests : List Send

namespace State

/-- `Emitter.__init__`, when the users and `flush_loop` have been started. -/
def start : State where
  buf := []
  pixelBuf := []
  paused := false
  closing := false
  inflight := []
  total := fun _ => 0
  nextId := 0
  waiting := []
  sending := []
  sleeping := []
  finished := []
  flushing := true
  users := true
  close := .uncalled
  routed := []
  spawned := []
  requests := []

/-- `stats.bump`. -/
def bump (s : State) (key : String) (n : ℕ) : State :=
  { s with total := Function.update s.total key (s.total key + n) }

/-- The tasks that are not done. -/
def unfinished (s : State) : List ℕ :=
  (s.waiting ++ s.sending).map Task.id ++ s.sleeping.map Delayed.id

/-! ## What the coroutines do -/

/-- `_route`. The draw decides for the pixel path where it is allowed. -/
def route (s : State) (ev : Event) (allowPixel forge draw : Bool) : State :=
  let s := (s.bump (typeBucket (ev.get "event_type")) 1).bump "sent" 1
  let usePixel := forge || (allowPixel && draw)
  let item : Item := ⟨s.routed.length, if usePixel then ev else strip ev, forge, usePixel⟩
  let s := { s with routed := s.routed ++ [item] }
  if usePixel then
    let s := if forge then s.bump "a.forge" 1 else s
    { s with pixelBuf := s.pixelBuf ++ [item] }
  else { s with buf := s.buf ++ [item] }

/-- `_spawn`. -/
def spawn (s : State) (send : Send) : State :=
  { s with
    nextId := s.nextId + 1
    inflight := s.inflight ++ [s.nextId]
    waiting := s.waiting ++ [⟨s.nextId, send⟩]
    spawned := s.spawned ++ [send] }

def spawnAll (s : State) (sends : List Send) : State := sends.foldl spawn s

/-- The task of a duplicate. -/
def delay (s : State) (ev : Event) (allowPixel : Bool) : State :=
  { s with
    nextId := s.nextId + 1
    inflight := s.inflight ++ [s.nextId]
    sleeping := s.sleeping ++ [⟨s.nextId, ev, allowPixel⟩] }

/-- `emit`. It raises on an event without the fields it reads, and leaves what it did before. -/
def emit (s : State) (ev : Event) (allowPixel : Bool) (d : Draws) : State :=
  let impression := match ev.get "event_type" with
    | some (.str "impression") => true
    | _ => false
  let ssai := if impression then d.ssai else none
  match ssai.elim (some none) fun id => (twin ev id).map some with
  | none => s
  | some twin =>
    let s := twin.elim s fun twin => (s.bump "a.ssai" 1).route twin false false false
    match d.late.elim (some ev) (lateEvent ev) with
    | none => s
    | some ev =>
      let s := if d.late.isSome then s.bump "a.late" 1 else s
      let s := if d.bad.isSome then s.bump "a.bad" 1 else s
      let ev := d.bad.elim ev fun i => badEvent ev requiredFields[i]
      let s := s.route ev allowPixel d.forge d.pixel
      if d.dup then (s.bump "a.dup" 1).delay (dupEvent ev) allowPixel else s

/-- The part of `_flush` for the event buffer, and whether it went on. -/
def flushBuf (batchSize : ℤ) (s : State) : State × Bool :=
  if s.buf = [] then (s, true)
  else
    match Lib.slices batchSize s.buf with
    | none => ({ s with buf := [] }, false)
    | some batches => ({ s with buf := [] }.spawnAll (batches.map .post), true)

/-- The part of `_flush` for the pixel buffer. -/
def flushPixels (s : State) : State :=
  { s with pixelBuf := [] }.spawnAll (s.pixelBuf.map .pixel)

/-- `_flush`, and whether it returned. -/
def flush (batchSize : ℤ) (s : State) (force : Bool) : State × Bool :=
  if s.paused && !force then (s, true)
  else
    match s.flushBuf batchSize with
    | (s, true) => (s.flushPixels, true)
    | (s, false) => (s, false)

/-- The counters of an answer, in `_post` and in `_pixel`. -/
def count (s : State) (send : Send) (status : ℕ) : State :=
  let s := s.bump send.counter send.items.length
  if 200 ≤ status ∧ status < 300 then s.bump "http.2xx" send.items.length
  else s.bump "http.err" send.items.length

/-- The request of a task has ended. -/
def finish (s : State) (i : ℕ) (t : Task) : State :=
  { s with
    sending := s.sending.eraseP fun t => t.id == i
    finished := s.finished ++ [t] }

end State

/-! ## The steps -/

inductive Action where
  /-- A user calls `_route`. -/
  | route (ev : Event) (allowPixel forge draw : Bool)
  /-- A user calls `emit`. -/
  | emit (ev : Event) (allowPixel : Bool) (d : Draws)
  /-- The sleep of a duplicate ends. -/
  | wake (i : ℕ) (draw : Bool)
  /-- The task of a duplicate is cancelled. -/
  | cancel (i : ℕ)
  | pause
  | resume
  /-- The sleep of `flush_loop` ends. -/
  | tick
  /-- `flush_loop` is cancelled. -/
  | stopFlushing
  /-- The users have stopped. -/
  | stopUsers
  /-- A task begins and makes its request. -/
  | begin (i : ℕ)
  /-- A request is answered with a status. -/
  | answer (i : ℕ) (status : ℕ)
  /-- A request raises. -/
  | fail (i : ℕ)
  /-- The callback of a task that is done. -/
  | discard (i : ℕ)
  /-- `close` runs up to its wait. -/
  | close
  /-- The tasks that `close` waits for are done. -/
  | gathered

/-- What `flush_loop` does when its sleep ends. An exception ends it. -/
def State.tick (batchSize : ℤ) (s : State) : State :=
  let (s, returned) := s.flush batchSize false
  { s with flushing := returned && !s.closing }

/-- `close`, up to its wait. -/
def State.callClose (batchSize : ℤ) (s : State) : State :=
  match { s with closing := true, paused := false }.flush batchSize true with
  | (s, false) => { s with close := .raised }
  | (s, true) =>
    { s with close := if s.inflight = [] then .returned else .gathering s.inflight }

/-- One step, if it is enabled. -/
def step (batchSize : ℤ) (s : State) : Action → Option State
  | .route ev allowPixel forge draw =>
    if s.users then some (s.route ev allowPixel forge draw) else none
  | .emit ev allowPixel d => if s.users then some (s.emit ev allowPixel d) else none
  | .wake i draw =>
    (s.sleeping.find? fun d => d.id == i).map fun d =>
      let s := { s with sleeping := s.sleeping.eraseP fun d => d.id == i }
      if s.closing then s else s.route d.ev d.allowPixel false draw
  | .cancel i =>
    (s.sleeping.find? fun d => d.id == i).map fun _ =>
      { s with sleeping := s.sleeping.eraseP fun d => d.id == i }
  | .pause => some { s with paused := true }
  | .resume => some { s with paused := false }
  | .tick => if s.flushing then some (s.tick batchSize) else none
  | .stopFlushing => some { s with flushing := false }
  | .stopUsers => some { s with users := false }
  | .begin i =>
    (s.waiting.find? fun t => t.id == i).map fun t =>
      { s with
        waiting := s.waiting.eraseP fun t => t.id == i
        sending := s.sending ++ [t]
        requests := s.requests ++ [t.send] }
  | .answer i status =>
    (s.sending.find? fun t => t.id == i).map fun t => (s.count t.send status).finish i t
  | .fail i =>
    (s.sending.find? fun t => t.id == i).map fun t =>
      (s.bump "http.err" t.send.items.length).finish i t
  | .discard i =>
    if i ∈ s.unfinished then none else some { s with inflight := s.inflight.erase i }
  | .close =>
    if s.users = false ∧ s.close = .uncalled then some (s.callClose batchSize) else none
  | .gathered =>
    match s.close with
    | .gathering tasks =>
      if ∀ i ∈ tasks, i ∉ s.unfinished then some { s with close := .returned } else none
    | _ => none

/-- The emitter with a batch size. -/
def emitter (batchSize : ℤ) : Lib.System State Action := ⟨State.start, step batchSize⟩

end AdPipeline.Generator
