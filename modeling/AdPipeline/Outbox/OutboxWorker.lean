import AdPipeline.Lib.Transition
import Mathlib.Data.Fintype.Basic
import Mathlib.Data.List.Sort
import Mathlib.Data.Rat.Defs

/-!
# The outbox

Decide transactions insert rows into `event_outbox`, and the polls of any number of workers publish
them to Kafka. Every statement of a poll, every send and every commit is a step of its own, so that
a run is one interleaving of the transactions and of what the broker does with the messages.

A poll without locks reads a snapshot. With `FOR UPDATE SKIP LOCKED` it goes through its snapshot
row by row, passes over a row that another poll has locked or that has been published since, and
locks the others until it ends. An update locks the rows it marks; it does not wait here for those
that another poll has locked, which only adds runs.

Messages carry a serial number, their worker and the id of their row, which the code does not have.
-/

namespace AdPipeline.Outbox

/-- A row of `event_outbox`: what a poll reads of it, and its flag. -/
structure OutboxRow where
  id : ℕ
  aggregateId : String
  payload : String
  published : Bool
deriving DecidableEq

/-- `UPDATE event_outbox SET published = true`, on one row. -/
def OutboxRow.mark (r : OutboxRow) : OutboxRow := { r with published := true }

/-- The settings of a worker. -/
structure OutboxProperties where
  batchSize : ℕ
  updateFailRate : ℚ
  skipLocked : Bool

/-- A message handed to Kafka. -/
structure Message (W : Type) where
  serial : ℕ
  worker : W
  rowId : ℕ
  key : String
  value : String

/-- A poll at its sends: its batch, the rows acknowledged, and the send being waited for. -/
structure Poll where
  batch : List OutboxRow
  acked : List OutboxRow
  issued : Option ℕ

/-- The row a poll sends next. -/
def Poll.nextRow (p : Poll) : Option OutboxRow := p.batch[p.acked.length]?

/-- Where the transaction of a worker stands. -/
inductive Phase where
  | idle
  /-- The rows of the snapshot still to be tried, and those locked. -/
  | selecting (candidates : List ℕ) (picked : List OutboxRow)
  | sending (p : Poll)
  /-- The loop over the rows is over. -/
  | stopped (p : Poll)
  /-- The acknowledged rows are marked, but not committed. -/
  | updated (p : Poll)

/-- The ids of the rows a transaction has selected. -/
def Phase.held : Phase → List ℕ
  | idle => []
  | selecting _ picked => picked.map OutboxRow.id
  | sending p => p.batch.map OutboxRow.id
  | stopped p => p.batch.map OutboxRow.id
  | updated p => p.batch.map OutboxRow.id

/-- The ids of the rows a transaction has locked: all it has selected under `FOR UPDATE`, and else
those it has updated. -/
def Phase.locked (forUpdate : Bool) (phase : Phase) : List ℕ :=
  if forUpdate then phase.held
  else
    match phase with
    | updated p => p.acked.map OutboxRow.id
    | _ => []

@[simp] theorem Phase.locked_true (phase : Phase) : phase.locked true = phase.held := rfl

/-- The database, the workers and the broker. -/
structure State (W : Type) where
  nextId : ℕ
  nextSerial : ℕ
  /-- Rows inserted by open decide transactions. -/
  opened : List OutboxRow
  /-- Committed rows. -/
  rows : List OutboxRow
  phases : W → Phase
  inflight : List (Message W)
  log : List (Message W)

inductive Action (W : Type) where
  | insert (aggregateId payload : String)
  | commitDecide (id : ℕ)
  | rollbackDecide (id : ℕ)
  | select (w : W)
  | examine (w : W)
  | selected (w : W)
  | send (w : W)
  | store (serial : ℕ)
  | lose (serial : ℕ)
  | ack (w : W)
  | fail (w : W)
  | loopEnd (w : W)
  /-- Nothing was acknowledged. -/
  | returnEmpty (w : W)
  | skipUpdate (w : W) (draw : ℚ)
  | update (w : W) (draw : ℚ)
  | commit (w : W)
  | rollback (w : W)

variable {W : Type}

def start : State W where
  nextId := 1
  nextSerial := 0
  opened := []
  rows := []
  phases := fun _ => .idle
  inflight := []
  log := []

/-- The unpublished committed rows in id order. -/
def unpublished (s : State W) : List OutboxRow :=
  (s.rows.filter fun r => !r.published).insertionSort fun x y => x.id ≤ y.id

/-- The current version of a row, when it is still unpublished. -/
def recheck (s : State W) (id : ℕ) : Option OutboxRow :=
  s.rows.find? fun r => r.id = id && !r.published

/-- Another transaction has locked the row. -/
def lockedByOther (props : W → OutboxProperties) (s : State W) (w : W) (id : ℕ) : Prop :=
  ∃ v, v ≠ w ∧ id ∈ (s.phases v).locked (props v).skipLocked

variable [DecidableEq W]

def setPhase (s : State W) (w : W) (phase : Phase) : State W :=
  { s with phases := Function.update s.phases w phase }

theorem setPhase_setPhase (s : State W) (w : W) (phase phase' : Phase) :
    setPhase (setPhase s w phase) w phase' = setPhase s w phase' := by
  simp only [setPhase, Function.update_idem]

theorem setPhase_phases_self (s : State W) (w : W) (phase : Phase) :
    (setPhase s w phase).phases w = phase := by
  show (Function.update s.phases w phase) w = phase
  rw [Function.update_self]

theorem setPhase_phases_of_ne (s : State W) {v w : W} (h : v ≠ w) (phase : Phase) :
    (setPhase s w phase).phases v = s.phases v := by
  show (Function.update s.phases w phase) v = s.phases v
  rw [Function.update_of_ne h]

theorem lockedByOther_setPhase {props : W → OutboxProperties} {s : State W} {w : W} {phase : Phase}
    {id : ℕ} : lockedByOther props (setPhase s w phase) w id ↔ lockedByOther props s w id := by
  unfold lockedByOther
  refine exists_congr fun v => and_congr_right fun hv => ?_
  rw [setPhase_phases_of_ne s hv]

variable [Fintype W]

instance (props : W → OutboxProperties) (s : State W) (w : W) (id : ℕ) :
    Decidable (lockedByOther props s w id) :=
  inferInstanceAs (Decidable (∃ v, v ≠ w ∧ id ∈ (s.phases v).locked (props v).skipLocked))

/-- A draw of `nextDouble()`. -/
def IsDraw (draw : ℚ) : Prop := 0 ≤ draw ∧ draw < 1

instance (draw : ℚ) : Decidable (IsDraw draw) := inferInstanceAs (Decidable (_ ∧ _))

/-- The flag of the rows acknowledged to a poll is set. -/
def markRows (rows acked : List OutboxRow) : List OutboxRow :=
  rows.map fun r => if r.id ∈ acked.map OutboxRow.id then r.mark else r

variable (props : W → OutboxProperties)

def step (s : State W) : Action W → Option (State W)
  | .insert aggregateId payload =>
    some { s with
      nextId := s.nextId + 1
      opened := ⟨s.nextId, aggregateId, payload, false⟩ :: s.opened }
  | .commitDecide id =>
    (s.opened.find? fun r => r.id == id).map fun r =>
      { s with opened := s.opened.eraseP (fun r => r.id == id), rows := s.rows ++ [r] }
  | .rollbackDecide id =>
    (s.opened.find? fun r => r.id == id).map fun _ =>
      { s with opened := s.opened.eraseP fun r => r.id == id }
  | .select w =>
    match s.phases w with
    | .idle =>
      if (props w).skipLocked then
        some (setPhase s w (.selecting ((unpublished s).map OutboxRow.id) []))
      else some (setPhase s w (.sending ⟨(unpublished s).take (props w).batchSize, [], none⟩))
    | _ => none
  | .examine w =>
    match s.phases w with
    | .selecting (id :: candidates) picked =>
      if picked.length < (props w).batchSize then
        match recheck s id with
        | none => some (setPhase s w (.selecting candidates picked))
        | some r =>
          if lockedByOther props s w id then some (setPhase s w (.selecting candidates picked))
          else some (setPhase s w (.selecting candidates (picked ++ [r])))
      else none
    | _ => none
  | .selected w =>
    match s.phases w with
    | .selecting candidates picked =>
      if candidates = [] ∨ (props w).batchSize ≤ picked.length then
        some (setPhase s w (.sending ⟨picked, [], none⟩))
      else none
    | _ => none
  | .send w =>
    match s.phases w with
    | .sending ⟨batch, acked, none⟩ =>
      (batch[acked.length]?).map fun r =>
        { setPhase s w (.sending ⟨batch, acked, some s.nextSerial⟩) with
          nextSerial := s.nextSerial + 1
          inflight := ⟨s.nextSerial, w, r.id, r.aggregateId, r.payload⟩ :: s.inflight }
    | _ => none
  | .store serial =>
    (s.inflight.find? fun m => m.serial == serial).map fun m =>
      { s with inflight := s.inflight.eraseP (fun m => m.serial == serial), log := s.log ++ [m] }
  | .lose serial =>
    (s.inflight.find? fun m => m.serial == serial).map fun _ =>
      { s with inflight := s.inflight.eraseP fun m => m.serial == serial }
  | .ack w =>
    match s.phases w with
    | .sending ⟨batch, acked, some serial⟩ =>
      if s.log.any fun m => m.serial == serial then
        (batch[acked.length]?).map fun r =>
          setPhase s w (.sending ⟨batch, acked ++ [r], none⟩)
      else none
    | _ => none
  | .fail w =>
    match s.phases w with
    | .sending ⟨batch, acked, some _⟩ => some (setPhase s w (.stopped ⟨batch, acked, none⟩))
    | _ => none
  | .loopEnd w =>
    match s.phases w with
    | .sending ⟨batch, acked, none⟩ =>
      if acked.length = batch.length then some (setPhase s w (.stopped ⟨batch, acked, none⟩))
      else none
    | _ => none
  | .returnEmpty w =>
    match s.phases w with
    | .stopped p => if p.acked = [] then some (setPhase s w .idle) else none
    | _ => none
  | .skipUpdate w draw =>
    match s.phases w with
    | .stopped p =>
      if p.acked ≠ [] ∧ IsDraw draw ∧ draw < (props w).updateFailRate then some (setPhase s w .idle)
      else none
    | _ => none
  | .update w draw =>
    match s.phases w with
    | .stopped p =>
      if p.acked ≠ [] ∧ IsDraw draw ∧ ¬ draw < (props w).updateFailRate then
        some (setPhase s w (.updated p))
      else none
    | _ => none
  | .commit w =>
    match s.phases w with
    | .updated p =>
      some { setPhase s w .idle with
        rows := markRows s.rows p.acked }
    | _ => none
  | .rollback w =>
    match s.phases w with
    | .idle => none
    | _ => some (setPhase s w .idle)

/-- The outbox with the workers `W`, each with the settings of its instance. -/
def outbox (W : Type) [Fintype W] [DecidableEq W] (props : W → OutboxProperties) :
    Lib.System (State W) (Action W) :=
  ⟨start, step props⟩

/-! ## What a step does -/

/-- What each action does, with the guards that matter below. -/
inductive Steps (s : State W) : Action W → State W → Prop
  | insert (aggregateId payload : String) :
      Steps s (.insert aggregateId payload) { s with
        nextId := s.nextId + 1
        opened := ⟨s.nextId, aggregateId, payload, false⟩ :: s.opened }
  | commitDecide {id : ℕ} {r : OutboxRow} (hr : s.opened.find? (fun r => r.id == id) = some r) :
      Steps s (.commitDecide id) { s with
        opened := s.opened.eraseP (fun r => r.id == id)
        rows := s.rows ++ [r] }
  | rollbackDecide (id : ℕ) :
      Steps s (.rollbackDecide id) { s with opened := s.opened.eraseP fun r => r.id == id }
  /-- A poll with locks takes its snapshot. -/
  | snapshot {w : W} (hw : s.phases w = .idle) (hskip : (props w).skipLocked = true) :
      Steps s (.select w) (setPhase s w (.selecting ((unpublished s).map OutboxRow.id) []))
  /-- A poll without locks reads its batch. -/
  | read {w : W} (hw : s.phases w = .idle) (hskip : (props w).skipLocked = false) :
      Steps s (.select w)
        (setPhase s w (.sending ⟨(unpublished s).take (props w).batchSize, [], none⟩))
  | pass {w : W} {id : ℕ} {candidates : List ℕ} {picked : List OutboxRow}
      (hw : s.phases w = .selecting (id :: candidates) picked)
      (hgone : recheck s id = none ∨ lockedByOther props s w id) :
      Steps s (.examine w) (setPhase s w (.selecting candidates picked))
  | pick {w : W} {id : ℕ} {candidates : List ℕ} {picked : List OutboxRow} {r : OutboxRow}
      (hw : s.phases w = .selecting (id :: candidates) picked) (hr : recheck s id = some r)
      (hfree : ¬ lockedByOther props s w id) :
      Steps s (.examine w) (setPhase s w (.selecting candidates (picked ++ [r])))
  | selected {w : W} {candidates : List ℕ} {picked : List OutboxRow}
      (hw : s.phases w = .selecting candidates picked) :
      Steps s (.selected w) (setPhase s w (.sending ⟨picked, [], none⟩))
  | send {w : W} {batch acked : List OutboxRow} {r : OutboxRow}
      (hw : s.phases w = .sending ⟨batch, acked, none⟩) (hr : batch[acked.length]? = some r) :
      Steps s (.send w) { setPhase s w (.sending ⟨batch, acked, some s.nextSerial⟩) with
        nextSerial := s.nextSerial + 1
        inflight := ⟨s.nextSerial, w, r.id, r.aggregateId, r.payload⟩ :: s.inflight }
  | store {serial : ℕ} {m : Message W}
      (hm : s.inflight.find? (fun m => m.serial == serial) = some m) :
      Steps s (.store serial) { s with
        inflight := s.inflight.eraseP (fun m => m.serial == serial)
        log := s.log ++ [m] }
  | lose (serial : ℕ) :
      Steps s (.lose serial) { s with inflight := s.inflight.eraseP fun m => m.serial == serial }
  | ack {w : W} {batch acked : List OutboxRow} {serial : ℕ} {m : Message W} {r : OutboxRow}
      (hw : s.phases w = .sending ⟨batch, acked, some serial⟩) (hm : m ∈ s.log)
      (hserial : m.serial = serial) (hr : batch[acked.length]? = some r) :
      Steps s (.ack w) (setPhase s w (.sending ⟨batch, acked ++ [r], none⟩))
  | fail {w : W} {batch acked : List OutboxRow} {serial : ℕ}
      (hw : s.phases w = .sending ⟨batch, acked, some serial⟩) :
      Steps s (.fail w) (setPhase s w (.stopped ⟨batch, acked, none⟩))
  | loopEnd {w : W} {batch acked : List OutboxRow}
      (hw : s.phases w = .sending ⟨batch, acked, none⟩) (hend : acked.length = batch.length) :
      Steps s (.loopEnd w) (setPhase s w (.stopped ⟨batch, acked, none⟩))
  | returnEmpty {w : W} {p : Poll} (hw : s.phases w = .stopped p) (hempty : p.acked = []) :
      Steps s (.returnEmpty w) (setPhase s w .idle)
  | skipUpdate {w : W} {draw : ℚ} (hdraw : IsDraw draw) (hrate : draw < (props w).updateFailRate) :
      Steps s (.skipUpdate w draw) (setPhase s w .idle)
  | update {w : W} {p : Poll} (draw : ℚ) (hw : s.phases w = .stopped p) :
      Steps s (.update w draw) (setPhase s w (.updated p))
  | commit {w : W} {p : Poll} (hw : s.phases w = .updated p) :
      Steps s (.commit w) { setPhase s w .idle with rows := markRows s.rows p.acked }
  | rollback (w : W) : Steps s (.rollback w) (setPhase s w .idle)

variable {props}

/-- A step does what its action does. -/
theorem steps_of_step {s t : State W} {a : Action W} (h : step props s a = some t) :
    Steps props s a t := by
  cases a with
  | insert aggregateId payload =>
      obtain rfl := Option.some.inj h
      exact .insert aggregateId payload
  | commitDecide id =>
      obtain ⟨r, hr, rfl⟩ := Option.map_eq_some_iff.1 h
      exact .commitDecide hr
  | rollbackDecide id =>
      obtain ⟨r, -, rfl⟩ := Option.map_eq_some_iff.1 h
      exact .rollbackDecide id
  | select w =>
      simp only [step] at h
      split at h
      · rename_i hw
        split_ifs at h with hskip <;> obtain rfl := Option.some.inj h
        · exact .snapshot hw hskip
        · exact .read hw (by simpa using hskip)
      · cases h
  | examine w =>
      simp only [step] at h
      split at h
      · rename_i id candidates picked hw
        split at h
        · split at h
          · rename_i hnone
            obtain rfl := Option.some.inj h
            exact .pass hw (.inl hnone)
          · rename_i r hr
            split at h <;> obtain rfl := Option.some.inj h
            · rename_i hlocked
              exact .pass hw (.inr hlocked)
            · rename_i hfree
              exact .pick hw hr hfree
        · cases h
      · cases h
  | selected w =>
      simp only [step] at h
      split at h
      · rename_i hw
        split_ifs at h
        obtain rfl := Option.some.inj h
        exact .selected hw
      · cases h
  | send w =>
      simp only [step] at h
      split at h
      · rename_i hw
        obtain ⟨r, hr, rfl⟩ := Option.map_eq_some_iff.1 h
        exact .send hw hr
      · cases h
  | store serial =>
      obtain ⟨m, hm, rfl⟩ := Option.map_eq_some_iff.1 h
      exact .store hm
  | lose serial =>
      obtain ⟨m, -, rfl⟩ := Option.map_eq_some_iff.1 h
      exact .lose serial
  | ack w =>
      simp only [step] at h
      split at h
      · rename_i hw
        split_ifs at h with hlog
        obtain ⟨r, hr, rfl⟩ := Option.map_eq_some_iff.1 h
        obtain ⟨m, hm, hserial⟩ := List.any_eq_true.1 hlog
        exact .ack hw hm (by simpa using hserial) hr
      · cases h
  | fail w =>
      simp only [step] at h
      split at h
      · rename_i hw
        obtain rfl := Option.some.inj h
        exact .fail hw
      · cases h
  | loopEnd w =>
      simp only [step] at h
      split at h
      · rename_i hw
        split_ifs at h with hend
        obtain rfl := Option.some.inj h
        exact .loopEnd hw hend
      · cases h
  | returnEmpty w =>
      simp only [step] at h
      split at h
      · rename_i hw
        split_ifs at h with hempty
        obtain rfl := Option.some.inj h
        exact .returnEmpty hw hempty
      · cases h
  | skipUpdate w draw =>
      simp only [step] at h
      split at h
      · split_ifs at h with hguard
        obtain rfl := Option.some.inj h
        exact .skipUpdate hguard.2.1 hguard.2.2
      · cases h
  | update w draw =>
      simp only [step] at h
      split at h
      · rename_i hw
        split_ifs at h
        obtain rfl := Option.some.inj h
        exact .update draw hw
      · cases h
  | commit w =>
      simp only [step] at h
      split at h
      · rename_i hw
        obtain rfl := Option.some.inj h
        exact .commit hw
      · cases h
  | rollback w =>
      simp only [step] at h
      split at h
      · cases h
      · obtain rfl := Option.some.inj h
        exact .rollback w

end AdPipeline.Outbox
