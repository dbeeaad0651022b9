import AdPipeline.Collector.FallbackReplay

/-!
# One call of a replay

The actions of one replay, and everything that each of them does (`advances_of_step`). A call lists
the pending files and goes on with actions of its own only, so that nothing else happens meanwhile.
-/

namespace AdPipeline.Collector

namespace FallbackReplay

open FallbackDirectory

variable {ι : Type} [DecidableEq ι]

/-- The replay that an action belongs to. -/
def Action.replay : Action ι → Option ι
  | .append _ _ => none
  | .list r => some r
  | .read r => some r
  | .send r => some r
  | .ack r _ => some r
  | .fail r _ => some r
  | .reappend r _ _ => some r
  | .rename r => some r
  | .keep r => some r
  | .finish r => some r
  | .abort r => some r

/-- The replay is running. -/
def Running (s : State ι) (r : ι) : Prop :=
  ∃ result rest current, s.replays r = .running result rest current

/-- The files a call is at or has left. -/
def filesLeft (rest : List String) : Option FileReplay → List String
  | none => rest
  | some f => f.file :: rest

/-- An action of a call that has listed its files. -/
def InCall (r : ι) (a : Action ι) : Prop := a.replay = some r ∧ a ≠ .list r

/-- A call of a replay, from the state in which it lists the files. -/
def Call (s : State ι) (r : ι) (as : List (Action ι)) (t : State ι) : Prop :=
  (failOpen ι).run s (.list r :: as) = some t ∧ ∀ a ∈ as, InCall r a

/-- A step of a replay, with all that it requires and does. -/
inductive Advances (s : State ι) (r : ι) : Action ι → State ι → Prop
  | listNone (hidle : ¬ Running s r) (hfiles : pendingFiles s.dir = []) :
      Advances s r (.list r) (setPhase s r (.finished ⟨0, 0, 0⟩))
  | list (hidle : ¬ Running s r) (hfiles : pendingFiles s.dir ≠ []) :
      Advances s r (.list r) (setPhase s r
        (.running ⟨(pendingFiles s.dir).length, 0, 0⟩ (pendingFiles s.dir) none))
  | read {result : ReplayResult} {file : String} {rest : List String}
      {lines : List FallbackLine} (hrun : s.replays r = .running result (file :: rest) none)
      (hlines : s.dir.lookup file = some lines) :
      Advances s r (.read r)
        (setPhase s r (.running result rest (some ⟨file, lines, lines, [], [], 0, 0⟩)))
  | readError {result : ReplayResult} {file : String} {rest : List String}
      (hrun : s.replays r = .running result (file :: rest) none)
      (hlines : s.dir.lookup file = none) :
      Advances s r (.read r) (setPhase s r .errored)
  | send {result : ReplayResult} {rest : List String} {f : FileReplay} {l : FallbackLine}
      {todo : List FallbackLine} (hrun : s.replays r = .running result rest (some f))
      (htodo : f.todo = l :: todo)
      (hroom : f.flights.length + f.failing.length < replayConcurrency) :
      Advances s r (.send r) (setPhase s r (.running result rest
        (some { f with todo := todo, flights := l :: f.flights })))
  | ack {id : ℕ} {result : ReplayResult} {rest : List String} {f : FileReplay}
      {l : FallbackLine} (hrun : s.replays r = .running result rest (some f))
      (hl : f.flights.find? (hasId id) = some l) :
      Advances s r (.ack r id)
        { setPhase s r (.running result rest
            (some { f with
              flights := f.flights.eraseP (hasId id),
              accepted := f.accepted + 1 })) with
          acked := l.id :: s.acked }
  | fail {id : ℕ} {result : ReplayResult} {rest : List String} {f : FileReplay}
      {l : FallbackLine} (hrun : s.replays r = .running result rest (some f))
      (hl : f.flights.find? (hasId id) = some l) :
      Advances s r (.fail r id)
        (setPhase s r (.running result rest
          (some { f with flights := f.flights.eraseP (hasId id), failing := l :: f.failing })))
  | reappend {id : ℕ} (now : Instant) {result : ReplayResult} {rest : List String}
      {f : FileReplay} {l : FallbackLine} (hrun : s.replays r = .running result rest (some f))
      (hl : f.failing.find? (hasId id) = some l) :
      Advances s r (.reappend r id now)
        { setPhase s r (.running result rest
            (some { f with failing := f.failing.eraseP (hasId id), failed := f.failed + 1 })) with
          dir := s.dir.append now l }
  | rename {result : ReplayResult} {rest : List String} {f : FileReplay}
      {dir : FallbackDirectory} (hrun : s.replays r = .running result rest (some f))
      (hdone : f.settled = true ∧ f.failed = 0)
      (hmove : s.dir.move f.file (doneName f.file) = some dir) :
      Advances s r (.rename r) { setPhase s r (.running (result.add f) rest none) with dir := dir }
  | renameError {result : ReplayResult} {rest : List String} {f : FileReplay}
      (hrun : s.replays r = .running result rest (some f))
      (hdone : f.settled = true ∧ f.failed = 0)
      (hmove : s.dir.move f.file (doneName f.file) = none) :
      Advances s r (.rename r) (setPhase s r .errored)
  | keep {result : ReplayResult} {rest : List String} {f : FileReplay}
      (hrun : s.replays r = .running result rest (some f))
      (hdone : f.settled = true ∧ f.failed ≠ 0) :
      Advances s r (.keep r) (setPhase s r (.running (result.add f) rest none))
  | finish {result : ReplayResult} (hrun : s.replays r = .running result [] none) :
      Advances s r (.finish r) (setPhase s r (.finished result))
  | abort (hrun : Running s r) : Advances s r (.abort r) (setPhase s r .errored)

/-- A step of a replay does what its action does. -/
theorem advances_of_step {s t : State ι} {r : ι} {a : Action ι} (ha : a.replay = some r)
    (h : step s a = some t) : Advances s r a t := by
  cases a with
  | append now record => cases ha
  | list r' =>
      obtain rfl := Option.some.inj ha
      simp only [step] at h
      split at h
      · cases h
      · rename_i hidle
        have hnot : ¬ Running s r' := by
          rintro ⟨result, rest, current, hrun⟩
          exact hidle _ _ _ hrun
        split at h
        · rename_i hfiles
          obtain rfl := Option.some.inj h
          exact .listNone hnot hfiles
        · rename_i hfiles
          obtain rfl := Option.some.inj h
          exact .list hnot hfiles
  | read r' =>
      obtain rfl := Option.some.inj ha
      simp only [step] at h
      split at h
      · rename_i hrun
        split at h
        · rename_i hlines
          obtain rfl := Option.some.inj h
          exact .readError hrun hlines
        · rename_i hlines
          obtain rfl := Option.some.inj h
          exact .read hrun hlines
      · cases h
  | send r' =>
      obtain rfl := Option.some.inj ha
      simp only [step] at h
      split at h
      · rename_i hcur
        split at h
        · cases h
        · rename_i htodo
          split_ifs at h with hroom
          obtain rfl := Option.some.inj h
          exact .send (current_eq_some.1 hcur) htodo hroom
      · cases h
  | ack r' id =>
      obtain rfl := Option.some.inj ha
      simp only [step] at h
      split at h
      · rename_i hcur
        obtain ⟨l, hl, rfl⟩ := Option.map_eq_some_iff.1 h
        exact .ack (current_eq_some.1 hcur) hl
      · cases h
  | fail r' id =>
      obtain rfl := Option.some.inj ha
      simp only [step] at h
      split at h
      · rename_i hcur
        obtain ⟨l, hl, rfl⟩ := Option.map_eq_some_iff.1 h
        exact .fail (current_eq_some.1 hcur) hl
      · cases h
  | reappend r' id now =>
      obtain rfl := Option.some.inj ha
      simp only [step] at h
      split at h
      · rename_i hcur
        obtain ⟨l, hl, rfl⟩ := Option.map_eq_some_iff.1 h
        exact .reappend now (current_eq_some.1 hcur) hl
      · cases h
  | rename r' =>
      obtain rfl := Option.some.inj ha
      simp only [step] at h
      split at h
      · rename_i hcur
        split_ifs at h with hdone
        split at h
        · rename_i hmove
          obtain rfl := Option.some.inj h
          exact .renameError (current_eq_some.1 hcur) hdone hmove
        · rename_i hmove
          obtain rfl := Option.some.inj h
          exact .rename (current_eq_some.1 hcur) hdone hmove
      · cases h
  | keep r' =>
      obtain rfl := Option.some.inj ha
      simp only [step] at h
      split at h
      · rename_i hcur
        split_ifs at h with hdone
        obtain rfl := Option.some.inj h
        exact .keep (current_eq_some.1 hcur) hdone
      · cases h
  | finish r' =>
      obtain rfl := Option.some.inj ha
      simp only [step] at h
      split at h
      · rename_i hrun
        obtain rfl := Option.some.inj h
        exact .finish hrun
      · cases h
  | abort r' =>
      obtain rfl := Option.some.inj ha
      simp only [step] at h
      split at h
      · rename_i hrun
        obtain rfl := Option.some.inj h
        exact .abort ⟨_, _, _, hrun⟩
      · cases h

/-- The phase that a step gives its replay. -/
@[simp] theorem replays_setPhase (s : State ι) (r : ι) (phase : Phase) :
    (setPhase s r phase).replays r = phase := by
  simp [setPhase]

@[simp] theorem replays_setPhase_dir (s : State ι) (r : ι) (phase : Phase)
    (dir : FallbackDirectory) : { setPhase s r phase with dir := dir }.replays r = phase :=
  replays_setPhase s r phase

@[simp] theorem replays_setPhase_acked (s : State ι) (r : ι) (phase : Phase) (acked : List ℕ) :
    { setPhase s r phase with acked := acked }.replays r = phase :=
  replays_setPhase s r phase

theorem not_running_setPhase (s : State ι) (r : ι) {phase : Phase}
    (h : ∀ result rest current, phase ≠ .running result rest current) :
    ¬ Running (setPhase s r phase) r := by
  rintro ⟨result, rest, current, hrun⟩
  rw [replays_setPhase] at hrun
  exact h result rest current hrun

theorem not_running_finished (s : State ι) (r : ι) (result : ReplayResult) :
    ¬ Running (setPhase s r (.finished result)) r := by
  apply not_running_setPhase
  intro _ _ _ h
  cases h

theorem not_running_errored (s : State ι) (r : ι) : ¬ Running (setPhase s r .errored) r := by
  apply not_running_setPhase
  intro _ _ _ h
  cases h

/-- The state once a replay has listed the files. -/
def listed (s : State ι) (r : ι) : State ι :=
  setPhase s r
    (if pendingFiles s.dir = [] then .finished ⟨0, 0, 0⟩
      else .running ⟨(pendingFiles s.dir).length, 0, 0⟩ (pendingFiles s.dir) none)

/-- A replay that is not running starts by listing the files. -/
theorem step_list {s : State ι} {r : ι} (h : ¬ Running s r) :
    step s (.list r) = some (listed s r) := by
  simp only [step, listed]
  split
  · rename_i hrun
    exact absurd ⟨_, _, _, hrun⟩ h
  · split
    · rename_i hfiles
      rw [if_pos hfiles]
    · rename_i hfiles
      rw [if_neg hfiles]

end FallbackReplay

end AdPipeline.Collector
