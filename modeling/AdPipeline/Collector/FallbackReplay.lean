import AdPipeline.Collector.FallbackDirectory
import AdPipeline.Lib.Transition

/-!
# The fail-open path

Failing publishes append records to the fallback directory while replays, each in steps of its own,
list the pending files, read one after the other, publish the lines read and rename a file all of
whose publishes succeeded. A publish of a replay that fails appends its record again.

`Accounted` says that no record is lost. It holds in every state of a run as long as a file is
renamed only when each line the replay did not read is acknowledged or pending elsewhere
(`accounted_of_renameSafe`), which nothing in the code makes sure of.
-/

namespace AdPipeline.Collector

namespace FallbackReplay

open FallbackDirectory

/-- The replay of one file: the lines read, those to be published, those in flight, those whose
publish has failed and whose record is to be appended again, and the outcomes counted so far. -/
structure FileReplay where
  file : String
  read : List FallbackLine
  todo : List FallbackLine
  flights : List FallbackLine
  failing : List FallbackLine
  accepted : ℕ
  failed : ℕ

/-- The result of a replay. -/
structure ReplayResult where
  files : ℕ
  replayed : ℕ
  failed : ℕ
deriving DecidableEq

/-- How far a replay has come. While it runs, the result adds up the files done. -/
inductive Phase where
  | idle
  | running (result : ReplayResult) (rest : List String) (current : Option FileReplay)
  | finished (result : ReplayResult)
  | errored

/-- The directory, the numbers of the records acknowledged, and the replays. -/
structure State (ι : Type) where
  dir : FallbackDirectory
  next : ℕ
  acked : List ℕ
  replays : ι → Phase

inductive Action (ι : Type) where
  /-- A publish outside the replays has failed. -/
  | append (now : Instant) (record : FallbackRecord)
  | list (r : ι)
  | read (r : ι)
  | send (r : ι)
  | ack (r : ι) (id : ℕ)
  | fail (r : ι) (id : ℕ)
  | reappend (r : ι) (id : ℕ) (now : Instant)
  | rename (r : ι)
  | keep (r : ι)
  | finish (r : ι)
  | abort (r : ι)

variable {ι : Type} [DecidableEq ι]

/-- The concurrency of the publishes of one file. -/
def replayConcurrency : ℕ := 32

def start : State ι where
  dir := ∅
  next := 0
  acked := []
  replays := fun _ => .idle

/-- The file a replay is at, with its result so far and the files left. -/
def current (s : State ι) (r : ι) : Option (ReplayResult × List String × FileReplay) :=
  match s.replays r with
  | .running result rest (some f) => some (result, rest, f)
  | _ => none

def setPhase (s : State ι) (r : ι) (phase : Phase) : State ι :=
  { s with replays := Function.update s.replays r phase }

/-- Is the line one with this number? -/
def hasId (id : ℕ) (l : FallbackLine) : Bool := l.id == id

/-- All publishes of the file have an outcome. -/
def FileReplay.settled (f : FileReplay) : Bool :=
  f.todo.isEmpty && f.flights.isEmpty && f.failing.isEmpty

/-- The result once a file is done. -/
def ReplayResult.add (result : ReplayResult) (f : FileReplay) : ReplayResult :=
  { result with
    replayed := result.replayed + f.accepted
    failed := result.failed + f.failed }

def step (s : State ι) : Action ι → Option (State ι)
  | .append now record =>
    some { s with dir := s.dir.append now ⟨s.next, record⟩, next := s.next + 1 }
  | .list r =>
    match s.replays r with
    | .running _ _ _ => none
    | _ =>
      match pendingFiles s.dir with
      | [] => some (setPhase s r (.finished ⟨0, 0, 0⟩))
      | files => some (setPhase s r (.running ⟨files.length, 0, 0⟩ files none))
  | .read r =>
    match s.replays r with
    | .running result (file :: rest) none =>
      match s.dir.lookup file with
      | none => some (setPhase s r .errored)
      | some lines =>
        some (setPhase s r (.running result rest (some ⟨file, lines, lines, [], [], 0, 0⟩)))
    | _ => none
  | .send r =>
    match current s r with
    | some (result, rest, f) =>
      match f.todo with
      | [] => none
      | l :: todo =>
        if f.flights.length + f.failing.length < replayConcurrency then
          some (setPhase s r (.running result rest
            (some { f with todo := todo, flights := l :: f.flights })))
        else none
    | none => none
  | .ack r id =>
    match current s r with
    | some (result, rest, f) =>
      (f.flights.find? (hasId id)).map fun l =>
        { setPhase s r (.running result rest
            (some { f with
              flights := f.flights.eraseP (hasId id),
              accepted := f.accepted + 1 })) with
          acked := l.id :: s.acked }
    | none => none
  | .fail r id =>
    match current s r with
    | some (result, rest, f) =>
      (f.flights.find? (hasId id)).map fun l =>
        setPhase s r (.running result rest
          (some { f with
            flights := f.flights.eraseP (hasId id)
            failing := l :: f.failing }))
    | none => none
  | .reappend r id now =>
    match current s r with
    | some (result, rest, f) =>
      (f.failing.find? (hasId id)).map fun l =>
        { setPhase s r (.running result rest
            (some { f with failing := f.failing.eraseP (hasId id), failed := f.failed + 1 })) with
          dir := s.dir.append now l }
    | none => none
  | .rename r =>
    match current s r with
    | some (result, rest, f) =>
      if f.settled ∧ f.failed = 0 then
        match s.dir.move f.file (doneName f.file) with
        | none => some (setPhase s r .errored)
        | some dir => some { setPhase s r (.running (result.add f) rest none) with dir := dir }
      else none
    | none => none
  | .keep r =>
    match current s r with
    | some (result, rest, f) =>
      if f.settled ∧ f.failed ≠ 0 then some (setPhase s r (.running (result.add f) rest none))
      else none
    | none => none
  | .finish r =>
    match s.replays r with
    | .running result [] none => some (setPhase s r (.finished result))
    | _ => none
  | .abort r =>
    match s.replays r with
    | .running _ _ _ => some (setPhase s r .errored)
    | _ => none

/-- The fail-open path with replays named by `ι`. -/
def failOpen (ι : Type) [DecidableEq ι] : Lib.System (State ι) (Action ι) := ⟨start, step⟩

/-! ## What a step does -/

omit [DecidableEq ι] in
theorem current_eq_some {s : State ι} {r : ι} {result : ReplayResult} {rest : List String}
    {f : FileReplay} :
    current s r = some (result, rest, f) ↔ s.replays r = .running result rest (some f) := by
  unfold current
  split
  · rename_i h
    rw [h]
    simp
  · rename_i h
    constructor
    · intro hnone
      cases hnone
    · intro hrun
      exact absurd hrun (h _ _ _)

/-- What each action does, with the guards that matter below. A step that is over with a file leaves
the replay in a phase without one. -/
inductive Steps (s : State ι) : Action ι → State ι → Prop
  | append (now : Instant) (record : FallbackRecord) :
      Steps s (.append now record)
        { s with dir := s.dir.append now ⟨s.next, record⟩, next := s.next + 1 }
  | list (r : ι) {phase : Phase} (hfile : ∀ result rest f, phase ≠ .running result rest (some f)) :
      Steps s (.list r) (setPhase s r phase)
  | read {r : ι} {result : ReplayResult} {file : String} {rest : List String}
      {lines : List FallbackLine} (hrun : s.replays r = .running result (file :: rest) none)
      (hlines : s.dir.lookup file = some lines) :
      Steps s (.read r)
        (setPhase s r (.running result rest (some ⟨file, lines, lines, [], [], 0, 0⟩)))
  /-- The file is gone. -/
  | readError (r : ι) : Steps s (.read r) (setPhase s r .errored)
  | send {r : ι} {result : ReplayResult} {rest : List String} {f : FileReplay} {l : FallbackLine}
      {todo : List FallbackLine} (hrun : s.replays r = .running result rest (some f))
      (htodo : f.todo = l :: todo)
      (hroom : f.flights.length + f.failing.length < replayConcurrency) :
      Steps s (.send r) (setPhase s r (.running result rest
        (some { f with todo := todo, flights := l :: f.flights })))
  | ack {r : ι} {id : ℕ} {result : ReplayResult} {rest : List String} {f : FileReplay}
      {l : FallbackLine} (hrun : s.replays r = .running result rest (some f))
      (hl : f.flights.find? (hasId id) = some l) :
      Steps s (.ack r id)
        { setPhase s r (.running result rest
            (some { f with
              flights := f.flights.eraseP (hasId id),
              accepted := f.accepted + 1 })) with
          acked := l.id :: s.acked }
  | fail {r : ι} {id : ℕ} {result : ReplayResult} {rest : List String} {f : FileReplay}
      {l : FallbackLine} (hrun : s.replays r = .running result rest (some f))
      (hl : f.flights.find? (hasId id) = some l) :
      Steps s (.fail r id)
        (setPhase s r (.running result rest
          (some { f with flights := f.flights.eraseP (hasId id), failing := l :: f.failing })))
  | reappend {r : ι} {id : ℕ} (now : Instant) {result : ReplayResult} {rest : List String}
      {f : FileReplay} {l : FallbackLine} (hrun : s.replays r = .running result rest (some f))
      (hl : f.failing.find? (hasId id) = some l) :
      Steps s (.reappend r id now)
        { setPhase s r (.running result rest
            (some { f with failing := f.failing.eraseP (hasId id), failed := f.failed + 1 })) with
          dir := s.dir.append now l }
  | rename {r : ι} {result : ReplayResult} {rest : List String} {f : FileReplay}
      {dir : FallbackDirectory} (hcur : current s r = some (result, rest, f))
      (hdone : f.settled = true ∧ f.failed = 0)
      (hmove : s.dir.move f.file (doneName f.file) = some dir) :
      Steps s (.rename r) { setPhase s r (.running (result.add f) rest none) with dir := dir }
  /-- The file is gone, or there is one with the new name. -/
  | renameError {r : ι} {result : ReplayResult} {rest : List String} {f : FileReplay}
      (hcur : current s r = some (result, rest, f))
      (hmove : s.dir.move f.file (doneName f.file) = none) :
      Steps s (.rename r) (setPhase s r .errored)
  | keep (r : ι) {result : ReplayResult} {rest : List String} :
      Steps s (.keep r) (setPhase s r (.running result rest none))
  | finish (r : ι) {result : ReplayResult} : Steps s (.finish r) (setPhase s r (.finished result))
  | abort (r : ι) : Steps s (.abort r) (setPhase s r .errored)

/-- A step does what its action does. -/
theorem steps_of_step {s t : State ι} {a : Action ι} (h : step s a = some t) : Steps s a t := by
  cases a with
  | append now record =>
      obtain rfl := Option.some.inj h
      exact .append now record
  | list r =>
      simp only [step] at h
      split at h
      · cases h
      · split at h <;> obtain rfl := Option.some.inj h <;> exact .list r (by simp)
  | read r =>
      simp only [step] at h
      split at h
      · rename_i hrun
        split at h <;> obtain rfl := Option.some.inj h
        · exact .readError r
        · rename_i hlines
          exact .read hrun hlines
      · cases h
  | send r =>
      simp only [step] at h
      split at h
      · rename_i hcur
        split at h
        · cases h
        · rename_i htodo
          split_ifs at h with hroom
          obtain rfl := Option.some.inj h
          exact .send (current_eq_some.1 hcur) htodo hroom
      · cases h
  | ack r id =>
      simp only [step] at h
      split at h
      · rename_i hcur
        obtain ⟨l, hl, rfl⟩ := Option.map_eq_some_iff.1 h
        exact .ack (current_eq_some.1 hcur) hl
      · cases h
  | fail r id =>
      simp only [step] at h
      split at h
      · rename_i hcur
        obtain ⟨l, hl, rfl⟩ := Option.map_eq_some_iff.1 h
        exact .fail (current_eq_some.1 hcur) hl
      · cases h
  | reappend r id now =>
      simp only [step] at h
      split at h
      · rename_i hcur
        obtain ⟨l, hl, rfl⟩ := Option.map_eq_some_iff.1 h
        exact .reappend now (current_eq_some.1 hcur) hl
      · cases h
  | rename r =>
      simp only [step] at h
      split at h
      · rename_i hcur
        split_ifs at h with hdone
        split at h <;> obtain rfl := Option.some.inj h
        · rename_i hmove
          exact .renameError hcur hmove
        · rename_i hmove
          exact .rename hcur hdone hmove
      · cases h
  | keep r =>
      simp only [step] at h
      split at h
      · split_ifs at h
        obtain rfl := Option.some.inj h
        exact .keep r
      · cases h
  | finish r =>
      simp only [step] at h
      split at h
      · obtain rfl := Option.some.inj h
        exact .finish r
      · cases h
  | abort r =>
      simp only [step] at h
      split at h
      · obtain rfl := Option.some.inj h
        exact .abort r
      · cases h

/-! ## What a replay still has to account for -/

/-- The lines of a file replay without an outcome. -/
def FileReplay.open (f : FileReplay) : List FallbackLine := f.todo ++ f.flights ++ f.failing

/-- Every line read is still open or acknowledged, unless a publish has failed. -/
structure FileReplay.Covered (f : FileReplay) (acked : List ℕ) (next : ℕ) : Prop where
  bounded : ∀ l ∈ f.open, l.id < next
  read : ∀ l ∈ f.read, l.id ∈ f.open.map FallbackLine.id ∨ l.id ∈ acked ∨ 0 < f.failed

/-- What holds of every state. -/
structure Inv (s : State ι) : Prop where
  bounded : ∀ name, ∀ l ∈ s.dir.linesOf name, l.id < s.next
  covered : ∀ r result rest f, s.replays r = .running result rest (some f) →
    f.Covered s.acked s.next

theorem FileReplay.Covered.mono {f : FileReplay} {acked acked' : List ℕ} {next next' : ℕ}
    (h : f.Covered acked next) (hacked : ∀ id ∈ acked, id ∈ acked') (hnext : next ≤ next') :
    f.Covered acked' next' where
  bounded l hl := lt_of_lt_of_le (h.bounded l hl) hnext
  read l hl := (h.read l hl).imp_right (Or.imp_left (hacked _))

/-- An acknowledged line is no longer open. -/
theorem FileReplay.Covered.ack {f : FileReplay} {acked : List ℕ} {next : ℕ}
    (h : f.Covered acked next) {p : FallbackLine → Bool} {l : FallbackLine}
    (hl : f.flights.find? p = some l) (n : ℕ) :
    FileReplay.Covered { f with flights := f.flights.eraseP p, accepted := n } (l.id :: acked) next
    where
  bounded x hx := by
    refine h.bounded x ?_
    simp only [FileReplay.open, List.mem_append] at hx ⊢
    exact hx.imp_left (Or.imp_right List.mem_of_mem_eraseP)
  read x hx := by
    rcases h.read x hx with hid | hid | hid
    · obtain ⟨y, hy, hyx⟩ := List.mem_map.1 hid
      by_cases hyl : y = l
      · exact .inr (.inl (by simp [← hyx, hyl]))
      · refine .inl (List.mem_map.2 ⟨y, ?_, hyx⟩)
        simp only [FileReplay.open, List.mem_append] at hy ⊢
        refine hy.imp_left (Or.imp_right fun hy => ?_)
        exact (List.mem_cons.1 ((Lib.perm_cons_eraseP hl).mem_iff.1 hy)).resolve_left hyl
    · exact .inr (.inl (List.mem_cons_of_mem _ hid))
    · exact .inr (.inr hid)

/-- A line whose publish has failed is still open. -/
theorem FileReplay.Covered.fail {f : FileReplay} {acked : List ℕ} {next : ℕ}
    (h : f.Covered acked next) {p : FallbackLine → Bool} {l : FallbackLine}
    (hl : f.flights.find? p = some l) :
    FileReplay.Covered { f with flights := f.flights.eraseP p, failing := l :: f.failing } acked
      next := by
  have hopen : ∀ x, x ∈ f.todo ++ f.flights.eraseP p ++ l :: f.failing ↔ x ∈ f.open := by
    intro x
    have := (Lib.perm_cons_eraseP hl).mem_iff (a := x)
    simp only [FileReplay.open, List.mem_append, List.mem_cons] at this ⊢
    tauto
  refine ⟨fun x hx => h.bounded x ((hopen x).1 hx), fun x hx => ?_⟩
  refine (h.read x hx).imp_left fun hid => ?_
  obtain ⟨y, hy, hyx⟩ := List.mem_map.1 hid
  exact List.mem_map.2 ⟨y, (hopen y).2 hy, hyx⟩

/-- Once a failure is counted nothing else is asked of the lines read. -/
theorem FileReplay.Covered.reappend {f : FileReplay} {acked : List ℕ} {next : ℕ}
    (h : f.Covered acked next) (p : FallbackLine → Bool) :
    FileReplay.Covered { f with failing := f.failing.eraseP p, failed := f.failed + 1 } acked next
    where
  bounded x hx := by
    refine h.bounded x ?_
    simp only [FileReplay.open, List.mem_append] at hx ⊢
    exact hx.imp_right List.mem_of_mem_eraseP
  read _ _ := .inr (.inr (Nat.succ_pos _))

/-- A step that changes one replay, adds acknowledgements and bounded lines. -/
theorem Inv.update {s : State ι} (h : Inv s) {dir : FallbackDirectory} {next : ℕ}
    {acked : List ℕ} (r : ι) (phase : Phase)
    (hdir : ∀ name, ∀ l ∈ dir.linesOf name, l.id < next) (hnext : s.next ≤ next)
    (hacked : ∀ id ∈ s.acked, id ∈ acked)
    (hphase : ∀ result rest f, phase = .running result rest (some f) → f.Covered acked next) :
    Inv { dir := dir, next := next, acked := acked,
          replays := Function.update s.replays r phase } where
  bounded := hdir
  covered := by
    intro r' result rest f hf
    by_cases hr : r' = r
    · subst hr
      exact hphase result rest f ((Function.update_self r' phase s.replays).symm.trans hf)
    · have hs := (Function.update_of_ne hr phase s.replays).symm.trans hf
      exact (h.covered r' result rest f hs).mono hacked hnext

omit [DecidableEq ι] in
/-- Lines appended are bounded when the new one is. -/
theorem Inv.bounded_append {s : State ι} (h : Inv s) {next : ℕ} (hnext : s.next ≤ next)
    (now : Instant) {line : FallbackLine} (hline : line.id < next) :
    ∀ name, ∀ l ∈ (s.dir.append now line).linesOf name, l.id < next := by
  intro name l hl
  rcases mem_linesOf_append.1 hl with hl | ⟨-, rfl⟩
  · exact lt_of_lt_of_le (h.bounded name l hl) hnext
  · exact hline

omit [DecidableEq ι] in
theorem Inv.start : Inv (start : State ι) where
  bounded := by
    intro name l hl
    cases hl
  covered := by
    intro r result rest f hf
    cases hf

omit [DecidableEq ι] in
/-- A renamed file's lines stay where they are bounded. -/
theorem Inv.bounded_move {s : State ι} (h : Inv s) {dir : FallbackDirectory} {name : String}
    (hmove : s.dir.move name (doneName name) = some dir) :
    ∀ other, ∀ l ∈ dir.linesOf other, l.id < s.next := by
  obtain ⟨-, hsource, htarget, hother⟩ := move_eq_some hmove
  intro other l hl
  by_cases ht : other = doneName name
  · rw [ht, htarget] at hl
    exact h.bounded _ l hl
  · by_cases hs : other = name
    · rw [hs, hsource (fun heq => ht (hs.trans heq.symm))] at hl
      cases hl
    · rw [hother other hs ht] at hl
      exact h.bounded _ l hl

/-- A replay that is at a file covers its lines. -/
theorem Inv.replace {s : State ι} (h : Inv s) {dir : FallbackDirectory} {acked : List ℕ} (r : ι)
    {result : ReplayResult} {rest : List String} {f : FileReplay}
    (hdir : ∀ name, ∀ l ∈ dir.linesOf name, l.id < s.next) (hacked : ∀ id ∈ s.acked, id ∈ acked)
    (hcov : f.Covered acked s.next) :
    Inv { dir := dir, next := s.next, acked := acked,
          replays := Function.update s.replays r (.running result rest (some f)) } := by
  refine h.update r _ hdir (le_refl _) hacked ?_
  intro result' rest' f' hf
  simp only [Phase.running.injEq, Option.some.injEq] at hf
  obtain ⟨-, -, rfl⟩ := hf
  exact hcov

/-- A replay that is at no file has nothing to cover. -/
theorem Inv.leave {s : State ι} (h : Inv s) (r : ι) {phase : Phase}
    (hfile : ∀ result rest f, phase ≠ .running result rest (some f)) : Inv (setPhase s r phase) :=
  h.update r phase h.bounded (le_refl _) (fun _ hid => hid)
    fun result rest f hf => absurd hf (hfile result rest f)

theorem Inv.step {s t : State ι} {a : Action ι} (h : Inv s) (hst : step s a = some t) : Inv t := by
  cases steps_of_step hst with
  | append now record =>
      exact
        { bounded := h.bounded_append (Nat.le_succ _) now (Nat.lt_succ_self _)
          covered := fun r result rest f hf =>
            (h.covered r result rest f hf).mono (fun _ hid => hid) (Nat.le_succ _) }
  | list r hfile => exact h.leave r hfile
  | @read r result file rest lines hrun hlines =>
      refine h.replace r h.bounded (fun _ hid => hid) ⟨fun l hl => h.bounded file l ?_, ?_⟩
      · simpa [FileReplay.open, linesOf, hlines] using hl
      · exact fun l hl => .inl (by simpa [FileReplay.open] using ⟨l, hl, rfl⟩)
  | readError r => exact h.leave r (by simp)
  | @send r result rest f l todo hrun htodo hroom =>
      have hcov := h.covered r result rest f hrun
      have hopen : ∀ x, x ∈ todo ++ l :: f.flights ++ f.failing ↔ x ∈ f.open := by
        intro x
        simp only [FileReplay.open, htodo, List.mem_append, List.mem_cons]
        tauto
      refine h.replace r h.bounded (fun _ hid => hid)
        ⟨fun x hx => hcov.bounded x ((hopen x).1 hx), fun x hx => ?_⟩
      refine (hcov.read x hx).imp_left fun hid => ?_
      obtain ⟨y, hy, hyx⟩ := List.mem_map.1 hid
      exact List.mem_map.2 ⟨y, (hopen y).2 hy, hyx⟩
  | @ack r id result rest f l hrun hl =>
      have hcov := h.covered r result rest f hrun
      exact h.replace r h.bounded (fun _ hid => List.mem_cons_of_mem _ hid) (hcov.ack hl _)
  | @fail r id result rest f l hrun hl =>
      have hcov := h.covered r result rest f hrun
      exact h.replace r h.bounded (fun _ hid => hid) (hcov.fail hl)
  | @reappend r id now result rest f l hrun hl =>
      have hcov := h.covered r result rest f hrun
      have hid : l.id < s.next := by
        refine hcov.bounded l (List.mem_append_right _ ?_)
        exact List.mem_of_find?_eq_some hl
      exact h.replace r (h.bounded_append (le_refl _) now hid) (fun _ hid => hid)
        (hcov.reappend _)
  | @rename r result rest f dir hcur hdone hmove =>
      exact h.update r _ (h.bounded_move hmove) (le_refl _) (fun _ hid => hid) (by simp)
  | @renameError r result rest f hcur hmove => exact h.leave r (by simp)
  | keep r => exact h.leave r (by simp)
  | finish r => exact h.leave r (by simp)
  | abort r => exact h.leave r (by simp)

/-! ## No record is lost -/

/-- Every record ever appended is acknowledged by Kafka or a line of a pending file. -/
def Accounted (s : State ι) : Prop := ∀ id < s.next, id ∈ s.acked ∨ s.dir.Pending id

/-- A rename that goes through leaves no line behind: each line of the file that the replay did not
read is acknowledged by then, or pending in another file. -/
def RenameSafe (s : State ι) : Action ι → Prop
  | .rename r =>
    ∀ result rest f, current s r = some (result, rest, f) →
      (s.dir.move f.file (doneName f.file)).isSome = true →
        ∀ l ∈ s.dir.linesOf f.file, l.id ∉ f.read.map FallbackLine.id →
          l.id ∈ s.acked ∨ s.dir.PendingBeside f.file l.id
  | _ => True

omit [DecidableEq ι] in
/-- A file to which nothing was appended since it was read can be renamed. -/
theorem renameSafe_of_linesOf_eq_read {s : State ι} {r : ι}
    (h : ∀ result rest f, current s r = some (result, rest, f) → s.dir.linesOf f.file = f.read) :
    RenameSafe s (.rename r) := by
  intro result rest f hcur _ l hl hread
  rw [h result rest f hcur] at hl
  exact absurd (List.mem_map_of_mem hl) hread

omit [DecidableEq ι] in
/-- Acknowledgements and pending records are only added. -/
theorem Accounted.mono {s t : State ι} (h : Accounted s) (hnext : t.next = s.next)
    (hacked : ∀ id ∈ s.acked, id ∈ t.acked) (hdir : ∀ id, s.dir.Pending id → t.dir.Pending id) :
    Accounted t := by
  intro id hid
  rw [hnext] at hid
  exact (h id hid).imp (hacked id) (hdir id)

/-- When a file whose publishes have all been acknowledged is renamed, what is lost are the unread
lines that are neither acknowledged nor pending elsewhere. -/
theorem accounted_rename_iff {s : State ι} (h : Inv s) (ha : Accounted s) {r : ι}
    {result : ReplayResult} {rest : List String} {f : FileReplay} {dir : FallbackDirectory}
    {phase : Phase} (hcur : current s r = some (result, rest, f))
    (hguard : f.settled = true ∧ f.failed = 0)
    (hmove : s.dir.move f.file (doneName f.file) = some dir) :
    Accounted { setPhase s r phase with dir := dir } ↔ RenameSafe s (.rename r) := by
  have hcov := h.covered r result rest f (current_eq_some.1 hcur)
  -- the lines read have no open publish and no failed one
  have hread : ∀ l ∈ f.read, l.id ∈ s.acked := by
    intro l hl
    have hsettled := hguard.1
    simp only [FileReplay.settled, Bool.and_eq_true, List.isEmpty_iff] at hsettled
    rcases hcov.read l hl with hopen | hacked | hfailed
    · simp [FileReplay.open, hsettled.1.1, hsettled.1.2, hsettled.2] at hopen
    · exact hacked
    · omega
  constructor
  · intro hacc result' rest' f' hcur' _ l hl _
    obtain ⟨-, -, rfl⟩ := Prod.mk.inj (Option.some.inj (hcur.symm.trans hcur')) |>.imp_right
      Prod.mk.inj
    exact (hacc l.id (h.bounded _ l hl)).imp_right (pending_move_iff hmove).1
  · intro hsafe id hid
    rcases ha id hid with hacked | ⟨name, hname, hmem⟩
    · exact .inl hacked
    · by_cases hfile : name = f.file
      · obtain ⟨l, hl, rfl⟩ := List.mem_map.1 hmem
        rw [hfile] at hl
        by_cases hlr : l.id ∈ f.read.map FallbackLine.id
        · obtain ⟨l', hl', hid'⟩ := List.mem_map.1 hlr
          exact .inl (hid' ▸ hread l' hl')
        · refine (hsafe result rest f hcur ?_ l hl hlr).imp_right (pending_move_iff hmove).2
          rw [hmove]
          rfl
      · exact .inr ((pending_move_iff hmove).2 ⟨name, hfile, hname, hmem⟩)

/-- A step keeps every record accounted for exactly when it is safe. -/
theorem accounted_step_iff {s t : State ι} {a : Action ι} (h : Inv s) (ha : Accounted s)
    (hst : step s a = some t) : Accounted t ↔ RenameSafe s a := by
  -- a step that leaves the directory and the acknowledgements loses nothing
  have hphase : ∀ r phase, Accounted (setPhase s r phase) :=
    fun r phase => ha.mono rfl (fun _ hid => hid) fun _ hp => hp
  cases steps_of_step hst with
  | append now record =>
      refine iff_of_true (fun id hid => ?_) trivial
      rcases Nat.lt_succ_iff_lt_or_eq.1 hid with hid | rfl
      · exact (ha id hid).imp_right fun hp => hp.append now _
      · exact .inr (pending_append_self s.dir now ⟨s.next, record⟩)
  | list r hfile => exact iff_of_true (hphase r _) trivial
  | @read r => exact iff_of_true (hphase r _) trivial
  | readError r => exact iff_of_true (hphase r _) trivial
  | @send r => exact iff_of_true (hphase r _) trivial
  | ack hrun hl =>
      exact iff_of_true
        (ha.mono rfl (fun _ hid => List.mem_cons_of_mem _ hid) fun _ hp => hp) trivial
  | @fail r => exact iff_of_true (hphase r _) trivial
  | reappend now hrun hl =>
      exact iff_of_true (ha.mono rfl (fun _ hid => hid) fun _ hp => hp.append now _) trivial
  | rename hcur hdone hmove => exact accounted_rename_iff h ha hcur hdone hmove
  | @renameError r result rest f hcur hmove =>
      -- the move fails, and nothing changes
      refine iff_of_true (hphase r _) ?_
      intro result' rest' f' hcur' hsome
      obtain ⟨-, -, rfl⟩ := Prod.mk.inj (Option.some.inj (hcur.symm.trans hcur')) |>.imp_right
        Prod.mk.inj
      rw [hmove] at hsome
      cases hsome
  | keep r => exact iff_of_true (hphase r _) trivial
  | finish r => exact iff_of_true (hphase r _) trivial
  | abort r => exact iff_of_true (hphase r _) trivial

/-- In every state of a run all of whose renames are safe, no record is lost, and the next step
loses one exactly when it is an unsafe rename. -/
theorem accounted_of_renameSafe (s : State ι) (hs : (failOpen ι).Reaches RenameSafe s) :
    Accounted s ∧ ∀ a t, step s a = some t → (Accounted t ↔ RenameSafe s a) := by
  have hinv : Inv s := hs.reachable.invariant .start fun _ _ _ hi hst => hi.step hst
  have hacc : Accounted s := by
    refine hs.invariant (fun id hid => absurd hid (Nat.not_lt_zero id)) ?_
    intro s a t hs' ha hok hst
    have hi : Inv s := hs'.reachable.invariant .start fun _ _ _ hi hst => hi.step hst
    exact (accounted_step_iff hi ha hst).2 hok
  exact ⟨hacc, fun a t hst => accounted_step_iff hinv hacc hst⟩

/-- A record is appended, replayed and renamed away after its acknowledgement. -/
theorem accounted_of_renameSafe_replay :
    ∃ s : State Unit, s.acked = [0] ∧ s.dir.keys = ["fallback-19700101-00.jsonl.done"] ∧
      Accounted s := by
  have h0 : (failOpen Unit).Reaches RenameSafe start := .init
  have h1 := h0.take (.append ⟨0⟩ ⟨"ad.click", "r1", "p1"⟩) trivial rfl
  have h2 := h1.take (.list ()) trivial rfl
  have h3 := h2.take (.read ()) trivial rfl
  have h4 := h3.take (.send ()) trivial rfl
  have h5 := h4.take (.ack () 0) trivial rfl
  have h6 := h5.take (.rename ())
    (renameSafe_of_linesOf_eq_read fun _ _ _ hcur => by
      obtain rfl := (Prod.mk.inj (Prod.mk.inj (Option.some.inj hcur)).2).2
      rfl) rfl
  exact ⟨_, rfl, rfl, (accounted_of_renameSafe _ h6).1⟩

/-- A record appended between the reading and the renaming of its file is lost. -/
theorem append_during_replay_lost :
    ¬ ∀ s : State Unit, (failOpen Unit).Reachable s → Accounted s := by
  intro h
  have hreach := Lib.System.reachable_of_run (show (failOpen Unit).run _
    [.append ⟨0⟩ ⟨"ad.click", "r1", "p1"⟩, .list (), .read (),
      .append ⟨0⟩ ⟨"ad.click", "r2", "p2"⟩, .send (), .ack () 0, .rename ()] = some _ from rfl)
  rcases h _ hreach 1 (by decide) with hacked | hpending
  · revert hacked
    decide
  · obtain ⟨name, hkey, hname⟩ := hpending.exists_mem_keys
    obtain rfl : name = "fallback-19700101-00.jsonl.done" := List.mem_singleton.1 hkey
    revert hname
    decide

end FallbackReplay

end AdPipeline.Collector
