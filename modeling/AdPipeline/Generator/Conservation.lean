import AdPipeline.Generator.Books

/-!
# What the emitter sends

Nothing that was routed is lost and nothing is sent twice: with a positive batch size every event
is in a buffer, in a task that has not begun or in one request, and when `close` returns every event
is in a request whose answer was counted. With any other batch size the events that a flush finds in
the buffer are gone.

`Inv` is kept by every step: by what a user does before `close` is called (`Open`), by a flush, and
by the tasks.
-/

namespace AdPipeline.Generator

variable {batchSize : ℤ}

/-! ## Flushing -/

namespace State

/-- With a positive batch size the event buffer becomes tasks. -/
theorem flushBuf_eq (hpos : 0 < batchSize) (s : State) :
    ∃ (tasks : List Task) (nextId : ℕ),
      s.flushBuf batchSize = (({ s with buf := [] } : State).withTasks tasks nextId, true) ∧
      (s.buf = [] → tasks = []) ∧
      ∀ routed pixelBuf spawned, Flow batchSize routed s.buf pixelBuf spawned →
        Flow batchSize routed [] pixelBuf (spawned ++ tasks.map Task.send) := by
  unfold flushBuf
  split_ifs with hbuf
  · refine ⟨[], s.nextId, ?_, fun _ => rfl, fun routed pixelBuf spawned h => ?_⟩
    · rw [← hbuf, withTasks_nil]
    · rw [List.map_nil, List.append_nil, ← hbuf]
      exact h
  · obtain ⟨bs, hslices, hflat, hsize⟩ := Lib.exists_slices hpos s.buf
    obtain ⟨tasks, nextId, heq, hsends⟩ := ({ s with buf := [] } : State).spawnAll_eq (bs.map .post)
    refine ⟨tasks, nextId, ?_, fun h => absurd h hbuf, fun routed pixelBuf spawned h => ?_⟩
    · rw [hslices, ← heq]
    · rw [hsends]
      exact h.flushBuf hflat hsize

variable (batchSize) in
/-- The pixels become tasks. -/
theorem flushPixels_eq (s : State) :
    ∃ (tasks : List Task) (nextId : ℕ),
      s.flushPixels = ({ s with pixelBuf := [] } : State).withTasks tasks nextId ∧
      (s.pixelBuf = [] → tasks = []) ∧
      ∀ routed buf spawned, Flow batchSize routed buf s.pixelBuf spawned →
        Flow batchSize routed buf [] (spawned ++ tasks.map Task.send) := by
  obtain ⟨tasks, nextId, heq, hsends⟩ :=
    ({ s with pixelBuf := [] } : State).spawnAll_eq (s.pixelBuf.map .pixel)
  refine ⟨tasks, nextId, heq, fun h => ?_, fun routed buf spawned hflow => ?_⟩
  · rw [h] at hsends
    exact List.map_eq_nil_iff.1 hsends
  · rw [hsends]
    exact hflow.flushPixels

/-- A flush turns the buffers into tasks, unless sending is paused. -/
theorem flush_eq (hpos : 0 < batchSize) (s : State) (force : Bool) :
    ∃ (buf pixelBuf : List Item) (tasks : List Task) (nextId : ℕ),
      s.flush batchSize force =
        (({ s with buf := buf, pixelBuf := pixelBuf } : State).withTasks tasks nextId, true) ∧
      (s.buf = [] ∧ s.pixelBuf = [] → buf = [] ∧ pixelBuf = [] ∧ tasks = []) ∧
      (force = true → buf = [] ∧ pixelBuf = []) ∧
      ∀ routed spawned, Flow batchSize routed s.buf s.pixelBuf spawned →
        Flow batchSize routed buf pixelBuf (spawned ++ tasks.map Task.send) := by
  unfold flush
  split_ifs with hpaused
  · refine ⟨s.buf, s.pixelBuf, [], s.nextId, by rw [withTasks_nil], fun h => ⟨h.1, h.2, rfl⟩,
      fun hforce => ?_, fun routed spawned h => ?_⟩
    · rw [hforce, Bool.not_true, Bool.and_false] at hpaused
      cases hpaused
    · rwa [List.map_nil, List.append_nil]
  · obtain ⟨tasks, nextId, heq, hnil, hflow⟩ := flushBuf_eq hpos s
    obtain ⟨tasks', nextId', heq', hnil', hflow'⟩ := flushPixels_eq batchSize
      (({ s with buf := [] } : State).withTasks tasks nextId)
    refine ⟨[], [], tasks ++ tasks', nextId', ?_, fun h => ⟨rfl, rfl, ?_⟩, fun _ => ⟨rfl, rfl⟩,
      fun routed spawned h => ?_⟩
    · rw [heq]
      simp only [heq']
      exact congrArg (·, true)
        (withTasks_withTasks { s with buf := [], pixelBuf := [] } tasks tasks' nextId nextId')
    · rw [hnil h.1, hnil' h.2]
      rfl
    · rw [List.map_append, ← List.append_assoc]
      exact hflow' _ _ _ (hflow _ _ _ h)

end State

/-! ## The invariant -/

/-- What holds in every state that is reached with a positive batch size. -/
structure Inv (batchSize : ℤ) (s : State) : Prop where
  flow : Flow batchSize s.routed s.buf s.pixelBuf s.spawned
  tasks : Tasks s.waiting s.sending s.finished s.spawned s.requests
  counted : Counted s.total s.routed s.finished
  shutdown : Shutdown s.close s.unfinished s.inflight s.users s.closing s.buf s.pixelBuf

namespace Inv

variable {s : State}

theorem start : Inv batchSize State.start where
  flow := ⟨rfl, rfl, rfl, fun _ h => absurd h List.not_mem_nil⟩
  tasks := ⟨.refl _, .refl _⟩
  counted := ⟨rfl, rfl⟩
  shutdown := .of_uncalled (List.nil_subset _)

theorem bump (h : Inv batchSize s) {key : String} (hkey : key ∉ State.kept) (n : ℕ) :
    Inv batchSize (s.bump key n) :=
  ⟨h.flow, h.tasks, h.counted.of_kept (s.bump_kept hkey n), h.shutdown⟩

/-- An event is routed before `close` is called. -/
theorem route (h : Inv batchSize s) (hc : s.close = .uncalled) (ev : Collector.Event)
    (allowPixel forge draw : Bool) : Inv batchSize (s.route ev allowPixel forge draw) := by
  obtain ⟨item, heq, hnumber, -⟩ := s.route_eq ev allowPixel forge draw
  have hcounted := (h.counted.route item).of_kept (s.route_total ev allowPixel forge draw)
  rw [heq]
  refine ⟨h.flow.route hnumber, h.tasks, hcounted, ?_⟩
  show Shutdown s.close _ _ _ _ _ _
  rw [hc]
  exact .of_uncalled h.shutdown.tracked

/-- The task of a duplicate is made before `close` is called. -/
theorem delay (h : Inv batchSize s) (hc : s.close = .uncalled) (ev : Collector.Event)
    (allowPixel : Bool) : Inv batchSize (s.delay ev allowPixel) := by
  refine ⟨h.flow, h.tasks, h.counted, ?_⟩
  show Shutdown s.close _ _ _ _ _ _
  rw [hc]
  have hids : (s.delay ev allowPixel).unfinished = s.unfinished ++ [s.nextId] := by
    simp [State.unfinished, State.delay]
  rw [hids]
  apply Shutdown.of_uncalled
  intro i hi
  rcases List.mem_append.1 hi with hi | hi
  · exact List.mem_append_left _ (h.shutdown.tracked hi)
  · exact List.mem_append_right _ hi

end Inv

/-- The invariant, as long as `close` is not called. -/
structure Open (batchSize : ℤ) (s : State) : Prop where
  inv : Inv batchSize s
  uncalled : s.close = .uncalled

namespace Open

variable {s : State}

theorem bump (h : Open batchSize s) {key : String} (hkey : key ∉ State.kept) :
    Open batchSize (s.bump key 1) := ⟨h.inv.bump hkey 1, h.uncalled⟩

theorem bumpIf (h : Open batchSize s) {key : String} (hkey : key ∉ State.kept) (b : Bool) :
    Open batchSize (if b then s.bump key 1 else s) := by
  cases b with
  | false => exact h
  | true => exact h.bump hkey

theorem route (h : Open batchSize s) (ev : Collector.Event) (allowPixel forge draw : Bool) :
    Open batchSize (s.route ev allowPixel forge draw) where
  inv := h.inv.route h.uncalled ev allowPixel forge draw
  uncalled := by
    obtain ⟨item, heq, -⟩ := s.route_eq ev allowPixel forge draw
    rw [heq]
    exact h.uncalled

theorem delay (h : Open batchSize s) (ev : Collector.Event) (allowPixel : Bool) :
    Open batchSize (s.delay ev allowPixel) := ⟨h.inv.delay h.uncalled ev allowPixel, h.uncalled⟩

/-- A call of `emit`: the twin of an impression, the anomalies, the event and its duplicate. -/
theorem emit (h : Open batchSize s) (ev : Collector.Event) (allowPixel : Bool) (d : Draws) :
    Open batchSize (s.emit ev allowPixel d) := by
  unfold State.emit
  dsimp only
  split
  · exact h
  · rename_i twin _
    have htwin : Open batchSize
        (twin.elim s fun twin => (s.bump "a.ssai" 1).route twin false false false) := by
      cases twin with
      | none => exact h
      | some twin => exact (h.bump (by decide)).route twin false false false
    generalize twin.elim s _ = s₁ at htwin ⊢
    split
    · exact htwin
    · rename_i late _
      have hbad := (htwin.bumpIf (by decide : "a.late" ∉ State.kept) d.late.isSome).bumpIf
        (by decide : "a.bad" ∉ State.kept) d.bad.isSome
      have hrouted := hbad.route (d.bad.elim late fun i => badEvent late requiredFields[i])
        allowPixel d.forge d.pixel
      cases d.dup with
      | false => exact hrouted
      | true => exact (hrouted.bump (by decide)).delay _ allowPixel

end Open

namespace Inv

variable {s : State}

/-- The sleep of a duplicate is over. -/
theorem awake (h : Inv batchSize s) (p : Delayed → Bool) :
    Inv batchSize { s with sleeping := s.sleeping.eraseP p } := by
  refine ⟨h.flow, h.tasks, h.counted, h.shutdown.mono ?_⟩
  exact List.append_subset.2 ⟨List.subset_append_left _ _,
    fun i hi => List.mem_append_right _ ((List.eraseP_sublist.map _).subset hi)⟩

/-- A task begins. -/
theorem begin (h : Inv batchSize s) {p : Task → Bool} {t : Task}
    (ht : s.waiting.find? p = some t) :
    Inv batchSize { s with
      waiting := s.waiting.eraseP p
      sending := s.sending ++ [t]
      requests := s.requests ++ [t.send] } := by
  refine ⟨h.flow, h.tasks.begin ht, h.counted, h.shutdown.mono ?_⟩
  have hmove : (s.waiting.eraseP p ++ (s.sending ++ [t])).Perm (s.waiting ++ s.sending) :=
    Lib.perm_move ht
  exact ((hmove.map Task.id).append_right _).subset

/-- A request ends, and its task is done. -/
theorem finish (h : Inv batchSize s) {i : ℕ} {t : Task}
    (ht : s.sending.find? (fun t => t.id == i) = some t) {total : String → ℕ}
    (hsent : total "sent" = s.total "sent")
    (hanswered : total "http.2xx" + total "http.err" =
      s.total "http.2xx" + s.total "http.err" + t.send.items.length) :
    Inv batchSize (({ s with total := total } : State).finish i t) := by
  refine ⟨h.flow, h.tasks.finish ht, h.counted.finish hsent hanswered, h.shutdown.mono ?_⟩
  have hsub : (s.waiting ++ s.sending.eraseP fun t => t.id == i).Sublist (s.waiting ++ s.sending) :=
    List.eraseP_sublist.append_left s.waiting
  exact ((hsub.map Task.id).append_right _).subset

/-- The callback of a task that is done. -/
theorem discard (h : Inv batchSize s) {i : ℕ} (hi : i ∉ s.unfinished) :
    Inv batchSize { s with inflight := s.inflight.erase i } := by
  refine ⟨h.flow, h.tasks, h.counted, ⟨?_, h.shutdown.closed, h.shutdown.gathering,
    h.shutdown.returned⟩⟩
  intro j hj
  have hne : j ≠ i := fun hji => hi (hji ▸ hj)
  exact (List.mem_erase_of_ne hne).2 (h.shutdown.tracked hj)

/-! ## The steps of the loop -/

/-- The tasks of a flush are in flight like the others. -/
theorem tracked_withTasks (h : Inv batchSize s) (tasks : List Task) (nextId : ℕ) :
    (s.withTasks tasks nextId).unfinished ⊆ s.inflight ++ tasks.map Task.id := by
  intro i hi
  rcases State.mem_unfinished_withTasks.1 hi with hi | hi
  · exact List.mem_append_left _ (h.shutdown.tracked hi)
  · exact List.mem_append_right _ hi

/-- The buffers are flushed. After `close` was called there is nothing in them. -/
theorem flush (hpos : 0 < batchSize) (h : Inv batchSize s) (force : Bool) :
    Inv batchSize (s.flush batchSize force).1 := by
  obtain ⟨buf, pixelBuf, tasks, nextId, heq, hnil, -, hflow⟩ := s.flush_eq hpos force
  rw [heq]
  refine ⟨hflow _ _ h.flow, h.tasks.spawn, h.counted, ?_⟩
  by_cases hclose : s.close = .uncalled
  · show Shutdown s.close _ _ _ _ _ _
    rw [hclose]
    exact .of_uncalled (h.tracked_withTasks tasks nextId)
  · obtain ⟨-, -, hbuf, hpixel⟩ := h.shutdown.closed hclose
    obtain ⟨rfl, rfl, rfl⟩ := hnil ⟨hbuf, hpixel⟩
    have hshutdown := h.shutdown
    rw [hbuf, hpixel] at hshutdown
    simpa [State.withTasks, State.unfinished] using hshutdown

/-- The sleep of `flush_loop` ends. -/
theorem tick (hpos : 0 < batchSize) (h : Inv batchSize s) : Inv batchSize (s.tick batchSize) := by
  obtain ⟨hflow, htasks, hcounted, hshutdown⟩ := h.flush hpos false
  exact ⟨hflow, htasks, hcounted, hshutdown⟩

/-- `close` empties the buffers, and finds every task that is not done in flight. -/
theorem callClose (hpos : 0 < batchSize) (h : Inv batchSize s) (husers : s.users = false) :
    Inv batchSize (s.callClose batchSize) := by
  obtain ⟨buf, pixelBuf, tasks, nextId, heq, -, hforce, hflow⟩ :=
    ({ s with closing := true, paused := false } : State).flush_eq hpos true
  obtain ⟨rfl, rfl⟩ := hforce rfl
  rw [State.callClose, heq]
  have htracked := h.tracked_withTasks tasks nextId
  refine ⟨hflow _ _ h.flow, h.tasks.spawn, h.counted, ⟨htracked, fun _ => ⟨husers, rfl, rfl, rfl⟩,
    fun waited hw => ?_, fun hr => ?_⟩⟩
  · dsimp only at hw
    split_ifs at hw
    cases hw
    exact htracked
  · dsimp only at hr
    split_ifs at hr with hempty
    have hnone : s.inflight ++ tasks.map Task.id = [] := hempty
    rw [hnone] at htracked
    exact List.subset_nil.1 htracked

/-- The tasks that `close` waited for are done, and there are no others. -/
theorem gathered (h : Inv batchSize s) {tasks : List ℕ} (hclose : s.close = .gathering tasks)
    (hdone : ∀ i ∈ tasks, i ∉ s.unfinished) : Inv batchSize { s with close := .returned } := by
  have hnone : s.unfinished = [] := by
    apply List.eq_nil_iff_forall_not_mem.2
    intro i hi
    exact hdone i (h.shutdown.gathering tasks hclose hi) hi
  refine ⟨h.flow, h.tasks, h.counted, ⟨h.shutdown.tracked, fun _ => h.shutdown.closed ?_,
    fun _ hg => ?_, fun _ => hnone⟩⟩
  · rw [hclose]
    exact Close.noConfusion
  · cases hg

/-! ## Every step -/

theorem open_of_users (h : Inv batchSize s) (husers : s.users = true) : Open batchSize s := by
  have hshutdown := h.shutdown
  rw [husers] at hshutdown
  exact ⟨h, hshutdown.uncalled_of_users⟩

theorem open_of_closing (h : Inv batchSize s) (hclosing : s.closing = false) :
    Open batchSize s := by
  have hshutdown := h.shutdown
  rw [hclosing] at hshutdown
  exact ⟨h, hshutdown.uncalled_of_closing⟩

/-- Every step keeps the invariant. -/
theorem step (hpos : 0 < batchSize) (h : Inv batchSize s) {a : Action} {t : State}
    (hst : step batchSize s a = some t) : Inv batchSize t := by
  cases a with
  | route ev allowPixel forge draw =>
      obtain ⟨husers, ⟨⟩⟩ := Option.ite_none_right_eq_some.1 hst
      exact ((h.open_of_users husers).route ev allowPixel forge draw).inv
  | emit ev allowPixel d =>
      obtain ⟨husers, ⟨⟩⟩ := Option.ite_none_right_eq_some.1 hst
      exact ((h.open_of_users husers).emit ev allowPixel d).inv
  | wake i draw =>
      obtain ⟨d, -, rfl⟩ := Option.map_eq_some_iff.1 hst
      have hawake := h.awake fun d => d.id == i
      dsimp only
      split_ifs with hclosing
      · exact hawake
      · exact ((hawake.open_of_closing (by simpa using hclosing)).route d.ev d.allowPixel false
          draw).inv
  | cancel i =>
      obtain ⟨d, -, rfl⟩ := Option.map_eq_some_iff.1 hst
      exact h.awake _
  | pause =>
      obtain rfl := Option.some.inj hst
      exact ⟨h.flow, h.tasks, h.counted, h.shutdown⟩
  | resume =>
      obtain rfl := Option.some.inj hst
      exact ⟨h.flow, h.tasks, h.counted, h.shutdown⟩
  | tick =>
      obtain ⟨-, ⟨⟩⟩ := Option.ite_none_right_eq_some.1 hst
      exact h.tick hpos
  | stopFlushing =>
      obtain rfl := Option.some.inj hst
      exact ⟨h.flow, h.tasks, h.counted, h.shutdown⟩
  | stopUsers =>
      obtain rfl := Option.some.inj hst
      have hshutdown := h.shutdown
      exact ⟨h.flow, h.tasks, h.counted, hshutdown.tracked,
        fun hclose => ⟨rfl, (hshutdown.closed hclose).2⟩, hshutdown.gathering, hshutdown.returned⟩
  | begin i =>
      obtain ⟨task, htask, rfl⟩ := Option.map_eq_some_iff.1 hst
      exact h.begin htask
  | answer i status =>
      obtain ⟨task, htask, rfl⟩ := Option.map_eq_some_iff.1 hst
      obtain ⟨total, heq, hsent, hanswered⟩ := s.count_eq task.send status
      rw [heq]
      exact h.finish htask hsent hanswered
  | fail i =>
      obtain ⟨task, htask, rfl⟩ := Option.map_eq_some_iff.1 hst
      obtain ⟨total, heq, hsent, hanswered⟩ := s.bump_answer (.inr rfl)
        task.send.items.length
      rw [heq]
      exact h.finish htask hsent hanswered
  | discard i =>
      obtain ⟨hi, ⟨⟩⟩ := Option.ite_none_left_eq_some.1 hst
      exact h.discard hi
  | close =>
      obtain ⟨⟨husers, -⟩, ⟨⟩⟩ := Option.ite_none_right_eq_some.1 hst
      exact h.callClose hpos husers
  | gathered =>
      cases hclose : s.close with
      | gathering tasks =>
          simp only [Generator.step, hclose] at hst
          obtain ⟨hdone, ⟨⟩⟩ := Option.ite_none_right_eq_some.1 hst
          exact h.gathered hclose hdone
      | uncalled => simp [Generator.step, hclose] at hst
      | returned => simp [Generator.step, hclose] at hst
      | raised => simp [Generator.step, hclose] at hst

theorem of_reachable (hpos : 0 < batchSize) (h : (emitter batchSize).Reachable s) :
    Inv batchSize s :=
  h.invariant .start fun _ _ _ hs hst => hs.step hpos hst

end Inv

/-! ## What holds of every run -/

/-- Nothing is lost and nothing is sent twice. -/
structure Conserved (batchSize : ℤ) (s : State) : Prop where
  /-- Every event passed to `_route` is in a buffer, in a task that has not begun or in a request,
  and in one of them only. -/
  placed : (s.buf ++ s.pixelBuf ++ (s.waiting.flatMap fun t => t.send.items) ++
    s.requests.flatMap Send.items).Perm s.routed
  numbers : (s.routed.map Item.number).Nodup
  /-- The batches, one after the other, and what is in the buffer are what was put there. -/
  order : (Send.batches s.spawned).flatten ++ s.buf = s.routed.filter fun x => !x.pixel
  batches : ∀ batch, .post batch ∈ s.requests →
    (batch.length : ℤ) ≤ batchSize ∧ batch <:+: s.routed.filter fun x => !x.pixel
  /-- When `close` has returned, every event is in a request, and each was counted once. -/
  closed : s.close = .returned →
    s.buf = [] ∧ s.pixelBuf = [] ∧ (s.requests.flatMap Send.items).Perm s.routed ∧
      s.total "sent" = s.total "http.2xx" + s.total "http.err"

namespace Inv

variable {s : State}

/-- The requests are among the tasks that were made. -/
theorem mem_spawned (h : Inv batchSize s) {send : Send} (hsend : send ∈ s.requests) :
    send ∈ s.spawned := by
  apply h.tasks.spawned.subset
  rw [List.append_assoc, List.map_append]
  exact List.mem_append_right _ (h.tasks.requests.subset hsend)

/-- When `close` has returned, every task is done. -/
theorem done (h : Inv batchSize s) (hclose : s.close = .returned) :
    s.waiting = [] ∧ s.sending = [] := by
  have hnone := h.shutdown.returned hclose
  obtain ⟨htasks, -⟩ := List.append_eq_nil_iff.1 hnone
  exact List.append_eq_nil_iff.1 (List.map_eq_nil_iff.1 htasks)

/-- The answers that were counted are those of as many events as the finished tasks sent. -/
theorem answered (h : Inv batchSize s) (hsending : s.sending = []) :
    s.total "http.2xx" + s.total "http.err" = (s.requests.flatMap Send.items).length := by
  have hrequests := h.tasks.requests
  rw [hsending, List.nil_append] at hrequests
  rw [h.counted.answered, (hrequests.flatMap_right Send.items).length_eq, List.length_flatMap,
    List.map_map]
  rfl

theorem closed (h : Inv batchSize s) (hclose : s.close = .returned) :
    s.buf = [] ∧ s.pixelBuf = [] ∧ (s.requests.flatMap Send.items).Perm s.routed ∧
      s.total "sent" = s.total "http.2xx" + s.total "http.err" := by
  obtain ⟨hwaiting, hsending⟩ := h.done hclose
  obtain ⟨-, -, hbuf, hpixel⟩ := h.shutdown.closed (hclose ▸ Close.noConfusion)
  have hitems := h.tasks.perm_items
  have hflow := h.flow.perm_items
  rw [hwaiting, List.flatMap_nil, List.nil_append] at hitems
  rw [hbuf, hpixel, List.append_nil, List.nil_append] at hflow
  have hall := hitems.trans hflow
  refine ⟨hbuf, hpixel, hall, ?_⟩
  rw [h.answered hsending, hall.length_eq, h.counted.sent]

theorem conserved (h : Inv batchSize s) : Conserved batchSize s where
  placed := by
    rw [List.append_assoc]
    exact (h.tasks.perm_items.append_left _).trans h.flow.perm_items
  numbers := by
    rw [h.flow.numbered]
    exact List.nodup_range
  order := h.flow.posts
  batches batch hbatch := by
    have hmem := Send.mem_batches.2 (h.mem_spawned hbatch)
    refine ⟨h.flow.sized batch hmem, ?_⟩
    rw [← h.flow.posts]
    exact (List.infix_of_mem_flatten hmem).trans (List.prefix_append _ _).isInfix
  closed := h.closed

end Inv

/-! ## `close` can return -/

namespace State

/-- How many steps the tasks that are not done have still to take. -/
def left (s : State) : ℕ := 2 * s.waiting.length + s.sending.length + s.sleeping.length

variable {s : State} {task : Task} {rest : List Task}

theorem begin_of_cons (h : s.waiting = task :: rest) :
    step batchSize s (.begin task.id) = some { s with
      waiting := rest
      sending := s.sending ++ [task]
      requests := s.requests ++ [task.send] } := by
  simp [step, h]

theorem fail_of_cons (h : s.sending = task :: rest) :
    step batchSize s (.fail task.id) = some { s.bump "http.err" task.send.items.length with
      sending := rest
      finished := s.finished ++ [task] } := by
  simp [step, finish, bump, h]

theorem wake_of_cons {d : Delayed} {rest : List Delayed} (h : s.sleeping = d :: rest)
    (hclosing : s.closing = true) :
    step batchSize s (.wake d.id false) = some { s with sleeping := rest } := by
  simp [step, h, hclosing]

variable (batchSize) in
/-- While a task is not done, one of them can take a step. -/
theorem exists_step (hclosing : s.closing = true) (hleft : s.unfinished ≠ []) :
    ∃ a t, step batchSize s a = some t ∧ t.close = s.close ∧ t.closing = true ∧
      t.left < s.left := by
  cases hwaiting : s.waiting with
  | cons task rest =>
      refine ⟨_, _, begin_of_cons hwaiting, rfl, hclosing, ?_⟩
      simp only [left, hwaiting, List.length_append, List.length_cons, List.length_nil]
      omega
  | nil =>
      cases hsending : s.sending with
      | cons task rest =>
          refine ⟨_, _, fail_of_cons hsending, rfl, hclosing, ?_⟩
          simp [left, bump, hsending]
      | nil =>
          cases hsleeping : s.sleeping with
          | cons d rest =>
              refine ⟨_, _, wake_of_cons hsleeping hclosing, rfl, hclosing, ?_⟩
              simp [left, hsleeping]
          | nil =>
              rw [unfinished, hwaiting, hsending, hsleeping] at hleft
              exact absurd rfl hleft

end State

/-- Whenever `close` waits, the run can go on to where it has returned. -/
theorem can_return (hpos : 0 < batchSize) {s : State} (hs : (emitter batchSize).Reachable s)
    {tasks : List ℕ} (hclose : s.close = .gathering tasks) :
    ∃ as t, (emitter batchSize).run s as = some t ∧ t.close = .returned := by
  have hclosed := (Inv.of_reachable hpos hs).shutdown.closed
  rw [hclose] at hclosed
  -- first the tasks take their steps
  obtain ⟨as, t, hrun, -, ⟨ht, -⟩, hnone⟩ := (emitter batchSize).exists_run_until State.left
    (P := fun t => t.close = .gathering tasks ∧ t.closing = true) (Q := fun t => t.unfinished = [])
    (fun t ht hleft => by
      obtain ⟨a, u, hst, hc, hclosing, hlt⟩ := State.exists_step batchSize ht.2 hleft
      exact ⟨a, u, trivial, hst, ⟨hc.trans ht.1, hclosing⟩, hlt⟩)
    ⟨hclose, (hclosed Close.noConfusion).2.1⟩
  refine ⟨as ++ [.gathered], { t with close := .returned },
    Lib.System.run_concat.2 ⟨t, hrun, ?_⟩, rfl⟩
  simp [emitter, step, ht, hnone]

/-! ## Other batch sizes -/

namespace State

/-- Without a positive batch size, what a flush finds in the event buffer is dropped. -/
theorem flushBuf_of_nonpos (hneg : batchSize ≤ 0) (s : State) :
    (s.flushBuf batchSize).1 = { s with buf := [] } := by
  unfold flushBuf
  split_ifs with hbuf
  · rw [← hbuf]
  · rcases hneg.lt_or_eq with hneg | rfl
    · rw [Lib.slices_of_neg hneg]
      rfl
    · rfl

theorem flushPixels_of_nil {s : State} (h : s.pixelBuf = []) : s.flushPixels = s := by
  cases s
  cases h
  rfl

/-- So a flush that finds no pixels makes no tasks. -/
theorem flush_of_nonpos (hneg : batchSize ≤ 0) {s : State} {force : Bool}
    (hgo : (s.paused && !force) = false) (hpixel : s.pixelBuf = []) :
    (s.flush batchSize force).1 = { s with buf := [] } := by
  have hbuf := s.flushBuf_of_nonpos hneg
  rw [flush, if_neg (by rw [hgo]; exact Bool.false_ne_true)]
  rcases hflush : s.flushBuf batchSize with ⟨t, went⟩
  rw [hflush] at hbuf
  obtain rfl : t = { s with buf := [] } := hbuf
  cases went with
  | false => rfl
  | true => exact flushPixels_of_nil hpixel

end State

/-- An event that is routed to the event buffer and then flushed is gone. -/
theorem exists_not_conserved (hneg : batchSize ≤ 0) :
    ∃ s, (emitter batchSize).Reachable s ∧ ¬ Conserved batchSize s := by
  have hrun : (emitter batchSize).run State.start [.route [] false false false, .tick] =
      some ((State.start.route [] false false false).tick batchSize) := rfl
  have hflush : ((State.start.route [] false false false).flush batchSize false).1 =
      { State.start.route [] false false false with buf := [] } :=
    State.flush_of_nonpos hneg rfl rfl
  refine ⟨_, Lib.System.reachable_of_run hrun, fun h => ?_⟩
  have hplaced := h.placed
  simp only [State.tick, hflush] at hplaced
  exact List.not_perm_cons_nil hplaced.symm

/-- The emitter conserves events in every run if and only if its batch size is positive. -/
theorem conserved_iff (batchSize : ℤ) :
    (∀ s, (emitter batchSize).Reachable s → Conserved batchSize s) ↔ 0 < batchSize := by
  constructor
  · intro h
    by_contra hneg
    obtain ⟨s, hs, hnot⟩ := exists_not_conserved (not_lt.1 hneg)
    exact hnot (h s hs)
  · intro hpos s hs
    exact (Inv.of_reachable hpos hs).conserved

/-- With a batch size of -1 `close` returns, and the only event was not sent. -/
theorem negative_batch_lost :
    ∃ s, (emitter (-1)).Reachable s ∧ s.close = .returned ∧ s.routed.length = 1 ∧
      s.requests = [] ∧ s.total "sent" = 1 ∧ s.total "http.2xx" + s.total "http.err" = 0 := by
  have hrun : ∃ s, (emitter (-1)).run State.start
      [.route [("event_id", .str "e1"), ("event_type", .str "click")] true false false, .stopUsers,
        .close] = some s := ⟨_, rfl⟩
  obtain ⟨s, hs⟩ := hrun
  refine ⟨s, Lib.System.reachable_of_run hs, ?_⟩
  obtain rfl := Option.some.inj hs
  refine ⟨rfl, rfl, rfl, ?_, ?_⟩
  · decide
  · decide

end AdPipeline.Generator
