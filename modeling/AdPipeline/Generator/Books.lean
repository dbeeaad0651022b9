import AdPipeline.Generator.Emitter

/-!
# The books of the emitter

What is kept of the events between `_route` and the answers, in four parts. `Flow` is about the
buffers and the tasks made of them, `Tasks` about the tasks and the requests, `Counted` about the
counters, and `Shutdown` about what `close` finds. Each part has a lemma for each thing that a
coroutine does to it.
-/

namespace AdPipeline.Generator

namespace Send

@[simp] theorem batches_append (xs ys : List Send) :
    batches (xs ++ ys) = batches xs ++ batches ys := List.filterMap_append

@[simp] theorem pixels_append (xs ys : List Send) :
    pixels (xs ++ ys) = pixels xs ++ pixels ys := List.filterMap_append

@[simp] theorem batches_map_post (bs : List (List Item)) : batches (bs.map post) = bs := by
  rw [batches, List.filterMap_map]
  exact List.filterMap_some

@[simp] theorem pixels_map_post (bs : List (List Item)) : pixels (bs.map post) = [] := by
  rw [pixels, List.filterMap_map, List.filterMap_eq_nil_iff]
  exact fun _ _ => rfl

@[simp] theorem batches_map_pixel (xs : List Item) : batches (xs.map pixel) = [] := by
  rw [batches, List.filterMap_map, List.filterMap_eq_nil_iff]
  exact fun _ _ => rfl

@[simp] theorem pixels_map_pixel (xs : List Item) : pixels (xs.map pixel) = xs := by
  rw [pixels, List.filterMap_map]
  exact List.filterMap_some

theorem mem_batches {sends : List Send} {batch : List Item} :
    batch ∈ batches sends ↔ .post batch ∈ sends := by
  rw [batches, List.mem_filterMap]
  constructor
  · rintro ⟨send, hmem, hsend⟩
    cases send with
    | post b => rwa [Option.some.inj hsend] at hmem
    | pixel item => cases hsend
  · intro h
    exact ⟨_, h, rfl⟩

/-- The events of some calls are those of the batches and the pixels. -/
theorem perm_items (sends : List Send) :
    (sends.flatMap items).Perm ((batches sends).flatten ++ pixels sends) := by
  induction sends with
  | nil => exact .refl _
  | cons send sends ih =>
      cases send with
      | post batch =>
          have hbatches : batches (.post batch :: sends) = batch :: batches sends := rfl
          have hpixels : pixels (.post batch :: sends) = pixels sends := rfl
          rw [List.flatMap_cons, hbatches, hpixels, List.flatten_cons, List.append_assoc]
          exact ih.append_left batch
      | pixel item =>
          have hbatches : batches (.pixel item :: sends) = batches sends := rfl
          have hpixels : pixels (.pixel item :: sends) = item :: pixels sends := rfl
          rw [List.flatMap_cons, hbatches, hpixels]
          exact (ih.cons item).trans List.perm_middle.symm

end Send

namespace State

/-! ## What the coroutines change -/

theorem bump_total_of_ne (s : State) {key other : String} (n : ℕ) (h : other ≠ key) :
    (s.bump key n).total other = s.total other := Function.update_of_ne h _ _

theorem bump_total_self (s : State) (key : String) (n : ℕ) :
    (s.bump key n).total key = s.total key + n := Function.update_self _ _ _

/-- The counters that the books are kept with. -/
def kept : List String := ["sent", "http.2xx", "http.err"]

theorem counter_notMem_kept (send : Send) : send.counter ∉ kept := by
  cases send with
  | post _ =>
      show "sent.post" ∉ kept
      decide
  | pixel _ =>
      show "sent.pixel" ∉ kept
      decide

theorem typeBucket_notMem_kept (v : Option Collector.EventValue) : typeBucket v ∉ kept := by
  unfold typeBucket
  split <;> decide

/-- A bump of a counter that the books are not kept with. -/
theorem bump_kept (s : State) {key : String} (h : key ∉ kept) (n : ℕ) :
    ∀ other ∈ kept, (s.bump key n).total other = s.total other := by
  intro other hother
  apply bump_total_of_ne
  rintro rfl
  exact h hother

/-- Of the counters that are kept, a call of `_route` bumps the one of the events. -/
theorem route_total (s : State) (ev : Collector.Event) (allowPixel forge draw : Bool) :
    ∀ key ∈ kept, (s.route ev allowPixel forge draw).total key = (s.bump "sent" 1).total key := by
  intro key hkey
  have hbucket := s.bump_kept (typeBucket_notMem_kept (ev.get "event_type")) 1
  have hsent : ((s.bump (typeBucket (ev.get "event_type")) 1).bump "sent" 1).total key =
      (s.bump "sent" 1).total key := by
    by_cases hne : key = "sent"
    · rw [hne, bump_total_self, bump_total_self, hbucket _ (by decide)]
    · rw [bump_total_of_ne _ _ hne, bump_total_of_ne _ _ hne, hbucket key hkey]
  have hforge := bump_kept ((s.bump (typeBucket (ev.get "event_type")) 1).bump "sent" 1)
    (by decide : "a.forge" ∉ kept) 1 key hkey
  cases hpixel : forge || (allowPixel && draw) with
  | false => simpa [route, hpixel] using hsent
  | true =>
      cases forge with
      | false => simpa [route, hpixel] using hsent
      | true => exact hforge.trans hsent

/-- A call of `_route` puts its event behind those of one buffer. -/
theorem route_eq (s : State) (ev : Collector.Event) (allowPixel forge draw : Bool) :
    ∃ item : Item,
      s.route ev allowPixel forge draw =
        { s with
          routed := s.routed ++ [item]
          buf := s.buf ++ [item].filter fun x => !x.pixel
          pixelBuf := s.pixelBuf ++ [item].filter fun x => x.pixel
          total := (s.route ev allowPixel forge draw).total } ∧
      item.number = s.routed.length ∧ item.ev = ev := by
  cases hpixel : forge || (allowPixel && draw) with
  | false =>
      refine ⟨⟨s.routed.length, ev, forge, false⟩, ?_, rfl, rfl⟩
      simp [route, hpixel, strip, bump]
  | true =>
      refine ⟨⟨s.routed.length, ev, forge, true⟩, ?_, rfl, rfl⟩
      cases forge <;> simp [route, hpixel, bump]

/-- The state with some more tasks, which wait and are in flight. -/
def withTasks (s : State) (tasks : List Task) (nextId : ℕ) : State :=
  { s with
    nextId := nextId
    inflight := s.inflight ++ tasks.map Task.id
    waiting := s.waiting ++ tasks
    spawned := s.spawned ++ tasks.map Task.send }

theorem withTasks_nil (s : State) : s.withTasks [] s.nextId = s := by simp [withTasks]

theorem withTasks_withTasks (s : State) (tasks tasks' : List Task) (nextId nextId' : ℕ) :
    (s.withTasks tasks nextId).withTasks tasks' nextId' =
      s.withTasks (tasks ++ tasks') nextId' := by
  simp [withTasks]

theorem mem_unfinished_withTasks {s : State} {tasks : List Task} {nextId i : ℕ} :
    i ∈ (s.withTasks tasks nextId).unfinished ↔ i ∈ s.unfinished ∨ i ∈ tasks.map Task.id := by
  simp only [unfinished, withTasks, List.map_append, List.mem_append]
  tauto

theorem spawnAll_eq (s : State) (sends : List Send) :
    ∃ (tasks : List Task) (nextId : ℕ),
      s.spawnAll sends = s.withTasks tasks nextId ∧ tasks.map Task.send = sends := by
  induction sends generalizing s with
  | nil => exact ⟨[], s.nextId, s.withTasks_nil.symm, rfl⟩
  | cons send sends ih =>
      obtain ⟨tasks, nextId, heq, hsends⟩ := ih (s.spawn send)
      refine ⟨⟨s.nextId, send⟩ :: tasks, nextId, ?_, by rw [List.map_cons, hsends]⟩
      exact heq.trans (s.withTasks_withTasks [⟨s.nextId, send⟩] tasks (s.nextId + 1) nextId)

/-- A bump of one of the counters of answers. -/
theorem bump_answer (s : State) {key : String} (h : key = "http.2xx" ∨ key = "http.err") (n : ℕ) :
    ∃ total : String → ℕ,
      s.bump key n = { s with total := total } ∧ total "sent" = s.total "sent" ∧
      total "http.2xx" + total "http.err" = s.total "http.2xx" + s.total "http.err" + n := by
  refine ⟨(s.bump key n).total, rfl, ?_⟩
  rcases h with rfl | rfl
  · refine ⟨s.bump_total_of_ne n (by decide), ?_⟩
    rw [bump_total_self, bump_total_of_ne _ _ (by decide), Nat.add_right_comm]
  · refine ⟨s.bump_total_of_ne n (by decide), ?_⟩
    rw [bump_total_self, bump_total_of_ne _ _ (by decide), Nat.add_assoc]

/-- An answer is counted once, as a success or as an error. -/
theorem count_eq (s : State) (send : Send) (status : ℕ) :
    ∃ total : String → ℕ,
      s.count send status = { s with total := total } ∧ total "sent" = s.total "sent" ∧
      total "http.2xx" + total "http.err" =
        s.total "http.2xx" + s.total "http.err" + send.items.length := by
  have hkept := s.bump_kept (counter_notMem_kept send) send.items.length
  obtain ⟨key, hkey, hcount⟩ : ∃ key, (key = "http.2xx" ∨ key = "http.err") ∧
      s.count send status =
        (s.bump send.counter send.items.length).bump key send.items.length := by
    unfold count
    split_ifs
    · exact ⟨_, .inl rfl, rfl⟩
    · exact ⟨_, .inr rfl, rfl⟩
  obtain ⟨total, heq, hsent, hanswered⟩ :=
    (s.bump send.counter send.items.length).bump_answer hkey send.items.length
  refine ⟨total, hcount.trans heq, ?_, ?_⟩
  · rw [hsent, hkept _ (by decide)]
  · rw [hanswered, hkept _ (by decide), hkept _ (by decide)]

end State

/-! ## The four parts -/

/-- The tasks made so far and the buffers hold the routed events: the batches one after the other
and then the buffer, and likewise the pixels. -/
structure Flow (batchSize : ℤ) (routed buf pixelBuf : List Item) (spawned : List Send) : Prop where
  numbered : routed.map Item.number = List.range routed.length
  posts : (Send.batches spawned).flatten ++ buf = routed.filter fun x => !x.pixel
  pixels : Send.pixels spawned ++ pixelBuf = routed.filter fun x => x.pixel
  sized : ∀ batch ∈ Send.batches spawned, (batch.length : ℤ) ≤ batchSize

/-- The tasks are those that were made, and the requests are those of the tasks that have begun. -/
structure Tasks (waiting sending finished : List Task) (spawned requests : List Send) : Prop where
  spawned : ((waiting ++ sending ++ finished).map Task.send).Perm spawned
  requests : requests.Perm ((sending ++ finished).map Task.send)

/-- The counters of the routed events and of the answered ones. -/
structure Counted (total : String → ℕ) (routed : List Item) (finished : List Task) : Prop where
  sent : total "sent" = routed.length
  answered : total "http.2xx" + total "http.err" =
    (finished.map fun t => t.send.items.length).sum

/-- A task that is not done is in flight, and once `close` was called it is one that `close` waits
for. The users are gone by then, and the buffers stay empty. -/
structure Shutdown (close : Close) (unfinished inflight : List ℕ) (users closing : Bool)
    (buf pixelBuf : List Item) : Prop where
  tracked : unfinished ⊆ inflight
  closed : close ≠ .uncalled → users = false ∧ closing = true ∧ buf = [] ∧ pixelBuf = []
  gathering : ∀ tasks, close = .gathering tasks → unfinished ⊆ tasks
  returned : close = .returned → unfinished = []

namespace Flow

variable {batchSize : ℤ} {routed buf pixelBuf : List Item} {spawned : List Send}

/-- An event is routed. -/
theorem route (h : Flow batchSize routed buf pixelBuf spawned) {item : Item}
    (hnumber : item.number = routed.length) :
    Flow batchSize (routed ++ [item]) (buf ++ [item].filter fun x => !x.pixel)
      (pixelBuf ++ [item].filter fun x => x.pixel) spawned where
  numbered := by
    rw [List.map_append, h.numbered, List.length_append, List.map_singleton, hnumber]
    exact List.range_succ.symm
  posts := by rw [List.filter_append, ← h.posts, List.append_assoc]
  pixels := by rw [List.filter_append, ← h.pixels, List.append_assoc]
  sized := h.sized

/-- The buffer is cut into batches. -/
theorem flushBuf (h : Flow batchSize routed buf pixelBuf spawned) {bs : List (List Item)}
    (hbuf : bs.flatten = buf) (hsize : ∀ b ∈ bs, (b.length : ℤ) ≤ batchSize) :
    Flow batchSize routed [] pixelBuf (spawned ++ bs.map .post) where
  numbered := h.numbered
  posts := by
    rw [Send.batches_append, Send.batches_map_post, List.flatten_append, hbuf, List.append_nil,
      h.posts]
  pixels := by rw [Send.pixels_append, Send.pixels_map_post, List.append_nil, h.pixels]
  sized batch hbatch := by
    rw [Send.batches_append, Send.batches_map_post, List.mem_append] at hbatch
    rcases hbatch with hbatch | hbatch
    · exact h.sized batch hbatch
    · exact hsize batch hbatch

/-- The pixels are sent one by one. -/
theorem flushPixels (h : Flow batchSize routed buf pixelBuf spawned) :
    Flow batchSize routed buf [] (spawned ++ pixelBuf.map .pixel) where
  numbered := h.numbered
  posts := by rw [Send.batches_append, Send.batches_map_pixel, List.append_nil, h.posts]
  pixels := by
    rw [Send.pixels_append, Send.pixels_map_pixel, List.append_nil, h.pixels]
  sized := by
    rw [Send.batches_append, Send.batches_map_pixel, List.append_nil]
    exact h.sized

/-- What is in the buffers and what the tasks send is all that was routed. -/
theorem perm_items (h : Flow batchSize routed buf pixelBuf spawned) :
    (buf ++ pixelBuf ++ spawned.flatMap Send.items).Perm routed := by
  have hsplit : (buf ++ pixelBuf ++ spawned.flatMap Send.items).Perm
      (((Send.batches spawned).flatten ++ buf) ++ (Send.pixels spawned ++ pixelBuf)) := by
    refine ((Send.perm_items spawned).append_left (buf ++ pixelBuf)).trans ?_
    refine List.perm_append_comm.trans ?_
    rw [List.append_assoc, List.append_assoc]
    exact (List.perm_append_comm_assoc _ _ _).append_left _
  rw [h.posts, h.pixels] at hsplit
  exact hsplit.trans (List.perm_append_comm.trans
    (List.filter_append_perm (fun x => x.pixel) routed))

end Flow

namespace Tasks

variable {waiting sending finished tasks : List Task} {spawned requests : List Send}

/-- Tasks are made. -/
theorem spawn (h : Tasks waiting sending finished spawned requests) :
    Tasks (waiting ++ tasks) sending finished (spawned ++ tasks.map Task.send) requests where
  spawned := by
    have hcomm : (waiting ++ tasks ++ sending ++ finished).Perm
        (waiting ++ sending ++ finished ++ tasks) := by
      rw [List.append_assoc, List.append_assoc, List.append_assoc, List.append_assoc,
        ← List.append_assoc sending]
      exact List.perm_append_comm.append_left waiting
    have hspawned := h.spawned.append_right (tasks.map Task.send)
    rw [← List.map_append] at hspawned
    exact (hcomm.map _).trans hspawned
  requests := h.requests

/-- A task begins, and makes its request. -/
theorem begin (h : Tasks waiting sending finished spawned requests) {p : Task → Bool} {t : Task}
    (ht : waiting.find? p = some t) :
    Tasks (waiting.eraseP p) (sending ++ [t]) finished spawned (requests ++ [t.send]) where
  spawned := (((Lib.perm_move ht).append_right _).map _).trans h.spawned
  requests := by
    refine (h.requests.append_right [t.send]).trans ?_
    simp only [List.map_append, List.append_assoc]
    exact List.perm_append_comm.append_left _

/-- A request ends. -/
theorem finish (h : Tasks waiting sending finished spawned requests) {p : Task → Bool} {t : Task}
    (ht : sending.find? p = some t) :
    Tasks waiting (sending.eraseP p) (finished ++ [t]) spawned requests where
  spawned := by
    refine List.Perm.trans (List.Perm.map _ ?_) h.spawned
    rw [List.append_assoc, List.append_assoc]
    exact (Lib.perm_move ht).append_left waiting
  requests := h.requests.trans ((Lib.perm_move ht).map _).symm

/-- The events of the tasks that have not begun and of the requests are those of all tasks. -/
theorem perm_items (h : Tasks waiting sending finished spawned requests) :
    ((waiting.flatMap fun t => t.send.items) ++ requests.flatMap Send.items).Perm
      (spawned.flatMap Send.items) := by
  have hsends : (waiting.map Task.send ++ requests).Perm spawned := by
    refine (h.requests.append_left _).trans ?_
    rw [← List.map_append, ← List.append_assoc]
    exact h.spawned
  have hitems := hsends.flatMap_right Send.items
  rwa [List.flatMap_append, List.flatMap_map] at hitems

end Tasks

namespace Counted

variable {total total' : String → ℕ} {routed : List Item} {finished : List Task}

/-- Other counters may change. -/
theorem of_kept (h : Counted total routed finished)
    (hkept : ∀ key ∈ State.kept, total' key = total key) : Counted total' routed finished where
  sent := by rw [hkept _ (by decide), h.sent]
  answered := by rw [hkept _ (by decide), hkept _ (by decide), h.answered]

/-- An event is routed and counted. -/
theorem route {s : State} (h : Counted s.total routed finished) (item : Item) :
    Counted (s.bump "sent" 1).total (routed ++ [item]) finished where
  sent := by rw [State.bump_total_self, h.sent, List.length_append, List.length_singleton]
  answered := by
    rw [State.bump_total_of_ne _ _ (by decide), State.bump_total_of_ne _ _ (by decide), h.answered]

/-- A request ends and is counted. -/
theorem finish (h : Counted total routed finished) {t : Task} (hsent : total' "sent" = total "sent")
    (hanswered : total' "http.2xx" + total' "http.err" =
      total "http.2xx" + total "http.err" + t.send.items.length) :
    Counted total' routed (finished ++ [t]) where
  sent := by rw [hsent, h.sent]
  answered := by
    rw [hanswered, h.answered, List.map_append, List.sum_append, List.map_singleton,
      List.sum_singleton]

end Counted

namespace Shutdown

variable {close : Close} {unfinished inflight : List ℕ} {users closing : Bool}
  {buf pixelBuf : List Item}

/-- As long as `close` is not called, the tasks need only be in flight. -/
theorem of_uncalled (h : unfinished ⊆ inflight) :
    Shutdown .uncalled unfinished inflight users closing buf pixelBuf where
  tracked := h
  closed hne := absurd rfl hne
  gathering _ hg := by cases hg
  returned hr := by cases hr

/-- Tasks may get done. -/
theorem mono (h : Shutdown close unfinished inflight users closing buf pixelBuf)
    {unfinished' : List ℕ} (hsub : unfinished' ⊆ unfinished) :
    Shutdown close unfinished' inflight users closing buf pixelBuf where
  tracked := List.Subset.trans hsub h.tracked
  closed := h.closed
  gathering tasks hg := List.Subset.trans hsub (h.gathering tasks hg)
  returned hr := List.subset_nil.1 (h.returned hr ▸ hsub)

/-- The users are there only before `close` is called. -/
theorem uncalled_of_users (h : Shutdown close unfinished inflight true closing buf pixelBuf) :
    close = .uncalled := by
  by_contra hclose
  cases (h.closed hclose).1

theorem uncalled_of_closing (h : Shutdown close unfinished inflight users false buf pixelBuf) :
    close = .uncalled := by
  by_contra hclose
  cases (h.closed hclose).2.1

end Shutdown

end AdPipeline.Generator
