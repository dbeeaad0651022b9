import AdPipeline.Stream.Realtime

/-!
# The books of the realtime job

What holds in every state of the realtime job, whatever the order of its records and watermarks.
Every event that passes the deduplication is counted or late (`deduped_perm`), the aggregate rows
hold exactly the counted events (`sumWhere_windows`), `late_dropped` has the ids of exactly the late
ones (`lateTable`), and an `event_id` whose copies all arrive before its dedup state expires passes
the deduplication once, at its first arrival (`deduped_of_withinTtl`).
-/

namespace AdPipeline.Stream

open Lib

variable {s : Job}

/-! ## Counted or late -/

/-- Every event that passes the deduplication is either counted or late, copy by copy. -/
theorem deduped_perm (h : job.Reachable s) : s.deduped.Perm (s.counted ++ s.late) := by
  refine job_invariant (I := fun s => s.deduped.Perm (s.counted ++ s.late)) (.refl _) ?_ h
  intro s t hs hst
  cases hst with
  | skip => exact hs
  | duplicate e now hseen => exact hs
  | count e now hseen hopen =>
      have happend : (s.deduped ++ [e]).Perm (s.counted ++ s.late ++ [e]) := hs.append_right _
      refine happend.trans ?_
      rw [List.append_assoc, List.append_assoc]
      exact List.perm_append_comm.append_left _
  | drop e now hseen hlate =>
      have happend : (s.deduped ++ [e]).Perm (s.counted ++ s.late ++ [e]) := hs.append_right _
      rwa [List.append_assoc] at happend
  | advance w hw => exact hs

/-- The copies that passed, counted and late ones together. -/
theorem countP_deduped (h : job.Reachable s) (p : Event → Bool) :
    s.deduped.countP p = s.counted.countP p + s.late.countP p := by
  rw [(deduped_perm h).countP_eq, List.countP_append]

/-! ## Aggregate rows -/

/-- A column of `agg_1m` and what one event adds to it. -/
structure Column where
  value : Counts → ℕ
  unit : Event → ℕ
  zero : value Counts.zero = 0
  add : ∀ e c, value (Counts.add e c) = value c + unit e

namespace Column

def impressions : Column :=
  ⟨Counts.impressions, fun e => e.countIf .impression, rfl, fun _ _ => rfl⟩

def clicks : Column := ⟨Counts.clicks, fun e => e.countIf .click, rfl, fun _ _ => rfl⟩

def completes : Column := ⟨Counts.completes, fun e => e.countIf .complete, rfl, fun _ _ => rfl⟩

def requests : Column := ⟨Counts.requests, fun e => e.countIf .request, rfl, fun _ _ => rfl⟩

def ssaiDupes : Column := ⟨Counts.ssaiDupes, Event.isSsaiTwin, rfl, fun _ _ => rfl⟩

end Column

/-- The rows of `agg_1m`, and those of the windows still open, hold exactly the counted events. -/
theorem sumWhere_windows (h : job.Reachable s) (col : Column) (p : WindowKey → Bool) :
    sumWhere p col.value (s.agg1m ++ s.openWindows) =
      ((s.counted.filter fun e => p e.windowKey).map col.unit).sum := by
  refine job_invariant (I := fun s => sumWhere p col.value (s.agg1m ++ s.openWindows) =
    ((s.counted.filter fun e => p e.windowKey).map col.unit).sum) rfl ?_ h
  intro s t hs hst
  cases hst with
  | skip => exact hs
  | duplicate e now hseen => exact hs
  | count e now hseen hopen =>
      simp only [sumWhere_append] at hs ⊢
      rw [sumWhere_adjust col.zero (col.add e), ← Nat.add_assoc, hs, List.filter_append,
        List.map_append, List.sum_append]
      by_cases hp : p e.windowKey = true <;> simp [hp]
  | drop e now hseen hlate => exact hs
  | advance w hw =>
      have hsplit := sumWhere_filter_add_filter_not p col.value
        (fun x => windowFired (x.1.windowStart + minute) (some w)) s.openWindows
      simp only [Job.advance, sumWhere_append] at hs ⊢
      omega

/-- Which windows have fired: the rows of `agg_1m` are of fired windows, one for each group, and the
accumulators of windows that have not. -/
structure WindowsFired (s : Job) : Prop where
  fired : ∀ x ∈ s.agg1m, windowFired (x.1.windowStart + minute) s.watermark = true
  open_ : ∀ x ∈ s.openWindows, windowFired (x.1.windowStart + minute) s.watermark = false
  aligned : ∀ x ∈ s.openWindows, x.1.windowStart % minute = 0
  nodupFired : (s.agg1m.map Prod.fst).Nodup
  nodupOpen : (s.openWindows.map Prod.fst).Nodup

/-- A window that has fired stays so. -/
theorem windowFired_mono {windowEnd w : ℤ} {watermark : Option ℤ} (hw : ∀ w' ∈ watermark, w' ≤ w)
    (h : windowFired windowEnd watermark = true) : windowFired windowEnd (some w) = true := by
  cases watermark with
  | none => cases h
  | some w' =>
      have hle := hw w' rfl
      unfold windowFired at *
      simp only [decide_eq_true_eq] at *
      omega

/-- Fired and open windows are different groups, so each group has one row. -/
theorem WindowsFired.nodup (h : WindowsFired s) :
    ((s.agg1m ++ s.openWindows).map Prod.fst).Nodup := by
  rw [List.map_append, List.nodup_append']
  refine ⟨h.nodupFired, h.nodupOpen, ?_⟩
  intro k hk hk'
  obtain ⟨x, hx, rfl⟩ := List.mem_map.1 hk
  obtain ⟨y, hy, hyx⟩ := List.mem_map.1 hk'
  have hfired := h.fired x hx
  rw [← hyx, h.open_ y hy] at hfired
  cases hfired

theorem WindowsFired.adjust (h : WindowsFired s) {e : Event}
    (hopen : lateAtWindow s.watermark e.eventTime = false) :
    ∀ x ∈ Lib.adjust Counts.zero (Counts.add e) e.windowKey s.openWindows,
      windowFired (x.1.windowStart + minute) s.watermark = false := by
  intro x hx
  rcases mem_keys_adjust.1 (List.mem_map_of_mem (f := Prod.fst) hx) with hkey | hmem
  · rw [lateAtWindow_eq_windowFired] at hopen
    rw [hkey]
    exact hopen
  · obtain ⟨y, hy, hyx⟩ := List.mem_map.1 hmem
    rw [← hyx]
    exact h.open_ y hy

theorem WindowsFired.adjust_aligned (h : WindowsFired s) (e : Event) :
    ∀ x ∈ Lib.adjust Counts.zero (Counts.add e) e.windowKey s.openWindows,
      x.1.windowStart % minute = 0 := by
  intro x hx
  rcases mem_keys_adjust.1 (List.mem_map_of_mem (f := Prod.fst) hx) with hkey | hmem
  · rw [hkey]
    exact floorToMinute_mod e.eventTime
  · obtain ⟨y, hy, hyx⟩ := List.mem_map.1 hmem
    rw [← hyx]
    exact h.aligned y hy

theorem windowsFired (h : job.Reachable s) : WindowsFired s := by
  refine job_invariant (I := WindowsFired) ⟨?_, ?_, ?_, ?_, ?_⟩ ?_ h
  · simp [Job.start]
  · simp [Job.start]
  · simp [Job.start]
  · simp [Job.start]
  · simp [Job.start]
  intro s t hs hst
  cases hst with
  | skip => exact hs
  | duplicate e now hseen => exact ⟨hs.fired, hs.open_, hs.aligned, hs.nodupFired, hs.nodupOpen⟩
  | count e now hseen hopen =>
      exact ⟨hs.fired, hs.adjust hopen, hs.adjust_aligned e, hs.nodupFired,
        nodup_keys_adjust hs.nodupOpen⟩
  | drop e now hseen hlate => exact ⟨hs.fired, hs.open_, hs.aligned, hs.nodupFired, hs.nodupOpen⟩
  | advance w hw =>
      refine ⟨?_, ?_, ?_, ?_, ?_⟩
      · intro x hx
        rcases List.mem_append.1 hx with hx | hx
        · exact windowFired_mono hw (hs.fired x hx)
        · exact (List.mem_filter.1 hx).2
      · intro x hx
        have hopen := (List.mem_filter.1 hx).2
        rw [Bool.not_eq_true'] at hopen
        exact hopen
      · exact fun x hx => hs.aligned x (List.mem_filter.1 hx).1
      · have hnodup := hs.nodup
        rw [List.map_append] at hnodup
        refine hnodup.sublist ?_
        rw [Job.advance, List.map_append]
        exact (List.Sublist.refl _).append (List.filter_sublist.map _)
      · exact hs.nodupOpen.sublist (List.filter_sublist.map _)

/-! ## `late_dropped` -/

/-- The columns of a row of `late_dropped` that come from the event. -/
def LateRow.columns (r : LateRow) : String × Kind × String × Option String × ℤ :=
  (r.eventId, r.kind, r.campaignId, r.adRequestId, r.eventTime)

def Event.columns (e : Event) : String × Kind × String × Option String × ℤ :=
  (e.eventId, e.kind, e.campaignId, e.adRequestId, e.eventTime)

/-- The table is keyed by `event_id`, its ids are those of the late events, and as long as these are
different events it is the list of them. -/
structure LateTable (s : Job) : Prop where
  nodup : (s.lateDropped.map LateRow.eventId).Nodup
  mem_iff : ∀ id, id ∈ s.lateDropped.map LateRow.eventId ↔ id ∈ s.late.map Event.eventId
  rows : (s.late.map Event.eventId).Nodup →
    s.lateDropped.map LateRow.columns = s.late.map Event.columns

theorem lateTable (h : job.Reachable s) : LateTable s := by
  refine job_invariant (I := LateTable) ⟨by simp [Job.start], by simp [Job.start], fun _ => rfl⟩
    ?_ h
  intro s t hs hst
  cases hst with
  | skip => exact hs
  | duplicate e now hseen => exact ⟨hs.nodup, hs.mem_iff, hs.rows⟩
  | count e now hseen hopen => exact ⟨hs.nodup, hs.mem_iff, hs.rows⟩
  | drop e now hseen hlate =>
      refine ⟨nodup_keys_upsert hs.nodup, ?_, ?_⟩
      · intro id
        rw [mem_keys_upsert, hs.mem_iff, List.map_append, List.mem_append]
        simp only [LateRow.ofEvent, List.map_cons, List.map_nil, List.mem_singleton]
        exact or_comm
      · intro hnodup
        rw [List.map_append, List.nodup_append] at hnodup
        -- the id is new, so the upsert adds a row
        have hnew :
            (LateRow.ofEvent s.watermark e).eventId ∉ s.lateDropped.map LateRow.eventId := by
          rw [hs.mem_iff]
          intro hmem
          exact hnodup.2.2 _ hmem _ (List.mem_singleton_self _) rfl
        rw [upsert_of_notMem hnew, List.map_append, List.map_append, hs.rows hnodup.1]
        rfl
  | advance w hw => exact ⟨hs.nodup, hs.mem_iff, hs.rows⟩

/-! ## Deduplication -/

/-- The first arrival of an `event_id`. -/
def firstArrival (id : String) (arrived : List (Event × ℤ)) : Option (Event × ℤ) :=
  arrived.find? fun a => a.1.eventId = id

/-- Every copy of an `event_id` arrives before the dedup state of the first has expired. -/
def WithinTtl (arrived : List (Event × ℤ)) (id : String) : Prop :=
  ∀ first ∈ firstArrival id arrived, ∀ a ∈ arrived, a.1.eventId = id → a.2 < first.2 + stateTtl

theorem WithinTtl.left {arrived : List (Event × ℤ)} {a : Event × ℤ} {id : String}
    (h : WithinTtl (arrived ++ [a]) id) : WithinTtl arrived id := by
  intro first hfirst b hb
  refine h first ?_ b (List.mem_append_left _ hb)
  unfold firstArrival at *
  rw [List.find?_append, Option.mem_def.1 hfirst]
  rfl

theorem firstArrival_append_of_ne {arrived : List (Event × ℤ)} {e : Event} {now : ℤ} {id : String}
    (h : e.eventId ≠ id) : firstArrival id (arrived ++ [(e, now)]) = firstArrival id arrived := by
  unfold firstArrival
  rw [List.find?_append, List.find?_cons_of_neg (by simpa using h), List.find?_nil, Option.or_none]

theorem firstArrival_append_of_some {arrived : List (Event × ℤ)} {a first : Event × ℤ} {id : String}
    (h : firstArrival id arrived = some first) :
    firstArrival id (arrived ++ [a]) = some first := by
  unfold firstArrival at *
  rw [List.find?_append, h]
  rfl

theorem firstArrival_append_of_none {arrived : List (Event × ℤ)} {e : Event} {now : ℤ}
    (h : firstArrival e.eventId arrived = none) :
    firstArrival e.eventId (arrived ++ [(e, now)]) = some (e, now) := by
  unfold firstArrival at *
  rw [List.find?_append, h]
  simp

/-- What the deduplication knows and has let through of an `event_id`: its first arrival. -/
def FirstOnly (s : Job) (id : String) : Prop :=
  s.seen id = (firstArrival id s.arrived).map Prod.snd ∧
    s.deduped.filter (fun e => e.eventId = id) =
      ((firstArrival id s.arrived).map Prod.fst).toList

/-- An event that arrives when the dedup state of its id has not expired keeps the first arrival. -/
theorem FirstOnly.duplicate {id : String} {e : Event} {now : ℤ}
    (hs : FirstOnly s id) (hseen : s.remembers now e.eventId = true) :
    firstArrival id (s.arrived ++ [(e, now)]) = firstArrival id s.arrived := by
  by_cases hid : e.eventId = id
  · cases hfirst : firstArrival id s.arrived with
    | some first => exact firstArrival_append_of_some hfirst
    | none =>
        have hnone : s.seen id = none := by rw [hs.1, hfirst]; rfl
        rw [hid, Job.remembers, hnone] at hseen
        cases hseen
  · exact firstArrival_append_of_ne hid

/-- An event that passes the deduplication within the lifetime of its id is the first arrival. -/
theorem FirstOnly.fresh {e : Event} {now : ℤ} (hs : FirstOnly s e.eventId)
    (hseen : s.remembers now e.eventId = false)
    (httl : WithinTtl (s.arrived ++ [(e, now)]) e.eventId) :
    firstArrival e.eventId s.arrived = none := by
  cases hfirst : firstArrival e.eventId s.arrived with
  | none => rfl
  | some first =>
      have hlt := httl first (firstArrival_append_of_some hfirst) (e, now) (by simp) rfl
      have hsome : s.seen e.eventId = some first.2 := by rw [hs.1, hfirst]; rfl
      rw [Job.remembers, hsome] at hseen
      simp only [decide_eq_false_iff_not] at hseen
      exact absurd hlt hseen

theorem FirstOnly.letThrough {id : String} {e : Event} {now : ℤ} {t : Job}
    (hs : WithinTtl s.arrived id → FirstOnly s id)
    (hseen : s.remembers now e.eventId = false)
    (harrived : t.arrived = s.arrived ++ [(e, now)])
    (hupdate : t.seen = Function.update s.seen e.eventId (some now))
    (hdeduped : t.deduped = s.deduped ++ [e]) (httl : WithinTtl t.arrived id) : FirstOnly t id := by
  rw [harrived] at httl
  have hfirst := hs httl.left
  unfold FirstOnly
  rw [harrived, hupdate, hdeduped, List.filter_append]
  by_cases hid : e.eventId = id
  · subst hid
    have hnone := hfirst.fresh hseen httl
    rw [firstArrival_append_of_none hnone, Function.update_self, hfirst.2, hnone]
    simp
  · rw [firstArrival_append_of_ne hid, Function.update_of_ne (Ne.symm hid), hfirst.1, hfirst.2]
    simp [hid]

/-- An `event_id` whose copies arrive before its dedup state expires passes the deduplication
once. -/
theorem deduped_of_withinTtl (h : job.Reachable s) {id : String} (httl : WithinTtl s.arrived id) :
    s.deduped.filter (fun e => e.eventId = id) =
      ((firstArrival id s.arrived).map Prod.fst).toList := by
  refine (job_invariant (I := fun s => WithinTtl s.arrived id → FirstOnly s id) ?_ ?_ h httl).2
  · exact fun _ => ⟨rfl, rfl⟩
  intro s t hs hst
  cases hst with
  | skip => exact hs
  | duplicate e now hseen =>
      intro httl
      have hfirst := hs httl.left
      unfold FirstOnly
      rw [hfirst.duplicate hseen]
      exact hfirst
  | count e now hseen hopen => exact FirstOnly.letThrough hs hseen rfl rfl rfl
  | drop e now hseen hlate => exact FirstOnly.letThrough hs hseen rfl rfl rfl
  | advance w hw => exact hs

theorem countP_eventId_pos {events : List Event} {id : String} :
    0 < events.countP (fun e => e.eventId = id) ↔ id ∈ events.map Event.eventId := by
  rw [List.countP_pos_iff, List.mem_map]
  simp

/-- Within the lifetime of its dedup state an id passes at most once. -/
theorem countP_deduped_le_one (h : job.Reachable s) {id : String}
    (httl : WithinTtl s.arrived id) : s.deduped.countP (fun e => e.eventId = id) ≤ 1 := by
  rw [List.countP_eq_length_filter, deduped_of_withinTtl h httl]
  cases firstArrival id s.arrived <;> simp

/-- When no copy outlives its dedup state, the events that passed are different ones. -/
theorem nodup_deduped (h : job.Reachable s) (httl : ∀ id, WithinTtl s.arrived id) :
    (s.deduped.map Event.eventId).Nodup := by
  refine List.nodup_iff_count_le_one.2 fun id => ?_
  rw [List.count_eq_countP, List.countP_map]
  refine le_trans (le_of_eq (List.countP_congr fun e _ => ?_)) (countP_deduped_le_one h (httl id))
  simp

/-- An event that passed has arrived. -/
theorem mem_arrived_of_mem_deduped (h : job.Reachable s) {e : Event} (he : e ∈ s.deduped)
    (httl : WithinTtl s.arrived e.eventId) : ∃ now, (e, now) ∈ s.arrived := by
  have hfilter : e ∈ s.deduped.filter fun e' => e'.eventId = e.eventId := by
    simpa using he
  rw [deduped_of_withinTtl h httl, Option.mem_toList] at hfilter
  obtain ⟨a, ha, rfl⟩ := Option.map_eq_some_iff.1 hfilter
  exact ⟨a.2, List.mem_of_find?_eq_some ha⟩

/-- An event that arrived has a copy that passed. -/
theorem mem_deduped_of_mem_arrived (h : job.Reachable s) {e : Event} {now : ℤ}
    (he : (e, now) ∈ s.arrived) (httl : WithinTtl s.arrived e.eventId) :
    e.eventId ∈ s.deduped.map Event.eventId := by
  cases hfirst : firstArrival e.eventId s.arrived with
  | none =>
      have hnone := List.find?_eq_none.1 hfirst (e, now) he
      simp at hnone
  | some a =>
      have hid : a.1.eventId = e.eventId := by
        have hfound := List.find?_some hfirst
        simpa using hfound
      have hmem : a.1 ∈ s.deduped.filter fun e' => e'.eventId = e.eventId := by
        rw [deduped_of_withinTtl h httl, hfirst]
        simp
      exact List.mem_map.2 ⟨a.1, (List.mem_filter.1 hmem).1, hid⟩

end AdPipeline.Stream
