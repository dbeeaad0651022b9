import AdPipeline.Settlement.Kinds

/-!
# What arrives in time

Between two states of a run the job counts an arrival only while its window is open, and what it
has found late stays late (`since_run`, `late_of_mem_late`).
-/

namespace AdPipeline.Settlement

open Lib AdPipeline.Stream
open Collector (Topic)

/-- What the job has done since a state: all it counted or found late has arrived, and was counted
only if the window was still open. -/
structure Since (s t : Job) (arrivals : List (Event × ℤ)) : Prop where
  counted : ∀ e ∈ t.counted, e ∈ s.counted ∨
    ((∃ now, (e, now) ∈ arrivals) ∧ lateAtWindow s.watermark e.eventTime = false)
  late : ∀ e ∈ t.late, e ∈ s.late ∨ ∃ now, (e, now) ∈ arrivals
  watermark : ∀ time, lateAtWindow s.watermark time = true → lateAtWindow t.watermark time = true

theorem Since.refl (s : Job) : Since s s [] :=
  ⟨fun _ he => .inl he, fun _ he => .inl he, fun _ h => h⟩

theorem Since.trans {s t u : Job} {arrivals arrivals' : List (Event × ℤ)}
    (h : Since s t arrivals) (h' : Since t u arrivals') : Since s u (arrivals ++ arrivals') where
  counted e he := by
    rcases h'.counted e he with he | ⟨⟨now, hnow⟩, hopen⟩
    · rcases h.counted e he with he | ⟨⟨now, hnow⟩, hopen⟩
      · exact .inl he
      · exact .inr ⟨⟨now, List.mem_append_left _ hnow⟩, hopen⟩
    · refine .inr ⟨⟨now, List.mem_append_right _ hnow⟩, ?_⟩
      cases hlate : lateAtWindow s.watermark e.eventTime with
      | false => rfl
      | true => exact absurd (h.watermark _ hlate) (by rw [hopen]; exact Bool.false_ne_true)
  late e he := by
    rcases h'.late e he with he | ⟨now, hnow⟩
    · rcases h.late e he with he | ⟨now, hnow⟩
      · exact .inl he
      · exact .inr ⟨now, List.mem_append_left _ hnow⟩
    · exact .inr ⟨now, List.mem_append_right _ hnow⟩
  watermark time hlate := h'.watermark time (h.watermark time hlate)

theorem since_step {s t : Job} {a : Action} (h : step s a = some t) :
    Since s t (arrivalOf a) := by
  have harrived := arrived_step h
  cases steps_of_step h with
  | skip =>
      exact ⟨fun _ he => .inl he, fun _ he => .inl he, fun _ h => h⟩
  | duplicate e now _ =>
      exact ⟨fun _ he => .inl he, fun _ he => .inl he, fun _ h => h⟩
  | count e now _ hopen =>
      rw [← List.append_cancel_left harrived]
      refine ⟨fun e' he => ?_, fun _ he => .inl he, fun _ h => h⟩
      rcases List.mem_append.1 he with he | he
      · exact .inl he
      · obtain rfl := List.mem_singleton.1 he
        exact .inr ⟨⟨now, List.mem_singleton_self _⟩, hopen⟩
  | drop e now _ hlate =>
      rw [← List.append_cancel_left harrived]
      refine ⟨fun _ he => .inl he, fun e' he => ?_, fun _ h => h⟩
      rcases List.mem_append.1 he with he | he
      · exact .inl he
      · obtain rfl := List.mem_singleton.1 he
        exact .inr ⟨now, List.mem_singleton_self _⟩
  | advance w hw =>
      refine ⟨fun _ he => .inl he, fun _ he => .inl he, fun time hlate => ?_⟩
      rw [lateAtWindow_eq_windowFired] at hlate ⊢
      exact windowFired_mono hw hlate

theorem since_run {log : List Action} {s t : Job} (h : job.run s log = some t) :
    Since s t (log.flatMap arrivalOf) := by
  induction log generalizing s with
  | nil =>
      obtain rfl : s = t := by simpa using h
      exact .refl s
  | cons a log ih =>
      rw [System.run_cons] at h
      obtain ⟨u, hu, hrest⟩ := Option.bind_eq_some_iff.1 h
      rw [List.flatMap_cons]
      exact (since_step hu).trans (ih hrest)

/-- What passes the deduplication of a run is in its log. -/
theorem arrival_of_deduped {log : List Action} {s : Job} (h : job.run Job.start log = some s)
    {e : Event} (he : e ∈ s.deduped) : ∃ now, (e, now) ∈ log.flatMap arrivalOf := by
  have hsince := since_run h
  rw [(deduped_perm (System.reachable_of_run h)).mem_iff, List.mem_append] at he
  rcases he with he | he
  · rcases hsince.counted e he with he | ⟨hnow, -⟩
    · cases he
    · exact hnow
  · rcases hsince.late e he with he | hnow
    · cases he
    · exact hnow

/-- What was found late is late for good. -/
theorem late_of_mem_late (h : job.Reachable s) :
    ∀ e ∈ s.late, lateAtWindow s.watermark e.eventTime = true := by
  refine job_invariant
    (I := fun s => ∀ e ∈ s.late, lateAtWindow s.watermark e.eventTime = true) ?_ ?_ h
  · intro e he
    cases he
  intro s t hs hst
  cases hst with
  | skip => exact hs
  | duplicate e now _ => exact hs
  | count e now _ _ => exact hs
  | drop e now _ hlate =>
      intro e' he
      rcases List.mem_append.1 he with he | he
      · exact hs e' he
      · obtain rfl := List.mem_singleton.1 he
        exact hlate
  | advance w hw =>
      intro e he
      have hlate := hs e he
      rw [lateAtWindow_eq_windowFired] at hlate ⊢
      exact windowFired_mono hw hlate

end AdPipeline.Settlement
