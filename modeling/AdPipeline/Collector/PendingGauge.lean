import AdPipeline.Collector.ReplayCall

/-!
# The gauge of pending lines

`CollectorMetrics` raises `collector.fallback.pending` with each line appended, and lowers it at the
end of a replay by the publishes that succeeded. Lines leave the pending files when a file is
renamed. `gauge_of_gaugeSafe` says that the two agree whenever no replay is running, as long as a
file is renamed with just the lines whose publish succeeded, none of whose lines was published is
kept, and no replay ends in an error after a file whose lines were published.
-/

namespace AdPipeline.Collector

namespace FallbackReplay

open FallbackDirectory

/-- The process with its gauge. Replays do not overlap, and so one name is enough for them. -/
structure Metered where
  state : State Unit
  fallbackBacklog : ℤ

/-- What a step adds to the gauge: `fallback` after an append, `fallbackDrained` at the end of a
replay. A publish that succeeds outside the replays changes neither the gauge nor the files. -/
def gaugeChange (s : State Unit) : Action Unit → ℤ
  | .append _ _ => 1
  | .reappend _ _ _ => 1
  | .finish r =>
    match s.replays r with
    | .running result _ _ => -result.replayed
    | _ => 0
  | _ => 0

def meteredStep (s : Metered) (a : Action Unit) : Option Metered :=
  (step s.state a).map fun t => ⟨t, s.fallbackBacklog + gaugeChange s.state a⟩

/-- The process, with an empty directory at first. -/
def metered : Lib.System Metered (Action Unit) := ⟨⟨start, 0⟩, meteredStep⟩

/-- The gauge is the number of pending lines. -/
structure GaugeTrue (s : Metered) : Prop where
  eq_length : s.fallbackBacklog = (pendingLines s.state.dir).length
  nonneg : 0 ≤ s.fallbackBacklog
  zero : s.fallbackBacklog = 0 → pendingLines s.state.dir = []

/-- The step does not part the gauge from the pending lines: a file is renamed with as many lines as
publishes succeeded, a file that is kept had none that did, and a replay that ends in an error has
no file behind it whose publishes did. -/
def GaugeSafe (s : Metered) : Action Unit → Prop
  | .rename r =>
    ∀ result rest f, current s.state r = some (result, rest, f) →
      if (s.state.dir.move f.file (doneName f.file)).isSome = true then
        (s.state.dir.linesOf f.file).length = f.accepted
      else result.replayed = 0
  | .keep r => ∀ result rest f, current s.state r = some (result, rest, f) → f.accepted = 0
  | .read r =>
    ∀ result file rest, s.state.replays r = .running result (file :: rest) none →
      file ∉ s.state.dir → result.replayed = 0
  | .abort r =>
    ∀ result rest cur, s.state.replays r = .running result rest cur → result.replayed = 0
  | _ => True

/-! ## The gauge along a replay -/

/-- The publishes that a running replay has counted. -/
def Phase.replayed : Phase → ℕ
  | .running result _ _ => result.replayed
  | _ => 0

/-- The gauge counts the pending lines and what a running replay will take off it. -/
def GaugeBalanced (s : Metered) : Prop :=
  s.fallbackBacklog =
    (pendingLines s.state.dir).length + ((s.state.replays ()).replayed : ℤ)

/-- A running replay has only pending files. -/
def FilesPending (s : State Unit) : Prop :=
  ∀ result rest cur, s.replays () = .running result rest cur →
    ∀ name ∈ filesLeft rest cur, isPending name = true

theorem filesPending_of_not_running {s : State Unit} (h : ¬ Running s ()) : FilesPending s :=
  fun result rest cur hrun => absurd ⟨result, rest, cur, hrun⟩ h

/-- A running replay takes no file in. -/
theorem FilesPending.of_subset {s t : State Unit} (h : FilesPending s)
    {result result' : ReplayResult} {rest rest' : List String} {cur cur' : Option FileReplay}
    (hrun : s.replays () = .running result rest cur)
    (hrun' : t.replays () = .running result' rest' cur')
    (hsub : ∀ name ∈ filesLeft rest' cur', name ∈ filesLeft rest cur) : FilesPending t := by
  intro result'' rest'' cur'' hrun'' name hname
  rw [hrun'] at hrun''
  simp only [Phase.running.injEq] at hrun''
  obtain ⟨-, rfl, rfl⟩ := hrun''
  exact h result rest cur hrun name (hsub name hname)

/-- A replay goes on with the files it has listed. -/
theorem FilesPending.step {s t : State Unit} {a : Action Unit} (h : FilesPending s)
    (hst : FallbackReplay.step s a = some t) : FilesPending t := by
  cases ha : a.replay with
  | none =>
      cases a with
      | append now record =>
          obtain rfl := Option.some.inj hst
          exact h
      | _ => cases ha
  | some r =>
      cases advances_of_step ha hst with
      | listNone => exact filesPending_of_not_running (not_running_finished s () _)
      | list =>
          intro result rest cur hrun name hname
          rw [replays_setPhase] at hrun
          simp only [Phase.running.injEq] at hrun
          obtain ⟨-, rfl, rfl⟩ := hrun
          exact (mem_pendingFiles.1 hname).2
      | read hrun => exact h.of_subset hrun (replays_setPhase s () _) fun _ hname => hname
      | readError => exact filesPending_of_not_running (not_running_errored s ())
      | send hrun => exact h.of_subset hrun (replays_setPhase s () _) fun _ hname => hname
      | ack hrun => exact h.of_subset hrun (replays_setPhase s () _) fun _ hname => hname
      | fail hrun => exact h.of_subset hrun (replays_setPhase s () _) fun _ hname => hname
      | reappend now hrun => exact h.of_subset hrun (replays_setPhase s () _) fun _ hname => hname
      | rename hrun =>
          exact h.of_subset hrun (replays_setPhase s () _) fun _ => List.mem_cons_of_mem _
      | renameError => exact filesPending_of_not_running (not_running_errored s ())
      | keep hrun =>
          exact h.of_subset hrun (replays_setPhase s () _) fun _ => List.mem_cons_of_mem _
      | finish => exact filesPending_of_not_running (not_running_finished s () _)
      | abort => exact filesPending_of_not_running (not_running_errored s ())

theorem replayed_of_not_running {s : State Unit} (h : ¬ Running s ()) :
    (s.replays ()).replayed = 0 := by
  cases hphase : s.replays () with
  | running result rest cur => exact absurd ⟨result, rest, cur, hphase⟩ h
  | _ => rfl

/-- What the next state has to add up to. -/
theorem gaugeBalanced_iff {s : Metered} {u : State Unit} {phase : Phase} {change : ℤ}
    (hb : GaugeBalanced s) (hphase : s.state.replays () = phase) :
    GaugeBalanced ⟨u, s.fallbackBacklog + change⟩ ↔
      ((pendingLines s.state.dir).length : ℤ) + phase.replayed + change =
        (pendingLines u.dir).length + (u.replays ()).replayed := by
  unfold GaugeBalanced at hb ⊢
  rw [hb, hphase]

section

variable {s : Metered} {result : ReplayResult} {rest : List String} {f : FileReplay}

theorem gaugeSafe_rename_iff (hrun : s.state.replays () = .running result rest (some f)) :
    GaugeSafe s (.rename ()) ↔
      if (s.state.dir.move f.file (doneName f.file)).isSome = true then
        (s.state.dir.linesOf f.file).length = f.accepted
      else result.replayed = 0 := by
  have hcur := current_eq_some.2 hrun
  constructor
  · exact fun h => h result rest f hcur
  · intro h result' rest' f' hcur'
    obtain ⟨rfl, rfl, rfl⟩ : result = result' ∧ rest = rest' ∧ f = f' := by
      simpa only [Option.some.injEq, Prod.mk.injEq] using hcur.symm.trans hcur'
    exact h

theorem gaugeSafe_keep_iff (hrun : s.state.replays () = .running result rest (some f)) :
    GaugeSafe s (.keep ()) ↔ f.accepted = 0 := by
  have hcur := current_eq_some.2 hrun
  constructor
  · exact fun h => h result rest f hcur
  · intro h result' rest' f' hcur'
    obtain ⟨rfl, rfl, rfl⟩ : result = result' ∧ rest = rest' ∧ f = f' := by
      simpa only [Option.some.injEq, Prod.mk.injEq] using hcur.symm.trans hcur'
    exact h

theorem gaugeSafe_read_iff {file : String}
    (hrun : s.state.replays () = .running result (file :: rest) none) :
    GaugeSafe s (.read ()) ↔ (file ∉ s.state.dir → result.replayed = 0) := by
  constructor
  · exact fun h => h result file rest hrun
  · intro h result' file' rest' hrun'
    rw [hrun] at hrun'
    simp only [Phase.running.injEq, List.cons.injEq] at hrun'
    obtain ⟨rfl, ⟨rfl, -⟩, -⟩ := hrun'
    exact h

theorem gaugeSafe_abort_iff {cur : Option FileReplay}
    (hrun : s.state.replays () = .running result rest cur) :
    GaugeSafe s (.abort ()) ↔ result.replayed = 0 := by
  constructor
  · exact fun h => h result rest cur hrun
  · intro h result' rest' cur' hrun'
    rw [hrun] at hrun'
    simp only [Phase.running.injEq] at hrun'
    exact hrun'.1 ▸ h

end

/-- A step of the process keeps the gauge balanced exactly when it is safe. -/
theorem gaugeBalanced_step_iff {s t : Metered} {a : Action Unit} (hfiles : FilesPending s.state)
    (hb : GaugeBalanced s) (hst : meteredStep s a = some t) : GaugeBalanced t ↔ GaugeSafe s a := by
  obtain ⟨u, hu, rfl⟩ := Option.map_eq_some_iff.1 hst
  clear hst
  cases ha : a.replay with
  | none =>
      cases a with
      | append now record =>
          obtain rfl := Option.some.inj hu
          have hlength := (perm_pendingLines_append s.state.dir now
            ⟨s.state.next, record⟩).length_eq
          rw [List.length_cons] at hlength
          refine iff_of_true ((gaugeBalanced_iff hb rfl).2 ?_) trivial
          simp only [gaugeChange, hlength]
          omega
      | _ => cases ha
  | some r =>
      cases advances_of_step ha hu with
      | listNone hidle =>
          refine iff_of_true ((gaugeBalanced_iff hb rfl).2 ?_) trivial
          rw [replayed_of_not_running hidle, replays_setPhase]
          rfl
      | list hidle =>
          refine iff_of_true ((gaugeBalanced_iff hb rfl).2 ?_) trivial
          rw [replayed_of_not_running hidle, replays_setPhase]
          rfl
      | @read result file rest lines hrun hlines =>
          refine iff_of_true ((gaugeBalanced_iff hb hrun).2 ?_) ((gaugeSafe_read_iff hrun).2 ?_)
          · rw [replays_setPhase]
            exact Int.add_zero _
          · exact fun hgone => absurd (AList.lookup_isSome.1 (by rw [hlines]; rfl)) hgone
      | @readError result file rest hrun hlines =>
          rw [gaugeSafe_read_iff hrun, gaugeBalanced_iff hb hrun, replays_setPhase]
          have hgone : file ∉ s.state.dir := AList.lookup_eq_none.1 hlines
          simp only [gaugeChange, Phase.replayed, setPhase, hgone, not_false_eq_true, true_imp_iff]
          omega
      | send hrun =>
          refine iff_of_true ((gaugeBalanced_iff hb hrun).2 ?_) trivial
          rw [replays_setPhase]
          exact Int.add_zero _
      | ack hrun =>
          refine iff_of_true ((gaugeBalanced_iff hb hrun).2 ?_) trivial
          simp only [replays_setPhase]
          exact Int.add_zero _
      | fail hrun =>
          refine iff_of_true ((gaugeBalanced_iff hb hrun).2 ?_) trivial
          rw [replays_setPhase]
          exact Int.add_zero _
      | @reappend id now result rest f l hrun hl =>
          have hlength := (perm_pendingLines_append s.state.dir now l).length_eq
          rw [List.length_cons] at hlength
          refine iff_of_true ((gaugeBalanced_iff hb hrun).2 ?_) trivial
          simp only [gaugeChange, replays_setPhase, Phase.replayed, hlength]
          omega
      | @rename result rest f dir hrun hdone hmove =>
          have hpending := hfiles result rest (some f) hrun f.file List.mem_cons_self
          have hlength := (perm_pendingLines_move hpending hmove).length_eq
          rw [List.length_append] at hlength
          rw [gaugeSafe_rename_iff hrun, gaugeBalanced_iff hb hrun, hmove,
            if_pos Option.isSome_some]
          simp only [gaugeChange, replays_setPhase, Phase.replayed, ReplayResult.add, hlength]
          omega
      | @renameError result rest f hrun hdone hmove =>
          rw [gaugeSafe_rename_iff hrun, gaugeBalanced_iff hb hrun, hmove, replays_setPhase,
            if_neg (by simp)]
          simp only [gaugeChange, Phase.replayed, setPhase]
          omega
      | @keep result rest f hrun hdone =>
          rw [gaugeSafe_keep_iff hrun, gaugeBalanced_iff hb hrun, replays_setPhase]
          simp only [gaugeChange, Phase.replayed, ReplayResult.add, setPhase]
          omega
      | @finish result hrun =>
          refine iff_of_true ((gaugeBalanced_iff hb hrun).2 ?_) trivial
          rw [replays_setPhase]
          simp only [gaugeChange, hrun, Phase.replayed, setPhase]
          omega
      | abort hrunning =>
          obtain ⟨result, rest, cur, hrun⟩ := hrunning
          rw [gaugeSafe_abort_iff hrun, gaugeBalanced_iff hb hrun, replays_setPhase]
          simp only [gaugeChange, Phase.replayed, setPhase]
          omega

/-- In every state of a run all of whose steps are safe, the gauge is the number of pending lines
whenever no replay is running, and the next step keeps the balance exactly when it is safe. -/
theorem gauge_of_gaugeSafe (s : Metered) (hs : metered.Reaches GaugeSafe s) :
    (¬ Running s.state () → GaugeTrue s) ∧
      ∀ a t, meteredStep s a = some t → (GaugeBalanced t ↔ GaugeSafe s a) := by
  have hfiles : ∀ s, metered.Reachable s → FilesPending s.state := by
    intro s hs
    refine hs.invariant (I := fun s => FilesPending s.state) ?_ ?_
    · exact filesPending_of_not_running nofun
    · intro s a t h hst
      obtain ⟨u, hu, rfl⟩ := Option.map_eq_some_iff.1 hst
      exact h.step hu
  have hbalanced : GaugeBalanced s := by
    refine hs.invariant (I := GaugeBalanced) ?_ ?_
    · rfl
    · intro s a t hs hb hok hst
      exact (gaugeBalanced_step_iff (hfiles s hs.reachable) hb hst).2 hok
  refine ⟨fun hidle => ?_, fun a t hst =>
    gaugeBalanced_step_iff (hfiles s hs.reachable) hbalanced hst⟩
  have heq : s.fallbackBacklog = (pendingLines s.state.dir).length := by
    rw [hbalanced, replayed_of_not_running hidle]
    exact Int.add_zero _
  refine ⟨heq, ?_, fun hzero => ?_⟩
  · rw [heq]
    exact Int.natCast_nonneg _
  · rw [heq] at hzero
    exact List.length_eq_zero_iff.1 (Int.natCast_eq_zero.1 hzero)

/-- A record is appended and replayed, and the gauge is back at zero. -/
theorem gauge_of_gaugeSafe_replay :
    ∃ s : Metered, s.state.acked = [0] ∧ s.fallbackBacklog = 0 ∧ GaugeTrue s := by
  have h0 : metered.Reaches GaugeSafe ⟨start, 0⟩ := .init
  have h1 := h0.take (.append ⟨0⟩ ⟨"ad.click", "r1", "p1"⟩) trivial rfl
  have h2 := h1.take (.list ()) trivial rfl
  have h3 := h2.take (.read ()) ((gaugeSafe_read_iff rfl).2 fun _ => rfl) rfl
  have h4 := h3.take (.send ()) trivial rfl
  have h5 := h4.take (.ack () 0) trivial rfl
  have h6 := h5.take (.rename ()) ((gaugeSafe_rename_iff rfl).2 ((if_pos rfl).mpr rfl)) rfl
  have h7 := h6.take (.finish ()) trivial rfl
  exact ⟨_, rfl, rfl, (gauge_of_gaugeSafe _ h7).1 nofun⟩

/-- A replay of two records one of which fails leaves three lines and a gauge of two. -/
theorem partial_failure_parts_gauge :
    ¬ ∀ s, metered.Reachable s → ¬ Running s.state () → GaugeTrue s := by
  intro h
  have hreach := Lib.System.reachable_of_run (show metered.run _
    [.append ⟨0⟩ ⟨"ad.click", "r1", "p1"⟩, .append ⟨0⟩ ⟨"ad.click", "r2", "p2"⟩, .list (), .read (),
      .send (), .send (), .ack () 0, .fail () 1, .reappend () 1 ⟨0⟩, .keep (), .finish ()]
      = some _ from rfl)
  have htrue := (h _ hreach nofun).eq_length
  revert htrue
  decide

end FallbackReplay

end AdPipeline.Collector
