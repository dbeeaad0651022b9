import AdPipeline.Generator.Funnel
import AdPipeline.Lib.Checks

/-!
# What a session shows

`session` says what a viewer does who is not stopped: the marks from the start position up to the
point of leaving, each with its ping or its ads, and an end. `watch` finds this out in a loop that
breaks, returns and checks `stop_event` in between; it does the same, and a stop only cuts off the
end (`watch_sessions`). A session ends as abandoned only when a ping lies behind the point of
leaving: a viewer who leaves after the last ping is reported to have watched to the end.
-/

namespace AdPipeline.Generator

open Lib

/-! ## The abstract session -/

/-- The mark is not before the start position. -/
def SessionDraws.reaches (d : SessionDraws) (m : Mark) : Bool := d.startPos ≤ (m.time : ℚ)

/-- A position that the viewer starts at or before, and has not left before. -/
def SessionDraws.watches (d : SessionDraws) (t : ℕ) : Bool :=
  d.startPos ≤ (t : ℚ) && !d.abandonAt.any fun a => a < (t : ℚ)

/-- The ads of a break. -/
def podEvents (adDecision : Bool) (pod : PodDraws) (playhead : ℕ) : List ViewerEvent :=
  (List.range (pod.size.val + 1)).flatMap fun slot =>
    oneAd adDecision pod.podId slot playhead (pod.ads slot)

/-- What a mark shows. -/
def markEvents (adDecision : Bool) (d : SessionDraws) (m : Mark) : List ViewerEvent :=
  match m.kind with
  | .ping => [.progress m.time]
  | .adBreak => podEvents adDecision (d.pods m.time) m.time

/-- The end of a session with these marks. -/
def ending (d : SessionDraws) (l : List Mark) : List ViewerEvent :=
  if l.any fun m => d.reaches m && d.abandons m then [.sessionEnd d.abandonAt "abandon"]
  else [.contentEnd d.content.durationS, .sessionEnd none "completed"]

/-- The events of the marks that are watched, and the end. -/
def visited (adDecision : Bool) (d : SessionDraws) (l : List Mark) : List ViewerEvent :=
  (l.filter fun m => d.watches m.time).flatMap (markEvents adDecision d) ++ ending d l

/-- A session that is not stopped. -/
def session (adDecision : Bool) (d : SessionDraws) : List ViewerEvent :=
  .sessionStart d.content.kind d.startPos :: visited adDecision d (marks d.content)

/-! ## The loops -/

theorem runs_slots (adDecision : Bool) (pod : PodDraws) (playhead : ℕ) (l : List ℕ) :
    Runs (fun n => slots adDecision pod playhead n l) l.length
      (l.flatMap fun slot => oneAd adDecision pod.podId slot playhead (pod.ads slot)) := by
  induction l with
  | nil =>
      refine ⟨fun n _ => ?_, fun n hn => absurd hn (Nat.not_lt_zero n)⟩
      rw [slots]
      rfl
  | cons slot rest ih =>
      rw [List.flatMap_cons, List.length_cons]
      exact (ih.emit _).check (by rw [slots]) fun n => by rw [slots]

/-- A session that is stopped shows no further mark. -/
theorem visit_zero (adDecision : Bool) (d : SessionDraws) (l : List Mark) :
    visit adDecision d 0 l = ([], 0) := by
  induction l with
  | nil => rw [visit]
  | cons m rest ih =>
      rw [visit]
      split_ifs
      · exact ih
      · rfl

theorem watches_time (d : SessionDraws) (m : Mark) :
    d.watches m.time = (d.reaches m && !d.abandons m) := rfl

/-- Whoever has left before a mark has left before those behind it. -/
theorem abandons_mono {d : SessionDraws} {m m' : Mark} (hle : m.time ≤ m'.time)
    (h : d.abandons m = true) : d.abandons m' = true := by
  simp only [SessionDraws.abandons, Option.any_eq_true, decide_eq_true_eq] at h ⊢
  obtain ⟨a, ha, hlt⟩ := h
  exact ⟨a, ha, lt_of_lt_of_le hlt (by exact_mod_cast hle)⟩

/-- Left alone, the loop over sorted marks shows those that are watched. -/
theorem exists_runs_visit (adDecision : Bool) (d : SessionDraws) {l : List Mark}
    (hsorted : l.Pairwise fun m m' => m.time ≤ m'.time) :
    ∃ k, Runs (fun n => visit adDecision d n l) k (visited adDecision d l) := by
  induction l with
  | nil =>
      exact ⟨1, (Runs.pure _).check (by rw [visit]) fun n => by rw [visit]; rfl⟩
  | cons m rest ih =>
      obtain ⟨hlater, hrest⟩ := List.pairwise_cons.1 hsorted
      obtain ⟨k, hk⟩ := ih hrest
      by_cases hbefore : (m.time : ℚ) < d.startPos
      · -- a mark before the start
        have hreaches : d.reaches m = false := decide_eq_false (not_le.2 hbefore)
        refine ⟨k, ?_⟩
        have hsame : visited adDecision d (m :: rest) = visited adDecision d rest := by
          simp [visited, ending, watches_time, hreaches]
        have hskip : (fun n => visit adDecision d n (m :: rest)) =
            fun n => visit adDecision d n rest := by
          funext n
          cases n <;> rw [visit.eq_def] <;> exact if_pos hbefore
        rw [hsame, hskip]
        exact hk
      have hreaches : d.reaches m = true := decide_eq_true (not_lt.1 hbefore)
      have h0 : visit adDecision d 0 (m :: rest) = ([], 0) := visit_zero adDecision d _
      by_cases habandon : d.abandons m = true
      · -- the viewer has left before this mark and all behind it
        have hnone : (m :: rest).filter (fun m => d.watches m.time) = [] := by
          rw [List.filter_eq_nil_iff]
          intro m' hm'
          have habandon' : d.abandons m' = true := by
            rcases List.mem_cons.1 hm' with rfl | hm'
            · exact habandon
            · exact abandons_mono (hlater m' hm') habandon
          simp [watches_time, habandon']
        have hshown : visited adDecision d (m :: rest) = [.sessionEnd d.abandonAt "abandon"] := by
          rw [visited, hnone, List.flatMap_nil, List.nil_append, ending, if_pos]
          simp [hreaches, habandon]
        rw [hshown]
        exact ⟨1, (Runs.pure _).check h0 fun n => by
          rw [visit, if_neg hbefore]
          simp only [habandon, if_true]⟩
      · have hshown : visited adDecision d (m :: rest) =
            markEvents adDecision d m ++ visited adDecision d rest := by
          simp [visited, ending, watches_time, hreaches, habandon]
        rw [hshown]
        cases hkind : m.kind with
        | ping =>
            have hevents : markEvents adDecision d m = [.progress m.time] := by
              simp [markEvents, hkind]
            rw [hevents]
            refine ⟨k + 1, (hk.emit [.progress m.time]).check h0 fun n => ?_⟩
            rw [visit, if_neg hbefore]
            simp only [habandon, hkind]
            rfl
        | adBreak =>
            have hevents : markEvents adDecision d m =
                podEvents adDecision (d.pods m.time) m.time := by
              simp [markEvents, hkind]
            rw [hevents]
            have hpod := runs_slots adDecision (d.pods m.time) m.time
              (List.range ((d.pods m.time).size.val + 1))
            refine ⟨_, (hpod.andThen hk (visit_zero adDecision d rest)).check h0 fun n => ?_⟩
            rw [visit, if_neg hbefore]
            simp only [habandon, hkind]
            rfl

/-! ## The marks of a content -/

/-- An event of an ad. -/
def ViewerEvent.ofAd : ViewerEvent → Bool
  | sessionStart _ _ => false
  | progress _ => false
  | contentEnd _ => false
  | sessionEnd _ _ => false
  | _ => true

/-- The position of a ping. -/
def ViewerEvent.ping : ViewerEvent → Option ℕ
  | progress playhead => some playhead
  | _ => none

/-- The position an event is at. -/
def ViewerEvent.position : ViewerEvent → Option ℚ
  | sessionStart _ playhead => some playhead
  | progress playhead => some playhead
  | contentEnd playhead => some playhead
  | sessionEnd playhead _ => playhead
  | adRequest _ _ _ playhead => some playhead
  | adResponse common => some common.playheadS
  | impression common => some common.playheadS
  | quartile _ common => some common.playheadS
  | click common => some common.playheadS

theorem pairwise_marks (c : Content) : (marks c).Pairwise Mark.le := by
  have : Std.Total Mark.le := ⟨fun m m' => by
    rcases lt_trichotomy m.time m'.time with h | h | h
    · exact .inl (.inl h)
    · cases hm : m.kind with
      | adBreak => exact .inl (.inr ⟨h, .inl hm⟩)
      | ping => exact .inr (.inr ⟨h.symm, .inr hm⟩)
    · exact .inr (.inl h)⟩
  have : IsTrans Mark Mark.le := ⟨fun a b c hab hbc => by
    rcases hab with hab | ⟨hab, hkind⟩
    · rcases hbc with hbc | ⟨hbc, -⟩
      · exact .inl (hab.trans hbc)
      · exact .inl (hbc ▸ hab)
    · rcases hbc with hbc | ⟨hbc, hkind'⟩
      · exact .inl (hab ▸ hbc)
      · refine .inr ⟨hab.trans hbc, ?_⟩
        rcases hkind with hkind | hkind
        · exact .inl hkind
        · rcases hkind' with hkind' | hkind'
          · rw [hkind] at hkind'
            exact absurd hkind' (by decide)
          · exact .inr hkind'⟩
  exact List.pairwise_insertionSort _ _

theorem Mark.le.time_le {m m' : Mark} (h : m.le m') : m.time ≤ m'.time := by
  rcases h with h | ⟨h, -⟩
  · exact h.le
  · exact h.le

theorem mem_marks {c : Content} {m : Mark} : m ∈ marks c ↔
    (m.kind = .ping ∧ m.time ∈ pings c) ∨ (m.kind = .adBreak ∧ m.time ∈ c.adBreaks) := by
  obtain ⟨t, kind⟩ := m
  rw [marks, (List.perm_insertionSort _ _).mem_iff, List.mem_dedup, List.mem_append, List.mem_map,
    List.mem_map]
  cases kind <;> simp

theorem nodup_marks (c : Content) : (marks c).Nodup :=
  (List.perm_insertionSort _ _).nodup_iff.2 (List.nodup_dedup _)

/-- The marks of one kind stand in the order of their positions. -/
theorem times_marks (c : Content) (kind : MarkKind) {times : List ℕ}
    (hsorted : times.Pairwise (· < ·)) (htimes : ∀ t, ⟨t, kind⟩ ∈ marks c ↔ t ∈ times) :
    ((marks c).filter fun m => m.kind = kind).map Mark.time = times := by
  have hordered : (((marks c).filter fun m => m.kind = kind).map Mark.time).Pairwise (· ≤ ·) :=
    List.pairwise_map.2 (((pairwise_marks c).filter _).imp Mark.le.time_le)
  have hnodup : (((marks c).filter fun m => m.kind = kind).map Mark.time).Nodup := by
    refine List.Nodup.map_on (fun m hm m' hm' htime => ?_) ((nodup_marks c).filter _)
    have hkind := of_decide_eq_true (List.mem_filter.1 hm).2
    have hkind' := of_decide_eq_true (List.mem_filter.1 hm').2
    obtain ⟨t, k⟩ := m
    obtain ⟨t', k'⟩ := m'
    simp only at htime hkind hkind'
    rw [htime, hkind, hkind']
  have hperm : (((marks c).filter fun m => m.kind = kind).map Mark.time).Perm times := by
    refine (List.perm_ext_iff_of_nodup hnodup hsorted.nodup).2 fun t => ?_
    rw [← htimes t, List.mem_map]
    constructor
    · rintro ⟨m, hm, rfl⟩
      obtain ⟨hm, hkind⟩ := List.mem_filter.1 hm
      rw [← of_decide_eq_true hkind]
      exact hm
    · intro hm
      exact ⟨⟨t, kind⟩, List.mem_filter.2 ⟨hm, decide_eq_true rfl⟩, rfl⟩
  exact hperm.eq_of_pairwise (fun _ _ _ _ => le_antisymm) hordered (hsorted.imp le_of_lt)

theorem pairwise_pings (c : Content) : (pings c).Pairwise (· < ·) :=
  List.pairwise_lt_range' progressInterval (by decide)

/-! ## What is shown -/

theorem mem_shownAd {adDecision : Bool} {d : AdDraws} {c : AdFields} {e : ViewerEvent}
    (he : e ∈ shownAd adDecision d c) : e.ofAd = true ∧ e.position = some (c.playheadS : ℚ) := by
  rw [shownAd_eq] at he
  obtain ⟨s, -, rfl⟩ := List.mem_map.1 he
  cases s <;> exact ⟨rfl, rfl⟩

theorem mem_oneAd {adDecision : Bool} {podId : String} {slot playhead : ℕ} {d : AdDraws}
    {e : ViewerEvent} (he : e ∈ oneAd adDecision podId slot playhead d) :
    e.ofAd = true ∧ e.position = some (playhead : ℚ) := by
  rcases List.mem_cons.1 he with rfl | he
  · exact ⟨rfl, rfl⟩
  split at he
  · exact absurd he List.not_mem_nil
  · split_ifs at he
    · exact absurd he List.not_mem_nil
    · exact mem_shownAd he

theorem mem_podEvents {adDecision : Bool} {pod : PodDraws} {playhead : ℕ} {e : ViewerEvent}
    (he : e ∈ podEvents adDecision pod playhead) :
    e.ofAd = true ∧ e.position = some (playhead : ℚ) := by
  obtain ⟨slot, -, he⟩ := List.mem_flatMap.1 he
  exact mem_oneAd he

theorem position_markEvents {adDecision : Bool} {d : SessionDraws} {m : Mark} {e : ViewerEvent}
    (he : e ∈ markEvents adDecision d m) : e.position = some (m.time : ℚ) := by
  unfold markEvents at he
  split at he
  · rw [List.mem_singleton.1 he]
    rfl
  · exact (mem_podEvents he).2

theorem ViewerEvent.ping_of_ofAd {e : ViewerEvent} (h : e.ofAd = true) : e.ping = none := by
  cases e <;> first | rfl | exact absurd h Bool.false_ne_true

/-- The pings of some marks. -/
theorem pings_markEvents (adDecision : Bool) (d : SessionDraws) (l : List Mark) :
    (l.flatMap (markEvents adDecision d)).filterMap ViewerEvent.ping =
      (l.filter fun m => m.kind = .ping).map Mark.time := by
  induction l with
  | nil => rfl
  | cons m rest ih =>
      rw [List.flatMap_cons, List.filterMap_append, ih]
      cases hkind : m.kind with
      | ping =>
          have hevents : markEvents adDecision d m = [.progress m.time] := by
            simp [markEvents, hkind]
          rw [hevents, List.filter_cons_of_pos (by simp [hkind]), List.map_cons]
          rfl
      | adBreak =>
          have hnone : (markEvents adDecision d m).filterMap ViewerEvent.ping = [] := by
            refine List.filterMap_eq_nil_iff.2 fun e he => ViewerEvent.ping_of_ofAd ?_
            simp only [markEvents, hkind] at he
            exact (mem_podEvents he).1
          rw [hnone, List.filter_cons_of_neg (by simp [hkind]), List.nil_append]

/-- The ads of some marks. -/
theorem ads_markEvents (adDecision : Bool) (d : SessionDraws) (l : List Mark) :
    (l.flatMap (markEvents adDecision d)).filter ViewerEvent.ofAd =
      ((l.filter fun m => m.kind = .adBreak).map Mark.time).flatMap fun t =>
        podEvents adDecision (d.pods t) t := by
  induction l with
  | nil => rfl
  | cons m rest ih =>
      rw [List.flatMap_cons, List.filter_append, ih]
      cases hkind : m.kind with
      | ping =>
          have hnone : (markEvents adDecision d m).filter ViewerEvent.ofAd = [] := by
            simp [markEvents, hkind, ViewerEvent.ofAd]
          rw [hnone, List.nil_append,
            @List.filter_cons_of_neg _ (fun m : Mark => m.kind = .adBreak) _ _ (by simp [hkind])]
      | adBreak =>
          have hevents : markEvents adDecision d m =
              podEvents adDecision (d.pods m.time) m.time := by
            simp [markEvents, hkind]
          rw [hevents, List.filter_cons_of_pos (by simp [hkind]), List.map_cons,
            List.flatMap_cons, List.filter_eq_self.2 fun e he => (mem_podEvents he).1]

/-- The marks of one kind that are watched. -/
theorem times_watched (d : SessionDraws) (l : List Mark) (kind : MarkKind) :
    ((l.filter fun m => d.watches m.time).filter fun m => m.kind = kind).map Mark.time =
      ((l.filter fun m => m.kind = kind).map Mark.time).filter d.watches := by
  rw [List.filter_map, List.filter_filter, List.filter_filter]
  congr 2
  funext m
  exact Bool.and_comm _ _

/-! ## Sessions of the catalog -/

/-- What the draws of a session keep to. -/
structure SessionDraws.Drawn (d : SessionDraws) : Prop where
  content : d.content ∈ catalog
  startPos : d.startPos ≤ 9 / 10 * (d.content.durationS : ℚ)
  abandonAt : ∀ a ∈ d.abandonAt, d.startPos ≤ a

/-- Every content is a number of pings long, and its breaks are in order and before its end. -/
theorem catalog_spec : ∀ c ∈ catalog, 300 ≤ c.durationS ∧ c.durationS % progressInterval = 0 ∧
    c.adBreaks.Pairwise (· < ·) ∧ ∀ b ∈ c.adBreaks, b + progressInterval ≤ c.durationS := by
  decide

/-- The last ping of a content is the last mark. -/
theorem last_mark {c : Content} (hc : c ∈ catalog) :
    ⟨c.durationS - progressInterval, .ping⟩ ∈ marks c ∧
      ∀ m ∈ marks c, m.time + progressInterval ≤ c.durationS := by
  obtain ⟨hlength, hmod, -, hbreaks⟩ := catalog_spec c hc
  rw [progressInterval] at hmod
  have hpings : ∀ t, t ∈ pings c ↔ ∃ i < (c.durationS - 30 + 30 - 1) / 30, t = 30 + 30 * i :=
    fun t => List.mem_range'
  constructor
  · refine mem_marks.2 (.inl ⟨rfl, (hpings _).2 ⟨c.durationS / 30 - 2, ?_, ?_⟩⟩)
    · omega
    · simp only [progressInterval]
      omega
  · intro m hm
    rcases mem_marks.1 hm with ⟨-, hm⟩ | ⟨-, hm⟩
    · obtain ⟨i, hi, htime⟩ := (hpings _).1 hm
      rw [progressInterval]
      omega
    · exact hbreaks _ hm

/-- What a session shows: the pings and the breaks that are watched, at positions that never go
back, and an end that is reported as abandoned if a ping was still to come. -/
structure Shown (adDecision : Bool) (d : SessionDraws) (l : List ViewerEvent) : Prop where
  progress : l.filterMap ViewerEvent.ping = (pings d.content).filter d.watches
  ads : l.filter ViewerEvent.ofAd = (d.content.adBreaks.filter d.watches).flatMap fun t =>
    podEvents adDecision (d.pods t) t
  positions : (l.filterMap ViewerEvent.position).Pairwise (· ≤ ·)
  ended : l.getLast? = some (
    if d.abandonAt.any fun a => a < ((d.content.durationS - progressInterval : ℕ) : ℚ) then
      .sessionEnd d.abandonAt "abandon"
    else .sessionEnd none "completed")

theorem ending_eq {d : SessionDraws} (hd : d.Drawn) : ending d (marks d.content) =
    if d.abandonAt.any fun a => a < ((d.content.durationS - progressInterval : ℕ) : ℚ) then
      [.sessionEnd d.abandonAt "abandon"]
    else [.contentEnd d.content.durationS, .sessionEnd none "completed"] := by
  obtain ⟨hlast, hbefore⟩ := last_mark hd.content
  obtain ⟨hlength, -, -, -⟩ := catalog_spec _ hd.content
  have hreaches : d.reaches ⟨d.content.durationS - progressInterval, .ping⟩ = true := by
    have hcast : ((d.content.durationS - progressInterval : ℕ) : ℚ) = d.content.durationS - 30 := by
      rw [Nat.cast_sub (by rw [progressInterval]; omega)]
      rfl
    have h300 : (300 : ℚ) ≤ d.content.durationS := by exact_mod_cast hlength
    refine decide_eq_true ?_
    rw [hcast]
    linarith [hd.startPos]
  have hleaves : ((marks d.content).any fun m => d.reaches m && d.abandons m) =
      d.abandonAt.any fun a => a < ((d.content.durationS - progressInterval : ℕ) : ℚ) := by
    rw [Bool.eq_iff_iff, List.any_eq_true]
    constructor
    · rintro ⟨m, hm, hleft⟩
      have hle : m.time ≤ d.content.durationS - progressInterval :=
        Nat.le_sub_of_add_le (hbefore m hm)
      have hlater : d.abandons ⟨d.content.durationS - progressInterval, .ping⟩ = true :=
        abandons_mono hle (Bool.and_eq_true_iff.1 hleft).2
      exact hlater
    · intro hleft
      exact ⟨_, hlast, Bool.and_eq_true_iff.2 ⟨hreaches, hleft⟩⟩
  rw [ending, hleaves]

/-- The end is reported behind the start and all that is watched. -/
theorem position_ending {d : SessionDraws} (hd : d.Drawn) {e : ViewerEvent}
    (he : e ∈ ending d (marks d.content)) {p : ℚ} (hp : e.position = some p) :
    d.startPos ≤ p ∧ ∀ m ∈ marks d.content, d.watches m.time = true → (m.time : ℚ) ≤ p := by
  rw [ending] at he
  split_ifs at he
  · rw [List.mem_singleton.1 he] at hp
    have hleft : d.abandonAt = some p := hp
    refine ⟨hd.abandonAt p hleft, fun m _ hwatch => ?_⟩
    rw [SessionDraws.watches, hleft, Option.any_some, Bool.and_eq_true, Bool.not_eq_true'] at hwatch
    exact not_lt.1 (of_decide_eq_false hwatch.2)
  · rcases List.mem_cons.1 he with rfl | he
    · obtain rfl : (d.content.durationS : ℚ) = p := Option.some_inj.1 hp
      have hlength : (0 : ℚ) ≤ d.content.durationS := Nat.cast_nonneg _
      refine ⟨by linarith [hd.startPos], fun m hm _ => ?_⟩
      exact_mod_cast (Nat.le_add_right _ _).trans ((last_mark hd.content).2 m hm)
    · rw [List.mem_singleton.1 he] at hp
      exact absurd hp (Option.some_ne_none p).symm

theorem shown_session (adDecision : Bool) {d : SessionDraws} (hd : d.Drawn) :
    Shown adDecision d (session adDecision d) := by
  obtain ⟨-, -, hbreaks, -⟩ := catalog_spec _ hd.content
  obtain ⟨-, hbefore⟩ := last_mark hd.content
  have hpingTimes : ((marks d.content).filter fun m => m.kind = .ping).map Mark.time =
      pings d.content :=
    times_marks _ _ (pairwise_pings _) fun t => by simp [mem_marks]
  have hbreakTimes : ((marks d.content).filter fun m => m.kind = .adBreak).map Mark.time =
      d.content.adBreaks :=
    times_marks _ _ hbreaks fun t => by simp [mem_marks]
  constructor
  · have hend : (ending d (marks d.content)).filterMap ViewerEvent.ping = [] := by
      rw [ending]
      split_ifs <;> rfl
    rw [session, List.filterMap_cons_none rfl, visited, List.filterMap_append, pings_markEvents,
      times_watched, hpingTimes, hend, List.append_nil]
  · have hend : (ending d (marks d.content)).filter ViewerEvent.ofAd = [] := by
      rw [ending]
      split_ifs <;> rfl
    rw [session, List.filter_cons_of_neg Bool.false_ne_true, visited, List.filter_append,
      ads_markEvents, times_watched, hbreakTimes, hend, List.append_nil]
  · refine List.pairwise_filterMap.2
      (List.pairwise_cons.2 ⟨?_, List.pairwise_append.2 ⟨?_, ?_, ?_⟩⟩)
    · -- nothing is before the start
      rintro e he p hp p' hp'
      obtain rfl : d.startPos = p := Option.some_inj.1 hp
      rcases List.mem_append.1 he with he | he
      · obtain ⟨m, hm, he⟩ := List.mem_flatMap.1 he
        rw [position_markEvents he] at hp'
        obtain rfl := Option.some_inj.1 hp'
        have hwatch := (List.mem_filter.1 hm).2
        rw [watches_time, Bool.and_eq_true] at hwatch
        exact of_decide_eq_true hwatch.1
      · exact (position_ending hd he hp').1
    · refine List.pairwise_flatMap.2 ⟨fun m hm => ?_, ?_⟩
      · refine List.pairwise_of_forall_mem_list fun e he e' he' p hp p' hp' => ?_
        rw [position_markEvents he] at hp
        rw [position_markEvents he'] at hp'
        exact (Option.some_inj.1 (hp.symm.trans hp')).le
      · refine ((pairwise_marks _).filter _).imp fun hle e he e' he' p hp p' hp' => ?_
        rw [position_markEvents he] at hp
        rw [position_markEvents he'] at hp'
        obtain rfl := Option.some_inj.1 hp
        obtain rfl := Option.some_inj.1 hp'
        exact_mod_cast hle.time_le
    · rw [ending]
      split_ifs
      · exact List.pairwise_singleton _ _
      · refine List.pairwise_pair.2 fun p hp p' hp' => ?_
        exact absurd hp' (Option.some_ne_none p').symm
    · -- the end is behind all marks
      intro e he e' he' p hp p' hp'
      obtain ⟨m, hm, he⟩ := List.mem_flatMap.1 he
      rw [position_markEvents he] at hp
      obtain rfl := Option.some_inj.1 hp
      obtain ⟨hm, hwatch⟩ := List.mem_filter.1 hm
      exact (position_ending hd he' hp').2 m hm hwatch
  · rw [session, visited, ending_eq hd, List.getLast?_cons, List.getLast?_append]
    split_ifs <;> rfl

/-- A session that is not stopped runs to its end. -/
theorem exists_runs_watch (adDecision : Bool) (d : SessionDraws) :
    ∃ k, Runs (watch adDecision d) k (session adDecision d) := by
  have hsorted : (marks d.content).Pairwise fun m m' => m.time ≤ m'.time :=
    (pairwise_marks d.content).imp Mark.le.time_le
  obtain ⟨k, hk⟩ := exists_runs_visit adDecision d hsorted
  exact ⟨k, hk.emit [.sessionStart d.content.kind d.startPos]⟩

/-- Left alone a viewer goes through the sessions, each of which shows what `Shown` says. When the
viewer is stopped, only the end is cut off. -/
theorem watch_sessions (adDecision : Bool) {sessions : List SessionDraws}
    (hd : ∀ d ∈ sessions, d.Drawn) :
    (∀ d ∈ sessions, Shown adDecision d (session adDecision d)) ∧
      (∀ n, run adDecision n sessions <+: sessions.flatMap (session adDecision)) ∧
      ∃ k, ∀ n, k ≤ n → run adDecision n sessions = sessions.flatMap (session adDecision) := by
  refine ⟨fun d hmem => shown_session adDecision (hd d hmem), ?_⟩
  clear hd
  induction sessions with
  | nil => exact ⟨fun n => List.prefix_refl _, 0, fun n _ => by rw [run]; rfl⟩
  | cons d rest ih =>
      obtain ⟨hpre, k', hcomplete⟩ := ih
      obtain ⟨k, hk⟩ := exists_runs_watch adDecision d
      have hrun : ∀ n, run adDecision (n + 1) (d :: rest) =
          (watch adDecision d n).1 ++ run adDecision (watch adDecision d n).2 rest :=
        fun n => by rw [run]
      have hzero : run adDecision 0 rest = [] := by
        cases rest <;> rw [run]
      rw [List.flatMap_cons]
      constructor
      · intro n
        cases n with
        | zero =>
            rw [run]
            exact List.nil_prefix
        | succ n =>
            rw [hrun]
            rcases Nat.lt_or_ge n k with hlt | hge
            · obtain ⟨hstopped, hleft⟩ := hk.stopped n hlt
              rw [hleft, hzero, List.append_nil]
              exact hstopped.trans (List.prefix_append _ _)
            · rw [hk.complete n hge]
              exact (List.prefix_append_right_inj _).2 (hpre (n - k))
      · refine ⟨k + k' + 1, fun n hn => ?_⟩
        obtain ⟨n, rfl⟩ := Nat.exists_eq_add_of_le' hn
        rw [← Nat.add_assoc, hrun, hk.complete _ (by omega), hcomplete _ (by omega)]

/-- A session of an hour that is left twenty seconds before its end. -/
def lateLeaver : SessionDraws where
  content := ⟨"ct-drama-201", "vod", 3600, [0, 900, 1800, 2700]⟩
  startPos := 600
  abandonAt := some 3580
  pods := (sampleSession "req-1" none).pods

theorem watch_sessions_late : (session true lateLeaver).getLast? =
    some (.sessionEnd none "completed") := by
  have hd : ∀ d ∈ [lateLeaver], d.Drawn := by
    intro d hmem
    rw [List.mem_singleton.1 hmem]
    refine ⟨List.mem_cons_of_mem _ List.mem_cons_self, ?_, fun a ha => ?_⟩
    · norm_num [lateLeaver]
    · rw [← Option.some_inj.1 ha]
      norm_num [lateLeaver]
  have hended := ((watch_sessions true hd).1 _ (List.mem_singleton_self _)).ended
  rw [if_neg (by norm_num [lateLeaver, progressInterval])] at hended
  exact hended

end AdPipeline.Generator
