import AdPipeline.Lib.Delimited
import AdPipeline.Platform.Decimal
import AdPipeline.RedisWriter.Summary

/-!
# The realtime summary is exact

Messages of `agg.minute` may arrive in any order and any number of times. A window is written under
a key of its own (`aggKey_inj`), so a message delivered again writes the same counts over what the
first one wrote, and a range of seconds finds every window that starts in it as long as nothing of
it has been dropped or has expired (`sumRange_exact`).
-/

namespace AdPipeline.RedisWriter

open Lib

/-! ## Keys -/

/-- The characters of `minute_key`. -/
theorem toList_minuteKey (t : Instant) :
    (minuteKey t).1.toList =
      (toString (Time.civil (t.epochSecond / 86400)).1).toList ++
        (Time.padDigits 2 (Time.civil (t.epochSecond / 86400)).2.1 ++
          (Time.padDigits 2 (Time.civil (t.epochSecond / 86400)).2.2 ++
            (Time.padDigits 2 ((t.epochSecond % 86400).toNat / 3600) ++
              Time.padDigits 2 ((t.epochSecond % 86400).toNat / 60 % 60)))) := by
  show (toString _ ++ Time.pad 2 _ ++ Time.pad 2 _ ++ Time.pad 2 _ ++ Time.pad 2 _).toList = _
  simp only [String.toList_append, Time.toList_pad, List.append_assoc]
  rfl

/-- Two numbers of two digits are told apart by their digits. -/
theorem padDigits_two_inj {m n : ℕ} {s t : List Char} (hm : m < 100) (hn : n < 100)
    (h : Time.padDigits 2 m ++ s = Time.padDigits 2 n ++ t) : m = n ∧ s = t := by
  have hlen : ∀ k < 100, (Time.padDigits 2 k).length = 2 := fun k hk =>
    Time.length_padDigits_of_lt (by decide) (by omega)
  obtain ⟨hdigits, hrest⟩ := List.append_inj h ((hlen m hm).trans (hlen n hn).symm)
  refine ⟨?_, hrest⟩
  rw [← Time.ofDigitChars_padDigits 2 m, hdigits, Time.ofDigitChars_padDigits]

/-- The starts of two one-minute windows have different texts. -/
theorem minuteKey_inj {t u : Instant} (ht : IsMinute t) (hu : IsMinute u)
    (h : (minuteKey t).1 = (minuteKey u).1) : t = u := by
  have hlist := congrArg String.toList h
  rw [toList_minuteKey, toList_minuteKey] at hlist
  have hdate : ∀ day, (Time.civil day).2.1 < 100 ∧ (Time.civil day).2.2 < 100 := fun day => by
    have := Time.le_of_validDate (Time.validDate_civil day)
    omega
  have hwidth : ∀ k < 100, (Time.padDigits 2 k).length = 2 := fun k hk =>
    Time.length_padDigits_of_lt (by decide) (by omega)
  have hhour : ∀ s : ℤ, (s % 86400).toNat / 3600 < 100 := fun s => by omega
  have hsixty : ∀ n : ℕ, n / 60 % 60 < 100 := fun n => by omega
  -- behind the year there are eight digits
  obtain ⟨hyear, hrest⟩ := List.append_inj' hlist (by
    simp only [List.length_append]
    rw [hwidth _ (hdate _).1, hwidth _ (hdate _).2, hwidth _ (hhour _), hwidth _ (hsixty _),
      hwidth _ (hdate _).1, hwidth _ (hdate _).2, hwidth _ (hhour _), hwidth _ (hsixty _)])
  obtain ⟨hmonth, hrest⟩ := padDigits_two_inj (hdate _).1 (hdate _).1 hrest
  obtain ⟨hday, hrest⟩ := padDigits_two_inj (hdate _).2 (hdate _).2 hrest
  obtain ⟨hhours, hrest⟩ := padDigits_two_inj (hhour _) (hhour _) hrest
  obtain ⟨hminutes, -⟩ := padDigits_two_inj (hsixty _) (hsixty _) (congrArg (· ++ []) hrest)
  have hdays : t.epochSecond / 86400 = u.epochSecond / 86400 := by
    rw [← Time.epochDay_civil (t.epochSecond / 86400),
      ← Time.epochDay_civil (u.epochSecond / 86400),
      Text.toString_injective (String.toList_inj.1 hyear), hmonth, hday]
  unfold IsMinute at ht hu
  unfold Instant.epochSecond at *
  cases t with
  | mk m =>
      cases u with
      | mk n =>
          congr 1
          simp only at *
          omega

theorem colon_notMem_minuteKey (t : Instant) : ':' ∉ (minuteKey t).1.toList := by
  have hpad : ∀ n, ':' ∉ Time.padDigits 2 n := fun n h => by
    cases Time.isDigit_padDigits h
  have hyear : ∀ y : ℤ, ':' ∉ (toString y).toList := by
    intro y h
    have hdigits : ':' ∉ Nat.toDigits 10 y.natAbs := fun h => by
      cases Time.isDigit_of_mem_toDigits h
    rw [Text.toList_toString] at h
    split_ifs at h
    · exact hdigits ((List.mem_cons.1 h).resolve_left (by decide))
    · exact hdigits h
  rw [toList_minuteKey]
  simp only [List.mem_append, not_or]
  exact ⟨hyear _, hpad _, hpad _, hpad _, hpad _⟩

/-- The key of a hash tells the campaign and the window, whatever characters the campaign has: the
text of the window has no colon. -/
theorem aggKey_inj {d e : AggMinute} (hd : IsMinute d.windowStart) (he : IsMinute e.windowStart)
    (h : aggKey d = aggKey e) : d.campaignId = e.campaignId ∧ d.windowStart = e.windowStart := by
  have hlist := congrArg String.toList h
  simp only [aggKey, String.toList_append, List.append_assoc] at hlist
  obtain ⟨hcampaign, hminute⟩ := append_cons_inj_of_last (colon_notMem_minuteKey d.windowStart)
    (colon_notMem_minuteKey e.windowStart) (List.append_cancel_left hlist)
  exact ⟨String.toList_inj.1 hcampaign, minuteKey_inj hd he (String.toList_inj.1 hminute)⟩

/-! ## Deliveries -/

/-- The counts of a window. -/
structure WindowCounts where
  impressions : ℕ
  clicks : ℕ
  completes : ℕ
  requests : ℕ
  ssaiDupes : ℕ

/-- What `d.get(..) or 0` makes of the counts of a message. -/
def AggMinute.counts (d : AggMinute) : WindowCounts where
  impressions := d.impressions.getD 0
  clicks := d.clicks.getD 0
  completes := d.completes.getD 0
  requests := d.requests.getD 0
  ssaiDupes := d.ssaiDupes.getD 0

/-- Messages of `agg.minute` handled one after the other, each with the time of its handling. -/
def deliver (ttl : ℤ) (ds : List (Instant × AggMinute)) : Redis :=
  ds.foldl (fun r x => handleAgg ttl x.1 r x.2) .empty

theorem deliver_append (ttl : ℤ) (ds : List (Instant × AggMinute)) (x : Instant × AggMinute) :
    deliver ttl (ds ++ [x]) = handleAgg ttl x.1 (deliver ttl ds) x.2 := by
  rw [deliver, List.foldl_append]
  rfl

section

variable {ttl : ℤ} {ds : List (Instant × AggMinute)}

theorem written_deliver (hds : ∀ x ∈ ds, IsMinute x.2.windowStart) :
    Written ttl (deliver ttl ds) := by
  induction ds using List.reverseRecOn with
  | nil => exact .empty
  | append_singleton ds x ih =>
      rw [deliver_append]
      exact .handleAgg (ih fun y hy => hds y (List.mem_append_left _ hy)) x.1 x.2
        (hds x (List.mem_append_right _ List.mem_cons_self))

/-- A hash is what the last message of its key wrote. -/
theorem entry_hashes_deliver (key : String) :
    entry key (deliver ttl ds).hashes =
      (ds.reverse.find? fun x => aggKey x.2 = key).map fun x => .ofMessage ttl x.1 x.2 := by
  induction ds using List.reverseRecOn with
  | nil => rfl
  | append_singleton ds x ih =>
      rw [deliver_append, List.reverse_append, List.reverse_singleton, List.singleton_append]
      refine (entry_upsert _ _ _ _).trans ?_
      split_ifs with hkey
      · rw [List.find?_cons_of_pos (by simpa using hkey)]
        rfl
      · rw [List.find?_cons_of_neg (by simpa using hkey), ih]

/-- A hash was written by a message with its key. -/
theorem exists_of_entry_deliver {key : String} {h : AggHash}
    (hentry : entry key (deliver ttl ds).hashes = some h) :
    ∃ x ∈ ds, aggKey x.2 = key ∧ h = .ofMessage ttl x.1 x.2 := by
  rw [entry_hashes_deliver, Option.map_eq_some_iff] at hentry
  obtain ⟨x, hfind, rfl⟩ := hentry
  have hkey := List.find?_some hfind
  exact ⟨x, List.mem_reverse.1 (List.mem_of_find?_eq_some hfind), of_decide_eq_true hkey, rfl⟩

/-- Every message has left a hash under its key. -/
theorem exists_entry_deliver {x : Instant × AggMinute} (hx : x ∈ ds) :
    ∃ h, entry (aggKey x.2) (deliver ttl ds).hashes = some h := by
  rw [entry_hashes_deliver]
  cases hfind : ds.reverse.find? fun y => aggKey y.2 = aggKey x.2 with
  | some y => exact ⟨_, rfl⟩
  | none =>
      rw [List.find?_eq_none] at hfind
      exact absurd (decide_eq_true rfl) (hfind x (List.mem_reverse.2 hx))

/-- The index has every window that no message has found too old. -/
theorem mem_index_deliver (hds : ∀ x ∈ ds, IsMinute x.2.windowStart) {x : Instant × AggMinute}
    (hx : x ∈ ds) (hrecent : ∀ y ∈ ds, y.1.epochSecond - ttl < (minuteKey x.2.windowStart).2) :
    (aggKey x.2, (minuteKey x.2.windowStart).2) ∈ (deliver ttl ds).index := by
  induction ds using List.reverseRecOn with
  | nil => cases hx
  | append_singleton ds y ih =>
      have hbefore : ∀ z ∈ ds, IsMinute z.2.windowStart :=
        fun z hz => hds z (List.mem_append_left _ hz)
      have hy : y ∈ ds ++ [y] := List.mem_append_right _ List.mem_cons_self
      rw [deliver_append]
      refine List.mem_filter.2 ⟨?_, ?_⟩
      · rw [mem_upsert (indexed_of_written (written_deliver hbefore)).nodup]
        by_cases hkey : aggKey x.2 = aggKey y.2
        · -- the same window has the same score
          rw [hkey, (aggKey_inj (hds x hx) (hds y hy) hkey).2]
          exact .inl rfl
        · refine .inr ⟨ih hbefore ?_ fun z hz => hrecent z (List.mem_append_left _ hz), hkey⟩
          refine (List.mem_append.1 hx).resolve_right fun hxy => hkey ?_
          rw [List.mem_singleton.1 hxy]
      · have := hrecent y hy
        simp only [Bool.not_eq_true', Bool.and_eq_false_iff, decide_eq_false_iff_not]
        exact .inr (by omega)

end

/-! ## The summary -/

/-- The starts of the windows of a campaign that start in a range of seconds, each once. -/
def startsIn (ds : List (Instant × AggMinute)) (first last : ℤ) (c : String) : List Instant :=
  ((ds.filter fun x => x.2.campaignId = c && (first ≤ x.2.windowStart.epochSecond &&
    x.2.windowStart.epochSecond < last)).map fun x => x.2.windowStart).dedup

/-- The totals of a campaign are those of the windows with these starts, and there are so many. -/
structure CampaignSummary.Totals (s : CampaignSummary) (counts : Instant → WindowCounts)
    (starts : List Instant) : Prop where
  impressions : s.impressions = (starts.map fun w => intFloat (counts w).impressions).sum
  clicks : s.clicks = (starts.map fun w => intFloat (counts w).clicks).sum
  completes : s.completes = (starts.map fun w => intFloat (counts w).completes).sum
  requests : s.requests = (starts.map fun w => intFloat (counts w).requests).sum
  ssaiDupes : s.ssaiDupes = (starts.map fun w => intFloat (counts w).ssaiDupes).sum
  minutes : s.minutes = starts.length

/-- A summary has the campaigns that have a name and windows, each once and with the totals of its
windows. -/
structure ExactSummary (counts : String → Instant → WindowCounts)
    (starts : String → List Instant) (out : List (String × CampaignSummary)) : Prop where
  once : (out.map Prod.fst).Nodup
  campaigns : ∀ c, c ∈ out.map Prod.fst ↔ c ≠ "" ∧ starts c ≠ []
  totals : ∀ x ∈ out, x.2.Totals (counts x.1) (starts x.1)

theorem epochSecond_eq_tdiv {t : Instant} (h : IsMinute t) :
    t.nanos.tdiv 1000000000 = t.epochSecond := by
  unfold IsMinute at h
  exact Int.tdiv_eq_ediv_of_dvd (by omega)

section

variable {ttl : ℤ} {ds : List (Instant × AggMinute)} {now : Instant} {first last : ℤ}

theorem nodup_startsIn {c : String} : (startsIn ds first last c).Nodup := List.nodup_dedup _

theorem mem_startsIn {c : String} {w : Instant} :
    w ∈ startsIn ds first last c ↔ ∃ x ∈ ds, x.2.campaignId = c ∧
      (first ≤ x.2.windowStart.epochSecond ∧ x.2.windowStart.epochSecond < last) ∧
        x.2.windowStart = w := by
  simp only [startsIn, List.mem_dedup, List.mem_map, List.mem_filter, Bool.and_eq_true,
    decide_eq_true_eq, and_assoc]

/-- A hash the index leads to was written by a message, under the key that led to it. -/
theorem exists_of_mem_live {h : AggHash} (hh : h ∈ (deliver ttl ds).live now) :
    ∃ x ∈ ds, entry (aggKey x.2) (deliver ttl ds).hashes = some h ∧ h = .ofMessage ttl x.1 x.2 := by
  obtain ⟨y, -, hget⟩ := List.mem_filterMap.1 hh
  have hentry := hgetall_eq_some hget
  obtain ⟨x, hx, hkey, rfl⟩ := exists_of_entry_deliver hentry
  exact ⟨x, hx, hkey ▸ hentry, rfl⟩

/-- A window is in one hash. -/
theorem eq_of_mem_live {h h' : AggHash}
    (hh : h ∈ (deliver ttl ds).live now) (hh' : h' ∈ (deliver ttl ds).live now)
    (hcampaign : h.campaignId = h'.campaignId) (hstart : h.windowStart = h'.windowStart) :
    h = h' := by
  obtain ⟨x, -, hentry, rfl⟩ := exists_of_mem_live hh
  obtain ⟨x', -, hentry', rfl⟩ := exists_of_mem_live hh'
  replace hcampaign : x.2.campaignId = x'.2.campaignId := hcampaign
  replace hstart : x.2.windowStart = x'.2.windowStart := hstart
  have hkey : aggKey x.2 = aggKey x'.2 := by rw [aggKey, aggKey, hcampaign, hstart]
  rw [hkey] at hentry
  exact Option.some.inj (hentry.symm.trans hentry')

theorem indexed_deliver (hds : ∀ x ∈ ds, IsMinute x.2.windowStart) :
    Indexed (deliver ttl ds) :=
  indexed_of_written (written_deliver hds)

theorem nodup_live (hds : ∀ x ∈ ds, IsMinute x.2.windowStart) :
    ((deliver ttl ds).live now).Nodup := by
  have hindex : ((deliver ttl ds).index.map Prod.fst).Nodup := (indexed_deliver hds).nodup
  have hkeys : (deliver ttl ds).live now =
      ((deliver ttl ds).index.map Prod.fst).filterMap fun key =>
        (deliver ttl ds).hgetall now key := by
    rw [List.filterMap_map]
    rfl
  rw [hkeys]
  refine hindex.filterMap fun key key' h hget hget' => ?_
  -- the key is made of what is in the hash
  obtain ⟨x, -, rfl, rfl⟩ := exists_of_entry_deliver (hgetall_eq_some hget)
  obtain ⟨x', -, rfl, heq⟩ := exists_of_entry_deliver (hgetall_eq_some hget')
  have hcampaign : x.2.campaignId = x'.2.campaignId := congrArg AggHash.campaignId heq
  have hstart : x.2.windowStart = x'.2.windowStart := congrArg AggHash.windowStart heq
  rw [aggKey, aggKey, hcampaign, hstart]

/-- Deliveries up to the time of a summary: the windows are of one minute, as the stream emits them,
deliveries of one window have equal counts, and nothing in the range is too old for the index or
has expired. -/
structure Deliveries (ttl : ℤ) (ds : List (Instant × AggMinute))
    (counts : String → Instant → WindowCounts) (now : Instant) (first last : ℤ) : Prop where
  isMinute : ∀ x ∈ ds, IsMinute x.2.windowStart
  counts : ∀ x ∈ ds, x.2.counts = counts x.2.campaignId x.2.windowStart
  clock : ∀ x ∈ ds, x.1.epochSecond ≤ now.epochSecond
  recent : now.epochSecond - ttl < first
  unexpired : ∀ key h, entry key (deliver ttl ds).hashes = some h →
    first ≤ h.windowStart.epochSecond → h.windowStart.epochSecond < last →
      now.epochSecond < h.expiresAt

variable {counts : String → Instant → WindowCounts}

/-- The windows that a summary finds of a campaign are those that messages have delivered. -/
theorem perm_windowStarts (h : Deliveries ttl ds counts now first last) {c : String}
    (hc : c ≠ "") :
    ((((deliver ttl ds).windows now first (last - 1)).filter fun h => h.campaignId = c).map
      AggHash.windowStart).Perm (startsIn ds first last c) := by
  refine (((perm_windows (indexed_deliver h.isMinute)).filter _).map _).trans ?_
  rw [List.filter_filter]
  refine (List.perm_ext_iff_of_nodup ?_ nodup_startsIn).2 fun w => ?_
  · refine List.Nodup.map_on ?_ ((nodup_live h.isMinute).filter _)
    intro hash hhash hash' hhash' hstart
    simp only [List.mem_filter, Bool.and_eq_true, decide_eq_true_eq] at hhash hhash'
    exact eq_of_mem_live hhash.1 hhash'.1 (hhash.2.1.trans hhash'.2.1.symm) hstart
  · rw [mem_startsIn]
    simp only [List.mem_map, List.mem_filter, Bool.and_eq_true, decide_eq_true_eq]
    constructor
    · rintro ⟨hash, ⟨hlive, hcampaign, -, hfirst, hlast⟩, rfl⟩
      obtain ⟨x, hx, -, rfl⟩ := exists_of_mem_live hlive
      have hseconds : (AggHash.ofMessage ttl x.1 x.2).windowStart.nanos.tdiv 1000000000 =
        x.2.windowStart.epochSecond := epochSecond_eq_tdiv (h.isMinute x hx)
      rw [hseconds] at hfirst hlast
      exact ⟨x, hx, hcampaign, ⟨hfirst, by omega⟩, rfl⟩
    · rintro ⟨x, hx, hcampaign, ⟨hfirst, hlast⟩, rfl⟩
      obtain ⟨hash, hentry⟩ : ∃ hash, entry (aggKey x.2) (deliver ttl ds).hashes = some hash :=
        exists_entry_deliver hx
      obtain ⟨y, hy, hkey, rfl⟩ := exists_of_entry_deliver hentry
      obtain ⟨hycampaign, hystart⟩ := aggKey_inj (h.isMinute y hy) (h.isMinute x hx) hkey
      have hseconds := epochSecond_eq_tdiv (h.isMinute x hx)
      have hscore : (minuteKey x.2.windowStart).2 = x.2.windowStart.epochSecond := hseconds
      refine ⟨.ofMessage ttl y.1 y.2, ⟨?_, hycampaign.trans hcampaign, ?_, ?_, ?_⟩, hystart⟩
      · refine List.mem_filterMap.2 ⟨_, mem_index_deliver h.isMinute hx fun z hz => ?_, ?_⟩
        · have hclock := h.clock z hz
          have hrecent := h.recent
          rw [hscore]
          omega
        · rw [Redis.hgetall, hentry, Option.filter_some, if_pos]
          refine decide_eq_true (h.unexpired _ _ hentry ?_ ?_)
          · exact (congrArg Instant.epochSecond hystart).symm ▸ hfirst
          · exact (congrArg Instant.epochSecond hystart).symm ▸ hlast
      · exact (hycampaign.trans hcampaign).trans_ne hc
      · show first ≤ y.2.windowStart.nanos.tdiv 1000000000
        rw [hystart, hseconds]
        exact hfirst
      · show y.2.windowStart.nanos.tdiv 1000000000 ≤ last - 1
        rw [hystart, hseconds]
        omega

/-- A column of a summary adds up the counts of the windows of a campaign. -/
theorem column_sumRange (h : Deliveries ttl ds counts now first last) (f : CampaignSummary → ℕ)
    (column : WindowCounts → ℕ) {g : AggHash → ℕ}
    (hzero : ∀ advertiser campaignName, f ⟨0, 0, 0, 0, 0, 0, advertiser, campaignName⟩ = 0)
    (hadd : ∀ h acc, f (CampaignSummary.add h acc) = f acc + g h)
    (hcolumn : ∀ t d, g (.ofMessage ttl t d) = column d.counts) {x : String × CampaignSummary}
    (hx : x ∈ sumRange (deliver ttl ds) now first (last - 1)) (hc : x.1 ≠ "") :
    f x.2 = ((startsIn ds first last x.1).map fun w => column (counts x.1 w)).sum := by
  have hentry : ((entry x.1 (sumRange (deliver ttl ds) now first (last - 1))).map f).getD 0 = _ :=
    entry_sumRange hzero hadd x.1
  rw [entry_of_mem nodup_keys_sumRange hx, Option.map_some, Option.getD_some] at hentry
  rw [hentry, ← ((perm_windowStarts h hc).map fun w => column (counts x.1 w)).sum_eq, List.map_map]
  congr 1
  apply List.map_congr_left
  intro hash hhash
  obtain ⟨hwindows, hcampaign⟩ := List.mem_filter.1 hhash
  have hlive := List.mem_of_mem_filter
    ((perm_windows (indexed_deliver h.isMinute)).subset hwindows)
  obtain ⟨y, hy, -, rfl⟩ := exists_of_mem_live hlive
  rw [hcolumn, h.counts y hy, ← of_decide_eq_true hcampaign]
  rfl

/-- A summary of a range of seconds is exact. The counts are added as `int(float(..))` reads them,
which is as they are up to 53 bits. -/
theorem sumRange_exact (h : Deliveries ttl ds counts now first last) :
    (∀ n ≤ 2 ^ 53, intFloat n = n) ∧
      ExactSummary counts (startsIn ds first last)
        (sumRange (deliver ttl ds) now first (last - 1)) := by
  have hnamed : ∀ c ∈ (sumRange (deliver ttl ds) now first (last - 1)).map Prod.fst, c ≠ "" := by
    intro c hc
    obtain ⟨hash, hhash, rfl⟩ := List.mem_map.1 (mem_keys_sumRange.1 hc)
    exact of_decide_eq_true (List.mem_filter.1 hhash).2
  refine ⟨fun n hn => intFloat_of_le hn, nodup_keys_sumRange, fun c => ?_, fun x hx => ?_⟩
  · rw [mem_keys_sumRange]
    constructor
    · intro hc
      have hne := hnamed c (mem_keys_sumRange.2 hc)
      obtain ⟨hash, hhash, rfl⟩ := List.mem_map.1 hc
      have hmem : hash ∈ ((deliver ttl ds).windows now first (last - 1)).filter
          fun h => h.campaignId = hash.campaignId :=
        List.mem_filter.2 ⟨hhash, decide_eq_true rfl⟩
      exact ⟨hne, List.ne_nil_of_mem
        ((perm_windowStarts h hne).subset (List.mem_map_of_mem hmem))⟩
    · rintro ⟨hne, hstarts⟩
      obtain ⟨w, hw⟩ := List.exists_mem_of_ne_nil _ hstarts
      obtain ⟨hash, hhash, -⟩ := List.mem_map.1 ((perm_windowStarts h hne).symm.subset hw)
      obtain ⟨hwindows, hcampaign⟩ := List.mem_filter.1 hhash
      exact List.mem_map.2 ⟨hash, hwindows, of_decide_eq_true hcampaign⟩
  · have hne := hnamed x.1 (List.mem_map_of_mem hx)
    have hminutes := column_sumRange h CampaignSummary.minutes (fun _ => 1) (fun _ _ => rfl)
      (fun _ _ => rfl) (fun _ _ => rfl) hx hne
    rw [List.map_const', List.sum_replicate_nat, Nat.mul_one] at hminutes
    exact ⟨column_sumRange h CampaignSummary.impressions (fun w => intFloat w.impressions)
        (fun _ _ => rfl) (fun _ _ => rfl) (fun _ _ => rfl) hx hne,
      column_sumRange h CampaignSummary.clicks (fun w => intFloat w.clicks)
        (fun _ _ => rfl) (fun _ _ => rfl) (fun _ _ => rfl) hx hne,
      column_sumRange h CampaignSummary.completes (fun w => intFloat w.completes)
        (fun _ _ => rfl) (fun _ _ => rfl) (fun _ _ => rfl) hx hne,
      column_sumRange h CampaignSummary.requests (fun w => intFloat w.requests)
        (fun _ _ => rfl) (fun _ _ => rfl) (fun _ _ => rfl) hx hne,
      column_sumRange h CampaignSummary.ssaiDupes (fun w => intFloat w.ssaiDupes)
        (fun _ _ => rfl) (fun _ _ => rfl) (fun _ _ => rfl) hx hne, hminutes⟩

end

/-- A window with some impressions. -/
def impressionWindow (campaignId : String) (impressions : ℕ) : AggMinute where
  windowStart := ⟨0⟩
  windowEnd := ⟨60000000000⟩
  campaignId := campaignId
  advertiser := none
  campaignName := none
  impressions := some impressions
  clicks := none
  completes := none
  requests := none
  impReqRatio := none
  ssaiDupes := none

/-- Deliveries of one window, all at the time it starts. -/
theorem deliveries_impressionWindow (campaignId : String) (impressions n : ℕ) :
    Deliveries 172800 (List.replicate n (⟨0⟩, impressionWindow campaignId impressions))
      (fun _ _ => ⟨impressions, 0, 0, 0, 0⟩) ⟨0⟩ 0 60 := by
  have hmem : ∀ x ∈ List.replicate n (⟨0⟩, impressionWindow campaignId impressions),
      x = ((⟨0⟩ : Instant), impressionWindow campaignId impressions) :=
    fun x hx => List.eq_of_mem_replicate hx
  constructor
  · intro x hx
    rw [hmem x hx]
    show IsMinute ⟨0⟩
    decide
  · intro x hx
    rw [hmem x hx]
    rfl
  · intro x hx
    rw [hmem x hx]
  · decide
  · intro key h hentry _ _
    obtain ⟨x, hx, -, rfl⟩ := exists_of_entry_deliver hentry
    rw [hmem x hx]
    show (0 : ℤ) < 0 + 172800
    decide

/-- A window delivered twice counts once. -/
theorem sumRange_exact_twice :
    startsIn (List.replicate 2 (⟨0⟩, impressionWindow "cmp-1" 3)) 0 60 "cmp-1" = [⟨0⟩] ∧
    ExactSummary (fun _ _ => ⟨3, 0, 0, 0, 0⟩)
      (startsIn (List.replicate 2 (⟨0⟩, impressionWindow "cmp-1" 3)) 0 60)
      (sumRange (deliver 172800 (List.replicate 2 (⟨0⟩, impressionWindow "cmp-1" 3))) ⟨0⟩ 0 59) :=
  ⟨by decide, (sumRange_exact (deliveries_impressionWindow "cmp-1" 3 2)).2⟩

/-- A campaign whose id is empty is left out, and a count that is no double is rounded. -/
theorem sumRange_inexact :
    (Deliveries 172800 (List.replicate 1 (⟨0⟩, impressionWindow "" 1))
        (fun _ _ => ⟨1, 0, 0, 0, 0⟩) ⟨0⟩ 0 60 ∧
      startsIn (List.replicate 1 (⟨0⟩, impressionWindow "" 1)) 0 60 "" = [⟨0⟩] ∧
      sumRange (deliver 172800 (List.replicate 1 (⟨0⟩, impressionWindow "" 1))) ⟨0⟩ 0 59 = []) ∧
    (Deliveries 172800 (List.replicate 1 (⟨0⟩, impressionWindow "cmp-1" (2 ^ 53 + 1)))
        (fun _ _ => ⟨2 ^ 53 + 1, 0, 0, 0, 0⟩) ⟨0⟩ 0 60 ∧
      (entry "cmp-1" (sumRange (deliver 172800 (List.replicate 1
        (⟨0⟩, impressionWindow "cmp-1" (2 ^ 53 + 1)))) ⟨0⟩ 0 59)).map
          CampaignSummary.impressions = some (2 ^ 53)) :=
  ⟨⟨deliveries_impressionWindow "" 1 1, by decide, by decide⟩,
    deliveries_impressionWindow "cmp-1" (2 ^ 53 + 1) 1, by decide⟩

end AdPipeline.RedisWriter
