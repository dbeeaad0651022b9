import AdPipeline.Settlement.RowOrder

/-!
# The winner of the SSAI merge

`prio` is built from the reversed list of priorities, each entry wrapped around the ones before it,
so the first entry is the outermost and decides first (`prio_eq`). Impressions of different events
differ in their rank, so that each group has one winner, whatever the order of its rows
(`ssaiWinner`).
-/

namespace AdPipeline.Settlement

open Lib

variable (ssaiPriority : List String)

/-- What the list of priorities promises about impressions. -/
structure SsaiWinner (rows : List ArchiveRow) : Prop where
  /-- A listed source has the index of the first entry with its name. -/
  listed : ∀ s i (hi : i < ssaiPriority.length), Text.strip ssaiPriority[i] = s →
    (∀ j (hj : j < ssaiPriority.length), j < i → Text.strip ssaiPriority[j] ≠ s) →
      prio ssaiPriority (some s) = i
  /-- A null or unlisted source comes behind every index. -/
  unlisted : ∀ source, (∀ entry ∈ ssaiPriority, source ≠ some (Text.strip entry)) →
    ∀ i < ssaiPriority.length, i < prio ssaiPriority source
  /-- The row kept of a group is the least of the group. -/
  least : ∀ r ∈ rows, ∃ m ∈ rows, grp m = grp r ∧
    (rowNumberOne grp (ssaiOrder ssaiPriority) rows).filter (fun s => grp s = grp r) = [m] ∧
    ∀ s ∈ rows, grp s = grp r → s ≠ m → ssaiRank ssaiPriority m < ssaiRank ssaiPriority s
  /-- Every order of the rows keeps the same ones. -/
  anyOrder : ∀ rows', rows.Perm rows' → (rowNumberOne grp (ssaiOrder ssaiPriority) rows).Perm
    (rowNumberOne grp (ssaiOrder ssaiPriority) rows')

/-- The expression built over the last entries of a list of priorities. -/
theorem foldl_prio (source : Option String) (n : ℕ) (entries : List String)
    (h : entries.length ≤ n) :
    entries.reverse.zipIdx.foldl (fun otherwise x =>
        if source = some (Text.strip x.1) then n - 1 - x.2 else otherwise) (n + 1) =
      ((entries.findIdx? fun e => source = some (Text.strip e)).map
        fun i => n - entries.length + i).getD (n + 1) := by
  induction entries with
  | nil => rfl
  | cons e entries ih =>
      rw [List.length_cons] at h
      rw [List.reverse_cons, List.zipIdx_append, List.foldl_append, ih (by omega),
        List.length_reverse, List.findIdx?_cons, List.length_cons]
      -- the last entry wrapped is the first one of the list
      by_cases hsource : source = some (Text.strip e)
      · simp only [hsource, decide_true, if_true, List.zipIdx_cons, List.zipIdx_nil,
          List.foldl_cons, List.foldl_nil, Option.map_some, Option.getD_some]
        omega
      · simp only [hsource, decide_false, if_false, List.zipIdx_cons, List.zipIdx_nil,
          List.foldl_cons, List.foldl_nil, Bool.false_eq_true]
        cases entries.findIdx? fun e => decide (source = some (Text.strip e)) with
        | none => rfl
        | some i =>
            simp only [Option.map_some, Option.getD_some]
            omega

/-- The rank of a source is the index of the first entry with its name, and behind all of them when
there is none. -/
theorem prio_eq (source : Option String) :
    prio ssaiPriority source =
      (ssaiPriority.findIdx? fun e => source = some (Text.strip e)).getD
        (ssaiPriority.length + 1) := by
  rw [prio, foldl_prio source ssaiPriority.length ssaiPriority (le_refl _), Nat.sub_self]
  simp only [Nat.zero_add, Option.map_id']

variable {ssaiPriority}

theorem prio_of_listed {s : String} {i : ℕ} (hi : i < ssaiPriority.length)
    (hs : Text.strip ssaiPriority[i] = s)
    (hfirst : ∀ j (hj : j < ssaiPriority.length), j < i → Text.strip ssaiPriority[j] ≠ s) :
    prio ssaiPriority (some s) = i := by
  have hindex : (ssaiPriority.findIdx? fun e => some s = some (Text.strip e)) = some i := by
    rw [List.findIdx?_eq_some_iff_getElem]
    refine ⟨hi, decide_eq_true (congrArg some hs.symm), fun j hji => ?_⟩
    rw [Bool.not_eq_true, decide_eq_false_iff_not]
    exact fun heq => hfirst j (hji.trans hi) hji (Option.some.inj heq).symm
  rw [prio_eq, hindex, Option.getD_some]

theorem lt_prio_of_unlisted {source : Option String}
    (h : ∀ entry ∈ ssaiPriority, source ≠ some (Text.strip entry)) {i : ℕ}
    (hi : i < ssaiPriority.length) : i < prio ssaiPriority source := by
  have hnone : (ssaiPriority.findIdx? fun e => source = some (Text.strip e)) = none := by
    rw [List.findIdx?_eq_none_iff]
    intro e he
    exact decide_eq_false (h e he)
  rw [prio_eq, hnone, Option.getD_none]
  omega

/-- Rows of different events have different ranks. -/
theorem ssaiRank_inj {rows : List ArchiveRow} (hrows : (rows.map fun r => r.eventId).Nodup)
    {r s : ArchiveRow} (hr : r ∈ rows) (hs : s ∈ rows)
    (h : ssaiRank ssaiPriority r = ssaiRank ssaiPriority s) : r = s := by
  have hid : nullsFirst r.eventId = nullsFirst s.eventId :=
    congrArg (fun rank => (ofLex (ofLex rank).2).2) h
  exact List.inj_on_of_nodup_map hrows hr hs (nullsFirst_injective hid)

/-- The impressions that the SSAI merge sees are of different events. -/
theorem nodup_eventId_impAll (archive : List ArchiveRow) :
    ((impAll archive).map fun r => r.eventId).Nodup :=
  (nodup_key_rowNumberOne (fun r : ArchiveRow => r.eventId) eventOrder (raw archive)).sublist
    (List.filter_sublist.map _)

/-- The SSAI merge keeps one impression of each group: the one that the list of priorities puts
first, then the earliest, then the one with the least `event_id`. -/
theorem ssaiWinner (ssaiPriority : List String) {rows : List ArchiveRow}
    (hrows : (rows.map fun r => r.eventId).Nodup) : SsaiWinner ssaiPriority rows where
  listed _ _ hi hs hfirst := prio_of_listed hi hs hfirst
  unlisted _ h _ hi := lt_prio_of_unlisted h hi
  least _ hr := exists_kept (ssaiOrder_iff ssaiPriority)
    (fun _ hr _ hs _ hrank => ssaiRank_inj hrows hr hs hrank) hr
  anyOrder _ hperm := perm_rowNumberOne (ssaiOrder_iff ssaiPriority) hperm
    fun _ hr _ hs _ hrank => ssaiRank_inj hrows hr hs hrank

/-- Two views of one ad. The one from the server is kept, whose entry has blanks around it. -/
theorem ssaiWinner_twins :
    (imp [" server ", "client"] [impressionRow "e1" (some "a1") "cmp-1" "client",
        impressionRow "e2" (some "a1") "cmp-1" "server"]).map (fun r => r.eventId) = [some "e2"] ∧
      SsaiWinner [" server ", "client"] (impAll [impressionRow "e1" (some "a1") "cmp-1" "client",
        impressionRow "e2" (some "a1") "cmp-1" "server"]) :=
  ⟨by decide, ssaiWinner [" server ", "client"] (nodup_eventId_impAll _)⟩

end AdPipeline.Settlement
