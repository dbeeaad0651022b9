import AdPipeline.Collector.FallbackReplay
import AdPipeline.Settlement.RowSet

/-!
# The settlement does not see Kafka fail

A record whose publish fails is diverted to a fallback file, and replays publish it later, perhaps
more than once. When no record is pending any more, what the replays have published are the records
that were diverted, with no record lost or made up (`mem_published_iff`). So the settlement is the
one that the archive would have given had no publish failed (`settledAlike_failOpen`).
-/

namespace AdPipeline.Collector

namespace FallbackReplay

/-! ## What becomes of a record -/

/-- A publish outside the replays has failed, or one of a replay has been acknowledged. -/
inductive Fate where
  | diverted (record : FallbackRecord)
  | published (record : FallbackRecord)

def Fate.diverted? : Fate → Option FallbackRecord
  | .diverted record => some record
  | .published _ => none

def Fate.published? : Fate → Option FallbackRecord
  | .diverted _ => none
  | .published record => some record

variable {ι : Type} [DecidableEq ι]

/-- The records that an action diverts or publishes. -/
def fates (s : State ι) : Action ι → List Fate
  | .append _ record => [.diverted record]
  | .ack r id =>
    match current s r with
    | some (_, _, f) => ((f.flights.find? (hasId id)).map fun l => .published l.record).toList
    | none => []
  | _ => []

/-- The records diverted, in the order of their numbers. -/
def diverted (fs : List Fate) : List FallbackRecord := fs.filterMap Fate.diverted?

/-- The records published by replays. -/
def published (fs : List Fate) : List FallbackRecord := fs.filterMap Fate.published?

theorem diverted_append (fs fs' : List Fate) : diverted (fs ++ fs') = diverted fs ++ diverted fs' :=
  List.filterMap_append

theorem published_append (fs fs' : List Fate) :
    published (fs ++ fs') = published fs ++ published fs' :=
  List.filterMap_append

/-! ## The lines there are -/

/-- Every line of the directory and every line a replay has still to publish satisfies `Q`. -/
structure Lines (Q : FallbackLine → Prop) (s : State ι) : Prop where
  dir : ∀ name, ∀ l ∈ s.dir.linesOf name, Q l
  open_ : ∀ r result rest f, s.replays r = .running result rest (some f) → ∀ l ∈ f.open, Q l

variable {Q Q' : FallbackLine → Prop} {s t : State ι} {a : Action ι}

omit [DecidableEq ι] in
theorem Lines.mono (h : Lines Q s) (hQ : ∀ l, Q l → Q' l) : Lines Q' s where
  dir name l hl := hQ l (h.dir name l hl)
  open_ r result rest f hf l hl := hQ l (h.open_ r result rest f hf l hl)

/-- A step that changes one replay. -/
theorem Lines.update (h : Lines Q s) {dir : FallbackDirectory} {next : ℕ} {acked : List ℕ} (r : ι)
    (phase : Phase) (hdir : ∀ name, ∀ l ∈ dir.linesOf name, Q l)
    (hphase : ∀ result rest f, phase = .running result rest (some f) → ∀ l ∈ f.open, Q l) :
    Lines Q { dir := dir, next := next, acked := acked,
              replays := Function.update s.replays r phase } where
  dir := hdir
  open_ := by
    intro r' result rest f hf
    by_cases hr : r' = r
    · subst hr
      exact hphase result rest f ((Function.update_self r' phase s.replays).symm.trans hf)
    · exact h.open_ r' result rest f ((Function.update_of_ne hr phase s.replays).symm.trans hf)

/-- A replay stays at a file. -/
theorem Lines.replace (h : Lines Q s) {dir : FallbackDirectory} {acked : List ℕ} (r : ι)
    {result : ReplayResult} {rest : List String} {f : FileReplay}
    (hdir : ∀ name, ∀ l ∈ dir.linesOf name, Q l) (hopen : ∀ l ∈ f.open, Q l) :
    Lines Q { dir := dir, next := s.next, acked := acked,
              replays := Function.update s.replays r (.running result rest (some f)) } := by
  refine h.update r _ hdir fun result' rest' f' hf => ?_
  simp only [Phase.running.injEq, Option.some.injEq] at hf
  obtain ⟨-, -, rfl⟩ := hf
  exact hopen

omit [DecidableEq ι] in
theorem Lines.append_dir (h : Lines Q s) (now : Instant) {line : FallbackLine} (hline : Q line) :
    ∀ name, ∀ l ∈ (s.dir.append now line).linesOf name, Q l := by
  intro name l hl
  rcases FallbackDirectory.mem_linesOf_append.1 hl with hl | ⟨-, rfl⟩
  · exact h.dir name l hl
  · exact hline

omit [DecidableEq ι] in
theorem Lines.move_dir (h : Lines Q s) {dir : FallbackDirectory} {name : String}
    (hmove : s.dir.move name (FallbackDirectory.doneName name) = some dir) :
    ∀ other, ∀ l ∈ dir.linesOf other, Q l := by
  obtain ⟨-, hsource, htarget, hother⟩ := FallbackDirectory.move_eq_some hmove
  intro other l hl
  by_cases ht : other = FallbackDirectory.doneName name
  · rw [ht, htarget] at hl
    exact h.dir _ l hl
  · by_cases hs : other = name
    · rw [hs, hsource (fun heq => ht (hs.trans heq.symm))] at hl
      cases hl
    · rw [hother other hs ht] at hl
      exact h.dir _ l hl

/-- No step makes a line up but an append. -/
theorem Lines.step (h : Lines Q s) (hst : step s a = some t)
    (hnew : ∀ now record, a = .append now record → Q ⟨s.next, record⟩) : Lines Q t := by
  cases steps_of_step hst with
  | append now record =>
      exact ⟨h.append_dir now (hnew now record rfl), h.open_⟩
  | list r hfile =>
      exact h.update r _ h.dir fun result rest f hf => absurd hf (hfile result rest f)
  | @read r result file rest lines hrun hlines =>
      refine h.replace r h.dir fun l hl => h.dir file l ?_
      simpa [FileReplay.open, FallbackDirectory.linesOf, hlines] using hl
  | readError r => exact h.update r _ h.dir (by simp)
  | @send r result rest f l todo hrun htodo hroom =>
      refine h.replace r h.dir fun x hx => h.open_ r result rest f hrun x ?_
      simp only [FileReplay.open, htodo, List.mem_append, List.mem_cons] at hx ⊢
      tauto
  | @ack r id result rest f l hrun hl =>
      refine h.replace r h.dir fun x hx => h.open_ r result rest f hrun x ?_
      simp only [FileReplay.open, List.mem_append] at hx ⊢
      exact hx.imp_left (Or.imp_right List.mem_of_mem_eraseP)
  | @fail r id result rest f l hrun hl =>
      refine h.replace r h.dir fun x hx => h.open_ r result rest f hrun x ?_
      have hin := List.mem_of_find?_eq_some hl
      simp only [FileReplay.open, List.mem_append, List.mem_cons] at hx ⊢
      rcases hx with (hx | hx) | rfl | hx
      · exact .inl (.inl hx)
      · exact .inl (.inr (List.mem_of_mem_eraseP hx))
      · exact .inl (.inr hin)
      · exact .inr hx
  | @reappend r id now result rest f l hrun hl =>
      have hopen := h.open_ r result rest f hrun
      have hline : Q l := hopen l (List.mem_append_right _ (List.mem_of_find?_eq_some hl))
      refine h.replace r (h.append_dir now hline) fun x hx => hopen x ?_
      simp only [FileReplay.open, List.mem_append] at hx ⊢
      exact hx.imp_right List.mem_of_mem_eraseP
  | @rename r result rest f dir hcur hdone hmove => exact h.update r _ (h.move_dir hmove) (by simp)
  | renameError hcur hmove => exact h.update _ _ h.dir (by simp)
  | keep r => exact h.update r _ h.dir (by simp)
  | finish r => exact h.update r _ h.dir (by simp)
  | abort r => exact h.update r _ h.dir (by simp)

/-! ## Records and numbers -/

/-- The numbers of the lines are those of the records diverted, and the numbers acknowledged are of
records published. -/
structure Recorded (s : State ι) (fs : List Fate) : Prop where
  next : s.next = (diverted fs).length
  lines : Lines (fun l => (diverted fs)[l.id]? = some l.record) s
  acked : ∀ id ∈ s.acked, ∃ record ∈ published fs, (diverted fs)[id]? = some record
  published : published fs ⊆ diverted fs

/-- A step that neither diverts nor publishes. -/
theorem Recorded.silent {fs : List Fate} (h : Recorded s fs) (hst : step s a = some t)
    (hfates : fates s a = []) (hnext : t.next = s.next) (hacked : t.acked = s.acked)
    (hnew : ∀ now record, a ≠ .append now record) : Recorded t (fs ++ fates s a) := by
  rw [hfates, List.append_nil]
  exact ⟨hnext.trans h.next, h.lines.step hst fun now record ha => absurd ha (hnew now record),
    hacked ▸ h.acked, h.published⟩

theorem recorded {fs : List Fate} {ok : State ι → Action ι → Prop}
    (h : (failOpen ι).Emits ok fates s fs) : Recorded s fs := by
  refine h.invariant ⟨rfl, ⟨?_, ?_⟩, ?_, ?_⟩ ?_
  · exact fun name l hl => absurd hl List.not_mem_nil
  · intro r result rest f hf
    cases hf
  · exact fun id hid => absurd hid List.not_mem_nil
  · exact List.Subset.refl _
  intro s a t fs _ hi _ hst
  replace hst : step s a = some t := hst
  cases steps_of_step hst with
  | append now record =>
      have hdiverted : diverted (fs ++ fates s (.append now record)) = diverted fs ++ [record] :=
        diverted_append _ _
      have hpublished : published (fs ++ fates s (.append now record)) = published fs :=
        (published_append _ _).trans (List.append_nil _)
      have hold : ∀ {i : ℕ} {r : FallbackRecord}, (diverted fs)[i]? = some r →
          (diverted fs ++ [record])[i]? = some r := fun hi =>
        (List.getElem?_append_left (List.getElem?_eq_some_iff.1 hi).1).trans hi
      refine ⟨?_, ?_, ?_, ?_⟩
      · rw [hdiverted, List.length_append, ← hi.next]
        rfl
      · rw [hdiverted]
        refine (hi.lines.mono fun l hl => hold hl).step hst fun now' record' ha => ?_
        obtain ⟨rfl, rfl⟩ := Action.append.inj ha
        rw [hi.next, List.getElem?_concat_length]
      · rw [hdiverted, hpublished]
        intro id hid
        obtain ⟨r, hr, hget⟩ := hi.acked id hid
        exact ⟨r, hr, hold hget⟩
      · rw [hdiverted, hpublished]
        exact List.subset_append_of_subset_left _ hi.published
  | @ack r id result rest f l hrun hl =>
      have hfates : fates s (.ack r id) = [.published l.record] := by
        simp only [fates, current_eq_some.2 hrun, hl, Option.map_some, Option.toList_some]
      have hline : (diverted fs)[l.id]? = some l.record := by
        refine hi.lines.open_ r result rest f hrun l ?_
        exact List.mem_append_left _ (List.mem_append_right _ (List.mem_of_find?_eq_some hl))
      have hdiverted : diverted (fs ++ [.published l.record]) = diverted fs :=
        (diverted_append _ _).trans (List.append_nil _)
      have hpublished : published (fs ++ [.published l.record]) = published fs ++ [l.record] :=
        published_append _ _
      rw [hfates]
      refine ⟨?_, ?_, ?_, ?_⟩
      · rw [hdiverted]
        exact hi.next
      · rw [hdiverted]
        exact hi.lines.step hst fun now record ha => by cases ha
      · rw [hdiverted, hpublished]
        intro id' hid'
        rcases List.mem_cons.1 hid' with rfl | hid'
        · exact ⟨l.record, List.mem_append_right _ List.mem_cons_self, hline⟩
        · obtain ⟨record, hrecord, hget⟩ := hi.acked id' hid'
          exact ⟨record, List.mem_append_left _ hrecord, hget⟩
      · rw [hdiverted, hpublished]
        refine List.append_subset.2 ⟨hi.published, fun record hrecord => ?_⟩
        rw [List.mem_singleton.1 hrecord]
        exact List.mem_of_getElem? hline
  | list r hfile => exact hi.silent hst rfl rfl rfl (by simp)
  | read hrun hlines => exact hi.silent hst rfl rfl rfl (by simp)
  | readError r => exact hi.silent hst rfl rfl rfl (by simp)
  | send hrun htodo hroom => exact hi.silent hst rfl rfl rfl (by simp)
  | fail hrun hl => exact hi.silent hst rfl rfl rfl (by simp)
  | reappend now hrun hl => exact hi.silent hst rfl rfl rfl (by simp)
  | rename hcur hdone hmove => exact hi.silent hst rfl rfl rfl (by simp)
  | renameError hcur hmove => exact hi.silent hst rfl rfl rfl (by simp)
  | keep r => exact hi.silent hst rfl rfl rfl (by simp)
  | finish r => exact hi.silent hst rfl rfl rfl (by simp)
  | abort r => exact hi.silent hst rfl rfl rfl (by simp)

/-- No record is lost in a run whose renames are safe. -/
theorem accounted_of_emits {fs : List Fate} (h : (failOpen ι).Emits RenameSafe fates s fs) :
    Accounted s := by
  have hinv : ∀ {s : State ι}, (failOpen ι).Reaches RenameSafe s → Inv s :=
    fun hs => hs.reachable.invariant .start fun _ _ _ hi hst => hi.step hst
  refine h.reaches.invariant (fun id hid => absurd hid (Nat.not_lt_zero id)) ?_
  intro s a t hs ha hok hst
  exact (accounted_step_iff (hinv hs) ha hst).2 hok

/-- Once nothing is pending, the records published are the records diverted. -/
theorem mem_published_iff {fs : List Fate} (h : (failOpen ι).Emits RenameSafe fates s fs)
    (hdrained : ∀ id, ¬ s.dir.Pending id) (record : FallbackRecord) :
    record ∈ published fs ↔ record ∈ diverted fs := by
  have hrecorded := recorded h
  refine ⟨fun hmem => hrecorded.published hmem, fun hmem => ?_⟩
  obtain ⟨id, hlt, hget⟩ := List.mem_iff_getElem.1 hmem
  have hacked := (accounted_of_emits h id (hrecorded.next ▸ hlt)).resolve_right (hdrained id)
  obtain ⟨record', hrecord', hget'⟩ := hrecorded.acked id hacked
  rw [List.getElem?_eq_getElem hlt, hget] at hget'
  exact Option.some.inj hget' ▸ hrecord'

end FallbackReplay

end AdPipeline.Collector

namespace AdPipeline.Settlement

open Collector Collector.FallbackReplay

/-- Whatever the archive makes of a record: when the records whose publish failed have all left the
pending files, the settlement is that of an archive that has got each record once, but for the
copies removed. -/
theorem settledAlike_failOpen {ι : Type} [DecidableEq ι] {s : State ι} {fs : List Fate}
    (h : (failOpen ι).Emits RenameSafe fates s fs) (hdrained : ∀ id, ¬ s.dir.Pending id)
    (ssaiPriority : List String) (rates : Rates) (row : FallbackRecord → Option ArchiveRow)
    (direct : List FallbackRecord) {archive : List ArchiveRow}
    (harchive : archive.Perm ((direct ++ published fs).filterMap row))
    (hties : TiesAlike ssaiPriority ((direct ++ diverted fs).filterMap row)) :
    SettledAlike ssaiPriority rates ((direct ++ diverted fs).filterMap row) archive := by
  refine settledAlike hties fun r => ?_
  rw [harchive.mem_iff]
  simp only [List.mem_filterMap, List.mem_append, mem_published_iff h hdrained]

/-- A record of an impression. -/
def impressionRecord (adRequestId : String) : FallbackRecord :=
  ⟨"ad.impression", adRequestId, adRequestId⟩

/-- A record is diverted, and two replays at once publish it before one of them renames the file. -/
theorem exists_replayed_twice : ∃ s : State Bool,
    (failOpen Bool).Emits RenameSafe fates s
      [.diverted (impressionRecord "a1"), .published (impressionRecord "a1"),
        .published (impressionRecord "a1")] ∧ ∀ id, ¬ s.dir.Pending id := by
  have h0 : (failOpen Bool).Emits RenameSafe fates start [] := .init
  have h1 := h0.take (.append ⟨0⟩ (impressionRecord "a1")) trivial rfl rfl
  have h2 := h1.take (.list true) trivial rfl rfl
  have h3 := h2.take (.read true) trivial rfl rfl
  have h4 := h3.take (.list false) trivial rfl rfl
  have h5 := h4.take (.read false) trivial rfl rfl
  have h6 := h5.take (.send true) trivial rfl rfl
  have h7 := h6.take (.ack true 0) trivial rfl rfl
  have h8 := h7.take (.send false) trivial rfl rfl
  have h9 := h8.take (.ack false 0) trivial rfl rfl
  have h10 := h9.take (.rename true)
    (renameSafe_of_linesOf_eq_read fun _ _ _ hcur => by
      obtain rfl := (Prod.mk.inj (Prod.mk.inj (Option.some.inj hcur)).2).2
      rfl) rfl rfl
  refine ⟨_, h10, fun id hpending => ?_⟩
  obtain ⟨name, hkey, hname⟩ := hpending.exists_mem_keys
  obtain rfl : name = "fallback-19700101-00.jsonl.done" := List.mem_singleton.1 hkey
  revert hname
  decide

/-- An impression published twice by replays is settled as if it had been published at once. -/
theorem settledAlike_failOpen_twice :
    SettledAlike ["server", "client"] noRates
      [impressionRow "a2" (some "a2") "cmp-1" "client",
        impressionRow "a1" (some "a1") "cmp-1" "client"]
      [impressionRow "a1" (some "a1") "cmp-1" "client",
        impressionRow "a1" (some "a1") "cmp-1" "client",
        impressionRow "a2" (some "a2") "cmp-1" "client"] := by
  obtain ⟨s, hs, hdrained⟩ := exists_replayed_twice
  exact settledAlike_failOpen hs hdrained _ _
    (fun r => some (impressionRow r.payload (some r.key) "cmp-1" "client"))
    [impressionRecord "a2"] (by decide) (tiesAlike_of_eq (by decide))

end AdPipeline.Settlement
