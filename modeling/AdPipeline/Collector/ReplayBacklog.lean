import AdPipeline.Collector.ReplayCall
import AdPipeline.Collector.TopicRouter
import Mathlib.Algebra.Order.Group.Multiset

/-!
# What replays leave pending

A publish of a replay that fails appends its record again, while the file it was read from is kept.
So the backlog grows by the records whose publish failed and shrinks by those of the files all of
whose publishes succeeded, and it is contained in what was pending before exactly when the former
are among the latter (`doesNotGrow_iff`).
-/

namespace AdPipeline.Collector

namespace FallbackReplay

open FallbackDirectory

variable {ι : Type} [DecidableEq ι]

/-- What came of a publish of a replay, with the line published and its file. -/
structure PublishOutcome where
  file : String
  line : FallbackLine
  outcome : Outcome

/-- The publish that an action ends. -/
def outcomeOf (s : State ι) : Action ι → Option PublishOutcome
  | .ack r id =>
    match current s r with
    | some (_, _, f) => (f.flights.find? (hasId id)).map fun l => ⟨f.file, l, .accepted⟩
    | none => none
  | .reappend r id _ =>
    match current s r with
    | some (_, _, f) => (f.failing.find? (hasId id)).map fun l => ⟨f.file, l, .fallback⟩
    | none => none
  | _ => none

/-- The publishes that end in a run. -/
def outcomes (s : State ι) : List (Action ι) → List PublishOutcome
  | [] => []
  | a :: as => (outcomeOf s a).toList ++ ((step s a).elim [] fun t => outcomes t as)

/-- The lines whose publish failed. -/
def failedLines (os : List PublishOutcome) : List FallbackLine :=
  (os.filter fun o => o.outcome = .fallback).map PublishOutcome.line

/-- No publish of the file failed, and there was no file with its new name. -/
def Whole (dir : FallbackDirectory) (os : List PublishOutcome) (file : String) : Prop :=
  doneName file ∉ dir ∧ ∀ o ∈ os, o.file = file → o.outcome ≠ .fallback

instance (dir : FallbackDirectory) (os : List PublishOutcome) (file : String) :
    Decidable (Whole dir os file) :=
  inferInstanceAs (Decidable (_ ∧ _))

/-- The lines of the files all of whose publishes succeeded. -/
def wholeLines (dir : FallbackDirectory) (os : List PublishOutcome) : List FallbackLine :=
  (os.filter fun o => Whole dir os o.file).map PublishOutcome.line

/-- A call of a replay that is over, with nothing else going on. Every line of a file is one that
`FallbackWriter` wrote, so that no call breaks off at a line that cannot be read. -/
structure Replayed (s : State ι) (r : ι) (as : List (Action ι)) (t : State ι) : Prop where
  call : Call s r as t
  unbroken : .abort r ∉ as
  ended : ¬ Running t r

/-- Calls one after the other, each with the directory it found and its outcomes. -/
inductive Replays : State ι → List (FallbackDirectory × List PublishOutcome) → State ι → Prop
  | nil (s : State ι) : Replays s [] s
  | cons {s t u : State ι} {r : ι} {as : List (Action ι)}
      {calls : List (FallbackDirectory × List PublishOutcome)} (hcall : Replayed s r as t)
      (hcalls : Replays t calls u) : Replays s ((s.dir, outcomes s (.list r :: as)) :: calls) u

/-- The records that are pending, with their copies. -/
def pendingRecords (dir : FallbackDirectory) : Multiset FallbackRecord :=
  (pendingLines dir).map FallbackLine.record

/-- The records whose publish failed. -/
def failedRecords (calls : List (FallbackDirectory × List PublishOutcome)) :
    Multiset FallbackRecord :=
  (calls.flatMap fun call => failedLines call.2).map FallbackLine.record

/-- The records of the files all of whose publishes succeeded. -/
def wholeRecords (calls : List (FallbackDirectory × List PublishOutcome)) :
    Multiset FallbackRecord :=
  (calls.flatMap fun call => wholeLines call.1 call.2).map FallbackLine.record

/-- Replays do not grow the backlog, and leave it as it is when every publish fails. -/
structure DoesNotGrow (s : State ι) (calls : List (FallbackDirectory × List PublishOutcome))
    (t : State ι) : Prop where
  contained : pendingRecords t.dir ≤ pendingRecords s.dir
  outage : (∀ call ∈ calls, ∀ o ∈ call.2, o.outcome = .fallback) →
    pendingRecords t.dir = pendingRecords s.dir

/-! ## The outcomes file by file -/

theorem failedLines_append (os os' : List PublishOutcome) :
    failedLines (os ++ os') = failedLines os ++ failedLines os' := by
  rw [failedLines, List.filter_append, List.map_append]
  rfl

/-- The outcomes of files that have no more outcomes count as before. -/
theorem wholeLines_append {dir : FallbackDirectory} {done own : List PublishOutcome}
    (h : ∀ o ∈ done, ∀ o' ∈ own, o.file ≠ o'.file) :
    wholeLines dir (done ++ own) = wholeLines dir done ++ wholeLines dir own := by
  rw [wholeLines, List.filter_append, List.map_append]
  congr 2
  · apply List.filter_congr
    intro o ho
    refine decide_eq_decide.2 (and_congr_right fun _ => ?_)
    constructor
    · exact fun hall o' ho' => hall o' (List.mem_append_left _ ho')
    · intro hall o' ho' hfile
      rcases List.mem_append.1 ho' with ho' | ho'
      · exact hall o' ho' hfile
      · exact absurd hfile.symm (h o ho o' ho')
  · apply List.filter_congr
    intro o ho
    refine decide_eq_decide.2 (and_congr_right fun _ => ?_)
    constructor
    · exact fun hall o' ho' => hall o' (List.mem_append_right _ ho')
    · intro hall o' ho' hfile
      rcases List.mem_append.1 ho' with ho' | ho'
      · exact absurd hfile (h o' ho' o ho)
      · exact hall o' ho' hfile

/-- The outcomes of one file count together or not at all. -/
theorem wholeLines_file {dir : FallbackDirectory} {own : List PublishOutcome} {file : String}
    (h : ∀ o ∈ own, o.file = file) :
    wholeLines dir own = if Whole dir own file then own.map PublishOutcome.line else [] := by
  have hfilter : (own.filter fun o => Whole dir own o.file) =
      own.filter fun _ => Whole dir own file := by
    apply List.filter_congr
    intro o ho
    rw [h o ho]
  rw [wholeLines, hfilter]
  split_ifs with hwhole
  · simp [hwhole]
  · simp [hwhole]

/-! ## Where a call can be -/

/-- What is known of the file a call is at: which of its lines have an outcome, and that nothing was
added to the file as long as none has failed. -/
structure FileReplay.Tracked (f : FileReplay) (dir : FallbackDirectory)
    (own : List PublishOutcome) : Prop where
  named : ∀ o ∈ own, o.file = f.file
  read : f.read.Perm (f.todo ++ f.flights ++ f.failing ++ own.map PublishOutcome.line)
  failed : f.failed = (failedLines own).length
  kept : f.failed = 0 → dir.linesOf f.file = f.read

/-- A running call. Its outcomes are those of the files it is done with and those of the file it is
at, and only a file it is done with has been renamed. -/
structure Tracked (s t : State ι) (files : List String) (current : Option FileReplay)
    (done own : List PublishOutcome) : Prop where
  nodup : files.Nodup
  pending : ∀ name ∈ files, isPending name = true
  doneNames : ∀ name ∈ files, doneName name ∈ t.dir ↔ doneName name ∈ s.dir
  past : ∀ o ∈ done, o.file ∉ files
  idle : current = none → own = []
  file : ∀ f ∈ current, f.file ∈ files ∧ f.Tracked t.dir own
  balance : (pendingLines t.dir ++ wholeLines s.dir done).Perm
    (pendingLines s.dir ++ failedLines (done ++ own))

/-- The pending lines are those before, with the failed ones and without those of the files all of
whose publishes succeeded. -/
def Balanced (s t : State ι) (os : List PublishOutcome) : Prop :=
  (pendingLines t.dir ++ wholeLines s.dir os).Perm (pendingLines s.dir ++ failedLines os)

/-- Where a call can be, with the outcomes it has had. -/
inductive CallBalance (s : State ι) (r : ι) (t : State ι) (os : List PublishOutcome) : Prop
  | running {result : ReplayResult} {rest : List String} {current : Option FileReplay}
      {done own : List PublishOutcome} (hrun : t.replays r = .running result rest current)
      (hos : os = done ++ own) (h : Tracked s t (filesLeft rest current) current done own)
  | ended (hover : ¬ Running t r) (h : Balanced s t os)

variable {s t u : State ι} {r : ι}

/-- A call that has listed the files has no outcomes yet. -/
theorem callBalance_listed (s : State ι) (r : ι) : CallBalance s r (listed s r) [] := by
  unfold listed
  split_ifs with hfiles
  · exact .ended (not_running_finished s r _) (.refl _)
  · refine .running (replays_setPhase s r _) (List.append_nil []).symm ?_
    constructor
    · exact nodup_pendingFiles s.dir
    · exact fun name hname => (mem_pendingFiles.1 hname).2
    · exact fun name _ => Iff.rfl
    · exact fun o ho => absurd ho List.not_mem_nil
    · exact fun _ => rfl
    · exact fun f hf => by cases hf
    · exact .refl _

/-- The lines of a file all of whose publishes have an outcome, none of them failed. -/
theorem FileReplay.Tracked.lines {f : FileReplay} {dir : FallbackDirectory}
    {own : List PublishOutcome} (h : f.Tracked dir own)
    (hdone : f.settled = true ∧ f.failed = 0) :
    (dir.linesOf f.file).Perm (own.map PublishOutcome.line) ∧
      ∀ o ∈ own, o.outcome ≠ .fallback := by
  have hsettled := hdone.1
  simp only [FileReplay.settled, Bool.and_eq_true, List.isEmpty_iff] at hsettled
  have hread := h.read
  rw [hsettled.1.1, hsettled.1.2, hsettled.2] at hread
  refine ⟨h.kept hdone.2 ▸ hread, fun o ho hfailed => ?_⟩
  have hnil := List.length_eq_zero_iff.1 (h.failed.symm.trans hdone.2)
  have hmem : o.line ∈ failedLines own :=
    List.mem_map_of_mem (List.mem_filter.2 ⟨ho, decide_eq_true hfailed⟩)
  rw [hnil] at hmem
  cases hmem

/-- The file a call is at counts as whole when none of its publishes failed and it can be
renamed. -/
theorem FileReplay.Tracked.wholeLines {f : FileReplay} {dir dir₀ : FallbackDirectory}
    {own : List PublishOutcome} (h : f.Tracked dir own)
    (hdone : f.settled = true ∧ f.failed = 0) (hfree : doneName f.file ∉ dir₀) :
    (wholeLines dir₀ own).Perm (dir.linesOf f.file) := by
  obtain ⟨hlines, hok⟩ := h.lines hdone
  rw [wholeLines_file h.named, if_pos ⟨hfree, fun o ho _ => hok o ho⟩]
  exact hlines.symm

/-- A publish that has its outcome goes from the lines without one to the outcomes. -/
theorem FileReplay.Tracked.settle {f f' : FileReplay} {dir dir' : FallbackDirectory}
    {own : List PublishOutcome} {l : FallbackLine} {outcome : Outcome} (h : f.Tracked dir own)
    (hfile : f'.file = f.file) (hread : f'.read = f.read)
    (hopen : (f.todo ++ f.flights ++ f.failing).Perm
      (l :: (f'.todo ++ f'.flights ++ f'.failing)))
    (hfailed : f'.failed = f.failed + (failedLines [⟨f.file, l, outcome⟩]).length)
    (hkept : f'.failed = 0 → dir'.linesOf f'.file = f'.read) :
    f'.Tracked dir' (own ++ [⟨f.file, l, outcome⟩]) where
  named o ho := by
    rw [hfile]
    rcases List.mem_append.1 ho with ho | ho
    · exact h.named o ho
    · rw [List.mem_singleton.1 ho]
  read := by
    rw [hread, List.map_append, ← List.append_assoc]
    refine h.read.trans ((hopen.append_right _).trans ?_)
    exact (List.perm_append_singleton l _).symm
  failed := by
    rw [failedLines_append, List.length_append, hfailed, h.failed]
  kept := hkept

omit [DecidableEq ι] in
/-- A step without an outcome that leaves the directory as it is. -/
theorem Tracked.moveTo {files : List String} {current : Option FileReplay}
    {done own : List PublishOutcome} (h : Tracked s t files current done own) {t' : State ι}
    {f : FileReplay} (hdir : t'.dir = t.dir) (hfile : f.file ∈ files)
    (htracked : f.Tracked t.dir own) : Tracked s t' files (some f) done own where
  nodup := h.nodup
  pending := h.pending
  doneNames := by
    rw [hdir]
    exact h.doneNames
  past := h.past
  idle hnone := by cases hnone
  file g hg := by
    obtain rfl := Option.some.inj hg
    rw [hdir]
    exact ⟨hfile, htracked⟩
  balance := by
    rw [hdir]
    exact h.balance

omit [DecidableEq ι] in
/-- Between two files the outcomes balance. -/
theorem Tracked.balanced {files : List String} {done : List PublishOutcome}
    (h : Tracked s t files none done []) : Balanced s t done := by
  have hbalance := h.balance
  rw [List.append_nil] at hbalance
  exact hbalance

omit [DecidableEq ι] in
/-- The outcome of a publish of the file a call is at. -/
theorem Tracked.outcome {files : List String} {f f' : FileReplay} {done own : List PublishOutcome}
    (h : Tracked s t files (some f) done own) {o : PublishOutcome} (hfile : f'.file = f.file)
    {t' : State ι} (hnames : ∀ name, doneName name ∈ t'.dir ↔ doneName name ∈ t.dir)
    (htracked : f'.Tracked t'.dir (own ++ [o]))
    (hlines : (pendingLines t'.dir).Perm (pendingLines t.dir ++ failedLines [o])) :
    Tracked s t' files (some f') done (own ++ [o]) where
  nodup := h.nodup
  pending := h.pending
  doneNames name hname := (hnames name).trans (h.doneNames name hname)
  past := h.past
  idle hnone := by cases hnone
  file g hg := by
    obtain rfl := Option.some.inj hg
    exact ⟨hfile ▸ (h.file f rfl).1, htracked⟩
  balance := by
    rw [← List.append_assoc, failedLines_append, ← List.append_assoc]
    refine (hlines.append_right _).trans ?_
    refine List.Perm.trans ?_ (h.balance.append_right _)
    rw [List.append_assoc, List.append_assoc]
    exact List.perm_append_comm.append_left _

omit [DecidableEq ι] in
/-- The file a call is done with, when its lines have gone from the pending ones as they count. -/
theorem Tracked.leave {rest : List String} {f : FileReplay} {done own : List PublishOutcome}
    (h : Tracked s t (filesLeft rest (some f)) (some f) done own) {t' : State ι}
    (hnames : ∀ name ∈ rest, doneName name ∈ t'.dir ↔ doneName name ∈ t.dir)
    (hlines : (pendingLines t.dir).Perm (wholeLines s.dir own ++ pendingLines t'.dir)) :
    Tracked s t' rest none (done ++ own) [] := by
  have htracked := (h.file f rfl).2
  have hbalance : Balanced s t' (done ++ own) := by
    rw [Balanced, wholeLines_append]
    · refine List.Perm.trans ?_ h.balance
      refine List.Perm.trans ?_ (hlines.symm.append_right _)
      rw [← List.append_assoc]
      refine List.perm_append_comm.trans ?_
      rw [List.append_assoc]
    · intro o ho o' ho' heq
      rw [htracked.named o' ho'] at heq
      exact h.past o ho (heq ▸ List.mem_cons_self)
  constructor
  · exact h.nodup.of_cons
  · exact fun name hname => h.pending name (List.mem_cons_of_mem _ hname)
  · intro name hname
    exact (hnames name hname).trans (h.doneNames name (List.mem_cons_of_mem _ hname))
  · intro o ho hmem
    rcases List.mem_append.1 ho with ho | ho
    · exact h.past o ho (List.mem_cons_of_mem _ hmem)
    · rw [htracked.named o ho] at hmem
      exact (List.nodup_cons.1 h.nodup).1 hmem
  · exact fun _ => rfl
  · exact fun g hg => by cases hg
  · rw [List.append_nil]
    exact hbalance

omit [DecidableEq ι] in
/-- The rename of the file a call is at leaves the new names of the files after it alone. -/
theorem Tracked.doneNames_move {rest : List String} {f : FileReplay}
    {done own : List PublishOutcome}
    (h : Tracked s t (filesLeft rest (some f)) (some f) done own) {dir : FallbackDirectory}
    (hmove : t.dir.move f.file (doneName f.file) = some dir) :
    ∀ name ∈ rest, doneName name ∈ dir ↔ doneName name ∈ t.dir := by
  intro name hname
  have hne : doneName name ≠ doneName f.file := fun heq =>
    (List.nodup_cons.1 h.nodup).1 (doneName_injective heq ▸ hname)
  have hnefile : doneName name ≠ f.file :=
    doneName_ne_of_isPending (h.pending f.file List.mem_cons_self) name
  rw [mem_move hmove]
  exact ⟨fun h => (h.resolve_left hne).2, fun h => .inr ⟨hnefile, h⟩⟩

omit [DecidableEq ι] in
/-- A file that cannot be renamed has lost its lines, or was blocked from the start. -/
theorem Tracked.wholeLines_of_move {rest : List String} {f : FileReplay}
    {done own : List PublishOutcome}
    (h : Tracked s t (filesLeft rest (some f)) (some f) done own)
    (hdone : f.settled = true ∧ f.failed = 0)
    (hmove : t.dir.move f.file (doneName f.file) = none) : wholeLines s.dir own = [] := by
  obtain ⟨hfile, hf⟩ := h.file f rfl
  rcases move_eq_none hmove with hgone | htarget
  · -- there is no such file, and so it had no lines
    have hlines := (hf.lines hdone).1
    rw [linesOf_of_notMem hgone] at hlines
    rw [List.map_eq_nil_iff.1 (List.nil_perm.1 hlines)]
    rfl
  · have hin := (h.doneNames f.file hfile).1 htarget
    rw [wholeLines_file hf.named, if_neg fun hwhole => hwhole.1 hin]

/-- A file that is kept has a publish that failed. -/
theorem FileReplay.Tracked.wholeLines_of_failed {f : FileReplay} {dir : FallbackDirectory}
    {own : List PublishOutcome} (h : f.Tracked dir own) (hfailed : f.failed ≠ 0)
    (dir₀ : FallbackDirectory) : FallbackReplay.wholeLines dir₀ own = [] := by
  rw [wholeLines_file h.named, if_neg]
  intro hwhole
  have hpos : 0 < (failedLines own).length := h.failed ▸ Nat.pos_of_ne_zero hfailed
  obtain ⟨l, hl⟩ := List.exists_mem_of_length_pos hpos
  obtain ⟨o, ho, -⟩ := List.mem_map.1 hl
  obtain ⟨ho, hfallback⟩ := List.mem_filter.1 ho
  exact hwhole.2 o ho (h.named o ho) (of_decide_eq_true hfallback)

/-- A step of a call goes on with it. -/
theorem callBalance_step {os : List PublishOutcome} {a : Action ι} (h : CallBalance s r t os)
    (ha : InCall r a) (habort : a ≠ .abort r) (hst : step t a = some u) :
    CallBalance s r u (os ++ (outcomeOf t a).toList) := by
  have htracked : ∀ {result rest current}, t.replays r = .running result rest current →
      ∃ done own, os = done ++ own ∧
        Tracked s t (filesLeft rest current) current done own := by
    intro result rest current hrun
    cases h with
    | @running _ _ _ done own hrun' hos htracked =>
        rw [hrun'] at hrun
        simp only [Phase.running.injEq] at hrun
        obtain ⟨-, rfl, rfl⟩ := hrun
        exact ⟨done, own, hos, htracked⟩
    | ended hover => exact absurd ⟨_, _, _, hrun⟩ hover
  cases advances_of_step ha.1 hst with
  | listNone => exact absurd rfl ha.2
  | list => exact absurd rfl ha.2
  | @read result file rest lines hrun hlines =>
      obtain ⟨done, own, rfl, ht⟩ := htracked hrun
      obtain rfl := ht.idle rfl
      have hof : t.dir.linesOf file = lines := by rw [linesOf, hlines, Option.getD_some]
      refine .running (replays_setPhase t r _) (List.append_nil _)
        (ht.moveTo rfl List.mem_cons_self ?_)
      refine ⟨fun o ho => absurd ho List.not_mem_nil, ?_, rfl, fun _ => hof⟩
      simp
  | @readError result file rest hrun hlines =>
      obtain ⟨done, own, rfl, ht⟩ := htracked hrun
      obtain rfl := ht.idle rfl
      refine .ended (not_running_errored t r) ?_
      rw [List.append_nil, show outcomeOf t (.read r) = none from rfl, Option.toList_none,
        List.append_nil]
      exact ht.balanced
  | @send result rest f l todo hrun htodo hroom =>
      obtain ⟨done, own, rfl, ht⟩ := htracked hrun
      obtain ⟨hfile, hf⟩ := ht.file f rfl
      refine .running (replays_setPhase t r _) (List.append_nil _)
        (ht.moveTo rfl hfile ⟨hf.named, ?_, hf.failed, hf.kept⟩)
      have hopen : (f.todo ++ f.flights).Perm (todo ++ l :: f.flights) := by
        rw [htodo]
        exact List.perm_middle.symm
      exact hf.read.trans ((hopen.append_right _).append_right _)
  | @ack id result rest f l hrun hl =>
      obtain ⟨done, own, rfl, ht⟩ := htracked hrun
      obtain ⟨hfile, hf⟩ := ht.file f rfl
      have ho : outcomeOf t (.ack r id) = some ⟨f.file, l, .accepted⟩ := by
        simp only [outcomeOf, current_eq_some.2 hrun, hl, Option.map_some]
      rw [ho, Option.toList_some, List.append_assoc]
      refine .running (replays_setPhase_acked t r _ _) rfl (ht.outcome ?_ (fun _ => Iff.rfl) ?_ ?_)
      · rfl
      · refine hf.settle rfl rfl (List.perm_iff_count.2 fun x => ?_) rfl hf.kept
        have hflights := (Lib.perm_cons_eraseP hl).count_eq x
        simp only [List.count_append, List.count_cons] at hflights ⊢
        omega
      · rw [show failedLines [⟨f.file, l, .accepted⟩] = [] from rfl, List.append_nil]
        exact .refl _
  | @fail id result rest f l hrun hl =>
      obtain ⟨done, own, rfl, ht⟩ := htracked hrun
      obtain ⟨hfile, hf⟩ := ht.file f rfl
      refine .running (replays_setPhase t r _) (List.append_nil _)
        (ht.moveTo rfl hfile ⟨hf.named, ?_, hf.failed, hf.kept⟩)
      refine hf.read.trans (List.perm_iff_count.2 fun x => ?_)
      have hflights := (Lib.perm_cons_eraseP hl).count_eq x
      simp only [List.count_append, List.count_cons] at hflights ⊢
      omega
  | @reappend id now result rest f l hrun hl =>
      obtain ⟨done, own, rfl, ht⟩ := htracked hrun
      obtain ⟨hfile, hf⟩ := ht.file f rfl
      have ho : outcomeOf t (.reappend r id now) = some ⟨f.file, l, .fallback⟩ := by
        simp only [outcomeOf, current_eq_some.2 hrun, hl, Option.map_some]
      rw [ho, Option.toList_some, List.append_assoc]
      refine .running (replays_setPhase_dir t r _ _) rfl (ht.outcome ?_ ?_ ?_ ?_)
      · rfl
      · exact doneName_mem_append t.dir now l
      · refine hf.settle rfl rfl (List.perm_iff_count.2 fun x => ?_) rfl
          fun hzero => absurd hzero (Nat.succ_ne_zero _)
        have hfailing := (Lib.perm_cons_eraseP hl).count_eq x
        simp only [List.count_append, List.count_cons] at hfailing ⊢
        omega
      · refine (perm_pendingLines_append t.dir now l).trans ?_
        exact (List.perm_append_singleton l _).symm
  | @rename result rest f dir hrun hdone hmove =>
      obtain ⟨done, own, rfl, ht⟩ := htracked hrun
      obtain ⟨hfile, hf⟩ := ht.file f rfl
      have hpending := ht.pending f.file hfile
      have hfree : doneName f.file ∉ s.dir := fun hin =>
        (mem_of_move hmove).2 ((ht.doneNames f.file hfile).2 hin)
      rw [show outcomeOf t (.rename r) = none from rfl, Option.toList_none, List.append_nil]
      refine .running (replays_setPhase_dir t r _ _) (List.append_nil _).symm
        (ht.leave (ht.doneNames_move hmove) ?_)
      exact (perm_pendingLines_move hpending hmove).trans
        ((hf.wholeLines hdone hfree).symm.append_right _)
  | @renameError result rest f hrun hdone hmove =>
      obtain ⟨done, own, rfl, ht⟩ := htracked hrun
      rw [show outcomeOf t (.rename r) = none from rfl, Option.toList_none, List.append_nil]
      have hleft : Tracked s (setPhase t r .errored) rest none (done ++ own) [] := by
        refine ht.leave (fun _ _ => Iff.rfl) ?_
        rw [ht.wholeLines_of_move hdone hmove]
        exact .refl _
      exact .ended (not_running_errored t r) hleft.balanced
  | @keep result rest f hrun hdone =>
      obtain ⟨done, own, rfl, ht⟩ := htracked hrun
      obtain ⟨hfile, hf⟩ := ht.file f rfl
      rw [show outcomeOf t (.keep r) = none from rfl, Option.toList_none, List.append_nil]
      refine .running (replays_setPhase t r _) (List.append_nil _).symm
        (ht.leave (fun _ _ => Iff.rfl) ?_)
      rw [hf.wholeLines_of_failed hdone.2]
      exact .refl _
  | @finish result hrun =>
      obtain ⟨done, own, rfl, ht⟩ := htracked hrun
      obtain rfl := ht.idle rfl
      refine .ended (not_running_finished t r _) ?_
      rw [List.append_nil, show outcomeOf t (.finish r) = none from rfl, Option.toList_none,
        List.append_nil]
      exact ht.balanced
  | abort => exact absurd rfl habort

/-! ## Whole calls -/

/-- A run of a call goes on with it. -/
theorem callBalance_of_run {as : List (Action ι)} {s₀ : State ι} {os : List PublishOutcome}
    (h0 : CallBalance s r s₀ os) (hrun : (failOpen ι).run s₀ as = some t)
    (has : ∀ a ∈ as, InCall r a ∧ a ≠ .abort r) : CallBalance s r t (os ++ outcomes s₀ as) := by
  induction as generalizing s₀ os with
  | nil =>
      obtain rfl : s₀ = t := by simpa using hrun
      rwa [outcomes, List.append_nil]
  | cons a as ih =>
      rw [Lib.System.run_cons] at hrun
      obtain ⟨u, hu, hrun⟩ := Option.bind_eq_some_iff.1 hrun
      obtain ⟨ha, habort⟩ := has a List.mem_cons_self
      have hstep := ih (callBalance_step h0 ha habort hu) hrun fun b hb =>
        has b (List.mem_cons_of_mem a hb)
      rw [List.append_assoc] at hstep
      rw [outcomes, show step s₀ a = some u from hu, Option.elim_some]
      exact hstep

/-- What a call does to the pending lines. -/
theorem Replayed.balanced {as : List (Action ι)} (h : Replayed s r as t) :
    Balanced s t (outcomes s (.list r :: as)) := by
  obtain ⟨⟨hrun, hown⟩, hunbroken, hover⟩ := h
  rw [Lib.System.run_cons] at hrun
  obtain ⟨s₀, hs₀, hrun⟩ := Option.bind_eq_some_iff.1 hrun
  have hidle : ¬ Running s r := by
    rintro ⟨result, rest, current, hphase⟩
    replace hs₀ : step s (.list r) = some s₀ := hs₀
    simp only [step, hphase] at hs₀
    cases hs₀
  obtain rfl : listed s r = s₀ := Option.some.inj ((step_list hidle).symm.trans hs₀)
  have hbalance := callBalance_of_run (callBalance_listed s r) hrun fun a ha =>
    ⟨hown a ha, fun heq => hunbroken (heq ▸ ha)⟩
  rw [List.nil_append] at hbalance
  have houtcomes : outcomes s (.list r :: as) = outcomes (listed s r) as := by
    rw [outcomes, step_list hidle]
    rfl
  rw [houtcomes]
  cases hbalance with
  | running hphase => exact absurd ⟨_, _, _, hphase⟩ hover
  | ended _ h => exact h

theorem wholeRecords_cons (call : FallbackDirectory × List PublishOutcome)
    (calls : List (FallbackDirectory × List PublishOutcome)) :
    wholeRecords (call :: calls) =
      ((wholeLines call.1 call.2).map FallbackLine.record : Multiset _) + wholeRecords calls := by
  rw [wholeRecords, List.flatMap_cons, List.map_append, ← Multiset.coe_add]
  rfl

theorem failedRecords_cons (call : FallbackDirectory × List PublishOutcome)
    (calls : List (FallbackDirectory × List PublishOutcome)) :
    failedRecords (call :: calls) =
      ((failedLines call.2).map FallbackLine.record : Multiset _) + failedRecords calls := by
  rw [failedRecords, List.flatMap_cons, List.map_append, ← Multiset.coe_add]
  rfl

/-- What calls do to the pending records. -/
theorem Replays.balanced {calls : List (FallbackDirectory × List PublishOutcome)}
    (h : Replays s calls t) :
    pendingRecords t.dir + wholeRecords calls = pendingRecords s.dir + failedRecords calls := by
  induction h with
  | nil s => rfl
  | @cons s t u r as calls hcall hcalls ih =>
      have hbalance : pendingRecords t.dir +
            ((wholeLines s.dir (outcomes s (.list r :: as))).map FallbackLine.record : Multiset _) =
          pendingRecords s.dir +
            ((failedLines (outcomes s (.list r :: as))).map FallbackLine.record : Multiset _) := by
        have hperm := hcall.balanced.map FallbackLine.record
        rw [List.map_append, List.map_append] at hperm
        exact Multiset.coe_eq_coe.2 hperm
      rw [wholeRecords_cons, failedRecords_cons, add_left_comm, ih, add_left_comm, add_comm,
        add_assoc, add_comm (failedRecords calls), ← add_assoc, add_comm _ (pendingRecords t.dir),
        hbalance, add_assoc]

/-- When every publish fails, no file is whole. -/
theorem wholeRecords_of_outage {calls : List (FallbackDirectory × List PublishOutcome)}
    (h : ∀ call ∈ calls, ∀ o ∈ call.2, o.outcome = .fallback) : wholeRecords calls = 0 := by
  induction calls with
  | nil => rfl
  | cons call calls ih =>
      have hnil : wholeLines call.1 call.2 = [] := by
        rw [wholeLines, List.map_eq_nil_iff, List.filter_eq_nil_iff]
        intro o ho hwhole
        exact (of_decide_eq_true hwhole).2 o ho rfl (h call List.mem_cons_self o ho)
      rw [wholeRecords_cons, hnil, ih fun call' hcall' => h call' (List.mem_cons_of_mem _ hcall')]
      rfl

/-- Replays do not grow the backlog exactly when the records whose publish failed are among those of
the files all of whose publishes succeeded. -/
theorem doesNotGrow_iff {calls : List (FallbackDirectory × List PublishOutcome)}
    (h : Replays s calls t) : DoesNotGrow s calls t ↔ failedRecords calls ≤ wholeRecords calls := by
  have hiff : pendingRecords t.dir ≤ pendingRecords s.dir ↔
      failedRecords calls ≤ wholeRecords calls := by
    rw [← add_le_add_iff_right (failedRecords calls), ← h.balanced, add_le_add_iff_left]
  constructor
  · exact fun hgrow => hiff.1 hgrow.contained
  · intro hle
    refine ⟨hiff.2 hle, fun houtage => ?_⟩
    have hwhole := wholeRecords_of_outage houtage
    have hfailed : failedRecords calls = 0 := Multiset.le_zero.1 (hwhole ▸ hle)
    have hbalance := h.balanced
    rwa [hwhole, hfailed, add_zero, add_zero] at hbalance

/-- A first record is pending. -/
def onePending : State Unit :=
  { (start : State Unit) with
    dir := append ∅ ⟨0⟩ ⟨0, ⟨"ad.click", "r1", "p1"⟩⟩
    next := 1 }

/-- A replay all of whose publishes succeed does not grow the backlog. -/
theorem doesNotGrow_iff_success :
    ∃ (t : State Unit) (calls : _), Replays onePending calls t ∧
      (pendingRecords onePending.dir).card = 1 ∧ DoesNotGrow onePending calls t := by
  have hcall : Replayed onePending ()
      [.read (), .send (), .ack () 0, .rename (), .finish ()] _ :=
    ⟨⟨show (failOpen Unit).run _ _ = some _ from rfl, by simp [InCall, Action.replay]⟩, by simp,
      fun ⟨_, _, _, hrun⟩ => by cases hrun⟩
  have hcalls := Replays.cons hcall (.nil _)
  refine ⟨_, _, hcalls, by decide, (doesNotGrow_iff hcalls).2 ?_⟩
  exact Multiset.zero_le _

/-- A replay whose only publish fails leaves two copies of the record. -/
theorem failed_replay_grows : ¬ ∀ (s t : State Unit) (calls : _), (failOpen Unit).Reachable s →
    Replays s calls t → DoesNotGrow s calls t := by
  intro h
  have hreach := Lib.System.reachable_of_run (show (failOpen Unit).run _
    [.append ⟨0⟩ ⟨"ad.click", "r1", "p1"⟩] = some onePending from rfl)
  have hcall : Replayed onePending ()
      [.read (), .send (), .fail () 0, .reappend () 0 ⟨0⟩, .keep (), .finish ()] _ :=
    ⟨⟨show (failOpen Unit).run _ _ = some _ from rfl, by simp [InCall, Action.replay]⟩, by simp,
      fun ⟨_, _, _, hrun⟩ => by cases hrun⟩
  have hgrow := h onePending _ _ hreach (.cons hcall (.nil _))
  have hcard := Multiset.card_le_card hgrow.contained
  revert hcard
  decide

end FallbackReplay

end AdPipeline.Collector
