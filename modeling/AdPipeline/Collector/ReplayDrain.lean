import AdPipeline.Collector.ReplayCall
import Mathlib.Algebra.Ring.Nat

/-!
# Replays whose publishes all succeed

A call of a replay all of whose publishes are acknowledged, while nothing else happens, publishes
each pending line once and leaves no pending file, unless a pending file cannot be renamed because
the directory still has a file with its new name from an earlier replay (`drains_iff`).
-/

namespace AdPipeline.Collector

namespace FallbackReplay

open FallbackDirectory

variable {ι : Type} [DecidableEq ι]

/-- An action of a call in which every publish succeeds. -/
inductive Quiet (r : ι) : Action ι → Prop
  | read : Quiet r (.read r)
  | send : Quiet r (.send r)
  | ack (id : ℕ) : Quiet r (.ack r id)
  | rename : Quiet r (.rename r)
  | keep : Quiet r (.keep r)
  | finish : Quiet r (.finish r)

/-- A call in which every publish succeeds, so far. -/
def QuietCall (s : State ι) (r : ι) (as : List (Action ι)) (t : State ι) : Prop :=
  (failOpen ι).run s (.list r :: as) = some t ∧ ∀ a ∈ as, Quiet r a

/-- A call in which every publish succeeds drains the backlog. -/
structure Drains (s : State ι) (r : ι) : Prop where
  /-- It never ends in an error. -/
  noError : ∀ as t, QuietCall s r as t → t.replays r ≠ .errored
  /-- It comes to an end: it has only so many steps, and a next one as long as it is running. -/
  completes : ∃ n, ∀ as t, QuietCall s r as t → as.length ≤ n ∧
    (Running t r → ∃ a u, Quiet r a ∧ step t a = some u)
  /-- It publishes each pending line once. -/
  published : ∀ as t, QuietCall s r as t → ¬ Running t r →
    t.acked.Perm (s.acked ++ (pendingLines s.dir).map FallbackLine.id)
  /-- It leaves no pending line. -/
  drained : ∀ as t, QuietCall s r as t → ¬ Running t r → pendingLines t.dir = []
  /-- A second replay publishes nothing. -/
  second : ∀ as t, QuietCall s r as t → ¬ Running t r → ∀ r', ¬ Running t r' →
    step t (.list r') = some (setPhase t r' (.finished ⟨0, 0, 0⟩))

/-- Every pending file can be given its new name. -/
def NamesFree (s : State ι) : Prop := ∀ name ∈ pendingFiles s.dir, doneName name ∉ s.dir

/-! ## How far a call has come -/

/-- The file a call is at. -/
def currentFile : Option FileReplay → List String
  | none => []
  | some f => [f.file]

/-- The lines of the file a call is at that it has not published. -/
def openLines : Option FileReplay → List FallbackLine
  | none => []
  | some f => f.todo ++ f.flights

/-- A running call: the pending files are those it has left, nothing has failed, and what is
acknowledged makes up what was pending together with what is left. -/
structure Draining (s : State ι) (t : State ι) (rest : List String)
    (current : Option FileReplay) : Prop where
  files : (pendingFiles t.dir).Perm (currentFile current ++ rest)
  pending : ∀ name ∈ pendingFiles t.dir, name ∈ pendingFiles s.dir
  others : ∀ name ∈ t.dir, isPending name = false →
    name ∈ s.dir ∨ ∃ other, isPending other = true ∧ other ∉ t.dir ∧ name = doneName other
  blocked : ∀ name ∈ pendingFiles s.dir, doneName name ∈ s.dir →
    name ∈ t.dir ∧ doneName name ∈ t.dir
  clean : ∀ f ∈ current, f.failing = [] ∧ f.failed = 0
  conserved : (t.acked ++
      (openLines current ++ rest.flatMap t.dir.linesOf).map FallbackLine.id).Perm
    (s.acked ++ (pendingLines s.dir).map FallbackLine.id)

/-- Where a call can be. -/
inductive CallState (s : State ι) (r : ι) (t : State ι) : Prop
  | running {result : ReplayResult} {rest : List String} {current : Option FileReplay}
      (hrun : t.replays r = .running result rest current) (h : Draining s t rest current)
  | finished {result : ReplayResult} (hrun : t.replays r = .finished result)
      (hfiles : pendingFiles t.dir = [])
      (hblocked : ∀ name ∈ pendingFiles s.dir, doneName name ∉ s.dir)
      (hacked : t.acked.Perm (s.acked ++ (pendingLines s.dir).map FallbackLine.id))
  | errored (hrun : t.replays r = .errored) {name : String} (hname : name ∈ pendingFiles s.dir)
      (hdone : doneName name ∈ s.dir)

variable {s t u : State ι} {r : ι}

/-- A call is running or finished once it has listed the files. -/
theorem callState_listed (s : State ι) (r : ι) :
    CallState s r (listed s r) := by
  unfold listed
  split_ifs with hfiles
  · refine .finished (replays_setPhase s r _) hfiles ?_ ?_
    · rw [hfiles]
      intro name hname
      cases hname
    · rw [pendingLines, hfiles]
      simp [setPhase]
  · refine .running (replays_setPhase s r _) ?_
    constructor
    · exact .refl _
    · exact fun _ hname => hname
    · exact fun _ hname _ => .inl hname
    · exact fun name hname hdone => ⟨(mem_pendingFiles.1 hname).1, hdone⟩
    · intro f hf
      cases hf
    · exact .refl _

omit [DecidableEq ι] in
/-- What is left of the files is in the directory. -/
theorem Draining.mem_dir {rest : List String} {current : Option FileReplay}
    (h : Draining s t rest current) {name : String} (hname : name ∈ currentFile current ++ rest) :
    name ∈ t.dir ∧ isPending name = true :=
  mem_pendingFiles.1 (h.files.mem_iff.2 hname)

omit [DecidableEq ι] in
/-- The rename of the file a call is at leaves the files that are left. -/
theorem Draining.files_move {rest : List String} {f : FileReplay}
    (h : Draining s t rest (some f)) {dir : FallbackDirectory}
    (hmove : t.dir.move f.file (doneName f.file) = some dir) : (pendingFiles dir).Perm rest := by
  have herase := h.files.erase f.file
  rw [currentFile, List.singleton_append, List.erase_cons_head] at herase
  exact (perm_pendingFiles_move hmove).trans herase

omit [DecidableEq ι] in
/-- It leaves their lines as well. -/
theorem Draining.linesOf_move {rest : List String} {f : FileReplay}
    (h : Draining s t rest (some f)) {dir : FallbackDirectory}
    (hmove : t.dir.move f.file (doneName f.file) = some dir) :
    ∀ name ∈ rest, dir.linesOf name = t.dir.linesOf name := by
  intro name hname
  have hmem := mem_pendingFiles.1 ((h.files_move hmove).mem_iff.2 hname)
  have hdonename : name ≠ doneName f.file := (doneName_ne_of_isPending hmem.2 f.file).symm
  have hfile : name ≠ f.file := by
    rintro rfl
    exact ((mem_move hmove).1 hmem.1).elim hdonename fun hne => hne.1 rfl
  exact (move_eq_some hmove).2.2.2 name hfile hdonename

omit [DecidableEq ι] in
/-- The phase that a step of a call finds is the one the call is in. -/
theorem CallState.draining (h : CallState s r t) {result : ReplayResult} {rest : List String}
    {current : Option FileReplay} (hrun : t.replays r = .running result rest current) :
    Draining s t rest current := by
  cases h with
  | running hrun' hd =>
      rw [hrun'] at hrun
      simp only [Phase.running.injEq] at hrun
      obtain ⟨-, rfl, rfl⟩ := hrun
      exact hd
  | finished hrun' => rw [hrun'] at hrun; cases hrun
  | errored hrun' => rw [hrun'] at hrun; cases hrun

omit [DecidableEq ι] in
theorem Quiet.replay {a : Action ι} (ha : Quiet r a) : a.replay = some r := by
  cases ha <;> rfl

omit [DecidableEq ι] in
/-- Renaming the file a call is at leaves the call with the files after it. -/
theorem Draining.rename {rest : List String} {f : FileReplay} {dir : FallbackDirectory}
    (h : Draining s t rest (some f)) (hsettled : f.settled = true)
    (hmove : t.dir.move f.file (doneName f.file) = some dir) {t' : State ι} (hdir : t'.dir = dir)
    (hacked : t'.acked = t.acked) : Draining s t' rest none := by
  have hpend : isPending f.file = true := (h.mem_dir List.mem_cons_self).2
  have hfiles := h.files_move hmove
  have hfile : f.file ∉ dir := by
    intro hmem
    rcases (mem_move hmove).1 hmem with heq | ⟨hne, -⟩
    · exact doneName_ne f.file heq.symm
    · exact hne rfl
  subst hdir
  refine ⟨hfiles, ?_, ?_, ?_, nofun, ?_⟩
  · intro name hname
    refine h.pending name (h.files.mem_iff.2 (List.mem_append_right _ ?_))
    exact hfiles.mem_iff.1 hname
  · intro name hname hnot
    rcases (mem_move hmove).1 hname with rfl | ⟨hne, hmem⟩
    · exact .inr ⟨f.file, hpend, hfile, rfl⟩
    · refine (h.others name hmem hnot).imp_right ?_
      rintro ⟨other, hother, hnotin, rfl⟩
      refine ⟨other, hother, fun hin => ?_, rfl⟩
      rcases (mem_move hmove).1 hin with heq | ⟨-, hin⟩
      · exact doneName_ne_of_isPending hother f.file heq.symm
      · exact hnotin hin
  · intro name hname hblocked
    obtain ⟨hin, hdonein⟩ := h.blocked name hname hblocked
    have hne : name ≠ f.file := by
      rintro rfl
      exact (mem_of_move hmove).2 hdonein
    have hdonene := doneName_ne_of_isPending hpend name
    exact ⟨(mem_move hmove).2 (.inr ⟨hne, hin⟩), (mem_move hmove).2 (.inr ⟨hdonene, hdonein⟩)⟩
  · simp only [FileReplay.settled, Bool.and_eq_true, List.isEmpty_iff] at hsettled
    have hcons := h.conserved
    rw [openLines, hsettled.1.1, hsettled.1.2] at hcons
    rw [openLines, List.flatMap_congr (h.linesOf_move hmove), hacked]
    exact hcons

/-- A quiet step goes on with the call. -/
theorem callState_step {a : Action ι} (h : CallState s r t) (ha : Quiet r a)
    (hst : step t a = some u) : CallState s r u := by
  cases advances_of_step ha.replay hst with
  | listNone => cases ha
  | list => cases ha
  | @read result file rest lines hrun hlines =>
      have hd := h.draining hrun
      refine .running (replays_setPhase t r _)
        ⟨hd.files, hd.pending, hd.others, hd.blocked, ?_, ?_⟩
      · intro f hf
        obtain rfl := Option.some.inj hf
        exact ⟨rfl, rfl⟩
      · have hof : t.dir.linesOf file = lines := by rw [linesOf, hlines, Option.getD_some]
        have hcons := hd.conserved
        rw [List.flatMap_cons, hof] at hcons
        simpa [openLines, setPhase] using hcons
  | @readError result file rest hrun hlines =>
      have hmem := ((h.draining hrun).mem_dir List.mem_cons_self).1
      exact absurd hmem (AList.lookup_eq_none.1 hlines)
  | @send result rest f l todo hrun htodo hroom =>
      have hd := h.draining hrun
      refine .running (replays_setPhase t r _)
        ⟨hd.files, hd.pending, hd.others, hd.blocked, ?_, ?_⟩
      · intro f' hf'
        obtain rfl := Option.some.inj hf'
        exact hd.clean f rfl
      · refine List.Perm.trans ?_ hd.conserved
        refine List.Perm.append_left _ (List.Perm.map _ (List.Perm.append_right _ ?_))
        rw [openLines, openLines, htodo, List.cons_append]
        exact List.perm_middle
  | @ack id result rest f l hrun hl =>
      have hd := h.draining hrun
      refine .running (replays_setPhase_acked t r _ _)
        ⟨hd.files, hd.pending, hd.others, hd.blocked, ?_, ?_⟩
      · intro f' hf'
        obtain rfl := Option.some.inj hf'
        exact hd.clean f rfl
      · refine List.Perm.trans ?_ hd.conserved
        have hperm : (openLines (some f)).Perm
            (l :: openLines (some { f with flights := f.flights.eraseP (hasId id),
                                           accepted := f.accepted + 1 })) :=
          ((Lib.perm_cons_eraseP hl).append_left f.todo).trans List.perm_middle
        have hids := (hperm.append_right (rest.flatMap t.dir.linesOf)).map FallbackLine.id
        exact (List.perm_middle.symm.trans (hids.symm.append_left t.acked))
  | fail => cases ha
  | reappend => cases ha
  | @rename result rest f dir hrun hdone hmove =>
      exact .running (replays_setPhase_dir t r _ _)
        ((h.draining hrun).rename hdone.1 hmove rfl rfl)
  | @renameError result rest f hrun hdone hmove =>
      have hd := h.draining hrun
      obtain ⟨hmem, hpend⟩ : f.file ∈ t.dir ∧ isPending f.file = true :=
        hd.mem_dir List.mem_cons_self
      have htarget := (move_eq_none hmove).resolve_left fun hnot => hnot hmem
      refine .errored (replays_setPhase t r _)
        (hd.pending f.file (mem_pendingFiles.2 ⟨hmem, hpend⟩))
        ((hd.others _ htarget (isPending_doneName f.file)).resolve_right ?_)
      rintro ⟨other, -, hnotin, heq⟩
      rw [doneName_injective heq] at hmem
      exact hnotin hmem
  | @keep result rest f hrun hdone =>
      exact absurd ((h.draining hrun).clean f rfl).2 hdone.2
  | @finish result hrun =>
      have hd := h.draining hrun
      have hnil : pendingFiles t.dir = [] := List.perm_nil.1 hd.files
      refine .finished (replays_setPhase t r _) hnil ?_ ?_
      · intro name hname hdone
        have hmem := (hd.blocked name hname hdone).1
        have hin := mem_pendingFiles.2 ⟨hmem, (mem_pendingFiles.1 hname).2⟩
        rw [hnil] at hin
        cases hin
      · have hcons := hd.conserved
        simp only [openLines, List.flatMap_nil, List.append_nil, List.map_nil] at hcons
        exact hcons
  | abort => cases ha

/-! ## A call comes to an end -/

/-- The steps left of a file: its lines are sent and acknowledged, and it is renamed. -/
def FileReplay.stepsLeft (f : FileReplay) : ℕ := 2 * f.todo.length + f.flights.length + 1

/-- The steps left of a call. -/
def Phase.stepsLeft (dir : FallbackDirectory) : Phase → ℕ
  | .running _ rest current =>
    (current.elim 0 FileReplay.stepsLeft +
      (rest.map fun name => 2 * (dir.linesOf name).length + 2).sum) + 1
  | _ => 0

/-- A quiet step is one of those left. -/
theorem stepsLeft_lt {a : Action ι} (h : CallState s r t) (ha : Quiet r a)
    (hst : step t a = some u) :
    (u.replays r).stepsLeft u.dir < (t.replays r).stepsLeft t.dir := by
  cases advances_of_step ha.replay hst with
  | listNone => cases ha
  | list => cases ha
  | @read result file rest lines hrun hlines =>
      have hof : t.dir.linesOf file = lines := by rw [linesOf, hlines, Option.getD_some]
      rw [hrun, replays_setPhase]
      simp only [Phase.stepsLeft, setPhase, Option.elim, FileReplay.stepsLeft, List.length_nil,
        List.map_cons, List.sum_cons, hof]
      omega
  | @readError result file rest hrun hlines =>
      rw [hrun, replays_setPhase]
      exact Nat.succ_pos _
  | @send result rest f l todo hrun htodo hroom =>
      rw [hrun, replays_setPhase]
      simp only [Phase.stepsLeft, setPhase, Option.elim, FileReplay.stepsLeft, htodo,
        List.length_cons]
      omega
  | @ack id result rest f l hrun hl =>
      have hlength := (Lib.perm_cons_eraseP hl).length_eq
      rw [List.length_cons] at hlength
      show ((setPhase t r _).replays r).stepsLeft t.dir < _
      rw [hrun, replays_setPhase]
      simp only [Phase.stepsLeft, Option.elim, FileReplay.stepsLeft]
      omega
  | fail => cases ha
  | reappend => cases ha
  | @rename result rest f dir hrun hdone hmove =>
      have hmap : rest.map (fun name => 2 * (dir.linesOf name).length + 2) =
          rest.map fun name => 2 * (t.dir.linesOf name).length + 2 := by
        apply List.map_congr_left
        intro name hname
        rw [(h.draining hrun).linesOf_move hmove name hname]
      show ((setPhase t r _).replays r).stepsLeft dir < _
      rw [hrun, replays_setPhase]
      simp only [Phase.stepsLeft, Option.elim, FileReplay.stepsLeft, hmap]
      omega
  | @renameError result rest f hrun hdone hmove =>
      rw [hrun, replays_setPhase]
      exact Nat.succ_pos _
  | @keep result rest f hrun hdone =>
      exact absurd ((h.draining hrun).clean f rfl).2 hdone.2
  | @finish result hrun =>
      rw [hrun, replays_setPhase]
      exact Nat.succ_pos _
  | abort => cases ha

/-- A running call has a next step. -/
theorem exists_quiet_step (h : CallState s r t) (hrunning : Running t r) :
    ∃ a u, Quiet r a ∧ step t a = some u := by
  obtain ⟨result, rest, cur, hrun⟩ := hrunning
  have hd := h.draining hrun
  cases cur with
  | none =>
      cases rest with
      | nil => exact ⟨.finish r, _, .finish, by simp only [step, hrun]; rfl⟩
      | cons file rest =>
          cases hlines : t.dir.lookup file with
          | none => exact ⟨.read r, _, .read, by simp only [step, hrun, hlines]; rfl⟩
          | some lines => exact ⟨.read r, _, .read, by simp only [step, hrun, hlines]; rfl⟩
  | some f =>
      have hcur := current_eq_some.2 hrun
      obtain ⟨hfailing, hfailed⟩ := hd.clean f rfl
      cases hflights : f.flights with
      | cons l flights =>
          -- a publish in flight is acknowledged
          have hfind : f.flights.find? (hasId l.id) = some l := by
            rw [hflights, List.find?_cons_of_pos]
            exact beq_self_eq_true l.id
          exact ⟨.ack r l.id, _, .ack l.id, by simp only [step, hcur, hfind, Option.map_some]; rfl⟩
      | nil =>
          cases htodo : f.todo with
          | cons l todo =>
              have hroom : f.flights.length + f.failing.length < replayConcurrency := by
                rw [hflights, hfailing]
                exact Nat.succ_pos _
              exact ⟨.send r, _, .send, by simp only [step, hcur, htodo, if_pos hroom]; rfl⟩
          | nil =>
              have hdone : f.settled = true ∧ f.failed = 0 := by
                rw [FileReplay.settled, htodo, hflights, hfailing]
                exact ⟨rfl, hfailed⟩
              cases hmove : t.dir.move f.file (doneName f.file) with
              | none =>
                  exact ⟨.rename r, _, .rename, by
                    simp only [step, hcur, if_pos hdone, hmove]; rfl⟩
              | some dir =>
                  exact ⟨.rename r, _, .rename, by
                    simp only [step, hcur, if_pos hdone, hmove]; rfl⟩

/-! ## Whole calls -/

/-- A quiet run goes on with the call, within the steps left. -/
theorem callState_of_run {as : List (Action ι)} {s₀ : State ι} (h0 : CallState s r s₀)
    (hrun : (failOpen ι).run s₀ as = some t) (hquiet : ∀ a ∈ as, Quiet r a) :
    CallState s r t ∧
      as.length + (t.replays r).stepsLeft t.dir ≤ (s₀.replays r).stepsLeft s₀.dir := by
  induction as generalizing s₀ with
  | nil =>
      obtain rfl : s₀ = t := by simpa using hrun
      exact ⟨h0, by rw [List.length_nil, Nat.zero_add]⟩
  | cons a as ih =>
      rw [Lib.System.run_cons] at hrun
      obtain ⟨u, hu, hrun⟩ := Option.bind_eq_some_iff.1 hrun
      have ha := hquiet a List.mem_cons_self
      have hlt := stepsLeft_lt h0 ha hu
      obtain ⟨hstate, hle⟩ := ih (callState_step h0 ha hu) hrun fun b hb =>
        hquiet b (List.mem_cons_of_mem a hb)
      refine ⟨hstate, ?_⟩
      rw [List.length_cons]
      omega

/-- Where a quiet call can be, and the steps it may take. -/
theorem QuietCall.callState {as : List (Action ι)} (hidle : ¬ Running s r)
    (h : QuietCall s r as t) :
    CallState s r t ∧ as.length + (t.replays r).stepsLeft t.dir ≤
      ((listed s r).replays r).stepsLeft (listed s r).dir := by
  obtain ⟨hrun, hquiet⟩ := h
  rw [Lib.System.run_cons] at hrun
  obtain ⟨s₀, hs₀, hrun⟩ := Option.bind_eq_some_iff.1 hrun
  obtain rfl : listed s r = s₀ := Option.some.inj ((step_list hidle).symm.trans hs₀)
  exact callState_of_run (callState_listed s r) hrun hquiet

/-- A quiet call can be continued to its end. -/
theorem exists_quietCall_end (hidle : ¬ Running s r) :
    ∃ as t, QuietCall s r as t ∧ ¬ Running t r := by
  obtain ⟨as, t, hrun, hquiet, -, hend⟩ := (failOpen ι).exists_run_until
    (fun t => (t.replays r).stepsLeft t.dir) (P := CallState s r) (Q := fun t => ¬ Running t r)
    (fun t ht hrunning => by
      obtain ⟨a, u, ha, hst⟩ := exists_quiet_step ht (not_not.1 hrunning)
      exact ⟨a, u, ha, hst, callState_step ht ha hst, stepsLeft_lt ht ha hst⟩)
    (callState_listed s r)
  refine ⟨as, t, ⟨?_, hquiet⟩, hend⟩
  rw [Lib.System.run_cons]
  exact (congrArg (Option.bind · _) (step_list hidle)).trans hrun

/-- What a call leaves once it is over. -/
theorem QuietCall.ended {as : List (Action ι)} (hidle : ¬ Running s r) (hfree : NamesFree s)
    (h : QuietCall s r as t) (hover : ¬ Running t r) :
    pendingFiles t.dir = [] ∧
      t.acked.Perm (s.acked ++ (pendingLines s.dir).map FallbackLine.id) := by
  cases (h.callState hidle).1 with
  | running hrun => exact absurd ⟨_, _, _, hrun⟩ hover
  | finished hrun hfiles hblocked hacked => exact ⟨hfiles, hacked⟩
  | errored hrun hname hdone => exact absurd hdone (hfree _ hname)

/-- A call in which every publish succeeds drains the backlog exactly when each pending file can be
renamed. -/
theorem drains_iff (s : State ι) (r : ι) (hidle : ¬ Running s r) : Drains s r ↔ NamesFree s := by
  constructor
  · intro h name hname hdone
    obtain ⟨as, t, hcall, hover⟩ := exists_quietCall_end hidle
    cases (hcall.callState hidle).1 with
    | running hrun => exact hover ⟨_, _, _, hrun⟩
    | finished hrun hfiles hblocked hacked => exact hblocked name hname hdone
    | errored hrun => exact h.noError as t hcall hrun
  · intro hfree
    constructor
    · intro as t hcall herr
      cases (hcall.callState hidle).1 with
      | running hrun => rw [hrun] at herr; cases herr
      | finished hrun => rw [hrun] at herr; cases herr
      | errored hrun hname hdone => exact hfree _ hname hdone
    · refine ⟨((listed s r).replays r).stepsLeft (listed s r).dir, fun as t hcall => ?_⟩
      obtain ⟨hstate, hle⟩ := hcall.callState hidle
      exact ⟨by omega, exists_quiet_step hstate⟩
    · exact fun as t hcall hover => (hcall.ended hidle hfree hover).2
    · intro as t hcall hover
      rw [pendingLines, (hcall.ended hidle hfree hover).1, List.flatMap_nil]
    · intro as t hcall hover r' hidle'
      rw [step_list hidle', listed, if_pos (hcall.ended hidle hfree hover).1]

/-- The backlog of a first outage can be drained. -/
theorem drains_iff_first_outage :
    ∃ s : State Unit, (failOpen Unit).Reachable s ∧ (pendingLines s.dir).map FallbackLine.id = [0] ∧
      Drains s () := by
  have hreach := Lib.System.reachable_of_run (show (failOpen Unit).run _
    [.append ⟨0⟩ ⟨"ad.click", "r1", "p1"⟩] = some _ from rfl)
  refine ⟨_, hreach, by decide, (drains_iff _ () ?_).2 ?_⟩
  · rintro ⟨result, rest, current, hrun⟩
    cases hrun
  · intro name hname hdone
    obtain rfl := List.mem_singleton.1 (mem_pendingFiles.1 hname).1
    revert hdone
    decide

/-- A second outage within the hour of a first one that was drained is not: its file cannot be
renamed. -/
theorem second_outage_not_drained :
    ¬ ∀ s : State Unit, (failOpen Unit).Reachable s → ¬ Running s () → Drains s () := by
  intro h
  have hreach := Lib.System.reachable_of_run (show (failOpen Unit).run _
    [.append ⟨0⟩ ⟨"ad.click", "r1", "p1"⟩, .list (), .read (), .send (), .ack () 0, .rename (),
      .finish (), .append ⟨0⟩ ⟨"ad.click", "r2", "p2"⟩] = some _ from rfl)
  have hdrains := h _ hreach (by rintro ⟨result, rest, current, hrun⟩; cases hrun)
  refine hdrains.noError [.read (), .send (), .ack () 1, .rename ()] _ ⟨rfl, ?_⟩ rfl
  intro a ha
  simp only [List.mem_cons, List.not_mem_nil, or_false] at ha
  rcases ha with rfl | rfl | rfl | rfl
  · exact .read
  · exact .send
  · exact .ack 1
  · exact .rename

end FallbackReplay

end AdPipeline.Collector
