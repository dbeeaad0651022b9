import AdPipeline.Outbox.Delivery
import Mathlib.Algebra.BigOperators.Group.Finset.Piecewise
import Mathlib.Algebra.Order.BigOperators.Group.Finset
import Mathlib.Data.Fintype.BigOperators

/-!
# Exclusivity of the outbox workers

Without faults a worker sends a row at most once, with or without locks: what it has sent outside
its present batch is marked. With `SKIP LOCKED` no two workers hold a row at the same time, and a
row that is held is not marked, so no two workers send the same row.
-/

namespace AdPipeline.Outbox

variable {W : Type}

/-- No send fails or gets lost, and no poll is rolled back. -/
def Faultless : Action W → Prop
  | .lose _ => False
  | .fail _ => False
  | .rollback _ => False
  | _ => True

/-- The row is marked as published. -/
def Marked (s : State W) (id : ℕ) : Prop := ∃ r ∈ s.rows, r.id = id ∧ r.published = true

/-- The rows of its batch a worker has sent. -/
def Phase.sentIds : Phase → List ℕ
  | .idle => []
  | .selecting _ _ => []
  | .sending ⟨_, acked, none⟩ => acked.map OutboxRow.id
  | .sending ⟨batch, acked, some _⟩ => (batch.take (acked.length + 1)).map OutboxRow.id
  | .stopped p => p.acked.map OutboxRow.id
  | .updated p => p.acked.map OutboxRow.id

/-- An unpublished row is not marked. -/
theorem Inv.not_marked {s : State W} (h : Inv s) {r : OutboxRow} (hr : r ∈ s.rows)
    (hpub : r.published = false) : ¬ Marked s r.id := by
  rintro ⟨r', hr', hid, hpub'⟩
  rw [h.eq_of_id_eq hr' hr hid, hpub] at hpub'
  cases hpub'

theorem Inv.nodup_rows {s : State W} (h : Inv s) : (s.rows.map OutboxRow.id).Nodup := by
  have := h.nodup
  rw [List.map_append] at this
  exact this.of_append_left

theorem Inv.nodup_unpublished {s : State W} (h : Inv s) :
    ((unpublished s).map OutboxRow.id).Nodup := by
  have hperm := (List.perm_insertionSort (fun x y : OutboxRow => x.id ≤ y.id)
    (s.rows.filter fun r => !r.published)).map OutboxRow.id
  exact hperm.nodup_iff.2 (h.nodup_rows.sublist (List.filter_sublist.map _))

variable [DecidableEq W]

/-- How often a worker has sent a row. -/
def sent (s : State W) (w : W) (id : ℕ) : ℕ :=
  (messages s).countP fun m => decide (m.worker = w) && decide (m.rowId = id)

/-- What a worker has sent: in its batch exactly the rows it has come to, once each, and elsewhere
only marked rows, at most once each. -/
structure Owns (s : State W) (w : W) (phase : Phase) : Prop where
  nodup : phase.held.Nodup
  ahead : ∀ candidates picked, phase = .selecting candidates picked →
    candidates.Nodup ∧ ∀ id ∈ candidates, id ∉ phase.held
  sentHeld : ∀ id ∈ phase.sentIds, id ∈ phase.held
  once : ∀ id ∈ phase.sentIds, sent s w id = 1
  notYet : ∀ id ∈ phase.held, id ∉ phase.sentIds → sent s w id = 0
  retired : ∀ id, id ∉ phase.held → sent s w id ≤ 1 ∧ (0 < sent s w id → Marked s id)
  complete : ∀ p, phase = .stopped p ∨ phase = .updated p → p.acked = p.batch

theorem Owns.sent_le_one {s : State W} {w : W} {phase : Phase} (h : Owns s w phase) (id : ℕ) :
    sent s w id ≤ 1 := by
  by_cases hheld : id ∈ phase.held
  · by_cases hsent : id ∈ phase.sentIds
    · exact (h.once id hsent).le
    · exact (h.notYet id hheld hsent).le.trans (Nat.zero_le 1)
  · exact (h.retired id hheld).1

/-- What a worker owns depends on its own sends and on the marks, which are only added. -/
theorem Owns.later {s t : State W} {w : W} {phase : Phase} (h : Owns s w phase)
    (hsent : ∀ id, sent t w id = sent s w id) (hmarked : ∀ id, Marked s id → Marked t id) :
    Owns t w phase where
  nodup := h.nodup
  ahead := h.ahead
  sentHeld := h.sentHeld
  once id hid := by rw [hsent]; exact h.once id hid
  notYet id hid hns := by rw [hsent]; exact h.notYet id hid hns
  retired id hid := by
    rw [hsent]
    exact (h.retired id hid).imp_right fun hm hpos => hmarked id (hm hpos)
  complete := h.complete

/-- A phase with the same rows held and sent. -/
theorem Owns.congr {s : State W} {w : W} {phase phase' : Phase} (h : Owns s w phase)
    (hheld : phase'.held = phase.held) (hsentIds : phase'.sentIds = phase.sentIds)
    (hahead : ∀ candidates picked, phase' = .selecting candidates picked →
      candidates.Nodup ∧ ∀ id ∈ candidates, id ∉ phase'.held)
    (hcomplete : ∀ p, phase' = .stopped p ∨ phase' = .updated p → p.acked = p.batch) :
    Owns s w phase' where
  nodup := hheld ▸ h.nodup
  ahead := hahead
  sentHeld := by rw [hheld, hsentIds]; exact h.sentHeld
  once := by rw [hsentIds]; exact h.once
  notYet := by rw [hheld, hsentIds]; exact h.notYet
  retired := by rw [hheld]; exact h.retired
  complete := hcomplete

/-- An idle worker takes a batch of unmarked rows. -/
theorem Owns.take {s : State W} {w : W} (h : Owns s w .idle) {batch : List OutboxRow}
    (hnodup : (batch.map OutboxRow.id).Nodup) (hunmarked : ∀ r ∈ batch, ¬ Marked s r.id) :
    Owns s w (.sending ⟨batch, [], none⟩) where
  nodup := hnodup
  ahead := by simp
  sentHeld := by simp [Phase.sentIds]
  once := by simp [Phase.sentIds]
  notYet := by
    intro id hid _
    obtain ⟨r, hr, rfl⟩ := List.mem_map.1 hid
    by_contra hne
    exact hunmarked r hr ((h.retired r.id List.not_mem_nil).2 (Nat.pos_of_ne_zero hne))
  retired id _ := h.retired id List.not_mem_nil
  complete := by simp

/-- A worker locks one more unmarked row of its snapshot. -/
theorem Owns.pick {s : State W} {w : W} {id : ℕ} {candidates : List ℕ} {picked : List OutboxRow}
    (h : Owns s w (.selecting (id :: candidates) picked)) {r : OutboxRow} (hid : r.id = id)
    (hunmarked : ¬ Marked s r.id) : Owns s w (.selecting candidates (picked ++ [r])) := by
  obtain ⟨hnd, hfree⟩ := h.ahead _ _ rfl
  obtain ⟨hnotin, hnd⟩ := List.nodup_cons.1 hnd
  have hrfree : r.id ∉ picked.map OutboxRow.id := hid ▸ hfree id List.mem_cons_self
  have hheld : ∀ x, x ∈ (picked ++ [r]).map OutboxRow.id ↔
      x ∈ picked.map OutboxRow.id ∨ x = r.id := by
    intro x
    simp
  refine ⟨?_, ?_, by simp [Phase.sentIds], by simp [Phase.sentIds], ?_, ?_, by simp⟩
  · show ((picked ++ [r]).map OutboxRow.id).Nodup
    rw [List.map_append]
    refine List.Nodup.append h.nodup (List.nodup_singleton _) ?_
    simpa using hrfree
  · intro candidates' picked' heq
    obtain ⟨rfl, rfl⟩ := Phase.selecting.inj heq
    refine ⟨hnd, fun x hx hmem => ?_⟩
    rcases (hheld x).1 hmem with hmem | rfl
    · exact hfree x (List.mem_cons_of_mem _ hx) hmem
    · exact hnotin (hid ▸ hx)
  · intro x hx _
    rcases (hheld x).1 hx with hx | rfl
    · exact h.notYet x hx List.not_mem_nil
    · by_contra hne
      exact hunmarked ((h.retired r.id hrfree).2 (Nat.pos_of_ne_zero hne))
  · intro x hx
    exact h.retired x fun hmem => hx ((hheld x).2 (.inl hmem))

/-- A worker passes over a row of its snapshot. -/
theorem Owns.pass {s : State W} {w : W} {id : ℕ} {candidates : List ℕ} {picked : List OutboxRow}
    (h : Owns s w (.selecting (id :: candidates) picked)) :
    Owns s w (.selecting candidates picked) := by
  obtain ⟨hnd, hfree⟩ := h.ahead _ _ rfl
  refine h.congr rfl rfl ?_ (by simp)
  intro candidates' picked' heq
  obtain ⟨rfl, rfl⟩ := Phase.selecting.inj heq
  exact ⟨(List.nodup_cons.1 hnd).2, fun x hx => hfree x (List.mem_cons_of_mem _ hx)⟩

/-- The rows sent while a send is waited for: those acknowledged, and the next one. -/
theorem take_eq_concat {p : Poll} (hacked : p.acked <+: p.batch) {r : OutboxRow}
    (hr : p.nextRow = some r) : p.batch.take (p.acked.length + 1) = p.acked ++ [r] := by
  obtain ⟨rest, hrest⟩ := hacked
  have hlt := (List.getElem?_eq_some_iff.1 hr).1
  rw [List.take_add_one, show p.batch[p.acked.length]? = some r from hr, ← hrest, List.take_left]
  rfl

theorem owns_moveTo {s : State W} (h : ∀ v, Owns s v (s.phases v)) (w : W) {phase : Phase}
    (hw : Owns s w phase) (v : W) :
    Owns (setPhase s w phase) v ((setPhase s w phase).phases v) := by
  by_cases hv : v = w
  · subst hv
    rw [setPhase_phases_self]
    exact hw.later (fun _ => rfl) fun _ hm => hm
  · rw [setPhase_phases_of_ne s hv]
    exact (h v).later (fun _ => rfl) fun _ hm => hm

/-- The state after a send. -/
def afterSend (s : State W) (w : W) (p : Poll) (r : OutboxRow) : State W :=
  { setPhase s w (.sending ⟨p.batch, p.acked, some s.nextSerial⟩) with
    nextSerial := s.nextSerial + 1
    inflight := ⟨s.nextSerial, w, r.id, r.aggregateId, r.payload⟩ :: s.inflight }

theorem sent_afterSend (s : State W) (w : W) (p : Poll) (r : OutboxRow) (v : W) (id : ℕ) :
    sent (afterSend s w p r) v id = sent s v id + if w = v ∧ r.id = id then 1 else 0 := by
  unfold sent messages afterSend
  simp only [List.cons_append, List.countP_cons, Bool.and_eq_true, decide_eq_true_eq]
  rfl

/-- A message stored is a message sent before. -/
theorem sent_store {s : State W} {serial : ℕ} {m : Message W}
    (hm : s.inflight.find? (fun m => m.serial == serial) = some m) (v : W) (id : ℕ) :
    sent { s with
      inflight := s.inflight.eraseP (fun m => m.serial == serial), log := s.log ++ [m] } v id =
        sent s v id := by
  refine List.Perm.countP_eq _ ?_
  show (s.inflight.eraseP (fun m => m.serial == serial) ++ (s.log ++ [m])).Perm
    (s.inflight ++ s.log)
  rw [← List.append_assoc]
  refine (List.perm_append_singleton _ _).trans ?_
  exact ((Lib.perm_cons_eraseP hm).append_right _).symm

/-- The next row of a poll is in its batch and has not been acknowledged. -/
theorem nextRow_fresh {p : Poll} (hnodup : (p.batch.map OutboxRow.id).Nodup)
    (hacked : p.acked <+: p.batch) {r : OutboxRow} (hr : p.nextRow = some r) :
    r.id ∈ p.batch.map OutboxRow.id ∧ r.id ∉ p.acked.map OutboxRow.id := by
  refine ⟨List.mem_map_of_mem (List.mem_of_getElem? hr), ?_⟩
  have hsub : (p.acked ++ [r]).Sublist p.batch := by
    rw [← take_eq_concat hacked hr]
    exact List.take_sublist _ _
  have hnd := hnodup.sublist (hsub.map OutboxRow.id)
  rw [List.map_append, List.nodup_append] at hnd
  exact fun hmem => hnd.2.2 _ hmem _ (by simp) rfl

/-- A worker sends the next row of its batch. -/
theorem Owns.send {s : State W} {w : W} {p : Poll} (hissued : p.issued = none)
    (h : Owns s w (.sending p)) (hacked : p.acked <+: p.batch) {r : OutboxRow}
    (hr : p.nextRow = some r) :
    Owns (afterSend s w p r) w (.sending ⟨p.batch, p.acked, some s.nextSerial⟩) := by
  obtain ⟨batch, acked, issued⟩ := p
  obtain rfl : issued = none := hissued
  obtain ⟨hrheld, hracked⟩ := nextRow_fresh h.nodup hacked hr
  have hids : Phase.sentIds (.sending ⟨batch, acked, some s.nextSerial⟩) =
      acked.map OutboxRow.id ++ [r.id] := by
    rw [Phase.sentIds, take_eq_concat hacked hr, List.map_append]
    rfl
  have hother : ∀ id, id ≠ r.id →
      sent (afterSend s w ⟨batch, acked, none⟩ r) w id = sent s w id := by
    intro id hne
    rw [sent_afterSend, if_neg fun hand => hne hand.2.symm, Nat.add_zero]
  refine ⟨h.nodup, by simp, ?_, ?_, ?_, ?_, by simp⟩
  · intro id hid
    rw [hids, List.mem_append, List.mem_singleton] at hid
    rcases hid with hid | rfl
    · exact h.sentHeld id hid
    · exact hrheld
  · intro id hid
    rw [hids, List.mem_append, List.mem_singleton] at hid
    rcases hid with hid | rfl
    · rw [hother id fun heq => hracked (heq ▸ hid)]
      exact h.once id hid
    · rw [sent_afterSend, if_pos ⟨rfl, rfl⟩, h.notYet r.id hrheld hracked]
  · intro id hid hns
    rw [hids, List.mem_append, List.mem_singleton, not_or] at hns
    rw [hother id hns.2]
    exact h.notYet id hid hns.1
  · intro id hid
    have hne : id ≠ r.id := fun heq => hid (heq ▸ hrheld)
    rw [hother id hne]
    exact h.retired id hid

omit [DecidableEq W] in
/-- What is marked after a poll has committed. -/
theorem marked_markRows {s t : State W} {acked : List OutboxRow}
    (hrows : t.rows = markRows s.rows acked) {id : ℕ} :
    Marked t id ↔ Marked s id ∨ (id ∈ acked.map OutboxRow.id ∧ id ∈ s.rows.map OutboxRow.id) := by
  unfold Marked
  rw [hrows]
  constructor
  · rintro ⟨r, hr, rfl, hpub⟩
    obtain ⟨r', hr', hid, -, -, hmark⟩ := mem_markRows hr
    rcases hmark hpub with hold | hacked
    · exact .inl ⟨r', hr', hid.symm, hold⟩
    · exact .inr ⟨hid ▸ hacked, hid ▸ List.mem_map_of_mem hr'⟩
  · rintro (⟨r, hr, rfl, hpub⟩ | ⟨hacked, hid⟩)
    · refine ⟨_, List.mem_map_of_mem hr, ?_⟩
      split_ifs
      · exact ⟨rfl, rfl⟩
      · exact ⟨rfl, hpub⟩
    · obtain ⟨r, hr, rfl⟩ := List.mem_map.1 hid
      refine ⟨_, List.mem_map_of_mem hr, ?_⟩
      rw [if_pos hacked]
      exact ⟨rfl, rfl⟩

/-- A worker that commits has marked all it holds. -/
theorem Owns.commit {s t : State W} {w : W} {p : Poll} (h : Owns s w (.updated p))
    (hsent : ∀ id, sent t w id = sent s w id) (hrows : t.rows = markRows s.rows p.acked)
    (hback : ∀ r ∈ p.batch, Backed s r) : Owns t w .idle := by
  refine ⟨List.nodup_nil, by simp, by simp [Phase.sentIds], by simp [Phase.sentIds],
    by simp [Phase.held], ?_, by simp⟩
  intro id _
  refine ⟨(hsent id).trans_le (h.sent_le_one id), fun hpos => (marked_markRows hrows).2 ?_⟩
  rw [hsent] at hpos
  by_cases hheld : id ∈ p.batch.map OutboxRow.id
  · right
    rw [h.complete p (.inr rfl)]
    obtain ⟨r, hr, rfl⟩ := List.mem_map.1 hheld
    obtain ⟨r', hr', hid, -⟩ := hback r hr
    exact ⟨hheld, hid ▸ List.mem_map_of_mem hr'⟩
  · exact .inl ((h.retired id hheld).2 hpos)

variable [Fintype W] {props : W → OutboxProperties}

/-- Steps without faults keep what every worker owns. -/
theorem owns_step (hrate : ∀ w, (props w).updateFailRate = 0) {s t : State W} {a : Action W}
    (hi : Inv s) (h : ∀ v, Owns s v (s.phases v)) (hok : Faultless a)
    (hst : step props s a = some t) : ∀ v, Owns t v (t.phases v) := by
  have howns : ∀ {w : W} {phase : Phase}, s.phases w = phase → Owns s w phase :=
    fun hw => hw ▸ h _
  cases steps_of_step hst with
  | insert aggregateId payload => exact fun v => (h v).later (fun _ => rfl) fun _ hm => hm
  | commitDecide hr =>
      refine fun v => (h v).later (fun _ => rfl) ?_
      rintro id ⟨x, hx, hm⟩
      exact ⟨x, List.mem_append_left _ hx, hm⟩
  | rollbackDecide id => exact fun v => (h v).later (fun _ => rfl) fun _ hm => hm
  | @snapshot w hw hskip =>
      refine owns_moveTo h w ((howns hw).congr rfl rfl ?_ (by simp))
      intro candidates picked heq
      obtain ⟨rfl, rfl⟩ := Phase.selecting.inj heq
      exact ⟨hi.nodup_unpublished, by simp [Phase.held]⟩
  | @read w hw hskip =>
      refine owns_moveTo h w ((howns hw).take ?_ fun r hr => ?_)
      · exact hi.nodup_unpublished.sublist ((List.take_sublist _ _).map _)
      · obtain ⟨hmem, hpub⟩ := mem_unpublished.1 (List.mem_of_mem_take hr)
        exact hi.not_marked hmem hpub
  | pass hw hgone => exact owns_moveTo h _ (howns hw).pass
  | pick hw hr hfree =>
      obtain ⟨hmem, hid, hpub⟩ := mem_rows_of_recheck hr
      exact owns_moveTo h _ ((howns hw).pick hid (hi.not_marked hmem hpub))
  | selected hw => exact owns_moveTo h _ ((howns hw).congr rfl rfl (by simp) (by simp))
  | @send w batch acked r hw hr =>
      have hsound : Poll.Sound s ⟨batch, acked, none⟩ := hi.phase_eq hw
      intro v
      by_cases hv : v = w
      · subst hv
        show Owns (afterSend s v ⟨batch, acked, none⟩ r) v ((setPhase s v _).phases v)
        rw [setPhase_phases_self]
        exact (howns hw).send rfl hsound.isPrefix hr
      · show Owns (afterSend s w ⟨batch, acked, none⟩ r) v ((setPhase s w _).phases v)
        rw [setPhase_phases_of_ne s hv]
        refine (h v).later (fun id => ?_) fun _ hm => hm
        rw [sent_afterSend, if_neg fun hand => hv hand.1.symm, Nat.add_zero]
  | store hm => exact fun v => (h v).later (sent_store hm v) fun _ hmark => hmark
  | lose serial => exact hok.elim
  | @ack w batch acked serial m r hw hm hserial hr =>
      have hsound : Poll.Sound s ⟨batch, acked, some serial⟩ := hi.phase_eq hw
      refine owns_moveTo h w ((howns hw).congr rfl ?_ (by simp) (by simp))
      have htake := take_eq_concat hsound.isPrefix (p := ⟨batch, acked, some serial⟩) hr
      simp only [Phase.sentIds]
      rw [htake]
  | fail hw => exact hok.elim
  | @loopEnd w batch acked hw hend =>
      have hsound : Poll.Sound s ⟨batch, acked, none⟩ := hi.phase_eq hw
      refine owns_moveTo h w ((howns hw).congr rfl rfl (by simp) ?_)
      rintro p (heq | heq)
      · obtain rfl := Phase.stopped.inj heq
        exact hsound.isPrefix.eq_of_length hend
      · cases heq
  | @returnEmpty w p hw hempty =>
      have hbatch : p.batch = [] := by rw [← (howns hw).complete p (.inl rfl), hempty]
      refine owns_moveTo h w ((howns hw).congr ?_ ?_ (by simp) (by simp))
      · simp [Phase.held, hbatch]
      · simp [Phase.sentIds, hempty]
  | @skipUpdate w draw hdraw hlt =>
      -- a draw is never below the rate
      rw [hrate w] at hlt
      exact absurd hlt (Rat.not_lt.2 hdraw.1)
  | @update w p draw hw =>
      refine owns_moveTo h w ((howns hw).congr rfl rfl (by simp) ?_)
      rintro p' (heq | heq)
      · cases heq
      · obtain rfl := Phase.updated.inj heq
        exact (howns hw).complete p (.inl rfl)
  | @commit w p hw =>
      have hsound : p.Sound s := hi.phase_eq hw
      intro v
      by_cases hv : v = w
      · subst hv
        show Owns _ v ((setPhase s v .idle).phases v)
        rw [setPhase_phases_self]
        exact (howns hw).commit (fun _ => rfl) rfl hsound.backed
      · show Owns _ v ((setPhase s w .idle).phases v)
        rw [setPhase_phases_of_ne s hv]
        exact (h v).later (fun _ => rfl) fun _ hm => (marked_markRows rfl).2 (.inl hm)
  | rollback w => exact hok.elim

/-! ## Locks -/

/-- No row is held twice, no marked row is held, and no row has been sent by two workers. -/
structure Exclusive (s : State W) : Prop where
  disjoint : ∀ v w, v ≠ w → ∀ id ∈ (s.phases v).held, id ∉ (s.phases w).held
  unmarked : ∀ w, ∀ id ∈ (s.phases w).held, ¬ Marked s id
  single : ∀ v w, v ≠ w → ∀ id, sent s v id = 0 ∨ sent s w id = 0

omit [Fintype W] in
theorem exclusive_moveTo {s : State W} (h : Exclusive s) (w : W) {phase : Phase}
    (hfree : ∀ v, v ≠ w → ∀ id ∈ phase.held, id ∉ (s.phases v).held)
    (hunmarked : ∀ id ∈ phase.held, ¬ Marked s id) : Exclusive (setPhase s w phase) where
  disjoint := by
    intro u v huv id hu hv
    by_cases huw : u = w
    · subst huw
      rw [setPhase_phases_self] at hu
      rw [setPhase_phases_of_ne s huv.symm] at hv
      exact hfree v huv.symm id hu hv
    · rw [setPhase_phases_of_ne s huw] at hu
      by_cases hvw : v = w
      · subst hvw
        rw [setPhase_phases_self] at hv
        exact hfree u huw id hv hu
      · rw [setPhase_phases_of_ne s hvw] at hv
        exact h.disjoint u v huv id hu hv
  unmarked := by
    intro u id hu
    by_cases huw : u = w
    · subst huw
      rw [setPhase_phases_self] at hu
      exact hunmarked id hu
    · rw [setPhase_phases_of_ne s huw] at hu
      exact h.unmarked u id hu
  single := h.single

omit [Fintype W] in
/-- A worker that holds no more than before. -/
theorem exclusive_moveTo_of_subset {s : State W} (h : Exclusive s) (w : W) {phase : Phase}
    (hsub : ∀ id ∈ phase.held, id ∈ (s.phases w).held) : Exclusive (setPhase s w phase) :=
  exclusive_moveTo h w (fun v hv id hid => h.disjoint w v hv.symm id (hsub id hid))
    fun id hid => h.unmarked w id (hsub id hid)

omit [Fintype W] in
/-- A row that is held has been sent by no other worker. -/
theorem Exclusive.sent_eq_zero {s : State W} (h : Exclusive s)
    (ho : ∀ v, Owns s v (s.phases v)) {v w : W} (hvw : v ≠ w) {id : ℕ}
    (hid : id ∈ (s.phases w).held) : sent s v id = 0 := by
  by_contra hne
  have hfree := h.disjoint w v hvw.symm id hid
  exact h.unmarked w id hid (((ho v).retired id hfree).2 (Nat.pos_of_ne_zero hne))

omit [Fintype W] in
theorem Exclusive.send {s : State W} (h : Exclusive s) (ho : ∀ v, Owns s v (s.phases v)) {w : W}
    {p : Poll} (hphase : s.phases w = .sending p) {r : OutboxRow} (hr : p.nextRow = some r) :
    Exclusive (afterSend s w p r) := by
  have hheld : r.id ∈ (s.phases w).held := by
    rw [hphase]
    exact List.mem_map_of_mem (List.mem_of_getElem? hr)
  have hmoved : Exclusive (setPhase s w (.sending ⟨p.batch, p.acked, some s.nextSerial⟩)) :=
    exclusive_moveTo_of_subset h w fun id hid => by
      rw [hphase]
      exact hid
  refine ⟨hmoved.disjoint, hmoved.unmarked, fun u v huv id => ?_⟩
  rw [sent_afterSend, sent_afterSend]
  by_cases hid : r.id = id
  · subst hid
    by_cases huw : w = u
    · subst huw
      right
      rw [h.sent_eq_zero ho huv.symm hheld, if_neg fun hand => huv hand.1]
    · left
      rw [h.sent_eq_zero ho (Ne.symm huw) hheld, if_neg fun hand => huw hand.1]
  · rw [if_neg fun hand => hid hand.2, if_neg fun hand => hid hand.2]
    exact h.single u v huv id

/-- Steps without faults keep the locks exclusive. -/
theorem exclusive_step (hskip : ∀ w, (props w).skipLocked = true) {s t : State W} {a : Action W}
    (hi : Inv s) (ho : ∀ v, Owns s v (s.phases v)) (h : Exclusive s) (hok : Faultless a)
    (hst : step props s a = some t) : Exclusive t := by
  -- a step that leaves a worker with some of the rows it held
  have hless : ∀ {w : W} {phase phase' : Phase}, s.phases w = phase →
      (∀ id ∈ phase'.held, id ∈ phase.held) → Exclusive (setPhase s w phase') :=
    fun hw hsub => exclusive_moveTo_of_subset h _ (hw ▸ hsub)
  cases steps_of_step hst with
  | insert aggregateId payload => exact ⟨h.disjoint, h.unmarked, h.single⟩
  | commitDecide hr =>
      refine ⟨h.disjoint, fun w x hx => ?_, h.single⟩
      rintro ⟨y, hy, hyid, hpub⟩
      rcases List.mem_append.1 hy with hy | hy
      · exact h.unmarked w x hx ⟨y, hy, hyid, hpub⟩
      · rw [List.mem_singleton.1 hy, hi.fresh _ (List.mem_of_find?_eq_some hr)] at hpub
        cases hpub
  | rollbackDecide id => exact ⟨h.disjoint, h.unmarked, h.single⟩
  | snapshot hw _ => exact hless hw (by simp [Phase.held])
  | @read w hw hnoskip =>
      rw [hskip w] at hnoskip
      cases hnoskip
  | pass hw hgone => exact hless hw fun _ hx => hx
  | @pick w id candidates picked r hw hr hfree =>
      obtain ⟨hmem, hid, hpub⟩ := mem_rows_of_recheck hr
      -- the row picked is neither locked nor marked
      have hpicked : ∀ x ∈ Phase.held (.selecting candidates (picked ++ [r])),
          x ∈ (s.phases w).held ∨ x = r.id := by
        intro x hx
        rw [hw]
        simpa [Phase.held] using hx
      refine exclusive_moveTo h w (fun v hv x hx hxv => ?_) fun x hx => ?_
      · rcases hpicked x hx with hx | rfl
        · exact h.disjoint w v hv.symm x hx hxv
        · refine hfree ⟨v, hv, ?_⟩
          rw [hskip v, Phase.locked_true]
          exact hid ▸ hxv
      · rcases hpicked x hx with hx | rfl
        · exact h.unmarked w x hx
        · exact hi.not_marked hmem hpub
  | selected hw => exact hless hw fun _ hx => hx
  | send hw hr => exact h.send ho hw hr
  | store hm =>
      refine ⟨h.disjoint, h.unmarked, fun u v huv id => ?_⟩
      rw [sent_store hm, sent_store hm]
      exact h.single u v huv id
  | lose serial => exact hok.elim
  | ack hw hm hserial hr => exact hless hw fun _ hx => hx
  | fail hw => exact hok.elim
  | loopEnd hw hend => exact hless hw fun _ hx => hx
  | returnEmpty hw hempty => exact hless hw (by simp [Phase.held])
  | skipUpdate hdraw hrate => exact exclusive_moveTo_of_subset h _ (by simp [Phase.held])
  | update draw hw => exact hless hw fun _ hx => hx
  | @commit w p hw =>
      have hmoved : Exclusive (setPhase s w .idle) := hless hw (by simp [Phase.held])
      refine ⟨hmoved.disjoint, fun v id hid hmarked => ?_, hmoved.single⟩
      have hvw : v ≠ w := by
        rintro rfl
        change id ∈ ((setPhase s v .idle).phases v).held at hid
        rw [setPhase_phases_self] at hid
        cases hid
      change id ∈ ((setPhase s w .idle).phases v).held at hid
      rw [setPhase_phases_of_ne s hvw] at hid
      rcases (marked_markRows rfl).1 hmarked with hold | ⟨hacked, -⟩
      · exact h.unmarked v id hid hold
      · -- what the poll marks it holds, so no other worker does
        refine h.disjoint v w hvw id hid ?_
        have hacked' := (ho w).sentHeld id
        rw [hw] at hacked' ⊢
        exact hacked' hacked
  | rollback w => exact hok.elim

/-! ## How often a row is published -/

/-- How often a row is in the log. -/
def published (s : State W) (id : ℕ) : ℕ := s.log.countP fun m => decide (m.rowId = id)

/-- The messages of a row are those its workers have sent. -/
theorem countP_eq_sum_sent (ms : List (Message W)) (id : ℕ) :
    (ms.countP fun m => decide (m.rowId = id)) =
      ∑ w, ms.countP fun m => decide (m.worker = w) && decide (m.rowId = id) := by
  induction ms with
  | nil => simp
  | cons m ms ih =>
      simp only [List.countP_cons, Finset.sum_add_distrib, ← ih]
      congr 1
      by_cases hid : m.rowId = id
      · simp [hid]
      · simp [hid]

theorem published_le_sum_sent (s : State W) (id : ℕ) : published s id ≤ ∑ w, sent s w id := by
  unfold sent
  rw [← countP_eq_sum_sent, messages, List.countP_append]
  exact Nat.le_add_left _ _

/-- In a run without faults, and with update fail rates of zero, no row is published more often than
there are workers, and no row more than once when all of them use `SKIP LOCKED`. -/
theorem published_le (props : W → OutboxProperties) (hrate : ∀ w, (props w).updateFailRate = 0)
    (s : State W) (hs : (outbox W props).Reaches (fun _ a => Faultless a) s) (id : ℕ) :
    published s id ≤ Fintype.card W ∧
      ((∀ w, (props w).skipLocked = true) → published s id ≤ 1) := by
  have hinv : ∀ {s : State W}, (outbox W props).Reaches (fun _ a => Faultless a) s → Inv s :=
    fun hs => hs.reachable.invariant .start fun _ _ _ hi hst => hi.step hst
  have howns : ∀ {s : State W}, (outbox W props).Reaches (fun _ a => Faultless a) s →
      ∀ v, Owns s v (s.phases v) := by
    intro s hs
    refine hs.invariant ?_ fun s a t hs' ho hok hst => owns_step hrate (hinv hs') ho hok hst
    intro v
    exact ⟨List.nodup_nil, by simp [outbox, start], by simp [outbox, start, Phase.sentIds],
      by simp [outbox, start, Phase.sentIds], by simp [outbox, start, Phase.held],
      by simp [outbox, start, sent, messages], by simp [outbox, start]⟩
  have hone : ∀ w, sent s w id ≤ 1 := fun w => (howns hs w).sent_le_one id
  refine ⟨?_, fun hskip => ?_⟩
  · calc published s id ≤ ∑ w, sent s w id := published_le_sum_sent s id
      _ ≤ ∑ _w : W, 1 := Finset.sum_le_sum fun w _ => hone w
      _ = Fintype.card W := by simp
  · have hexcl : Exclusive s := by
      refine hs.invariant ?_ fun s a t hs' he hok hst =>
        exclusive_step hskip (hinv hs') (howns hs') he hok hst
      exact ⟨by simp [outbox, start, Phase.held], by simp [outbox, start, Phase.held],
        by simp [outbox, start, sent, messages]⟩
    refine (published_le_sum_sent s id).trans ?_
    by_cases hzero : ∀ w, sent s w id = 0
    · simp [hzero]
    · -- all other workers have sent nothing
      push Not at hzero
      obtain ⟨w, hw⟩ := hzero
      rw [Finset.sum_eq_single w]
      · exact hone w
      · exact fun v _ hvw => (hexcl.single v w hvw id).resolve_right hw
      · exact fun hmem => absurd (Finset.mem_univ w) hmem

/-- Two workers without locks read the same snapshot and publish the same row twice. -/
theorem published_le_two_workers :
    ∃ s : State (Fin 2), s.rows.map OutboxRow.id = [1] ∧ published s 1 = 2 ∧
      published s 1 ≤ Fintype.card (Fin 2) := by
  have h0 : (outbox (Fin 2) fun _ => ⟨500, 0, false⟩).Reaches (fun _ a => Faultless a) start :=
    .init
  have h1 := h0.take (.insert "r1" "p1") trivial rfl
  have h2 := h1.take (.commitDecide 1) trivial rfl
  have h3 := h2.take (.select 0) trivial rfl
  have h4 := h3.take (.select 1) trivial rfl
  have h5 := h4.take (.send 0) trivial rfl
  have h6 := h5.take (.send 1) trivial rfl
  have h7 := h6.take (.store 0) trivial rfl
  have h8 := h7.take (.store 1) trivial rfl
  exact ⟨_, rfl, rfl, (published_le (fun _ => ⟨500, 0, false⟩) (fun _ => rfl) _ h8 1).1⟩

end AdPipeline.Outbox
