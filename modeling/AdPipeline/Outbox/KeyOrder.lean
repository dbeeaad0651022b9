import AdPipeline.Outbox.Exclusivity

/-!
# Order within a partition key

Rows of one `ad_request_id` share a partition, where the order of their first publications is what a
consumer sees. Polls go through the table by id, so that two things can turn the order around: a
row committed while an earlier one of its key is still open, and a poll that takes a row after it
has passed over an earlier one of its key. Without them the order is that of the ids
(`keyOrdered_of_orderSafe`), and where a key has one row they do not happen
(`orderSafe_of_freshKey`); but the key is the client's, and nothing keeps it from being used again.
-/

namespace AdPipeline.Outbox

variable {W : Type}

/-- The row has been published. -/
def InLog (s : State W) (id : ℕ) : Prop := id ∈ s.log.map Message.rowId

instance (s : State W) (id : ℕ) : Decidable (InLog s id) := inferInstanceAs (Decidable (_ ∈ _))

/-- The rows of a key in the order of their first publications. -/
def firstPublications (key : String) (log : List (Message W)) : List ℕ :=
  log.foldl (fun ids m => if m.key = key ∧ m.rowId ∉ ids then ids ++ [m.rowId] else ids) []

/-- For each key the first publications are in id order. -/
def KeyOrdered (s : State W) : Prop :=
  ∀ key, (firstPublications key s.log).Pairwise (· < ·)

/-- One more message is a first publication or not. -/
theorem firstPublications_concat (key : String) (log : List (Message W)) (m : Message W) :
    firstPublications key (log ++ [m]) =
      if m.key = key ∧ m.rowId ∉ firstPublications key log then
        firstPublications key log ++ [m.rowId]
      else firstPublications key log := by
  rw [firstPublications, List.foldl_append]
  rfl

theorem mem_firstPublications {key : String} {log : List (Message W)} {id : ℕ} :
    id ∈ firstPublications key log ↔ ∃ m ∈ log, m.key = key ∧ m.rowId = id := by
  induction log using List.reverseRecOn with
  | nil => simp [firstPublications]
  | append_singleton log m ih =>
      rw [firstPublications_concat]
      constructor
      · intro h
        split_ifs at h with hm
        · rcases List.mem_append.1 h with h | h
          · obtain ⟨m', hm', hkey⟩ := ih.1 h
            exact ⟨m', List.mem_append_left _ hm', hkey⟩
          · exact ⟨m, by simp, hm.1, (List.mem_singleton.1 h).symm⟩
        · obtain ⟨m', hm', hkey⟩ := ih.1 h
          exact ⟨m', List.mem_append_left _ hm', hkey⟩
      · rintro ⟨m', hm', hkey, rfl⟩
        rcases List.mem_append.1 hm' with hm' | hm'
        · have hold := ih.2 ⟨m', hm', hkey, rfl⟩
          split_ifs
          · exact List.mem_append_left _ hold
          · exact hold
        · obtain rfl := List.mem_singleton.1 hm'
          split_ifs with hnew
          · simp
          · by_contra hmem
            exact hnew ⟨hkey, hmem⟩

/-! ## The invariant -/

/-- Each committed row of the key of the row `id` with a smaller id has been published, or is one of
those named. -/
def EarlierFirst (s : State W) (id : ℕ) (ids : List ℕ) : Prop :=
  ∀ x ∈ s.rows, ∀ y ∈ s.rows, y.id = id → x.aggregateId = y.aggregateId → x.id < id →
    InLog s x.id ∨ x.id ∈ ids

instance (s : State W) (id : ℕ) (ids : List ℕ) : Decidable (EarlierFirst s id ids) :=
  inferInstanceAs (Decidable (∀ x ∈ s.rows, ∀ y ∈ s.rows, y.id = id → _ → x.id < id →
    InLog s x.id ∨ x.id ∈ ids))

/-- The rows of the snapshot a poll has yet to try. -/
def Phase.candidates : Phase → List ℕ
  | selecting candidates _ => candidates
  | _ => []

/-- A poll has its rows in id order, and each of them with the earlier ones of its key. -/
structure Phase.Ordered (s : State W) (phase : Phase) : Prop where
  sorted : (phase.held ++ phase.candidates).Pairwise (· < ·)
  earlier : ∀ id ∈ phase.held, EarlierFirst s id phase.held

/-- What holds of every state of a run that is safe for the order. -/
structure KeyInv (s : State W) : Prop where
  opened : ∀ x ∈ s.rows, ∀ o ∈ s.opened, o.aggregateId = x.aggregateId → x.id < o.id
  phases : ∀ w, (s.phases w).Ordered s
  earlier : ∀ m ∈ messages s, ∀ x ∈ s.rows, x.aggregateId = m.key → x.id < m.rowId →
    InLog s x.id

theorem Phase.Ordered.idle (s : State W) : Phase.idle.Ordered s :=
  ⟨List.Pairwise.nil, by simp [Phase.held]⟩

theorem KeyInv.start : KeyInv (start : State W) where
  opened := by simp [Outbox.start]
  phases _ := .idle _
  earlier := by simp [Outbox.start, messages]

/-- The rows are versions of the rows before, and nothing has left the log. -/
structure Extends (s t : State W) : Prop where
  rows : ∀ x ∈ t.rows, ∃ x' ∈ s.rows, x'.id = x.id ∧ x'.aggregateId = x.aggregateId
  log : ∀ id, InLog s id → InLog t id

theorem Extends.of_rows_eq {s t : State W} (hrows : t.rows = s.rows)
    (hlog : ∀ id, InLog s id → InLog t id) : Extends s t :=
  ⟨fun x hx => ⟨x, hrows ▸ hx, rfl, rfl⟩, hlog⟩

theorem EarlierFirst.later {s t : State W} {id : ℕ} {ids : List ℕ} (h : EarlierFirst s id ids)
    (hst : Extends s t) : EarlierFirst t id ids := by
  intro x hx y hy hid hkey hlt
  obtain ⟨x', hx', hxid, hxkey⟩ := hst.rows x hx
  obtain ⟨y', hy', hyid, hykey⟩ := hst.rows y hy
  rw [← hxid] at hlt ⊢
  exact (h x' hx' y' hy' (hyid.trans hid) ((hxkey.trans hkey).trans hykey.symm) hlt).imp_left
    (hst.log _)

theorem Phase.Ordered.later {s t : State W} {phase : Phase} (h : phase.Ordered s)
    (hst : Extends s t) : phase.Ordered t :=
  ⟨h.sorted, fun id hid => (h.earlier id hid).later hst⟩

/-- A poll that has the same rows, or fewer yet to try. -/
theorem Phase.Ordered.congr {s : State W} {phase phase' : Phase} (h : phase.Ordered s)
    (hheld : phase'.held = phase.held) (hcand : phase'.candidates.Sublist phase.candidates) :
    phase'.Ordered s where
  sorted := by
    rw [hheld]
    exact h.sorted.sublist (hcand.append_left _)
  earlier := by
    rw [hheld]
    exact h.earlier

/-- What a poll holds are committed rows. -/
theorem Phase.Sound.exists_row {s : State W} {phase : Phase} (h : phase.Sound s) {id : ℕ}
    (hid : id ∈ phase.held) : ∃ x ∈ s.rows, x.id = id := by
  have hback : ∀ {rows : List OutboxRow}, (∀ r ∈ rows, Backed s r) →
      id ∈ rows.map OutboxRow.id → ∃ x ∈ s.rows, x.id = id := by
    intro rows hrows hmem
    obtain ⟨r, hr, rfl⟩ := List.mem_map.1 hmem
    obtain ⟨x, hx, hxid, -⟩ := hrows r hr
    exact ⟨x, hx, hxid⟩
  cases phase with
  | idle => cases hid
  | selecting candidates picked => exact hback h hid
  | sending p => exact hback (Poll.Sound.backed h) hid
  | stopped p => exact hback (Poll.Sound.backed h) hid
  | updated p => exact hback (Poll.Sound.backed h) hid

/-- The unpublished rows in strict id order. -/
theorem Inv.sorted_unpublished {s : State W} (h : Inv s) :
    ((unpublished s).map OutboxRow.id).Pairwise (· < ·) := by
  have : Std.Total fun x y : OutboxRow => x.id ≤ y.id := ⟨fun x y => le_total x.id y.id⟩
  have : IsTrans OutboxRow fun x y => x.id ≤ y.id := ⟨fun _ _ _ hxy hyz => le_trans hxy hyz⟩
  have hle : ((unpublished s).map OutboxRow.id).Pairwise (· ≤ ·) :=
    List.pairwise_map.2 (List.pairwise_insertionSort _ _)
  exact hle.imp₂ (fun _ _ hab hne => lt_of_le_of_ne hab hne) h.nodup_unpublished

/-- In a strictly sorted list what is below an entry comes before it. -/
theorem mem_take_of_lt {l : List ℕ} (h : l.Pairwise (· < ·)) {k a b : ℕ} (hb : l[k]? = some b)
    (ha : a ∈ l) (hlt : a < b) : a ∈ l.take k := by
  obtain ⟨i, hi, rfl⟩ := List.mem_iff_getElem.1 ha
  obtain ⟨hk, rfl⟩ := List.getElem?_eq_some_iff.1 hb
  have hik : i < k := by
    by_contra hle
    rcases Nat.lt_or_eq_of_le (Nat.not_lt.1 hle) with hki | rfl
    · exact absurd (List.pairwise_iff_getElem.1 h k i hk hi hki) (Nat.lt_asymm hlt)
    · exact lt_irrefl _ hlt
  refine List.mem_iff_getElem.2 ⟨i, ?_, ?_⟩
  · rw [List.length_take]
    omega
  · rw [List.getElem_take]

variable [DecidableEq W]

theorem KeyInv.moveTo {s : State W} (h : KeyInv s) (w : W) {phase : Phase}
    (hp : phase.Ordered s) : KeyInv (setPhase s w phase) where
  opened := h.opened
  phases := by
    intro v
    have hext : Extends s (setPhase s w phase) := .of_rows_eq rfl fun _ hid => hid
    by_cases hv : v = w
    · subst hv
      rw [setPhase_phases_self]
      exact hp.later hext
    · rw [setPhase_phases_of_ne s hv]
      exact (h.phases v).later hext
  earlier := h.earlier

/-! ## Steps that are safe for the order -/

/-- The row a poll looks at next, with those it has picked. -/
def Phase.examined : Phase → Option (ℕ × List ℕ)
  | selecting (id :: _) picked => some (id, picked.map OutboxRow.id)
  | _ => none

/-- The row a decide transaction commits comes before the open ones of its key. -/
def CommitsInOrder (s : State W) (id : ℕ) : Prop :=
  ∀ r ∈ s.opened.find? (fun r => r.id == id), ∀ o ∈ s.opened,
    o.aggregateId = r.aggregateId → r.id ≤ o.id

/-- A poll takes a row only when the earlier ones of its key have been published or are its own. -/
def TakesInOrder (props : W → OutboxProperties) (s : State W) (w : W) : Prop :=
  ∀ x ∈ (s.phases w).examined, recheck s x.1 = none ∨ lockedByOther props s w x.1 ∨
    EarlierFirst s x.1 x.2

/-- Rows of one key are committed and taken in id order. -/
def OrderSafe (props : W → OutboxProperties) (s : State W) : Action W → Prop
  | .commitDecide id => CommitsInOrder s id
  | .examine w => TakesInOrder props s w
  | _ => True

omit [DecidableEq W] in
/-- A row becomes visible behind those of its key. -/
theorem KeyInv.commitDecide {s : State W} (hi : Inv s) (h : KeyInv s) {id : ℕ} {r : OutboxRow}
    (hr : s.opened.find? (fun r => r.id == id) = some r)
    (hfirst : ∀ o ∈ s.opened, o.aggregateId = r.aggregateId → r.id ≤ o.id) :
    KeyInv { s with
      opened := s.opened.eraseP (fun r => r.id == id)
      rows := s.rows ++ [r] } := by
  have hopen : r ∈ s.opened := List.mem_of_find?_eq_some hr
  have hrid : r.id = id := by simpa using List.find?_some hr
  -- a committed row of the same key has a smaller id
  have hbehind : ∀ x ∈ s.rows, x.aggregateId = r.aggregateId → x.id < r.id :=
    fun x hx hkey => h.opened x hx r hopen hkey.symm
  have hnotHeld : ∀ w, r.id ∉ (s.phases w).held := by
    intro w hheld
    have hsound : (s.phases w).Sound s := hi.phases w
    obtain ⟨x, hx, hid⟩ := hsound.exists_row hheld
    have hdisj := hi.nodup
    rw [List.map_append] at hdisj
    exact (List.disjoint_of_nodup_append hdisj) (List.mem_map_of_mem hx)
      (hid ▸ List.mem_map_of_mem hopen)
  refine ⟨?_, fun w => ⟨(h.phases w).sorted, fun id hid x hx y hy hyid hkey hlt => ?_⟩, ?_⟩
  · intro x hx o ho hkey
    have ho' : o ∈ s.opened := List.mem_of_mem_eraseP ho
    rcases List.mem_append.1 hx with hx | hx
    · exact h.opened x hx o ho' hkey
    · obtain rfl := List.mem_singleton.1 hx
      refine lt_of_le_of_ne (hfirst o ho' hkey) fun heq => ?_
      -- the erased row is the only one with its id
      have hnd : (s.opened.map OutboxRow.id).Nodup := by
        have := hi.nodup
        rw [List.map_append] at this
        exact this.of_append_right
      have hperm := (Lib.perm_cons_eraseP hr).map OutboxRow.id
      have hcons := hperm.nodup_iff.1 hnd
      rw [List.map_cons, List.nodup_cons] at hcons
      exact hcons.1 (heq ▸ List.mem_map_of_mem ho)
  · rcases List.mem_append.1 hy with hy' | hy'
    · rcases List.mem_append.1 hx with hx' | hx'
      · exact (h.phases w).earlier id hid x hx' y hy' hyid hkey hlt
      · obtain rfl := List.mem_singleton.1 hx'
        have := hbehind y hy' hkey.symm
        omega
    · obtain rfl := List.mem_singleton.1 hy'
      exact absurd (hyid ▸ hid) (hnotHeld w)
  · intro m hm x hx hkey hlt
    rcases List.mem_append.1 hx with hx | hx
    · exact h.earlier m hm x hx hkey hlt
    · obtain rfl := List.mem_singleton.1 hx
      obtain ⟨y, hy, hid, hmkey, -⟩ := hi.noPhantom m hm
      have := hbehind y hy (hmkey.symm.trans hkey.symm)
      omega

/-- A message leaves for the broker when the earlier rows of its key are in the log. -/
theorem KeyInv.send {s : State W} (hi : Inv s) (h : KeyInv s) {w : W} {batch acked : List OutboxRow}
    {r : OutboxRow} (hw : s.phases w = .sending ⟨batch, acked, none⟩)
    (hr : batch[acked.length]? = some r) :
    KeyInv { setPhase s w (.sending ⟨batch, acked, some s.nextSerial⟩) with
      nextSerial := s.nextSerial + 1
      inflight := ⟨s.nextSerial, w, r.id, r.aggregateId, r.payload⟩ :: s.inflight } := by
  have hsound : Poll.Sound s ⟨batch, acked, none⟩ := hi.phase_eq hw
  have hord : (Phase.sending ⟨batch, acked, none⟩).Ordered s := hw ▸ h.phases w
  have hsending : (Phase.sending ⟨batch, acked, some s.nextSerial⟩).Ordered s :=
    hord.congr rfl (List.Sublist.refl _)
  have hmoved := h.moveTo w hsending
  refine ⟨hmoved.opened, fun v => (hmoved.phases v).later (.of_rows_eq rfl fun _ hid => hid), ?_⟩
  intro m hm x hx hkey hlt
  rcases List.mem_cons.1 hm with rfl | hm
  · obtain ⟨y, hy, hyid, hykey, -⟩ := hsound.backed r (List.mem_of_getElem? hr)
    have hheld : r.id ∈ (Phase.sending ⟨batch, acked, none⟩).held :=
      List.mem_map_of_mem (List.mem_of_getElem? hr)
    rcases hord.earlier r.id hheld x hx y hy hyid (hkey.trans hykey.symm) hlt with hlog | hmem
    · exact hlog
    · -- the earlier row is in the batch, hence acknowledged
      have hsorted : (batch.map OutboxRow.id).Pairwise (· < ·) := by
        simpa [Phase.held, Phase.candidates] using hord.sorted
      have htake := mem_take_of_lt hsorted (by rw [List.getElem?_map, hr]; rfl) hmem hlt
      rw [← List.map_take, ← List.prefix_iff_eq_take.1 hsound.isPrefix] at htake
      obtain ⟨a, ha, haid⟩ := List.mem_map.1 htake
      obtain ⟨m', hm', hfor⟩ := hsound.delivered a ha
      exact List.mem_map.2 ⟨m', hm', hfor.1.trans haid⟩
  · exact h.earlier m hm x hx hkey hlt

variable [Fintype W] {props : W → OutboxProperties}

omit [DecidableEq W] [Fintype W] in
instance (s : State W) (id : ℕ) : Decidable (CommitsInOrder s id) :=
  inferInstanceAs (Decidable (∀ r ∈ s.opened.find? (fun r => r.id == id), ∀ o ∈ s.opened,
    o.aggregateId = r.aggregateId → r.id ≤ o.id))

instance (s : State W) (w : W) : Decidable (TakesInOrder props s w) :=
  inferInstanceAs (Decidable (∀ x ∈ (s.phases w).examined,
    recheck s x.1 = none ∨ lockedByOther props s w x.1 ∨ EarlierFirst s x.1 x.2))

theorem KeyInv.step {s t : State W} {a : Action W} (hi : Inv s) (h : KeyInv s)
    (hok : OrderSafe props s a) (hst : step props s a = some t) : KeyInv t := by
  have hord : ∀ {w : W} {phase : Phase}, s.phases w = phase → phase.Ordered s :=
    fun hw => hw ▸ h.phases _
  -- a step that keeps the rows of a poll
  have hsame : ∀ {w : W} {phase phase' : Phase}, s.phases w = phase → phase'.held = phase.held →
      phase'.candidates.Sublist phase.candidates → KeyInv (setPhase s w phase') :=
    fun hw hheld hcand => h.moveTo _ ((hord hw).congr hheld hcand)
  cases steps_of_step hst with
  | insert aggregateId payload =>
      refine ⟨fun x hx o ho hkey => ?_,
        fun w => (h.phases w).later (.of_rows_eq rfl fun _ hid => hid), h.earlier⟩
      rcases List.mem_cons.1 ho with rfl | ho
      · exact hi.bounded x (List.mem_append_left _ hx)
      · exact h.opened x hx o ho hkey
  | @commitDecide id r hr => exact h.commitDecide hi hr (hok r hr)
  | rollbackDecide id =>
      exact ⟨fun x hx o ho hkey => h.opened x hx o (List.mem_of_mem_eraseP ho) hkey,
        fun w => (h.phases w).later (.of_rows_eq rfl fun _ hid => hid), h.earlier⟩
  | @snapshot w hw hskip =>
      refine h.moveTo w ⟨?_, by simp [Phase.held]⟩
      simpa [Phase.held, Phase.candidates] using hi.sorted_unpublished
  | @read w hw hskip =>
      have hsorted := hi.sorted_unpublished
      refine h.moveTo w ⟨?_, fun id hid x hx y hy hyid hkey hlt => ?_⟩
      · simpa [Phase.held, Phase.candidates, List.map_take] using
          hsorted.sublist (List.take_sublist (props w).batchSize _)
      · -- an earlier row that is not in the batch is not unpublished any more
        cases hpub : x.published with
        | true =>
            obtain ⟨m, hm, hfor⟩ := hi.delivered x hx hpub
            exact .inl (List.mem_map.2 ⟨m, hm, hfor.1⟩)
        | false =>
            right
            simp only [Phase.held, List.map_take] at hid ⊢
            obtain ⟨k, hk, hkid⟩ := List.mem_iff_getElem.1 hid
            have hget : ((unpublished s).map OutboxRow.id)[k]? = some id := by
              rw [← hkid, List.getElem_take]
              exact List.getElem?_eq_getElem _
            have hmem : x.id ∈ (unpublished s).map OutboxRow.id :=
              List.mem_map_of_mem (mem_unpublished.2 ⟨hx, hpub⟩)
            have htake := mem_take_of_lt hsorted hget hmem hlt
            refine List.take_subset_take_left _ ?_ htake
            rw [List.length_take] at hk
            omega
  | pass hw hgone =>
      refine hsame hw rfl ?_
      exact List.sublist_cons_self _ _
  | @pick w id candidates picked r hw hr hfree =>
      obtain ⟨hmem, hid, -⟩ := mem_rows_of_recheck hr
      have hold := hord hw
      have hearlier : EarlierFirst s id (picked.map OutboxRow.id) := by
        have hexamined : (id, picked.map OutboxRow.id) ∈ (s.phases w).examined := by
          rw [hw]
          rfl
        rcases hok _ hexamined with hnone | hlocked | hearlier
        · rw [hr] at hnone
          cases hnone
        · exact absurd hlocked hfree
        · exact hearlier
      refine h.moveTo w ⟨?_, fun id' hid' => ?_⟩
      · simpa [Phase.held, Phase.candidates, hid] using hold.sorted
      · simp only [Phase.held, List.map_append, List.map_cons, List.map_nil, List.mem_append,
          List.mem_singleton, hid] at hid' ⊢
        intro x hx y hy hyid hkey hlt
        rcases hid' with hid' | rfl
        · exact (hold.earlier id' hid' x hx y hy hyid hkey hlt).imp_right
            (List.mem_append_left _)
        · exact (hearlier x hx y hy hyid hkey hlt).imp_right (List.mem_append_left _)
  | selected hw =>
      refine hsame hw rfl ?_
      exact List.nil_sublist _
  | send hw hr => exact h.send hi hw hr
  | @store serial m hm =>
      have hperm := Lib.perm_cons_eraseP hm
      have hext : Extends s { s with
          inflight := s.inflight.eraseP (fun m => m.serial == serial)
          log := s.log ++ [m] } := by
        refine .of_rows_eq rfl fun id hid => ?_
        show id ∈ (s.log ++ [m]).map Message.rowId
        rw [List.map_append]
        exact List.mem_append_left _ hid
      refine ⟨h.opened, fun w => (h.phases w).later hext, fun m' hm' x hx hkey hlt => ?_⟩
      refine hext.log _ (h.earlier m' ?_ x hx hkey hlt)
      have hin := hperm.mem_iff (a := m')
      simp only [messages, List.mem_append, List.mem_cons, List.not_mem_nil,
        or_false] at hm' hin ⊢
      tauto
  | lose serial =>
      refine ⟨h.opened, fun w => (h.phases w).later (.of_rows_eq rfl fun _ hid => hid),
        fun m hm => h.earlier m ?_⟩
      exact List.mem_append.2 ((List.mem_append.1 hm).imp_left List.mem_of_mem_eraseP)
  | ack hw hm hserial hr => exact hsame hw rfl (List.Sublist.refl _)
  | fail hw => exact hsame hw rfl (List.Sublist.refl _)
  | loopEnd hw hend => exact hsame hw rfl (List.Sublist.refl _)
  | returnEmpty hw hempty => exact h.moveTo _ (.idle s)
  | skipUpdate hdraw hrate => exact h.moveTo _ (.idle s)
  | update draw hw => exact hsame hw rfl (List.Sublist.refl _)
  | @commit w p hw =>
      have hmoved := h.moveTo w (.idle s)
      have hext : Extends (setPhase s w .idle)
          { setPhase s w .idle with rows := markRows s.rows p.acked } := by
        refine ⟨fun x hx => ?_, fun _ hid => hid⟩
        obtain ⟨x', hx', hid, hkey, -⟩ := mem_markRows hx
        exact ⟨x', hx', hid.symm, hkey.symm⟩
      refine ⟨fun x hx o ho hkey => ?_, fun v => (hmoved.phases v).later hext,
        fun m hm x hx hkey hlt => ?_⟩
      · obtain ⟨x', hx', hid, hxkey⟩ := hext.rows x hx
        rw [← hid]
        exact hmoved.opened x' hx' o ho (hkey.trans hxkey.symm)
      · obtain ⟨x', hx', hid, hxkey⟩ := hext.rows x hx
        rw [← hid] at hlt ⊢
        exact hmoved.earlier m hm x' hx' (hxkey.trans hkey) hlt
  | rollback w => exact h.moveTo w (.idle s)

/-- A safe step keeps the publications of each key in order. -/
theorem keyOrdered_step {s t : State W} {a : Action W} (hi : Inv s) (h : KeyInv s)
    (ho : KeyOrdered s) (hst : step props s a = some t) : KeyOrdered t := by
  cases steps_of_step hst with
  | @store serial m hm =>
      intro key
      show (firstPublications key (s.log ++ [m])).Pairwise _
      rw [firstPublications_concat]
      split_ifs with hnew
      · refine List.pairwise_append.2 ⟨ho key, List.pairwise_singleton _ _, ?_⟩
        intro id hid id' hid'
        obtain rfl := List.mem_singleton.1 hid'
        obtain ⟨m', hm', hkey', rfl⟩ := mem_firstPublications.1 hid
        by_contra hlt
        -- the new row is the earlier one, so it was published before
        have hne : m'.rowId ≠ m.rowId := by
          intro heq
          exact hnew.2 (heq ▸ hid)
        obtain ⟨x, hx, hxid, hxkey, -⟩ :=
          hi.noPhantom m (List.mem_append_left _ (List.mem_of_find?_eq_some hm))
        have hlog := h.earlier m' (List.mem_append_right _ hm') x hx
          ((hxkey.symm.trans hnew.1).trans hkey'.symm) (by omega)
        obtain ⟨m'', hm'', hid''⟩ := List.mem_map.1 hlog
        refine hnew.2 (mem_firstPublications.2 ⟨m'', hm'', ?_, hid''.trans hxid.symm⟩)
        obtain ⟨y, hy, hyid, hykey, -⟩ := hi.noPhantom m'' (List.mem_append_right _ hm'')
        obtain rfl : y = x := hi.eq_of_id_eq hy hx (hyid.symm.trans hid'')
        exact hykey.trans (hxkey.symm.trans hnew.1)
      · exact ho key
  | _ => exact ho

/-- In every state of a run whose steps are safe for the order, the first publications of each key
are in the order of the row ids. -/
theorem keyOrdered_of_orderSafe (props : W → OutboxProperties) (s : State W)
    (hs : (outbox W props).Reaches (OrderSafe props) s) : KeyOrdered s := by
  have hinv : ∀ {s : State W}, (outbox W props).Reaches (OrderSafe props) s → Inv s ∧ KeyInv s := by
    intro s hs
    refine ⟨hs.reachable.invariant .start fun _ _ _ hi hst => hi.step hst, ?_⟩
    refine hs.invariant .start fun s a t hs' hk hok hst => ?_
    have hi : Inv s := hs'.reachable.invariant .start fun _ _ _ hi hst => hi.step hst
    exact hk.step hi hok hst
  refine hs.invariant (fun _ => List.Pairwise.nil) fun s a t hs' ho _ hst => ?_
  exact keyOrdered_step (hinv hs').1 (hinv hs').2 ho hst

/-- The second of two requests with one `ad_request_id` commits behind the first and is published
behind it. -/
theorem keyOrdered_of_orderSafe_twice :
    ∃ s : State Unit, firstPublications "r" s.log = [1, 2] ∧ KeyOrdered s := by
  have h0 : (outbox Unit fun _ => ⟨500, 0, true⟩).Reaches (OrderSafe fun _ => ⟨500, 0, true⟩)
      start := .init
  have h1 := h0.take (.insert "r" "p1") trivial rfl
  have h2 := h1.take (.insert "r" "p2") trivial rfl
  have h3 := h2.take (.commitDecide 1) (show CommitsInOrder _ _ by decide) rfl
  have h4 := h3.take (.commitDecide 2) (show CommitsInOrder _ _ by decide) rfl
  have h5 := h4.take (.select ()) trivial rfl
  have h6 := h5.take (.examine ()) (show TakesInOrder _ _ _ by decide) rfl
  have h7 := h6.take (.examine ()) (show TakesInOrder _ _ _ by decide) rfl
  have h8 := h7.take (.selected ()) trivial rfl
  have h9 := h8.take (.send ()) trivial rfl
  have h10 := h9.take (.store 0) trivial rfl
  have h11 := h10.take (.ack ()) trivial rfl
  have h12 := h11.take (.send ()) trivial rfl
  have h13 := h12.take (.store 1) trivial rfl
  exact ⟨_, rfl, keyOrdered_of_orderSafe _ _ h13⟩

/-- A retried request whose transaction commits first is published first. -/
theorem later_row_published_first :
    ¬ ∀ s : State Unit, (outbox Unit fun _ => ⟨500, 0, true⟩).Reachable s → KeyOrdered s := by
  intro h
  have hreach := Lib.System.reachable_of_run
    (show (outbox Unit fun _ => ⟨500, 0, true⟩).run _
    [.insert "r" "p1", .insert "r" "p2", .commitDecide 2, .select (), .examine (), .selected (),
      .send (), .store 0, .ack (), .loopEnd (), .update () 0, .commit (), .commitDecide 1,
      .select (), .examine (), .selected (), .send (), .store 1] = some _ from rfl)
  have hordered := h _ hreach "r"
  revert hordered
  decide

/-! ## One row for each key -/

/-- A request comes with an `ad_request_id` that no row has. -/
def FreshKey (s : State W) : Action W → Prop
  | .insert aggregateId _ => ∀ x ∈ s.rows ++ s.opened, x.aggregateId ≠ aggregateId
  | _ => True

/-- Rows of one key are versions of one row. -/
def OneRowPerKey (s : State W) : Prop :=
  ∀ x ∈ s.rows ++ s.opened, ∀ y ∈ s.rows ++ s.opened, x.aggregateId = y.aggregateId → x.id = y.id

omit [DecidableEq W] [Fintype W] in
/-- Rows that come from rows before share keys as those did. -/
theorem OneRowPerKey.of_rows {s t : State W} (h : OneRowPerKey s)
    (hrows : ∀ x ∈ t.rows ++ t.opened, ∃ x' ∈ s.rows ++ s.opened,
      x'.id = x.id ∧ x'.aggregateId = x.aggregateId) : OneRowPerKey t := by
  intro x hx y hy hkey
  obtain ⟨x', hx', hxid, hxkey⟩ := hrows x hx
  obtain ⟨y', hy', hyid, hykey⟩ := hrows y hy
  rw [← hxid, ← hyid]
  exact h x' hx' y' hy' ((hxkey.trans hkey).trans hykey.symm)

theorem OneRowPerKey.step {s t : State W} {a : Action W} (h : OneRowPerKey s)
    (hok : FreshKey s a) (hst : step props s a = some t) : OneRowPerKey t := by
  have hsame : ∀ {x : OutboxRow}, x ∈ s.rows ++ s.opened →
      ∃ x' ∈ s.rows ++ s.opened, x'.id = x.id ∧ x'.aggregateId = x.aggregateId :=
    fun hx => ⟨_, hx, rfl, rfl⟩
  cases steps_of_step hst with
  | insert aggregateId payload =>
      intro x hx y hy hkey
      have hnew : ∀ {z : OutboxRow},
          z ∈ s.rows ++ (⟨s.nextId, aggregateId, payload, false⟩ :: s.opened) →
            z = ⟨s.nextId, aggregateId, payload, false⟩ ∨ z ∈ s.rows ++ s.opened :=
        fun hz => List.mem_cons.1 (List.perm_middle.mem_iff.1 hz)
      rcases hnew hx with rfl | hx <;> rcases hnew hy with rfl | hy
      · rfl
      · exact absurd hkey.symm (hok y hy)
      · exact absurd hkey (hok x hx)
      · exact h x hx y hy hkey
  | @commitDecide id r hr =>
      refine h.of_rows fun x hx => hsame ?_
      rcases List.mem_append.1 hx with hx | hx
      · rcases List.mem_append.1 hx with hx | hx
        · exact List.mem_append_left _ hx
        · obtain rfl := List.mem_singleton.1 hx
          exact List.mem_append_right _ (List.mem_of_find?_eq_some hr)
      · exact List.mem_append_right _ (List.mem_of_mem_eraseP hx)
  | rollbackDecide id =>
      refine h.of_rows fun x hx => hsame ?_
      exact List.mem_append.2 ((List.mem_append.1 hx).imp_right List.mem_of_mem_eraseP)
  | @commit w p hw =>
      refine h.of_rows fun x hx => ?_
      rcases List.mem_append.1 hx with hx | hx
      · obtain ⟨x', hx', hid, hkey, -⟩ := mem_markRows hx
        exact ⟨x', List.mem_append_left _ hx', hid.symm, hkey.symm⟩
      · exact hsame (List.mem_append_right _ hx)
  | _ => exact h

omit [DecidableEq W] [Fintype W] in
/-- With one row for each key there is no order to break. -/
theorem OneRowPerKey.orderSafe {s : State W} (h : OneRowPerKey s) (a : Action W) :
    OrderSafe props s a := by
  cases a with
  | commitDecide id =>
      intro r hr o ho hkey
      exact le_of_eq (h r (List.mem_append_right _ (List.mem_of_find?_eq_some hr)) o
        (List.mem_append_right _ ho) hkey.symm)
  | examine w =>
      refine fun x _ => .inr (.inr fun y hy z hz hid hkey hlt => ?_)
      have := h y (List.mem_append_left _ hy) z (List.mem_append_left _ hz) hkey
      omega
  | _ => trivial

/-- Requests that never use an `ad_request_id` again keep every run safe for the order. -/
theorem orderSafe_of_freshKey (props : W → OutboxProperties) {s : State W}
    (hs : (outbox W props).Reaches FreshKey s) : (outbox W props).Reaches (OrderSafe props) s := by
  have hone : ∀ {s : State W}, (outbox W props).Reaches FreshKey s → OneRowPerKey s := by
    intro s hs
    refine hs.invariant ?_ fun s a t _ h hok hst => OneRowPerKey.step h hok hst
    intro x hx
    cases hx
  refine hs.invariant (I := fun s => (outbox W props).Reaches (OrderSafe props) s) .init ?_
  exact fun s a t hs' h _ hst => h.take a ((hone hs').orderSafe a) hst

end AdPipeline.Outbox
