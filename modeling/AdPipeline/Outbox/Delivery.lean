import AdPipeline.Outbox.OutboxWorker

/-!
# At-least-once delivery of the outbox

Whatever the interleaving, and whatever fails, a row marked as published is in Kafka, a message in
Kafka comes from a committed row, and a poll marks either nothing or the rows acknowledged to it.
The invariant ties the batch of every poll to the table and to the broker.
-/

namespace AdPipeline.Outbox

variable {W : Type}

/-- The messages on their way to the log or in it. -/
def messages (s : State W) : List (Message W) := s.inflight ++ s.log

/-- The message is for the row. -/
def Message.For (m : Message W) (r : OutboxRow) : Prop :=
  m.rowId = r.id ∧ m.key = r.aggregateId ∧ m.value = r.payload

/-- The row is a version of a committed row. -/
def Backed (s : State W) (r : OutboxRow) : Prop :=
  ∃ r' ∈ s.rows, r'.id = r.id ∧ r'.aggregateId = r.aggregateId ∧ r'.payload = r.payload

/-- The log has a message for the row. -/
def Delivered (s : State W) (r : OutboxRow) : Prop := ∃ m ∈ s.log, m.For r

/-- What holds of a poll: its batch is of committed rows, and those acknowledged are a delivered
prefix. A send waited for is the send of the next row. -/
structure Poll.Sound (s : State W) (p : Poll) : Prop where
  backed : ∀ r ∈ p.batch, Backed s r
  isPrefix : p.acked <+: p.batch
  delivered : ∀ r ∈ p.acked, Delivered s r
  issued : ∀ serial, p.issued = some serial → serial < s.nextSerial ∧
    ∀ r, p.nextRow = some r → ∀ m ∈ messages s, m.serial = serial → m.For r

/-- What holds of the transaction of a worker. -/
def Phase.Sound (s : State W) : Phase → Prop
  | .idle => True
  | .selecting _ picked => ∀ r ∈ picked, Backed s r
  | .sending p => p.Sound s
  | .stopped p => p.Sound s
  | .updated p => p.Sound s

/-- What holds of every state of the outbox. -/
structure Inv (s : State W) : Prop where
  nodup : ((s.rows ++ s.opened).map OutboxRow.id).Nodup
  bounded : ∀ r ∈ s.rows ++ s.opened, r.id < s.nextId
  fresh : ∀ r ∈ s.opened, r.published = false
  serials : ∀ m ∈ messages s, m.serial < s.nextSerial
  noPhantom : ∀ m ∈ messages s, ∃ r ∈ s.rows, m.For r
  delivered : ∀ r ∈ s.rows, r.published = true → Delivered s r
  phases : ∀ w, (s.phases w).Sound s

/-! ## What steps leave in place -/

/-- One state is a later one of the other, as far as a poll can tell. -/
structure Later (s t : State W) : Prop where
  backed : ∀ r, Backed s r → Backed t r
  delivered : ∀ r, Delivered s r → Delivered t r
  messages : ∀ m ∈ messages t, m.serial < s.nextSerial → m ∈ messages s
  serials : s.nextSerial ≤ t.nextSerial

theorem Poll.Sound.later {s t : State W} {p : Poll} (h : p.Sound s) (hst : Later s t) :
    p.Sound t where
  backed r hr := hst.backed r (h.backed r hr)
  isPrefix := h.isPrefix
  delivered r hr := hst.delivered r (h.delivered r hr)
  issued serial hs := by
    obtain ⟨hlt, hfor⟩ := h.issued serial hs
    refine ⟨lt_of_lt_of_le hlt hst.serials, fun r hr m hm hserial => ?_⟩
    exact hfor r hr m (hst.messages m hm (hserial ▸ hlt)) hserial

theorem Phase.Sound.later {s t : State W} {phase : Phase} (h : phase.Sound s) (hst : Later s t) :
    phase.Sound t := by
  cases phase with
  | idle => trivial
  | selecting candidates picked => exact fun r hr => hst.backed r (h r hr)
  | sending p => exact Poll.Sound.later h hst
  | stopped p => exact Poll.Sound.later h hst
  | updated p => exact Poll.Sound.later h hst

/-- What a worker's transaction has done so far is sound. -/
theorem Inv.phase_eq {s : State W} (h : Inv s) {w : W} {phase : Phase} (hw : s.phases w = phase) :
    phase.Sound s :=
  hw ▸ h.phases w

theorem Inv.backed_of_mem {s : State W} {r : OutboxRow} (h : r ∈ s.rows) : Backed s r :=
  ⟨r, h, rfl, rfl, rfl⟩

/-- Committed rows are told apart by their ids. -/
theorem Inv.eq_of_id_eq {s : State W} (h : Inv s) {r r' : OutboxRow} (hr : r ∈ s.rows)
    (hr' : r' ∈ s.rows) (hid : r.id = r'.id) : r = r' := by
  have hnd : (s.rows.map OutboxRow.id).Nodup := by
    have := h.nodup
    rw [List.map_append] at this
    exact this.of_append_left
  exact List.inj_on_of_nodup_map hnd hr hr' hid

theorem mem_unpublished {s : State W} {r : OutboxRow} :
    r ∈ unpublished s ↔ r ∈ s.rows ∧ r.published = false := by
  unfold unpublished
  rw [(List.perm_insertionSort _ _).mem_iff, List.mem_filter]
  simp

theorem mem_rows_of_recheck {s : State W} {id : ℕ} {r : OutboxRow} (h : recheck s id = some r) :
    r ∈ s.rows ∧ r.id = id ∧ r.published = false := by
  refine ⟨List.mem_of_find?_eq_some h, ?_⟩
  simpa using List.find?_some h

/-- An unpublished row is found again by its id. -/
theorem recheck_of_mem {s : State W} (h : Inv s) {r : OutboxRow} (hr : r ∈ s.rows)
    (hpub : r.published = false) : recheck s r.id = some r := by
  obtain ⟨r', hr'⟩ : ∃ r', recheck s r.id = some r' := by
    rw [← Option.isSome_iff_exists, recheck, List.find?_isSome]
    exact ⟨r, hr, by simp [hpub]⟩
  obtain ⟨hmem, hid, -⟩ := mem_rows_of_recheck hr'
  rw [hr', h.eq_of_id_eq hmem hr hid]

theorem Inv.start : Inv (start : State W) where
  nodup := List.nodup_nil
  bounded := by simp [Outbox.start]
  fresh := by simp [Outbox.start]
  serials := by simp [Outbox.start, messages]
  noPhantom := by simp [Outbox.start, messages]
  delivered := by simp [Outbox.start]
  phases _ := trivial

/-- A poll starts with rows of the table and nothing acknowledged. -/
theorem Poll.Sound.begin {s : State W} {batch : List OutboxRow} (h : ∀ r ∈ batch, Backed s r) :
    Poll.Sound s ⟨batch, [], none⟩ :=
  ⟨h, List.nil_prefix, by simp, by simp⟩

/-- A poll that waits for nothing. -/
theorem Poll.Sound.settle {s : State W} {p : Poll} (h : p.Sound s) :
    Poll.Sound s ⟨p.batch, p.acked, none⟩ :=
  ⟨h.backed, h.isPrefix, h.delivered, by simp⟩

/-- The acknowledged rows and the next one are again a prefix of the batch. -/
theorem Poll.Sound.concat_prefix {s : State W} {p : Poll} (h : p.Sound s) {r : OutboxRow}
    (hr : p.nextRow = some r) : p.acked ++ [r] <+: p.batch := by
  obtain ⟨rest, hrest⟩ := h.isPrefix
  have hnext : (p.acked ++ rest)[p.acked.length]? = some r := by
    rw [hrest]
    exact hr
  rw [List.getElem?_append_right (le_refl _), Nat.sub_self] at hnext
  obtain ⟨rest', rfl⟩ : ∃ rest', rest = r :: rest' := by
    cases rest with
    | nil => simp at hnext
    | cons x rest =>
        obtain rfl : x = r := by simpa using hnext
        exact ⟨rest, rfl⟩
  exact ⟨rest', by rw [List.append_assoc]; exact hrest⟩

/-- An acknowledged send has delivered the next row. -/
theorem Poll.Sound.ack {s : State W} {p : Poll} (h : p.Sound s) {serial : ℕ}
    (hissued : p.issued = some serial) {m : Message W} (hm : m ∈ s.log)
    (hserial : m.serial = serial) {r : OutboxRow} (hr : p.nextRow = some r) :
    Poll.Sound s ⟨p.batch, p.acked ++ [r], none⟩ where
  backed := h.backed
  isPrefix := h.concat_prefix hr
  delivered := by
    intro x hx
    rcases List.mem_append.1 hx with hx | hx
    · exact h.delivered x hx
    · obtain rfl := List.mem_singleton.1 hx
      exact ⟨m, hm, (h.issued serial hissued).2 x hr m (List.mem_append_right _ hm) hserial⟩
  issued := by simp

/-! ## The invariant of the outbox -/

variable [DecidableEq W]

theorem Later.moveTo (s : State W) (w : W) (phase : Phase) : Later s (setPhase s w phase) :=
  ⟨fun _ h => h, fun _ h => h, fun _ h _ => h, le_refl _⟩

/-- A worker moves on to a phase that is sound. -/
theorem Inv.moveTo {s : State W} (h : Inv s) (w : W) {phase : Phase} (hp : phase.Sound s) :
    Inv (setPhase s w phase) where
  nodup := h.nodup
  bounded := h.bounded
  fresh := h.fresh
  serials := h.serials
  noPhantom := h.noPhantom
  delivered := h.delivered
  phases := by
    intro v
    have hlater := Later.moveTo s w phase
    by_cases hv : v = w
    · subst hv
      show ((Function.update s.phases v phase) v).Sound _
      rw [Function.update_self]
      exact hp.later hlater
    · show ((Function.update s.phases w phase) v).Sound _
      rw [Function.update_of_ne hv]
      exact (h.phases v).later hlater

/-- A message leaves for the broker. -/
theorem Inv.send {s : State W} (h : Inv s) {w : W} {p : Poll} {r : OutboxRow}
    (hphase : s.phases w = .sending p) (hr : p.nextRow = some r) :
    Inv { setPhase s w (.sending ⟨p.batch, p.acked, some s.nextSerial⟩) with
      nextSerial := s.nextSerial + 1
      inflight := ⟨s.nextSerial, w, r.id, r.aggregateId, r.payload⟩ :: s.inflight } := by
  have hp : p.Sound s := by
    have := h.phases w
    rwa [hphase] at this
  set t : State W := { setPhase s w (.sending ⟨p.batch, p.acked, some s.nextSerial⟩) with
    nextSerial := s.nextSerial + 1
    inflight := ⟨s.nextSerial, w, r.id, r.aggregateId, r.payload⟩ :: s.inflight } with ht
  have hmsg : ∀ m, m ∈ messages t ↔
      m = ⟨s.nextSerial, w, r.id, r.aggregateId, r.payload⟩ ∨ m ∈ messages s := by
    intro m
    simp only [ht, messages, List.cons_append, List.mem_cons]
    rfl
  have hlater : Later s t := by
    refine ⟨fun _ hb => hb, fun _ hd => hd, fun m hm hlt => ?_, Nat.le_succ _⟩
    rcases (hmsg m).1 hm with rfl | hm
    · exact absurd hlt (lt_irrefl _)
    · exact hm
  have hback : Backed s r := hp.backed r (List.mem_of_getElem? hr)
  refine ⟨h.nodup, h.bounded, h.fresh, ?_, ?_, h.delivered, ?_⟩
  · intro m hm
    rcases (hmsg m).1 hm with rfl | hm
    · exact Nat.lt_succ_self _
    · exact Nat.lt_succ_of_lt (h.serials m hm)
  · intro m hm
    rcases (hmsg m).1 hm with rfl | hm
    · obtain ⟨r', hr', hid, hkey, hvalue⟩ := hback
      exact ⟨r', hr', hid.symm, hkey.symm, hvalue.symm⟩
    · exact h.noPhantom m hm
  · intro v
    by_cases hv : v = w
    · subst hv
      show ((Function.update s.phases v _) v).Sound t
      rw [Function.update_self]
      have hp' := hp.later hlater
      refine ⟨hp'.backed, hp'.isPrefix, hp'.delivered, ?_⟩
      intro serial hserial
      obtain rfl : s.nextSerial = serial := by simpa using hserial
      refine ⟨Nat.lt_succ_self _, fun x hx m hm hm' => ?_⟩
      obtain rfl : r = x := Option.some.inj (hr.symm.trans hx)
      rcases (hmsg m).1 hm with rfl | hm
      · exact ⟨rfl, rfl, rfl⟩
      · exact absurd (h.serials m hm) (by omega)
    · show ((Function.update s.phases w _) v).Sound t
      rw [Function.update_of_ne hv]
      exact (h.phases v).later hlater

omit [DecidableEq W] in
/-- A message reaches the log or is lost. -/
theorem Inv.broker {s : State W} (h : Inv s) {inflight log : List (Message W)}
    (hmsg : ∀ m ∈ inflight ++ log, m ∈ messages s) (hlog : ∀ m ∈ s.log, m ∈ log) :
    Inv { s with inflight := inflight, log := log } := by
  have hdelivered : ∀ r, Delivered s r →
      Delivered { s with inflight := inflight, log := log } r := by
    rintro r ⟨m, hm, hfor⟩
    exact ⟨m, hlog m hm, hfor⟩
  have hlater : Later s { s with inflight := inflight, log := log } :=
    ⟨fun _ hb => hb, hdelivered, fun m hm _ => hmsg m hm, le_refl _⟩
  exact
    { nodup := h.nodup
      bounded := h.bounded
      fresh := h.fresh
      serials := fun m hm => h.serials m (hmsg m hm)
      noPhantom := fun m hm => h.noPhantom m (hmsg m hm)
      delivered := fun r hr hpub => hdelivered r (h.delivered r hr hpub)
      phases := fun w => (h.phases w).later hlater }

omit [DecidableEq W] in
/-- A decide transaction inserts a row, or ends with its row or without it. -/
theorem Inv.decide {s : State W} (h : Inv s) {nextId : ℕ} {opened rows : List OutboxRow}
    (hnodup : ((rows ++ opened).map OutboxRow.id).Nodup)
    (hbounded : ∀ r ∈ rows ++ opened, r.id < nextId)
    (hfresh : ∀ r ∈ opened, r.published = false) (hrows : ∀ r ∈ s.rows, r ∈ rows)
    (hnew : ∀ r ∈ rows, r ∈ s.rows ∨ r ∈ s.opened) :
    Inv { s with nextId := nextId, opened := opened, rows := rows } := by
  have hbacked : ∀ r, Backed s r →
      Backed { s with nextId := nextId, opened := opened, rows := rows } r := by
    rintro r ⟨r', hr', hver⟩
    exact ⟨r', hrows r' hr', hver⟩
  have hlater : Later s { s with nextId := nextId, opened := opened, rows := rows } :=
    ⟨hbacked, fun _ hd => hd, fun _ hm _ => hm, le_refl _⟩
  refine ⟨hnodup, hbounded, hfresh, h.serials, ?_, ?_, fun w => (h.phases w).later hlater⟩
  · intro m hm
    obtain ⟨r, hr, hfor⟩ := h.noPhantom m hm
    exact ⟨r, hrows r hr, hfor⟩
  · intro r hr hpub
    rcases hnew r hr with hold | hopen
    · exact h.delivered r hold hpub
    · rw [h.fresh r hopen] at hpub
      cases hpub

theorem mem_markRows {rows acked : List OutboxRow} {r : OutboxRow} (h : r ∈ markRows rows acked) :
    ∃ r' ∈ rows, r.id = r'.id ∧ r.aggregateId = r'.aggregateId ∧ r.payload = r'.payload ∧
      (r.published = true → r'.published = true ∨ r'.id ∈ acked.map OutboxRow.id) := by
  obtain ⟨r', hr', rfl⟩ := List.mem_map.1 h
  refine ⟨r', hr', ?_⟩
  split_ifs with hacked
  · exact ⟨rfl, rfl, rfl, fun _ => .inr hacked⟩
  · exact ⟨rfl, rfl, rfl, .inl⟩

theorem exists_mem_markRows {rows : List OutboxRow} (acked : List OutboxRow) {r : OutboxRow}
    (h : r ∈ rows) : ∃ r' ∈ markRows rows acked,
      r'.id = r.id ∧ r'.aggregateId = r.aggregateId ∧ r'.payload = r.payload := by
  refine ⟨_, List.mem_map_of_mem h, ?_⟩
  split_ifs <;> exact ⟨rfl, rfl, rfl⟩

theorem ids_markRows (rows acked : List OutboxRow) :
    (markRows rows acked).map OutboxRow.id = rows.map OutboxRow.id := by
  rw [markRows, List.map_map]
  refine List.map_congr_left fun r _ => ?_
  show OutboxRow.id (if _ then _ else _) = _
  split_ifs <;> rfl

/-- Marking the acknowledged rows of a poll keeps the flag truthful. -/
theorem Inv.commit {s : State W} (h : Inv s) {w : W} {p : Poll} (hp : p.Sound s) :
    Inv { setPhase s w .idle with rows := markRows s.rows p.acked } := by
  set t : State W := { setPhase s w .idle with rows := markRows s.rows p.acked } with ht
  have hbacked : ∀ r, Backed s r → Backed t r := by
    rintro r ⟨r', hr', hid, hkey, hvalue⟩
    obtain ⟨r'', hr'', hid', hkey', hvalue'⟩ := exists_mem_markRows p.acked hr'
    exact ⟨r'', hr'', hid'.trans hid, hkey'.trans hkey, hvalue'.trans hvalue⟩
  have hlater : Later s t := ⟨hbacked, fun _ hd => hd, fun _ hm _ => hm, le_refl _⟩
  have hids : (t.rows ++ t.opened).map OutboxRow.id = (s.rows ++ s.opened).map OutboxRow.id := by
    rw [List.map_append, List.map_append, ht]
    simp only [ids_markRows]
    rfl
  refine ⟨hids ▸ h.nodup, ?_, h.fresh, h.serials, ?_, ?_, ?_⟩
  · intro r hr
    have hid : r.id ∈ (s.rows ++ s.opened).map OutboxRow.id := hids ▸ List.mem_map_of_mem hr
    obtain ⟨r', hr', heq⟩ := List.mem_map.1 hid
    exact heq ▸ h.bounded r' hr'
  · intro m hm
    obtain ⟨r, hr, hid, hkey, hvalue⟩ := h.noPhantom m hm
    obtain ⟨r', hr', hid', hkey', hvalue'⟩ := exists_mem_markRows p.acked hr
    exact ⟨r', hr', hid.trans hid'.symm, hkey.trans hkey'.symm, hvalue.trans hvalue'.symm⟩
  · intro r hr hpub
    obtain ⟨r', hr', hid, hkey, hvalue, hmarked⟩ := mem_markRows hr
    have hdelivered : Delivered s r' := by
      rcases hmarked hpub with hold | hacked
      · exact h.delivered r' hr' hold
      · -- the row acknowledged is a version of this one
        obtain ⟨a, ha, haid⟩ := List.mem_map.1 hacked
        obtain ⟨b, hb, hbid, hbkey, hbvalue⟩ := hp.backed a (hp.isPrefix.subset ha)
        obtain rfl : b = r' := h.eq_of_id_eq hb hr' (hbid.trans haid)
        obtain ⟨m, hm, hmid, hmkey, hmvalue⟩ := hp.delivered a ha
        exact ⟨m, hm, hmid.trans hbid.symm, hmkey.trans hbkey.symm, hmvalue.trans hbvalue.symm⟩
    obtain ⟨m, hm, hmid, hmkey, hmvalue⟩ := hdelivered
    exact ⟨m, hm, hmid.trans hid.symm, hmkey.trans hkey.symm, hmvalue.trans hvalue.symm⟩
  · intro v
    by_cases hv : v = w
    · subst hv
      show ((Function.update s.phases v .idle) v).Sound t
      rw [Function.update_self]
      trivial
    · show ((Function.update s.phases w .idle) v).Sound t
      rw [Function.update_of_ne hv]
      exact (h.phases v).later hlater

variable [Fintype W] {props : W → OutboxProperties}

theorem Inv.step {s t : State W} {a : Action W} (h : Inv s) (hst : step props s a = some t) :
    Inv t := by
  cases steps_of_step hst with
  | insert aggregateId payload =>
      refine h.decide ?_ ?_ ?_ (fun _ hr => hr) fun _ hr => .inl hr
      · rw [List.map_append, List.map_cons, List.nodup_middle, ← List.map_append]
        refine List.nodup_cons.2 ⟨fun hmem => ?_, h.nodup⟩
        obtain ⟨r, hr, hid⟩ := List.mem_map.1 hmem
        have := h.bounded r hr
        simp only at hid
        omega
      · intro r hr
        rcases List.mem_append.1 hr with hr | hr
        · exact Nat.lt_succ_of_lt (h.bounded r (List.mem_append_left _ hr))
        · rcases List.mem_cons.1 hr with rfl | hr
          · exact Nat.lt_succ_self _
          · exact Nat.lt_succ_of_lt (h.bounded r (List.mem_append_right _ hr))
      · intro r hr
        rcases List.mem_cons.1 hr with rfl | hr
        · rfl
        · exact h.fresh r hr
  | @commitDecide id r hr =>
      have hperm := Lib.perm_cons_eraseP hr
      have hall : (s.rows ++ [r] ++ s.opened.eraseP fun r => r.id == id).Perm
          (s.rows ++ s.opened) := by
        rw [List.append_assoc]
        exact hperm.symm.append_left _
      refine h.decide ?_ ?_ ?_ (fun _ hx => List.mem_append_left _ hx) ?_
      · exact (hall.map OutboxRow.id).nodup_iff.2 h.nodup
      · exact fun x hx => h.bounded x (hall.mem_iff.1 hx)
      · exact fun x hx => h.fresh x (List.mem_of_mem_eraseP hx)
      · intro x hx
        refine (List.mem_append.1 hx).imp_right fun hx => ?_
        obtain rfl := List.mem_singleton.1 hx
        exact List.mem_of_find?_eq_some hr
  | rollbackDecide id =>
      have hsub : (s.rows ++ s.opened.eraseP fun r => r.id == id).Sublist (s.rows ++ s.opened) :=
        List.eraseP_sublist.append_left _
      refine h.decide ?_ ?_ ?_ (fun _ hx => hx) fun _ hx => .inl hx
      · exact h.nodup.sublist (hsub.map OutboxRow.id)
      · exact fun x hx => h.bounded x (hsub.subset hx)
      · exact fun x hx => h.fresh x (List.mem_of_mem_eraseP hx)
  | snapshot hw hskip => exact h.moveTo _ (by simp [Phase.Sound])
  | read hw hskip =>
      refine h.moveTo _ (Poll.Sound.begin fun r hr => ?_)
      exact Inv.backed_of_mem (mem_unpublished.1 (List.mem_of_mem_take hr)).1
  | @pass w id candidates picked hw hgone =>
      have hpicked : ∀ r ∈ picked, Backed s r := h.phase_eq hw
      exact h.moveTo w hpicked
  | @pick w id candidates picked r hw hr hfree =>
      have hpicked : ∀ r ∈ picked, Backed s r := h.phase_eq hw
      refine h.moveTo w fun x hx => ?_
      rcases List.mem_append.1 hx with hx | hx
      · exact hpicked x hx
      · obtain rfl := List.mem_singleton.1 hx
        exact Inv.backed_of_mem (mem_rows_of_recheck hr).1
  | selected hw => exact h.moveTo _ (Poll.Sound.begin (h.phase_eq hw))
  | send hw hr => exact h.send hw hr
  | @store serial m hm =>
      have hperm := Lib.perm_cons_eraseP hm
      refine h.broker (fun x hx => ?_) fun x hx => List.mem_append_left _ hx
      have hin : ∀ y, y ∈ s.inflight ↔ y = m ∨ y ∈ s.inflight.eraseP fun m => m.serial == serial :=
        fun y => hperm.mem_iff.trans List.mem_cons
      simp only [messages, List.mem_append, List.mem_singleton, hin x] at hx ⊢
      tauto
  | lose serial =>
      refine h.broker (fun x hx => ?_) fun _ hx => hx
      rcases List.mem_append.1 hx with hx | hx
      · exact List.mem_append_left _ (List.mem_of_mem_eraseP hx)
      · exact List.mem_append_right _ hx
  | @ack w batch acked serial m r hw hm hserial hr =>
      have hp : Poll.Sound s ⟨batch, acked, some serial⟩ := h.phase_eq hw
      exact h.moveTo w (hp.ack rfl hm hserial hr)
  | @fail w batch acked serial hw =>
      have hp : Poll.Sound s ⟨batch, acked, some serial⟩ := h.phase_eq hw
      exact h.moveTo w hp.settle
  | @loopEnd w batch acked hw hend =>
      have hp : Poll.Sound s ⟨batch, acked, none⟩ := h.phase_eq hw
      exact h.moveTo w hp
  | returnEmpty hw hempty => exact h.moveTo _ trivial
  | skipUpdate hdraw hrate => exact h.moveTo _ trivial
  | @update w p draw hw =>
      have hp : p.Sound s := h.phase_eq hw
      exact h.moveTo w hp
  | commit hw => exact h.commit (h.phase_eq hw)
  | rollback w => exact h.moveTo w trivial

/-! ## What a poll selects -/

variable (props)

/-- The batch a poll gets when it selects without interference: the unpublished rows in id order,
those locked by others left out, up to the limit. -/
def pollBatch (s : State W) (w : W) : List OutboxRow :=
  ((unpublished s).filter fun r =>
    !((props w).skipLocked && decide (lockedByOther props s w r.id))).take (props w).batchSize

/-- The steps by which a worker selects its batch. -/
def SelectsBy (w : W) (a : Action W) : Prop := a = .select w ∨ a = .examine w ∨ a = .selected w

/-- Going through the snapshot row by row picks the rows that are not locked, up to the limit. -/
theorem run_examine {s : State W} (h : Inv s) (w : W) (l : List OutboxRow)
    (hl : ∀ r ∈ l, r ∈ s.rows ∧ r.published = false) (picked : List OutboxRow) :
    ∃ actions, (∀ a ∈ actions, SelectsBy w a) ∧
      (outbox W props).run (setPhase s w (.selecting (l.map OutboxRow.id) picked)) actions =
        some (setPhase s w (.sending ⟨picked ++ (l.filter fun r =>
          !decide (lockedByOther props s w r.id)).take ((props w).batchSize - picked.length), [],
          none⟩)) := by
  induction l generalizing picked with
  | nil =>
      refine ⟨[.selected w], by simp [SelectsBy], ?_⟩
      simp [Lib.System.run, outbox, step, setPhase_phases_self, setPhase_setPhase]
  | cons r l ih =>
      by_cases hroom : picked.length < (props w).batchSize
      · -- the row is tried
        obtain ⟨hr, hpub⟩ := hl r List.mem_cons_self
        have hrecheck :
            recheck (setPhase s w (.selecting ((r :: l).map OutboxRow.id) picked)) r.id =
              some r := recheck_of_mem h hr hpub
        by_cases hlocked : lockedByOther props s w r.id
        · obtain ⟨actions, hby, hrun⟩ := ih (fun x hx => hl x (List.mem_cons_of_mem _ hx)) picked
          refine ⟨.examine w :: actions, ?_, ?_⟩
          · simpa [SelectsBy] using hby
          · rw [Lib.System.run_cons]
            have hstep : (outbox W props).step
                (setPhase s w (.selecting ((r :: l).map OutboxRow.id) picked)) (.examine w) =
                some (setPhase s w (.selecting (l.map OutboxRow.id) picked)) := by
              simp only [outbox, step, setPhase_phases_self, List.map_cons] at hrecheck ⊢
              rw [if_pos hroom, hrecheck]
              simp only
              rw [if_pos (lockedByOther_setPhase.2 hlocked), setPhase_setPhase]
            rw [hstep, Option.bind_some, hrun, List.filter_cons_of_neg (by simpa using hlocked)]
        · obtain ⟨actions, hby, hrun⟩ :=
            ih (fun x hx => hl x (List.mem_cons_of_mem _ hx)) (picked ++ [r])
          refine ⟨.examine w :: actions, ?_, ?_⟩
          · simpa [SelectsBy] using hby
          · rw [Lib.System.run_cons]
            have hstep : (outbox W props).step
                (setPhase s w (.selecting ((r :: l).map OutboxRow.id) picked)) (.examine w) =
                some (setPhase s w (.selecting (l.map OutboxRow.id) (picked ++ [r]))) := by
              simp only [outbox, step, setPhase_phases_self, List.map_cons] at hrecheck ⊢
              rw [if_pos hroom, hrecheck]
              simp only
              rw [if_neg (fun hl => hlocked (lockedByOther_setPhase.1 hl)), setPhase_setPhase]
            have htake : (props w).batchSize - picked.length =
                ((props w).batchSize - (picked ++ [r]).length) + 1 := by
              rw [List.length_append, List.length_singleton]
              omega
            rw [hstep, Option.bind_some, hrun, List.filter_cons_of_pos (by simpa using hlocked),
              htake, List.take_succ_cons, List.append_assoc, List.singleton_append]
      · -- the limit is reached
        refine ⟨[.selected w], by simp [SelectsBy], ?_⟩
        have hfull : (props w).batchSize ≤ picked.length := not_lt.1 hroom
        have hzero : (props w).batchSize - picked.length = 0 := Nat.sub_eq_zero_of_le hfull
        simp [Lib.System.run, outbox, step, setPhase_phases_self, setPhase_setPhase, hfull, hzero]

variable {props}

/-- An idle worker that is not interfered with gets its batch. -/
theorem exists_poll {s : State W} (h : Inv s) {w : W} (hidle : s.phases w = .idle) :
    ∃ actions, (∀ a ∈ actions, SelectsBy w a) ∧ (outbox W props).run s actions =
      some (setPhase s w (.sending ⟨pollBatch props s w, [], none⟩)) := by
  cases hskip : (props w).skipLocked with
  | false =>
      refine ⟨[.select w], by simp [SelectsBy], ?_⟩
      simp [Lib.System.run, outbox, step, hidle, hskip, pollBatch]
  | true =>
      obtain ⟨actions, hby, hrun⟩ :=
        run_examine props h w (unpublished s) (fun r hr => mem_unpublished.1 hr) []
      refine ⟨.select w :: actions, ?_, ?_⟩
      · simpa [SelectsBy] using hby
      · rw [Lib.System.run_cons]
        have hstep : (outbox W props).step s (.select w) =
            some (setPhase s w (.selecting ((unpublished s).map OutboxRow.id) [])) := by
          simp [outbox, step, hidle, hskip]
        rw [hstep, Option.bind_some, hrun]
        simp [pollBatch, hskip]

/-- An unpublished row is in the batch, unless it is locked or the limit is reached before it. -/
theorem mem_pollBatch {s : State W} (h : Inv s) {r : OutboxRow} (hr : r ∈ s.rows)
    (hpub : r.published = false) (w : W) :
    r ∈ pollBatch props s w ∨ ((props w).skipLocked = true ∧ lockedByOther props s w r.id) ∨
      ((pollBatch props s w).length = (props w).batchSize ∧
        ∀ x ∈ pollBatch props s w, x.id < r.id) := by
  by_cases hlocked : (props w).skipLocked = true ∧ lockedByOther props s w r.id
  · exact .inr (.inl hlocked)
  by_cases hmem : r ∈ pollBatch props s w
  · exact .inl hmem
  refine .inr (.inr ?_)
  unfold pollBatch at hmem ⊢
  set l := (unpublished s).filter fun r =>
    !((props w).skipLocked && decide (lockedByOther props s w r.id)) with hl
  have hrl : r ∈ l := by
    refine List.mem_filter.2 ⟨mem_unpublished.2 ⟨hr, hpub⟩, ?_⟩
    have hfree : ((props w).skipLocked && decide (lockedByOther props s w r.id)) = false := by
      rw [Bool.eq_false_iff]
      simpa using hlocked
    rw [hfree]
    rfl
  have hdrop : r ∈ l.drop (props w).batchSize := by
    rw [← List.take_append_drop (props w).batchSize l] at hrl
    exact (List.mem_append.1 hrl).resolve_left hmem
  have hsorted : l.Pairwise fun x y => x.id ≤ y.id := by
    have : Std.Total fun x y : OutboxRow => x.id ≤ y.id := ⟨fun x y => le_total x.id y.id⟩
    have : IsTrans OutboxRow fun x y => x.id ≤ y.id := ⟨fun _ _ _ hxy hyz => le_trans hxy hyz⟩
    exact (List.pairwise_insertionSort _ _).filter _
  rw [← List.take_append_drop (props w).batchSize l, List.pairwise_append] at hsorted
  refine ⟨?_, fun x hx => ?_⟩
  · rw [List.length_take]
    have := List.length_pos_of_mem hdrop
    rw [List.length_drop] at this
    omega
  · refine lt_of_le_of_ne (hsorted.2.2 x hx r hdrop) fun hid => hmem ?_
    have hxs := (mem_unpublished.1 (List.mem_filter.1 (List.mem_of_mem_take hx)).1).1
    exact h.eq_of_id_eq hxs hr hid ▸ hx

/-! ## What a step does to the table -/

/-- A step leaves the committed rows, adds the row of a decide transaction, or commits the marks of
a poll. -/
theorem rows_step {s t : State W} {a : Action W} (hst : step props s a = some t) :
    t.rows = s.rows ∨ (∃ r ∈ s.opened, t.rows = s.rows ++ [r]) ∨
      ∃ w p, s.phases w = .updated p ∧ t.phases w = .idle ∧ t.rows = markRows s.rows p.acked := by
  cases steps_of_step hst with
  | commitDecide hr => exact .inr (.inl ⟨_, List.mem_of_find?_eq_some hr, rfl⟩)
  | @commit w p hw => exact .inr (.inr ⟨w, p, hw, setPhase_phases_self s w .idle, rfl⟩)
  | _ => exact .inl rfl

/-- What the outbox owes in every state. -/
structure AtLeastOnce (props : W → OutboxProperties) (s : State W) : Prop where
  /-- A row marked as published has a message with its key and payload in the log. -/
  delivered : ∀ r ∈ s.rows, r.published = true →
    ∃ m ∈ s.log, m.key = r.aggregateId ∧ m.value = r.payload
  /-- Every message of the log comes from a committed row. -/
  noPhantom : ∀ m ∈ s.log, ∃ r ∈ s.rows, m.For r
  /-- A poll left to itself selects `pollBatch`, and an unpublished row is in it, unless another
  worker has locked it or the limit is reached with rows before it. -/
  eligible : ∀ r ∈ s.rows, r.published = false → ∀ w, s.phases w = .idle →
    (∃ actions, (∀ a ∈ actions, SelectsBy w a) ∧ (outbox W props).run s actions =
      some (setPhase s w (.sending ⟨pollBatch props s w, [], none⟩))) ∧
    (r ∈ pollBatch props s w ∨ ((props w).skipLocked = true ∧ lockedByOther props s w r.id) ∨
      ((pollBatch props s w).length = (props w).batchSize ∧
        ∀ x ∈ pollBatch props s w, x.id < r.id))
  /-- A poll that is over its sends has been acknowledged a prefix of its batch. -/
  stopped : ∀ w p, s.phases w = .stopped p ∨ s.phases w = .updated p →
    p.acked <+: p.batch ∧ ∀ r ∈ p.acked, Delivered s r
  /-- A step marks no row, or a poll commits the marks of exactly the rows acknowledged to it. -/
  marks : ∀ a t, step props s a = some t →
    (∀ r ∈ t.rows, r.published = true → r ∈ s.rows) ∨
      ∃ w p, s.phases w = .updated p ∧ t.phases w = .idle ∧ t.rows = markRows s.rows p.acked

/-- In every reachable state of any number of workers and decide transactions, whatever fails, the
outbox has delivered what it marks as published, has sent nothing that was not committed, and will
select again what is not published. -/
theorem outbox_at_least_once (props : W → OutboxProperties) (s : State W)
    (hs : (outbox W props).Reachable s) : AtLeastOnce props s := by
  have hinv : Inv s := hs.invariant .start fun _ _ _ hi hst => hi.step hst
  refine ⟨?_, ?_, ?_, ?_, ?_⟩
  · intro r hr hpub
    obtain ⟨m, hm, -, hkey, hvalue⟩ := hinv.delivered r hr hpub
    exact ⟨m, hm, hkey, hvalue⟩
  · exact fun m hm => hinv.noPhantom m (List.mem_append_right _ hm)
  · exact fun r hr hpub w hidle => ⟨exists_poll hinv hidle, mem_pollBatch hinv hr hpub w⟩
  · intro w p hphase
    have hsound : p.Sound s := hphase.elim (hinv.phase_eq ·) (hinv.phase_eq ·)
    exact ⟨hsound.isPrefix, hsound.delivered⟩
  · intro a t hst
    rcases rows_step hst with hrows | ⟨r, hr, hrows⟩ | hmarks
    · exact .inl fun x hx _ => hrows ▸ hx
    · refine .inl fun x hx hpub => ?_
      rw [hrows] at hx
      refine (List.mem_append.1 hx).resolve_right fun hx => ?_
      rw [List.mem_singleton.1 hx, hinv.fresh r hr] at hpub
      cases hpub
    · exact .inr hmarks

/-- Two rows, of which the second send times out after the broker has stored it: the first is
marked, and the second is in the log and will be sent again. -/
theorem outbox_at_least_once_timeout :
    ∃ s : State (Fin 2), (outbox (Fin 2) fun _ => ⟨500, mkRat 1 50, true⟩).Reachable s ∧
      s.rows.map (fun r => (r.id, r.published)) = [(1, true), (2, false)] ∧
      s.log.map Message.rowId = [1, 2] ∧ AtLeastOnce (fun _ => ⟨500, mkRat 1 50, true⟩) s := by
  have hreach := Lib.System.reachable_of_run
    (show (outbox (Fin 2) fun _ => ⟨500, mkRat 1 50, true⟩).run _
    [.insert "r1" "p1", .insert "r2" "p2", .commitDecide 1, .commitDecide 2, .select 0, .examine 0,
      .examine 0, .selected 0, .send 0, .store 0, .ack 0, .send 0, .fail 0, .store 1,
      .update 0 (mkRat 1 2), .commit 0] = some _ from rfl)
  exact ⟨_, hreach, rfl, rfl, outbox_at_least_once _ _ hreach⟩

end AdPipeline.Outbox
