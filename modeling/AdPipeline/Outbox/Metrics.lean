import AdPipeline.Lib.Repeats
import AdPipeline.Outbox.Delivery
import Mathlib.Algebra.BigOperators.Group.Finset.Piecewise
import Mathlib.Algebra.Order.BigOperators.Group.Finset

/-!
# What the outbox counts

The workers of an instance of the service share a set `seen` of the ids they have published, and
count a publication again when its id is in it already. The set is cleared when it grows large, and
a send that times out counts for nothing, though its message may arrive.

So `outbox.republished` is at most the number of duplicates that the instance has put into Kafka
(`republished_le`), and in a run without those events it is exactly that.
-/

namespace AdPipeline.Outbox

open Lib

variable {W I : Type}

/-- What an instance of the service keeps of its polls. -/
structure Counters where
  /-- `seen`. -/
  seen : Finset ℕ
  /-- `outbox.published` and `totalPublished`. -/
  published : ℕ
  republished : ℕ
  updateSkipped : ℕ
  publishErrors : ℕ

def Counters.zero : Counters := ⟨∅, 0, 0, 0, 0⟩

/-- The outbox with the counters of the instances. -/
structure Metered (W I : Type) where
  outbox : State W
  counters : I → Counters
  /-- The local `republished` of a poll. -/
  republishing : W → ℕ
  /-- The poll has found too many ids in `seen`. -/
  clearing : W → Bool

inductive MeteredAction (W : Type) where
  | outbox (a : Action W)
  | clear (w : W)

section

variable [DecidableEq W] [DecidableEq I] (instanceOf : W → I)

namespace Metered

def setCounters (s : Metered W I) (w : W) (c : Counters) : Metered W I :=
  { s with counters := Function.update s.counters (instanceOf w) c }

/-- `if (!seen.add(row.id)) republished++`. -/
def add (s : Metered W I) (w : W) (id : ℕ) : Metered W I :=
  let c := s.counters (instanceOf w)
  { s.setCounters instanceOf w { c with seen := insert id c.seen } with
    republishing := Function.update s.republishing w
      (s.republishing w + if id ∈ c.seen then 1 else 0) }

/-- After the loop over the rows, of which some were acknowledged. -/
def afterLoop (s : Metered W I) (w : W) (acked : ℕ) : Metered W I :=
  let c := s.counters (instanceOf w)
  let checked := { s with clearing := Function.update s.clearing w (decide (200000 < c.seen.card)) }
  if acked = 0 then checked
  else
    { checked.setCounters instanceOf w { c with
        published := c.published + acked
        republished := c.republished + s.republishing w } with
      republishing := Function.update s.republishing w 0 }

/-- What a statement of the outbox counts; `s` is the state before it. -/
def count (s : Metered W I) : Action W → Metered W I
  | .select w =>
    { s with
      republishing := Function.update s.republishing w 0
      clearing := Function.update s.clearing w false }
  | .ack w =>
    match s.outbox.phases w with
    | .sending p => (p.nextRow).elim s fun r => s.add instanceOf w r.id
    | _ => s
  | .fail w =>
    match s.outbox.phases w with
    | .sending p =>
      let c := s.counters (instanceOf w)
      (s.setCounters instanceOf w { c with publishErrors := c.publishErrors + 1 }).afterLoop
        instanceOf w p.acked.length
    | _ => s
  | .loopEnd w =>
    match s.outbox.phases w with
    | .sending p => if p.batch = [] then s else s.afterLoop instanceOf w p.acked.length
    | _ => s
  | .skipUpdate w _ =>
    match s.outbox.phases w with
    | .stopped p =>
      let c := s.counters (instanceOf w)
      s.setCounters instanceOf w { c with updateSkipped := c.updateSkipped + p.acked.length }
    | _ => s
  | _ => s

/-- A poll that is to clear `seen` does so before it goes on. -/
def mayTake (s : Metered W I) : Action W → Bool
  | .returnEmpty w => !s.clearing w
  | .skipUpdate w _ => !s.clearing w
  | .update w _ => !s.clearing w
  | _ => true

end Metered

variable [Fintype W] (props : W → OutboxProperties)

def meteredStep (s : Metered W I) : MeteredAction W → Option (Metered W I)
  | .outbox a =>
    if s.mayTake a then
      (step props s.outbox a).map fun t => { s.count instanceOf a with outbox := t }
    else none
  | .clear w =>
    if s.clearing w then
      let c := s.counters (instanceOf w)
      some { s.setCounters instanceOf w { c with seen := ∅ } with
        clearing := Function.update s.clearing w false }
    else none

/-- The outbox with its counters. -/
def metered : System (Metered W I) (MeteredAction W) where
  init := ⟨start, fun _ => .zero, fun _ => 0, fun _ => false⟩
  step := meteredStep instanceOf props

end

/-! ## Acknowledged messages -/

/-- The messages that a step acknowledges. -/
def ackedBy (s : State W) : Action W → List (Message W)
  | .ack w =>
    match s.phases w with
    | .sending ⟨_, _, some serial⟩ => (s.log.find? fun m => m.serial = serial).toList
    | _ => []
  | _ => []

/-- The worker waits for the acknowledgement of a message. -/
def Waits (s : State W) (w : W) (serial : ℕ) : Prop :=
  ∃ p, s.phases w = .sending p ∧ p.issued = some serial

/-- A serial number is that of one message, and the worker that waits for it has sent it. -/
structure Tagged (s : State W) : Prop where
  nodup : ((messages s).map Message.serial).Nodup
  worker : ∀ w serial, Waits s w serial → ∀ m ∈ messages s, m.serial = serial → m.worker = w

/-- Each of the messages has been acknowledged once. -/
structure Acks (s : State W) (acks : List (Message W)) : Prop where
  logged : ∀ m ∈ acks, m ∈ s.log
  nodup : (acks.map Message.serial).Nodup
  settled : ∀ m ∈ acks, ∀ w, ¬ Waits s w m.serial

variable {s t : State W} {acks : List (Message W)}

theorem Tagged.later (h : Tagged s) (hmessages : (messages t).Subperm (messages s))
    (hwaits : ∀ w serial, Waits t w serial → Waits s w serial) : Tagged t where
  nodup := by
    obtain ⟨l, hperm, hsub⟩ := hmessages
    exact (hperm.map _).nodup_iff.1 (h.nodup.sublist (hsub.map _))
  worker w serial hw m hm := h.worker w serial (hwaits w serial hw) m (hmessages.subset hm)

theorem Acks.later (h : Acks s acks) (hlog : ∀ m ∈ s.log, m ∈ t.log)
    (hwaits : ∀ w serial, Waits t w serial → Waits s w serial) : Acks t acks where
  logged m hm := hlog m (h.logged m hm)
  nodup := h.nodup
  settled m hm w hw := h.settled m hm w (hwaits w m.serial hw)

theorem Waits.lt (hi : Inv s) {w : W} {serial : ℕ} (h : Waits s w serial) :
    serial < s.nextSerial := by
  obtain ⟨p, hp, hissued⟩ := h
  have hsound : Poll.Sound s p := hi.phase_eq hp
  exact (hsound.issued serial hissued).1

/-- An acknowledgement is for the message the worker waits for, and that message is for the next row
of its batch. -/
theorem exists_acked (hi : Inv s) (h : Tagged s) {w : W} {batch acked : List OutboxRow} {serial : ℕ}
    (hw : s.phases w = .sending ⟨batch, acked, some serial⟩) {m : Message W} (hm : m ∈ s.log)
    (hserial : m.serial = serial) {r : OutboxRow} (hr : batch[acked.length]? = some r) :
    ∃ m', ackedBy s (.ack w) = [m'] ∧ m' ∈ s.log ∧ m'.serial = serial ∧ m'.worker = w ∧
      m'.rowId = r.id := by
  obtain ⟨m', hm'⟩ : ∃ m', s.log.find? (fun m => m.serial = serial) = some m' := by
    rw [← Option.isSome_iff_exists, List.find?_isSome]
    exact ⟨m, hm, decide_eq_true hserial⟩
  have hlog := List.mem_of_find?_eq_some hm'
  have hserial' : m'.serial = serial := by simpa using List.find?_some hm'
  have hsound : Poll.Sound s ⟨batch, acked, some serial⟩ := hi.phase_eq hw
  refine ⟨m', ?_, hlog, hserial', ?_, ?_⟩
  · simp only [ackedBy, hw, hm', Option.toList_some]
  · exact h.worker w serial ⟨_, hw, rfl⟩ m' (List.mem_append_right _ hlog) hserial'
  · exact ((hsound.issued serial rfl).2 r hr m' (List.mem_append_right _ hlog) hserial').1

variable [DecidableEq W]

/-- A worker that does not wait. -/
theorem Waits.of_setPhase {w v : W} {phase : Phase} {serial : ℕ}
    (hphase : ∀ p, phase = .sending p → p.issued = none)
    (h : Waits (setPhase s w phase) v serial) : Waits s v serial := by
  obtain ⟨p, hp, hissued⟩ := h
  by_cases hv : v = w
  · subst hv
    rw [setPhase_phases_self] at hp
    rw [hphase p hp] at hissued
    cases hissued
  · rw [setPhase_phases_of_ne s hv] at hp
    exact ⟨p, hp, hissued⟩

/-- A worker moves on to where it does not wait. -/
theorem Tagged.moveTo (h : Tagged s) (w : W) {phase : Phase}
    (hphase : ∀ p, phase = .sending p → p.issued = none) : Tagged (setPhase s w phase) :=
  h.later (List.Subperm.refl _) fun _ _ => Waits.of_setPhase hphase

theorem Acks.moveTo (h : Acks s acks) (w : W) {phase : Phase}
    (hphase : ∀ p, phase = .sending p → p.issued = none) : Acks (setPhase s w phase) acks :=
  h.later (fun _ hm => hm) fun _ _ => Waits.of_setPhase hphase

/-- The state after a send. -/
abbrev sentState (s : State W) (w : W) (batch acked : List OutboxRow) (r : OutboxRow) : State W :=
  { setPhase s w (.sending ⟨batch, acked, some s.nextSerial⟩) with
    nextSerial := s.nextSerial + 1
    inflight := ⟨s.nextSerial, w, r.id, r.aggregateId, r.payload⟩ :: s.inflight }

theorem Waits.of_sentState {w v : W} {batch acked : List OutboxRow} {r : OutboxRow} {serial : ℕ}
    (h : Waits (sentState s w batch acked r) v serial) :
    (v = w ∧ serial = s.nextSerial) ∨ Waits s v serial := by
  obtain ⟨p, hp, hissued⟩ := h
  have hp' : (setPhase s w (.sending ⟨batch, acked, some s.nextSerial⟩)).phases v = .sending p := hp
  by_cases hv : v = w
  · subst hv
    rw [setPhase_phases_self] at hp'
    obtain rfl := Phase.sending.inj hp'
    exact .inl ⟨rfl, (Option.some.inj hissued).symm⟩
  · rw [setPhase_phases_of_ne s hv] at hp'
    exact .inr ⟨p, hp', hissued⟩

theorem Tagged.send (hi : Inv s) (h : Tagged s) (w : W) (batch acked : List OutboxRow)
    (r : OutboxRow) : Tagged (sentState s w batch acked r) where
  nodup := by
    have hfresh : s.nextSerial ∉ (messages s).map Message.serial := by
      intro hmem
      obtain ⟨m, hm, hserial⟩ := List.mem_map.1 hmem
      exact absurd (hi.serials m hm) (by omega)
    exact List.nodup_cons.2 ⟨hfresh, h.nodup⟩
  worker v serial hwaits m hm hserial := by
    rcases hwaits.of_sentState with ⟨rfl, rfl⟩ | hwaits
    · rcases List.mem_cons.1 hm with rfl | hm
      · rfl
      · exact absurd (hi.serials m hm) (by omega)
    · rcases List.mem_cons.1 hm with rfl | hm
      · have hlt : serial < s.nextSerial := hwaits.lt hi
        have hnext : s.nextSerial = serial := hserial
        omega
      · exact h.worker v serial hwaits m hm hserial

theorem Acks.send (hi : Inv s) (h : Acks s acks) (w : W) (batch acked : List OutboxRow)
    (r : OutboxRow) : Acks (sentState s w batch acked r) acks where
  logged := h.logged
  nodup := h.nodup
  settled m hm v hwaits := by
    rcases hwaits.of_sentState with ⟨rfl, hserial⟩ | hwaits
    · exact absurd (hi.serials m (List.mem_append_right _ (h.logged m hm))) (by omega)
    · exact h.settled m hm v hwaits

theorem Acks.ack (ht : Tagged s) (h : Acks s acks) {w : W} {batch acked acked' : List OutboxRow}
    {m : Message W} (hw : s.phases w = .sending ⟨batch, acked, some m.serial⟩) (hm : m ∈ s.log) :
    Acks (setPhase s w (.sending ⟨batch, acked', none⟩)) (acks ++ [m]) := by
  have hwaits : Waits s w m.serial := ⟨_, hw, rfl⟩
  have hfree : ∀ p, Phase.sending ⟨batch, acked', none⟩ = .sending p → p.issued = none := by
    intro p hp
    obtain rfl := Phase.sending.inj hp
    rfl
  have hlater := h.moveTo w hfree
  refine ⟨?_, ?_, ?_⟩
  · intro x hx
    rcases List.mem_append.1 hx with hx | hx
    · exact h.logged x hx
    · exact List.mem_singleton.1 hx ▸ hm
  · rw [List.map_append, List.nodup_append]
    refine ⟨h.nodup, List.nodup_singleton _, ?_⟩
    rintro a ha b hb rfl
    obtain ⟨x, hx, hserial⟩ := List.mem_map.1 ha
    have hb' : a = m.serial := by simpa using hb
    exact h.settled x hx w (by rwa [hserial, hb'])
  · intro x hx v hv
    rcases List.mem_append.1 hx with hx | hx
    · exact hlater.settled x hx v hv
    · obtain rfl := List.mem_singleton.1 hx
      have hv' := hv.of_setPhase hfree
      -- whoever waits for the message has sent it, and `w` waits no longer
      have hworker := ht.worker v x.serial hv' x (List.mem_append_right _ hm) rfl
      have hworker' := ht.worker w x.serial hwaits x (List.mem_append_right _ hm) rfl
      obtain rfl : v = w := hworker.symm.trans hworker'
      obtain ⟨p, hp, hissued⟩ := hv
      rw [setPhase_phases_self] at hp
      rw [hfree p hp] at hissued
      cases hissued

section

variable [Fintype W] {props : W → OutboxProperties}

/-- The serial numbers and the acknowledgements along a step. -/
theorem acks_step (hi : Inv s) (ht : Tagged s) (h : Acks s acks) {a : Action W}
    (hstep : step props s a = some t) : Tagged t ∧ Acks t (acks ++ ackedBy s a) := by
  have hmove : ∀ (w : W) (phase : Phase), (∀ p, phase = .sending p → p.issued = none) →
      Tagged (setPhase s w phase) ∧ Acks (setPhase s w phase) (acks ++ []) := by
    intro w phase hphase
    rw [List.append_nil]
    exact ⟨ht.moveTo w hphase, h.moveTo w hphase⟩
  have hstay : ∀ u : State W, u.phases = s.phases → (messages u).Subperm (messages s) →
      (∀ m ∈ s.log, m ∈ u.log) → Tagged u ∧ Acks u (acks ++ []) := by
    intro u hphases hmessages hlog
    have hwaits : ∀ w serial, Waits u w serial → Waits s w serial := by
      rintro w serial ⟨p, hp, hissued⟩
      exact ⟨p, hphases ▸ hp, hissued⟩
    rw [List.append_nil]
    exact ⟨ht.later hmessages hwaits, h.later hlog hwaits⟩
  have hsending : ∀ (batch acked : List OutboxRow) (p : Poll),
      Phase.sending ⟨batch, acked, none⟩ = .sending p → p.issued = none := by
    rintro batch acked p ⟨⟩
    rfl
  cases steps_of_step hstep with
  | @ack w batch acked serial m r hw hm hserial hr =>
      obtain ⟨m', hacked, hm', rfl, -⟩ := exists_acked hi ht hw hm hserial hr
      rw [hacked]
      exact ⟨ht.moveTo w (hsending _ _), h.ack ht hw hm'⟩
  | @send w batch acked r hw hr =>
      rw [show ackedBy s (.send w) = [] from rfl, List.append_nil]
      exact ⟨ht.send hi w batch acked r, h.send hi w batch acked r⟩
  | @store serial m hm =>
      exact hstay _ rfl (perm_move hm).subperm fun _ hx => List.mem_append_left _ hx
  | lose serial =>
      exact hstay _ rfl (List.eraseP_sublist.append_right _).subperm fun _ hx => hx
  | @commit w p hw =>
      obtain ⟨htagged, hacks⟩ := hmove w .idle (by simp)
      exact ⟨htagged.later (List.Subperm.refl _) fun _ _ hx => hx,
        hacks.later (fun _ hx => hx) fun _ _ hx => hx⟩
  | insert | commitDecide | rollbackDecide =>
      exact hstay _ rfl (List.Subperm.refl _) fun _ hx => hx
  | @read w => exact hmove w _ (hsending _ _)
  | @selected w _ picked => exact hmove w _ (hsending _ _)
  | _ => exact hmove _ _ (by simp)

end

/-! ## The counters -/

section

variable [DecidableEq I]

variable {instanceOf : W → I} {s : Metered W I} {i : I}

omit [DecidableEq W] in
theorem apply_update (f : Counters → ℕ) (w : W) (c : Counters) :
    f (Function.update s.counters (instanceOf w) c i) =
      if instanceOf w = i then f c else f (s.counters i) := by
  split_ifs with hw
  · subst hw
    rw [Function.update_self]
  · rw [Function.update_of_ne (Ne.symm hw)]

omit [DecidableEq W] in
/-- What a worker does not count stays. -/
theorem apply_update_of_eq {α : Type} (f : Counters → α) {w : W} {c : Counters}
    (h : f c = f (s.counters (instanceOf w))) :
    f (Function.update s.counters (instanceOf w) c i) = f (s.counters i) := by
  by_cases hw : instanceOf w = i
  · subst hw
    rw [Function.update_self, h]
  · rw [Function.update_of_ne (Ne.symm hw)]

theorem seen_add (w : W) (id : ℕ) : ((s.add instanceOf w id).counters i).seen =
    if instanceOf w = i then insert id (s.counters i).seen else (s.counters i).seen := by
  show (Function.update s.counters (instanceOf w) _ i).seen = _
  split_ifs with hw
  · subst hw
    rw [Function.update_self]
  · rw [Function.update_of_ne (Ne.symm hw)]

theorem published_add (w : W) (id : ℕ) :
    ((s.add instanceOf w id).counters i).published = (s.counters i).published :=
  apply_update_of_eq Counters.published rfl

theorem seen_afterLoop (w : W) (acked : ℕ) :
    ((s.afterLoop instanceOf w acked).counters i).seen = (s.counters i).seen := by
  unfold Metered.afterLoop
  split_ifs with hacked
  · rfl
  · exact apply_update_of_eq Counters.seen rfl

theorem published_afterLoop (w : W) (acked : ℕ) :
    ((s.afterLoop instanceOf w acked).counters i).published =
      (s.counters i).published + if instanceOf w = i then acked else 0 := by
  unfold Metered.afterLoop
  split_ifs with hacked hw hw
  · rw [hacked]
    rfl
  · rfl
  · subst hw
    exact (apply_update Counters.published w _).trans (if_pos rfl)
  · exact (apply_update Counters.published w _).trans (if_neg hw)

theorem republishing_afterLoop_le (w v : W) (acked : ℕ) :
    (s.afterLoop instanceOf w acked).republishing v ≤ s.republishing v := by
  unfold Metered.afterLoop
  split_ifs with hacked
  · exact le_refl _
  · show Function.update s.republishing w 0 v ≤ _
    by_cases hv : v = w
    · subst hv
      rw [Function.update_self]
      exact Nat.zero_le _
    · rw [Function.update_of_ne hv]

/-- The rows acknowledged to a poll at its sends. -/
def Phase.acknowledged : Phase → ℕ
  | .sending p => p.acked.length
  | _ => 0

omit [DecidableEq I] in
theorem acknowledged_setPhase {s : State W} {w : W} {phase : Phase}
    (h : phase.acknowledged = (s.phases w).acknowledged) (v : W) :
    ((setPhase s w phase).phases v).acknowledged = (s.phases v).acknowledged := by
  by_cases hv : v = w
  · subst hv
    rw [setPhase_phases_self, h]
  · rw [setPhase_phases_of_ne s hv]

variable (instanceOf)

/-- The ids of the rows in the messages of an instance. -/
def ofInstance (i : I) (ms : List (Message W)) : List ℕ :=
  (ms.filter fun m => instanceOf m.worker = i).map Message.rowId

omit [DecidableEq W] in
theorem ofInstance_concat (i : I) (ms : List (Message W)) (m : Message W) :
    ofInstance instanceOf i (ms ++ [m]) =
      ofInstance instanceOf i ms ++ if instanceOf m.worker = i then [m.rowId] else [] := by
  rw [ofInstance, List.filter_append, List.map_append, ofInstance]
  split_ifs with hm <;> simp [hm]

variable [Fintype W]

/-- A sum over the workers of an instance. -/
def total (f : W → ℕ) (i : I) : ℕ := ∑ w with instanceOf w = i, f w

variable {instanceOf} in
omit [DecidableEq W] in
theorem total_zero (i : I) : 0 + total instanceOf (fun _ => 0) i = 0 := by
  rw [total, Finset.sum_const_zero, Nat.add_zero]

/-- One worker's part is replaced. -/
theorem total_update (f : W → ℕ) (w : W) (x : ℕ) (i : I) :
    total instanceOf (Function.update f w x) i + (if instanceOf w = i then f w else 0) =
      total instanceOf f i + if instanceOf w = i then x else 0 := by
  unfold total
  split_ifs with hw
  · have hmem : w ∈ Finset.univ.filter fun v => instanceOf v = i := by simpa using hw
    rw [Finset.sum_update_of_mem hmem, ← Finset.add_sum_erase _ f hmem,
      Finset.sdiff_singleton_eq_erase]
    omega
  · rw [Finset.sum_update_of_notMem (by simpa using hw)]

/-- The publications of an instance counted as repeated, those of the polls at their sends
included. -/
def Metered.repeated (s : Metered W I) (i : I) : ℕ :=
  (s.counters i).republished + total instanceOf s.republishing i

/-- The publications of an instance, those of the polls at their sends included. -/
def Metered.publications (s : Metered W I) (i : I) : ℕ :=
  (s.counters i).published + total instanceOf (fun w => (s.outbox.phases w).acknowledged) i

variable {instanceOf}

theorem repeated_add (w : W) (id : ℕ) :
    (s.add instanceOf w id).repeated instanceOf i = s.repeated instanceOf i +
      if instanceOf w = i ∧ id ∈ (s.counters i).seen then 1 else 0 := by
  have hcounter : ((s.add instanceOf w id).counters i).republished =
      (s.counters i).republished := apply_update_of_eq Counters.republished rfl
  have htotal := total_update instanceOf s.republishing w
    (s.republishing w + if id ∈ (s.counters (instanceOf w)).seen then 1 else 0) i
  have hlocal : total instanceOf (s.add instanceOf w id).republishing i =
      total instanceOf (Function.update s.republishing w (s.republishing w +
        if id ∈ (s.counters (instanceOf w)).seen then 1 else 0)) i := rfl
  rw [Metered.repeated, hcounter, hlocal, Metered.repeated]
  by_cases hw : instanceOf w = i
  · subst hw
    simp only [if_true, true_and] at htotal ⊢
    omega
  · simp only [hw, if_false, false_and] at htotal ⊢
    omega

theorem repeated_afterLoop (w : W) (acked : ℕ) :
    (s.afterLoop instanceOf w acked).repeated instanceOf i = s.repeated instanceOf i := by
  unfold Metered.afterLoop
  split_ifs with hacked
  · rfl
  · have htotal := total_update instanceOf s.republishing w 0 i
    show (Function.update s.counters (instanceOf w) _ i).republished +
      total instanceOf (Function.update s.republishing w 0) i = _
    rw [Metered.repeated]
    by_cases hw : instanceOf w = i
    · subst hw
      rw [Function.update_self]
      simp only [if_true] at htotal
      dsimp only
      omega
    · rw [Function.update_of_ne (Ne.symm hw)]
      simp only [hw, if_false] at htotal
      omega

/-- The rows acknowledged when a poll moves on. -/
theorem total_acknowledged (instanceOf : W → I) (i : I) (s : State W) (w : W) (phase : Phase) :
    total instanceOf (fun v => ((setPhase s w phase).phases v).acknowledged) i +
        (if instanceOf w = i then (s.phases w).acknowledged else 0) =
      total instanceOf (fun v => (s.phases v).acknowledged) i +
        if instanceOf w = i then phase.acknowledged else 0 := by
  have hupdate : (fun v => ((setPhase s w phase).phases v).acknowledged) =
      Function.update (fun v => (s.phases v).acknowledged) w phase.acknowledged := by
    funext v
    by_cases hv : v = w
    · subst hv
      rw [setPhase_phases_self, Function.update_self]
    · rw [setPhase_phases_of_ne s hv, Function.update_of_ne hv]
  rw [hupdate]
  exact total_update instanceOf _ w _ i

/-! ## Steps without acknowledgements -/

/-- Only a poll at its sends counts. -/
def Idle (s : Metered W I) : Prop :=
  ∀ w, s.republishing w ≠ 0 → (s.outbox.phases w).acknowledged ≠ 0

/-- Nothing happens that makes the counters differ from what is in Kafka: no send fails, no poll is
rolled back at its sends, and `seen` is not cleared. -/
def Undisturbed (s : Metered W I) : MeteredAction W → Prop
  | .clear _ => False
  | .outbox (.fail _) => False
  | .outbox (.rollback w) => ∀ p, s.outbox.phases w ≠ .sending p
  | _ => True

variable (instanceOf) in
/-- From `s` to `u` nothing is counted, and where nothing is disturbed nothing is dropped. -/
structure Uncounted (s u : Metered W I) (undisturbed : Prop) : Prop where
  seen : ∀ i, (u.counters i).seen = (s.counters i).seen
  repeated_le : ∀ i, u.repeated instanceOf i ≤ s.repeated instanceOf i
  publications_le : ∀ i, u.publications instanceOf i ≤ s.publications instanceOf i
  kept : undisturbed → Idle s → Idle u ∧
    ∀ i, u.repeated instanceOf i = s.repeated instanceOf i ∧
      u.publications instanceOf i = s.publications instanceOf i

omit [DecidableEq W] in
theorem Uncounted.of_eq {u : Metered W I} {undisturbed : Prop}
    (hseen : ∀ i, (u.counters i).seen = (s.counters i).seen)
    (hrepublished : ∀ i, (u.counters i).republished = (s.counters i).republished)
    (hpublished : ∀ i, (u.counters i).published = (s.counters i).published)
    (hlocal : u.republishing = s.republishing)
    (hacknowledged : ∀ v, (u.outbox.phases v).acknowledged = (s.outbox.phases v).acknowledged) :
    Uncounted instanceOf s u undisturbed := by
  have hrepeated : ∀ i, u.repeated instanceOf i = s.repeated instanceOf i := fun i => by
    rw [Metered.repeated, hrepublished, hlocal, Metered.repeated]
  have hpublications : ∀ i, u.publications instanceOf i = s.publications instanceOf i := fun i => by
    rw [Metered.publications, hpublished, funext hacknowledged, Metered.publications]
  refine ⟨hseen, fun i => (hrepeated i).le, fun i => (hpublications i).le, fun _ hidle => ?_⟩
  refine ⟨fun w hw => ?_, fun i => ⟨hrepeated i, hpublications i⟩⟩
  rw [hacknowledged]
  exact hidle w (hlocal ▸ hw)

omit [DecidableEq I] [Fintype W] in
theorem republishing_afterLoop_self [DecidableEq I] (w : W) {acked : ℕ} (h : acked ≠ 0) :
    (s.afterLoop instanceOf w acked).republishing w = 0 := by
  unfold Metered.afterLoop
  rw [if_neg h]
  exact Function.update_self _ _ _

/-- A poll is over its sends, and `s'` may have counted an error. -/
theorem Uncounted.afterLoop {w : W} {p : Poll} (hw : s.outbox.phases w = .sending p)
    (s' : Metered W I) (hseen : ∀ i, (s'.counters i).seen = (s.counters i).seen)
    (hrepublished : ∀ i, (s'.counters i).republished = (s.counters i).republished)
    (hpublished : ∀ i, (s'.counters i).published = (s.counters i).published)
    (hlocal : s'.republishing = s.republishing) {undisturbed : Prop} (q : Poll) :
    Uncounted instanceOf s { s'.afterLoop instanceOf w p.acked.length with
      outbox := setPhase s.outbox w (.stopped q) } undisturbed := by
  have hacked : (s.outbox.phases w).acknowledged = p.acked.length := by
    rw [hw]
    rfl
  have hrepeated : ∀ i, (s'.afterLoop instanceOf w p.acked.length).repeated instanceOf i =
      s.repeated instanceOf i := by
    intro i
    rw [repeated_afterLoop, Metered.repeated, hrepublished, hlocal, Metered.repeated]
  have hpublications : ∀ i, ((s'.afterLoop instanceOf w p.acked.length).counters i).published +
      total instanceOf (fun v => ((setPhase s.outbox w (.stopped q)).phases v).acknowledged) i =
        s.publications instanceOf i := by
    intro i
    have htotal : total instanceOf
        (fun v => ((setPhase s.outbox w (.stopped q)).phases v).acknowledged) i +
          (if instanceOf w = i then p.acked.length else 0) =
        total instanceOf (fun v => (s.outbox.phases v).acknowledged) i := by
      rw [← hacked, total_acknowledged]
      simp [Phase.acknowledged]
    rw [published_afterLoop, hpublished, Metered.publications]
    omega
  refine ⟨fun i => (seen_afterLoop w _).trans (hseen i), fun i => (hrepeated i).le,
    fun i => (hpublications i).le, fun _ hidle => ⟨fun v hv => ?_, fun i =>
      ⟨hrepeated i, hpublications i⟩⟩⟩
  by_cases hvw : v = w
  · subst hvw
    refine absurd ?_ hv
    by_cases hzero : p.acked.length = 0
    · have hnone : s.republishing v = 0 := by
        by_contra hne
        exact hidle v hne (hacked.trans hzero)
      have hle : (s'.afterLoop instanceOf v p.acked.length).republishing v ≤ s'.republishing v :=
        republishing_afterLoop_le v v _
      rw [hlocal, hnone] at hle
      exact Nat.le_zero.1 hle
    · exact republishing_afterLoop_self v hzero
  · have hle : (s'.afterLoop instanceOf w p.acked.length).republishing v ≤ s'.republishing v :=
      republishing_afterLoop_le w v _
    rw [hlocal] at hle
    have hphase : (setPhase s.outbox w (.stopped q)).phases v = s.outbox.phases v :=
      setPhase_phases_of_ne s.outbox hvw _
    show ((setPhase s.outbox w (.stopped q)).phases v).acknowledged ≠ 0
    rw [hphase]
    refine hidle v fun hzero => hv ?_
    rw [hzero] at hle
    exact Nat.le_zero.1 hle

variable {props : W → OutboxProperties} {t : State W}

/-- A poll begins. -/
theorem Uncounted.select {w : W} (hw : s.outbox.phases w = .idle) {phase : Phase}
    (hphase : phase.acknowledged = 0) {undisturbed : Prop} :
    Uncounted instanceOf s { s.count instanceOf (.select w) with
      outbox := setPhase s.outbox w phase } undisturbed := by
  have hsame : phase.acknowledged = (s.outbox.phases w).acknowledged := by
    rw [hphase, hw]
    rfl
  have hacknowledged := acknowledged_setPhase hsame
  have hpublications : ∀ i, (s.counters i).published + total instanceOf
      (fun v => ((setPhase s.outbox w phase).phases v).acknowledged) i =
        s.publications instanceOf i := by
    intro i
    rw [funext hacknowledged, Metered.publications]
  have htotal : ∀ i, total instanceOf (Function.update s.republishing w 0) i +
      (if instanceOf w = i then s.republishing w else 0) = total instanceOf s.republishing i := by
    intro i
    rw [total_update]
    simp
  refine ⟨fun _ => rfl, fun i => ?_, fun i => (hpublications i).le, fun _ hidle => ⟨?_, fun i =>
    ⟨?_, hpublications i⟩⟩⟩
  · refine Nat.add_le_add_left ?_ _
    rw [← htotal i]
    exact Nat.le_add_right _ _
  · intro v hv
    have hv' : s.republishing v ≠ 0 := by
      intro hzero
      refine hv ?_
      show Function.update s.republishing w 0 v = 0
      rw [Function.update_apply, hzero, ite_self]
    exact (hacknowledged v).symm ▸ hidle v hv'
  · have hnone : s.republishing w = 0 := by
      by_contra hne
      exact hidle w hne (by rw [hw]; rfl)
    refine congrArg ((s.counters i).republished + ·) ?_
    rw [← htotal i, hnone, ite_self]
    rfl

/-- A step that acknowledges nothing counts nothing. -/
theorem uncounted {a : Action W} (hack : ∀ w, a ≠ .ack w)
    (hstep : step props s.outbox a = some t) :
    Uncounted instanceOf s { s.count instanceOf a with outbox := t }
      (Undisturbed s (.outbox a)) := by
  cases steps_of_step hstep with
  | insert | commitDecide | rollbackDecide | store | lose =>
      exact .of_eq (fun _ => rfl) (fun _ => rfl) (fun _ => rfl) rfl fun _ => rfl
  | snapshot hw | read hw => exact .select hw rfl
  | pass hw | pick hw | selected hw | send hw | returnEmpty hw | update _ hw | commit hw =>
      exact .of_eq (fun _ => rfl) (fun _ => rfl) (fun _ => rfl) rfl
        (acknowledged_setPhase (by rw [hw]; rfl))
  | ack => exact absurd rfl (hack _)
  | @fail w batch acked serial hw =>
      let c := s.counters (instanceOf w)
      simp only [Metered.count, hw]
      exact .afterLoop hw
        (s.setCounters instanceOf w { c with publishErrors := c.publishErrors + 1 })
        (fun i => apply_update_of_eq Counters.seen rfl)
        (fun i => apply_update_of_eq Counters.republished rfl)
        (fun i => apply_update_of_eq Counters.published rfl) rfl _
  | @loopEnd w batch acked hw hend =>
      simp only [Metered.count, hw]
      split_ifs with hbatch
      · have hzero : acked.length = 0 := by rw [hend, hbatch, List.length_nil]
        exact .of_eq (fun _ => rfl) (fun _ => rfl) (fun _ => rfl) rfl
          (acknowledged_setPhase (by rw [hw]; exact hzero.symm))
      · exact .afterLoop hw s (fun _ => rfl) (fun _ => rfl) (fun _ => rfl) rfl _
  | @skipUpdate w draw hdraw hrate =>
      cases hw : s.outbox.phases w with
      | stopped p =>
          simp only [Metered.count, hw]
          exact .of_eq (fun i => apply_update_of_eq Counters.seen rfl)
            (fun i => apply_update_of_eq Counters.republished rfl)
            (fun i => apply_update_of_eq Counters.published rfl) rfl
            (acknowledged_setPhase (by rw [hw]; rfl))
      | _ => simp [step, hw] at hstep
  | rollback w =>
      by_cases hsending : ∃ p, s.outbox.phases w = .sending p
      · obtain ⟨p, hw⟩ := hsending
        refine ⟨fun _ => rfl, fun _ => le_refl _, fun i => ?_, fun hok => absurd hw (hok p)⟩
        refine Nat.add_le_add_left ?_ _
        have htotal : total instanceOf
            (fun v => ((setPhase s.outbox w .idle).phases v).acknowledged) i +
              (if instanceOf w = i then (s.outbox.phases w).acknowledged else 0) =
            total instanceOf (fun v => (s.outbox.phases v).acknowledged) i := by
          rw [total_acknowledged]
          simp [Phase.acknowledged]
        exact htotal ▸ Nat.le_add_right _ _
      · have hzero : (s.outbox.phases w).acknowledged = 0 := by
          cases hw : s.outbox.phases w with
          | sending p => exact absurd ⟨p, hw⟩ hsending
          | _ => rfl
        exact .of_eq (fun _ => rfl) (fun _ => rfl) (fun _ => rfl) rfl
          (acknowledged_setPhase hzero.symm)

/-! ## What is counted of a run -/

/-- The counters of an instance are at most what has been acknowledged to it. -/
structure Bounded (instanceOf : W → I) (s : Metered W I) (acks : List (Message W)) : Prop where
  inv : Inv s.outbox
  tagged : Tagged s.outbox
  ledger : Acks s.outbox acks
  seen : ∀ i, ∀ id ∈ (s.counters i).seen, id ∈ ofInstance instanceOf i acks
  repeated : ∀ i, s.repeated instanceOf i ≤ repeats (ofInstance instanceOf i acks)
  publications : ∀ i, s.publications instanceOf i ≤ (ofInstance instanceOf i acks).length

/-- They are just that, and what is in Kafka has been acknowledged or is waited for. -/
structure Exact (instanceOf : W → I) (s : Metered W I) (acks : List (Message W)) : Prop where
  idle : Idle s
  seen : ∀ i, ∀ id ∈ ofInstance instanceOf i acks, id ∈ (s.counters i).seen
  repeated : ∀ i, s.repeated instanceOf i = repeats (ofInstance instanceOf i acks)
  publications : ∀ i, s.publications instanceOf i = (ofInstance instanceOf i acks).length
  accounted : ∀ m ∈ messages s.outbox, m ∈ acks ∨ Waits s.outbox m.worker m.serial

/-- The messages that an action acknowledges. -/
def acknowledges (s : Metered W I) : MeteredAction W → List (Message W)
  | .outbox a => ackedBy s.outbox a
  | .clear _ => []

variable {acks : List (Message W)}

theorem bounded_init : Bounded instanceOf (metered instanceOf props).init [] where
  inv := .start
  tagged := ⟨List.nodup_nil, fun _ _ _ _ hm => absurd hm List.not_mem_nil⟩
  ledger := ⟨fun _ hm => absurd hm List.not_mem_nil, List.nodup_nil,
    fun _ hm => absurd hm List.not_mem_nil⟩
  seen _ _ hid := absurd hid (Finset.notMem_empty _)
  repeated i := le_of_eq (total_zero i)
  publications i := le_of_eq (total_zero i)

omit [DecidableEq W] [DecidableEq I] [Fintype W] in
theorem ackedBy_of_ne {s : State W} {a : Action W} (h : ∀ w, a ≠ .ack w) : ackedBy s a = [] := by
  cases a with
  | ack w => exact absurd rfl (h w)
  | _ => rfl

/-- An acknowledged row is counted. -/
theorem exists_counted (instanceOf : W → I) (hi : Inv s.outbox) (ht : Tagged s.outbox) {w : W}
    (hstep : step props s.outbox (.ack w) = some t) :
    ∃ m ∈ s.outbox.log, ackedBy s.outbox (.ack w) = [m] ∧ m.worker = w ∧
      (Idle s → Idle { s.count instanceOf (.ack w) with outbox := t }) ∧
      ∀ i, (((s.count instanceOf (.ack w)).counters i).seen =
          if instanceOf w = i then insert m.rowId (s.counters i).seen else (s.counters i).seen) ∧
        (s.count instanceOf (.ack w)).repeated instanceOf i = s.repeated instanceOf i +
          (if instanceOf w = i ∧ m.rowId ∈ (s.counters i).seen then 1 else 0) ∧
        ({ s.count instanceOf (.ack w) with outbox := t } : Metered W I).publications instanceOf i =
          s.publications instanceOf i + if instanceOf w = i then 1 else 0 := by
  cases steps_of_step hstep with
  | @ack w batch acked serial m r hw hm hserial hr =>
      obtain ⟨m', hacked, hlog, -, hworker, hrow⟩ := exists_acked hi ht hw hm hserial hr
      have hcount : s.count instanceOf (.ack w) = s.add instanceOf w m'.rowId := by
        simp only [Metered.count, hw, Poll.nextRow, hr, Option.elim_some, hrow]
      rw [hcount]
      refine ⟨m', hlog, hacked, hworker, fun hidle v hv => ?_, fun i => ?_⟩
      · by_cases hvw : v = w
        · subst hvw
          show ((setPhase s.outbox v _).phases v).acknowledged ≠ 0
          rw [setPhase_phases_self]
          simp [Phase.acknowledged]
        · show ((setPhase s.outbox w _).phases v).acknowledged ≠ 0
          rw [setPhase_phases_of_ne s.outbox hvw]
          have hlocal : (s.add instanceOf w m'.rowId).republishing v = s.republishing v :=
            Function.update_of_ne hvw _ _
          exact hidle v fun hzero => hv (hlocal.trans hzero)
      refine ⟨seen_add w _, repeated_add w _, ?_⟩
      have htotal := total_acknowledged instanceOf i s.outbox w
        (.sending ⟨batch, acked ++ [r], none⟩)
      have hbefore : (s.outbox.phases w).acknowledged = acked.length := by
        rw [hw]
        rfl
      have hafter : (Phase.sending ⟨batch, acked ++ [r], none⟩).acknowledged = acked.length + 1 :=
        List.length_append
      rw [hbefore, hafter] at htotal
      rw [Metered.publications, published_add, Metered.publications]
      dsimp only
      split_ifs at htotal ⊢ <;> omega

/-- A step keeps the bounds. -/
theorem bounded_step {u : Metered W I} (h : Bounded instanceOf s acks) {a : MeteredAction W}
    (hstep : meteredStep instanceOf props s a = some u) :
    Bounded instanceOf u (acks ++ acknowledges s a) := by
  cases a with
  | clear w =>
      simp only [meteredStep] at hstep
      split_ifs at hstep with hclearing
      obtain rfl := Option.some.inj hstep
      have hseen : ∀ i, ((Function.update s.counters (instanceOf w)
          { s.counters (instanceOf w) with seen := ∅ }) i).seen ⊆ (s.counters i).seen := by
        intro i
        by_cases hw : instanceOf w = i
        · subst hw
          rw [Function.update_self]
          exact Finset.empty_subset _
        · rw [Function.update_of_ne (Ne.symm hw)]
      rw [acknowledges, List.append_nil]
      refine ⟨h.inv, h.tagged, h.ledger, fun i id hid => h.seen i id (hseen i hid),
        fun i => (le_of_eq ?_).trans (h.repeated i),
        fun i => (le_of_eq ?_).trans (h.publications i)⟩
      · exact congrArg (· + total instanceOf s.republishing i)
          (apply_update_of_eq Counters.republished rfl)
      · exact congrArg (· + total instanceOf (fun v => (s.outbox.phases v).acknowledged) i)
          (apply_update_of_eq Counters.published rfl)
  | outbox a =>
      simp only [meteredStep] at hstep
      split_ifs at hstep with hmay
      obtain ⟨t, ht, rfl⟩ := Option.map_eq_some_iff.1 hstep
      obtain ⟨htagged, hledger⟩ := acks_step h.inv h.tagged h.ledger ht
      have hinv := h.inv.step ht
      rw [acknowledges]
      by_cases hack : ∃ w, a = .ack w
      · obtain ⟨w, rfl⟩ := hack
        obtain ⟨m, hm, hacked, rfl, -, hcounted⟩ := exists_counted instanceOf h.inv h.tagged ht
        rw [hacked] at hledger ⊢
        refine ⟨hinv, htagged, hledger, fun i id hid => ?_, fun i => ?_, fun i => ?_⟩
        · have hid' : id ∈ ((s.count instanceOf (.ack m.worker)).counters i).seen := hid
          rw [(hcounted i).1] at hid'
          rw [ofInstance_concat, List.mem_append]
          split_ifs at hid' ⊢ with hi
          · rcases Finset.mem_insert.1 hid' with rfl | hid'
            · exact .inr (List.mem_singleton_self _)
            · exact .inl (h.seen i id hid')
          · exact .inl (h.seen i id hid')
        · refine le_trans (le_of_eq (hcounted i).2.1) ?_
          have hle := h.repeated i
          have hseen := h.seen i m.rowId
          rw [ofInstance_concat]
          by_cases hi : instanceOf m.worker = i
          · rw [if_pos hi, repeats_concat]
            split_ifs <;> first | omega | (exfalso; tauto)
          · rw [if_neg hi, List.append_nil, if_neg fun hboth => hi hboth.1]
            exact hle
        · refine le_trans (le_of_eq (hcounted i).2.2) ?_
          have hle := h.publications i
          rw [ofInstance_concat, List.length_append]
          split_ifs <;> simpa using hle
      · have hother : ∀ w, a ≠ .ack w := fun w hw => hack ⟨w, hw⟩
        have huncounted : Uncounted instanceOf s { s.count instanceOf a with outbox := t } _ :=
          uncounted hother ht
        rw [ackedBy_of_ne hother, List.append_nil] at hledger ⊢
        exact ⟨hinv, htagged, hledger,
          fun i id hid => h.seen i id (huncounted.seen i ▸ hid),
          fun i => (huncounted.repeated_le i).trans (h.repeated i),
          fun i => (huncounted.publications_le i).trans (h.publications i)⟩

omit [Fintype W] in
/-- A message stays waited for while its worker stays at its sends. -/
theorem Waits.setPhase_of_ne {s : State W} {v w : W} {serial : ℕ} (h : Waits s v serial)
    (hw : ∀ p, s.phases w = .sending p → p.issued = none) (phase : Phase) :
    Waits (setPhase s w phase) v serial := by
  obtain ⟨p, hp, hissued⟩ := h
  refine ⟨p, ?_, hissued⟩
  rw [setPhase_phases_of_ne s ?_]
  · exact hp
  · rintro rfl
    rw [hw p hp] at hissued
    cases hissued

/-- Undisturbed, a message stays waited for until it is acknowledged. -/
theorem accounted_step {s t : State W} (hi : Inv s) (ht : Tagged s)
    (h : ∀ m ∈ messages s, m ∈ acks ∨ Waits s m.worker m.serial) {a : Action W}
    (hfail : ∀ w, a ≠ .fail w) (hrollback : ∀ w, a = .rollback w → ∀ p, s.phases w ≠ .sending p)
    (hstep : step props s a = some t) :
    ∀ m ∈ messages t, m ∈ acks ++ ackedBy s a ∨ Waits t m.worker m.serial := by
  have hstay : ∀ u : State W, u.phases = s.phases → (∀ m ∈ messages u, m ∈ messages s) →
      ∀ m ∈ messages u, m ∈ acks ++ [] ∨ Waits u m.worker m.serial := by
    intro u hphases hmessages m hm
    rw [List.append_nil]
    refine (h m (hmessages m hm)).imp_right ?_
    rintro ⟨p, hp, hissued⟩
    exact ⟨p, hphases ▸ hp, hissued⟩
  have hmove : ∀ (w : W) (phase : Phase), (∀ p, s.phases w = .sending p → p.issued = none) →
      ∀ m ∈ messages s, m ∈ acks ++ [] ∨ Waits (setPhase s w phase) m.worker m.serial := by
    intro w phase hw m hm
    rw [List.append_nil]
    exact (h m hm).imp_right fun hwaits => hwaits.setPhase_of_ne hw phase
  cases steps_of_step hstep with
  | insert | commitDecide | rollbackDecide => exact hstay _ rfl fun _ hm => hm
  | store hm => exact hstay _ rfl fun _ hx => (perm_move hm).mem_iff.1 hx
  | lose => exact hstay _ rfl fun _ hx => (List.eraseP_sublist.append_right _).subset hx
  | snapshot hw | read hw | pass hw | pick hw | selected hw | returnEmpty hw | update _ hw
  | commit hw => exact hmove _ _ (by simp [hw])
  | loopEnd hw => exact hmove _ _ (by rw [hw]; rintro p ⟨⟩; rfl)
  | fail => exact absurd rfl (hfail _)
  | rollback w => exact hmove _ _ fun p hp => absurd hp (hrollback w rfl p)
  | @skipUpdate w draw hdraw hrate =>
      refine hmove _ _ fun p hp => ?_
      simp [step, hp] at hstep
  | @send w batch acked r hw hr =>
      intro m hm
      rw [ackedBy_of_ne (by simp), List.append_nil]
      rcases List.mem_cons.1 hm with rfl | hm
      · exact .inr ⟨_, setPhase_phases_self s w _, rfl⟩
      · have hfree : ∀ p, s.phases w = .sending p → p.issued = none := by
          rw [hw]
          rintro p ⟨⟩
          rfl
        exact (h m hm).imp_right fun hwaits => hwaits.setPhase_of_ne hfree _
  | @ack w batch acked serial m r hw hm hserial hr =>
      obtain ⟨m', hacked, hlog, hserial', -⟩ := exists_acked hi ht hw hm hserial hr
      rw [hacked]
      intro x hx
      have hx' : x ∈ messages s := hx
      rcases h x hx' with hx'' | ⟨p, hp, hissued⟩
      · exact .inl (List.mem_append_left _ hx'')
      · by_cases hxw : x.worker = w
        · -- the worker waited for the message acknowledged only
          rw [hxw, hw] at hp
          obtain rfl := Phase.sending.inj hp
          have heq : x.serial = m'.serial := hserial'.symm ▸ (Option.some.inj hissued).symm
          have hsame := List.inj_on_of_nodup_map ht.nodup hx' (List.mem_append_right _ hlog) heq
          exact .inl (List.mem_append_right _ (List.mem_singleton.2 hsame))
        · refine .inr ⟨p, ?_, hissued⟩
          rw [setPhase_phases_of_ne s hxw]
          exact hp

/-- Undisturbed, a step keeps the counters exact. -/
theorem exact_step {u : Metered W I} (hb : Bounded instanceOf s acks) (h : Exact instanceOf s acks)
    {a : MeteredAction W} (hok : Undisturbed s a)
    (hstep : meteredStep instanceOf props s a = some u) :
    Exact instanceOf u (acks ++ acknowledges s a) := by
  cases a with
  | clear w => exact hok.elim
  | outbox a =>
      simp only [meteredStep] at hstep
      split_ifs at hstep with hmay
      obtain ⟨t, ht, rfl⟩ := Option.map_eq_some_iff.1 hstep
      have haccounted := accounted_step hb.inv hb.tagged h.accounted
        (fun w hw => by subst hw; exact hok) (fun w hw => by subst hw; exact hok) ht
      rw [acknowledges]
      by_cases hack : ∃ w, a = .ack w
      · obtain ⟨w, rfl⟩ := hack
        obtain ⟨m, hm, hacked, rfl, hidle, hcounted⟩ :=
          exists_counted instanceOf hb.inv hb.tagged ht
        rw [hacked] at haccounted ⊢
        refine ⟨hidle h.idle, fun i id hid => ?_, fun i => ?_, fun i => ?_, haccounted⟩
        · show id ∈ ((s.count instanceOf (.ack m.worker)).counters i).seen
          rw [(hcounted i).1]
          rw [ofInstance_concat, List.mem_append] at hid
          split_ifs at hid ⊢ with hi
          · rcases hid with hid | hid
            · exact Finset.mem_insert_of_mem (h.seen i id hid)
            · rw [List.mem_singleton.1 hid]
              exact Finset.mem_insert_self _ _
          · exact h.seen i id (hid.resolve_right List.not_mem_nil)
        · refine (hcounted i).2.1.trans ?_
          rw [h.repeated i, ofInstance_concat]
          by_cases hi : instanceOf m.worker = i
          · rw [if_pos hi, repeats_concat]
            have hseen : m.rowId ∈ (s.counters i).seen ↔ m.rowId ∈ ofInstance instanceOf i acks :=
              ⟨hb.seen i m.rowId, h.seen i m.rowId⟩
            simp only [hi, hseen, true_and]
          · rw [if_neg hi, List.append_nil, if_neg fun hboth => hi hboth.1, Nat.add_zero]
        · refine (hcounted i).2.2.trans ?_
          rw [h.publications i, ofInstance_concat, List.length_append]
          split_ifs <;> rfl
      · have hother : ∀ w, a ≠ .ack w := fun w hw => hack ⟨w, hw⟩
        have huncounted : Uncounted instanceOf s { s.count instanceOf a with outbox := t } _ :=
          uncounted hother ht
        obtain ⟨hidle, hkept⟩ := huncounted.kept hok h.idle
        rw [ackedBy_of_ne hother] at haccounted ⊢
        rw [List.append_nil] at haccounted ⊢
        exact ⟨hidle, fun i id hid => (huncounted.seen i).symm ▸ h.seen i id hid,
          fun i => (hkept i).1.trans (h.repeated i), fun i => (hkept i).2.trans (h.publications i),
          haccounted⟩

theorem exact_init : Exact instanceOf (metered instanceOf props).init [] where
  idle _ hw := absurd rfl hw
  seen _ _ hid := absurd hid List.not_mem_nil
  repeated i := total_zero i
  publications i := total_zero i
  accounted _ hm := absurd hm List.not_mem_nil

theorem bounded_of_emits {ok : Metered W I → MeteredAction W → Prop}
    (h : (metered instanceOf props).Emits ok acknowledges s acks) : Bounded instanceOf s acks :=
  h.invariant bounded_init fun _ _ _ _ _ hs _ hstep => bounded_step hs hstep

theorem exact_of_emits (h : (metered instanceOf props).Emits Undisturbed acknowledges s acks) :
    Exact instanceOf s acks :=
  h.invariant exact_init fun _ _ _ _ hs hexact hok hstep =>
    exact_step (bounded_of_emits hs) hexact hok hstep

omit [DecidableEq W] in
/-- What is acknowledged to an instance is in the log. -/
theorem Bounded.subperm (h : Bounded instanceOf s acks) (i : I) :
    (ofInstance instanceOf i acks).Subperm (ofInstance instanceOf i s.outbox.log) := by
  have hsub : acks.Subperm s.outbox.log :=
    (List.Nodup.of_map _ h.ledger.nodup).subperm h.ledger.logged
  obtain ⟨l, hperm, hfiltered⟩ := hsub.filter fun m => instanceOf m.worker = i
  exact ⟨l.map Message.rowId, hperm.map _, hfiltered.map _⟩

omit [DecidableEq W] in
/-- When no worker of an instance is at its sends, all its messages in the log are acknowledged. -/
theorem Exact.perm (hb : Bounded instanceOf s acks) (h : Exact instanceOf s acks)
    (hquiet : ∀ w, instanceOf w = i → ∀ p, s.outbox.phases w ≠ .sending p) :
    (ofInstance instanceOf i acks).Perm (ofInstance instanceOf i s.outbox.log) := by
  have hacks : acks.Nodup := List.Nodup.of_map _ hb.ledger.nodup
  have hlog : s.outbox.log.Nodup :=
    (List.Nodup.of_map _ hb.tagged.nodup).sublist (List.sublist_append_right _ _)
  refine List.Perm.map _ ((List.perm_ext_iff_of_nodup (hacks.filter _) (hlog.filter _)).2 ?_)
  intro m
  rw [List.mem_filter, List.mem_filter]
  refine and_congr_left fun hi => ⟨hb.ledger.logged m, fun hm => ?_⟩
  refine (h.accounted m (List.mem_append_right _ hm)).resolve_right ?_
  rintro ⟨p, hp, -⟩
  exact hquiet m.worker (of_decide_eq_true hi) p hp

omit [DecidableEq W] in
/-- Nothing is counted of workers that are not at their sends. -/
theorem total_eq_zero {f : W → ℕ} (h : ∀ w, instanceOf w = i → f w = 0) :
    total instanceOf f i = 0 := by
  refine Finset.sum_eq_zero fun w hw => h w ?_
  simpa using hw

omit [DecidableEq W] [Fintype W] in
/-- What is repeated among the messages of an instance is repeated. -/
theorem sum_repeats_le [Fintype I] (instanceOf : W → I) (ms : List (Message W)) :
    ∑ i, repeats (ofInstance instanceOf i ms) ≤ repeats (ms.map Message.rowId) := by
  induction ms using List.reverseRecOn with
  | nil => exact (Finset.sum_eq_zero fun _ _ => repeats_nil).le
  | append_singleton ms m ih =>
      have hone : ∀ i, repeats (ofInstance instanceOf i (ms ++ [m])) =
          repeats (ofInstance instanceOf i ms) + if instanceOf m.worker = i then
            (if m.rowId ∈ ofInstance instanceOf i ms then 1 else 0) else 0 := by
        intro i
        rw [ofInstance_concat]
        by_cases hi : instanceOf m.worker = i
        · rw [if_pos hi, if_pos hi, repeats_concat]
        · rw [if_neg hi, if_neg hi, List.append_nil, Nat.add_zero]
      have hmem : m.rowId ∈ ofInstance instanceOf (instanceOf m.worker) ms →
          m.rowId ∈ ms.map Message.rowId := fun h =>
        (List.filter_sublist.map _).subset h
      rw [Finset.sum_congr rfl fun i _ => hone i, Finset.sum_add_distrib, Finset.sum_ite_eq,
        if_pos (Finset.mem_univ _), List.map_append, List.map_singleton, repeats_concat]
      refine Nat.add_le_add ih ?_
      split_ifs with hin hin'
      · exact le_refl 1
      · exact absurd (hmem hin) hin'
      · exact Nat.zero_le 1
      · exact le_refl 0

/-- In every run an instance counts at most as many publications and repetitions as it has put into
Kafka, and all instances together at most as many repetitions as there are. In a run in which no
send fails, no poll is rolled back at its sends and `seen` is never cleared, an instance whose
workers are not at their sends counts just what it has put into Kafka. -/
theorem republished_counts [Fintype I] (instanceOf : W → I) (props : W → OutboxProperties) :
    (∀ s, (metered instanceOf props).Reachable s →
      (∀ i, (s.counters i).republished ≤ repeats (ofInstance instanceOf i s.outbox.log) ∧
        (s.counters i).published ≤ (ofInstance instanceOf i s.outbox.log).length) ∧
      ∑ i, (s.counters i).republished ≤ repeats (s.outbox.log.map Message.rowId)) ∧
    ∀ s, (metered instanceOf props).Reaches Undisturbed s →
      ∀ i, (∀ w, instanceOf w = i → ∀ p, s.outbox.phases w ≠ .sending p) →
        (s.counters i).republished = repeats (ofInstance instanceOf i s.outbox.log) ∧
          (s.counters i).published = (ofInstance instanceOf i s.outbox.log).length := by
  constructor
  · intro s h
    obtain ⟨acks, hacks⟩ := h.exists_emits acknowledges
    have hb := bounded_of_emits hacks
    have hrepublished : ∀ i, (s.counters i).republished ≤
        repeats (ofInstance instanceOf i s.outbox.log) := fun i =>
      (Nat.le_add_right _ _).trans
        ((hb.repeated i).trans (repeats_le_of_subperm (hb.subperm i)))
    refine ⟨fun i => ⟨hrepublished i, ?_⟩, ?_⟩
    · exact (Nat.le_add_right _ _).trans ((hb.publications i).trans (hb.subperm i).length_le)
    · exact (Finset.sum_le_sum fun i _ => hrepublished i).trans (sum_repeats_le instanceOf _)
  · intro s h i hquiet
    obtain ⟨acks, hacks⟩ := h.exists_emits acknowledges
    have hb := bounded_of_emits hacks
    have hexact := exact_of_emits hacks
    have hperm := hexact.perm hb hquiet
    have hnone : ∀ w, instanceOf w = i → (s.outbox.phases w).acknowledged = 0 := by
      intro w hw
      cases hphase : s.outbox.phases w with
      | sending p => exact absurd hphase (hquiet w hw p)
      | _ => rfl
    have hlocal : total instanceOf s.republishing i = 0 :=
      total_eq_zero fun w hw => by_contra fun hne => hexact.idle w hne (hnone w hw)
    have hrepeated := hexact.repeated i
    have hpublications := hexact.publications i
    rw [Metered.repeated, hlocal, Nat.add_zero, repeats_perm hperm] at hrepeated
    rw [Metered.publications, total_eq_zero hnone, Nat.add_zero, hperm.length_eq] at hpublications
    exact ⟨hrepeated, hpublications⟩

/-- One worker, which publishes its row, skips the update and publishes the row again. -/
theorem republished_counts_twice : ∃ s : Metered (Fin 1) Unit,
    s.outbox.log.map Message.rowId = [1, 1] ∧ (s.counters ()).republished = 1 ∧
      (s.counters ()).published = 2 := by
  have h0 :
      (metered (fun _ => ()) fun _ : Fin 1 => ⟨500, mkRat 1 50, false⟩).Reaches Undisturbed _ :=
    .init
  have h1 := h0.take (.outbox (.insert "r1" "p1")) trivial rfl
  have h2 := h1.take (.outbox (.commitDecide 1)) trivial rfl
  have h3 := h2.take (.outbox (.select 0)) trivial rfl
  have h4 := h3.take (.outbox (.send 0)) trivial rfl
  have h5 := h4.take (.outbox (.store 0)) trivial rfl
  have h6 := h5.take (.outbox (.ack 0)) trivial rfl
  have h7 := h6.take (.outbox (.loopEnd 0)) trivial rfl
  have h8 := h7.take (.outbox (.skipUpdate 0 0)) trivial rfl
  have h9 := h8.take (.outbox (.select 0)) trivial rfl
  have h10 := h9.take (.outbox (.send 0)) trivial rfl
  have h11 := h10.take (.outbox (.store 1)) trivial rfl
  have h12 := h11.take (.outbox (.ack 0)) trivial rfl
  have h13 := h12.take (.outbox (.loopEnd 0)) trivial rfl
  obtain ⟨hrepublished, hpublished⟩ := (republished_counts _ _).2 _ h13 () (by
    intro w _ p hp
    obtain rfl : w = 0 := Subsingleton.elim _ _
    have hstopped : Phase.stopped _ = .sending p := hp
    cases hstopped)
  exact ⟨_, rfl, hrepublished, hpublished⟩

end

end AdPipeline.Outbox
