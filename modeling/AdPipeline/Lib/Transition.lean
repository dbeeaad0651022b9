import Mathlib.Data.List.Induction

/-!
# Transition systems with a partial step function

A `System` is an initial state and a step function that is undefined where an action is not
enabled. Several parties interleave by giving each action the name of its party, so that a list of
actions is one interleaving.

There are three views of a run. `Reaches ok` is the set of states reached by steps that each satisfy
a side condition `ok`, and carries the invariant rule. `run` follows a list of actions, and its rule
`run_invariant` is for facts that relate the state to the actions taken so far. `exists_run_until`
is the rule for progress. `Emits` keeps what the steps of a run put out next to the state.
-/

namespace AdPipeline.Lib

/-- An initial state and a step function, undefined on actions that are not enabled. -/
structure System (σ α : Type*) where
  init : σ
  step : σ → α → Option σ

namespace System

variable {σ α : Type*} (S : System σ α)

/-! ## Reachable states -/

/-- The states reached from the initial one by steps that satisfy `ok` where they are taken. -/
inductive Reaches (ok : σ → α → Prop) : σ → Prop
  | init : Reaches ok S.init
  | step {s t : σ} {a : α} : Reaches ok s → ok s a → S.step s a = some t → Reaches ok t

/-- The states reached by any steps at all. -/
def Reachable : σ → Prop := S.Reaches fun _ _ => True

variable {S}

/-- A property of the initial state that every allowed step keeps holds in every state reached.
The step may use that its source is itself reached. -/
theorem Reaches.invariant {ok : σ → α → Prop} {I : σ → Prop} (h0 : I S.init)
    (hstep : ∀ s a t, S.Reaches ok s → I s → ok s a → S.step s a = some t → I t)
    {s : σ} (h : S.Reaches ok s) : I s := by
  induction h with
  | init => exact h0
  | step hs hok hst ih => exact hstep _ _ _ hs ih hok hst

/-- One more step by a named action. -/
theorem Reaches.take {ok : σ → α → Prop} {s t : σ} (h : S.Reaches ok s) (a : α) (hok : ok s a)
    (hst : S.step s a = some t) : S.Reaches ok t :=
  .step h hok hst

/-- Restricting the steps restricts the states. -/
theorem Reaches.mono {ok ok' : σ → α → Prop} (himp : ∀ s a, ok s a → ok' s a) {s : σ}
    (h : S.Reaches ok s) : S.Reaches ok' s := by
  induction h with
  | init => exact .init
  | step _ hok hst ih => exact .step ih (himp _ _ hok) hst

theorem Reaches.reachable {ok : σ → α → Prop} {s : σ} (h : S.Reaches ok s) : S.Reachable s :=
  h.mono fun _ _ _ => trivial

theorem Reachable.step {s t : σ} {a : α} (h : S.Reachable s) (hst : S.step s a = some t) :
    S.Reachable t :=
  Reaches.step h trivial hst

/-- The invariant rule for unrestricted runs. -/
theorem Reachable.invariant {I : σ → Prop} (h0 : I S.init)
    (hstep : ∀ s a t, I s → S.step s a = some t → I t) {s : σ} (h : S.Reachable s) : I s :=
  Reaches.invariant h0 (fun s a t _ hs _ hst => hstep s a t hs hst) h

/-! ## Runs of a list of actions -/

variable (S)

/-- The state after a list of actions, `none` when one of them is not enabled. -/
def run (s : σ) : List α → Option σ
  | [] => some s
  | a :: as => (S.step s a).bind fun t => run t as

variable {S}

@[simp] theorem run_nil (s : σ) : S.run s [] = some s := rfl

theorem run_cons (s : σ) (a : α) (as : List α) :
    S.run s (a :: as) = (S.step s a).bind fun t => S.run t as := rfl

theorem run_append (s : σ) (as bs : List α) :
    S.run s (as ++ bs) = (S.run s as).bind fun t => S.run t bs := by
  induction as generalizing s with
  | nil => rfl
  | cons a as ih =>
      rw [List.cons_append, run_cons, run_cons, Option.bind_assoc]
      congr 1
      funext t
      exact ih t

/-- A run that takes one more action is a shorter run followed by a step. -/
theorem run_concat {s u : σ} {as : List α} {a : α} :
    S.run s (as ++ [a]) = some u ↔ ∃ t, S.run s as = some t ∧ S.step t a = some u := by
  rw [run_append, Option.bind_eq_some_iff]
  refine exists_congr fun t => and_congr_right fun _ => ?_
  simp [run_cons]

/-- The invariant rule for facts about the state and the actions taken to reach it. -/
theorem run_invariant {I : List α → σ → Prop} {s₀ : σ} (h0 : I [] s₀)
    (hstep : ∀ as s a t, S.run s₀ as = some s → I as s → S.step s a = some t → I (as ++ [a]) t)
    {as : List α} {s : σ} (h : S.run s₀ as = some s) : I as s := by
  induction as using List.reverseRecOn generalizing s with
  | nil =>
      obtain rfl : s₀ = s := by simpa using h
      exact h0
  | append_singleton as a ih =>
      obtain ⟨t, ht, hst⟩ := run_concat.1 h
      exact hstep as t a s ht (ih ht) hst

/-- A measure that every step lowers bounds the length of a run. -/
theorem run_length_le (m : σ → ℕ) (hstep : ∀ s a t, S.step s a = some t → m t < m s) {s t : σ}
    {as : List α} (h : S.run s as = some t) : as.length + m t ≤ m s := by
  induction as generalizing s with
  | nil =>
      obtain rfl : s = t := by simpa using h
      simp
  | cons a as ih =>
      rw [run_cons] at h
      obtain ⟨u, hu, hrest⟩ := Option.bind_eq_some_iff.1 h
      have hlt := hstep s a u hu
      have hle := ih hrest
      rw [List.length_cons]
      omega

/-- The progress rule: while `Q` does not hold, one of the allowed actions keeps `P` and lowers a
measure. Then allowed actions lead to where `Q` holds. -/
theorem exists_run_until (m : σ → ℕ) {ok : α → Prop} {P Q : σ → Prop}
    (hstep : ∀ s, P s → ¬ Q s → ∃ a t, ok a ∧ S.step s a = some t ∧ P t ∧ m t < m s) {s : σ}
    (h : P s) : ∃ as t, S.run s as = some t ∧ (∀ a ∈ as, ok a) ∧ P t ∧ Q t := by
  induction hn : m s using Nat.strongRecOn generalizing s with
  | _ n ih =>
      by_cases hQ : Q s
      · exact ⟨[], s, rfl, fun _ ha => absurd ha List.not_mem_nil, h, hQ⟩
      · obtain ⟨a, t, ha, hst, ht, hlt⟩ := hstep s h hQ
        obtain ⟨as, u, hrun, has, hu⟩ := ih (m t) (hn ▸ hlt) ht rfl
        refine ⟨a :: as, u, ?_, List.forall_mem_cons.2 ⟨ha, has⟩, hu⟩
        rw [run_cons, hst]
        exact hrun

/-- Every state a run passes through is reachable. -/
theorem reachable_of_run {as : List α} {s : σ} (h : S.run S.init as = some s) : S.Reachable s :=
  run_invariant (I := fun _ s => S.Reachable s) .init (fun _ _ _ _ _ hs hst => hs.step hst) h

/-- Every reachable state is the end of a run. -/
theorem Reachable.exists_run {s : σ} (h : S.Reachable s) : ∃ as, S.run S.init as = some s := by
  induction h with
  | init => exact ⟨[], rfl⟩
  | @step s t a _ _ hst ih =>
      obtain ⟨as, has⟩ := ih
      exact ⟨as ++ [a], run_concat.2 ⟨s, has, hst⟩⟩

/-! ## Runs with outputs -/

variable (S) in
/-- The states reached by steps that satisfy `ok`, each with what the steps to it have put out, in
their order. -/
inductive Emits {β : Type*} (ok : σ → α → Prop) (out : σ → α → List β) : σ → List β → Prop
  | init : Emits ok out S.init []
  | step {s t : σ} {a : α} {outs : List β} : Emits ok out s outs → ok s a → S.step s a = some t →
      Emits ok out t (outs ++ out s a)

section Emits

variable {β : Type*} {ok : σ → α → Prop} {out : σ → α → List β} {s : σ} {outs : List β}

theorem Emits.reaches (h : S.Emits ok out s outs) : S.Reaches ok s := by
  induction h with
  | init => exact .init
  | step _ hok hst ih => exact ih.step hok hst

/-- Every state reached has some outputs. -/
theorem Reaches.exists_emits (out : σ → α → List β) (h : S.Reaches ok s) :
    ∃ outs, S.Emits ok out s outs := by
  induction h with
  | init => exact ⟨[], .init⟩
  | step _ hok hst ih =>
      obtain ⟨outs, houts⟩ := ih
      exact ⟨_, houts.step hok hst⟩

/-- The invariant rule for facts that relate the state to the outputs. -/
theorem Emits.invariant {I : σ → List β → Prop} (h0 : I S.init [])
    (hstep : ∀ s a t outs, S.Emits ok out s outs → I s outs → ok s a → S.step s a = some t →
      I t (outs ++ out s a)) (h : S.Emits ok out s outs) : I s outs := by
  induction h with
  | init => exact h0
  | step hs hok hst ih => exact hstep _ _ _ _ hs ih hok hst

/-- One more step by a named action, with what it puts out. -/
theorem Emits.take {t : σ} (h : S.Emits ok out s outs) (a : α) (hok : ok s a)
    (hst : S.step s a = some t) {outs' : List β} (houts : outs ++ out s a = outs') :
    S.Emits ok out t outs' :=
  houts ▸ h.step hok hst

end Emits

end System

/-! ## Items in flight -/

/-- Erasing the first item that satisfies a test takes out the item found by that test. -/
theorem perm_cons_eraseP {β : Type*} {items : List β} {p : β → Bool} {x : β}
    (h : items.find? p = some x) : items.Perm (x :: items.eraseP p) := by
  obtain ⟨hp, as, bs, rfl, has⟩ := List.find?_eq_some_iff_append.1 h
  rw [List.eraseP_append_right _ fun a ha => by simpa using has a ha,
    List.eraseP_cons_of_pos hp]
  exact List.perm_middle

/-- Taking the item found by a test to the end of the next list moves it. -/
theorem perm_move {β : Type*} {items next : List β} {p : β → Bool} {x : β}
    (h : items.find? p = some x) : (items.eraseP p ++ (next ++ [x])).Perm (items ++ next) := by
  refine List.Perm.trans ?_ ((perm_cons_eraseP h).symm.append_right next)
  rw [← List.append_assoc]
  exact List.perm_append_singleton x _

end AdPipeline.Lib
