import Mathlib.Tactic

set_option autoImplicit false

namespace Transition

variable {σ α : Type}

/-- The events, oldest first, take the first state to the second. -/
inductive Run (step : σ → α → σ → Prop) : σ → List α → σ → Prop where
  | nil (s : σ) : Run step s [] s
  | snoc {s t u : σ} {as : List α} {a : α} :
      Run step s as t → step t a u → Run step s (as ++ [a]) u

/-- The steps taken from a state and with an event that meet `C`. -/
def Restrict (C : σ → α → Prop) (step : σ → α → σ → Prop) : σ → α → σ → Prop :=
  fun s a t => C s a ∧ step s a t

theorem Run.invariant {step : σ → α → σ → Prop} {P : σ → Prop} {s t : σ} {as : List α}
    (h : Run step s as t) (h₀ : P s) (hstep : ∀ t a u, P t → step t a u → P u) : P t := by
  induction h with
  | nil => exact h₀
  | snoc _ ha ih => exact hstep _ _ _ ih ha

theorem Run.mono {step step' : σ → α → σ → Prop} {s t : σ} {as : List α} (h : Run step s as t)
    (hle : ∀ s a t, step s a t → step' s a t) : Run step' s as t := by
  induction h with
  | nil => exact .nil _
  | snoc _ ha ih => exact .snoc ih (hle _ _ _ ha)

theorem Run.cons {step : σ → α → σ → Prop} {s t u : σ} {a : α} {as : List α} (ha : step s a t)
    (h : Run step t as u) : Run step s (a :: as) u := by
  induction h with
  | nil => exact .snoc (.nil s) ha
  | snoc _ hb ih => exact .snoc ih hb

theorem Run.append {step : σ → α → σ → Prop} {s t u : σ} {as bs : List α} (h : Run step s as t)
    (h' : Run step t bs u) : Run step s (as ++ bs) u := by
  induction h' with
  | nil => simpa using h
  | snoc _ hb ih =>
    rw [← List.append_assoc]
    exact .snoc ih hb

/-! What holds at every call of a run. -/

section Calls

variable {P : List α → α → Prop} {as : List α}

theorem forall_call_nil : ∀ before a, before ++ [a] <+: ([] : List α) → P before a := by
  intro before a hbefore
  exact absurd (List.prefix_nil.mp hbefore)
    (List.append_ne_nil_of_right_ne_nil _ (List.cons_ne_nil _ _))

theorem forall_call_concat {a : α} : (∀ before b, before ++ [b] <+: as ++ [a] → P before b) ↔
    (∀ before b, before ++ [b] <+: as → P before b) ∧ P as a := by
  constructor
  · intro hall
    exact ⟨fun before b hbefore => hall before b (hbefore.trans (List.prefix_append _ _)),
      hall as a List.prefix_rfl⟩
  · rintro ⟨hall, hlast⟩ before b hbefore
    rcases List.prefix_concat_iff.mp hbefore with heq | hold
    · obtain ⟨rfl, hb⟩ := List.append_inj' heq rfl
      obtain rfl := List.singleton_inj.mp hb
      exact hlast
    · exact hall before b hold

theorem forall_call_of_take (h : ∀ i, i < as.length → ∀ a ∈ as[i]?, P (as.take i) a) :
    ∀ before a, before ++ [a] <+: as → P before a := by
  rintro before a ⟨after, rfl⟩
  have ha := h before.length (by simp) a (by simp)
  simpa using ha

end Calls

theorem forall_prefix_concat {P : List α → Prop} {as : List α} {a : α} :
    (∀ before, before <+: as ++ [a] → P before) ↔
      (∀ before, before <+: as → P before) ∧ P (as ++ [a]) := by
  constructor
  · intro hall
    exact ⟨fun before hbefore => hall before (hbefore.trans (List.prefix_append _ _)),
      hall _ List.prefix_rfl⟩
  · rintro ⟨hall, hlast⟩ before hbefore
    rcases List.prefix_concat_iff.mp hbefore with rfl | hold
    · exact hlast
    · exact hall before hold

/-! Runs of a transition function. -/

section Function

variable {next : σ → α → σ} {init : σ} {as : List α} {I G : σ → Prop} {P C : σ → α → Prop}

theorem foldl_prefix_invariant (h₀ : I init) (hstep : ∀ s a, I s → P s a → I (next s a))
    (hok : ∀ before a, before ++ [a] <+: as → P (before.foldl next init) a) {before : List α}
    (hbefore : before <+: as) : I (before.foldl next init) := by
  induction before using List.reverseRecOn with
  | nil => exact h₀
  | append_singleton before a ih =>
    rw [List.foldl_append]
    exact hstep _ _ (ih ((List.prefix_append before [a]).trans hbefore)) (hok before a hbefore)

/-- Where the invariant gives the property, is kept by the calls that meet `C`, and the property is
lost by every other one: all states have the property exactly if all calls meet `C`. -/
theorem foldl_prefix_iff (h₀ : I init) (hgood : ∀ s, I s → G s)
    (hstep : ∀ s a, I s → P s a → C s a → I (next s a))
    (honly : ∀ s a, I s → P s a → G (next s a) → C s a)
    (hok : ∀ before a, before ++ [a] <+: as → P (before.foldl next init) a) :
    (∀ before, before <+: as → G (before.foldl next init)) ↔
      ∀ before a, before ++ [a] <+: as → C (before.foldl next init) a := by
  have hafter (before : List α) (a : α) :
      (before ++ [a]).foldl next init = next (before.foldl next init) a := by
    rw [List.foldl_append]
    rfl
  constructor
  · intro hall before a hbefore
    have hfirst := (List.prefix_append before [a]).trans hbefore
    have hinv := foldl_prefix_invariant (P := fun s a => P s a ∧ G (next s a)) h₀
      (fun s a hI h => hstep s a hI h.1 (honly s a hI h.1 h.2))
      (fun before a hb => ⟨hok before a hb, hafter before a ▸ hall _ hb⟩) hfirst
    exact honly _ _ hinv (hok before a hbefore) (hafter before a ▸ hall _ hbefore)
  · intro hall before hbefore
    exact hgood _ (foldl_prefix_invariant (P := fun s a => P s a ∧ C s a) h₀
      (fun s a hI h => hstep s a hI h.1 h.2)
      (fun before a hb => ⟨hok before a hb, hall before a hb⟩) hbefore)

end Function

theorem foldl_range_invariant {P : Nat → σ → Prop} {step : σ → Nat → σ} {n : Nat} {s : σ}
    (h₀ : P 0 s) (hstep : ∀ k < n, ∀ t, P k t → P (k + 1) (step t k)) :
    P n ((List.range n).foldl step s) := by
  induction n with
  | zero => exact h₀
  | succ n ih =>
    rw [List.range_succ, List.foldl_append]
    exact hstep n (Nat.lt_succ_self n) _ (ih fun k hk => hstep k (Nat.lt_succ_of_lt hk))

end Transition
