import Mathlib.Data.List.Basic

/-!
Machines whose steps are labelled with what the environment does, may be
refused, and emit events. A run keeps the labels, the state reached and the
events in order, so that a property of a run can speak of its whole history.
-/

structure Machine (σ α ε : Type) where
  step : σ → α → Option (σ × List ε)

namespace Machine

variable {σ α ε : Type}

/-- Runs from `s` in which every step meets the condition `C`, which sees the
state before the step and its label. -/
inductive Run (m : Machine σ α ε) (C : σ → α → Prop) (s : σ) :
    List α → σ → List ε → Prop
  | nil : Run m C s [] s []
  | snoc {labels : List α} {t u : σ} {events emitted : List ε} {a : α} :
      Run m C s labels t events → C t a → m.step t a = some (u, emitted) →
      Run m C s (labels ++ [a]) u (events ++ emitted)

variable {m : Machine σ α ε} {C : σ → α → Prop} {s t : σ}
  {labels : List α} {events : List ε}

/-- What holds at the start and is kept by every step holds after every run. -/
theorem Run.invariant (I : List α → σ → List ε → Prop) (hinit : I [] s [])
    (hstep : ∀ labels t u events emitted a, I labels t events → C t a →
      m.step t a = some (u, emitted) → I (labels ++ [a]) u (events ++ emitted))
    (hrun : m.Run C s labels t events) : I labels t events := by
  induction hrun with
  | nil => exact hinit
  | snoc _ hcond hs ih => exact hstep _ _ _ _ _ _ ih hcond hs

/-- A forward simulation: a step is matched by a step of another machine with the
same events, or it is silent and matched by none. -/
theorem Run.simulate {τ β : Type} {n : Machine τ β ε} (R : σ → τ → Prop)
    (hstep : ∀ s t a s' emitted, R s t → C s a → m.step s a = some (s', emitted) →
      (∃ b t', n.step t b = some (t', emitted) ∧ R s' t') ∨ emitted = [] ∧ R s' t)
    {t₀ : τ} (hrel : R s t₀) (hrun : m.Run C s labels t events) :
    ∃ labels' u, n.Run (fun _ _ => True) t₀ labels' u events ∧ R t u := by
  induction hrun with
  | nil => exact ⟨[], t₀, Run.nil, hrel⟩
  | snoc _ hcond hs ih =>
      obtain ⟨labels', u, hmatched, hu⟩ := ih
      rcases hstep _ _ _ _ _ hu hcond hs with ⟨b, u', hb, hu'⟩ | ⟨rfl, hu'⟩
      · exact ⟨labels' ++ [b], u', Run.snoc hmatched trivial hb, hu'⟩
      · rw [List.append_nil]
        exact ⟨labels', u, hmatched, hu'⟩

/-- Run a list of labels, if none of its steps is refused. -/
def exec (m : Machine σ α ε) : σ → List α → Option (σ × List ε)
  | s, [] => some (s, [])
  | s, a :: rest => do
      let (t, emitted) ← m.step s a
      let (u, events) ← exec m t rest
      pure (u, emitted ++ events)

/-- A run may also be built from its first step. -/
theorem Run.cons {u : σ} {emitted : List ε} {a : α} (hcond : C s a)
    (hs : m.step s a = some (u, emitted)) (hrun : m.Run C u labels t events) :
    m.Run C s (a :: labels) t (emitted ++ events) := by
  induction hrun with
  | nil => simpa using Run.snoc Run.nil hcond hs
  | snoc _ hc hst ih =>
      rw [← List.append_assoc]
      exact Run.snoc ih hc hst

theorem Run.weaken {D : σ → α → Prop} (hcond : ∀ s a, C s a → D s a)
    (hrun : m.Run C s labels t events) : m.Run D s labels t events := by
  induction hrun with
  | nil => exact Run.nil
  | snoc _ hc hs ih => exact Run.snoc ih (hcond _ _ hc) hs

/-- A run may be carried on by another. -/
theorem Run.trans {u : σ} {labels' : List α} {events' : List ε} (hfirst : m.Run C s labels t events)
    (hthen : m.Run C t labels' u events') :
    m.Run C s (labels ++ labels') u (events ++ events') := by
  induction hthen with
  | nil => simpa using hfirst
  | snoc _ hcond hs ih =>
      rw [← List.append_assoc, ← List.append_assoc]
      exact Run.snoc ih hcond hs

theorem run_of_exec (hexec : m.exec s labels = some (t, events)) :
    m.Run (fun _ _ => True) s labels t events := by
  induction labels generalizing s events with
  | nil =>
      cases hexec
      exact Run.nil
  | cons a rest ih =>
      simp only [exec, bind, Option.bind] at hexec
      split at hexec
      · cases hexec
      rename_i first hfirst
      obtain ⟨u, emitted⟩ := first
      simp only at hexec
      split at hexec
      · cases hexec
      rename_i last hlast
      obtain ⟨v, later⟩ := last
      cases hexec
      exact Run.cons trivial hfirst (ih hlast)

/-- The first step of an execution, and the rest. -/
theorem exec_cons_inv {a : α} (hexec : m.exec s (a :: labels) = some (t, events)) :
    ∃ u emitted later, m.step s a = some (u, emitted) ∧ m.exec u labels = some (t, later) ∧
      events = emitted ++ later := by
  simp only [exec] at hexec
  obtain ⟨⟨u, emitted⟩, hfirst, hexec⟩ := Option.bind_eq_some_iff.mp hexec
  obtain ⟨⟨v, later⟩, hlast, hexec⟩ := Option.bind_eq_some_iff.mp hexec
  cases hexec
  exact ⟨u, emitted, later, hfirst, hlast, rfl⟩

/-- What is left to do after the first labels. -/
theorem exec_append (hexec : m.exec s labels = some (t, events)) (more : List α) :
    m.exec s (labels ++ more) = (m.exec t more).map fun x => (x.1, events ++ x.2) := by
  induction labels generalizing s events with
  | nil =>
      cases hexec
      simp
  | cons a rest ih =>
      obtain ⟨u, emitted, later, hfirst, hlast, rfl⟩ := exec_cons_inv hexec
      rw [List.cons_append]
      simp only [exec, hfirst, ih hlast, Option.bind_eq_bind, Option.bind_some]
      cases m.exec t more <;> simp

/-- A run is an execution of its labels. -/
theorem Run.exec (hrun : m.Run C s labels t events) : m.exec s labels = some (t, events) := by
  induction hrun with
  | nil => rfl
  | snoc _ _ hs ih =>
      rw [exec_append ih]
      simp [Machine.exec, hs]

/-! Runs without some of their steps. -/

section Without

end Without

/-- A bisimulation: in related states two machines take or refuse the same
labels, with the same events. -/
theorem exec_related {τ : Type} {n : Machine τ α ε} (R : σ → τ → Prop)
    (hstep : ∀ s t a, R s t →
      Option.Rel (fun x y => R x.1 y.1 ∧ x.2 = y.2) (m.step s a) (n.step t a))
    {t : τ} (hrel : R s t) (labels : List α) :
    Option.Rel (fun x y => R x.1 y.1 ∧ x.2 = y.2) (m.exec s labels) (n.exec t labels) := by
  induction labels generalizing s t with
  | nil => exact Option.Rel.some ⟨hrel, rfl⟩
  | cons a rest ih =>
      have hfirst := hstep s t a hrel
      simp only [exec]
      generalize m.step s a = x, n.step t a = y at hfirst
      cases hfirst with
      | none => exact Option.Rel.none
      | some hfirst =>
          have hrest := ih hfirst.1
          simp only [Option.bind_eq_bind, Option.bind_some]
          generalize m.exec _ rest = x', n.exec _ rest = y' at hrest
          cases hrest with
          | none => exact Option.Rel.none
          | some hrest =>
              refine Option.Rel.some ⟨hrest.1, ?_⟩
              dsimp only
              rw [hfirst.2, hrest.2]

/-- The machine that refuses the steps outside a condition. -/
def restrict (m : Machine σ α ε) (C : σ → α → Prop) [∀ s a, Decidable (C s a)] :
    Machine σ α ε where
  step s a := if C s a then m.step s a else none

theorem run_of_exec_restrict [∀ s a, Decidable (C s a)]
    (hexec : (m.restrict C).exec s labels = some (t, events)) :
    m.Run C s labels t events := by
  have hrun := run_of_exec hexec
  clear hexec
  induction hrun with
  | nil => exact Run.nil
  | snoc _ _ hs ih =>
      simp only [restrict] at hs
      split at hs
      · rename_i hcond
        exact Run.snoc ih hcond hs
      · cases hs

/-! The states that a run passes through. -/

section Visited

variable [DecidableEq σ] {start : σ} {state state' : Nat → σ}

/-- The distinct states, one after the other, up to step `n` of a run that
starts in `start` and is in `state i` after step `i`. -/
def visited (start : σ) (state : Nat → σ) : Nat → List σ
  | 0 => if state 0 = start then [start] else [start, state 0]
  | n + 1 =>
      if state (n + 1) = state n then visited start state n
      else visited start state n ++ [state (n + 1)]

theorem visited_congr {n : Nat} (hsame : ∀ i ≤ n, state' i = state i) :
    visited start state' n = visited start state n := by
  induction n with
  | zero => simp only [visited, hsame 0 (Nat.le_refl 0)]
  | succ n ih =>
      simp only [visited, hsame (n + 1) (Nat.le_refl _), hsame n (Nat.le_succ n),
        ih fun i hi => hsame i (Nat.le_succ_of_le hi)]

/-- A run that rests from step `k` on visits nothing more. -/
theorem visited_rest {k m : Nat} (hrest : ∀ i ≤ m, state (k + i) = state k) :
    visited start state (k + m) = visited start state k := by
  induction m with
  | zero => rfl
  | succ m ih =>
      have hlast : state (k + m + 1) = state (k + m) :=
        (hrest (m + 1) (Nat.le_refl _)).trans (hrest m (Nat.le_succ m)).symm
      rw [← Nat.add_assoc, visited, if_pos hlast]
      exact ih fun i hi => hrest i (Nat.le_succ_of_le hi)

/-- A run that rests for `m` steps and then goes on as another one visits the
same states. -/
theorem visited_pause {k m : Nat} (hbefore : ∀ i ≤ k, state' i = state i)
    (hrest : ∀ i ≤ m, state' (k + i) = state k)
    (hafter : ∀ i, state' (k + m + i) = state (k + i)) (n : Nat) :
    visited start state' (k + m + n) = visited start state (k + n) := by
  induction n with
  | zero =>
      have hpaused : ∀ i ≤ m, state' (k + i) = state' k := fun i hi =>
        (hrest i hi).trans (hbefore k (Nat.le_refl k)).symm
      rw [Nat.add_zero, Nat.add_zero, visited_rest hpaused, visited_congr hbefore]
  | succ n ih =>
      have hnext := hafter (n + 1)
      rw [← Nat.add_assoc, ← Nat.add_assoc] at hnext ⊢
      simp only [visited, hnext, hafter n, ih]

end Visited

end Machine
