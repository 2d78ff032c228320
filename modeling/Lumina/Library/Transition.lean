import Mathlib.Data.List.Basic
import Mathlib.Tactic.Use

/-!
# Machines and their runs

A machine has initial states and a partial step function.  A run is a history of steps from an
initial state; the history keeps every step with the state in which it was taken, the latest
first, so that an assumption about a run may speak about each of its steps.

`Run.invariant` is the rule for a property that every step keeps, and `Run.invariant_of_guard`
the rule for a property kept by the steps that satisfy a guard.  `exec` runs a list of actions,
which is how a machine serves as an acceptor and how a concrete run is computed.
-/

namespace Transition

/-- A machine with states `σ` and actions `α`. -/
structure Machine (σ α : Type) where
  init : σ → Prop
  step : α → σ → Option σ

namespace Machine

variable {σ α : Type} (M : Machine σ α)

/-- The state after a list of actions, if all of them are possible. -/
def exec : List α → σ → Option σ
  | [], s => some s
  | a :: as, s => (M.step a s).bind (exec as)

@[simp]
theorem exec_nil (s : σ) : M.exec [] s = some s := rfl

theorem exec_cons (a : α) (as : List α) (s : σ) :
  M.exec (a :: as) s = (M.step a s).bind (M.exec as)
  := rfl

theorem exec_append (as bs : List α) (s : σ) :
  M.exec (as ++ bs) s = (M.exec as s).bind (M.exec bs)
  := by
  induction as generalizing s with
  | nil => rfl
  | cons a as ih =>
    rw [List.cons_append, exec_cons, exec_cons, Option.bind_assoc]
    congr 1
    funext t
    apply ih

@[simp]
theorem exec_singleton (a : α) (s : σ) :
  M.exec [a] s = M.step a s
  := by
  rw [exec_cons]
  cases M.step a s
  all_goals rfl

/-- The first part of an accepted list is accepted, and so is the rest from there. -/
theorem exec_append_eq_some {as bs : List α} {s u : σ} (h : M.exec (as ++ bs) s = some u) :
  ∃ t, M.exec as s = some t ∧ M.exec bs t = some u
  := by
  rw [exec_append, Option.bind_eq_some_iff] at h
  exact h

theorem exec_cons_eq_some {a : α} {as : List α} {s u : σ} (h : M.exec (a :: as) s = some u) :
  ∃ t, M.step a s = some t ∧ M.exec as t = some u
  := by
  rw [exec_cons, Option.bind_eq_some_iff] at h
  exact h

/-- The runs of a machine: a history, latest step first, and the state it leads to. -/
inductive Run : List (σ × α) → σ → Prop where
  | init {s : σ} : M.init s → Run [] s
  | step {h : List (σ × α)} {s t : σ} {a : α} :
      Run h s → M.step a s = some t → Run ((s, a) :: h) t

variable {M}

/-- A property of the initial states that every step keeps holds along every run. -/
theorem Run.invariant {I : σ → Prop} (init : ∀ s, M.init s → I s)
    (step : ∀ a s t, I s → M.step a s = some t → I t) {h : List (σ × α)} {s : σ}
    (run : M.Run h s) :
  I s
  := by
  induction run with
  | init hs => exact init _ hs
  | step _ hstep ih => exact step _ _ _ ih hstep

/-- A property that the steps within a guard keep holds along every run within the guard. -/
theorem Run.invariant_of_guard {I : σ → Prop} {G : σ → α → Prop} (init : ∀ s, M.init s → I s)
    (step : ∀ a s t, I s → G s a → M.step a s = some t → I t) {h : List (σ × α)} {s : σ}
    (run : M.Run h s) (guard : ∀ x ∈ h, G x.1 x.2) :
  I s
  := by
  induction run with
  | init hs => exact init _ hs
  | @step h s t a _ hstep ih =>
    apply step a s t
    · apply ih
      intro x hx
      exact guard x (List.mem_cons_of_mem _ hx)
    · exact guard (s, a) List.mem_cons_self
    · exact hstep

/-- The states of a history and the state it leads to. -/
def states (h : List (σ × α)) (s : σ) : List σ :=
  s :: h.map Prod.fst

/-- Each step of a run leads to a state of the run. -/
theorem Run.next {h : List (σ × α)} {s : σ} (run : M.Run h s) {x : σ × α} (hx : x ∈ h) :
  ∃ t ∈ states h s, M.step x.2 x.1 = some t
  := by
  induction run with
  | init _ => cases hx
  | @step h s t a _ hstep ih =>
    obtain rfl | hx := List.mem_cons.mp hx
    · exact ⟨t, List.mem_cons_self, hstep⟩
    · obtain ⟨u, hu, hstep'⟩ := ih hx
      exact ⟨u, List.mem_cons_of_mem _ hu, hstep'⟩

/-- A property of the initial states that every step keeps holds in all states of a run. -/
theorem Run.forall_states {I : σ → Prop} (init : ∀ s, M.init s → I s)
    (step : ∀ a s t, I s → M.step a s = some t → I t) {h : List (σ × α)} {s : σ}
    (run : M.Run h s) :
  ∀ u ∈ states h s, I u
  := by
  induction run with
  | init hs =>
    intro u hu
    rw [List.mem_singleton.mp hu]
    apply init _ hs
  | @step h s t a _ hstep ih =>
    intro u hu
    obtain rfl | hu := List.mem_cons.mp hu
    · apply step a s u _ hstep
      apply ih s List.mem_cons_self
    · apply ih u hu

/-- A property of the initial states that the steps within a guard keep holds in all states of a
run within the guard. -/
theorem Run.forall_states_of_guard {I : σ → Prop} {G : σ → α → Prop} (init : ∀ s, M.init s → I s)
    (step : ∀ a s t, I s → G s a → M.step a s = some t → I t) {h : List (σ × α)} {s : σ}
    (run : M.Run h s) (guard : ∀ x ∈ h, G x.1 x.2) :
  ∀ u ∈ states h s, I u
  := by
  induction run with
  | init hs =>
    intro u hu
    rw [List.mem_singleton.mp hu]
    apply init _ hs
  | @step h s t a _ hstep ih =>
    have before := ih fun x hx => guard x (List.mem_cons_of_mem _ hx)
    intro u hu
    obtain rfl | hu := List.mem_cons.mp hu
    · apply step a s u (before s List.mem_cons_self) _ hstep
      apply guard (s, a) List.mem_cons_self
    · apply before u hu

/-- A relation to an earlier state that the steps within a guard keep holds between each state
of a run within the guard and the last one. -/
theorem Run.forall_later {I : σ → Prop} {G : σ → α → Prop} {R : σ → σ → Prop}
    (init : ∀ s, M.init s → I s) (step : ∀ a s t, I s → G s a → M.step a s = some t → I t)
    (refl : ∀ s, R s s)
    (next : ∀ a u s t, I s → G s a → R u s → M.step a s = some t → R u t)
    {h : List (σ × α)} {s : σ} (run : M.Run h s) (guard : ∀ x ∈ h, G x.1 x.2) :
  ∀ u ∈ states h s, R u s
  := by
  induction run with
  | init _ =>
    intro u hu
    rw [List.mem_singleton.mp hu]
    apply refl
  | @step h s t a run hstep ih =>
    have before : ∀ x ∈ h, G x.1 x.2 := fun x hx => guard x (List.mem_cons_of_mem _ hx)
    intro u hu
    obtain rfl | hu := List.mem_cons.mp hu
    · apply refl
    · apply next a u s t _ _ (ih before u hu) hstep
      · apply run.invariant_of_guard init step before
      · apply guard (s, a) List.mem_cons_self

/-- A preorder relates every state of a run to every later one exactly if every step of the run
leads to a related state. -/
theorem Run.pairwise_states_iff {R : σ → σ → Prop} (refl : ∀ s, R s s)
    (trans : ∀ s t u, R s t → R t u → R s u) {h : List (σ × α)} {s : σ} (run : M.Run h s) :
  (states h s).Pairwise (fun later earlier => R earlier later) ↔
    ∀ x ∈ h, ∀ t, M.step x.2 x.1 = some t → R x.1 t
  := by
  induction run with
  | init _ =>
    constructor
    · intro _ x hx
      cases hx
    · intro _
      apply List.pairwise_singleton
  | @step h s t a run hstep ih =>
    have cons : states ((s, a) :: h) t = t :: states h s := rfl
    rw [cons, List.pairwise_cons]
    constructor
    · rintro ⟨last, before⟩ x hx u hu
      obtain rfl | hx := List.mem_cons.mp hx
      · cases hstep.symm.trans hu
        apply last s List.mem_cons_self
      · apply ih.mp before x hx u hu
    · intro steps
      have before := ih.mpr fun x hx => steps x (List.mem_cons_of_mem _ hx)
      have next : R s t := steps (s, a) List.mem_cons_self t hstep
      refine ⟨?_, before⟩
      intro u hu
      have reached : R u s := by
        obtain rfl | hu := List.mem_cons.mp hu
        · apply refl
        · apply (List.pairwise_cons.mp before).1 u hu
      apply trans u s t reached next

/-- A step of a run and a state of it, with a preorder that relates every state to the next one: the
step comes later than the state, or the state is not before what the step leads to. -/
theorem Run.before_or_after {R : σ → σ → Prop} (refl : ∀ s, R s s)
    (trans : ∀ s t u, R s t → R t u → R s u) {h : List (σ × α)} {s : σ} (run : M.Run h s)
    (next : ∀ x ∈ h, ∀ t, M.step x.2 x.1 = some t → R x.1 t) :
  ∀ x ∈ h, ∀ u ∈ states h s, R u x.1 ∨ ∃ t, M.step x.2 x.1 = some t ∧ R t u
  := by
  induction run with
  | init _ =>
    intro x hx
    cases hx
  | @step h s t a run hstep ih =>
    have before : ∀ x ∈ h, ∀ t, M.step x.2 x.1 = some t → R x.1 t :=
      fun x hx => next x (List.mem_cons_of_mem _ hx)
    have reached : ∀ u ∈ states h s, R u s := by
      have pairs := (run.pairwise_states_iff refl trans).mpr before
      intro u hu
      obtain rfl | hu := List.mem_cons.mp hu
      · apply refl
      · apply (List.pairwise_cons.mp pairs).1 u hu
    intro x hx u hu
    obtain rfl | hx := List.mem_cons.mp hx
    · obtain rfl | hu := List.mem_cons.mp hu
      · right
        exact ⟨u, hstep, refl u⟩
      · left
        apply reached u hu
    · obtain rfl | hu := List.mem_cons.mp hu
      · obtain ⟨v, hv, hstep'⟩ := run.next hx
        right
        refine ⟨v, hstep', trans v s u (reached v hv) ?_⟩
        apply next (s, a) List.mem_cons_self u hstep
      · apply ih before x hx u hu

/-- A property that a step keeps exactly when it satisfies a guard holds in all states of a run
exactly when all steps of the run satisfy the guard.  The steps may be taken to start from
states that satisfy an invariant `W`. -/
theorem Run.forall_states_iff {W P : σ → Prop} {G : σ → α → Prop}
    (init : ∀ s, M.init s → W s ∧ P s) (keep : ∀ a s t, W s → M.step a s = some t → W t)
    (step : ∀ a s t, W s → P s → M.step a s = some t → (P t ↔ G s a)) {h : List (σ × α)} {s : σ}
    (run : M.Run h s) :
  (∀ u ∈ states h s, P u) ↔ ∀ x ∈ h, G x.1 x.2
  := by
  induction run with
  | init hs =>
    constructor
    · intro _ x hx
      cases hx
    · intro _ u hu
      rw [List.mem_singleton.mp hu]
      apply (init _ hs).2
  | @step h s t a run hstep ih =>
    have hW : W s := run.invariant (fun s hs => (init s hs).1) keep
    constructor
    · intro hP x hx
      have before : ∀ u ∈ states h s, P u := fun u hu => hP u (List.mem_cons_of_mem _ hu)
      obtain rfl | hx := List.mem_cons.mp hx
      · apply (step a s t hW (before s List.mem_cons_self) hstep).mp
        apply hP t List.mem_cons_self
      · apply ih.mp before x hx
    · intro hG u hu
      have before : ∀ u ∈ states h s, P u :=
        ih.mpr fun x hx => hG x (List.mem_cons_of_mem _ hx)
      obtain rfl | hu := List.mem_cons.mp hu
      · apply (step a s u hW (before s List.mem_cons_self) hstep).mpr
        apply hG (s, a) List.mem_cons_self
      · apply before u hu

/-- A list of actions that is possible from an initial state leads to the end of a run. -/
theorem Run.of_exec {as : List α} {h : List (σ × α)} {s t : σ} (run : M.Run h s)
    (hexec : M.exec as s = some t) :
  ∃ h', M.Run h' t
  := by
  induction as generalizing h s with
  | nil =>
    cases hexec
    use h
  | cons a as ih =>
    obtain ⟨u, hstep, hrest⟩ := M.exec_cons_eq_some hexec
    apply ih (run.step hstep) hrest

/-- A computed run that ends in a state with a property. -/
theorem exists_run_of_exec (as : List α) (p : σ → Bool) {s : σ} (hs : M.init s)
    (hexec : (M.exec as s).any p = true) :
  ∃ h t, M.Run h t ∧ p t = true
  := by
  rw [Option.any_eq_true] at hexec
  obtain ⟨t, hexec, hp⟩ := hexec
  obtain ⟨h, run⟩ := (Run.init hs).of_exec hexec
  exact ⟨h, t, run, hp⟩

/-- The state after a list of actions, if all of them are possible and satisfy a guard. -/
def execWhile (g : σ → α → Bool) : List α → σ → Option σ
  | [], s => some s
  | a :: as, s => if g s a then (M.step a s).bind (execWhile g as) else none

/-- The actions of a guarded execution lead to the end of a run within the guard. -/
theorem Run.of_execWhile {g : σ → α → Bool} {as : List α} {h : List (σ × α)} {s t : σ}
    (run : M.Run h s) (guard : ∀ x ∈ h, g x.1 x.2 = true) (hexec : M.execWhile g as s = some t) :
  ∃ h', M.Run h' t ∧ h'.map Prod.snd = as.reverse ++ h.map Prod.snd ∧
    ∀ x ∈ h', g x.1 x.2 = true
  := by
  induction as generalizing h s with
  | nil =>
    cases hexec
    use h, run, rfl
  | cons a as ih =>
    rw [execWhile] at hexec
    split at hexec
    next ha =>
      rw [Option.bind_eq_some_iff] at hexec
      obtain ⟨u, hstep, hrest⟩ := hexec
      have guard' : ∀ x ∈ (s, a) :: h, g x.1 x.2 = true := by
        intro x hx
        obtain rfl | hx := List.mem_cons.mp hx
        · apply ha
        · apply guard x hx
      obtain ⟨h', run', actions, guard'⟩ := ih (run.step hstep) guard' hrest
      refine ⟨h', run', ?_, guard'⟩
      rw [actions, List.reverse_cons, List.append_assoc]
      rfl
    next => cases hexec

/-- A computed run within a guard that ends in a state with a property, and its actions. -/
theorem exists_history_of_execWhile (as : List α) (g : σ → α → Bool) (p : σ → Bool) {s : σ}
    (hs : M.init s) (hexec : (M.execWhile g as s).any p = true) :
  ∃ h t, M.Run h t ∧ h.map Prod.snd = as.reverse ∧ (∀ x ∈ h, g x.1 x.2 = true) ∧ p t = true
  := by
  rw [Option.any_eq_true] at hexec
  obtain ⟨t, hexec, hp⟩ := hexec
  obtain ⟨h, run, actions, guard⟩ := (Run.init hs).of_execWhile nofun hexec
  rw [List.map_nil, List.append_nil] at actions
  exact ⟨h, t, run, actions, guard, hp⟩

/-- A computed run within a guard that ends in a state with a property. -/
theorem exists_run_of_execWhile (as : List α) (g : σ → α → Bool) (p : σ → Bool) {s : σ}
    (hs : M.init s) (hexec : (M.execWhile g as s).any p = true) :
  ∃ h t, M.Run h t ∧ (∀ x ∈ h, g x.1 x.2 = true) ∧ p t = true
  := by
  obtain ⟨h, t, run, -, guard, hp⟩ := M.exists_history_of_execWhile as g p hs hexec
  exact ⟨h, t, run, guard, hp⟩

end Machine

end Transition
