import Mathlib.Data.List.Basic

/-!
# Computations that await

A computation of an `Await` type has variables, and performs operations one after the other.
Each operation may be hit by a fault: it raises before its effect takes place, or after.  The
effects themselves are kept as a log of the operations performed.  Which faults occur is
decided by an oracle, which sees the log and the next operation, so that a statement about
every oracle is a statement about every point at which an operation may raise.

`Triple o P m Q` is the Hoare triple of such a computation: `P` speaks about the variables and
the log before, and `Q` about the result, the variables and the log after.
-/

namespace Await

/-- What happens to an operation: nothing, or an exception before or after its effect. -/
inductive Fault (ε : Type) where
  | none
  | before (e : ε)
  | after (e : ε)
deriving DecidableEq

/-- The exception of a fault. -/
def Fault.exn {ε : Type} : Fault ε → Option ε
  | none => .none
  | before e => some e
  | after e => some e

/-- The outcome of something that may raise. -/
def outcome {ε : Type} : Option ε → Except ε Unit
  | none => .ok ()
  | some e => .error e

/-- An operation that was performed, the place in the program where it was, and its fault. -/
structure Entry (Op Site ε : Type) where
  op : Op
  site : Site
  fault : Fault ε
deriving DecidableEq

variable {Op Site ε σ α β : Type}

/-- The effect of an entry took place. -/
def Entry.committed (x : Entry Op Site ε) : Bool :=
  match x.fault with
  | .before _ => false
  | _ => true

/-- The operations of a log whose effects took place, in order. -/
def effects (log : List (Entry Op Site ε)) : List Op :=
  (log.filter Entry.committed).map Entry.op

@[simp]
theorem effects_nil : effects ([] : List (Entry Op Site ε)) = [] := rfl

@[simp]
theorem effects_append (log log' : List (Entry Op Site ε)) :
  effects (log ++ log') = effects log ++ effects log'
  := by
  simp [effects]

@[simp]
theorem effects_none (op : Op) (site : Site) :
  effects [(⟨op, site, .none⟩ : Entry Op Site ε)] = [op]
  := rfl

@[simp]
theorem effects_before (op : Op) (site : Site) (e : ε) :
  effects [⟨op, site, .before e⟩] = []
  := rfl

@[simp]
theorem effects_after (op : Op) (site : Site) (e : ε) :
  effects [⟨op, site, .after e⟩] = [op]
  := rfl

/-- The faults that the operations meet. -/
abbrev Oracle (Op Site ε : Type) : Type :=
  List (Entry Op Site ε) → Op → Fault ε

/-- The variables of a computation, and the log so far. -/
structure World (Op Site ε σ : Type) where
  vars : σ
  log : List (Entry Op Site ε)

end Await

/-- A computation that awaits: under an oracle and from a world, a value or an exception, and
the world afterwards.  What is in the log stays there. -/
structure Await (Op Site ε σ α : Type) where
  run : Await.Oracle Op Site ε → Await.World Op Site ε σ →
    Except ε α × Await.World Op Site ε σ
  extends_log : ∀ o w, w.log <+: (run o w).2.log

namespace Await

variable {Op Site ε σ α β : Type}

/-! ### Computations -/

/-- The computation that returns. -/
def ret (a : α) : Await Op Site ε σ α where
  run _ w := (.ok a, w)
  extends_log _ w := w.log.prefix_refl

/-- The computation that raises. -/
def raise (e : ε) : Await Op Site ε σ α where
  run _ w := (.error e, w)
  extends_log _ w := w.log.prefix_refl

/-- One computation after the other. -/
def andThen (m : Await Op Site ε σ α) (f : α → Await Op Site ε σ β) : Await Op Site ε σ β where
  run o w :=
    match m.run o w with
    | (.ok a, w) => (f a).run o w
    | (.error e, w) => (.error e, w)
  extends_log o w := by
    have h := m.extends_log o w
    generalize m.run o w = r at h
    obtain ⟨_ | a, w'⟩ := r
    · exact h
    · exact h.trans ((f a).extends_log o w')

instance : Monad (Await Op Site ε σ) where
  pure := ret
  bind := andThen

/-- Read the variables. -/
def get : Await Op Site ε σ σ where
  run _ w := (.ok w.vars, w)
  extends_log _ w := w.log.prefix_refl

/-- Change the variables. -/
def modify (f : σ → σ) : Await Op Site ε σ Unit where
  run _ w := (.ok (), { w with vars := f w.vars })
  extends_log _ w := w.log.prefix_refl

/-- Perform an operation. -/
def perform (site : Site) (op : Op) : Await Op Site ε σ Unit where
  run o w :=
    let fault := o w.log op
    (outcome fault.exn, { w with log := w.log ++ [{ op := op, site := site, fault := fault }] })
  extends_log _ _ := List.prefix_append _ _

/-- `try: m except e: h e`. -/
def handle (m : Await Op Site ε σ α) (h : ε → Await Op Site ε σ α) : Await Op Site ε σ α where
  run o w :=
    match m.run o w with
    | (.ok a, w) => (.ok a, w)
    | (.error e, w) => (h e).run o w
  extends_log o w := by
    have hm := m.extends_log o w
    generalize m.run o w = r at hm
    obtain ⟨e | a, w'⟩ := r
    · exact hm.trans ((h e).extends_log o w')
    · exact hm

/-- The outcome `r`, unless the outcome of the cleanup is an exception. -/
def cleanup (r : Except ε α) : Except ε Unit → Except ε α
  | .ok _ => r
  | .error e => .error e

/-- `try: m finally: fin`.  An exception of `fin` replaces the outcome of `m`. -/
def ensure (m : Await Op Site ε σ α) (fin : Await Op Site ε σ Unit) : Await Op Site ε σ α where
  run o w :=
    let r := m.run o w
    let r' := fin.run o r.2
    (cleanup r.1 r'.1, r'.2)
  extends_log o w := (m.extends_log o w).trans (fin.extends_log o _)

/-! ### Running a computation -/

section

variable (o : Oracle Op Site ε) (w : World Op Site ε σ)

@[simp]
theorem run_pure (a : α) : (pure a : Await Op Site ε σ α).run o w = (.ok a, w) := rfl

@[simp]
theorem run_raise (e : ε) : (raise e : Await Op Site ε σ α).run o w = (.error e, w) := rfl

theorem run_bind (m : Await Op Site ε σ α) (f : α → Await Op Site ε σ β) :
  (m >>= f).run o w =
    match m.run o w with
    | (.ok a, w) => (f a).run o w
    | (.error e, w) => (.error e, w)
  := rfl

@[simp]
theorem run_get : (get : Await Op Site ε σ σ).run o w = (.ok w.vars, w) := rfl

@[simp]
theorem run_modify (f : σ → σ) :
  (modify f : Await Op Site ε σ Unit).run o w = (.ok (), { w with vars := f w.vars })
  := rfl

theorem run_perform (site : Site) (op : Op) :
  (perform site op : Await Op Site ε σ Unit).run o w =
    (outcome (o w.log op).exn, { w with log := w.log ++ [⟨op, site, o w.log op⟩] })
  := rfl

theorem run_handle (m : Await Op Site ε σ α) (h : ε → Await Op Site ε σ α) :
  (handle m h).run o w =
    match m.run o w with
    | (.ok a, w) => (.ok a, w)
    | (.error e, w) => (h e).run o w
  := rfl

end

/-! ### Triples -/

/-- The Hoare triple of a computation under the oracle `o`. -/
structure Triple (o : Oracle Op Site ε) (P : World Op Site ε σ → Prop)
    (m : Await Op Site ε σ α) (Q : Except ε α → World Op Site ε σ → Prop) : Prop where
  sound : ∀ w, P w → Q (m.run o w).1 (m.run o w).2

namespace Triple

variable {o : Oracle Op Site ε} {P P' : World Op Site ε σ → Prop}
variable {Q Q' : Except ε α → World Op Site ε σ → Prop}
variable {R : Except ε β → World Op Site ε σ → Prop}

theorem conseq {m : Await Op Site ε σ α} (h : Triple o P m Q) (hP : ∀ w, P' w → P w)
    (hQ : ∀ r w, Q r w → Q' r w) :
  Triple o P' m Q'
  := by
  constructor
  intro w p
  apply hQ
  exact h.sound w (hP w p)

theorem pure {a : α} (h : ∀ w, P w → Q (.ok a) w) :
  Triple o P (Pure.pure a) Q
  := ⟨h⟩

theorem raise {e : ε} (h : ∀ w, P w → Q (.error e) w) :
  Triple o P (Await.raise e) Q
  := ⟨h⟩

theorem bind {m : Await Op Site ε σ α} {f : α → Await Op Site ε σ β} (hm : Triple o P m Q)
    (hf : ∀ a, Triple o (Q (.ok a)) (f a) R) (herr : ∀ e w, Q (.error e) w → R (.error e) w) :
  Triple o P (m >>= f) R
  := by
  constructor
  intro w p
  have q := hm.sound w p
  rw [run_bind]
  generalize m.run o w = r at q
  obtain ⟨_ | a, w'⟩ := r
  · exact herr _ _ q
  · exact (hf a).sound w' q

theorem get_bind {f : σ → Await Op Site ε σ β}
    (hf : ∀ v, Triple o (fun w => P w ∧ w.vars = v) (f v) R) :
  Triple o P (Await.get >>= f) R
  := ⟨fun w p => (hf w.vars).sound w ⟨p, rfl⟩⟩

theorem modify_bind {g : σ → σ} {f : Unit → Await Op Site ε σ β}
    (hf : Triple o (fun w => ∃ v, P { w with vars := v } ∧ w.vars = g v) (f ()) R) :
  Triple o P (Await.modify g >>= f) R
  := ⟨fun w p => hf.sound { w with vars := g w.vars } ⟨w.vars, p, rfl⟩⟩

theorem perform {site : Site} {op : Op} {Q : Except ε Unit → World Op Site ε σ → Prop}
    (ok : ∀ w, P w → Q (.ok ()) { w with log := w.log ++ [⟨op, site, .none⟩] })
    (before : ∀ w e, P w → Q (.error e) { w with log := w.log ++ [⟨op, site, .before e⟩] })
    (after : ∀ w e, P w → Q (.error e) { w with log := w.log ++ [⟨op, site, .after e⟩] }) :
  Triple o P (Await.perform site op) Q
  := by
  constructor
  intro w p
  rw [run_perform]
  generalize o w.log op = fault
  cases fault with
  | none => exact ok w p
  | before e => exact before w e p
  | after e => exact after w e p

/-- The result of an operation, from its fault. -/
theorem perform_of_fault {site : Site} {op : Op}
    {Q : Except ε Unit → World Op Site ε σ → Prop}
    (h : ∀ w, P w → Q (outcome (o w.log op).exn)
      { w with log := w.log ++ [⟨op, site, o w.log op⟩] }) :
  Triple o P (Await.perform site op) Q
  := ⟨h⟩

/-- After a computation that always returns `a`. -/
theorem bind_ok {m : Await Op Site ε σ α} {a : α} {f : α → Await Op Site ε σ β}
    (hm : Triple o P m fun r w => r = .ok a ∧ P' w) (hf : Triple o P' (f a) R) :
  Triple o P (m >>= f) R
  := by
  apply hm.bind
  · intro a'
    constructor
    rintro w ⟨⟨⟩, p⟩
    exact hf.sound w p
  · rintro e w ⟨absurd, -⟩
    cases absurd

theorem handle {m : Await Op Site ε σ α} {h : ε → Await Op Site ε σ α} (hm : Triple o P m Q)
    (hok : ∀ a w, Q (.ok a) w → Q' (.ok a) w) (hh : ∀ e, Triple o (Q (.error e)) (h e) Q') :
  Triple o P (Await.handle m h) Q'
  := by
  constructor
  intro w p
  have q := hm.sound w p
  rw [run_handle]
  generalize m.run o w = r at q
  obtain ⟨e | a, w'⟩ := r
  · exact (hh e).sound w' q
  · exact hok a w' q

theorem ensure {m : Await Op Site ε σ α} {fin : Await Op Site ε σ Unit} (hm : Triple o P m Q)
    (hfin : ∀ r, Triple o (Q r) fin fun r' w => Q' (cleanup r r') w) :
  Triple o P (Await.ensure m fin) Q'
  := ⟨fun w p => (hfin _).sound _ (hm.sound w p)⟩

end Triple

end Await
