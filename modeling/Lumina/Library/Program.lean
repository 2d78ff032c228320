import Mathlib.Tactic.Use

/-!
# Programs of atomic operations, and their interference

A `Program` performs operations one after the other.  Each operation is answered with a reply
or raises an error; what an operation does to the state is not part of the program, so several
programs over one state can be interleaved operation by operation.

`Contract.Safe` is the rely-guarantee reading of a program: whatever the others do between its
operations, as far as `rely` allows it, each of its operations keeps to `guarantee`, and the
program ends in an outcome that satisfies a postcondition.  `Contract.Triple` has the rules by
which a contract is shown for a program, along its text.
-/

namespace Interleaving

variable {Op : Type} {Reply : Op → Type} {ε α β σ : Type}

/-- A program over the operations `Op`. -/
inductive Program {Op : Type} (Reply : Op → Type) (ε α : Type) where
  | pure (a : α)
  | raise (e : ε)
  | call (op : Op) (next : Except ε (Reply op) → Program Reply ε α)

namespace Program

/-- Sequencing: an error ends the program. -/
def bind (p : Program Reply ε α) (f : α → Program Reply ε β) : Program Reply ε β :=
  match p with
  | .pure a => f a
  | .raise e => .raise e
  | .call op next => .call op fun r => (next r).bind f

instance : Monad (Program Reply ε) where
  pure := Program.pure
  bind := Program.bind

/-- The program that never raises and ends with the outcome of `p`. -/
def attempt (p : Program Reply ε α) : Program Reply ε (Except ε α) :=
  match p with
  | .pure a => .pure (.ok a)
  | .raise e => .pure (.error e)
  | .call op next => .call op fun r => (next r).attempt

/-- The program that ends with a given outcome. -/
def ofExcept : Except ε α → Program Reply ε α
  | .ok a => .pure a
  | .error e => .raise e

/-- The outcome of a program that has come to its end. -/
def outcome : Program Reply ε α → Option (Except ε α)
  | .pure a => some (.ok a)
  | .raise e => some (.error e)
  | .call _ _ => none

/-- A single operation. -/
def perform (op : Op) : Program Reply ε (Reply op) :=
  .call op ofExcept

/-- `try p except e => h e`. -/
def handle (p : Program Reply ε α) (h : ε → Program Reply ε α) : Program Reply ε α :=
  p.attempt.bind fun r => match r with
    | .ok a => .pure a
    | .error e => h e

/-- `try p finally f`: an error of `f` replaces the outcome of `p`. -/
def ensure (p : Program Reply ε α) (f : Program Reply ε Unit) : Program Reply ε α :=
  p.attempt.bind fun r => f.bind fun _ => ofExcept r

/-- The run of a program that nothing interferes with. -/
def run (exec : (op : Op) → σ → Except ε (Reply op) × σ) :
    Program Reply ε α → σ → Except ε α × σ
  | .pure a, s => (.ok a, s)
  | .raise e, s => (.error e, s)
  | .call op next, s => run exec (next (exec op s).1) (exec op s).2

/-- The program in which each operation is carried out by a program of its own, over other
operations; its outcome is a result. -/
def interpret {Op' : Type} {Reply' : Op' → Type} {ε' : Type}
    (carry : (op : Op) → Program Reply' ε' (Except ε (Reply op))) :
    Program Reply ε α → Program Reply' ε' (Except ε α)
  | .pure a => .pure (.ok a)
  | .raise e => .pure (.error e)
  | .call op next => (carry op).bind fun r => (next r).interpret carry

theorem bind_assoc {γ : Type} (p : Program Reply ε α) (f : α → Program Reply ε β)
    (g : β → Program Reply ε γ) :
  (p.bind f).bind g = p.bind fun a => (f a).bind g
  := by
  induction p with
  | pure a => rfl
  | raise e => rfl
  | call op next ih => exact congrArg (Program.call op) (funext fun r => ih r)

theorem interpret_bind {Op' : Type} {Reply' : Op' → Type} {ε' : Type}
    (carry : (op : Op) → Program Reply' ε' (Except ε (Reply op))) (p : Program Reply ε α)
    (f : α → Program Reply ε β) :
  (p.bind f).interpret carry = (p.interpret carry).bind fun r => match r with
    | .ok a => (f a).interpret carry
    | .error e => .pure (.error e)
  := by
  induction p with
  | pure a => rfl
  | raise e => rfl
  | call op next ih =>
    apply Eq.trans _ (bind_assoc _ _ _).symm
    exact congrArg (carry op).bind (funext fun r => ih r)

/-- Every operation that the program may come to perform satisfies `P`, whatever the replies. -/
def Uses (P : Op → Prop) : Program Reply ε α → Prop
  | .pure _ => True
  | .raise _ => True
  | .call op next => P op ∧ ∀ r, (next r).Uses P

section Uses

variable {P : Op → Prop} {p : Program Reply ε α}

@[simp]
theorem uses_pure (a : α) : (Program.pure a : Program Reply ε α).Uses P := trivial

@[simp]
theorem uses_pure' (a : α) : (Pure.pure a : Program Reply ε α).Uses P := trivial

@[simp]
theorem uses_raise (e : ε) : (raise e : Program Reply ε α).Uses P := trivial

@[simp]
theorem uses_ofExcept (r : Except ε α) : (ofExcept r : Program Reply ε α).Uses P := by
  cases r
  all_goals trivial

theorem uses_perform {op : Op} (h : P op) : (perform op : Program Reply ε _).Uses P := by
  constructor
  · apply h
  · intro r
    apply uses_ofExcept

theorem Uses.bind {f : α → Program Reply ε β} (hp : p.Uses P) (hf : ∀ a, (f a).Uses P) :
  (p.bind f).Uses P
  := by
  induction p with
  | pure a => apply hf
  | raise e => trivial
  | call op next ih =>
    constructor
    · apply hp.1
    · intro r
      apply ih r (hp.2 r)

theorem Uses.bind' {f : α → Program Reply ε β} (hp : p.Uses P) (hf : ∀ a, (f a).Uses P) :
  (p >>= f).Uses P
  := by
  apply hp.bind hf

theorem Uses.attempt (hp : p.Uses P) : p.attempt.Uses P := by
  induction p with
  | pure a => trivial
  | raise e => trivial
  | call op next ih =>
    constructor
    · apply hp.1
    · intro r
      apply ih r (hp.2 r)

theorem Uses.handle {h : ε → Program Reply ε α} (hp : p.Uses P) (hh : ∀ e, (h e).Uses P) :
  (p.handle h).Uses P
  := by
  apply hp.attempt.bind
  intro r
  cases r with
  | ok a => trivial
  | error e => apply hh

theorem Uses.ensure {f : Program Reply ε Unit} (hp : p.Uses P) (hf : f.Uses P) :
  (p.ensure f).Uses P
  := by
  apply hp.attempt.bind
  intro r
  apply hf.bind
  intro _
  apply uses_ofExcept

theorem Uses.mono {P' : Op → Prop} (hp : p.Uses P) (h : ∀ op, P op → P' op) : p.Uses P' := by
  induction p with
  | pure a => trivial
  | raise e => trivial
  | call op next ih =>
    constructor
    · apply h op hp.1
    · intro r
      apply ih r (hp.2 r)

end Uses

section Run

variable (exec : (op : Op) → σ → Except ε (Reply op) × σ)

@[simp]
theorem run_pure (a : α) (s : σ) : (Program.pure a : Program Reply ε α).run exec s = (.ok a, s) :=
  rfl

@[simp]
theorem run_pure' (a : α) (s : σ) :
  (Pure.pure a : Program Reply ε α).run exec s = (.ok a, s)
  := rfl

@[simp]
theorem run_raise (e : ε) (s : σ) :
  (raise e : Program Reply ε α).run exec s = (.error e, s)
  := rfl

@[simp]
theorem run_perform (op : Op) (s : σ) :
  (perform op : Program Reply ε _).run exec s = exec op s
  := by
  unfold perform
  rw [run]
  rcases exec op s with ⟨r, t⟩
  cases r
  all_goals rfl

/-- What follows a program that has ended: nothing after an error. -/
def andThen (exec : (op : Op) → σ → Except ε (Reply op) × σ) (f : α → Program Reply ε β) :
    Except ε α × σ → Except ε β × σ
  | (.ok a, s) => (f a).run exec s
  | (.error e, s) => (.error e, s)

@[simp]
theorem andThen_ok (f : α → Program Reply ε β) (a : α) (s : σ) :
  andThen exec f (.ok a, s) = (f a).run exec s
  := rfl

@[simp]
theorem andThen_error (f : α → Program Reply ε β) (e : ε) (s : σ) :
  andThen exec f (.error e, s) = (.error e, s)
  := rfl

theorem run_bind (p : Program Reply ε α) (f : α → Program Reply ε β) (s : σ) :
  (p.bind f).run exec s = andThen exec f (p.run exec s)
  := by
  induction p generalizing s with
  | pure a => rfl
  | raise e => rfl
  | call op next ih => apply ih

@[simp]
theorem run_bind' (p : Program Reply ε α) (f : α → Program Reply ε β) (s : σ) :
  (p >>= f).run exec s = andThen exec f (p.run exec s)
  := by
  apply run_bind

@[simp]
theorem run_attempt (p : Program Reply ε α) (s : σ) :
  p.attempt.run exec s = (.ok (p.run exec s).1, (p.run exec s).2)
  := by
  induction p generalizing s with
  | pure a => rfl
  | raise e => rfl
  | call op next ih => apply ih

@[simp]
theorem run_ofExcept (r : Except ε α) (s : σ) :
  (ofExcept r : Program Reply ε α).run exec s = (r, s)
  := by
  cases r
  all_goals rfl

/-- The outcome of a program with a handler: the handler runs in the state of the error. -/
theorem run_handle (p : Program Reply ε α) (h : ε → Program Reply ε α) (s : σ) :
  (p.handle h).run exec s =
    match p.run exec s with
    | (.ok a, t) => (.ok a, t)
    | (.error e, t) => (h e).run exec t
  := by
  unfold handle
  rw [run_bind, run_attempt, andThen_ok]
  rcases p.run exec s with ⟨r, t⟩
  cases r
  all_goals rfl

/-- Run alone from a state, the program has a certain outcome and leads to a state that satisfies
`P`. -/
def Yields (p : Program Reply ε α) (s : σ) (r : Except ε α) (P : σ → Prop) : Prop :=
  (p.run exec s).1 = r ∧ P (p.run exec s).2

namespace Yields

variable {exec} {p : Program Reply ε α} {s : σ} {P : σ → Prop}

theorem pure {a : α} (hs : P s) : (Program.pure a : Program Reply ε α).Yields exec s (.ok a) P :=
  ⟨rfl, hs⟩

theorem raise {e : ε} (hs : P s) : (raise e : Program Reply ε α).Yields exec s (.error e) P :=
  ⟨rfl, hs⟩

theorem perform {op : Op} {r : Except ε (Reply op)} (hr : (exec op s).1 = r)
    (hs : P (exec op s).2) :
  (perform op : Program Reply ε _).Yields exec s r P
  := by
  unfold Yields
  rw [run_perform]
  exact ⟨hr, hs⟩

theorem bind {a : α} {f : α → Program Reply ε β} {r : Except ε β} {Q : σ → Prop}
    (h : p.Yields exec s (.ok a) P) (hf : ∀ t, P t → (f a).Yields exec t r Q) :
  (p >>= f).Yields exec s r Q
  := by
  unfold Yields
  obtain ⟨hr, hP⟩ := h
  rw [run_bind']
  rcases hrun : p.run exec s with ⟨r', t⟩
  rw [hrun] at hr hP
  cases hr
  apply hf t hP

theorem bind_error {e : ε} {f : α → Program Reply ε β} (h : p.Yields exec s (.error e) P) :
  (p >>= f).Yields exec s (.error e) P
  := by
  unfold Yields
  obtain ⟨hr, hP⟩ := h
  rw [run_bind']
  rcases hrun : p.run exec s with ⟨r', t⟩
  rw [hrun] at hr hP
  cases hr
  exact ⟨rfl, hP⟩

theorem handle {a : α} {h : ε → Program Reply ε α} (hp : p.Yields exec s (.ok a) P) :
  (p.handle h).Yields exec s (.ok a) P
  := by
  unfold Yields
  obtain ⟨hr, hP⟩ := hp
  rw [run_handle]
  rcases hrun : p.run exec s with ⟨r', t⟩
  rw [hrun] at hr hP
  cases hr
  exact ⟨rfl, hP⟩

theorem handle_error {e : ε} {h : ε → Program Reply ε α} {r : Except ε α} {Q : σ → Prop}
    (hp : p.Yields exec s (.error e) P) (hh : ∀ t, P t → (h e).Yields exec t r Q) :
  (p.handle h).Yields exec s r Q
  := by
  unfold Yields
  obtain ⟨hr, hP⟩ := hp
  rw [run_handle]
  rcases hrun : p.run exec s with ⟨r', t⟩
  rw [hrun] at hr hP
  cases hr
  apply hh t hP

end Yields

end Run

end Program

/-- The surroundings of a program: how its operations are answered, what the other programs may
do to the state in between, and what the operations of this one must keep to. -/
structure Contract {Op : Type} (Reply : Op → Type) (ε σ : Type) where
  step : (op : Op) → σ → Except ε (Reply op) → σ → Prop
  rely : σ → σ → Prop
  guarantee : σ → σ → Prop
  refl : ∀ s, rely s s
  trans : ∀ {s t u}, rely s t → rely t u → rely s u

namespace Contract

variable (C : Contract Reply ε σ)

/-- From this state on, the program keeps to its contract and ends as `Q` says. -/
def Safe (Q : Except ε α → σ → Prop) : Program Reply ε α → σ → Prop
  | .pure a, s => ∀ t, C.rely s t → Q (.ok a) t
  | .raise e, s => ∀ t, C.rely s t → Q (.error e) t
  | .call op next, s =>
      ∀ t, C.rely s t → ∀ r u, C.step op t r u → C.guarantee t u ∧ Safe Q (next r) u

/-- An assertion that the other programs keep. -/
def Stable (P : σ → Prop) : Prop :=
  ∀ s t, P s → C.rely s t → P t

variable {C}

section Safe

variable {Q : Except ε α → σ → Prop} {p : Program Reply ε α} {s t : σ}

/-- Interference does not end the safety of a program. -/
theorem Safe.stable (h : C.Safe Q p s) (hrely : C.rely s t) :
  C.Safe Q p t
  := by
  cases p with
  | pure a =>
    intro u hu
    apply h u (C.trans hrely hu)
  | raise e =>
    intro u hu
    apply h u (C.trans hrely hu)
  | call op next =>
    intro u hu
    apply h u (C.trans hrely hu)

/-- One operation of a safe program keeps the guarantee, and the rest is safe. -/
theorem Safe.call {op : Op} {next : Except ε (Reply op) → Program Reply ε α}
    (h : C.Safe Q (.call op next) s) {r : Except ε (Reply op)} (hstep : C.step op s r t) :
  C.guarantee s t ∧ C.Safe Q (next r) t
  := by
  apply h s (C.refl s) r t hstep

theorem Safe.pure {a : α} (h : C.Safe Q (.pure a) s) : Q (.ok a) s := by
  apply h s (C.refl s)

theorem Safe.raise {e : ε} (h : C.Safe Q (.raise e) s) : Q (.error e) s := by
  apply h s (C.refl s)

theorem Safe.outcome (h : C.Safe Q p s) {r : Except ε α} (hr : p.outcome = some r) : Q r s := by
  cases p with
  | pure a =>
    cases hr
    exact h.pure
  | raise e =>
    cases hr
    exact h.raise
  | call op next => cases hr

theorem Safe.mono {Q' : Except ε α → σ → Prop} (h : C.Safe Q p s) (hQ : ∀ r t, Q r t → Q' r t) :
  C.Safe Q' p s
  := by
  induction p generalizing s with
  | pure a =>
    intro t ht
    apply hQ
    apply h t ht
  | raise e =>
    intro t ht
    apply hQ
    apply h t ht
  | call op next ih =>
    intro t ht r u hstep
    have now := h t ht r u hstep
    constructor
    · apply now.1
    · apply ih r now.2

theorem Safe.bind {Q' : Except ε β → σ → Prop} {f : α → Program Reply ε β}
    (h : C.Safe Q p s) (hf : ∀ a t, Q (.ok a) t → C.Safe Q' (f a) t)
    (he : ∀ e t, Q (.error e) t → Q' (.error e) t) :
  C.Safe Q' (p.bind f) s
  := by
  induction p generalizing s with
  | pure a =>
    apply hf
    apply h s (C.refl s)
  | raise e =>
    intro t ht
    apply he
    apply h t ht
  | call op next ih =>
    intro t ht r u hstep
    have now := h t ht r u hstep
    constructor
    · apply now.1
    · apply ih r now.2

theorem Safe.attempt (h : C.Safe Q p s) :
  C.Safe (fun r t => ∃ r', r = .ok r' ∧ Q r' t) p.attempt s
  := by
  induction p generalizing s with
  | pure a =>
    intro t ht
    use .ok a
    constructor
    · rfl
    · apply h t ht
  | raise e =>
    intro t ht
    use .error e
    constructor
    · rfl
    · apply h t ht
  | call op next ih =>
    intro t ht r u hstep
    have now := h t ht r u hstep
    constructor
    · apply now.1
    · apply ih r now.2

/-- A program is safe when each of its operations keeps the guarantee in every state. -/
theorem safe_of_uses {P : Op → Prop} (hp : p.Uses P)
    (hop : ∀ op s r t, P op → C.step op s r t → C.guarantee s t) (s : σ) :
  C.Safe (fun _ _ => True) p s
  := by
  induction p generalizing s with
  | pure a => exact fun _ _ => trivial
  | raise e => exact fun _ _ => trivial
  | call op next ih =>
    intro t _ r u hstep
    constructor
    · apply hop op t r u hp.1 hstep
    · apply ih r (hp.2 r)

end Safe

variable (C)

/-- From every state that satisfies `P` the program is safe, with postcondition `Q`. -/
structure Triple (P : σ → Prop) (p : Program Reply ε α) (Q : Except ε α → σ → Prop) : Prop where
  safe : ∀ s, P s → C.Safe Q p s

variable {C}

namespace Triple

variable {P : σ → Prop} {Q : Except ε α → σ → Prop} {p : Program Reply ε α}

theorem conseq {P' : σ → Prop} {Q' : Except ε α → σ → Prop} (h : C.Triple P p Q)
    (hP : ∀ s, P' s → P s) (hQ : ∀ r s, Q r s → Q' r s) :
  C.Triple P' p Q'
  := by
  constructor
  intro s hs
  apply (h.safe s (hP s hs)).mono hQ

/-- A fact that does not depend on the state may be assumed. -/
theorem assume {φ : Prop} (h : φ → C.Triple P p Q) :
  C.Triple (fun s => φ ∧ P s) p Q
  := by
  constructor
  rintro s ⟨hφ, hs⟩
  apply (h hφ).safe s hs

theorem pure {a : α} (hP : C.Stable P) (hQ : ∀ s, P s → Q (.ok a) s) :
  C.Triple P (.pure a) Q
  := by
  constructor
  intro s hs t ht
  apply hQ t (hP s t hs ht)

theorem raise {e : ε} (hP : C.Stable P) (hQ : ∀ s, P s → Q (.error e) s) :
  C.Triple P (.raise e) Q
  := by
  constructor
  intro s hs t ht
  apply hQ t (hP s t hs ht)

theorem ofExcept {r : Except ε α} (hP : C.Stable P) (hQ : ∀ s, P s → Q r s) :
  C.Triple P (Program.ofExcept r) Q
  := by
  cases r with
  | ok a => apply Triple.pure hP hQ
  | error e => apply Triple.raise hP hQ

/-- The rule of an operation: the others keep `P` until it is performed, and it leads from `P`
to an assertion about the reply that the others keep as well. -/
theorem perform {op : Op} {Q : Except ε (Reply op) → σ → Prop} (hP : C.Stable P)
    (hstep : ∀ s r t, P s → C.step op s r t → C.guarantee s t ∧ Q r t)
    (hQ : ∀ r, C.Stable (Q r)) :
  C.Triple P (Program.perform op) Q
  := by
  constructor
  intro s hs t ht r u hu
  have now := hstep t r u (hP s t hs ht) hu
  constructor
  · apply now.1
  · have ends : C.Triple (Q r) (Program.ofExcept r) Q := ofExcept (hQ r) fun _ h => h
    apply ends.safe u now.2

theorem bind {Q' : Except ε β → σ → Prop} {f : α → Program Reply ε β} (h : C.Triple P p Q)
    (hf : ∀ a, C.Triple (Q (.ok a)) (f a) Q') (he : ∀ e s, Q (.error e) s → Q' (.error e) s) :
  C.Triple P (p >>= f) Q'
  := by
  constructor
  intro s hs
  apply (h.safe s hs).bind
  · intro a t ht
    apply (hf a).safe t ht
  · apply he

/-- The outcome of a program that is attempted is in its result. -/
theorem attempt (h : C.Triple P p Q) :
  C.Triple P p.attempt fun r s => ∃ r', r = .ok r' ∧ Q r' s
  := by
  constructor
  intro s hs
  apply (h.safe s hs).attempt

theorem handle {Q' : Except ε α → σ → Prop} {h : ε → Program Reply ε α} (hp : C.Triple P p Q)
    (hh : ∀ e, C.Triple (Q (.error e)) (h e) Q') (hok : ∀ a, C.Stable (Q (.ok a)))
    (hQ : ∀ a s, Q (.ok a) s → Q' (.ok a) s) :
  C.Triple P (p.handle h) Q'
  := by
  constructor
  intro s hs
  apply (hp.safe s hs).attempt.bind
  · rintro r t ⟨r', hr, ht⟩
    cases hr
    cases r with
    | ok a =>
      intro u hu
      apply hQ
      apply hok a t u ht hu
    | error e => apply (hh e).safe t ht
  · rintro e t ⟨r', hr, -⟩
    cases hr

/-- The rule of an operation that is carried out by a program which does not raise. -/
theorem interpret {Op' : Type} {Reply' : Op' → Type} {ε' : Type}
    {carry : (op : Op') → Program Reply ε (Except ε' (Reply' op))} {op : Op'}
    {next : Reply' op → Program Reply' ε' α} {Q : Reply' op → σ → Prop}
    {Q' : Except ε (Except ε' α) → σ → Prop}
    (hop : C.Triple P (carry op) fun r s => ∃ reply, r = .ok (.ok reply) ∧ Q reply s)
    (hnext : ∀ reply, C.Triple (Q reply) ((next reply).interpret carry) Q') :
  C.Triple P ((Program.perform op >>= next).interpret carry) Q'
  := by
  constructor
  intro s hs
  apply (hop.safe s hs).bind
  · rintro r t ⟨reply, ⟨⟩, ht⟩
    exact (hnext reply).safe t ht
  · rintro e t ⟨reply, ⟨⟩, -⟩

theorem interpret_perform {Op' : Type} {Reply' : Op' → Type} {ε' : Type}
    {carry : (op : Op') → Program Reply ε (Except ε' (Reply' op))} {op : Op'}
    {Q : Reply' op → σ → Prop}
    (hop : C.Triple P (carry op) fun r s => ∃ reply, r = .ok (.ok reply) ∧ Q reply s)
    (stable : ∀ reply, C.Stable (Q reply)) :
  C.Triple P ((Program.perform op).interpret carry)
    fun r s => ∃ reply, r = .ok (.ok reply) ∧ Q reply s
  := by
  apply bind hop
  · intro r
    constructor
    rintro s ⟨reply, ⟨⟩, hs⟩
    exact (pure (stable reply) fun t ht => ⟨reply, rfl, ht⟩).safe s hs
  · rintro e s ⟨reply, ⟨⟩, -⟩

/-- The rule of sequencing, where the first program does not raise either. -/
theorem interpret_bind {Op' : Type} {Reply' : Op' → Type} {ε' : Type}
    {carry : (op : Op') → Program Reply ε (Except ε' (Reply' op))} {p : Program Reply' ε' α}
    {f : α → Program Reply' ε' β} {Q : α → σ → Prop} {Q' : Except ε (Except ε' β) → σ → Prop}
    (hp : C.Triple P (p.interpret carry) fun r s => ∃ a, r = .ok (.ok a) ∧ Q a s)
    (hf : ∀ a, C.Triple (Q a) ((f a).interpret carry) Q') :
  C.Triple P ((p >>= f).interpret carry) Q'
  := by
  constructor
  intro s hs
  have bound : (p >>= f).interpret carry = _ := Program.interpret_bind carry p f
  rw [bound]
  apply (hp.safe s hs).bind
  · rintro r t ⟨a, ⟨⟩, ht⟩
    exact (hf a).safe t ht
  · rintro e t ⟨a, ⟨⟩, -⟩

/-- The rule of a program all of whose operations keep an assertion. -/
theorem interpret_of_uses {Op' : Type} {Reply' : Op' → Type} {ε' : Type}
    {carry : (op : Op') → Program Reply ε (Except ε' (Reply' op))} {O : Op' → Prop}
    {p : Program Reply' ε' α} (hp : p.Uses O) (stable : C.Stable P)
    (hop : ∀ op, O op → C.Triple P (carry op) fun r s => (∃ r', r = .ok r') ∧ P s) :
  C.Triple P (p.interpret carry) fun r s => (∃ r', r = .ok r') ∧ P s
  := by
  induction p with
  | pure a => exact pure stable fun s h => ⟨⟨_, rfl⟩, h⟩
  | raise e => exact pure stable fun s h => ⟨⟨_, rfl⟩, h⟩
  | call op next ih =>
    apply bind (hop op hp.1)
    · intro r
      apply (ih r (hp.2 r)).conseq (fun s h => h.2) fun _ _ h => h
    · rintro e s ⟨⟨r', ⟨⟩⟩, -⟩

end Triple

variable (C)

/-- From every state that satisfies `P` the program is safe, it keeps `P`, and what it returns
satisfies `φ`. -/
def Keeps (P : σ → Prop) (p : Program Reply ε α) (φ : α → Prop) : Prop :=
  C.Triple P p fun r s => (∀ a, r = .ok a → φ a) ∧ P s

variable {C}

namespace Keeps

variable {P : σ → Prop} {p : Program Reply ε α} {φ : α → Prop}

theorem pure {a : α} (hP : C.Stable P) (ha : φ a) : C.Keeps P (.pure a) φ := by
  apply Triple.pure hP
  intro s hs
  constructor
  · intro b hb
    cases hb
    apply ha
  · apply hs

theorem raise {e : ε} (hP : C.Stable P) : C.Keeps P (.raise e) φ := by
  apply Triple.raise hP
  intro s hs
  constructor
  · intro b hb
    cases hb
  · apply hs

theorem ofExcept {r : Except ε α} (hP : C.Stable P) (hr : ∀ a, r = .ok a → φ a) :
  C.Keeps P (Program.ofExcept r) φ
  := by
  apply Triple.ofExcept hP
  intro s hs
  exact ⟨hr, hs⟩

theorem perform {op : Op} {φ : Reply op → Prop} (hP : C.Stable P)
    (hstep : ∀ s r t, P s → C.step op s r t → C.guarantee s t ∧ P t ∧ ∀ a, r = .ok a → φ a) :
  C.Keeps P (Program.perform op) φ
  := by
  apply Triple.perform hP
  · intro s r t hs ht
    obtain ⟨hguarantee, hPt, hφ⟩ := hstep s r t hs ht
    exact ⟨hguarantee, hφ, hPt⟩
  · rintro r s t ⟨hφ, hs⟩ hrely
    exact ⟨hφ, hP s t hs hrely⟩

theorem bind {ψ : β → Prop} {f : α → Program Reply ε β} (h : C.Keeps P p φ)
    (hf : ∀ a, φ a → C.Keeps P (f a) ψ) :
  C.Keeps P (p >>= f) ψ
  := by
  apply Triple.bind h
  · intro a
    constructor
    rintro s ⟨ha, hs⟩
    apply (hf a (ha a rfl)).safe s hs
  · rintro e s ⟨-, hs⟩
    constructor
    · intro b hb
      cases hb
    · apply hs

theorem attempt (h : C.Keeps P p φ) :
  C.Keeps P p.attempt fun r => ∀ a, r = .ok a → φ a
  := by
  constructor
  intro s hs
  apply (h.safe s hs).attempt.mono
  rintro r t ⟨r', rfl, hr, ht⟩
  constructor
  · intro a ha
    cases ha
    apply hr
  · apply ht

theorem handle {h : ε → Program Reply ε α} (hP : C.Stable P) (hp : C.Keeps P p φ)
    (hh : ∀ e, C.Keeps P (h e) φ) :
  C.Keeps P (p.handle h) φ
  := by
  apply Keeps.bind hp.attempt
  intro r hr
  cases r with
  | ok a => apply Keeps.pure hP (hr a rfl)
  | error e => apply hh

theorem ensure {f : Program Reply ε Unit} (hP : C.Stable P) (hp : C.Keeps P p φ)
    (hf : C.Keeps P f fun _ => True) :
  C.Keeps P (p.ensure f) φ
  := by
  apply Keeps.bind hp.attempt
  intro r hr
  apply Keeps.bind hf
  intro _ _
  apply Keeps.ofExcept hP hr

/-- A program whose operations all keep the guarantee and `P`. -/
theorem of_uses {O : Op → Prop} (hp : p.Uses O) (hP : C.Stable P)
    (hop : ∀ op s r t, O op → P s → C.step op s r t → C.guarantee s t ∧ P t) :
  C.Keeps P p fun _ => True
  := by
  induction p with
  | pure a => apply Keeps.pure hP trivial
  | raise e => apply Keeps.raise hP
  | call op next ih =>
    constructor
    intro s hs t ht r u hstep
    obtain ⟨hguarantee, hu⟩ := hop op t r u hp.1 (hP s t hs ht) hstep
    constructor
    · apply hguarantee
    · apply (ih r (hp.2 r)).safe u hu

end Keeps

end Contract

end Interleaving
