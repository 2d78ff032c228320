import Lumina.Library.Program

/-!
# Protocols of programs

A protocol says which operations are allowed, depending on what has been seen of the replies to the
earlier ones.  A program follows a protocol if all its operations are allowed, whatever the replies
are.  What is seen is no part of the state that the operations act on, so a program follows a
protocol regardless of other programs.
-/

namespace Interleaving

variable {Op : Type} {Reply : Op → Type} {ε α β σ : Type}

/-- What is allowed after what has been seen, and what is seen of a reply. -/
structure Protocol {Op : Type} (Reply : Op → Type) (ε σ : Type) where
  allows : σ → Op → Prop
  next : σ → (op : Op) → Except ε (Reply op) → σ

namespace Protocol

variable (P : Protocol Reply ε σ)

/-- Every operation of the program is allowed, whatever the replies. -/
def Follows : Program Reply ε α → σ → Prop
  | .pure _, _ => True
  | .raise _, _ => True
  | .call op next, seen => P.allows seen op ∧ ∀ r, Follows (next r) (P.next seen op r)

variable {P} {p : Program Reply ε α} {seen : σ}

@[simp]
theorem follows_pure (a : α) : P.Follows (Program.pure a : Program Reply ε α) seen := trivial

@[simp]
theorem follows_raise (e : ε) : P.Follows (.raise e : Program Reply ε α) seen := trivial

@[simp]
theorem follows_ofExcept (r : Except ε α) :
  P.Follows (Program.ofExcept r : Program Reply ε α) seen
  := by
  cases r
  all_goals trivial

/-- A protocol that allows everything. -/
theorem follows_of_allowed (allowed : ∀ seen op, P.allows seen op) :
  P.Follows p seen
  := by
  induction p generalizing seen with
  | pure a => trivial
  | raise e => trivial
  | call op next ih => exact ⟨allowed seen op, fun r => ih r⟩

/-- Operations that are allowed, and that nothing is seen of. -/
theorem follows_of_uses {O : Op → Prop} (hp : p.Uses O)
    (allowed : ∀ op, O op → P.allows seen op) (blind : ∀ op, O op → ∀ r, P.next seen op r = seen) :
  P.Follows p seen
  := by
  induction p with
  | pure a => trivial
  | raise e => trivial
  | call op next ih =>
    refine ⟨allowed op hp.1, ?_⟩
    intro r
    rw [blind op hp.1 r]
    exact ih r (hp.2 r)

/-- One operation. -/
theorem follows_perform {op : Op} (allowed : P.allows seen op) :
  P.Follows (Program.perform op : Program Reply ε _) seen
  :=
  ⟨allowed, fun r => follows_ofExcept r⟩

/-- One operation, and what follows it. -/
theorem Follows.perform {op : Op} {f : Reply op → Program Reply ε β} (allowed : P.allows seen op)
    (rest : ∀ a, P.Follows (f a) (P.next seen op (.ok a))) :
  P.Follows (Program.perform op >>= f) seen
  := by
  refine ⟨allowed, ?_⟩
  intro r
  cases r with
  | ok a => exact rest a
  | error e => trivial

/-- Whatever the first program sees, the second one follows the protocol. -/
theorem Follows.bind {f : α → Program Reply ε β} (hp : P.Follows p seen)
    (hf : ∀ a seen', P.Follows (f a) seen') :
  P.Follows (p >>= f) seen
  := by
  induction p generalizing seen with
  | pure a => exact hf a seen
  | raise e => trivial
  | call op next ih => exact ⟨hp.1, fun r => ih r (hp.2 r)⟩

theorem Follows.attempt (hp : P.Follows p seen) :
  P.Follows p.attempt seen
  := by
  induction p generalizing seen with
  | pure a => trivial
  | raise e => trivial
  | call op next ih => exact ⟨hp.1, fun r => ih r (hp.2 r)⟩

theorem Follows.ensure {f : Program Reply ε Unit} (hp : P.Follows p seen)
    (hf : ∀ seen', P.Follows f seen') :
  P.Follows (p.ensure f) seen
  := by
  apply hp.attempt.bind
  intro r seen'
  apply (hf seen').bind
  exact fun _ _ => follows_ofExcept r

end Protocol

end Interleaving
