import Lumina.Library.Program
import Lumina.Library.ReadCommitted
import Lumina.Library.Transition
import Mathlib.Logic.Function.Basic

/-!
# Services over a READ COMMITTED database

A call of a service is a program of statements, and of operations outside the database.  Any number
of sessions run their calls at the same time, operation by operation; a statement that has to
wait is not possible until the row is free.

`Server.safe_of_run` is the rule for all runs: an invariant of the data, a relation to earlier data
that every operation keeps, and for each call an outline of its text that uses nothing else, hold
along every run whose steps satisfy the guards.
-/

namespace ReadCommitted

open Interleaving Transition

variable {τ κ ν E σ C ε α X : Type} {R : E → Type}

/-- The operations of a service: a statement, or an operation outside the database. -/
abbrev Op (κ ν E : Type) := Stmt κ ν ⊕ E

abbrev Op.Reply (R : E → Type) : Op κ ν E → Type
  | .inl s => s.Reply
  | .inr e => R e

/-- A single statement. -/
def query (s : Stmt κ ν) : Program (Op.Reply (κ := κ) (ν := ν) R) ε s.Reply :=
  Program.call (.inl s) Program.ofExcept

/-- A single operation outside the database. -/
def external (e : E) : Program (Op.Reply (κ := κ) (ν := ν) R) ε (R e) :=
  Program.call (.inr e) Program.ofExcept

/-- What follows the body of a transaction. -/
def endTransaction : Except ε α → Program (Op.Reply (κ := κ) (ν := ν) R) ε α
  | .ok a => (query .commit).bind fun _ => .pure a
  | .error e => (query .rollback).bind fun _ => .raise e

/-- `with unit_of_work():` the transaction is rolled back where the body raises. -/
def unitOfWork (body : Program (Op.Reply (κ := κ) (ν := ν) R) ε α) :
    Program (Op.Reply (κ := κ) (ν := ν) R) ε α :=
  body.attempt.bind endTransaction

/-- Django's `get_or_create`, with the query that gets a row: an insertion that fails because the
row has come up in between is followed by the query again. -/
def getOrCreate (get : κ → Stmt κ ν) (reply : ∀ k, (get k).Reply → Option ν) (violation : ε)
    (k : κ) (v : ν) : Program (Op.Reply (κ := κ) (ν := ν) R) ε (ν × Bool) := do
  match reply k (← query (get k)) with
  | some row => return (row, false)
  | none =>
    let inserted ← query (.insert k v)
    if inserted then
      return (v, true)
    else
      match reply k (← query (get k)) with
      | some row => return (row, false)
      | none => .raise violation

/-- Django's `update_or_create`: the row is locked when it is got, so that it is there when it is
saved. -/
def updateOrCreate (violation : ε) (k : κ) (v : ν) (set : ν → ν) :
    Program (Op.Reply (κ := κ) (ν := ν) R) ε ν := do
  let (row, created) ← getOrCreate .selectForUpdate (fun _ => id) violation k v
  if created then
    return row
  else
    let saved ← query (.update k set)
    if saved then return set row else .raise violation

/-- The database and the rest of the world. -/
structure Data (τ κ ν σ : Type) where
  db : Db τ κ ν
  world : σ

/-- A service: the program of a call, what its other operations do and which of its operations may
fail, what is noted when a transaction of a call is committed, and what happens by itself. -/
structure Server (τ κ ν : Type) {E : Type} (R : E → Type) (σ C ε α X : Type) where
  program : C → Program (Op.Reply (κ := κ) (ν := ν) R) ε α
  external : τ → C → (e : E) → σ → Option (Except ε (R e) × σ)
  fails : C → Op κ ν E → ε → Bool
  record : τ → C → σ → σ
  environment : X → σ → Option σ

/-- A call under way, with the world in which it began. -/
structure Session (κ ν : Type) {E : Type} (R : E → Type) (σ C ε α : Type) where
  call : C
  begun : σ
  program : Program (Op.Reply (κ := κ) (ν := ν) R) ε α

structure State (τ κ ν : Type) {E : Type} (R : E → Type) (σ C ε α : Type) where
  data : Data τ κ ν σ
  sessions : τ → Option (Session κ ν R σ C ε α)

inductive Action (τ C ε X : Type) where
  | start (t : τ) (c : C)
  | step (t : τ)
  | fail (t : τ) (e : ε)
  | finish (t : τ)
  | environment (x : X)

namespace Server

variable [DecidableEq τ] [DecidableEq κ] (S : Server τ κ ν R σ C ε α X)

/-- The world after a statement. -/
def after (t : τ) (c : C) : Stmt κ ν → σ → σ
  | .commit, w => S.record t c w
  | _, w => w

/-- The effect and the reply of an operation: nothing while it has to wait. -/
def perform (t : τ) (c : C) : (op : Op κ ν E) → Data τ κ ν σ →
    Option (Except ε (Op.Reply R op) × Data τ κ ν σ)
  | .inl s, d => (d.db.exec t s).map fun (r, db) => (.ok r, ⟨db, S.after t c s d.world⟩)
  | .inr e, d => (S.external t c e d.world).map fun (r, w) => (r, ⟨d.db, w⟩)

/-- The statements that end a transaction do not fail. -/
def mayFail (c : C) (error : ε) : Op κ ν E → Bool
  | .inl s => !s.isEnd && S.fails c (.inl s) error
  | .inr e => S.fails c (.inr e) error

def step : Action τ C ε X → State τ κ ν R σ C ε α → Option (State τ κ ν R σ C ε α)
  | .start t c, s =>
    match s.sessions t with
    | none =>
      some { s with
        sessions := Function.update s.sessions t (some ⟨c, s.data.world, S.program c⟩) }
    | some _ => none
  | .step t, s =>
    match s.sessions t with
    | some ⟨c, begun, .call op next⟩ => (S.perform t c op s.data).map fun (r, data) =>
      { data, sessions := Function.update s.sessions t (some ⟨c, begun, next r⟩) }
    | _ => none
  | .fail t e, s =>
    match s.sessions t with
    | some ⟨c, begun, .call op next⟩ =>
      if S.mayFail c e op then
        some { s with
          sessions := Function.update s.sessions t (some ⟨c, begun, next (.error e)⟩) }
      else
        none
    | _ => none
  | .finish t, s =>
    match s.sessions t with
    | some ⟨_, _, .pure _⟩ | some ⟨_, _, .raise _⟩ =>
      some { s with sessions := Function.update s.sessions t none }
    | _ => none
  | .environment x, s => (S.environment x s.data.world).map fun world =>
    { s with data := { s.data with world } }

/-- Nothing is under way at first. -/
def machine (init : Data τ κ ν σ → Prop) :
    Machine (State τ κ ν R σ C ε α) (Action τ C ε X) where
  init s := init s.data ∧ (∀ t, s.sessions t = none) ∧ ∀ t, s.data.db.Idle t
  step := S.step

/-- What is claimed of the data: an invariant, and a relation to earlier data. -/
structure Claim (τ κ ν σ : Type) where
  holds : Data τ κ ν σ → Prop
  later : Data τ κ ν σ → Data τ κ ν σ → Prop
  refl : ∀ d, later d d
  trans : ∀ {d d' d''}, later d d' → later d' d'' → later d d''

/-- A condition on the steps of a run: on the calls that start, and on the operations. -/
structure Guard (τ κ ν E σ C : Type) where
  start : τ → C → Data τ κ ν σ → Prop
  step : τ → C → Op κ ν E → Data τ κ ν σ → Prop

/-- The guard of no condition. -/
def Guard.none : Guard τ κ ν E σ C where
  start _ _ _ := True
  step _ _ _ _ := True

variable (K : Claim τ κ ν σ) (G : Guard τ κ ν E σ C)

/-- What a session may count on, and what it has to keep to. -/
def contract (t : τ) (c : C) : Contract (Op.Reply (κ := κ) (ν := ν) R) ε (Data τ κ ν σ) where
  step op d r d' := K.holds d ∧
    ((G.step t c op d ∧ S.perform t c op d = some (r, d')) ∨
      (d' = d ∧ ∃ e, S.mayFail c e op = true ∧ r = .error e))
  rely d d' := (K.holds d → K.holds d') ∧ K.later d d' ∧ Db.Frame t d.db d'.db
  guarantee d d' := K.holds d' ∧ K.later d d' ∧ ∀ t' ≠ t, Db.Frame t' d.db d'.db
  refl d := ⟨id, K.refl d, Db.Frame.refl t d.db⟩
  trans h h' := ⟨h'.1 ∘ h.1, K.trans h.2.1 h'.2.1, h.2.2.trans h'.2.2⟩

section Outlines

variable {S K G} {t : τ} {c : C} {β : Type}

/-- The others keep an assertion about a session. -/
def Kept (K : Claim τ κ ν σ) (t : τ) (P : Data τ κ ν σ → Prop) : Prop :=
  ∀ d d', K.holds d → K.holds d' → K.later d d' → Db.Frame t d.db d'.db → P d → P d'

omit [DecidableEq τ] [DecidableEq κ] in
theorem Kept.and {P P' : Data τ κ ν σ → Prop} (h : Kept K t P) (h' : Kept K t P') :
  Kept K t fun d => P d ∧ P' d
  := by
  rintro d d' hd hd' hlater hframe ⟨hP, hP'⟩
  exact ⟨h d d' hd hd' hlater hframe hP, h' d d' hd hd' hlater hframe hP'⟩

omit [DecidableEq τ] [DecidableEq κ] in
theorem Kept.const (φ : Prop) : Kept K t fun _ => φ := fun _ _ _ _ _ _ h => h

omit [DecidableEq τ] [DecidableEq κ] in
theorem Kept.idle : Kept K t fun d => d.db.Idle t := fun _ _ _ _ _ hframe h => hframe.idle h

/-- An outline of a program: from data that satisfy `P` the program keeps the claim and ends as `Q`
says, whatever the others do. -/
def Outline (S : Server τ κ ν R σ C ε α X) (K : Claim τ κ ν σ) (G : Guard τ κ ν E σ C) (t : τ)
    (c : C) (P : Data τ κ ν σ → Prop) (p : Program (Op.Reply (κ := κ) (ν := ν) R) ε β)
    (Q : Except ε β → Data τ κ ν σ → Prop) : Prop :=
  (S.contract K G t c).Triple (fun d => K.holds d ∧ P d) p fun r d => K.holds d ∧ Q r d

theorem Kept.stable {P : Data τ κ ν σ → Prop} (h : Kept K t P) :
  (S.contract K G t c).Stable fun d => K.holds d ∧ P d
  := by
  rintro d d' ⟨hd, hP⟩ ⟨hholds, hlater, hframe⟩
  exact ⟨hholds hd, h d d' hd (hholds hd) hlater hframe hP⟩

namespace Outline

variable {P : Data τ κ ν σ → Prop} {p : Program (Op.Reply (κ := κ) (ν := ν) R) ε β}
  {Q : Except ε β → Data τ κ ν σ → Prop}

theorem conseq {P' : Data τ κ ν σ → Prop} {Q' : Except ε β → Data τ κ ν σ → Prop}
    (h : Outline S K G t c P p Q) (hP : ∀ d, K.holds d → P' d → P d)
    (hQ : ∀ r d, K.holds d → Q r d → Q' r d) :
  Outline S K G t c P' p Q'
  := by
  apply Contract.Triple.conseq h
  · exact fun d h => ⟨h.1, hP d h.1 h.2⟩
  · exact fun r d h => ⟨h.1, hQ r d h.1 h.2⟩

/-- What a precondition says to exist may be taken. -/
theorem of_exists {γ : Type} {P : γ → Data τ κ ν σ → Prop}
    (h : ∀ x, Outline S K G t c (P x) p Q) :
  Outline S K G t c (fun d => ∃ x, P x d) p Q
  := by
  constructor
  rintro d ⟨hd, x, hP⟩
  apply (h x).safe d ⟨hd, hP⟩

/-- A fact that does not depend on the data may be assumed. -/
theorem assume {φ : Prop} (h : φ → Outline S K G t c P p Q) :
  Outline S K G t c (fun d => φ ∧ P d) p Q
  := by
  constructor
  rintro d ⟨hd, hφ, hP⟩
  apply (h hφ).safe d ⟨hd, hP⟩

theorem pure {a : β} (hP : Kept K t P) (hQ : ∀ d, K.holds d → P d → Q (.ok a) d) :
  Outline S K G t c P (.pure a) Q
  := by
  apply Contract.Triple.pure hP.stable
  exact fun d h => ⟨h.1, hQ d h.1 h.2⟩

theorem raise {e : ε} (hP : Kept K t P) (hQ : ∀ d, K.holds d → P d → Q (.error e) d) :
  Outline S K G t c P (.raise e) Q
  := by
  apply Contract.Triple.raise hP.stable
  exact fun d h => ⟨h.1, hQ d h.1 h.2⟩

/-- The rule of a statement. -/
theorem query {s : Stmt κ ν} {Q : Except ε s.Reply → Data τ κ ν σ → Prop} (hP : Kept K t P)
    (ok : ∀ d r db, K.holds d → P d → G.step t c (.inl s) d → d.db.exec t s = some (r, db) →
      K.holds ⟨db, S.after t c s d.world⟩ ∧ K.later d ⟨db, S.after t c s d.world⟩ ∧
        Q (.ok r) ⟨db, S.after t c s d.world⟩)
    (error : ∀ d e, S.mayFail c e (.inl s) = true → K.holds d → P d → Q (.error e) d)
    (hQ : ∀ r, Kept K t (Q r)) :
  Outline S K G t c P (query s) Q
  := by
  apply Contract.Triple.perform hP.stable
  · rintro d r d' ⟨-, hP⟩ ⟨hd, ⟨guard, hperform⟩ | ⟨rfl, e, fails, rfl⟩⟩
    · obtain ⟨⟨r', db⟩, hexec, h⟩ := Option.map_eq_some_iff.mp hperform
      cases h
      obtain ⟨hholds, hlater, hQ⟩ := ok d r' db hd hP guard hexec
      refine ⟨⟨hholds, hlater, ?_⟩, hholds, hQ⟩
      intro t' hne
      apply Db.Frame.of_exec hne hexec
    · exact ⟨⟨hd, K.refl d', fun t' _ => Db.Frame.refl t' d'.db⟩, hd,
        error d' e fails hd hP⟩
  · exact fun r => (hQ r).stable

/-- The rule of a statement that does not write. -/
theorem reading {k : κ} {Q : Except ε (Option ν) → Data τ κ ν σ → Prop} (hP : Kept K t P)
    (ok : ∀ d, K.holds d → P d → Q (.ok (d.db.view t k)) d)
    (error : ∀ d e, S.mayFail c e (.inl (.select k)) = true → K.holds d → P d → Q (.error e) d)
    (hQ : ∀ r, Kept K t (Q r)) :
  Outline S K G t c P (ReadCommitted.query (.select k)) Q
  := by
  apply query hP
  · intro d r db hd hP _ hexec
    obtain ⟨rfl, rfl⟩ := Db.exec_select hexec
    exact ⟨hd, K.refl d, ok d hd hP⟩
  · apply error
  · apply hQ

/-- The rule of an operation outside the database. -/
theorem external {e : E} {Q : Except ε (R e) → Data τ κ ν σ → Prop} (hP : Kept K t P)
    (ok : ∀ d r w, K.holds d → P d → G.step t c (.inr e) d →
      S.external t c e d.world = some (r, w) →
      K.holds ⟨d.db, w⟩ ∧ K.later d ⟨d.db, w⟩ ∧ Q r ⟨d.db, w⟩)
    (error : ∀ d e', S.mayFail c e' (.inr e) = true → K.holds d → P d → Q (.error e') d)
    (hQ : ∀ r, Kept K t (Q r)) :
  Outline S K G t c P (ReadCommitted.external e) Q
  := by
  apply Contract.Triple.perform hP.stable
  · rintro d r d' ⟨-, hP⟩ ⟨hd, ⟨guard, hperform⟩ | ⟨rfl, e', fails, rfl⟩⟩
    · obtain ⟨⟨_, w⟩, hexternal, h⟩ := Option.map_eq_some_iff.mp hperform
      cases h
      obtain ⟨hholds, hlater, hQ⟩ := ok d _ w hd hP guard hexternal
      exact ⟨⟨hholds, hlater, fun t' _ => Db.Frame.refl t' d.db⟩, hholds, hQ⟩
    · exact ⟨⟨hd, K.refl d', fun t' _ => Db.Frame.refl t' d'.db⟩, hd,
        error d' e' fails hd hP⟩
  · exact fun r => (hQ r).stable

theorem bind {γ : Type} {Q' : Except ε γ → Data τ κ ν σ → Prop}
    {f : β → Program (Op.Reply (κ := κ) (ν := ν) R) ε γ} (h : Outline S K G t c P p Q)
    (hf : ∀ a, Outline S K G t c (Q (.ok a)) (f a) Q')
    (he : ∀ e d, K.holds d → Q (.error e) d → Q' (.error e) d) :
  Outline S K G t c P (p.bind f) Q'
  := by
  apply Contract.Triple.bind h hf
  exact fun e d h => ⟨h.1, he e d h.1 h.2⟩

theorem handle {Q' : Except ε β → Data τ κ ν σ → Prop}
    {f : ε → Program (Op.Reply (κ := κ) (ν := ν) R) ε β} (hp : Outline S K G t c P p Q)
    (hf : ∀ e, Outline S K G t c (Q (.error e)) (f e) Q') (hok : ∀ a, Kept K t (Q (.ok a)))
    (hQ : ∀ a d, K.holds d → Q (.ok a) d → Q' (.ok a) d) :
  Outline S K G t c P (p.handle f) Q'
  := by
  apply Contract.Triple.handle hp hf
  · exact fun a => (hok a).stable
  · exact fun a d h => ⟨h.1, hQ a d h.1 h.2⟩

/-- The rule of a transaction: what holds at the end of its body says what its end does. -/
theorem unitOfWork {B : Except ε β → Data τ κ ν σ → Prop} (body : Outline S K G t c P p B)
    (hB : ∀ r, Kept K t (B r))
    (commit : ∀ a d, K.holds d → B (.ok a) d → G.step t c (.inl .commit) d →
      K.holds ⟨d.db.commit t, S.record t c d.world⟩ ∧
        K.later d ⟨d.db.commit t, S.record t c d.world⟩ ∧
        Q (.ok a) ⟨d.db.commit t, S.record t c d.world⟩)
    (rollback : ∀ e d, K.holds d → B (.error e) d →
      K.holds ⟨d.db.rollback t, d.world⟩ ∧ K.later d ⟨d.db.rollback t, d.world⟩ ∧
        Q (.error e) ⟨d.db.rollback t, d.world⟩)
    (hQ : ∀ r, Kept K t (Q r)) :
  Outline S K G t c P (ReadCommitted.unitOfWork p) Q
  := by
  have ends : ∀ r, Outline S K G t c (B r) (endTransaction r) Q := by
    intro r
    cases r with
    | ok a =>
      apply bind (Q := fun u d => (∃ v, u = .ok v) ∧ Q (.ok a) d)
      · apply query (hB _)
        · intro d u db hd hd' guard hexec
          cases hexec
          obtain ⟨hholds, hlater, hQ⟩ := commit a d hd hd' guard
          exact ⟨hholds, hlater, ⟨_, rfl⟩, hQ⟩
        · nofun
        · exact fun u => (Kept.const _).and (hQ _)
      · intro u
        apply pure ((Kept.const _).and (hQ _))
        exact fun d _ h => h.2
      · rintro e d - ⟨⟨v, hv⟩, -⟩
        cases hv
    | error e =>
      apply bind (Q := fun u d => (∃ v, u = .ok v) ∧ Q (.error e) d)
      · apply query (hB _)
        · intro d u db hd hd' _ hexec
          cases hexec
          obtain ⟨hholds, hlater, hQ⟩ := rollback e d hd hd'
          exact ⟨hholds, hlater, ⟨_, rfl⟩, hQ⟩
        · nofun
        · exact fun u => (Kept.const _).and (hQ _)
      · intro u
        apply raise ((Kept.const _).and (hQ _))
        exact fun d _ h => h.2
      · rintro e' d - ⟨⟨v, hv⟩, -⟩
        cases hv
  constructor
  intro d hd
  apply (Contract.Triple.attempt body).safe d hd |>.bind
  · rintro r d' ⟨r', hr, hd'⟩
    cases hr
    apply (ends r).safe d' hd'
  · rintro e d' ⟨r', hr, -⟩
    cases hr

omit [DecidableEq τ] [DecidableEq κ] in
/-- A postcondition of the successful outcomes is kept if it is for each result. -/
theorem kept_ok {P : β → Data τ κ ν σ → Prop} (h : ∀ a, Kept K t (P a)) (r : Except ε β) :
  Kept K t fun d => ∀ a, r = .ok a → P a d
  := by
  intro d d' hd hd' later frame hP a ha
  exact h a d d' hd hd' later frame (hP a ha)

/-- The rule of `get_or_create`: what holds after the row has been found, before and after the
insertion, and after it has failed. -/
theorem getOrCreate {get : κ → Stmt κ ν} {reply : ∀ k, (get k).Reply → Option ν} {violation : ε}
    {k : κ} {v : ν} {A F : Data τ κ ν σ → Prop} {Q : ν × Bool → Data τ κ ν σ → Prop}
    (first : Outline S K G t c P (ReadCommitted.query (get k)) fun r d => ∀ x, r = .ok x →
      (∀ row, reply k x = some row → Q (row, false) d) ∧ (reply k x = none → A d))
    (insert : Outline S K G t c A (ReadCommitted.query (.insert k v)) fun r d =>
      ∀ inserted, r = .ok inserted →
        (inserted = true → Q (v, true) d) ∧ (inserted = false → F d))
    (second : Outline S K G t c F (ReadCommitted.query (get k)) fun r d => ∀ x, r = .ok x →
      ∀ row, reply k x = some row → Q (row, false) d)
    (kept : ∀ x, Kept K t (Q x)) :
  Outline S K G t c P (ReadCommitted.getOrCreate get reply violation k v) fun r d =>
    ∀ x, r = .ok x → Q x d
  := by
  unfold ReadCommitted.getOrCreate
  apply bind first
  · intro x
    cases hx : reply k x with
    | some row =>
      apply conseq (P := Q (row, false)) _ (fun d _ h => (h x rfl).1 row hx) fun _ _ _ h => h
      apply pure (kept _)
      rintro d - hQ - ⟨⟩
      exact hQ
    | none =>
      apply conseq (P := A) _ (fun d _ h => (h x rfl).2 hx) fun _ _ _ h => h
      apply bind insert
      · intro inserted
        cases inserted with
        | true =>
          apply conseq (P := Q (v, true)) _ (fun d _ h => (h true rfl).1 rfl) fun _ _ _ h => h
          apply pure (kept _)
          rintro d - hQ - ⟨⟩
          exact hQ
        | false =>
          apply conseq (P := F) _ (fun d _ h => (h false rfl).2 rfl) fun _ _ _ h => h
          apply bind second
          · intro x
            cases hx : reply k x with
            | some row =>
              apply conseq (P := Q (row, false)) _ (fun d _ h => h x rfl row hx) fun _ _ _ h => h
              apply pure (kept _)
              rintro d - hQ - ⟨⟩
              exact hQ
            | none =>
              apply conseq (P := fun _ => True) _ (fun _ _ _ => trivial) fun _ _ _ h => h
              apply raise (Kept.const _)
              nofun
          · nofun
      · nofun
  · nofun

end Outline

end Outlines

section Runs

variable {S K G}

/-- What a step can do. -/
theorem step_cases {a : Action τ C ε X} {s s' : State τ κ ν R σ C ε α}
    (h : S.step a s = some s') :
  (∃ t c, a = .start t c ∧ s.sessions t = none ∧ s' = { s with
      sessions := Function.update s.sessions t (some ⟨c, s.data.world, S.program c⟩) }) ∨
  (∃ t c begun op next r data, a = .step t ∧ s.sessions t = some ⟨c, begun, .call op next⟩ ∧
      S.perform t c op s.data = some (r, data) ∧
      s' = ⟨data, Function.update s.sessions t (some ⟨c, begun, next r⟩)⟩) ∨
  (∃ t c begun op next e, a = .fail t e ∧ s.sessions t = some ⟨c, begun, .call op next⟩ ∧
      S.mayFail c e op = true ∧ s' = { s with
        sessions := Function.update s.sessions t (some ⟨c, begun, next (.error e)⟩) }) ∨
  (∃ t c begun p, a = .finish t ∧ s.sessions t = some ⟨c, begun, p⟩ ∧
      ((∃ v, p = .pure v) ∨ ∃ e, p = .raise e) ∧
      s' = { s with sessions := Function.update s.sessions t none }) ∨
  (∃ x world, a = .environment x ∧ S.environment x s.data.world = some world ∧
      s' = { s with data := { s.data with world } })
  := by
  cases a with
  | start t c =>
    rw [step] at h
    split at h
    next idle =>
      cases h
      exact Or.inl ⟨t, c, rfl, idle, rfl⟩
    next => cases h
  | step t =>
    rw [step] at h
    split at h
    next c begun op next hsession =>
      obtain ⟨⟨r, data⟩, hperform, hs'⟩ := Option.map_eq_some_iff.mp h
      cases hs'
      exact Or.inr (Or.inl ⟨t, c, begun, op, next, r, data, rfl, hsession, hperform, rfl⟩)
    next => cases h
  | fail t e =>
    rw [step] at h
    split at h
    next c begun op next hsession =>
      split at h
      next fails =>
        cases h
        exact Or.inr (Or.inr (Or.inl ⟨t, c, begun, op, next, e, rfl, hsession, fails, rfl⟩))
      next => cases h
    next => cases h
  | finish t =>
    rw [step] at h
    split at h
    next c begun v hsession =>
      cases h
      exact Or.inr (Or.inr (Or.inr (Or.inl ⟨t, c, begun, _, rfl, hsession, Or.inl ⟨v, rfl⟩, rfl⟩)))
    next c begun e hsession =>
      cases h
      exact Or.inr (Or.inr (Or.inr (Or.inl ⟨t, c, begun, _, rfl, hsession, Or.inr ⟨e, rfl⟩, rfl⟩)))
    next => cases h
  | environment x =>
    obtain ⟨world, hx, hs'⟩ := Option.map_eq_some_iff.mp h
    cases hs'
    exact Or.inr (Or.inr (Or.inr (Or.inr ⟨x, world, rfl, hx, rfl⟩)))

/-- A session that is never started is never under way. -/
theorem sessions_eq_none {init : Data τ κ ν σ → Prop} {t : τ}
    {h : List (State τ κ ν R σ C ε α × Action τ C ε X)} {s : State τ κ ν R σ C ε α}
    (run : (S.machine init).Run h s) (never : ∀ c, .start t c ∉ h.map Prod.snd) :
  s.sessions t = none
  := by
  induction run with
  | init hs => exact hs.2.1 t
  | @step h s s' a run hstep ih =>
    have before : s.sessions t = none :=
      ih fun c hc => never c (List.mem_cons_of_mem _ hc)
    have other : ∀ t', s.sessions t' ≠ none → t ≠ t' := by
      rintro t' h rfl
      exact h before
    obtain ⟨t', c, rfl, -, rfl⟩ | ⟨t', c, begun, op, next, r, data, -, hsession, -, rfl⟩ |
      ⟨t', c, begun, op, next, e, -, hsession, -, rfl⟩ |
      ⟨t', c, begun, p, -, hsession, -, rfl⟩ | ⟨x, world, -, -, rfl⟩ := step_cases hstep
    · apply (Function.update_of_ne _ _ _).trans before
      rintro rfl
      exact never c List.mem_cons_self
    · exact (Function.update_of_ne (other t' (by rw [hsession]; nofun)) _ _).trans before
    · exact (Function.update_of_ne (other t' (by rw [hsession]; nofun)) _ _).trans before
    · exact (Function.update_of_ne (other t' (by rw [hsession]; nofun)) _ _).trans before
    · exact before

/-- A step that satisfies a guard. -/
def Guard.Holds (G : Guard τ κ ν E σ C) (s : State τ κ ν R σ C ε α) : Action τ C ε X → Prop
  | .start t c => G.start t c s.data
  | .step t => ∀ c begun op next, s.sessions t = some ⟨c, begun, .call op next⟩ →
      G.step t c op s.data
  | _ => True

omit [DecidableEq τ] [DecidableEq κ] in
theorem Guard.holds_none (s : State τ κ ν R σ C ε α) (a : Action τ C ε X) :
  Guard.none.Holds s a
  := by
  cases a
  case step => exact fun _ _ _ _ _ => trivial
  all_goals trivial

/-- What holds along a run: the claim, and for each session that the rest of its program is safe. -/
structure Sound (S : Server τ κ ν R σ C ε α X) (K : Claim τ κ ν σ) (G : Guard τ κ ν E σ C)
    (Q : τ → C → σ → Except ε α → Data τ κ ν σ → Prop) (s : State τ κ ν R σ C ε α) : Prop where
  holds : K.holds s.data
  idle : ∀ t, s.sessions t = none → s.data.db.Idle t
  safe : ∀ t x, s.sessions t = some x → (S.contract K G t x.call).Safe
    (fun r d => K.holds d ∧ Q t x.call x.begun r d) x.program s.data

/-- The obligations for all runs. -/
structure Outlined (S : Server τ κ ν R σ C ε α X) (K : Claim τ κ ν σ) (G : Guard τ κ ν E σ C)
    (Q : τ → C → σ → Except ε α → Data τ κ ν σ → Prop) : Prop where
  program : ∀ t c w, Outline S K G t c
    (fun d => d.db.Idle t ∧ G.start t c d ∧ d.world = w) (S.program c) (Q t c w)
  idle : ∀ t c w r d, Q t c w r d → d.db.Idle t
  environment : ∀ x d w, K.holds d → S.environment x d.world = some w →
    K.holds ⟨d.db, w⟩ ∧ K.later d ⟨d.db, w⟩

section Soundness

variable {Q : τ → C → σ → Except ε α → Data τ κ ν σ → Prop} {s s' : State τ κ ν R σ C ε α}

/-- A step of one session, as the others notice it. -/
theorem Sound.others (sound : Sound S K G Q s) {t : τ} {c : C} {d : Data τ κ ν σ}
    (guarantee : (S.contract K G t c).guarantee s.data d) {t' : τ} (hne : t' ≠ t) :
  (s.sessions t' = none → d.db.Idle t') ∧
    ∀ x, s.sessions t' = some x → (S.contract K G t' x.call).Safe
      (fun r d => K.holds d ∧ Q t' x.call x.begun r d) x.program d
  := by
  obtain ⟨hholds, hlater, hframe⟩ := guarantee
  constructor
  · intro hidle
    apply (hframe t' hne).idle (sound.idle t' hidle)
  · intro x hx
    apply (sound.safe t' x hx).stable
    exact ⟨fun _ => hholds, hlater, hframe t' hne⟩

/-- A session has gone on with the rest of its program. -/
theorem Sound.next (sound : Sound S K G Q s) {t : τ} {x : Session κ ν R σ C ε α}
    (guarantee : (S.contract K G t x.call).guarantee s.data s'.data)
    (safe : (S.contract K G t x.call).Safe
      (fun r d => K.holds d ∧ Q t x.call x.begun r d) x.program s'.data)
    (sessions : s'.sessions = Function.update s.sessions t (some x)) :
  Sound S K G Q s'
  := by
  constructor
  · exact guarantee.1
  · intro t' hidle
    rw [sessions] at hidle
    by_cases ht : t' = t
    · subst ht
      rw [Function.update_self] at hidle
      cases hidle
    · rw [Function.update_of_ne ht] at hidle
      apply (sound.others guarantee ht).1 hidle
  · intro t' x' hx'
    rw [sessions] at hx'
    by_cases ht : t' = t
    · subst ht
      rw [Function.update_self] at hx'
      cases hx'
      exact safe
    · rw [Function.update_of_ne ht] at hx'
      apply (sound.others guarantee ht).2 x' hx'

/-- A session has ended, and holds nothing. -/
theorem Sound.ended (sound : Sound S K G Q s) {t : τ} (idle : s.data.db.Idle t)
    (data : s'.data = s.data) (sessions : s'.sessions = Function.update s.sessions t none) :
  Sound S K G Q s'
  := by
  constructor
  · rw [data]
    exact sound.holds
  · intro t' hidle
    rw [data]
    rw [sessions] at hidle
    by_cases ht : t' = t
    · subst ht
      exact idle
    · rw [Function.update_of_ne ht] at hidle
      apply sound.idle t' hidle
  · intro t' x' hx'
    rw [data]
    rw [sessions] at hx'
    by_cases ht : t' = t
    · subst ht
      rw [Function.update_self] at hx'
      cases hx'
    · rw [Function.update_of_ne ht] at hx'
      apply sound.safe t' x' hx'

theorem Sound.step (outlined : Outlined S K G Q) {a : Action τ C ε X} (sound : Sound S K G Q s)
    (guard : G.Holds s a) (hstep : S.step a s = some s') :
  Sound S K G Q s'
  := by
  have same : ∀ t c, (S.contract K G t c).guarantee s.data s.data := fun t c =>
    ⟨sound.holds, K.refl s.data, fun t' _ => Db.Frame.refl t' s.data.db⟩
  obtain ⟨t, c, rfl, hidle, rfl⟩ | ⟨t, c, begun, op, next, r, data, rfl, hsession, hperform, rfl⟩ |
    ⟨t, c, begun, op, next, e, rfl, hsession, hfails, rfl⟩ |
    ⟨t, c, begun, p, rfl, hsession, hend, rfl⟩ | ⟨x, world, rfl, hx, rfl⟩ := step_cases hstep
  · refine sound.next (same t c) ?_ rfl
    apply (outlined.program t c s.data.world).safe
    exact ⟨sound.holds, sound.idle t hidle, guard, rfl⟩
  · have now := (sound.safe t _ hsession).call (r := r) (t := data)
      ⟨sound.holds, Or.inl ⟨guard c begun op next hsession, hperform⟩⟩
    exact sound.next (x := ⟨c, begun, next r⟩) now.1 now.2 rfl
  · have now := (sound.safe t _ hsession).call (r := .error e) (t := s.data)
      ⟨sound.holds, Or.inr ⟨rfl, e, hfails, rfl⟩⟩
    exact sound.next (x := ⟨c, begun, next (.error e)⟩) now.1 now.2 rfl
  · have safe := sound.safe t _ hsession
    have ends : s.data.db.Idle t := by
      obtain ⟨v, rfl⟩ | ⟨e, rfl⟩ := hend
      · exact outlined.idle t c begun _ _ safe.pure.2
      · exact outlined.idle t c begun _ _ safe.raise.2
    exact sound.ended ends rfl rfl
  · obtain ⟨hholds, hlater⟩ := outlined.environment x s.data world sound.holds hx
    constructor
    · exact hholds
    · exact sound.idle
    · intro t' x' hx'
      apply (sound.safe t' x' hx').stable
      exact ⟨fun _ => hholds, hlater, Db.Frame.refl t' s.data.db⟩

/-- The outlines hold along every run whose steps satisfy the guards. -/
theorem sound_of_run (outlined : Outlined S K G Q) {init : Data τ κ ν σ → Prop}
    (hinit : ∀ d, init d → K.holds d) {h : List (State τ κ ν R σ C ε α × Action τ C ε X)}
    (run : (S.machine init).Run h s) (guard : ∀ x ∈ h, G.Holds x.1 x.2) :
  Sound S K G Q s
  := by
  apply run.invariant_of_guard (I := Sound S K G Q) (G := fun s a => G.Holds s a) _ _ guard
  · rintro s ⟨hdata, hsessions, hidle⟩
    constructor
    · exact hinit s.data hdata
    · exact fun t _ => hidle t
    · intro t x hx
      rw [hsessions t] at hx
      cases hx
  · intro a s s' sound guard hstep
    exact sound.step outlined guard hstep

/-- A session that has come to its end: what is claimed of the outcome. -/
theorem Sound.outcome (sound : Sound S K G Q s) {t : τ} {x : Session κ ν R σ C ε α}
    (hx : s.sessions t = some x) {r : Except ε α} (hr : x.program.outcome = some r) :
  Q t x.call x.begun r s.data
  := ((sound.safe t x hx).outcome hr).2

theorem Sound.later (outlined : Outlined S K G Q) {a : Action τ C ε X} (sound : Sound S K G Q s)
    (guard : G.Holds s a) (hstep : S.step a s = some s') :
  K.later s.data s'.data
  := by
  obtain ⟨t, c, -, -, rfl⟩ | ⟨t, c, begun, op, next, r, data, rfl, hsession, hperform, rfl⟩ |
    ⟨t, c, begun, op, next, e, -, -, -, rfl⟩ | ⟨t, c, begun, p, -, -, -, rfl⟩ |
    ⟨x, world, -, hx, rfl⟩ := step_cases hstep
  · apply K.refl
  · have now := (sound.safe t _ hsession).call (r := r) (t := data)
      ⟨sound.holds, Or.inl ⟨guard c begun op next hsession, hperform⟩⟩
    exact now.1.2.1
  · apply K.refl
  · apply K.refl
  · exact (outlined.environment x s.data world sound.holds hx).2

/-- Each state of such a run is related to the last one. -/
theorem later_of_run (outlined : Outlined S K G Q) {init : Data τ κ ν σ → Prop}
    (hinit : ∀ d, init d → K.holds d) {h : List (State τ κ ν R σ C ε α × Action τ C ε X)}
    (run : (S.machine init).Run h s) (guard : ∀ x ∈ h, G.Holds x.1 x.2) :
  ∀ u ∈ Machine.states h s, K.later u.data s.data
  := by
  apply run.forall_later (I := Sound S K G Q) (G := fun s a => G.Holds s a)
    (R := fun u s => K.later u.data s.data) _ _ (fun _ => K.refl _) _ guard
  · intro s hs
    exact sound_of_run outlined hinit (.init hs) nofun
  · intro a s s' sound guard hstep
    exact sound.step outlined guard hstep
  · intro a u s s' sound guard hlater hstep
    exact K.trans hlater (sound.later outlined guard hstep)

end Soundness

end Runs

end Server

end ReadCommitted
