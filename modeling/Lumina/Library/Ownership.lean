import Lumina.Library.Server

/-!
# Sessions that own a part of the data

`Server.Claim` treats the other sessions alike.  Here what a session may count on depends on the
session: there may be something in the data that is its own and that no other session touches.  What
holds of a session while it rests holds again when its call has ended, so that something can be said
about the moments at which no call is under way.
-/

namespace ReadCommitted

open Interleaving Transition

namespace Server

variable {τ κ ν E σ C ε α X : Type} {R : E → Type} [DecidableEq τ] [DecidableEq κ]

/-- What holds of the data, how the others may change it as a session notices it, and what holds of
a session that rests. -/
structure Discipline (τ κ ν σ : Type) where
  holds : Data τ κ ν σ → Prop
  rely : τ → Data τ κ ν σ → Data τ κ ν σ → Prop
  rest : τ → Data τ κ ν σ → Prop
  refl : ∀ t d, rely t d d
  trans : ∀ {t d d' d''}, rely t d d' → rely t d' d'' → rely t d d''
  stable : ∀ {t d d'}, rely t d d' → rest t d → rest t d'

namespace Discipline

variable (D : Discipline τ κ ν σ) (S : Server τ κ ν R σ C ε α X)

def contract (t : τ) (c : C) :
    Contract (Op.Reply (κ := κ) (ν := ν) R) ε (Data τ κ ν σ) where
  step op d r d' := S.perform t c op d = some (r, d') ∨
    (d' = d ∧ ∃ e, S.mayFail c e op = true ∧ r = .error e)
  rely d d' := (D.holds d → D.holds d') ∧ D.rely t d d'
  guarantee d d' := D.holds d' ∧ ∀ t' ≠ t, D.rely t' d d'
  refl d := ⟨id, D.refl t d⟩
  trans h h' := ⟨h'.1 ∘ h.1, D.trans h.2 h'.2⟩

/-- The obligations: a call keeps to the discipline and leaves the session at rest. -/
structure Lawful : Prop where
  program : ∀ t c, (D.contract S t c).Triple (fun d => D.holds d ∧ D.rest t d) (S.program c)
    fun _ d => D.holds d ∧ D.rest t d
  environment : ∀ x d w, D.holds d → S.environment x d.world = some w →
    D.holds ⟨d.db, w⟩ ∧ ∀ t, D.rely t d ⟨d.db, w⟩

/-- What holds along a run. -/
structure Sound (s : State τ κ ν R σ C ε α) : Prop where
  holds : D.holds s.data
  rest : ∀ t, s.sessions t = none → D.rest t s.data
  safe : ∀ t x, s.sessions t = some x → (D.contract S t x.call).Safe
    (fun _ d => D.holds d ∧ D.rest t d) x.program s.data

variable {D S} {s s' : State τ κ ν R σ C ε α}

/-- A session whose call has come to its end is at rest. -/
theorem Sound.ended (sound : D.Sound S s) {t : τ} {x : Session κ ν R σ C ε α}
    (hx : s.sessions t = some x) {r : Except ε α} (hr : x.program.outcome = some r) :
  D.rest t s.data
  := ((sound.safe t x hx).outcome hr).2

/-- The others after a step that the discipline allows to a session, which is then at rest or goes
on. -/
theorem Sound.next (sound : D.Sound S s) {t : τ} (holds : D.holds s'.data)
    (rely : ∀ t' ≠ t, D.rely t' s.data s'.data) {x : Option (Session κ ν R σ C ε α)}
    (sessions : s'.sessions = Function.update s.sessions t x)
    (rest : x = none → D.rest t s'.data)
    (safe : ∀ y, x = some y → (D.contract S t y.call).Safe
      (fun _ d => D.holds d ∧ D.rest t d) y.program s'.data) :
  D.Sound S s'
  := by
  constructor
  · exact holds
  · intro t' hidle
    rw [sessions] at hidle
    by_cases ht : t' = t
    · subst ht
      rw [Function.update_self] at hidle
      exact rest hidle
    · rw [Function.update_of_ne ht] at hidle
      exact D.stable (rely t' ht) (sound.rest t' hidle)
  · intro t' y hy
    rw [sessions] at hy
    by_cases ht : t' = t
    · subst ht
      rw [Function.update_self] at hy
      exact safe y hy
    · rw [Function.update_of_ne ht] at hy
      exact (sound.safe t' y hy).stable ⟨fun _ => holds, rely t' ht⟩

theorem Sound.step (lawful : D.Lawful S) {a : Action τ C ε X} (sound : D.Sound S s)
    (hstep : S.step a s = some s') :
  D.Sound S s'
  := by
  obtain ⟨t, c, rfl, hidle, rfl⟩ | ⟨t, c, begun, op, next, r, data, rfl, hsession, hperform, rfl⟩ |
    ⟨t, c, begun, op, next, e, rfl, hsession, hfails, rfl⟩ |
    ⟨t, c, begun, p, rfl, hsession, hend, rfl⟩ | ⟨x, world, rfl, hx, rfl⟩ := step_cases hstep
  · refine sound.next (t := t) sound.holds (fun t' _ => D.refl t' _) rfl (fun h => nomatch h) ?_
    rintro y ⟨⟩
    exact (lawful.program t c).safe s.data ⟨sound.holds, sound.rest t hidle⟩
  · have now := (sound.safe t _ hsession).call (r := r) (t := data) (Or.inl hperform)
    refine sound.next (t := t) now.1.1 now.1.2 rfl (fun h => nomatch h) ?_
    rintro y ⟨⟩
    exact now.2
  · have now := (sound.safe t _ hsession).call (r := .error e) (t := s.data)
      (Or.inr ⟨rfl, e, hfails, rfl⟩)
    refine sound.next (t := t) now.1.1 now.1.2 rfl (fun h => nomatch h) ?_
    rintro y ⟨⟩
    exact now.2
  · refine sound.next (t := t) sound.holds (fun t' _ => D.refl t' _) rfl ?_ (fun y h => nomatch h)
    intro _
    obtain ⟨v, rfl⟩ | ⟨e, rfl⟩ := hend
    · exact sound.ended hsession rfl
    · exact sound.ended hsession rfl
  · obtain ⟨holds, rely⟩ := lawful.environment x s.data world sound.holds hx
    constructor
    · exact holds
    · exact fun t hidle => D.stable (rely t) (sound.rest t hidle)
    · exact fun t y hy => (sound.safe t y hy).stable ⟨fun _ => holds, rely t⟩

/-- The discipline is kept along every run. -/
theorem sound_of_run (lawful : D.Lawful S) {init : Data τ κ ν σ → Prop}
    (hinit : ∀ d, init d → (∀ t, d.db.Idle t) → D.holds d ∧ ∀ t, D.rest t d)
    {h : List (State τ κ ν R σ C ε α × Action τ C ε X)} (run : (S.machine init).Run h s) :
  D.Sound S s
  := by
  apply run.invariant (I := D.Sound S)
  · rintro s ⟨hdata, hsessions, hidle⟩
    obtain ⟨holds, rest⟩ := hinit s.data hdata hidle
    constructor
    · exact holds
    · exact fun t _ => rest t
    · intro t x hx
      rw [hsessions t] at hx
      cases hx
  · exact fun a s s' sound hstep => sound.step lawful hstep

end Discipline

end Server

end ReadCommitted
