import Lumina.Knowledge.WellFormed

/-!
# Activities that keep to a contract

The activities of the system interfere with each other between any two of their operations.  A
`Discipline` gives each of them a contract: what it relies on, what it guarantees, and what holds
when it ends.  If every activity keeps to its contract from the beginning on and the guarantees
of one imply what the others rely on, then all activities keep to their contracts in all states
of all runs, as long as the operations are admitted ones.
-/

namespace Lumina.Knowledge

open Interleaving Transition

/-! ### The steps of the system -/

/-- The action performs an operation of an activity, with a certain answer. -/
def Performs (w : World) (a : Action) (me : Option Message) (op : Op) (answer : Answer) : Prop :=
  ∃ i next, a = .work i answer ∧ w.running[i]? = some { message := me, code := .call op next }

/-- What an action leaves as it is when it performs no operation. -/
structure Quiet (s t : Shared) : Prop where
  db : t.db = s.db
  objects : t.objects = s.objects
  writers : t.writers = s.writers
  aliases : ∀ x ∈ t.aliases, x ∈ s.aliases

/-- The activities that can begin in a state. -/
inductive Begins (cfg : Settings) (s : Shared) : Activity → Prop where
  | request (r : Request) : Begins cfg s { code := r.code cfg }
  | deliver {message : Message} (batches : ℕ) (queued : message ∈ s.queue) :
      Begins cfg s (.ofMessage cfg batches message)

section

variable {cfg : Settings} {w w' : World} {a : Action}

theorem step_work {i : ℕ} {answer : Answer} (h : World.step cfg (.work i answer) w = some w') :
  ∃ me op next r s',
    w.running[i]? = some { message := me, code := .call op next } ∧
    w.shared.perform cfg me op answer = some (r, s') ∧
    w' = { shared := s', running := w.running.set i { message := me, code := next r } }
  := by
  simp only [World.step, Option.bind_eq_bind, Option.bind_eq_some_iff] at h
  obtain ⟨⟨me, code⟩, hactivity, h⟩ := h
  split at h
  next op next hcode =>
    cases hcode
    simp only [Option.bind_eq_some_iff] at h
    obtain ⟨⟨r, s'⟩, hperform, h⟩ := h
    cases h
    exact ⟨me, op, next, r, s', hactivity, hperform, rfl⟩
  next => cases h

theorem mem_append_begins {s : Shared} {running : List Activity} {new activity : Activity}
    (hnew : Begins cfg s new) (h : activity ∈ running ++ [new]) :
  activity ∈ running ∨ Begins cfg s activity
  := by
  obtain h | h := List.mem_append.mp h
  · left
    apply h
  · right
    rw [List.mem_singleton.mp h]
    apply hnew

/-- An action that performs no operation leaves the services alone; an activity may end, and
another one may begin. -/
theorem step_quiet (h : World.step cfg a w = some w') (ha : ∀ i answer, a ≠ .work i answer) :
  Quiet w.shared w'.shared ∧
    ∀ activity ∈ w'.running, activity ∈ w.running ∨ Begins cfg w.shared activity
  := by
  cases a with
  | work i answer => exact absurd rfl (ha i answer)
  | request r =>
    cases h
    constructor
    · exact ⟨rfl, rfl, rfl, fun _ h => h⟩
    · intro activity hactivity
      apply mem_append_begins (.request r) hactivity
  | deliver i batches =>
    simp only [World.step, Option.bind_eq_bind, Option.bind_eq_some_iff] at h
    obtain ⟨message, hmessage, h⟩ := h
    cases h
    constructor
    · exact ⟨rfl, rfl, rfl, fun _ h => h⟩
    · intro activity hactivity
      apply mem_append_begins (.deliver batches (List.mem_of_getElem? hmessage)) hactivity
  | duplicate i =>
    simp only [World.step, Option.bind_eq_bind, Option.bind_eq_some_iff] at h
    obtain ⟨message, -, h⟩ := h
    cases h
    exact ⟨⟨rfl, rfl, rfl, fun _ h => h⟩, fun _ h => .inl h⟩
  | redeliver i =>
    simp only [World.step, Option.bind_eq_bind, Option.bind_eq_some_iff] at h
    obtain ⟨activity, -, message, -, h⟩ := h
    cases h
    exact ⟨⟨rfl, rfl, rfl, fun _ h => h⟩, fun _ h => .inl h⟩
  | crash i =>
    simp only [World.step, Option.bind_eq_bind, Option.bind_eq_some_iff] at h
    obtain ⟨activity, -, h⟩ := h
    cases h
    exact ⟨⟨rfl, rfl, rfl, fun _ h => h⟩, fun _ h => .inl (List.mem_of_mem_eraseIdx h)⟩
  | finish i =>
    simp only [World.step, Option.bind_eq_bind, Option.bind_eq_some_iff] at h
    obtain ⟨activity, -, h⟩ := h
    split at h
    · cases h
    · cases h
      exact ⟨⟨rfl, rfl, rfl, fun _ h => h⟩, fun _ h => .inl (List.mem_of_mem_eraseIdx h)⟩
  | tick seconds =>
    cases h
    exact ⟨⟨rfl, rfl, rfl, fun _ h => h⟩, fun _ h => .inl h⟩
  | expire requested =>
    cases h
    exact ⟨⟨rfl, rfl, rfl, fun _ h => List.mem_of_mem_filter h⟩, fun _ h => .inl h⟩

end

/-! ### Disciplines -/

/-- A contract for every activity, by its message.  `inv` is an invariant of the system that the
proofs of the contracts may use, and `admits` restricts the operations to those that a result
is about. -/
structure Discipline (cfg : Settings) where
  inv : World → Prop
  admits : Option Message → Op → Answer → Shared → Prop
  rely : Option Message → Shared → Shared → Prop
  guarantee : Option Message → Shared → Shared → Prop
  post : Option Message → Except Exn Unit → Shared → Prop
  refl : ∀ me s, rely me s s
  trans : ∀ {me s t u}, rely me s t → rely me t u → rely me s u

namespace Discipline

variable {cfg : Settings} (D : Discipline cfg)

def contract (me : Option Message) : Contract Op.Reply Exn Shared where
  step op s r t :=
    (∃ running, D.inv { shared := s, running := running }) ∧
      ∃ answer, D.admits me op answer s ∧ s.perform cfg me op answer = some (r, t)
  rely := D.rely me
  guarantee := D.guarantee me
  refl := D.refl me
  trans := D.trans

/-- From this state on, the activity keeps to its contract. -/
def Safe (activity : Activity) (s : Shared) : Prop :=
  (D.contract activity.message).Safe (D.post activity.message) activity.code s

/-- The action performs an admitted operation, if any. -/
def Admits (w : World) (a : Action) : Prop :=
  ∀ me op answer, Performs w a me op answer → D.admits me op answer w.shared

/-- The invariant holds and all activities keep to their contracts. -/
structure Holds (w : World) : Prop where
  inv : D.inv w
  safe : ∀ activity ∈ w.running, D.Safe activity w.shared

/-- What is to be shown of a discipline. -/
structure Lawful : Prop where
  init : ∀ w, World.Initial w → D.inv w
  begins : ∀ w activity, D.inv w → Begins cfg w.shared activity → D.Safe activity w.shared
  quiet : ∀ me s t, Quiet s t → D.rely me s t
  interferes : ∀ (w : World) (i j : ℕ) (a b : Activity) t, D.inv w → w.running[i]? = some a → w.running[j]? = some b →
    i ≠ j → D.guarantee a.message w.shared t → D.rely b.message w.shared t
  keeps_quiet : ∀ a w w', D.Holds w → (∀ i answer, a ≠ .work i answer) →
    World.step cfg a w = some w' → D.inv w'
  keeps_work : ∀ (w : World) (i : ℕ) me op next r answer t, D.Holds w →
    w.running[i]? = some { message := me, code := .call op next } →
    D.admits me op answer w.shared → w.shared.perform cfg me op answer = some (r, t) →
    D.guarantee me w.shared t →
    D.inv { shared := t, running := w.running.set i { message := me, code := next r } }

variable {D}

/-- An operation of a safe activity keeps the guarantee, and the activity stays safe. -/
theorem Holds.performs {w : World} (h : D.Holds w) {i : ℕ} {me : Option Message} {op : Op}
    {next : Except Exn op.Reply → Prog Unit} {answer : Answer} {r : Except Exn op.Reply}
    {t : Shared} (hactivity : w.running[i]? = some { message := me, code := .call op next })
    (hadmits : D.admits me op answer w.shared)
    (hperform : w.shared.perform cfg me op answer = some (r, t)) :
  D.guarantee me w.shared t ∧ D.Safe { message := me, code := next r } t
  := by
  have safe : D.Safe { message := me, code := .call op next } w.shared :=
    h.safe _ (List.mem_of_getElem? hactivity)
  apply Contract.Safe.call safe
  exact ⟨⟨w.running, h.inv⟩, answer, hadmits, hperform⟩

/-- One step of the system. -/
theorem Lawful.step (lawful : D.Lawful) {w w' : World} {a : Action} (h : D.Holds w)
    (hadmits : D.Admits w a) (hstep : World.step cfg a w = some w') :
  D.Holds w'
  := by
  by_cases ha : ∃ i answer, a = .work i answer
  · obtain ⟨i, answer, rfl⟩ := ha
    obtain ⟨me, op, next, r, t, hactivity, hperform, rfl⟩ := step_work hstep
    have hop : D.admits me op answer w.shared := hadmits me op answer ⟨i, next, rfl, hactivity⟩
    obtain ⟨hguarantee, hsafe⟩ := h.performs hactivity hop hperform
    constructor
    · apply lawful.keeps_work w i me op next r answer t h hactivity hop hperform hguarantee
    · intro activity hmem
      obtain ⟨j, hj⟩ := List.mem_iff_getElem?.mp hmem
      obtain ⟨rfl, rfl⟩ | ⟨hne, hj⟩ := Table.of_getElem?_set hj
      · apply hsafe
      · apply (h.safe activity (List.mem_of_getElem? hj)).stable
        apply lawful.interferes w i j _ activity t h.inv hactivity hj (Ne.symm hne) hguarantee
  · have hquiet : ∀ i answer, a ≠ .work i answer := fun i answer h => ha ⟨i, answer, h⟩
    obtain ⟨quiet, running⟩ := step_quiet hstep hquiet
    constructor
    · apply lawful.keeps_quiet a w w' h hquiet hstep
    · intro activity hmem
      have hrely := lawful.quiet activity.message w.shared w'.shared quiet
      obtain old | new := running activity hmem
      · apply (h.safe activity old).stable hrely
      · apply (lawful.begins w activity h.inv new).stable hrely

/-- In a run of admitted operations, all activities keep to their contracts in all states. -/
theorem Lawful.run (lawful : D.Lawful) {h : List (World × Action)} {w : World}
    (run : (system cfg).Run h w) (hadmits : ∀ x ∈ h, D.Admits x.1 x.2) :
  ∀ u ∈ Machine.states h w, D.Holds u
  := by
  induction run with
  | init hs =>
    intro u hu
    rw [List.mem_singleton.mp hu]
    constructor
    · apply lawful.init _ hs
    · obtain ⟨_, _, rfl⟩ := hs
      intro activity hmem
      cases hmem
  | @step h s t a run hstep ih =>
    have before := ih fun x hx => hadmits x (List.mem_cons_of_mem _ hx)
    intro u hu
    obtain rfl | hu := List.mem_cons.mp hu
    · apply lawful.step (before s List.mem_cons_self) _ hstep
      apply hadmits (s, a) List.mem_cons_self
    · apply before u hu

end Discipline

/-! ### Document tasks -/

section

variable {C : Contract Op.Reply Exn Shared} {P : Shared → Prop}

/-- A document task keeps what its service and its record of a failure keep, if the slots and the
messages do not matter. -/
theorem keeps_documentTask (cfg : Settings) {kind : SlotKind} {message : Message}
    {service : Prog DocumentStatus} {exhausted : Exn → ℕ → Prog Unit} (hP : C.Stable P)
    (hservice : C.Keeps P service fun _ => True)
    (hexhausted : ∀ e attempts, C.Keeps P (exhausted e attempts) fun _ => True)
    (hacquire : C.Keeps P (perform (.acquire kind)) fun _ => True)
    (hrelease : C.Keeps P (perform (.release kind)) fun _ => True)
    (hretry : C.Keeps P (perform .retry) fun _ => True)
    (henqueue : ∀ delay, C.Keeps P (perform (.enqueue message.task message.sentFor delay))
      fun _ => True) :
  C.Keeps P (documentTask cfg kind message service exhausted) fun _ => True
  := by
  apply Contract.Keeps.bind hacquire
  intro granted _
  split
  · apply Contract.Keeps.ensure hP _ hrelease
    apply Contract.Keeps.bind hservice.attempt
    intro r _
    cases r with
    | ok status => apply Contract.Keeps.pure hP trivial
    | error e =>
      dsimp only
      split
      · apply Contract.Keeps.pure hP trivial
      · split
        · apply Contract.Keeps.bind (hexhausted e _)
          intro _ _
          apply Contract.Keeps.raise hP
        · apply Contract.Keeps.bind hretry
          intro _ _
          apply Contract.Keeps.raise hP
  · apply Contract.Keeps.bind (henqueue _)
    intro _ _
    apply Contract.Keeps.pure hP trivial

end

end Lumina.Knowledge
