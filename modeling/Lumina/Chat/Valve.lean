import Lumina.Chat.Generate
import Lumina.Library.Transition

/-!
# Finalising a turn is a one-way valve

The abstract valve is a machine over the operations whose effects took place: before the row of
the message has a terminal status nothing is settled and no terminal event is sent; afterwards
the row is not written again, the reservation is settled at most once, and the terminal event
is the last one.  A generation keeps to the valve as long as no exception leaves a finaliser
that has already written the row and that stands inside the `try` of `_generate`.
-/

namespace Lumina.Chat

open Gateway Await Transition

/-! ### The abstract valve -/

namespace Op

/-- A write of the row of the message. -/
def isPersist : Op → Bool
  | persist _ => true
  | _ => false

/-- A settlement of the token reservation. -/
def isSettle : Op → Bool
  | commit .. | release _ => true
  | _ => false

/-- An event appended to the stream buffer. -/
def isAppend : Op → Bool
  | append _ => true
  | _ => false

end Op

/-- The one-way valve, for the operations that took effect.  Once a terminal status has been
written the row is not written again; the reservation is settled at most once; a terminal event
comes after such a write and is the last event. -/
structure Valve (ops : List Op) : Prop where
  no_rewrite : ∀ {pre row post}, ops = pre ++ .persist row :: post → row.status.isTerminal →
    ∀ op ∈ post, op.isPersist = false
  settled_once : ops.countP Op.isSettle ≤ 1
  terminal_last : ∀ {pre event post}, ops = pre ++ .append event :: post → event.isTerminal →
    (∃ row, row.status.isTerminal ∧ .persist row ∈ pre) ∧ ∀ op ∈ post, op.isAppend = false

/-- The states of the valve. -/
inductive Phase where
  | generating
  | finalised (settled sealed : Bool)
deriving DecidableEq

/-- The valve as a machine. -/
def valve : Machine Phase Op where
  init φ := φ = .generating
  step op φ :=
    match op, φ with
    | .persist row, .generating =>
        some (if row.status.isTerminal then .finalised false false else .generating)
    | .persist _, .finalised .. => none
    | .commit .., .finalised false isSealed => some (.finalised true isSealed)
    | .release _, .finalised false isSealed => some (.finalised true isSealed)
    | .commit .., _ => none
    | .release _, _ => none
    | .append event, .generating => if event.isTerminal then none else some .generating
    | .append event, .finalised settled isSealed =>
        if isSealed then none else some (.finalised settled event.isTerminal)
    | _, φ => some φ

namespace Phase

/-- How many settlements are still allowed. -/
def allowance : Phase → ℕ
  | generating => 1
  | finalised settled _ => if settled then 0 else 1

end Phase

section Valve

variable {op : Op} {ops : List Op} {φ ψ : Phase} {settled isSealed : Bool}

theorem valve_step_allowance (h : valve.step op φ = some ψ) :
  (if op.isSettle then 1 else 0) + ψ.allowance ≤ φ.allowance
  := by
  cases φ with
  | generating =>
    cases op
    all_goals simp [valve] at h
    all_goals grind [Phase.allowance, Op.isSettle]
  | finalised settled isSealed =>
    cases op
    all_goals cases settled
    all_goals simp [valve] at h
    all_goals grind [Phase.allowance, Op.isSettle]

/-- Once the row is final it is not written again, and after a terminal event there is no
other. -/
theorem valve_step_finalised (h : valve.step op (.finalised settled isSealed) = some ψ) :
  op.isPersist = false ∧ (isSealed = true → op.isAppend = false) ∧
    ∃ settled' sealed', ψ = .finalised settled' sealed' ∧ (isSealed = true → sealed' = true)
  := by
  cases op
  all_goals cases settled
  all_goals simp [valve] at h
  all_goals grind [Op.isPersist, Op.isAppend]

/-- The only step that leaves the first phase is a write of a terminal status. -/
theorem valve_step_generating (h : valve.step op .generating = some ψ) :
  ψ = .generating ∨ ∃ row, row.status.isTerminal ∧ op = .persist row
  := by
  cases op
  all_goals simp [valve] at h
  all_goals grind

theorem valve_exec_allowance (h : valve.exec ops φ = some ψ) :
  ops.countP Op.isSettle + ψ.allowance ≤ φ.allowance
  := by
  induction ops generalizing φ with
  | nil =>
    cases h
    simp
  | cons op ops ih =>
    obtain ⟨χ, hstep, hrest⟩ := valve.exec_cons_eq_some h
    have first := valve_step_allowance hstep
    have rest := ih hrest
    rw [List.countP_cons]
    omega

theorem valve_exec_finalised (h : valve.exec ops (.finalised settled isSealed) = some ψ) :
  (∀ op ∈ ops, op.isPersist = false) ∧
    (isSealed = true → ∀ op ∈ ops, op.isAppend = false) ∧
    ∃ settled' sealed', ψ = .finalised settled' sealed'
  := by
  induction ops generalizing settled isSealed with
  | nil =>
    cases h
    simp
  | cons op ops ih =>
    obtain ⟨χ, hstep, hrest⟩ := valve.exec_cons_eq_some h
    obtain ⟨notPersist, notAppend, settled', sealed', rfl, stays⟩ := valve_step_finalised hstep
    obtain ⟨noPersist, noAppend, last⟩ := ih hrest
    constructor
    · exact List.forall_mem_cons.mpr ⟨notPersist, noPersist⟩
    · constructor
      · intro hs
        exact List.forall_mem_cons.mpr ⟨notAppend hs, noAppend (stays hs)⟩
      · exact last

/-- The valve leaves its first phase only by writing a terminal status. -/
theorem valve_exec_generating (h : valve.exec ops .generating = some ψ) :
  ψ = .generating ∨ ∃ row, row.status.isTerminal ∧ .persist row ∈ ops
  := by
  induction ops with
  | nil =>
    cases h
    left
    rfl
  | cons op ops ih =>
    obtain ⟨χ, hstep, hrest⟩ := valve.exec_cons_eq_some h
    obtain rfl | ⟨row, terminal, rfl⟩ := valve_step_generating hstep
    · obtain rfl | ⟨row, terminal, mem⟩ := ih hrest
      · left
        rfl
      · right
        exact ⟨row, terminal, List.mem_cons_of_mem _ mem⟩
    · right
      exact ⟨row, terminal, List.mem_cons_self⟩

/-- What the machine accepts keeps to the valve. -/
theorem Valve.of_exec (h : valve.exec ops .generating = some ψ) :
  Valve ops
  := by
  constructor
  · rintro pre row post rfl terminal
    obtain ⟨φ, -, hrest⟩ := valve.exec_append_eq_some h
    obtain ⟨χ, hstep, hpost⟩ := valve.exec_cons_eq_some hrest
    cases φ with
    | finalised settled isSealed => cases hstep
    | generating =>
      simp only [valve, terminal, if_true] at hstep
      cases hstep
      exact (valve_exec_finalised hpost).1
  · have count := valve_exec_allowance h
    simp only [Phase.allowance] at count
    omega
  · rintro pre event post rfl terminal
    obtain ⟨φ, hpre, hrest⟩ := valve.exec_append_eq_some h
    obtain ⟨χ, hstep, hpost⟩ := valve.exec_cons_eq_some hrest
    cases φ with
    | generating => simp [valve, terminal] at hstep
    | finalised settled isSealed =>
      constructor
      · obtain absurd | persisted := valve_exec_generating hpre
        · cases absurd
        · exact persisted
      · simp only [valve, terminal] at hstep
        split at hstep
        · cases hstep
        · cases hstep
          exact (valve_exec_finalised hpost).2.1 rfl

end Valve

/-! ### Where the generation keeps to the valve -/

/-- The row of the message has been written with a terminal status. -/
def Persisted (log : Log) : Prop :=
  ∃ row, row.status.isTerminal ∧ .persist row ∈ effects log

/-- Once the row has a terminal status, no await inside the `try` of `_generate` raises,
except for an `Exception` in the guarded region of a finaliser. -/
def Contained (log : Log) : Prop :=
  ∀ pre x post, log = pre ++ x :: post → x.site.inTry = true → Persisted (pre ++ [x]) →
    ∀ e, x.fault.exn = some e → x.site.guarded = true ∧ e.isException = true

theorem Contained.of_prefix {log log' : Log} (h : Contained log') (prefix_of : log <+: log') :
  Contained log
  := by
  obtain ⟨rest, rfl⟩ := prefix_of
  rintro pre x post rfl
  apply h pre x (post ++ rest)
  simp

theorem Contained.of_forall {log : Log}
    (h : ∀ x ∈ log, x.site.inTry = true → ∀ e ∈ x.fault.exn,
      x.site.guarded = true ∧ e.isException = true) :
  Contained log
  := by
  rintro pre x post rfl inTry - e he
  exact h x (by simp) inTry e he

/-- The world in which a generation runs. -/
abbrev ChatWorld : Type :=
  World Op Site Exn Vars

/-- The effects so far lead the valve to the phase `φ`. -/
def At (φ : Phase) (w : ChatWorld) : Prop :=
  valve.exec (effects w.log) .generating = some φ

/-- The row has been finalised, and the valve was kept. -/
def Finalised (w : ChatWorld) : Prop :=
  ∃ settled isSealed, At (.finalised settled isSealed) w

theorem Finalised.persisted {w : ChatWorld} (h : Finalised w) :
  Persisted w.log
  := by
  obtain ⟨settled, isSealed, h⟩ := h
  obtain absurd | persisted := valve_exec_generating h
  · cases absurd
  · exact persisted

/-- What holds when a computation inside the `try` has ended with `r`: the row is not final, or
it is and, as long as the log is contained, the computation has returned. -/
def Finalising (inTry : Bool) (r : Except Exn Unit) (w : ChatWorld) : Prop :=
  At .generating w ∨
    Finalised w ∧ (inTry = true → Contained w.log → r = .ok ())

section Steps

variable {o : Oracle Op Site Exn} {op : Op} {φ ψ : Phase} {w : ChatWorld} {site : Site}

theorem At.step (h : At φ w) (hstep : valve.step op φ = some ψ) :
  valve.exec (effects w.log ++ [op]) .generating = some ψ
  := by
  rw [valve.exec_append, h]
  exact (valve.exec_singleton op φ).trans hstep

/-- An operation that leaves the first phase as it is. -/
theorem quiet_spec (hstep : valve.step op .generating = some .generating) :
  Triple o (At .generating) (perform site op) (fun _ w => At .generating w)
  := by
  apply Triple.perform
  · intro w h
    simpa [At] using h.step hstep
  · intro w e h
    simpa [At] using h
  · intro w e h
    simpa [At] using h.step hstep

/-- What holds after an operation in the guarded region of a finaliser: with a result, `S` of
the phase; after an exception, one that is caught as long as the log is contained. -/
def InGuard (site : Site) (S : Phase → Prop) (r : Except Exn Unit) (w : ChatWorld) : Prop :=
  match r with
  | .ok _ => ∃ φ, S φ ∧ At φ w
  | .error e =>
      Finalised w ∧ (site.inTry = true → Contained w.log → e.isException = true)

theorem guarded_step_spec {S S' : Phase → Prop} (hsite : site.guarded = true)
    (hS : ∀ φ, S φ → ∃ settled isSealed, φ = .finalised settled isSealed)
    (hstep : ∀ φ, S φ → ∃ settled isSealed,
      valve.step op φ = some (.finalised settled isSealed) ∧ S' (.finalised settled isSealed)) :
  Triple o (fun w => ∃ φ, S φ ∧ At φ w) (perform site op) (InGuard site S')
  := by
  have caught : ∀ (w : ChatWorld) (x : Entry Op Site Exn) e, x.site = site →
      x.fault.exn = some e →
      Finalised { w with log := w.log ++ [x] } →
      Finalised { w with log := w.log ++ [x] } ∧
        (site.inTry = true → Contained (w.log ++ [x]) → e.isException = true) := by
    rintro w x e rfl hx final
    use final
    intro inTry contained
    exact (contained w.log x [] rfl inTry final.persisted e hx).2
  apply Triple.perform
  · rintro w ⟨φ, hφ, h⟩
    obtain ⟨settled, isSealed, eq, hS'⟩ := hstep φ hφ
    use .finalised settled isSealed, hS'
    simpa [At] using h.step eq
  · rintro w e ⟨φ, hφ, h⟩
    obtain ⟨settled, isSealed, rfl⟩ := hS φ hφ
    apply caught w _ e rfl rfl
    use settled, isSealed
    simpa [At] using h
  · rintro w e ⟨φ, hφ, h⟩
    obtain ⟨settled, isSealed, eq, -⟩ := hstep φ hφ
    apply caught w _ e rfl rfl
    use settled, isSealed
    simpa [At] using h.step eq

end Steps

/-! ### The finalisers -/

/-- Nothing is settled yet. -/
def Unsettled (φ : Phase) : Prop := φ = .finalised false false

/-- No terminal event has been sent yet. -/
def Unsealed (φ : Phase) : Prop := ∃ settled, φ = .finalised settled false

/-- The terminal event has been sent. -/
def Sealed (φ : Phase) : Prop := ∃ settled, φ = .finalised settled true

section Finalisers

variable {o : Oracle Op Site Exn} {site : Site} {S S' : Phase → Prop}

theorem InGuard.weaken {m : ChatM Unit} {P : ChatWorld → Prop}
    (h : Triple o P m (InGuard site S)) (hS : ∀ φ, S φ → S' φ) :
  Triple o P m (InGuard site S')
  := by
  apply h.conseq (fun _ p => p)
  rintro (e | ⟨⟩) w q
  · exact q
  · obtain ⟨φ, hφ, hat⟩ := q
    exact ⟨φ, hS φ hφ, hat⟩

theorem InGuard.bind {m : ChatM Unit} {f : Unit → ChatM Unit} {P : ChatWorld → Prop}
    (hm : Triple o P m (InGuard site S))
    (hf : Triple o (fun w => ∃ φ, S φ ∧ At φ w) (f ()) (InGuard site S')) :
  Triple o P (m >>= f) (InGuard site S')
  := by
  apply hm.bind
  · rintro ⟨⟩
    exact hf
  · intro e w h
    exact h

theorem InGuard.pure :
  Triple o (fun w => ∃ φ, S φ ∧ At φ w) (Pure.pure () : ChatM Unit) (InGuard site S)
  := Triple.pure fun _ h => h

theorem recordUsage_spec (hsite : site.guarded = true) (turn : TurnStarted) (model : String)
    (usage : Option Usage) :
  Triple o (fun w => ∃ φ, Unsettled φ ∧ At φ w) (recordUsage site turn model usage)
    (InGuard site Unsettled)
  := by
  cases usage with
  | none => exact InGuard.pure
  | some u =>
    apply guarded_step_spec hsite
    · rintro φ rfl
      exact ⟨false, false, rfl⟩
    · rintro φ rfl
      exact ⟨false, false, rfl, rfl⟩

theorem settleTokens_spec (hsite : site.guarded = true) (reservation : Option QuotaReservation)
    (usage : Option Usage) :
  Triple o (fun w => ∃ φ, Unsettled φ ∧ At φ w) (settleTokens site reservation usage)
    (InGuard site Unsealed)
  := by
  cases reservation with
  | none =>
    apply InGuard.weaken InGuard.pure
    rintro φ rfl
    exact ⟨false, rfl⟩
  | some r =>
    cases usage
    all_goals
      apply guarded_step_spec hsite
      · rintro φ rfl
        exact ⟨false, false, rfl⟩
      · rintro φ rfl
        exact ⟨true, false, rfl, true, rfl⟩

theorem append_spec (hsite : site.guarded = true) (event : StreamEvent) :
  Triple o (fun w => ∃ φ, Unsealed φ ∧ At φ w) (perform site (.append event))
    (InGuard site fun φ => ∃ settled, φ = .finalised settled event.isTerminal)
  := by
  apply guarded_step_spec hsite
  · rintro φ ⟨settled, rfl⟩
    exact ⟨settled, false, rfl⟩
  · rintro φ ⟨settled, rfl⟩
    exact ⟨settled, event.isTerminal, rfl, settled, rfl⟩

theorem emitCitations_spec (hsite : site.guarded = true) (prepared : Option PreparedTurn)
    (citations : List Citation) :
  Triple o (fun w => ∃ φ, Unsealed φ ∧ At φ w) (emitCitations site prepared citations)
    (InGuard site Unsealed)
  := by
  unfold emitCitations
  split
  · exact append_spec hsite _
  · exact InGuard.pure

theorem settleBuffer_spec (hsite : site.guarded = true) :
  Triple o (fun w => ∃ φ, Sealed φ ∧ At φ w) (perform site .settleBuffer) (InGuard site Sealed)
  := by
  apply guarded_step_spec hsite
  · rintro φ ⟨settled, rfl⟩
    exact ⟨settled, true, rfl⟩
  · rintro φ ⟨settled, rfl⟩
    exact ⟨settled, true, rfl, settled, rfl⟩

/-- A finaliser: the row, and then a guarded region that keeps to the valve. -/
theorem finaliser_spec {inTry : Bool} {row : MessageUpdate} (terminal : row.status.isTerminal)
    {block : ChatM Unit}
    (hblock : Triple o (fun w => ∃ φ, Unsettled φ ∧ At φ w) block
      (InGuard ⟨inTry, true⟩ Sealed)) :
  Triple o (At .generating)
    (do
      perform ⟨inTry, false⟩ (.persist row)
      guarded block)
    (Finalising inTry)
  := by
  have step : valve.step (.persist row) .generating = some (.finalised false false) := by
    simp [valve, terminal]
  apply Triple.bind (Q := fun r w =>
    (r = .ok () ∧ At (.finalised false false) w) ∨ (r ≠ .ok () ∧ Finalising inTry r w))
  · apply Triple.perform
    · intro w h
      left
      use rfl
      simpa [At] using h.step step
    · intro w e h
      right
      constructor
      · nofun
      · left
        simpa [At] using h
    · intro w e h
      right
      constructor
      · nofun
      · right
        have final : At (.finalised false false)
            { w with log := w.log ++ [⟨.persist row, ⟨inTry, false⟩, .after e⟩] } := by
          simpa [At] using h.step step
        constructor
        · exact ⟨_, _, final⟩
        · rintro rfl contained
          have persisted : Persisted _ := Finalised.persisted ⟨_, _, final⟩
          exact absurd (contained w.log _ [] rfl rfl persisted e rfl).1 (by simp)
  · rintro ⟨⟩
    unfold guarded
    apply Triple.handle (Q := InGuard ⟨inTry, true⟩ Sealed)
    · apply hblock.conseq
      · rintro w (⟨-, h⟩ | ⟨absurd, -⟩)
        · exact ⟨_, rfl, h⟩
        · contradiction
      · exact fun _ _ q => q
    · rintro ⟨⟩ w ⟨φ, ⟨settled, rfl⟩, h⟩
      right
      exact ⟨⟨settled, true, h⟩, fun _ _ => rfl⟩
    · intro e
      split
      · apply Triple.pure
        rintro w ⟨final, -⟩
        right
        exact ⟨final, fun _ _ => rfl⟩
      · apply Triple.raise
        rintro w ⟨final, caught⟩
        right
        use final
        intro inTry contained
        have := caught inTry contained
        contradiction
  · rintro e w (⟨absurd, -⟩ | ⟨-, h⟩)
    · cases absurd
    · exact h

theorem complete_spec (turn : TurnStarted) (inTry : Bool) (v : Vars) (finishReason : String)
    (usage : Option Usage) {status : MessageStatus} (terminal : status.isTerminal) :
  Triple o (At .generating) (complete turn inTry v finishReason usage status)
    (Finalising inTry)
  := by
  apply finaliser_spec terminal
  apply InGuard.bind (recordUsage_spec rfl turn v.model usage)
  apply InGuard.bind (settleTokens_spec rfl turn.tokenReservation usage)
  apply InGuard.bind (emitCitations_spec rfl v.prepared _)
  apply InGuard.bind (append_spec rfl _)
  exact settleBuffer_spec rfl

theorem fail_spec (turn : TurnStarted) (inTry : Bool) (v : Vars) {f : Failure}
    (terminal : f.status.isTerminal) :
  Triple o (At .generating) (fail turn inTry v f) (Finalising inTry)
  := by
  apply finaliser_spec terminal
  apply InGuard.bind (settleTokens_spec rfl turn.tokenReservation v.usage)
  apply InGuard.bind (emitCitations_spec rfl v.prepared _)
  apply InGuard.bind (append_spec rfl _)
  exact settleBuffer_spec rfl

end Finalisers

/-! ### The stream and its handlers -/

section Generation

variable {α : Type} {o : Oracle Op Site Exn} {r : Except Exn Unit}

/-- A computation that leaves the row alone. -/
def Quiet (o : Oracle Op Site Exn) (m : ChatM α) : Prop :=
  Triple o (At .generating) m (fun _ w => At .generating w)

theorem Quiet.bind {β : Type} {m : ChatM α} {f : α → ChatM β} (hm : Quiet o m)
    (hf : ∀ a, Quiet o (f a)) :
  Quiet o (m >>= f)
  := Triple.bind hm hf fun _ _ h => h

theorem Quiet.then {m : ChatM α} {f : α → ChatM Unit} (hm : Quiet o m)
    (hf : ∀ a, Triple o (At .generating) (f a) (Finalising true)) :
  Triple o (At .generating) (m >>= f) (Finalising true)
  := Triple.bind hm hf fun _ _ h => .inl h

theorem Quiet.finalising {m : ChatM Unit} (hm : Quiet o m) :
  Triple o (At .generating) m (Finalising true)
  := hm.conseq (fun _ p => p) fun _ _ h => .inl h

theorem quiet_pure (a : α) :
  Quiet o (pure a)
  := Triple.pure fun _ h => h

theorem quiet_raise (e : Exn) :
  Quiet o (raise e : ChatM α)
  := Triple.raise fun _ h => h

theorem quiet_get :
  Quiet o (get : ChatM Vars)
  := ⟨fun _ h => h⟩

theorem quiet_modify (f : Vars → Vars) :
  Quiet o (modify f : ChatM Unit)
  := ⟨fun _ h => h⟩

theorem quiet_inTry {op : Op} (hstep : valve.step op .generating = some .generating) :
  Quiet o (inTry op)
  := quiet_spec hstep

theorem quiet_closeStream :
  Quiet o closeStream
  := by
  unfold closeStream
  apply Quiet.bind quiet_get
  intro v
  split
  · apply Quiet.bind (quiet_modify _)
    intro _
    exact quiet_inTry rfl
  · exact quiet_pure ()

theorem quiet_next :
  Quiet o next
  := by
  unfold next
  apply Quiet.bind (quiet_modify _)
  intro _
  apply Quiet.bind (quiet_inTry rfl)
  intro _
  exact quiet_modify _

theorem stopTurn_spec (turn : TurnStarted) :
  Triple o (At .generating) (stopTurn turn) (Finalising true)
  := by
  unfold stopTurn
  apply Quiet.then quiet_closeStream
  intro _
  apply Quiet.then quiet_get
  intro v
  exact complete_spec turn true v _ _ rfl

theorem quiet_pollStop (a : Arrival) (checked : ℕ) :
  Quiet o (pollStop a checked)
  := by
  unfold pollStop
  split
  · apply Quiet.bind (quiet_inTry rfl)
    intro _
    exact quiet_pure _
  · exact quiet_pure _

theorem quiet_deliver (δ : ProviderDelta) :
  Quiet o (deliver δ)
  := by
  cases δ with
  | text δ =>
    apply Quiet.bind (quiet_modify _)
    intro _
    exact quiet_inTry rfl
  | usage u =>
    apply Quiet.bind (quiet_modify _)
    intro _
    exact quiet_inTry rfl
  | toolCall δ => exact quiet_inTry rfl
  | done δ => exact quiet_pure _

theorem consume_spec (turn : TurnStarted) (ending : Option Exn) (arrivals : List Arrival)
    (checked : ℕ) :
  Triple o (At .generating) (consume turn ending arrivals checked) (Finalising true)
  := by
  induction arrivals generalizing checked with
  | nil =>
    unfold consume
    apply Quiet.then (quiet_modify _)
    intro _
    apply Quiet.then (quiet_inTry rfl)
    intro _
    cases ending with
    | none => exact (quiet_pure ()).finalising
    | some e => exact (quiet_raise e).finalising
  | cons a rest ih =>
    unfold consume
    apply Quiet.then quiet_next
    intro _
    apply Quiet.then (quiet_pollStop a checked)
    intro polled
    split
    · exact stopTurn_spec turn
    · split
      · apply Quiet.then quiet_get
        intro v
        exact fail_spec turn true v rfl
      · apply Quiet.then quiet_get
        intro v
        exact complete_spec turn true v _ _ rfl
      · apply Quiet.then (quiet_deliver _)
        intro _
        apply ih

/-- Closing the stream after the row is final returns, as long as the log is contained. -/
theorem closeStream_finalised (settled isSealed : Bool) :
  Triple o (fun w => At (.finalised settled isSealed) w ∧ (Contained w.log → r = .ok ()))
    closeStream
    (fun r' w => Finalising true (cleanup r r') w)
  := by
  have step : valve.step .closeStream (.finalised settled isSealed) =
      some (.finalised settled isSealed) := rfl
  have uncontained : ∀ (w : ChatWorld) (x : Entry Op Site Exn) e, x.site = ⟨true, false⟩ →
      x.fault.exn = some e → Finalised { w with log := w.log ++ [x] } →
      ¬ Contained (w.log ++ [x]) := by
    intro w x e site hx final contained
    have caught := (contained w.log x [] rfl (by rw [site]) final.persisted e hx).1
    rw [site] at caught
    cases caught
  unfold closeStream
  apply Triple.get_bind
  intro v
  split
  · apply Triple.modify_bind
    apply Triple.perform
    · rintro w ⟨_, ⟨⟨h, returned⟩, -⟩, -⟩
      right
      constructor
      · use settled, isSealed
        simpa [At] using h.step step
      · rintro - contained
        apply returned
        exact contained.of_prefix (List.prefix_append _ _)
    · rintro w e ⟨_, ⟨⟨h, -⟩, -⟩, -⟩
      right
      have final : Finalised
          { w with log := w.log ++ [⟨.closeStream, ⟨true, false⟩, .before e⟩] } := by
        use settled, isSealed
        simpa [At] using h
      use final
      intro _ contained
      exact absurd contained (uncontained w _ e rfl rfl final)
    · rintro w e ⟨_, ⟨⟨h, -⟩, -⟩, -⟩
      right
      have final : Finalised
          { w with log := w.log ++ [⟨.closeStream, ⟨true, false⟩, .after e⟩] } := by
        use settled, isSealed
        simpa [At] using h.step step
      use final
      intro _ contained
      exact absurd contained (uncontained w _ e rfl rfl final)
  · apply Triple.pure
    rintro w ⟨⟨h, returned⟩, -⟩
    right
    exact ⟨⟨settled, isSealed, h⟩, fun _ => returned⟩

/-- Closing the stream keeps what the loop has established. -/
theorem closeStream_spec :
  Triple o (Finalising true r) closeStream fun r' w => Finalising true (cleanup r r') w
  := by
  constructor
  rintro w (h | ⟨⟨settled, isSealed, h⟩, returned⟩)
  · left
    exact quiet_closeStream.sound w h
  · exact (closeStream_finalised settled isSealed).sound w ⟨h, returned rfl⟩

theorem generateBody_spec (turn : TurnStarted) (script : Script) :
  Triple o (At .generating) (generateBody turn script) (Finalising true)
  := by
  unfold generateBody
  apply Quiet.then (quiet_inTry rfl)
  intro _
  apply Quiet.then (quiet_modify _)
  intro _
  apply Quiet.then (quiet_inTry rfl)
  intro _
  apply Quiet.then (quiet_inTry rfl)
  intro _
  apply Triple.ensure (consume_spec turn _ _ _)
  intro r
  exact closeStream_spec

/-- The valve was kept. -/
def Kept (w : ChatWorld) : Prop :=
  ∃ φ, At φ w

theorem Finalising.kept {inTry : Bool} {w : ChatWorld} (h : Finalising inTry r w) :
  Kept w
  := by
  obtain h | ⟨⟨settled, isSealed, h⟩, -⟩ := h
  · exact ⟨_, h⟩
  · exact ⟨_, h⟩

/-- The handlers keep to the valve when the row is not final, which it is not when a contained
computation has raised. -/
theorem onException_spec (turn : TurnStarted) (e : Exn) :
  Triple o (Finalising true (.error e)) (onException turn e)
    (fun _ w => Contained w.log → Kept w)
  := by
  have failing : ∀ v, Triple o (At .generating) (fail turn false v (.ofExn e))
      (Finalising false) := by
    intro v
    apply fail_spec
    cases e
    all_goals rfl
  have handled : Triple o (At .generating) (onException turn e) (fun _ w => Kept w) := by
    unfold onException
    apply Triple.bind quiet_get
    · intro v
      cases e with
      | cancelled =>
        apply Triple.bind (Q := fun _ w => Kept w)
        · apply Triple.handle (failing v)
          · intro _ w h
            exact h.kept
          · intro e
            split
            · exact Triple.pure fun _ h => h.kept
            · exact Triple.raise fun _ h => h.kept
        · intro _
          exact Triple.raise fun _ h => h
        · intro _ _ h
          exact h
      | provider e => exact (failing v).conseq (fun _ h => h) fun _ _ h => h.kept
      | other name => exact (failing v).conseq (fun _ h => h) fun _ _ h => h.kept
    · intro _ w h
      exact ⟨_, h⟩
  constructor
  rintro w (h | ⟨-, returned⟩) contained
  · exact handled.sound w h
  · have absurd := returned rfl (contained.of_prefix ((onException turn e).extends_log o w))
    cases absurd

theorem generate_spec (turn : TurnStarted) (script : Script) :
  Triple o (At .generating) (generate turn script) (fun _ w => Contained w.log → Kept w)
  := by
  unfold generate
  apply Triple.ensure (Q := fun _ w => Contained w.log → Kept w)
  · unfold generateInner
    apply Triple.handle (generateBody_spec turn script)
    · intro _ w h _
      exact h.kept
    · exact onException_spec turn
  · intro r
    cases turn.streamReservation with
    | none => exact Triple.pure fun _ h => h
    | some reservation =>
      have step : ∀ φ, valve.step (.releaseStream reservation) φ = some φ := fun _ => rfl
      apply Triple.perform
      · intro w h contained
        obtain ⟨φ, hφ⟩ := h (contained.of_prefix (List.prefix_append _ _))
        use φ
        simpa [At] using hφ.step (step φ)
      · intro w e h contained
        obtain ⟨φ, hφ⟩ := h (contained.of_prefix (List.prefix_append _ _))
        use φ
        simpa [At] using hφ
      · intro w e h contained
        obtain ⟨φ, hφ⟩ := h (contained.of_prefix (List.prefix_append _ _))
        use φ
        simpa [At] using hφ.step (step φ)

end Generation

/-- In every run of `generate` whose awaits are contained, the operations that have taken effect
keep to the valve at every moment. -/
theorem generate_valve (turn : TurnStarted) (script : Script) (o : Oracle Op Site Exn)
    (contained : Contained (generateLog turn script o)) :
  ∀ log, log <+: generateLog turn script o → Valve (effects log)
  := by
  rintro log ⟨rest, eq⟩
  have start : At .generating ⟨{ model := turn.model }, []⟩ := rfl
  obtain ⟨φ, h⟩ := (generate_spec turn script).sound _ start contained
  have exec : valve.exec (effects log ++ effects rest) .generating = some φ := by
    rw [← effects_append, eq]
    exact h
  obtain ⟨ψ, hpre, -⟩ := valve.exec_append_eq_some exec
  exact Valve.of_exec hpre

/-! ### A finished answer, and a shutdown -/

/-- An oracle under which `op` raises `e` the first time that it is performed, before its
effect. -/
def raisesOnce (op : Op) (e : Exn) : Oracle Op Site Exn :=
  fun log op' => if op' = op ∧ log.all (·.op ≠ op) then .before e else .none

/-- The valve is kept when the usage log fails after an answer. -/
theorem generate_valve_record :
  Valve (effects (generateLog sampleTurn sampleScript
    (raisesOnce (.record (usageEvent sampleTurn "m" ⟨10, 5, false⟩)) (.other "DatabaseError"))))
  := by
  apply generate_valve sampleTurn sampleScript _ _ _ (List.prefix_refl _)
  apply Contained.of_forall
  decide

/-- A shutdown that cancels the last await of a finished answer: the turn is finalised again. -/
theorem generate_valve_shutdown :
  ¬ Valve (effects (generateLog sampleTurn sampleScript (raisesOnce .settleBuffer .cancelled)))
  := by
  intro h
  have settled := h.settled_once
  revert settled
  decide

end Lumina.Chat
