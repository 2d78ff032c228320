import Lumina.Quota.Clients

/-!
# What a client adds to the counter

A client is alone with its own share of the counter: the others may do to the counter what they
like, as long as it is not less than this share.  `Moves` is the triple of a part that begins
with one share and ends with another one, and never raises.  From it follows what each call
leaves in the counter: a refused reservation nothing, a granted one its amount, a settlement the
actual amount.
-/

namespace Lumina.Quota

open Interleaving
open Program hiding pure

/-- A resource that is metered by a key of Redis, and its limit. -/
structure CounterResource where
  resource : Resource
  limit : ℕ
  limited : resource.limit = some limit
  counted : resource.metering ≠ .database

/-- The contract of a client with its share of the counter; `still` says that the share does not
change any more. -/
def contract (still : Bool) : Contract Op.Reply QuotaExceededError (Store × ℤ) where
  step op s r t :=
    s.2 ≤ s.1.counter ∧ r = .ok (s.1.exec op).1 ∧ t = ((s.1.exec op).2, s.2 + op.delta)
  rely s t := t.2 = s.2
  guarantee s t :=
    0 ≤ t.2 ∧ t.1.counter - t.2 = s.1.counter - s.2 ∧ t.1.usageLogs = s.1.usageLogs ∧
      (still → t.2 = s.2)
  refl _ := rfl
  trans h h' := h'.trans h

/-- The share of the client is `w`. -/
def Share (w : ℤ) (s : Store × ℤ) : Prop := s.2 = w

theorem share_self (s : Store) (w : ℤ) : Share w (s, w) := rfl

theorem share_stable {still : Bool} (w : ℤ) : (contract still).Stable (Share w) :=
  fun _ _ hs hrely => hrely.trans hs

/-- The program takes the share from `w` to `w'`, and returns what satisfies `φ`. -/
def Moves {α : Type} (still : Bool) (w w' : ℤ) (p : Prog α) (φ : α → Prop) : Prop :=
  (contract still).Triple (Share w) p fun r t => (∃ a, r = .ok a ∧ φ a) ∧ Share w' t

namespace Moves

variable {α β : Type} {still : Bool} {w w' w'' : ℤ} {p : Prog α} {φ : α → Prop}

theorem pure {a : α} (ha : φ a) : Moves still w w (.pure a) φ := by
  apply Contract.Triple.pure (share_stable w)
  intro s hs
  exact ⟨⟨a, rfl, ha⟩, hs⟩

/-- A relative operation moves the share by its own amount. -/
theorem perform {op : Op} {φ : op.Reply → Prop} (hop : op.isRelative) (hw : w' = w + op.delta)
    (hnonneg : 0 ≤ w') (hstill : still → op.delta = 0)
    (hφ : ∀ s : Store, w ≤ s.counter → φ (s.exec op).1) :
  Moves still w w' (perform op) φ
  := by
  apply Contract.Triple.perform (share_stable w)
  · rintro s r t hs ⟨hle, rfl, rfl⟩
    obtain ⟨hcounter, hlogs⟩ := Store.exec_counter hop s.1
    have hs : s.2 = w := hs
    have share : s.2 + op.delta = w' := by rw [hs, hw]
    refine ⟨⟨?_, ?_, hlogs, ?_⟩, ⟨_, rfl, ?_⟩, share⟩
    · rw [share]
      apply hnonneg
    · rw [hcounter]
      apply add_sub_add_right_eq_sub
    · intro h
      rw [hstill h, add_zero]
    · apply hφ
      rw [← hs]
      apply hle
  · rintro r s t ⟨hr, hs⟩ hrely
    exact ⟨hr, share_stable w' s t hs hrely⟩

theorem bind_triple {f : α → Prog β} {Q : Except QuotaExceededError β → Store × ℤ → Prop}
    (h : Moves still w w' p φ)
    (hf : ∀ a, φ a → (contract still).Triple (Share w') (f a) Q) :
  (contract still).Triple (Share w) (p >>= f) Q
  := by
  apply Contract.Triple.bind h
  · intro a
    constructor
    rintro s ⟨⟨_, ⟨⟩, ha⟩, hs⟩
    apply (hf a ha).safe s hs
  · rintro e s ⟨⟨_, ⟨⟩, -⟩, -⟩

theorem bind {f : α → Prog β} {ψ : β → Prop} (h : Moves still w w' p φ)
    (hf : ∀ a, φ a → Moves still w' w'' (f a) ψ) :
  Moves still w w'' (p >>= f) ψ
  := by
  apply h.bind_triple hf

end Moves

/-! ### The calls -/

section

variable {still : Bool} {w : ℤ}

/-- The notifications leave the counter alone. -/
theorem moves_maybeNotify (hw : 0 ≤ w) (res : Resource) (used : ℤ) (limit : ℕ) :
  Moves still w w (maybeNotify res used limit) fun _ => True
  := by
  unfold maybeNotify
  split
  · apply Moves.pure trivial
  · split
    · apply Moves.pure trivial
    · apply Moves.bind (φ := fun _ => True)
      · apply Moves.perform rfl (add_zero w).symm hw
        · exact fun _ => rfl
        · exact fun _ _ => trivial
      · intro fresh _
        split
        · apply Moves.perform rfl (add_zero w).symm hw
          · exact fun _ => rfl
          · exact fun _ _ => trivial
        · apply Moves.pure trivial

theorem moves_expire (hw : 0 ≤ w) (seconds : ℕ) (nx : Bool) :
  Moves still w w (perform (.expire seconds nx)) fun _ => True
  := by
  apply Moves.perform rfl (add_zero w).symm hw
  · exact fun _ => rfl
  · exact fun _ _ => trivial

theorem clamp_eq {value : ℤ} (h : 0 ≤ value) : clamp value = pure () := by
  unfold clamp
  rw [if_neg (not_lt.mpr h)]

/-- What follows the correction of the counter: it is not negative. -/
theorem moves_closing (hw : 0 ≤ w) (r : QuotaReservation) {value : ℤ} (hvalue : 0 ≤ value) :
  Moves still w w (do clamp value; keepExpiry r) fun _ => True
  := by
  rw [clamp_eq hvalue]
  apply moves_expire hw

/-- What follows the increment of `check_and_reserve`. -/
def checked (res : CounterResource) (amount : ℕ) (usedAfter : ℤ) :
    Prog (Option QuotaReservation) := do
  perform (.expire res.resource.ttlSeconds false)
  maybeNotify res.resource usedAfter res.limit
  if res.limit < usedAfter then
    let _ ← perform (.decrby amount)
    .raise (exceeded res.resource res.limit (usedAfter - amount)
      (res.resource.metering ≠ .gauge))
  else pure (some { amount := amount, ttlSeconds := res.resource.ttlSeconds })

theorem checkAndReserve_eq (res : CounterResource) (amount : ℕ) :
  checkAndReserve res.resource amount = perform (.incrby amount) >>= checked res amount
  := by
  unfold checkAndReserve
  rw [res.limited]
  dsimp only
  rw [if_neg res.counted]
  rfl

/-- A reservation has been granted, and its amount is in the counter. -/
def Granted (amount : ℕ) (r : Except QuotaExceededError (Option QuotaReservation))
    (s : Store × ℤ) : Prop :=
  (∃ reservation : QuotaReservation,
    r = .ok (some reservation) ∧ reservation.amount = amount) ∧ Share amount s

/-- A reservation has been refused, and nothing of it is in the counter. -/
def Refused (r : Except QuotaExceededError (Option QuotaReservation)) (s : Store × ℤ) : Prop :=
  (∃ e, r = .error e) ∧ Share 0 s

/-- A reservation that has stayed within the limit is granted. -/
theorem triple_checked_granted (res : CounterResource) (amount : ℕ) {usedAfter : ℤ}
    (h : usedAfter ≤ res.limit) :
  (contract true).Triple (Share amount) (checked res amount usedAfter) (Granted amount)
  := by
  apply Moves.bind_triple (moves_expire (Int.natCast_nonneg amount) _ _)
  intro _ _
  apply Moves.bind_triple (moves_maybeNotify (Int.natCast_nonneg amount) _ _ _)
  intro _ _
  rw [if_neg (not_lt.mpr h)]
  apply Contract.Triple.pure (share_stable _)
  intro s hs
  exact ⟨⟨_, rfl, rfl⟩, hs⟩

/-- A reservation that has gone beyond the limit takes its increment back. -/
theorem triple_checked_refused (res : CounterResource) (amount : ℕ) {usedAfter : ℤ}
    (h : res.limit < usedAfter) :
  (contract false).Triple (Share amount) (checked res amount usedAfter) Refused
  := by
  apply Moves.bind_triple (moves_expire (Int.natCast_nonneg amount) _ _)
  intro _ _
  apply Moves.bind_triple (moves_maybeNotify (Int.natCast_nonneg amount) _ _ _)
  intro _ _
  rw [if_pos h]
  have back : Moves false amount 0 (perform (.decrby amount)) fun _ => True := by
    apply Moves.perform rfl (add_neg_cancel _).symm (le_refl 0)
    · exact nofun
    · exact fun _ _ => trivial
  apply back.bind_triple
  intro _ _
  apply Contract.Triple.raise (share_stable _)
  intro s hs
  exact ⟨⟨_, rfl⟩, hs⟩

end

/-! ### One operation of a call -/

section

variable {α : Type} {code code' : Prog α} {s s' : Store} {w δ : ℤ} {still : Bool}

/-- One operation of a safe program. -/
theorem safe_advance {Q : Except QuotaExceededError α → Store × ℤ → Prop}
    (safe : (contract still).Safe Q code (s, w)) (hw : w ≤ s.counter)
    (h : advance code s = some (code', s', δ)) :
  (contract still).guarantee (s, w) (s', w + δ) ∧ (contract still).Safe Q code' (s', w + δ)
  := by
  cases code with
  | pure a => cases h
  | raise e => cases h
  | call op next =>
    cases h
    exact safe.call ⟨hw, rfl, rfl⟩

/-- The first operation of a reservation adds its amount, and decides. -/
theorem advance_reserve (res : CounterResource) (amount : ℕ)
    {code' : Prog (Option QuotaReservation)}
    (h : advance (checkAndReserve res.resource amount) s = some (code', s', δ)) :
  δ = amount ∧ s'.counter = s.counter + amount ∧ s'.usageLogs = s.usageLogs ∧
    if s'.counter ≤ res.limit then
      (contract true).Safe (Granted amount) code' (s', amount)
    else (contract false).Safe Refused code' (s', amount)
  := by
  rw [checkAndReserve_eq] at h
  cases h
  refine ⟨rfl, rfl, rfl, ?_⟩
  split
  next fits => apply (triple_checked_granted res amount fits).safe _ (share_self _ _)
  next fits => apply (triple_checked_refused res amount (not_le.mp fits)).safe _ (share_self _ _)

/-- The first operation of a settlement leaves the actual amount. -/
theorem advance_settle (r : QuotaReservation) (usage : Option ℕ) {code' : Prog Unit}
    (hs : (r.amount : ℤ) ≤ s.counter)
    (h : advance (settleTokens r usage) s = some (code', s', δ)) :
  r.amount + δ = (usage.getD 0 : ℕ) ∧ s'.counter = s.counter + δ ∧
    s'.usageLogs = s.usageLogs ∧
    (contract true).Safe (fun _ _ => True) code' (s', (usage.getD 0 : ℕ))
  := by
  cases usage with
  | none =>
    cases h
    have hvalue : 0 ≤ s.counter - r.amount := sub_nonneg.mpr hs
    refine ⟨add_neg_cancel _, sub_eq_add_neg _ _, rfl, ?_⟩
    apply ((moves_closing (le_refl 0) r hvalue).safe _ (share_self _ _)).mono
    exact fun _ _ _ => trivial
  | some actual =>
    change advance (commit r (some actual)) s = _ at h
    unfold commit at h
    dsimp only at h
    split at h
    · cases h
    · cases h
      have hvalue : 0 ≤ s.counter + (actual - r.amount) := by omega
      refine ⟨?_, rfl, rfl, ?_⟩
      · apply add_sub_cancel
      · apply ((moves_closing (Int.natCast_nonneg actual) r hvalue).safe _
          (share_self _ _)).mono
        exact fun _ _ _ => trivial

/-- A settlement without an operation: the actual amount is the reserved one. -/
theorem settle_pure {r : QuotaReservation} {usage : Option ℕ} (h : settleTokens r usage = .pure ()) :
  usage = some r.amount
  := by
  cases usage with
  | none => cases h
  | some actual =>
    change commit r (some actual) = _ at h
    unfold commit at h
    dsimp only at h
    split at h
    next heq => rw [heq]
    next => cases h

end

end Lumina.Quota
