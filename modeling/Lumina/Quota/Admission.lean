import Lumina.Library.Table
import Lumina.Quota.Reservations
import Mathlib.Algebra.BigOperators.Ring.Finset
import Mathlib.Algebra.Order.BigOperators.Group.List
import Mathlib.Algebra.Order.Ring.Nat

/-!
# Admission to the quota

The counter is the sum of the shares of the clients, as long as nobody overwrites it with
anything else.  What a client has been granted is never more than its share, from the increment
on, so that what the clients have been granted together stays within the limit; and a
reservation that fits is refused only on account of a client that is in the middle of a call.
-/

namespace Lumina.Quota

open Interleaving Transition

namespace Client

/-- What the limit has to cover for a client: from an increment within the limit on its
reservation, after a commit no more than the actual amount. -/
def credit (c : Client) : ℕ :=
  match c.stage with
  | .checking true _ => c.amount
  | .holding r | .recorded r _ | .settling r _ => r.amount
  | .closing r (some actual) _ | .settled r (some actual) => min r.amount actual
  | _ => 0

/-- The share of a client, by its stage; that of a refused one is on its way back. -/
def share (c : Client) : Option ℕ :=
  match c.stage with
  | .reserving | .refused | .unmetered => some 0
  | .checking true _ => some c.amount
  | .checking false _ => none
  | .holding r | .recorded r _ | .settling r _ => some r.amount
  | .closing _ usage _ | .settled _ usage => some (usage.getD 0)

/-- How the call of a client will end. -/
def Safe (s : Store) (c : Client) : Prop :=
  match c.stage with
  | .checking true code => (contract true).Safe (Granted c.amount) code (s, c.weight)
  | .checking false code => (contract false).Safe Refused code (s, c.weight)
  | .closing _ _ code => (contract true).Safe (fun _ _ => True) code (s, c.weight)
  | _ => True

/-- What holds of every client at any time. -/
structure Ok (s : Store) (c : Client) : Prop where
  share : ∀ n, c.share = some n → c.weight = n
  nonneg : 0 ≤ c.weight
  safe : c.Safe s

section

variable {res : CounterResource} {s s' : Store} {c c' : Client}

/-- What the others do does not matter. -/
theorem Ok.other (h : c.Ok s) (s' : Store) : c.Ok s' := by
  refine { h with safe := ?_ }
  obtain ⟨amount, stage, weight⟩ := c
  have safe := h.safe
  cases stage with
  | checking fits code =>
    cases fits
    all_goals exact Contract.Safe.stable (t := (s', _)) safe rfl
  | closing r usage code => exact Contract.Safe.stable (t := (s', _)) safe rfl
  | _ => trivial

/-- The limit has to cover no more than the share. -/
theorem Ok.credit_le (h : c.Ok s) : (c.credit : ℤ) ≤ c.weight := by
  have bound : ∀ n, c.share = some n → c.credit ≤ n := by
    obtain ⟨amount, stage, weight⟩ := c
    rintro n hn
    cases stage with
    | checking fits code =>
      cases fits
      all_goals cases hn
      apply le_refl
    | closing r usage code =>
      cases hn
      cases usage with
      | none => apply le_refl
      | some actual => apply Nat.min_le_right
    | settled r usage =>
      cases hn
      cases usage with
      | none => apply le_refl
      | some actual => apply Nat.min_le_right
    | _ =>
      cases hn
      apply le_refl
  cases hshare : c.share with
  | some n =>
    rw [h.share n hshare]
    apply Int.ofNat_le.mpr (bound n hshare)
  | none =>
    have none : c.credit = 0 := by
      obtain ⟨amount, stage, weight⟩ := c
      cases stage with
      | checking fits code =>
        cases fits with
        | false => rfl
        | true => cases hshare
      | _ => cases hshare
    rw [none]
    apply h.nonneg

/-- What one operation of a client does. -/
structure Works (res : CounterResource) (c c' : Client) (s s' : Store) : Prop where
  ok : c'.Ok s'
  others : s'.counter - c'.weight = s.counter - c.weight
  logs : s'.usageLogs = s.usageLogs
  used : c'.used = c.used
  passed : c.passed → c'.passed
  credit : c'.credit ≤ c.credit ∨ s'.counter ≤ res.limit

theorem work_ok (h : c.Ok s) (hshare : c.weight ≤ s.counter)
    (hwork : c.work res.resource s = some (c', s')) :
  Works res c c' s s'
  := by
  obtain ⟨amount, stage, weight⟩ := c
  obtain ⟨share, nonneg, safe⟩ := h
  cases stage with
  | reserving =>
    simp only [work, Option.bind_eq_bind, Option.bind_eq_some_iff] at hwork
    obtain ⟨⟨code, t, δ⟩, hadvance, hwork⟩ := hwork
    cases hwork
    obtain ⟨rfl, hcounter, hlogs, hsafe⟩ := advance_reserve res amount hadvance
    have zero : weight = 0 := share 0 rfl
    subst zero
    rw [res.limited]
    dsimp only
    rw [Option.all_some, zero_add]
    have others : t.counter - amount = s.counter - 0 := by
      rw [hcounter, add_sub_cancel_right, sub_zero]
    by_cases fits : t.counter ≤ res.limit
    · rw [if_pos fits] at hsafe
      rw [decide_eq_true fits]
      refine ⟨⟨?_, Int.natCast_nonneg amount, hsafe⟩, others, hlogs, rfl, nofun, .inr fits⟩
      rintro n ⟨⟩
      rfl
    · rw [if_neg fits] at hsafe
      rw [decide_eq_false fits]
      exact ⟨⟨nofun, Int.natCast_nonneg amount, hsafe⟩, others, hlogs, rfl, nofun, .inl (le_refl 0)⟩
  | checking fits code =>
    simp only [work, Option.bind_eq_bind, Option.bind_eq_some_iff] at hwork
    obtain ⟨⟨code', t, δ⟩, hadvance, hwork⟩ := hwork
    cases hwork
    cases fits with
    | true =>
      obtain ⟨⟨hnonneg, hothers, hlogs, hstill⟩, safe'⟩ := safe_advance safe hshare hadvance
      refine ⟨⟨?_, hnonneg, safe'⟩, hothers, hlogs, rfl, fun h => h, .inl (le_refl amount)⟩
      rintro n ⟨⟩
      apply (hstill rfl).trans (share amount rfl)
    | false =>
      obtain ⟨⟨hnonneg, hothers, hlogs, -⟩, safe'⟩ := safe_advance safe hshare hadvance
      exact ⟨⟨nofun, hnonneg, safe'⟩, hothers, hlogs, rfl, fun h => h, .inl (le_refl 0)⟩
  | settling r usage =>
    simp only [work, Option.bind_eq_bind, Option.bind_eq_some_iff] at hwork
    obtain ⟨⟨code, t, δ⟩, hadvance, hwork⟩ := hwork
    cases hwork
    have held : weight = r.amount := share r.amount rfl
    subst held
    obtain ⟨hactual, hcounter, hlogs, hsafe⟩ := advance_settle r usage hshare hadvance
    refine ⟨⟨?_, ?_, ?_⟩, ?_, hlogs, rfl, fun h => h, .inl ?_⟩
    · rintro n ⟨⟩
      apply hactual
    · rw [hactual]
      apply Int.natCast_nonneg
    · rw [hactual]
      apply hsafe
    · rw [hcounter]
      apply add_sub_add_right_eq_sub
    · cases usage with
      | none => apply Nat.zero_le
      | some actual => apply Nat.min_le_left
  | closing r usage code =>
    simp only [work, Option.bind_eq_bind, Option.bind_eq_some_iff] at hwork
    obtain ⟨⟨code', t, δ⟩, hadvance, hwork⟩ := hwork
    cases hwork
    obtain ⟨⟨hnonneg, hothers, hlogs, hstill⟩, safe'⟩ := safe_advance safe hshare hadvance
    refine ⟨⟨?_, hnonneg, safe'⟩, hothers, hlogs, rfl, fun h => h, .inl ?_⟩
    · rintro n ⟨⟩
      apply (hstill rfl).trans (share _ rfl)
    · cases usage
      all_goals apply le_refl
  | refused => cases hwork
  | unmetered => cases hwork
  | holding r => cases hwork
  | recorded r actual => cases hwork
  | settled r usage => cases hwork

/-- A step of a client that performs no operation. -/
structure Stays (c c' : Client) (s : Store) : Prop where
  ok : c'.Ok s
  weight : c'.weight = c.weight
  passed : c.passed → c'.passed
  credit : c'.credit ≤ c.credit

/-- A call ends as its contract says. -/
theorem ret_ok (h : c.Ok s) (hret : c.ret res.resource = some c') :
  Stays c c' s ∧ c'.used = c.used
  := by
  obtain ⟨amount, stage, weight⟩ := c
  obtain ⟨share, nonneg, safe⟩ := h
  obtain ⟨stage', hstage, rfl⟩ := Option.map_eq_some_iff.mp hret
  cases stage with
  | reserving =>
    change admitted (checkAndReserve res.resource amount) = _ at hstage
    rw [checkAndReserve_eq] at hstage
    cases hstage
  | checking fits code =>
    cases code with
    | call op next => cases hstage
    | pure o =>
      cases fits with
      | true =>
        obtain ⟨⟨r, ⟨⟩, rfl⟩, hweight⟩ := Contract.Safe.pure safe
        cases hstage
        refine ⟨⟨⟨?_, nonneg, trivial⟩, rfl, fun h => h, le_refl _⟩, rfl⟩
        rintro n ⟨⟩
        apply hweight
      | false =>
        obtain ⟨⟨e, ⟨⟩⟩, -⟩ := Contract.Safe.pure safe
    | raise e =>
      cases fits with
      | true =>
        obtain ⟨⟨r, ⟨⟩, -⟩, -⟩ := Contract.Safe.raise safe
      | false =>
        obtain ⟨-, hweight⟩ := Contract.Safe.raise safe
        cases hstage
        refine ⟨⟨⟨?_, nonneg, trivial⟩, rfl, fun h => h, le_refl _⟩, rfl⟩
        rintro n ⟨⟩
        apply hweight
  | settling r usage =>
    simp only [returned] at hstage
    split at hstage
    next hcode =>
      cases hstage
      cases settle_pure hcode
      refine ⟨⟨⟨share, nonneg, trivial⟩, rfl, fun h => h, ?_⟩, rfl⟩
      apply Nat.min_le_left
    next => cases hstage
  | closing r usage code =>
    cases code with
    | pure a =>
      cases hstage
      refine ⟨⟨⟨share, nonneg, trivial⟩, rfl, fun h => h, ?_⟩, rfl⟩
      cases usage
      all_goals apply le_refl
    | raise e => cases hstage
    | call op next => cases hstage
  | refused => cases hstage
  | unmetered => cases hstage
  | holding r => cases hstage
  | recorded r actual => cases hstage
  | settled r usage => cases hstage

theorem record_ok {actual : ℕ} (h : c.Ok s) (hrecord : c.record actual = some c') :
  Stays c c' s ∧ c'.used = c.used + actual
  := by
  obtain ⟨amount, stage, weight⟩ := c
  cases stage with
  | holding r =>
    cases hrecord
    exact ⟨⟨⟨h.share, h.nonneg, trivial⟩, rfl, fun h => h, le_refl _⟩, (Nat.zero_add actual).symm⟩
  | _ => cases hrecord

theorem settle_ok {usage : Option ℕ} (h : c.Ok s) (hsettle : c.settle usage = some c') :
  Stays c c' s ∧ c'.used = c.used + usage.getD 0
  := by
  obtain ⟨amount, stage, weight⟩ := c
  cases stage with
  | holding r =>
    cases hsettle
    exact ⟨⟨⟨h.share, h.nonneg, trivial⟩, rfl, fun h => h, le_refl _⟩, (Nat.zero_add _).symm⟩
  | _ => cases hsettle

theorem settleRecorded_ok (h : c.Ok s) (hsettle : c.settleRecorded = some c') :
  Stays c c' s ∧ c'.used = c.used
  := by
  obtain ⟨amount, stage, weight⟩ := c
  cases stage with
  | recorded r actual =>
    cases hsettle
    exact ⟨⟨⟨h.share, h.nonneg, trivial⟩, rfl, fun h => h, le_refl _⟩, rfl⟩
  | _ => cases hsettle

end

end Client

/-! ### The invariant -/

/-- The operations of a reconciliation. -/
def Op.byReconciliation : Op → Bool
  | .tokenTotal | .snapshot _ | .set _ _ => true
  | _ => false

theorem uses_reconcileTenant (res : Resource) :
  (reconcileTenant res).Uses (·.byReconciliation)
  := by
  refine Program.Uses.bind' (Program.uses_perform rfl) ?_
  intro used
  refine Program.Uses.bind' (Program.uses_perform rfl) ?_
  intro _
  exact Program.uses_perform rfl

/-- A correction writes what the clients have in the counter. -/
def Exact (w : World) (a : Action) : Prop :=
  ∀ value, Overwrites w a value → value = w.charged

def World.credit (w : World) : ℕ := (w.clients.map Client.credit).sum

/-- The invariant of the system, as long as the corrections are exact. -/
structure Inv (res : CounterResource) (w : World) : Prop where
  counter : w.store.counter = w.charged
  clients : ∀ c ∈ w.clients, c.Ok w.store
  credit : w.credit ≤ res.limit
  reconciliations : ∀ code ∈ w.reconciliations, code.Uses (·.byReconciliation)

section

variable {res : CounterResource} {w w' : World} {a : Action} {i : ℕ} {c c' : Client} {s' : Store}

theorem inv_init (res : CounterResource) : Inv res {} := by
  constructor
  · rfl
  · exact nofun
  · apply Nat.zero_le
  · exact nofun

theorem Inv.weight_le (inv : Inv res w) (hc : c ∈ w.clients) : c.weight ≤ w.store.counter := by
  rw [inv.counter]
  apply List.single_le_sum
  · intro x hx
    obtain ⟨c', hc', rfl⟩ := List.mem_map.mp hx
    apply (inv.clients c' hc').nonneg
  · apply List.mem_map_of_mem hc

theorem credit_le_charged {s : Store} (h : ∀ c ∈ w.clients, c.Ok s) : (w.credit : ℤ) ≤ w.charged := by
  unfold World.credit World.charged
  rw [Nat.cast_list_sum, List.map_map]
  apply List.sum_le_sum
  intro c hc
  apply (h c hc).credit_le

/-- One client takes a step; the share of the others stays. -/
theorem Inv.set (inv : Inv res w) (hi : w.clients[i]? = some c) (ok : c'.Ok s')
    (others : s'.counter - c'.weight = w.store.counter - c.weight)
    (credit : c'.credit ≤ c.credit ∨ s'.counter ≤ res.limit) :
  Inv res { w with store := s', clients := w.clients.set i c' }
  := by
  have counter := inv.counter
  have charged := Table.sum_map_set Client.weight c' hi
  have total := Table.sum_map_set Client.credit c' hi
  have clients : ∀ d ∈ w.clients.set i c', d.Ok s' := by
    intro d hd
    obtain hd | rfl := List.mem_or_eq_of_mem_set hd
    · apply (inv.clients d hd).other
    · apply ok
  have balance : s'.counter = ((w.clients.set i c').map Client.weight).sum := by
    unfold World.charged at counter
    omega
  refine ⟨balance, clients, ?_, inv.reconciliations⟩
  obtain credit | credit := credit
  · have before := inv.credit
    unfold World.credit at before
    change ((w.clients.set i c').map Client.credit).sum ≤ _
    omega
  · have bound : (World.credit { w with clients := w.clients.set i c' } : ℤ) ≤ _ :=
      credit_le_charged clients
    rw [balance] at credit
    apply Int.ofNat_le.mp (bound.trans credit)

/-- A step without an operation. -/
theorem Inv.stays (inv : Inv res w) (hi : w.clients[i]? = some c)
    (h : Client.Stays c c' w.store) :
  Inv res { w with clients := w.clients.set i c' }
  := by
  apply inv.set hi h.ok
  · rw [h.weight]
  · apply Or.inl h.credit

/-- What a client's own step does. -/
theorem update_some {f : Client → Option Client} (h : w.update i f = some w') :
  ∃ c c', w.clients[i]? = some c ∧ f c = some c' ∧
    w' = { w with clients := w.clients.set i c' }
  := by
  simp only [World.update, Option.bind_eq_bind, Option.bind_eq_some_iff] at h
  obtain ⟨c, hc, c', hc', h⟩ := h
  cases h
  exact ⟨c, c', hc, hc', rfl⟩

/-- A reconciliation changes the counter by a correction only. -/
theorem advance_reconciliation {code code' : Prog Unit} {s s' : Store} {δ : ℤ}
    (huses : code.Uses (·.byReconciliation)) (h : advance code s = some (code', s', δ)) :
  code'.Uses (·.byReconciliation) ∧ s'.usageLogs = s.usageLogs ∧
    (s'.counter = s.counter ∨
      ∃ seconds next, code = .call (.set s'.counter seconds) next)
  := by
  cases code with
  | pure a => cases h
  | raise e => cases h
  | call op next =>
    cases h
    obtain ⟨hop, hnext⟩ := huses
    refine ⟨hnext _, ?_⟩
    cases op with
    | tokenTotal => exact ⟨rfl, .inl rfl⟩
    | snapshot used => exact ⟨rfl, .inl rfl⟩
    | set value seconds => exact ⟨rfl, .inr ⟨seconds, next, rfl⟩⟩
    | _ => cases hop

theorem Inv.step (inv : Inv res w) (correction : Exact w a)
    (h : World.step res.resource a w = some w') :
  Inv res w'
  := by
  cases a with
  | reserve amount =>
    cases h
    constructor
    · rw [inv.counter]
      unfold World.charged
      rw [List.map_append, List.sum_append]
      apply (add_zero _).symm
    · intro c hc
      obtain hc | hc := List.mem_append.mp hc
      · apply inv.clients c hc
      · rw [List.mem_singleton.mp hc]
        refine ⟨?_, le_refl 0, trivial⟩
        rintro n ⟨⟩
        rfl
    · unfold World.credit
      rw [List.map_append, List.sum_append]
      apply inv.credit
    · apply inv.reconciliations
  | work i =>
    simp only [World.step, Option.bind_eq_bind, Option.bind_eq_some_iff] at h
    obtain ⟨c, hi, ⟨c', s'⟩, hwork, h⟩ := h
    cases h
    have hc := List.mem_of_getElem? hi
    have works := Client.work_ok (inv.clients c hc) (inv.weight_le hc) hwork
    apply inv.set hi works.ok works.others works.credit
  | ret i =>
    obtain ⟨c, c', hi, hret, rfl⟩ := update_some h
    apply inv.stays hi (Client.ret_ok (inv.clients c (List.mem_of_getElem? hi)) hret).1
  | record i actual =>
    simp only [World.step, Option.bind_eq_bind, Option.bind_eq_some_iff] at h
    obtain ⟨w₁, hupdate, h⟩ := h
    cases h
    obtain ⟨c, c', hi, hrecord, rfl⟩ := update_some hupdate
    have stays := (Client.record_ok (inv.clients c (List.mem_of_getElem? hi)) hrecord).1
    apply inv.set hi (stays.ok.other _)
    · rw [stays.weight]
      rfl
    · apply Or.inl stays.credit
  | settle i usage =>
    obtain ⟨c, c', hi, hsettle, rfl⟩ := update_some h
    apply inv.stays hi (Client.settle_ok (inv.clients c (List.mem_of_getElem? hi)) hsettle).1
  | settleRecorded i =>
    obtain ⟨c, c', hi, hsettle, rfl⟩ := update_some h
    apply inv.stays hi
      (Client.settleRecorded_ok (inv.clients c (List.mem_of_getElem? hi)) hsettle).1
  | reconcile =>
    cases h
    refine { inv with reconciliations := ?_ }
    intro code hcode
    obtain hcode | hcode := List.mem_append.mp hcode
    · apply inv.reconciliations code hcode
    · rw [List.mem_singleton.mp hcode]
      apply uses_reconcileTenant
  | workReconcile j =>
    simp only [World.step, Option.bind_eq_bind, Option.bind_eq_some_iff] at h
    obtain ⟨code, hj, ⟨code', s', δ⟩, hadvance, h⟩ := h
    cases h
    have huses := inv.reconciliations code (List.mem_of_getElem? hj)
    obtain ⟨huses', -, hcounter⟩ := advance_reconciliation huses hadvance
    constructor
    · obtain hcounter | ⟨seconds, next, rfl⟩ := hcounter
      · rw [hcounter, inv.counter]
        rfl
      · apply correction
        exact ⟨j, seconds, next, rfl, hj⟩
    · exact fun c hc => (inv.clients c hc).other s'
    · apply inv.credit
    · intro x hx
      obtain hx | rfl := List.mem_or_eq_of_mem_set hx
      · apply inv.reconciliations x hx
      · apply huses'

/-- The counter is the sum of the shares in every state of a run whose corrections are exact. -/
theorem inv_of_run {h : List (World × Action)} (run : (system res.resource).Run h w)
    (corrections : ∀ x ∈ h, Exact x.1 x.2) :
  ∀ u ∈ Machine.states h w, Inv res u
  := by
  apply run.forall_states_of_guard (I := Inv res) _ _ corrections
  · rintro s rfl
    apply inv_init
  · exact fun a s t inv correction hstep => inv.step correction hstep

/-! ### Reservations that pass -/

/-- A client has passed, whatever becomes of it afterwards. -/
def World.Passed (w : World) (i : ℕ) : Prop :=
  ∃ c, w.clients[i]? = some c ∧ c.passed

theorem World.Passed.set {s' : Store} {k : ℕ} (h : w.Passed i) (hk : w.clients[k]? = some c)
    (hpassed : c.passed → c'.passed) :
  World.Passed { w with store := s', clients := w.clients.set k c' } i
  := by
  obtain ⟨d, hi, hd⟩ := h
  by_cases same : k = i
  · subst same
    cases hk.symm.trans hi
    have hlt := (List.getElem?_eq_some_iff.mp hi).1
    exact ⟨c', List.getElem?_set_self hlt, hpassed hd⟩
  · exact ⟨d, (List.getElem?_set_ne same).trans hi, hd⟩

/-- A client that has passed is not refused afterwards. -/
theorem Inv.passed (inv : Inv res w) (hpassed : w.Passed i)
    (h : World.step res.resource a w = some w') :
  w'.Passed i
  := by
  cases a with
  | reserve amount =>
    cases h
    obtain ⟨c, hi, hc⟩ := hpassed
    have hlt := (List.getElem?_eq_some_iff.mp hi).1
    exact ⟨c, (List.getElem?_append_left hlt).trans hi, hc⟩
  | work k =>
    simp only [World.step, Option.bind_eq_bind, Option.bind_eq_some_iff] at h
    obtain ⟨c, hk, ⟨c', s'⟩, hwork, h⟩ := h
    cases h
    have hc := List.mem_of_getElem? hk
    have works := Client.work_ok (inv.clients c hc) (inv.weight_le hc) hwork
    apply hpassed.set hk works.passed
  | ret k =>
    obtain ⟨c, c', hk, hret, rfl⟩ := update_some h
    apply hpassed.set hk
      (Client.ret_ok (inv.clients c (List.mem_of_getElem? hk)) hret).1.passed
  | record k actual =>
    simp only [World.step, Option.bind_eq_bind, Option.bind_eq_some_iff] at h
    obtain ⟨w₁, hupdate, h⟩ := h
    cases h
    obtain ⟨c, c', hk, hrecord, rfl⟩ := update_some hupdate
    apply hpassed.set hk
      (Client.record_ok (inv.clients c (List.mem_of_getElem? hk)) hrecord).1.passed
  | settle k usage =>
    obtain ⟨c, c', hk, hsettle, rfl⟩ := update_some h
    apply hpassed.set hk
      (Client.settle_ok (inv.clients c (List.mem_of_getElem? hk)) hsettle).1.passed
  | settleRecorded k =>
    obtain ⟨c, c', hk, hsettle, rfl⟩ := update_some h
    apply hpassed.set hk
      (Client.settleRecorded_ok (inv.clients c (List.mem_of_getElem? hk)) hsettle).1.passed
  | reconcile =>
    cases h
    apply hpassed
  | workReconcile j =>
    simp only [World.step, Option.bind_eq_bind, Option.bind_eq_some_iff] at h
    obtain ⟨code, hj, ⟨code', s', δ⟩, hadvance, h⟩ := h
    cases h
    apply hpassed

/-- The reservation of a client fits, and no other client is in the middle of a call. -/
structure Fits (limit : ℕ) (w : World) (i : ℕ) (c : Client) : Prop where
  client : w.clients[i]? = some c
  reserving : c.stage = .reserving
  quiet : ∀ j d, j ≠ i → w.clients[j]? = some d → d.inFlight = false
  fits : w.outstanding + w.committed + c.amount ≤ limit

/-- The share of a client that is not in the middle of a call. -/
theorem Client.Ok.weight_eq {s : Store} (h : c.Ok s) (quiet : c.inFlight = false) :
  c.weight = (c.outstanding + c.committed : ℕ)
  := by
  apply h.share
  obtain ⟨amount, stage, weight⟩ := c
  cases stage with
  | checking fits code => cases quiet
  | closing r usage code => cases quiet
  | settled r usage =>
    cases usage with
    | none => rfl
    | some actual => exact congrArg some (Nat.zero_add actual).symm
  | _ => rfl

/-- The counter when nobody is in the middle of a call. -/
theorem charged_eq (inv : Inv res w) (quiet : ∀ d ∈ w.clients, d.inFlight = false) :
  w.charged = (w.outstanding + w.committed : ℕ)
  := by
  have shares : w.clients.map Client.weight =
      w.clients.map fun d => ((d.outstanding + d.committed : ℕ) : ℤ) := by
    apply List.map_congr_left
    intro d hd
    apply (inv.clients d hd).weight_eq (quiet d hd)
  unfold World.charged World.outstanding World.committed
  rw [shares, ← List.sum_map_add, Nat.cast_list_sum, List.map_map]
  rfl

/-- The increment of a reservation that fits stays within the limit. -/
theorem Inv.admits (inv : Inv res w) (hfits : Fits res.limit w i c)
    (h : World.step res.resource (.work i) w = some w') :
  w'.Passed i
  := by
  obtain ⟨hi, reserving, others, fits⟩ := hfits
  have quiet : ∀ d ∈ w.clients, d.inFlight = false := by
    intro d hd
    obtain ⟨j, hj⟩ := List.mem_iff_getElem?.mp hd
    by_cases same : j = i
    · subst same
      cases hi.symm.trans hj
      unfold Client.inFlight
      rw [reserving]
    · apply others j d same hj
  have counter := inv.counter.trans (charged_eq inv quiet)
  simp only [World.step, Option.bind_eq_bind, Option.bind_eq_some_iff] at h
  obtain ⟨d, hd, ⟨c', s'⟩, hwork, h⟩ := h
  cases hi.symm.trans hd
  cases h
  simp only [Client.work, reserving, Option.bind_eq_bind, Option.bind_eq_some_iff] at hwork
  obtain ⟨⟨code, t, δ⟩, hadvance, hwork⟩ := hwork
  cases hwork
  obtain ⟨rfl, hcounter, -, -⟩ := advance_reserve res c.amount hadvance
  have within : t.counter ≤ res.limit := by omega
  have hlt := (List.getElem?_eq_some_iff.mp hi).1
  refine ⟨_, List.getElem?_set_self hlt, ?_⟩
  unfold Client.passed
  rw [res.limited]
  apply decide_eq_true within

/-- What is granted and what has been committed, against the limit. -/
theorem Inv.admission (inv : Inv res w) :
  w.outstanding + w.committed ≤ res.limit + w.overrun
  := by
  have each : ∀ c ∈ w.clients, c.outstanding + c.committed ≤ c.credit + c.overrun := by
    rintro ⟨amount, stage, weight⟩ -
    cases stage with
    | closing r usage code =>
      cases usage with
      | none => apply le_refl
      | some actual =>
        simp only [Client.outstanding, Client.committed, Client.credit, Client.overrun]
        omega
    | settled r usage =>
      cases usage with
      | none => apply le_refl
      | some actual =>
        simp only [Client.outstanding, Client.committed, Client.credit, Client.overrun]
        omega
    | checking fits code => apply Nat.zero_le
    | _ => apply le_refl
  have total := List.sum_le_sum each
  rw [List.sum_map_add, List.sum_map_add] at total
  have credit := inv.credit
  unfold World.credit at credit
  unfold World.outstanding World.committed World.overrun
  omega

/-- A reservation that has fitted at its increment passes in the rest of the run. -/
theorem passed_of_fits {h : List (World × Action)} (run : (system res.resource).Run h w)
    (corrections : ∀ x ∈ h, Exact x.1 x.2) {x : World × Action} (hx : x ∈ h)
    (hwork : x.2 = .work i) (hfits : Fits res.limit x.1 i c) :
  w.Passed i
  := by
  induction run with
  | init hs => cases hx
  | @step h s t a run hstep ih =>
    have before : ∀ y ∈ h, Exact y.1 y.2 := fun y hy =>
      corrections y (List.mem_cons_of_mem _ hy)
    have inv : Inv res s := inv_of_run run before s List.mem_cons_self
    obtain rfl | hx := List.mem_cons.mp hx
    · rw [show a = .work i from hwork] at hstep
      apply inv.admits hfits hstep
    · apply inv.passed (ih before hx) hstep

/-- In every run without a correction: what has been granted and not settled, together with
what has been committed, exceeds the limit by no more than the commits have exceeded their
reservations; and a reservation that fits when no other client is in the middle of a call is
not refused. -/
theorem admission_safe (res : CounterResource) {h : List (World × Action)} {w : World}
    (run : (system res.resource).Run h w)
    (uncorrected : ∀ x ∈ h, ∀ value, ¬Overwrites x.1 x.2 value) :
  (∀ u ∈ Machine.states h w, u.outstanding + u.committed ≤ res.limit + u.overrun) ∧
    ∀ x ∈ h, ∀ i c, x.2 = .work i → Fits res.limit x.1 i c →
      ∀ d, w.clients[i]? = some d → d.stage ≠ .refused
  := by
  have corrections : ∀ x ∈ h, Exact x.1 x.2 := fun x hx value hv =>
    absurd hv (uncorrected x hx value)
  constructor
  · intro u hu
    apply (inv_of_run run corrections u hu).admission
  · intro x hx i c hwork hfits d hd refused
    obtain ⟨d', hd', passed⟩ := passed_of_fits run corrections hx hwork hfits
    cases hd.symm.trans hd'
    unfold Client.passed at passed
    rw [refused] at passed
    cases passed

end

/-! ### Small runs -/

/-- A resource with the limit 10. -/
def sampleResource : CounterResource where
  resource :=
    { name := "tokens_month"
      metering := .period
      limit := some 10
      thresholds := [80, 100]
      ttlSeconds := 100 }
  limit := 10
  limited := rfl
  counted := nofun

/-- A client reserves 4, another one is refused 8, and the first one commits 6. -/
def admissionSample : List Action :=
  [.reserve 4, .work 0, .work 0, .ret 0, .reserve 8, .work 1, .work 1, .work 1, .work 1, .work 1,
    .ret 1, .settle 0 (some 6), .work 0, .work 0, .ret 0]

/-- The actions other than those of a reconciliation. -/
def Action.ofClient : Action → Bool
  | .workReconcile _ => false
  | _ => true

theorem admission_safe_sample :
  ∃ h w, (system sampleResource.resource).Run h w ∧ w.committed = 6 ∧
    (∀ u ∈ Machine.states h w, u.outstanding + u.committed ≤ 10 + u.overrun) ∧
    ∀ x ∈ h, ∀ i c, x.2 = .work i → Fits 10 x.1 i c →
      ∀ d, w.clients[i]? = some d → d.stage ≠ .refused
  := by
  obtain ⟨h, w, run, guard, hw⟩ := Machine.exists_run_of_execWhile
    (M := system sampleResource.resource) admissionSample (fun _ a => a.ofClient)
    (fun w => decide (w.committed = 6)) rfl (by decide)
  refine ⟨h, w, run, of_decide_eq_true hw, ?_⟩
  apply admission_safe sampleResource run
  rintro x hx value ⟨j, seconds, next, hj, -⟩
  have client := guard x hx
  rw [hj] at client
  cases client

end Lumina.Quota
