import Lumina.Quota.Admission

/-!
# Reconciliation with the usage log

A reconciliation reads the total of the usage log in one step and overwrites the counter in a
later one.  The counter is the sum of the shares of the clients in all states of a run exactly
if every correction writes just that sum.  If so, and if every turn settles what it has
recorded, the counter is the total of the usage log as soon as all turns have settled.
-/

namespace Lumina.Quota

open Interleaving Transition

section

variable {res : CounterResource} {w w' : World} {a : Action} {h : List (World × Action)}

/-- The shares are the counter in every state exactly if all corrections are exact. -/
theorem counter_eq_charged_iff (run : (system res.resource).Run h w) :
  (∀ u ∈ Machine.states h w, u.store.counter = u.charged) ↔ ∀ x ∈ h, Exact x.1 x.2
  := by
  constructor
  · rintro accurate x hx value ⟨j, seconds, next, ha, hj⟩
    obtain ⟨t, ht, hstep⟩ := run.next hx
    have after := accurate t ht
    rw [ha] at hstep
    simp only [system, World.step, hj, Option.bind_eq_bind, Option.bind_some, advance] at hstep
    cases hstep
    apply after
  · exact fun corrections u hu => (inv_of_run run corrections u hu).counter

/-- A turn settles without tokens, or what it has recorded. -/
def SettlesRecorded (a : Action) : Prop :=
  ∀ i actual, a ≠ .settle i (some actual)

/-- What the usage log has is what the turns settle as used. -/
theorem Inv.logged (inv : Inv res w) (hlogged : w.store.usageLogs.sum = w.used)
    (settles : SettlesRecorded a) (hstep : World.step res.resource a w = some w') :
  w'.store.usageLogs.sum = w'.used
  := by
  have same : ∀ {i c} (c' : Client), w.clients[i]? = some c → c'.used = c.used →
      ((w.clients.set i c').map Client.used).sum = w.used := by
    intro i c c' hi hused
    have total := Table.sum_map_set Client.used c' hi
    unfold World.used
    omega
  cases a with
  | reserve amount =>
    cases hstep
    rw [hlogged]
    unfold World.used
    rw [List.map_append, List.sum_append]
    rfl
  | work i =>
    simp only [World.step, Option.bind_eq_bind, Option.bind_eq_some_iff] at hstep
    obtain ⟨c, hi, ⟨c', s'⟩, hwork, hstep⟩ := hstep
    cases hstep
    have hc := List.mem_of_getElem? hi
    have works := Client.work_ok (inv.clients c hc) (inv.weight_le hc) hwork
    have logs : s'.usageLogs.sum = w.used := by rw [works.logs, hlogged]
    apply logs.trans (same c' hi works.used).symm
  | ret i =>
    obtain ⟨c, c', hi, hret, rfl⟩ := update_some hstep
    have used := (Client.ret_ok (inv.clients c (List.mem_of_getElem? hi)) hret).2
    apply hlogged.trans (same c' hi used).symm
  | record i actual =>
    simp only [World.step, Option.bind_eq_bind, Option.bind_eq_some_iff] at hstep
    obtain ⟨w₁, hupdate, hstep⟩ := hstep
    cases hstep
    obtain ⟨c, c', hi, hrecord, rfl⟩ := update_some hupdate
    have used := (Client.record_ok (inv.clients c (List.mem_of_getElem? hi)) hrecord).2
    have total := Table.sum_map_set Client.used c' hi
    change (actual :: w.store.usageLogs).sum = ((w.clients.set i c').map Client.used).sum
    unfold World.used at hlogged
    rw [List.sum_cons]
    omega
  | settle i usage =>
    obtain ⟨c, c', hi, hsettle, rfl⟩ := update_some hstep
    have used := (Client.settle_ok (inv.clients c (List.mem_of_getElem? hi)) hsettle).2
    cases usage with
    | some actual => exact absurd rfl (settles i actual)
    | none => apply hlogged.trans (same c' hi used).symm
  | settleRecorded i =>
    obtain ⟨c, c', hi, hsettle, rfl⟩ := update_some hstep
    have used := (Client.settleRecorded_ok (inv.clients c (List.mem_of_getElem? hi)) hsettle).2
    apply hlogged.trans (same c' hi used).symm
  | reconcile =>
    cases hstep
    apply hlogged
  | workReconcile j =>
    simp only [World.step, Option.bind_eq_bind, Option.bind_eq_some_iff] at hstep
    obtain ⟨code, hj, ⟨code', s', δ⟩, hadvance, hstep⟩ := hstep
    cases hstep
    have huses := inv.reconciliations code (List.mem_of_getElem? hj)
    obtain ⟨-, logs, -⟩ := advance_reconciliation huses hadvance
    have logs : s'.usageLogs.sum = w.used := by rw [logs, hlogged]
    apply logs

/-- A client that is done with its reservation. -/
def Client.finished (c : Client) : Bool :=
  match c.stage with
  | .refused | .unmetered | .settled _ _ => true
  | _ => false

/-- What a finished client leaves in the counter is what it has used. -/
theorem Client.Ok.weight_of_finished {s : Store} {c : Client} (hc : c.Ok s) (done : c.finished) :
  c.weight = c.used
  := by
  apply hc.share
  obtain ⟨amount, stage, weight⟩ := c
  cases stage with
  | refused => rfl
  | unmetered => rfl
  | settled r usage => rfl
  | _ => cases done

end

/-! ### Small runs -/

/-- A turn reserves 4 and uses 6; a reconciliation runs when it has settled. -/
def reconcileAfterSample : List Action :=
  [.reserve 4, .work 0, .work 0, .ret 0, .record 0 6, .settleRecorded 0, .work 0, .work 0, .ret 0,
    .reconcile, .workReconcile 0, .workReconcile 0, .workReconcile 0]

/-- A turn reserves 4 and uses 3; a reconciliation runs before it has recorded anything. -/
def reconcileInFlightSample : List Action :=
  [.reserve 4, .work 0, .work 0, .ret 0, .reconcile, .workReconcile 0, .workReconcile 0,
    .workReconcile 0, .record 0 3, .settleRecorded 0, .work 0, .work 0, .work 0, .ret 0]

/-- The action writes what the clients have in the counter, if it writes a value. -/
def isExact (w : World) : Action → Bool
  | .workReconcile j =>
      match w.reconciliations[j]? with
      | some (.call (.set value _) _) => value = w.charged
      | _ => true
  | _ => true

theorem exact_of_isExact {w : World} {a : Action} (h : isExact w a = true) : Exact w a := by
  rintro value ⟨j, seconds, next, rfl, hj⟩
  simp only [isExact, hj] at h
  apply of_decide_eq_true h

/-- The action does not settle what has not been recorded. -/
def isSettled : Action → Bool
  | .settle _ (some _) => false
  | _ => true

theorem settlesRecorded_of_isSettled {a : Action} (h : isSettled a = true) : SettlesRecorded a := by
  rintro i actual rfl
  cases h

end Lumina.Quota
