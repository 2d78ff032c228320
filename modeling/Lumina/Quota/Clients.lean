import Lumina.Library.Transition
import Lumina.Quota.Counter

/-!
# The clients of a counter

Any number of clients reserve an amount of one resource, and settle what they have been
granted, once; reconciliations overwrite the counter in between.  A step of the system is one
operation of one of them, or the return of a call.

A chat turn is a client that writes a row of the usage log before it settles.
-/

namespace Lumina.Quota

open Interleaving Transition

/-- Where a client stands. -/
inductive Stage where
  /-- `check_and_reserve` is called; none of its operations is done. -/
  | reserving
  /-- The increment is done.  `fits` is a ghost: whether it has stayed within the limit. -/
  | checking (fits : Bool) (code : Prog (Option QuotaReservation))
  | refused
  /-- The resource has no limit, or no counter. -/
  | unmetered
  | holding (r : QuotaReservation)
  /-- The usage log has a row of this turn. -/
  | recorded (r : QuotaReservation) (actual : ℕ)
  /-- `settle_tokens` is called; none of its operations is done. -/
  | settling (r : QuotaReservation) (usage : Option ℕ)
  | closing (r : QuotaReservation) (usage : Option ℕ) (code : Prog Unit)
  | settled (r : QuotaReservation) (usage : Option ℕ)

/-- A client.  `weight` is a ghost: what its operations have added to the counter. -/
structure Client where
  amount : ℕ
  stage : Stage := .reserving
  weight : ℤ := 0

structure World where
  store : Store := {}
  clients : List Client := []
  reconciliations : List (Prog Unit) := []

inductive Action where
  | reserve (amount : ℕ)
  /-- The next operation of a client. -/
  | work (i : ℕ)
  /-- The call of a client returns. -/
  | ret (i : ℕ)
  /-- A turn writes its row of the usage log. -/
  | record (i : ℕ) (actual : ℕ)
  /-- A client settles without having written one. -/
  | settle (i : ℕ) (usage : Option ℕ)
  /-- A turn settles what it has recorded. -/
  | settleRecorded (i : ℕ)
  | reconcile
  /-- The next operation of a reconciliation. -/
  | workReconcile (j : ℕ)
deriving DecidableEq, Repr

/-- The first operation of a program is done: what is left, and what it has added. -/
def advance {α : Type} : Prog α → Store → Option (Prog α × Store × ℤ)
  | .call op next, s => some (next (.ok (s.exec op).1), (s.exec op).2, op.delta)
  | _, _ => none

namespace Client

variable (res : Resource)

def work (c : Client) (s : Store) : Option (Client × Store) :=
  match c.stage with
  | .reserving => do
      let (code, s', δ) ← advance (checkAndReserve res c.amount) s
      let fits := res.limit.all fun limit : ℕ => s'.counter ≤ limit
      some ({ c with stage := .checking fits code, weight := c.weight + δ }, s')
  | .checking fits code => do
      let (code, s', δ) ← advance code s
      some ({ c with stage := .checking fits code, weight := c.weight + δ }, s')
  | .settling r usage => do
      let (code, s', δ) ← advance (settleTokens r usage) s
      some ({ c with stage := .closing r usage code, weight := c.weight + δ }, s')
  | .closing r usage code => do
      let (code, s', δ) ← advance code s
      some ({ c with stage := .closing r usage code, weight := c.weight + δ }, s')
  | _ => none

/-- What a reservation ends in. -/
def admitted : Prog (Option QuotaReservation) → Option Stage
  | .pure (some r) => some (.holding r)
  | .pure none => some .unmetered
  | .raise _ => some .refused
  | .call _ _ => none

/-- Where a client stands after the return of its call. -/
def returned (c : Client) : Option Stage :=
  match c.stage with
  | .reserving => admitted (checkAndReserve res c.amount)
  | .checking _ code => admitted code
  | .settling r usage =>
      match settleTokens r usage with
      | .pure () => some (.settled r usage)
      | _ => none
  | .closing r usage code =>
      match code with
      | .pure () => some (.settled r usage)
      | _ => none
  | _ => none

def ret (c : Client) : Option Client :=
  (c.returned res).map fun stage => { c with stage := stage }

/-- The row of the usage log. -/
def record (actual : ℕ) (c : Client) : Option Client :=
  match c.stage with
  | .holding r => some { c with stage := .recorded r actual }
  | _ => none

def settle (usage : Option ℕ) (c : Client) : Option Client :=
  match c.stage with
  | .holding r => some { c with stage := .settling r usage }
  | _ => none

def settleRecorded (c : Client) : Option Client :=
  match c.stage with
  | .recorded r actual => some { c with stage := .settling r (some actual) }
  | _ => none

end Client

namespace World

variable (res : Resource)

/-- A client takes a step of its own. -/
def update (i : ℕ) (f : Client → Option Client) (w : World) : Option World := do
  let c ← w.clients[i]?
  let c' ← f c
  some { w with clients := w.clients.set i c' }

/-- The step of one action, if it is possible. -/
def step : Action → World → Option World
  | .reserve amount, w => some { w with clients := w.clients ++ [{ amount := amount }] }
  | .work i, w => do
      let c ← w.clients[i]?
      let (c', s') ← c.work res w.store
      some { w with store := s', clients := w.clients.set i c' }
  | .ret i, w => w.update i (·.ret res)
  | .record i actual, w => do
      let w' ← w.update i (·.record actual)
      some { w' with store := (w.store.exec (.record actual)).2 }
  | .settle i usage, w => w.update i (·.settle usage)
  | .settleRecorded i, w => w.update i (·.settleRecorded)
  | .reconcile, w =>
      some { w with reconciliations := w.reconciliations ++ [reconcileTenant res] }
  | .workReconcile j, w => do
      let code ← w.reconciliations[j]?
      let (code, s', _) ← advance code w.store
      some { w with store := s', reconciliations := w.reconciliations.set j code }

end World

/-- The system of one resource; the counter starts at zero. -/
def system (res : Resource) : Machine World Action where
  init w := w = {}
  step := World.step res

/-- The action overwrites the counter with a value. -/
def Overwrites (w : World) (a : Action) (value : ℤ) : Prop :=
  ∃ j seconds next, a = .workReconcile j ∧
    w.reconciliations[j]? = some (.call (.set value seconds) next)

/-! ### The sums over the clients -/

namespace Client

/-- What a client has been granted and has not settled. -/
def outstanding (c : Client) : ℕ :=
  match c.stage with
  | .holding r | .recorded r _ | .settling r _ => r.amount
  | _ => 0

/-- What a client has committed. -/
def committed (c : Client) : ℕ :=
  match c.stage with
  | .closing _ (some actual) _ | .settled _ (some actual) => actual
  | _ => 0

/-- By how much a client has committed more than it had reserved. -/
def overrun (c : Client) : ℕ :=
  match c.stage with
  | .closing r (some actual) _ | .settled r (some actual) => actual - r.amount
  | _ => 0

/-- What a client settles as used, from its row of the usage log on. -/
def used (c : Client) : ℕ :=
  match c.stage with
  | .recorded _ actual => actual
  | .settling _ usage | .closing _ usage _ | .settled _ usage => usage.getD 0
  | _ => 0

/-- A client has been granted its reservation, or is going to be. -/
def passed (c : Client) : Bool :=
  match c.stage with
  | .checking fits _ => fits
  | .holding _ | .recorded _ _ | .settling _ _ | .closing _ _ _ | .settled _ _ => true
  | _ => false

/-- A client is between the first operation of a call and its return. -/
def inFlight (c : Client) : Bool :=
  match c.stage with
  | .checking _ _ | .closing _ _ _ => true
  | _ => false

end Client

namespace World

def outstanding (w : World) : ℕ := (w.clients.map Client.outstanding).sum

def committed (w : World) : ℕ := (w.clients.map Client.committed).sum

def overrun (w : World) : ℕ := (w.clients.map Client.overrun).sum

def used (w : World) : ℕ := (w.clients.map Client.used).sum

/-- What the clients have put into the counter and not taken back. -/
def charged (w : World) : ℤ := (w.clients.map Client.weight).sum

end World

end Lumina.Quota
