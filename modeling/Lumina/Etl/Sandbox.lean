import Lumina.Knowledge.Status
import Lumina.Library.Transition
import Mathlib.Data.Int.Notation

/-!
# The isolated process

Documents are parsed in a child process, which has a limit on its memory and on its time.  Parent
and child share a pipe: the child says that it is ready, and then what has become of the document.
The parent waits for each of the two messages, and settles on an outcome.

The two processes run side by side.  The child may be ended by the system at any moment, also in the
middle of a message, and each of them may be slow.  Time is counted in milliseconds.
-/

namespace Lumina.Etl.Sandbox

open Transition

/-- An exception of the child: `type(exc).__name__` and `str(exc)`. -/
structure Thrown where
  name : String
  text : String
deriving DecidableEq, Repr

variable {α : Type}

/-- What the child reports: `("ready",)`, `("ok", result)` and `("error", cause, detail)`. -/
inductive Message (α : Type) where
  | ready
  | ok (result : α)
  | error (cause detail : String)
deriving DecidableEq, Repr

/-! ### The child -/

/-- The three calls of `_send`. -/
inductive Report (α : Type) where
  | greeting
  | failure (e : Thrown)
  | answer (result : α)
deriving DecidableEq, Repr

def Report.message : Report α → Message α
  | .greeting => .ready
  | .failure e => .error e.name e.text
  | .answer result => .ok result

/-- What `_send` falls back to if the message cannot be written. -/
def substitute (e : Thrown) : Message α :=
  .error "unserializable_result" (e.name ++ ": " ++ e.text)

/-- The points of `_child_main`. -/
inductive Child (α : Type) where
  /-- Before `_apply_memory_limit` has returned. -/
  | starting
  | sending (r : Report α)
  /-- Before the substitute is written. -/
  | degraded (r : Report α) (e : Thrown)
  /-- A part of a message is in the pipe. -/
  | writing (m : Message α) (r : Report α)
  /-- In `func(payload)`. -/
  | working
  | raised (e : Thrown)
  /-- In the `finally` clause. -/
  | closing
  /-- The process is gone. -/
  | ended
deriving DecidableEq, Repr

/-- What follows a call of `_send`. -/
def Report.next : Report α → Child α
  | .greeting => .working
  | .failure _ => .closing
  | .answer _ => .closing

/-- What follows an exception that leaves `_send`: only the greeting is inside of the `try`. -/
def Report.escaped (e : Thrown) : Report α → Child α
  | .greeting => .raised e
  | .failure _ => .closing
  | .answer _ => .closing

/-- What the processes are started with. -/
structure Setting (α : Type) where
  /-- What `func(payload)` may end with, if it ends. -/
  computes : Except Thrown α → Bool
  /-- The exceptions other than `OSError` that writing a message may raise. -/
  refuses : Thrown → Bool
  /-- `str` -/
  text : α → String
  /-- `timeout_seconds`, and how it is printed. -/
  timeout : ℕ
  timeoutText : String

inductive ChildAction (α : Type) where
  | limit
  | write
  | complete
  /-- `OSError` -/
  | broken
  | refuse (e : Thrown)
  | finish (out : Except Thrown α)
  /-- `restore()` and `str(exc)` return. -/
  | describe
  /-- One of them raises. -/
  | lose
  /-- `os._exit` -/
  | exit

/-- The next point of the child, and the messages that are complete with it. -/
def childStep (p : Setting α) : ChildAction α → Child α → Option (Child α × List (Message α))
  | .limit, .starting => some (.sending .greeting, [])
  | .write, .sending r => some (.writing r.message r, [])
  | .write, .degraded r e => some (.writing (substitute e) r, [])
  | .complete, .writing m r => some (r.next, [m])
  | .broken, .sending r => some (r.next, [])
  | .broken, .degraded r _ => some (r.next, [])
  | .refuse e, .sending r => if p.refuses e then some (.degraded r e, []) else none
  | .refuse e, .degraded r _ => if p.refuses e then some (r.escaped e, []) else none
  | .finish (.ok result), .working =>
      if p.computes (.ok result) then some (.sending (.answer result), []) else none
  | .finish (.error e), .working => if p.computes (.error e) then some (.raised e, []) else none
  | .describe, .raised e => some (.sending (.failure e), [])
  | .lose, .raised _ => some (.closing, [])
  | .exit, .closing => some (.ended, [])
  | _, _ => none

/-! ### The parent -/

/-- The further `details` of an `ExtractionFailedError`. -/
inductive Details where
  | none
  | exitcode (code : Option ℤ)
  | timeoutSeconds (milliseconds : ℕ)
deriving DecidableEq, Repr

/-- `ExtractionFailedError` -/
structure Failure where
  message : String
  cause : String
  details : Details := .none
deriving DecidableEq, Repr

inductive Outcome (α : Type) where
  | returned (result : α)
  | failed (f : Failure)
  /-- `message[1]` of a message without one raises `IndexError`. -/
  | malformed
deriving DecidableEq, Repr

/-- The message that the parent waits for. -/
inductive Phase where
  | handshake
  | result
deriving DecidableEq, Repr

/-- `_BOOTSTRAP_TIMEOUT_S` -/
def bootstrapTimeout : ℕ := 60000

/-- `_REAP_TIMEOUT_S` -/
def reapTimeout : ℕ := 5000

def Phase.budget (p : Setting α) : Phase → ℕ
  | .handshake => bootstrapTimeout
  | .result => p.timeout

/-- The failure of a `poll`. -/
def timedOut (p : Setting α) : Phase → Failure
  | .handshake => ⟨"抽取子行程啟動逾時（60s）", "child_bootstrap_timeout", .none⟩
  | .result => ⟨"抽取逾時（" ++ p.timeoutText ++ "s）", "timeout", .timeoutSeconds p.timeout⟩

/-- The failure of a `recv`. -/
def crashed (code : Option ℤ) : Phase → Failure
  | .handshake => ⟨"抽取的子行程啟動失敗", "child_crashed", .exitcode code⟩
  | .result => ⟨"抽取的子行程異常結束", "child_crashed", .exitcode code⟩

/-- The failure that an error message stands for. -/
def reported (cause detail : String) : Failure := ⟨"抽取失敗：" ++ detail, cause, .none⟩

/-- The failure of a handshake that is a result. -/
def misplaced (p : Setting α) (result : α) : Failure := ⟨"抽取失敗", p.text result, .none⟩

/-- The points of `run_isolated`. -/
inductive Parent (α : Type) where
  /-- Before `sink.close()`. -/
  | started
  | polling (phase : Phase) (since : ℕ)
  | receiving (phase : Phase)
  /-- Before `_terminate`, in the `finally` clause. -/
  | settled (o : Outcome α)
  /-- In `process.join`. -/
  | joining (o : Outcome α) (since : ℕ)
  | quit (o : Outcome α)
deriving DecidableEq, Repr

def Parent.outcome? : Parent α → Option (Outcome α)
  | .settled o => some o
  | .joining o _ => some o
  | .quit o => some o
  | _ => none

/-- What follows a message. -/
def received (p : Setting α) (now : ℕ) : Phase → Message α → Parent α
  | .handshake, .ready => .polling .result now
  | .handshake, .ok result => .settled (.failed (misplaced p result))
  | .handshake, .error cause detail => .settled (.failed (reported cause detail))
  | .result, .ready => .settled .malformed
  | .result, .ok result => .settled (.returned result)
  | .result, .error cause detail => .settled (.failed (reported cause detail))

inductive ParentAction where
  /-- `sink.close()` -/
  | closeSink
  /-- `poll` is true. -/
  | wake
  /-- `poll` is false. -/
  | giveUp
  | receive
  /-- `recv` raises. -/
  | fail (exitcode : Option ℤ)
  /-- `process.kill()`, unless the process is gone. -/
  | terminate
  | join
deriving DecidableEq, Repr

/-! ### The two of them -/

structure State (α : Type) where
  child : Child α := .starting
  parent : Parent α := .started
  /-- The messages that have been written completely, and how many of them have been read. -/
  sent : List (Message α) := []
  read : ℕ := 0
  killed : Option ℕ := none
  now : ℕ := 0
deriving DecidableEq, Repr

/-- A part of a message is in the pipe. -/
def Child.isWriting : Child α → Bool
  | .writing _ _ => true
  | _ => false

def Child.isEnded : Child α → Bool
  | .ended => true
  | _ => false

/-- There is something to read, or the last writer is gone.  The parent's own end is closed when it
polls. -/
def State.readable (s : State α) : Bool :=
  decide (s.read < s.sent.length) || s.child.isWriting || s.child.isEnded

def parentStep (p : Setting α) (s : State α) : ParentAction → Parent α → Option (State α)
  | .closeSink, .started => some { s with parent := .polling .handshake s.now }
  | .wake, .polling phase _ =>
      if s.readable then some { s with parent := .receiving phase } else none
  | .giveUp, .polling phase since =>
      if !s.readable && since + phase.budget p ≤ s.now then
        some { s with parent := .settled (.failed (timedOut p phase)) }
      else none
  | .receive, .receiving phase =>
      s.sent[s.read]?.map fun m =>
        { s with parent := received p s.now phase m, read := s.read + 1 }
  | .fail exitcode, .receiving phase =>
      if s.sent.length ≤ s.read && s.child.isEnded then
        some { s with parent := .settled (.failed (crashed exitcode phase)) }
      else none
  | .terminate, .settled o =>
      some { s with
        parent := .joining o s.now
        killed := if s.child.isEnded then none else some s.now }
  | .join, .joining o since =>
      if s.child.isEnded || since + reapTimeout ≤ s.now then some { s with parent := .quit o }
      else none
  | _, _ => none

inductive Action (α : Type) where
  | child (a : ChildAction α)
  | parent (a : ParentAction)
  /-- The system ends the child, or it leaves by an exception or a crash. -/
  | die
  | tick (milliseconds : ℕ)

def step (p : Setting α) : Action α → State α → Option (State α)
  | .child a, s => (childStep p a s.child).map fun (child, sent) =>
      { s with child := child, sent := s.sent ++ sent }
  | .parent a, s => parentStep p s a s.parent
  | .die, s => if s.child.isEnded then none else some { s with child := .ended }
  | .tick milliseconds, s => some { s with now := s.now + milliseconds }

/-- `run_isolated` has started its child. -/
def machine (p : Setting α) : Machine (State α) (Action α) where
  init := fun s => s = {}
  step := step p

/-! ### The steps of the child -/

variable {p : Setting α}

inductive ChildMoved (p : Setting α) :
    ChildAction α → Child α → Child α → List (Message α) → Prop where
  | limit : ChildMoved p .limit .starting (.sending .greeting) []
  | write (r : Report α) : ChildMoved p .write (.sending r) (.writing r.message r) []
  | substitute (r : Report α) (e : Thrown) :
      ChildMoved p .write (.degraded r e) (.writing (substitute e) r) []
  | complete (m : Message α) (r : Report α) : ChildMoved p .complete (.writing m r) r.next [m]
  | broken (r : Report α) : ChildMoved p .broken (.sending r) r.next []
  | unsent (r : Report α) (e : Thrown) : ChildMoved p .broken (.degraded r e) r.next []
  | refuse (r : Report α) (e : Thrown) (refused : p.refuses e = true) :
      ChildMoved p (.refuse e) (.sending r) (.degraded r e) []
  | escape (r : Report α) (e e' : Thrown) (refused : p.refuses e' = true) :
      ChildMoved p (.refuse e') (.degraded r e) (r.escaped e') []
  | answer (result : α) (computed : p.computes (.ok result) = true) :
      ChildMoved p (.finish (.ok result)) .working (.sending (.answer result)) []
  | raise (e : Thrown) (computed : p.computes (.error e) = true) :
      ChildMoved p (.finish (.error e)) .working (.raised e) []
  | describe (e : Thrown) : ChildMoved p .describe (.raised e) (.sending (.failure e)) []
  | lose (e : Thrown) : ChildMoved p .lose (.raised e) .closing []
  | exit : ChildMoved p .exit .closing .ended []

theorem moved_of_childStep {a : ChildAction α} {c c' : Child α} {sent : List (Message α)}
    (h : childStep p a c = some (c', sent)) :
  ChildMoved p a c c' sent
  := by
  unfold childStep at h
  split at h
  · cases h
    exact .limit
  · cases h
    exact .write _
  · cases h
    exact .substitute _ _
  · cases h
    exact .complete _ _
  · cases h
    exact .broken _
  · cases h
    exact .unsent _ _
  · split at h
    · case isTrue refused =>
      cases h
      exact .refuse _ _ refused
    · cases h
  · split at h
    · case isTrue refused =>
      cases h
      exact .escape _ _ _ refused
    · cases h
  · split at h
    · case isTrue computed =>
      cases h
      exact .answer _ computed
    · cases h
  · split at h
    · case isTrue computed =>
      cases h
      exact .raise _ computed
    · cases h
  · cases h
    exact .describe _
  · cases h
    exact .lose _
  · cases h
    exact .exit
  · cases h

/-! ### What the child says -/

/-- An exception that the child may report. -/
def Setting.Source (p : Setting α) (e : Thrown) : Prop :=
  p.computes (.error e) = true ∨ p.refuses e = true

/-- What the greeting may leave in the pipe. -/
inductive Greeted (p : Setting α) : List (Message α) → Prop where
  | lost : Greeted p []
  | ready : Greeted p [.ready]
  | refused (e : Thrown) (h : p.refuses e = true) : Greeted p [substitute e]

/-- The message after the greeting. -/
inductive Reply (p : Setting α) : Message α → Prop where
  | ok (result : α) (h : p.computes (.ok result) = true) : Reply p (.ok result)
  | error (e : Thrown) (h : p.Source e) : Reply p (.error e.name e.text)
  | refused (e : Thrown) (h : p.refuses e = true) : Reply p (substitute e)

/-- Everything that the child may leave in the pipe. -/
inductive Said (p : Setting α) : List (Message α) → Prop where
  | greeted {l : List (Message α)} (h : Greeted p l) : Said p l
  | replied {l : List (Message α)} {m : Message α} (h : Greeted p l) (reply : Reply p m) :
      Said p (l ++ [m])

theorem Said.first {m : Message α} {l : List (Message α)} (h : Said p (m :: l)) :
  m = .ready ∨ Reply p m
  := by
  generalize whole : m :: l = said at h
  cases h with
  | greeted greeted =>
    cases greeted with
    | lost => cases whole
    | ready =>
      cases whole
      exact .inl rfl
    | refused e refused =>
      cases whole
      exact .inr (.refused e refused)
  | replied greeted reply =>
    cases greeted with
    | lost =>
      cases whole
      exact .inr reply
    | ready =>
      cases whole
      exact .inl rfl
    | refused e refused =>
      cases whole
      exact .inr (.refused e refused)

theorem Said.second {m : Message α} {l : List (Message α)} (h : Said p (.ready :: m :: l)) :
  Reply p m
  := by
  generalize whole : Message.ready :: m :: l = said at h
  cases h with
  | greeted greeted =>
    cases greeted with
    | lost => cases whole
    | ready => cases whole
    | refused e refused => cases whole
  | replied greeted reply =>
    cases greeted with
    | lost => cases whole
    | ready =>
      cases whole
      exact reply
    | refused e refused => cases whole

/-- What has been said before a report. -/
def Report.Before (p : Setting α) (l : List (Message α)) : Report α → Prop
  | .greeting => l = []
  | .failure e => Greeted p l ∧ p.Source e
  | .answer result => Greeted p l ∧ p.computes (.ok result) = true

/-- What has been said, at each point of the child. -/
def Stage (p : Setting α) (l : List (Message α)) : Child α → Prop
  | .starting => l = []
  | .sending r => r.Before p l
  | .degraded r e => r.Before p l ∧ p.refuses e = true
  | .writing m r => r.Before p l ∧ (m = r.message ∨ ∃ e, p.refuses e = true ∧ m = substitute e)
  | .working => Greeted p l
  | .raised e => Greeted p l ∧ p.Source e
  | .closing => Said p l
  | .ended => Said p l

theorem Report.Before.said {r : Report α} {l : List (Message α)} (h : r.Before p l) :
  Said p l
  := by
  cases r with
  | greeting =>
    cases h
    exact .greeted .lost
  | failure e => exact .greeted h.1
  | answer result => exact .greeted h.1

theorem Stage.said {c : Child α} {l : List (Message α)} (h : Stage p l c) :
  Said p l
  := by
  cases c with
  | starting =>
    cases h
    exact .greeted .lost
  | sending r => exact Report.Before.said h
  | degraded r e => exact h.1.said
  | writing m r => exact h.1.said
  | working => exact .greeted h
  | raised e => exact .greeted h.1
  | closing => exact h
  | ended => exact h

theorem Report.Before.unsent {r : Report α} {l : List (Message α)} (h : r.Before p l) :
  Stage p l r.next
  := by
  cases r with
  | greeting =>
    cases h
    exact Greeted.lost
  | failure e => exact Said.greeted h.1
  | answer result => exact Said.greeted h.1

theorem Report.Before.complete {r : Report α} {l : List (Message α)} (h : r.Before p l)
    {m : Message α} (written : m = r.message ∨ ∃ e, p.refuses e = true ∧ m = substitute e) :
  Stage p (l ++ [m]) r.next
  := by
  cases r with
  | greeting =>
    cases h
    obtain rfl | ⟨e, refused, rfl⟩ := written
    · exact Greeted.ready
    · exact Greeted.refused e refused
  | failure e =>
    refine Said.replied h.1 ?_
    obtain rfl | ⟨e, refused, rfl⟩ := written
    · exact .error e h.2
    · exact .refused e refused
  | answer result =>
    refine Said.replied h.1 ?_
    obtain rfl | ⟨e, refused, rfl⟩ := written
    · exact .ok result h.2
    · exact .refused e refused

theorem Report.Before.escaped {r : Report α} {l : List (Message α)} (h : r.Before p l) {e : Thrown}
    (refused : p.refuses e = true) :
  Stage p l (r.escaped e)
  := by
  cases r with
  | greeting =>
    cases h
    exact ⟨Greeted.lost, .inr refused⟩
  | failure e => exact Said.greeted h.1
  | answer result => exact Said.greeted h.1

theorem Stage.moved {a : ChildAction α} {c c' : Child α} {l sent : List (Message α)}
    (h : Stage p l c) (moved : ChildMoved p a c c' sent) :
  Stage p (l ++ sent) c'
  := by
  cases moved with
  | complete m r => exact h.1.complete h.2
  | limit =>
    rw [List.append_nil]
    exact h
  | write r =>
    rw [List.append_nil]
    exact ⟨h, .inl rfl⟩
  | substitute r e =>
    rw [List.append_nil]
    exact ⟨h.1, .inr ⟨e, h.2, rfl⟩⟩
  | broken r =>
    rw [List.append_nil]
    exact Report.Before.unsent h
  | unsent r e =>
    rw [List.append_nil]
    exact h.1.unsent
  | refuse r e refused =>
    rw [List.append_nil]
    exact ⟨h, refused⟩
  | escape r e e' refused =>
    rw [List.append_nil]
    exact h.1.escaped refused
  | answer result computed =>
    rw [List.append_nil]
    exact ⟨h, computed⟩
  | raise e computed =>
    rw [List.append_nil]
    exact ⟨h, .inl computed⟩
  | describe e =>
    rw [List.append_nil]
    exact h
  | lose e =>
    rw [List.append_nil]
    exact Said.greeted h.1
  | exit =>
    rw [List.append_nil]
    exact h

/-! ### The steps of both -/

inductive Moved (p : Setting α) (s : State α) : Action α → State α → Prop where
  | child (a : ChildAction α) (c : Child α) (sent : List (Message α))
      (h : ChildMoved p a s.child c sent) :
      Moved p s (.child a) { s with child := c, sent := s.sent ++ sent }
  | die (alive : s.child.isEnded = false) : Moved p s .die { s with child := .ended }
  | tick (milliseconds : ℕ) :
      Moved p s (.tick milliseconds) { s with now := s.now + milliseconds }
  | closeSink (at' : s.parent = .started) :
      Moved p s (.parent .closeSink) { s with parent := .polling .handshake s.now }
  | wake (phase : Phase) (since : ℕ) (at' : s.parent = .polling phase since)
      (readable : s.readable = true) :
      Moved p s (.parent .wake) { s with parent := .receiving phase }
  | giveUp (phase : Phase) (since : ℕ) (at' : s.parent = .polling phase since)
      (silent : s.readable = false) (late : since + phase.budget p ≤ s.now) :
      Moved p s (.parent .giveUp) { s with parent := .settled (.failed (timedOut p phase)) }
  | receive (phase : Phase) (m : Message α) (at' : s.parent = .receiving phase)
      (found : s.sent[s.read]? = some m) :
      Moved p s (.parent .receive)
        { s with parent := received p s.now phase m, read := s.read + 1 }
  | fail (phase : Phase) (exitcode : Option ℤ) (at' : s.parent = .receiving phase)
      (empty : s.sent.length ≤ s.read) (ended : s.child.isEnded = true) :
      Moved p s (.parent (.fail exitcode))
        { s with parent := .settled (.failed (crashed exitcode phase)) }
  | terminate (o : Outcome α) (at' : s.parent = .settled o) :
      Moved p s (.parent .terminate) { s with
        parent := .joining o s.now
        killed := if s.child.isEnded then none else some s.now }
  | join (o : Outcome α) (since : ℕ) (at' : s.parent = .joining o since)
      (reaped : s.child.isEnded = true ∨ since + reapTimeout ≤ s.now) :
      Moved p s (.parent .join) { s with parent := .quit o }

theorem moved_of_parentStep {a : ParentAction} {s t : State α}
    (h : parentStep p s a s.parent = some t) :
  Moved p s (.parent a) t
  := by
  generalize at' : s.parent = parent at h
  unfold parentStep at h
  split at h
  · cases h
    exact .closeSink at'
  · split at h
    · case isTrue readable =>
      cases h
      exact .wake _ _ at' readable
    · cases h
  · split at h
    · case isTrue late =>
      cases h
      rw [Bool.and_eq_true, Bool.not_eq_true', decide_eq_true_eq] at late
      exact .giveUp _ _ at' late.1 late.2
    · cases h
  · obtain ⟨m, found, rfl⟩ := Option.map_eq_some_iff.mp h
    exact .receive _ m at' found
  · split at h
    · case isTrue crash =>
      cases h
      rw [Bool.and_eq_true, decide_eq_true_eq] at crash
      exact .fail _ _ at' crash.1 crash.2
    · cases h
  · cases h
    exact .terminate _ at'
  · split at h
    · case isTrue reaped =>
      cases h
      rw [Bool.or_eq_true, decide_eq_true_eq] at reaped
      exact .join _ _ at' reaped
    · cases h
  · cases h

theorem moved_of_step {a : Action α} {s t : State α} (h : step p a s = some t) :
  Moved p s a t
  := by
  cases a with
  | child a =>
    obtain ⟨⟨c, sent⟩, found, rfl⟩ := Option.map_eq_some_iff.mp h
    exact .child a c sent (moved_of_childStep found)
  | parent a => exact moved_of_parentStep h
  | die =>
    have found : (if s.child.isEnded then none else some { s with child := .ended }) = some t := h
    split at found
    · cases found
    · case isFalse alive =>
      cases found
      exact .die (Bool.eq_false_iff.mpr alive)
  | tick milliseconds =>
    cases h
    exact .tick milliseconds

/-! ### What the parent knows -/

/-- What the parent has read before it waits. -/
def Phase.heard : Phase → List (Message α)
  | .handshake => []
  | .result => [.ready]

/-- What has been read, as long as there is no outcome. -/
def Position (sent : List (Message α)) (read : ℕ) : Parent α → Prop
  | .started => read = 0
  | .polling phase _ => read = phase.heard (α := α).length ∧ phase.heard <+: sent
  | .receiving phase => read = phase.heard (α := α).length ∧ phase.heard <+: sent
  | _ => True

theorem Position.append {sent : List (Message α)} {read : ℕ} {parent : Parent α}
    (h : Position sent read parent) (more : List (Message α)) :
  Position (sent ++ more) read parent
  := by
  cases parent with
  | started => exact h
  | polling phase since => exact ⟨h.1, h.2.trans (List.prefix_append _ _)⟩
  | receiving phase => exact ⟨h.1, h.2.trans (List.prefix_append _ _)⟩
  | settled o => trivial
  | joining o since => trivial
  | quit o => trivial

/-- A message that follows what has been heard. -/
theorem heard_concat {sent : List (Message α)} {phase : Phase} {m : Message α}
    (heard : phase.heard <+: sent)
    (found : sent[phase.heard (α := α).length]? = some m) :
  phase.heard ++ [m] <+: sent
  := by
  obtain ⟨rest, rfl⟩ := heard
  rw [List.getElem?_append_right (Nat.le_refl _), Nat.sub_self] at found
  cases rest with
  | nil => cases found
  | cons m' rest =>
    cases found
    exact ⟨rest, by rw [List.append_assoc]; rfl⟩

structure Sound (p : Setting α) (s : State α) : Prop where
  stage : Stage p s.sent s.child
  position : Position s.sent s.read s.parent

theorem sound_init : Sound p {} := ⟨rfl, rfl⟩

theorem Sound.moved {a : Action α} {s t : State α} (h : Sound p s) (moved : Moved p s a t) :
  Sound p t
  := by
  obtain ⟨stage, position⟩ := h
  cases moved with
  | child a c sent moved => exact ⟨stage.moved moved, position.append sent⟩
  | die alive => exact ⟨stage.said, position⟩
  | tick milliseconds => exact ⟨stage, position⟩
  | closeSink at' =>
    rw [at'] at position
    exact ⟨stage, position, List.nil_prefix⟩
  | wake phase since at' readable =>
    rw [at'] at position
    exact ⟨stage, position⟩
  | giveUp phase since at' silent late => exact ⟨stage, trivial⟩
  | receive phase m at' found =>
    rw [at'] at position
    obtain ⟨read, heard⟩ := position
    rw [read] at found
    have there := heard_concat heard found
    refine ⟨stage, ?_⟩
    cases phase with
    | handshake =>
      cases m with
      | ready =>
        refine ⟨?_, there⟩
        rw [read]
        rfl
      | ok result => trivial
      | error cause detail => trivial
    | result =>
      cases m with
      | ready => trivial
      | ok result => trivial
      | error cause detail => trivial
  | fail phase exitcode at' empty ended => exact ⟨stage, trivial⟩
  | terminate o at' => exact ⟨stage, trivial⟩
  | join o since at' reaped => exact ⟨stage, trivial⟩

/-! ### Why the parent settles -/

/-- What explains an outcome, in the state in which the parent settles on it. -/
inductive Explains (p : Setting α) (u : State α) : Outcome α → Prop where
  | returned (result : α) (h : p.computes (.ok result) = true) : Explains p u (.returned result)
  /-- The function raises, or the greeting could not even be replaced. -/
  | reported (e : Thrown) (h : p.Source e) : Explains p u (.failed (reported e.name e.text))
  | unserializable (e : Thrown) (h : p.refuses e = true) :
      Explains p u
        (.failed (reported "unserializable_result" (e.name ++ ": " ++ e.text)))
  /-- The greeting is lost, and the result is taken for it. -/
  | misplaced (result : α) (h : p.computes (.ok result) = true) :
      Explains p u (.failed (misplaced p result))
  /-- The child is there and has begun to say nothing for the whole time. -/
  | timedOut (phase : Phase) (since : ℕ) (waits : u.parent = .polling phase since)
      (late : since + phase.budget p ≤ u.now) (alive : u.child.isEnded = false)
      (silent : u.child.isWriting = false) (said : u.sent = phase.heard) :
      Explains p u (.failed (timedOut p phase))
  /-- The child is gone, and there is nothing of it to read. -/
  | crashed (phase : Phase) (exitcode : Option ℤ) (waits : u.parent = .receiving phase)
      (ended : u.child.isEnded = true) (said : u.sent = phase.heard) :
      Explains p u (.failed (crashed exitcode phase))

theorem explains_of_reply {u : State α} {m : Message α} (reply : Reply p m) {phase : Phase}
    {o : Outcome α} (settled : (received p u.now phase m).outcome? = some o) :
  Explains p u o
  := by
  cases reply with
  | ok result computed =>
    cases phase with
    | handshake =>
      cases settled
      exact .misplaced result computed
    | result =>
      cases settled
      exact .returned result computed
  | error e source =>
    cases phase with
    | handshake =>
      cases settled
      exact .reported e source
    | result =>
      cases settled
      exact .reported e source
  | refused e refused =>
    cases phase with
    | handshake =>
      cases settled
      exact .unserializable e refused
    | result =>
      cases settled
      exact .unserializable e refused

theorem heard_eq {s : State α} {phase : Phase}
    (position : s.read = phase.heard (α := α).length ∧ phase.heard <+: s.sent)
    (empty : s.sent.length ≤ s.read) :
  s.sent = phase.heard
  := (position.2.eq_of_length_le (by rw [← position.1]; exact empty)).symm

theorem Sound.settles {a : Action α} {s t : State α} (h : Sound p s) (moved : Moved p s a t)
    {o : Outcome α} (settled : t.parent.outcome? = some o) :
  s.parent.outcome? = some o ∨ Explains p s o
  := by
  obtain ⟨stage, position⟩ := h
  cases moved with
  | child a c sent moved => exact .inl settled
  | die alive => exact .inl settled
  | tick milliseconds => exact .inl settled
  | closeSink at' => cases settled
  | wake phase since at' readable => cases settled
  | giveUp phase since at' silent late =>
    cases settled
    rw [at'] at position
    unfold State.readable at silent
    simp only [Bool.or_eq_false_iff, decide_eq_false_iff_not, Nat.not_lt] at silent
    obtain ⟨⟨empty, writing⟩, alive⟩ := silent
    exact .inr (.timedOut phase since at' late alive writing (heard_eq position empty))
  | receive phase m at' found =>
    right
    rw [at'] at position
    obtain ⟨read, heard⟩ := position
    rw [read] at found
    obtain ⟨rest, whole⟩ := heard_concat heard found
    have said := stage.said
    rw [← whole] at said
    cases phase with
    | handshake =>
      obtain rfl | reply := said.first
      · cases settled
      · exact explains_of_reply reply settled
    | result => exact explains_of_reply said.second settled
  | fail phase exitcode at' empty ended =>
    cases settled
    rw [at'] at position
    exact .inr (.crashed phase exitcode at' ended (heard_eq position empty))
  | terminate o' at' =>
    left
    cases settled
    rw [at']
    rfl
  | join o' since at' reaped =>
    left
    cases settled
    rw [at']
    rfl

theorem sound_of_run {h : List (State α × Action α)} {s : State α} (run : (machine p).Run h s) :
  Sound p s
  := by
  refine run.invariant ?_ fun a s t sound hstep => sound.moved (moved_of_step hstep)
  intro s init
  cases init
  exact sound_init

/-- Whatever the order in which the two processes, the clock and the system act, an outcome is
explained by a state of the run: a result is one that the function returned, a reported failure one
that was raised, a time is only exceeded by a child that is there and says nothing, a crash is a
child that is gone without a word, and there is no other outcome. -/
theorem outcome_explained {h : List (State α × Action α)} {s : State α}
    (run : (machine p).Run h s) {o : Outcome α} (settled : s.parent.outcome? = some o) :
  ∃ u ∈ Machine.states h s, Explains p u o
  := by
  induction run with
  | init init =>
    cases init
    cases settled
  | @step h s t a run hstep ih =>
    obtain before | explains := (sound_of_run run).settles (moved_of_step hstep) settled
    · obtain ⟨u, mem, explains⟩ := ih before
      exact ⟨u, List.mem_cons_of_mem _ mem, explains⟩
    · exact ⟨s, List.mem_cons_of_mem _ List.mem_cons_self, explains⟩

/-! ### Small runs -/

/-- The function returns seven, or raises an exception of its own. -/
def sampleSetting : Setting ℕ where
  computes
    | .ok result => result = 7
    | .error e => e = ⟨"ValueError", "x"⟩
  refuses := fun _ => false
  text := fun result => toString result
  timeout := 1000
  timeoutText := "1"

/-- The handshake. -/
def sampleStart : List (Action α) :=
  [.child .limit, .parent .closeSink, .child .write, .parent .wake, .child .complete,
    .parent .receive]

/-- The child works for too long. -/
theorem outcome_explained_sample :
  ∃ h s, (machine sampleSetting).Run h s ∧
    s.parent.outcome? = some (.failed (timedOut sampleSetting .result)) ∧
    ∃ u ∈ Machine.states h s, Explains sampleSetting u (.failed (timedOut sampleSetting .result))
  := by
  obtain ⟨h, s, run, ends⟩ := (machine sampleSetting).exists_run_of_exec
    (sampleStart ++ [.tick 1000, .parent .giveUp])
    (fun s => s.parent.outcome? = some (.failed (timedOut sampleSetting .result)))
    (s := {}) rfl (by decide)
  have settled := of_decide_eq_true ends
  exact ⟨h, s, run, settled, outcome_explained run settled⟩

/-! ### The end of the call -/

def Action.isParent : Action α → Bool
  | .parent _ => true
  | _ => false

/-- How many steps the parent has left. -/
def Parent.left : Parent α → ℕ
  | .started => 7
  | .polling .handshake _ => 6
  | .receiving .handshake => 5
  | .polling .result _ => 4
  | .receiving .result => 3
  | .settled _ => 2
  | .joining _ _ => 1
  | .quit _ => 0

theorem left_wake (phase : Phase) (since : ℕ) :
  (Parent.receiving phase : Parent α).left + 1 = (Parent.polling phase since : Parent α).left
  := by
  cases phase with
  | handshake => rfl
  | result => rfl

theorem left_settled (phase : Phase) (o : Outcome α) :
  (Parent.settled o).left + 1 ≤ (Parent.receiving phase : Parent α).left
  := by
  cases phase with
  | handshake => exact Nat.le_add_left 3 2
  | result => exact Nat.le_refl 3

theorem left_received (now : ℕ) (phase : Phase) (m : Message α) :
  (received p now phase m).left + 1 ≤ (Parent.receiving phase : Parent α).left
  := by
  cases phase with
  | handshake =>
    cases m with
    | ready => exact Nat.le_refl 5
    | ok result => exact left_settled .handshake _
    | error cause detail => exact left_settled .handshake _
  | result =>
    cases m with
    | ready => exact left_settled .result _
    | ok result => exact left_settled .result _
    | error cause detail => exact left_settled .result _

theorem Moved.left {a : Action α} {s t : State α} (h : Moved p s a t) :
  t.parent.left + (if a.isParent then 1 else 0) ≤ s.parent.left
  := by
  cases h with
  | child a c sent h => exact Nat.le_refl _
  | die alive => exact Nat.le_refl _
  | tick milliseconds => exact Nat.le_refl _
  | closeSink at' =>
    rw [at']
    exact Nat.le_refl 7
  | wake phase since at' readable =>
    rw [at']
    exact Nat.le_of_eq (left_wake phase since)
  | giveUp phase since at' silent late =>
    rw [at', ← left_wake]
    exact Nat.le_succ_of_le (left_settled phase _)
  | receive phase m at' found =>
    rw [at']
    exact left_received s.now phase m
  | fail phase exitcode at' empty ended =>
    rw [at']
    exact left_settled phase _
  | terminate o at' =>
    rw [at']
    exact Nat.le_refl 2
  | join o since at' reaped =>
    rw [at']
    exact Nat.le_refl 1

/-- What the parent waits for. -/
def Waits (s : State α) : Parent α → Prop
  | .polling _ since => since ≤ s.now
  | .receiving _ => s.readable = true
  | .joining _ since => since ≤ s.now ∧ (s.child.isEnded = true ∨ s.killed = some since)
  | .quit _ => s.child.isEnded = true ∨ ∃ t, s.killed = some t ∧ t + reapTimeout ≤ s.now
  | _ => True

theorem isEnded_moved {a : ChildAction α} {c c' : Child α} {sent : List (Message α)}
    (moved : ChildMoved p a c c' sent) :
  c.isEnded = false
  := by
  cases moved
  all_goals rfl

theorem isWriting_moved {a : ChildAction α} {c c' : Child α} {sent : List (Message α)}
    (moved : ChildMoved p a c c' sent) (writing : c.isWriting = true) :
  sent.length = 1
  := by
  cases moved with
  | complete m r => rfl
  | limit => cases writing
  | write r => cases writing
  | substitute r e => cases writing
  | broken r => cases writing
  | unsent r e => cases writing
  | refuse r e refused => cases writing
  | escape r e e' refused => cases writing
  | answer result computed => cases writing
  | raise e computed => cases writing
  | describe e => cases writing
  | lose e => cases writing
  | exit => cases writing

theorem readable_iff {s : State α} :
  s.readable = true ↔
    s.read < s.sent.length ∨ s.child.isWriting = true ∨ s.child.isEnded = true
  := by
  unfold State.readable
  rw [Bool.or_eq_true, Bool.or_eq_true, decide_eq_true_eq, or_assoc]

theorem Position.read_le {s : State α} {phase : Phase}
    (h : Position s.sent s.read (.receiving phase : Parent α)) :
  s.read ≤ s.sent.length
  := by
  rw [h.1]
  exact h.2.length_le

theorem Waits.moved {a : Action α} {s t : State α} (sound : Sound p s) (h : Waits s s.parent)
    (moved : Moved p s a t) :
  Waits t t.parent
  := by
  cases moved with
  | child a c sent moved =>
    have alive := isEnded_moved moved
    generalize at' : s.parent = parent at h
    have position := sound.position
    rw [at'] at position
    cases parent with
    | started => trivial
    | polling phase since => exact h
    | receiving phase =>
      refine readable_iff.mpr ?_
      have read := position.read_le
      show s.read < (s.sent ++ sent).length ∨ _
      rw [List.length_append]
      obtain unread | writing | ended := readable_iff.mp h
      · left
        omega
      · left
        rw [isWriting_moved moved writing]
        omega
      · rw [alive] at ended
        cases ended
    | settled o => trivial
    | joining o since =>
      refine ⟨h.1, .inr ?_⟩
      exact h.2.resolve_left (by rw [alive]; exact Bool.false_ne_true)
    | quit o =>
      right
      exact h.resolve_left (by rw [alive]; exact Bool.false_ne_true)
  | die alive =>
    show Waits _ s.parent
    cases at' : s.parent with
    | started => trivial
    | polling phase since =>
      rw [at'] at h
      exact h
    | receiving phase => exact readable_iff.mpr (.inr (.inr rfl))
    | settled o => trivial
    | joining o since =>
      rw [at'] at h
      exact ⟨h.1, .inl rfl⟩
    | quit o => exact .inl rfl
  | tick milliseconds =>
    show Waits _ s.parent
    cases at' : s.parent with
    | started => trivial
    | polling phase since =>
      rw [at'] at h
      exact Nat.le_add_right_of_le h
    | receiving phase =>
      rw [at'] at h
      exact h
    | settled o => trivial
    | joining o since =>
      rw [at'] at h
      exact ⟨Nat.le_add_right_of_le h.1, h.2⟩
    | quit o =>
      rw [at'] at h
      obtain ended | ⟨t, killed, late⟩ := h
      · exact .inl ended
      · exact .inr ⟨t, killed, Nat.le_add_right_of_le late⟩
  | closeSink at' => exact Nat.le_refl _
  | wake phase since at' readable => exact readable
  | giveUp phase since at' silent late => trivial
  | receive phase m at' found =>
    cases phase with
    | handshake =>
      cases m with
      | ready => exact Nat.le_refl _
      | ok result => trivial
      | error cause detail => trivial
    | result =>
      cases m with
      | ready => trivial
      | ok result => trivial
      | error cause detail => trivial
  | fail phase exitcode at' empty ended => trivial
  | terminate o at' =>
    refine ⟨Nat.le_refl _, ?_⟩
    show s.child.isEnded = true ∨ (if s.child.isEnded then none else some s.now) = some s.now
    cases s.child.isEnded with
    | false => exact .inr rfl
    | true => exact .inl rfl
  | join o since at' reaped =>
    rw [at'] at h
    show s.child.isEnded = true ∨ ∃ t, s.killed = some t ∧ t + reapTimeout ≤ s.now
    obtain ended | late := reaped
    · exact .inl ended
    · obtain ended | killed := h.2
      · exact .inl ended
      · exact .inr ⟨since, killed, late⟩

theorem waits_of_run {h : List (State α × Action α)} {s : State α} (run : (machine p).Run h s) :
  Waits s s.parent
  := by
  induction run with
  | init init =>
    cases init
    trivial
  | step run hstep ih => exact ih.moved (sound_of_run run) (moved_of_step hstep)

/-- The longest time that the parent waits. -/
def patience (p : Setting α) : ℕ := max bootstrapTimeout (max p.timeout reapTimeout)

theorem budget_le (phase : Phase) :
  phase.budget p ≤ patience p
  := by
  cases phase with
  | handshake => exact Nat.le_max_left _ _
  | result => exact Nat.le_trans (Nat.le_max_left _ _) (Nat.le_max_right _ _)

/-- The parent can take a step, after `patience` at the latest, unless it is reading a message that
the child has not finished; a call that is over has not left its child behind. -/
def Progress (p : Setting α) (s : State α) : Parent α → Prop
  | .quit _ => s.child.isEnded = true ∨ ∃ t, s.killed = some t ∧ t + reapTimeout ≤ s.now
  | .receiving _ => s.child.isWriting = true ∨ ∃ a, (step p (.parent a) s).isSome = true
  | _ => ∃ d ≤ patience p, ∃ a, (step p (.parent a) { s with now := s.now + d }).isSome = true

theorem isSome_parent {s : State α} {a : ParentAction} {parent : Parent α}
    (at' : s.parent = parent) (h : (parentStep p s a parent).isSome = true) :
  (step p (.parent a) s).isSome = true
  := by
  show (parentStep p s a s.parent).isSome = true
  rw [at']
  exact h

theorem isSome_if {c : Prop} [Decidable c] {s : State α} (h : c) :
  (if c then some s else none).isSome = true
  := by
  rw [if_pos h]
  rfl

theorem isSome_receive {s : State α} {phase : Phase} (at' : s.parent = .receiving phase)
    (unread : s.read < s.sent.length) :
  (step p (.parent .receive) s).isSome = true
  := by
  apply isSome_parent at'
  show (s.sent[s.read]?.map _).isSome = true
  rw [Option.isSome_map, List.getElem?_eq_getElem unread]
  rfl

theorem progress {s : State α} {parent : Parent α} (at' : s.parent = parent)
    (waits : Waits s parent) :
  Progress p s parent
  := by
  cases parent with
  | started => exact ⟨0, Nat.zero_le _, .closeSink, isSome_parent at' rfl⟩
  | polling phase since =>
    cases readable : s.readable with
    | true => exact ⟨0, Nat.zero_le _, .wake, isSome_parent at' (isSome_if readable)⟩
    | false =>
      refine ⟨phase.budget p, budget_le phase, .giveUp, isSome_parent at' (isSome_if ?_)⟩
      rw [Bool.and_eq_true, Bool.not_eq_true', decide_eq_true_eq]
      exact ⟨readable, Nat.add_le_add_right waits _⟩
  | receiving phase =>
    obtain unread | writing | ended := readable_iff.mp waits
    · exact .inr ⟨.receive, isSome_receive at' unread⟩
    · exact .inl writing
    · by_cases unread : s.read < s.sent.length
      · exact .inr ⟨.receive, isSome_receive at' unread⟩
      · refine .inr ⟨.fail none, isSome_parent at' (isSome_if ?_)⟩
        rw [Bool.and_eq_true, decide_eq_true_eq]
        exact ⟨Nat.not_lt.mp unread, ended⟩
  | settled o => exact ⟨0, Nat.zero_le _, .terminate, isSome_parent at' rfl⟩
  | joining o since =>
    refine ⟨reapTimeout, Nat.le_trans (Nat.le_max_right _ _) (Nat.le_max_right _ _), .join,
      isSome_parent at' (isSome_if ?_)⟩
    rw [Bool.or_eq_true, decide_eq_true_eq]
    exact .inr (Nat.add_le_add_right waits.1 _)
  | quit o => exact waits

/-- Whatever the child does, the parent takes seven steps at most, it is never stuck longer than
`patience`, and it ends or kills the child before it is done. -/
theorem call_ends {h : List (State α × Action α)} {s : State α} (run : (machine p).Run h s) :
  h.countP (fun x => x.2.isParent) + s.parent.left ≤ 7 ∧ Progress p s s.parent
  := by
  constructor
  · induction run with
    | init init =>
      cases init
      exact Nat.le_refl 7
    | @step h s t a run hstep ih =>
      have left := (moved_of_step hstep).left
      rw [List.countP_cons]
      show _ + (if a.isParent then 1 else 0) + t.parent.left ≤ 7
      omega
  · exact progress rfl (waits_of_run run)

/-- The parent kills a child that works for too long. -/
theorem call_ends_sample :
  ∃ h s, (machine sampleSetting).Run h s ∧ s.parent.left = 0 ∧
    h.countP (fun x => x.2.isParent) + s.parent.left ≤ 7 ∧ Progress sampleSetting s s.parent
  := by
  obtain ⟨h, s, run, ends⟩ := (machine sampleSetting).exists_run_of_exec
    (sampleStart ++ [.tick 1000, .parent .giveUp, .parent .terminate, .die, .parent .join])
    (fun s => s.parent.left = 0) (s := {}) rfl (by decide)
  exact ⟨h, s, run, of_decide_eq_true ends, call_ends run⟩

/-! ### Undisturbed runs -/

/-- What the call makes of the end of the function. -/
def deliver : Except Thrown α → Outcome α
  | .ok result => .returned result
  | .error e => .failed (reported e.name e.text)

/-- Every message is written, the child is only ended by the parent, and no time is exceeded. -/
def calm (s : State α) : Action α → Bool
  | .child .broken => false
  | .child (.refuse _) => false
  | .child .lose => false
  | .parent .giveUp => false
  | .die => s.killed.isSome
  | _ => true

/-- The message that reports the end of the function. -/
def reply : Except Thrown α → Message α
  | .ok result => .ok result
  | .error e => .error e.name e.text

/-- What has been said before a report. -/
def Report.Due (p : Setting α) (l : List (Message α)) : Report α → Prop
  | .greeting => l = []
  | .failure e => l = [.ready] ∧ p.computes (.error e) = true
  | .answer result => l = [.ready] ∧ p.computes (.ok result) = true

/-- All that there is to say. -/
def Complete (p : Setting α) (l : List (Message α)) : Prop :=
  ∃ out, p.computes out = true ∧ l = [.ready, reply out]

/-- What has been said in an undisturbed run, as long as the parent has not settled. -/
def Due (p : Setting α) (l : List (Message α)) : Child α → Prop
  | .starting => l = []
  | .sending r => r.Due p l
  | .degraded _ _ => False
  | .writing m r => r.Due p l ∧ m = r.message
  | .working => l = [.ready]
  | .raised e => l = [.ready] ∧ p.computes (.error e) = true
  | .closing => Complete p l
  | .ended => Complete p l

theorem Report.Due.complete {r : Report α} {l : List (Message α)} (h : r.Due p l) :
  Lumina.Etl.Sandbox.Due p (l ++ [r.message]) r.next
  := by
  cases r with
  | greeting =>
    cases h
    rfl
  | failure e =>
    obtain ⟨rfl, computed⟩ := h
    exact ⟨.error e, computed, rfl⟩
  | answer result =>
    obtain ⟨rfl, computed⟩ := h
    exact ⟨.ok result, computed, rfl⟩

theorem Due.moved {a : ChildAction α} {s : State α} {c c' : Child α} {l sent : List (Message α)}
    (h : Due p l c) (moved : ChildMoved p a c c' sent) (quiet : calm s (.child a) = true) :
  Due p (l ++ sent) c'
  := by
  cases moved with
  | complete m r =>
    rw [h.2]
    exact h.1.complete
  | limit =>
    rw [List.append_nil]
    exact h
  | write r =>
    rw [List.append_nil]
    exact ⟨h, rfl⟩
  | substitute r e => exact h.elim
  | broken r => cases quiet
  | unsent r e => cases quiet
  | refuse r e refused => cases quiet
  | escape r e e' refused => cases quiet
  | answer result computed =>
    rw [List.append_nil]
    exact ⟨h, computed⟩
  | raise e computed =>
    rw [List.append_nil]
    exact ⟨h, computed⟩
  | describe e =>
    rw [List.append_nil]
    exact h
  | lose e => cases quiet
  | exit =>
    rw [List.append_nil]
    exact h

/-- Every list of messages that is due begins the whole conversation. -/
theorem Due.cases {l : List (Message α)} {c : Child α} (h : Due p l c) :
  l = [] ∨ l = [.ready] ∨ Complete p l
  := by
  cases c with
  | starting => exact .inl h
  | sending r =>
    cases r with
    | greeting => exact .inl h
    | failure e => exact .inr (.inl h.1)
    | answer result => exact .inr (.inl h.1)
  | degraded r e => exact h.elim
  | writing m r =>
    cases r with
    | greeting => exact .inl h.1
    | failure e => exact .inr (.inl h.1.1)
    | answer result => exact .inr (.inl h.1.1)
  | working => exact .inr (.inl h)
  | raised e => exact .inr (.inl h.1)
  | closing => exact .inr (.inr h)
  | ended => exact .inr (.inr h)

/-- Nothing disturbs the run. -/
structure Clear (p : Setting α) (s : State α) : Prop where
  undecided : s.parent.outcome? = none → s.killed = none ∧ Due p s.sent s.child
  decided : ∀ o, s.parent.outcome? = some o → ∃ out, p.computes out = true ∧ o = deliver out

theorem received_due {now : ℕ} {phase : Phase} {m : Message α} {l : List (Message α)} {c : Child α}
    (due : Due p l c) (there : phase.heard ++ [m] <+: l) {o : Outcome α}
    (settled : (received p now phase m).outcome? = some o) :
  ∃ out, p.computes out = true ∧ o = deliver out
  := by
  obtain ⟨rest, whole⟩ := there
  obtain rfl | rfl | ⟨out, computed, rfl⟩ := due.cases
  · cases phase with
    | handshake => cases whole
    | result => cases whole
  · cases phase with
    | handshake =>
      cases whole
      cases settled
    | result => cases whole
  · cases phase with
    | handshake =>
      cases whole
      cases settled
    | result =>
      cases whole
      refine ⟨out, computed, ?_⟩
      cases out with
      | ok result =>
        cases settled
        rfl
      | error e =>
        cases settled
        rfl

theorem Clear.moved {a : Action α} {s t : State α} (sound : Sound p s) (h : Clear p s)
    (quiet : calm s a = true) (moved : Moved p s a t) :
  Clear p t
  := by
  obtain ⟨undecided, decided⟩ := h
  cases moved with
  | child a c sent moved =>
    refine ⟨fun none => ?_, decided⟩
    obtain ⟨killed, due⟩ := undecided none
    exact ⟨killed, due.moved moved quiet⟩
  | die alive =>
    refine ⟨fun none => ?_, decided⟩
    have killed : s.killed.isSome = true := quiet
    rw [(undecided none).1] at killed
    cases killed
  | tick milliseconds => exact ⟨undecided, decided⟩
  | closeSink at' =>
    exact ⟨fun _ => undecided (by rw [at']; rfl), fun o settled => by cases settled⟩
  | wake phase since at' readable =>
    exact ⟨fun _ => undecided (by rw [at']; rfl), fun o settled => by cases settled⟩
  | giveUp phase since at' silent late => cases quiet
  | receive phase m at' found =>
    obtain ⟨killed, due⟩ := undecided (by rw [at']; rfl)
    have position := sound.position
    rw [at'] at position
    obtain ⟨read, heard⟩ := position
    rw [read] at found
    exact ⟨fun _ => ⟨killed, due⟩, fun o => received_due due (heard_concat heard found)⟩
  | fail phase exitcode at' empty ended =>
    obtain ⟨killed, due⟩ := undecided (by rw [at']; rfl)
    have position := sound.position
    rw [at'] at position
    have said := heard_eq position empty
    have complete : Complete p s.sent := by
      cases at'' : s.child with
      | ended =>
        rw [at''] at due
        exact due
      | _ =>
        rw [at''] at ended
        cases ended
    obtain ⟨out, -, whole⟩ := complete
    rw [whole] at said
    cases phase with
    | handshake => cases said
    | result => cases said
  | terminate o at' =>
    refine ⟨nofun, fun o' settled => ?_⟩
    cases settled
    exact decided o (by rw [at']; rfl)
  | join o since at' reaped =>
    refine ⟨nofun, fun o' settled => ?_⟩
    cases settled
    exact decided o (by rw [at']; rfl)

/-- In a run that nothing disturbs, the call ends as the function does: with its result, or with a
failure that has the name and the text of its exception. -/
theorem undisturbed_exact {h : List (State α × Action α)} {s : State α}
    (run : (machine p).Run h s) (quiet : ∀ x ∈ h, calm x.1 x.2 = true) {o : Outcome α}
    (settled : s.parent.outcome? = some o) :
  ∃ out, p.computes out = true ∧ o = deliver out
  := by
  have invariant : Sound p s ∧ Clear p s := by
    refine run.invariant_of_guard (I := fun s => Sound p s ∧ Clear p s)
      (G := fun s a => calm s a = true) ?_ ?_ quiet
    · intro s init
      cases init
      exact ⟨sound_init, fun _ => ⟨rfl, rfl⟩, fun o settled => by cases settled⟩
    · intro a s t ⟨sound, clear⟩ quiet hstep
      have moved := moved_of_step hstep
      exact ⟨sound.moved moved, clear.moved sound quiet moved⟩
  exact invariant.2.decided o settled

/-- The result comes back. -/
theorem undisturbed_exact_sample :
  ∃ out, sampleSetting.computes out = true ∧ Outcome.returned 7 = deliver out
  := by
  obtain ⟨h, s, run, quiet, ends⟩ := (machine sampleSetting).exists_run_of_execWhile
    (sampleStart ++ [.child (.finish (.ok 7)), .child .write, .parent .wake, .child .complete,
      .parent .receive, .parent .terminate, .die, .parent .join])
    calm (fun s => s.parent.outcome? = some (.returned 7)) (s := {}) rfl (by decide)
  exact undisturbed_exact run quiet (of_decide_eq_true ends)

end Lumina.Etl.Sandbox
