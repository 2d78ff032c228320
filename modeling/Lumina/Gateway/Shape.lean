import Lumina.Gateway.Stream
import Mathlib.Algebra.Group.Nat.Defs
import Mathlib.Tactic.Ring

/-!
# The shape of a stream of the gateway

A stream that yields anything comes from the last call of its provider, and ends in one
`done` or one `error`, with exactly one report of usage before it.  A stream that yields
nothing raises.  The proof follows the stream from the inside out: what one attempt yields,
what the attempts with one model yield, and what the candidates yield together.
-/

namespace Lumina.Gateway

/-- One report of usage, and no delta that ends a stream. -/
def Closed (body : List Delta) : Prop :=
  body.countP Delta.isUsage = 1 ∧ ∀ δ ∈ body, δ.isFinal = false

/-- What a caller sees of a provider call that produces `provided`: its text deltas, in
order, up to a `done`, or up to an error after at least one of its deltas. -/
structure Answers (provided : List ProviderDelta) (δs : List Delta) : Prop where
  texts_prefix : texts δs <+: texts (provided.map .provided)
  ended : ∃ body, Closed body ∧
    ((∃ r, δs = body ++ [.provided (.done r)]) ∨
      (∃ e, δs = body ++ [.error e]) ∧
        ∃ delivered, delivered ≠ [] ∧ delivered <+: provided ∧ delivered.map .provided <+: body)

/-- A stream that answers: it makes calls without yielding, and then makes the call whose
answer it yields.  Its first call is the `n`-th of the provider. -/
structure Answered (p : ChatProvider) (n : ℕ) (r : Stream) : Prop where
  returned : r.outcome = .returned
  last_call : ∃ before request,
    r.events = before ++ .call request :: r.yielded.map .yield ∧
    before.filterMap Event.yield? = [] ∧
    Answers (p.streamChat (n + (before.filterMap Event.call?).length) request).provided r.yielded

/-- A stream that fails without having yielded anything. -/
def Failed (r : Stream) : Prop :=
  (∃ e, r.outcome = .raised e) ∧ r.yielded = []

/-! ### One attempt -/

theorem iterate_prefix (name : String) (timeouts : ChatTimeouts) (c : ProviderCall)
    (now : Int) (first : Bool) (ds : List TimedDelta) :
  (iterate name timeouts c now first ds).1 <+: ds.map TimedDelta.delta
  := by
  induction ds generalizing now first with
  | nil =>
    rw [iterate]
    cases overrun name timeouts now first c.endingWait
    all_goals simp
  | cons d ds ih =>
    rw [iterate]
    cases overrun name timeouts now first d.wait with
    | some e => simp
    | none =>
      rw [List.map_cons, List.prefix_cons_inj]
      apply ih

theorem attempt_cons {e : Option ProviderError} {δ : ProviderDelta} {δs : List ProviderDelta}
    {s : StreamState} (h : ¬ δ.isDone) :
  attempt e (δ :: δs) s =
    (.provided δ :: (attempt e δs (s.deliver δ)).1, (attempt e δs (s.deliver δ)).2)
  := by
  cases δ with
  | done r => simp at h
  | _ => rfl

/-- An attempt that completes yields what was provided before the first `done`, the missing
usage, and the `done`. -/
theorem attempt_completed {e : Option ProviderError} {δs : List ProviderDelta}
    {s : StreamState} (h : (attempt e δs s).2.2 = none) :
  ∃ body r u, body ++ [.done r] <+: δs ∧ (∀ δ ∈ body, δ.isDone = false) ∧
    (attempt e δs s).1 = body.map .provided ++
      (if s.usageSeen || body.any ProviderDelta.isUsage then [] else [.provided (.usage u)]) ++
      [.provided (.done r)]
  := by
  induction δs generalizing s with
  | nil => simp [attempt] at h
  | cons δ δs ih =>
    by_cases hδ : δ.isDone
    · -- the attempt ends here
      obtain ⟨r, rfl⟩ := ProviderDelta.isDone_iff.mp hδ
      use [], r, s.estimatedUsage
      simp [attempt]
    · rw [attempt_cons hδ] at h ⊢
      obtain ⟨body, r, u, hδs, hbody, hεs⟩ := ih h
      use δ :: body, r, u
      constructor
      · simpa using hδs
      · constructor
        · simpa [hδ] using hbody
        · simp [hεs, Bool.or_assoc]

/-- An attempt that fails yields all that was provided, and no `done` was. -/
theorem attempt_failed {e : Option ProviderError} {δs : List ProviderDelta}
    {s : StreamState} {e' : ProviderError} (h : (attempt e δs s).2.2 = some e') :
  (attempt e δs s).1 = δs.map .provided ∧ (∀ δ ∈ δs, δ.isDone = false) ∧
    (attempt e δs s).2.1.started = (s.started || !δs.isEmpty) ∧
    (attempt e δs s).2.1.usageSeen = (s.usageSeen || δs.any ProviderDelta.isUsage)
  := by
  induction δs generalizing s with
  | nil => simp [attempt]
  | cons δ δs ih =>
    by_cases hδ : δ.isDone
    · obtain ⟨r, rfl⟩ := ProviderDelta.isDone_iff.mp hδ
      simp [attempt] at h
    · rw [attempt_cons hδ] at h ⊢
      obtain ⟨hεs, hdone, hstarted, husage⟩ := ih h
      simp_all [Bool.or_assoc]

/-! ### What a caller sees of one attempt -/

/-- Nothing has been delivered yet. -/
structure StreamState.Fresh (s : StreamState) : Prop where
  not_started : s.started = false
  usage_unseen : s.usageSeen = false

/-- A provider reports usage at most once a call. -/
def ChatProvider.OneUsage (p : ChatProvider) : Prop :=
  ∀ n request, (p.streamChat n request).provided.countP ProviderDelta.isUsage ≤ 1

/-- The missing usage makes a sequence without `done` closed. -/
theorem closed_of_prefix {provided body : List ProviderDelta} (h : body <+: provided)
    (one : provided.countP ProviderDelta.isUsage ≤ 1) (hbody : ∀ δ ∈ body, δ.isDone = false)
    (u : UsageDelta) :
  Closed (body.map .provided ++
    if body.any ProviderDelta.isUsage then [] else [.provided (.usage u)])
  := by
  have count : body.countP ProviderDelta.isUsage ≤ 1 := le_trans h.sublist.countP_le one
  have counts : (body.map Delta.provided).countP Delta.isUsage =
      body.countP ProviderDelta.isUsage := by
    rw [List.countP_map]
    rfl
  constructor
  · rw [List.countP_append, counts]
    by_cases seen : body.any ProviderDelta.isUsage
    · have pos : 0 < body.countP ProviderDelta.isUsage := by
        rw [List.countP_pos_iff]
        exact List.any_eq_true.mp seen
      simp [seen]
      omega
    · have none_seen : body.countP ProviderDelta.isUsage = 0 := by
        rw [List.countP_eq_zero]
        simpa using seen
      simp [seen, none_seen]
  · intro δ hδ
    rw [List.mem_append, List.mem_map] at hδ
    obtain ⟨ε, hε, rfl⟩ | hδ := hδ
    · simpa using hbody ε hε
    · split at hδ
      · simp at hδ
      · obtain rfl := List.mem_singleton.mp hδ
        simp

theorem texts_prefix {provided body : List ProviderDelta} (h : body <+: provided)
    {tail : List Delta} (ht : texts tail = []) :
  texts (body.map .provided ++ tail) <+: texts (provided.map .provided)
  := by
  rw [texts_append, ht, List.append_nil]
  apply List.IsPrefix.filterMap
  exact h.map _

/-- An attempt that completes answers. -/
theorem answers_of_completed {e : Option ProviderError} {δs provided : List ProviderDelta}
    {s : StreamState} (fresh : s.Fresh) (hδs : δs <+: provided)
    (one : provided.countP ProviderDelta.isUsage ≤ 1) (h : (attempt e δs s).2.2 = none) :
  Answers provided (attempt e δs s).1
  := by
  obtain ⟨body, r, u, hbody, notDone, eq⟩ := attempt_completed h
  rw [fresh.usage_unseen, Bool.false_or] at eq
  have body_prefix : body <+: provided := ((List.prefix_append _ _).trans hbody).trans hδs
  constructor
  · rw [eq, List.append_assoc]
    apply texts_prefix body_prefix
    split
    all_goals simp [texts]
  · use body.map .provided ++
      if body.any ProviderDelta.isUsage then [] else [.provided (.usage u)]
    constructor
    · exact closed_of_prefix body_prefix one notDone u
    · left
      use r

/-- An attempt that fails after it has delivered something answers, with its tail. -/
theorem answers_of_interrupted {e : Option ProviderError} {δs provided : List ProviderDelta}
    {s : StreamState} {e' : ProviderError} (fresh : s.Fresh) (hδs : δs <+: provided)
    (one : provided.countP ProviderDelta.isUsage ≤ 1)
    (h : (attempt e δs s).2.2 = some e') (started : (attempt e δs s).2.1.started = true) :
  Answers provided ((attempt e δs s).1 ++ (attempt e δs s).2.1.interrupted e')
  := by
  obtain ⟨eq, notDone, hstarted, husage⟩ := attempt_failed h
  rw [fresh.not_started, Bool.false_or, started] at hstarted
  rw [fresh.usage_unseen, Bool.false_or] at husage
  have delivered : δs ≠ [] := by
    rintro rfl
    simp at hstarted
  rw [eq, StreamState.interrupted, husage]
  constructor
  · apply texts_prefix hδs
    split
    all_goals simp [texts]
  · use δs.map .provided ++
      if δs.any ProviderDelta.isUsage then []
      else [.provided (.usage (attempt e δs s).2.1.estimatedUsage)]
    constructor
    · exact closed_of_prefix hδs one notDone _
    · right
      constructor
      · rw [← List.append_assoc]
        exact ⟨_, rfl⟩
      · use δs, delivered, hδs
        apply List.prefix_append

/-- An attempt that fails before it has delivered anything leaves a fresh state. -/
theorem fresh_of_failed {e : Option ProviderError} {δs : List ProviderDelta}
    {s : StreamState} {e' : ProviderError} (fresh : s.Fresh)
    (h : (attempt e δs s).2.2 = some e') (started : (attempt e δs s).2.1.started = false) :
  (attempt e δs s).1 = [] ∧ (attempt e δs s).2.1.Fresh
  := by
  obtain ⟨eq, -, hstarted, husage⟩ := attempt_failed h
  rw [fresh.not_started, Bool.false_or, started] at hstarted
  obtain rfl : δs = [] := by simpa using hstarted
  constructor
  · exact eq
  · constructor
    · exact started
    · rw [husage, fresh.usage_unseen]
      rfl

/-! ### Retries and fallback -/

/-- A stream that fails with nothing, or answers, after at most `bound` calls. -/
structure Settles (p : ChatProvider) (n bound : ℕ) (r : Stream) : Prop where
  failed_or_answered : Failed r ∨ Answered p n r
  calls_le : r.calls.length ≤ bound

namespace Stream

@[simp]
theorem yielded_after (before : List Event) (r : Stream) :
  (r.after before).yielded = before.filterMap Event.yield? ++ r.yielded
  := List.filterMap_append

@[simp]
theorem calls_after (before : List Event) (r : Stream) :
  (r.after before).calls = before.filterMap Event.call? ++ r.calls
  := List.filterMap_append

end Stream

@[simp]
theorem filterMap_yield (δs : List Delta) :
  (δs.map Event.yield).filterMap Event.yield? = δs
  := by
  rw [List.filterMap_map]
  apply List.filterMap_some

namespace Settles

variable {p : ChatProvider} {n bound : ℕ}

theorem mono {r : Stream} {bound' : ℕ} (h : Settles p n bound r) (le : bound ≤ bound') :
  Settles p n bound' r
  := ⟨h.failed_or_answered, le_trans h.calls_le le⟩

/-- A call that answers settles the stream. -/
theorem of_answers {request : ChatRequest} {δs : List Delta}
    (h : Answers (p.streamChat n request).provided δs) :
  Settles p n 1 { events := .call request :: δs.map .yield, outcome := .returned }
  := by
  have yielded : Stream.yielded
      { events := .call request :: δs.map .yield, outcome := .returned } = δs := by
    rw [Stream.yielded, List.filterMap_cons, Event.yield?_call]
    apply filterMap_yield
  constructor
  · right
    constructor
    · rfl
    · use [], request
      rw [yielded]
      simpa using h
  · simp [Stream.calls]

/-- A call that fails may settle the stream with an error. -/
theorem of_raised (request : ChatRequest) (e : ProviderError) :
  Settles p n 1 { events := [.call request], outcome := .raised e }
  := by
  constructor
  · left
    use ⟨e, rfl⟩
    rfl
  · simp [Stream.calls]

/-- A call that yields nothing may be put before a stream that settles. -/
theorem after {r : Stream} (request : ChatRequest) {pause : List Event}
    (quiet : pause.filterMap Event.yield? = []) (uncalled : pause.filterMap Event.call? = [])
    (h : Settles p (n + 1) bound r) :
  Settles p n (bound + 1) (r.after (.call request :: pause))
  := by
  have yielded : (r.after (.call request :: pause)).yielded = r.yielded := by
    rw [Stream.yielded_after, List.filterMap_cons, Event.yield?_call, quiet]
    rfl
  constructor
  · obtain ⟨outcome, nothing⟩ | ⟨returned, before, last, events, silent, answers⟩ :=
      h.failed_or_answered
    · left
      use outcome
      rw [yielded, nothing]
    · right
      use returned
      use .call request :: (pause ++ before), last
      rw [yielded]
      constructor
      · simp [Stream.after, events]
      · constructor
        · rw [List.filterMap_cons, Event.yield?_call, List.filterMap_append, quiet, silent]
          rfl
        · have index : n + ((Event.call request :: (pause ++ before)).filterMap
              Event.call?).length = n + 1 + (before.filterMap Event.call?).length := by
            simp [uncalled]
            omega
          rw [index]
          exact answers
  · simp [uncalled, h.calls_le]

end Settles

namespace Generation

variable {g : Generation} {model : String} {n : ℕ} {s s' : StreamState} {δs : List Delta}

/-- What the provider of a generation produces at a call. -/
def provided (g : Generation) (model : String) (n : ℕ) : List ProviderDelta :=
  (g.provider.streamChat n (g.requestFor model)).provided

/-- The three ways in which an attempt goes. -/
theorem call_cases (one : g.provider.OneUsage) (fresh : s.Fresh) (model : String) (n : ℕ) :
  ((g.call model n s).2.2 = none ∧ Answers (g.provided model n) (g.call model n s).1) ∨
  ∃ e, (g.call model n s).2.2 = some e ∧
    ((g.call model n s).2.1.started = true ∧
        Answers (g.provided model n)
          ((g.call model n s).1 ++ (g.call model n s).2.1.interrupted e) ∨
      (g.call model n s).2.1.started = false ∧
        (g.call model n s).1 = [] ∧ (g.call model n s).2.1.Fresh)
  := by
  let c := g.provider.streamChat n (g.requestFor model)
  have provided : (iterate g.provider.name g.timeouts c 0 true c.deltas).1 <+:
      g.provided model n := iterate_prefix _ _ _ _ _ _
  have fresh' : StreamState.Fresh { s with model := model } :=
    ⟨fresh.not_started, fresh.usage_unseen⟩
  obtain h | ⟨e, h⟩ := (g.call model n s).2.2.eq_none_or_eq_some
  · left
    use h
    exact answers_of_completed fresh' provided (one _ _) h
  · right
    use e, h
    cases started : (g.call model n s).2.1.started with
    | true =>
      left
      use rfl
      exact answers_of_interrupted fresh' provided (one _ _) h started
    | false =>
      right
      use rfl
      exact fresh_of_failed fresh' h started

/-- The pause before the next attempt with the same model. -/
def pause (delay : Int) : List Event :=
  if delay = 0 then [] else [.sleep delay]

/-- The loop over the attempts settles the stream with this call, or it goes on, with a fresh
state: with the next delay, or else with the next candidate. -/
theorem tryModel_cases (one : g.provider.OneUsage) (fresh : s.Fresh)
    (next : Option (ℕ → StreamState → Stream)) (delays : List Int) :
  Settles g.provider n 1 (g.tryModel model next delays n s) ∨
  ∃ s' : StreamState, s'.Fresh ∧
    ((∃ delay delays', delays = delay :: delays' ∧
        g.tryModel model next delays n s =
          (g.tryModel model next delays' (n + 1) s').after
            (.call (g.requestFor model) :: pause delay)) ∨
      (∃ f ∈ next, delays = [] ∧
        g.tryModel model next delays n s =
          (f (n + 1) s').after [.call (g.requestFor model)]))
  := by
  rw [tryModel]
  obtain ⟨h, answers⟩ | ⟨e, h, cases⟩ := call_cases one fresh model n
  · left
    generalize g.call model n s = a at h answers
    obtain ⟨δs, s', out⟩ := a
    subst h
    exact .of_answers answers
  · generalize g.call model n s = a at h cases
    obtain ⟨δs, s', out⟩ := a
    subst h
    obtain ⟨started, answers⟩ | ⟨started, nothing, fresh'⟩ := cases
    · left
      simp only at started answers
      simp only [started, if_true, List.cons_append, ← List.map_append]
      exact .of_answers answers
    · simp only at started nothing fresh'
      subst nothing
      simp only [started, Bool.false_eq_true, if_false, List.map_nil]
      split
      · left
        exact .of_raised _ e
      · cases delays with
        | cons delay delays =>
          right
          use s', fresh'
          left
          exact ⟨delay, delays, rfl, rfl⟩
        | nil =>
          cases next with
          | some f =>
            right
            use s', fresh'
            right
            exact ⟨f, rfl, rfl, rfl⟩
          | none =>
            left
            exact .of_raised _ e

/-- The attempts with one model settle the stream if the next candidates do. -/
theorem tryModel_settles (one : g.provider.OneUsage)
    {next : Option (ℕ → StreamState → Stream)} (bound : ℕ)
    (hnext : ∀ f ∈ next, ∀ n s, StreamState.Fresh s → Settles g.provider n bound (f n s))
    (delays : List Int) (fresh : s.Fresh) :
  Settles g.provider n (bound + (delays.length + 1)) (g.tryModel model next delays n s)
  := by
  induction delays generalizing n s with
  | nil =>
    obtain settled | ⟨s', fresh', ⟨_, _, absurd, -⟩ | ⟨f, hf, -, eq⟩⟩ :=
      tryModel_cases one fresh next []
    · exact settled.mono (Nat.le_add_left _ _)
    · cases absurd
    · rw [eq]
      exact (hnext f hf (n + 1) s' fresh').after _ rfl rfl
  | cons delay delays ih =>
    obtain settled | ⟨s', fresh', ⟨_, _, same, eq⟩ | ⟨_, _, absurd, -⟩⟩ :=
      tryModel_cases one fresh next (delay :: delays)
    · apply settled.mono
      rw [List.length_cons]
      omega
    · cases same
      rw [eq]
      apply (ih fresh').after
      all_goals
        rw [pause]
        split
        all_goals rfl
    · cases absurd

/-- The candidates settle the stream. -/
theorem run_settles (one : g.provider.OneUsage) (model : String) (models : List String)
    (fresh : s.Fresh) :
  Settles g.provider n ((g.backoff.length + 1) * (models.length + 1)) (g.run model models n s)
  := by
  induction models generalizing model n s with
  | nil =>
    rw [run]
    apply (tryModel_settles one 0 _ g.backoff fresh).mono
    · simp
    · simp
  | cons next models ih =>
    rw [run]
    apply (tryModel_settles one _ _ g.backoff fresh).mono
    · rw [List.length_cons, Nat.mul_succ _ (models.length + 1)]
    · rintro f ⟨⟩ n s fresh
      exact ih next fresh

end Generation

/-! ### The whole stream -/

namespace AIGateway

variable (gw : AIGateway) (request : ChatRequest)

/-- A stream of the gateway fails with nothing, or a provider answers. -/
theorem streamChat_settles (one : ∀ p ∈ gw.chat, p.OneUsage) :
  (gw.streamChat request).calls.length ≤
      (gw.backoff.length + 1) * (gw.chatFallbackModels.length + 1) ∧
    (Failed (gw.streamChat request) ∨
      ∃ p ∈ gw.chat, Answered p 0 (gw.streamChat request))
  := by
  unfold streamChat
  cases h : gw.chat with
  | none =>
    constructor
    · apply Nat.zero_le
    · left
      exact ⟨⟨_, rfl⟩, rfl⟩
  | some p =>
    let g : Generation := ⟨p, gw.chatTimeouts, gw.backoff, request⟩
    have fresh : StreamState.Fresh { request := request, provider := p.name } := ⟨rfl, rfl⟩
    obtain ⟨cases, calls⟩ :=
      g.run_settles (n := 0) (one p h) request.model gw.chatFallbackModels fresh
    constructor
    · exact calls
    · obtain failed | answered := cases
      · left
        exact failed
      · right
        exact ⟨p, rfl, answered⟩

/-- A stream that returns has yielded a final delta. -/
theorem streamChat_final (one : ∀ p ∈ gw.chat, p.OneUsage)
    (returned : (gw.streamChat request).outcome = .returned) :
  ∃ δ ∈ (gw.streamChat request).yielded, δ.isFinal
  := by
  obtain ⟨-, ⟨⟨e, raised⟩, -⟩ | ⟨p, -, answered⟩⟩ := gw.streamChat_settles request one
  · rw [returned] at raised
    cases raised
  · obtain ⟨before, last, -, -, answers⟩ := answered.last_call
    obtain ⟨body, -, ⟨r, eq⟩ | ⟨⟨e, eq⟩, -⟩⟩ := answers.ended
    · rw [eq]
      exact ⟨.provided (.done r), by simp, rfl⟩
    · rw [eq]
      exact ⟨.error e, by simp, rfl⟩

/-- Every stream of the gateway has one of three shapes.  It raises an error of a provider
and yields nothing; or it makes its last call, and then yields what `Answers` says: the text
deltas of that call in order, one report of usage, and at the end one `done`, or one `error`
after at least one delta of the provider.  No call is made after the first delta, and there
are at most `|backoff| + 1` calls for each candidate. -/
theorem streamChat_shape
    (one : ∀ p ∈ gw.chat, ∀ n r, (p.streamChat n r).provided.countP ProviderDelta.isUsage ≤ 1) :
  let r := gw.streamChat request
  r.calls.length ≤ (gw.backoff.length + 1) * (1 + gw.chatFallbackModels.length) ∧
    ((∃ e, r.outcome = .raised e) ∧ r.yielded = [] ∨
      ∃ p ∈ gw.chat, ∃ before last, r.outcome = .returned ∧
        r.events = before ++ .call last :: r.yielded.map .yield ∧
        before.filterMap Event.yield? = [] ∧
        Answers (p.streamChat (before.filterMap Event.call?).length last).provided r.yielded)
  := by
  intro r
  obtain ⟨calls, cases⟩ := gw.streamChat_settles request one
  constructor
  · rw [Nat.add_comm 1]
    exact calls
  · obtain failed | ⟨p, hp, returned, before, last, events, silent, answers⟩ := cases
    · left
      exact failed
    · right
      rw [Nat.zero_add] at answers
      exact ⟨p, hp, before, last, returned, events, silent, answers⟩

end AIGateway

/-- A provider that is rate limited at its first call and answers at the others. -/
def rateLimitedOnce : ChatProvider where
  name := "mock"
  streamChat n _ :=
    if n = 0 then
      { deltas := []
        ending := .providerError { cls := .rateLimited, message := "slow down" }
        endingWait := 0 }
    else
      { deltas := [⟨5, .text ⟨"hi"⟩, 0⟩, ⟨5, .done ⟨"stop"⟩, 0⟩]
        ending := .stopped
        endingWait := 0 }

/-- The shape of a stream that is answered at its second call. -/
theorem AIGateway.streamChat_shape_rateLimitedOnce :
  let gw : AIGateway := ⟨some rateLimitedOnce, ⟨1000, 1000⟩, [], [100]⟩
  let r := gw.streamChat { messages := [⟨.user, "hello"⟩], model := "m" }
  r.calls.length = 2 ∧ texts r.yielded = ["hi"] ∧
    r.calls.length ≤ (gw.backoff.length + 1) * (1 + gw.chatFallbackModels.length) ∧
    ((∃ e, r.outcome = .raised e) ∧ r.yielded = [] ∨
      ∃ p ∈ gw.chat, ∃ before last, r.outcome = .returned ∧
        r.events = before ++ .call last :: r.yielded.map .yield ∧
        before.filterMap Event.yield? = [] ∧
        Answers (p.streamChat (before.filterMap Event.call?).length last).provided r.yielded)
  := by
  intro gw r
  use rfl, rfl
  apply AIGateway.streamChat_shape gw
  rintro p ⟨⟩ n request
  simp only [rateLimitedOnce]
  split
  all_goals decide

end Lumina.Gateway
