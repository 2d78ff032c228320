import Lumina.Gateway.Embeddings
import Lumina.Gateway.Rerank
import Lumina.Library.Fallible
import Lumina.Rag.Pipeline
import Mathlib.Data.Set.Basic

/-!
# The comparison of two evaluations

A report is a document of JSON.  Two reports are compared if they are measured alike as far as the
comparison looks, and one is better than the other if its first metric is higher and its second one
is not lower.
-/

namespace Lumina.Evaluation

open Fallible (mapM_flatten_eq_nil mapM_isOk_iff ok_of_bind)
open Gateway (ConversionError Numerals truthy)
open Knowledge (Config ConfigValue PyFloat)

/-! ### Equality of Python -/

/-- The exact value of a number; `True` is one, and `False` is zero. -/
def numeral : ConfigValue → Option PyFloat
  | .bool b => some (.finite b.toInt)
  | .int i => some (.finite i)
  | .float x => some x
  | _ => none

mutual

/-- `==`; the numbers that are not a number are taken to be different objects. -/
def eq : ConfigValue → ConfigValue → Bool
  | .null, .null => true
  | .str s, .str t => s = t
  | .list xs, .list ys => eqItems xs ys
  | .object xs, .object ys => xs.length = ys.length && eqMembers xs ys
  | x, y =>
      match numeral x, numeral y with
      | some p, some q => p.eq q
      | _, _ => false

def eqItems : List ConfigValue → List ConfigValue → Bool
  | [], [] => true
  | x :: xs, y :: ys => eq x y && eqItems xs ys
  | _, _ => false

def eqMembers : Config → Config → Bool
  | [], _ => true
  | (key, x) :: xs, ys =>
      match ys.lookup key with
      | some y => eq x y && eqMembers xs ys
      | none => false

end

/-! ### Reports -/

abbrev Report := Config

/-- A field that two reports differ in, with its values. -/
structure Difference where
  section_ : String
  key : String
  left : ConfigValue
  right : ConfigValue

/-- `IncomparableReportsError`, for each of its reasons, or another exception. -/
inductive CompareError where
  | incomparable (differences : List Difference)
  | noMetrics
  | noMetric (source role key : String)
  | raised (typeName : String)

structure Comparison where
  primary : String
  secondary : String
  baseline : PyFloat
  candidate : PyFloat
  secondaryBaseline : PyFloat
  secondaryCandidate : PyFloat
  deltas : List (String × PyFloat)
  improved : Bool

/-- `report.get(section) or {}`, which is asked for its members. -/
def membersOf (report : Report) (section_ : String) : Except CompareError Config :=
  match report.lookup section_ with
  | none => .ok []
  | some (.object members) => .ok members
  | some value => if truthy value then .error (.raised "AttributeError") else .ok []

/-- `mapping.get(key)`. -/
def get (members : Config) (key : String) : ConfigValue :=
  (members.lookup key).getD .null

/-- The differences within a section. -/
def sectionDifferences (baseline candidate : Report) (section_ : String) (keys : List String) :
    Except CompareError (List Difference) := do
  let left ← membersOf baseline section_
  let right ← membersOf candidate section_
  return (keys.filter fun key => !eq (get left key) (get right key)).map fun key =>
    ⟨section_, key, get left key, get right key⟩

/-- The fields that `_require_comparable` looks at. -/
def comparedFields : List (String × List String) :=
  [("dataset", ["name", "goldenset_sha256", "corpus_sha256"]), ("retrieval", ["embedding_model"])]

/-- `_require_comparable`. -/
def requireComparable (baseline candidate : Report) : Except CompareError Unit := do
  let differences ← comparedFields.mapM fun (section_, keys) =>
    sectionDifferences baseline candidate section_ keys
  if differences.flatten.isEmpty then return ()
  else throw (.incomparable differences.flatten)

/-- `_metrics`. -/
def metricsOf (report : Report) : Except CompareError Config :=
  match report.lookup "metrics" with
  | some (.object metrics) => .ok metrics
  | _ => .error .noMetrics

def requireMetric (source role key : String) (metrics : Config) : Except CompareError Unit :=
  if (metrics.lookup key).isSome then .ok () else .error (.noMetric source role key)

def conversionName : ConversionError → String
  | .typeError => "TypeError"
  | .valueError => "ValueError"
  | .overflowError => "OverflowError"

section

variable (n : Numerals)

/-- `float(value)`. -/
def floatOf (value : ConfigValue) : Except CompareError PyFloat :=
  (n.toFloat value).mapError fun e => .raised (conversionName e)

/-- The metrics of the baseline whose change is told. -/
def shared (base cand : Config) : Config :=
  base.filter fun (key, _) => (cand.lookup key).isSome && key ≠ "question_count"

/-- `compare_reports`. -/
def compareReports (primary secondary : String) (baseline candidate : Report) :
    Except CompareError Comparison := do
  requireComparable baseline candidate
  let base ← metricsOf baseline
  let cand ← metricsOf candidate
  requireMetric "baseline" "主指標" primary base
  requireMetric "baseline" "次指標" secondary base
  requireMetric "candidate" "主指標" primary cand
  requireMetric "candidate" "次指標" secondary cand
  let deltas ← (shared base cand).mapM fun (key, value) => do
    return (key, (← floatOf n (get cand key)).add (← floatOf n value).neg)
  let before ← floatOf n (get base primary)
  let after ← floatOf n (get cand primary)
  let before' ← floatOf n (get base secondary)
  let after' ← floatOf n (get cand secondary)
  return ⟨primary, secondary, before, after, before', after', deltas,
    before.lt after && before'.le after'⟩

/-! ### What is compared -/

/-- A value that `float` reads. -/
def Readable (value : ConfigValue) : Prop :=
  ∃ x, floatOf n value = .ok x

/-- The metrics that are needed are there, and those that are read are numbers. -/
structure Scored (primary secondary : String) (base cand : Config) : Prop where
  present : ∀ key ∈ [primary, secondary], (base.lookup key).isSome ∧ (cand.lookup key).isSome
  main : ∀ key ∈ [primary, secondary], Readable n (get base key) ∧ Readable n (get cand key)
  others : ∀ member ∈ shared base cand, Readable n member.2 ∧ Readable n (get cand member.1)

/-- Two reports have the same values in the fields that the comparison looks at, where what is left
out counts as `None`, and their metrics can be read. -/
structure Admitted (primary secondary : String) (baseline candidate : Report) : Prop where
  same : ∀ field ∈ comparedFields, ∃ left right, membersOf baseline field.1 = .ok left ∧
    membersOf candidate field.1 = .ok right ∧ ∀ key ∈ field.2, eq (get left key) (get right key)
  scored : ∃ base cand, metricsOf baseline = .ok base ∧ metricsOf candidate = .ok cand ∧
    Scored n primary secondary base cand

variable {n} {primary secondary : String} {baseline candidate : Report}

theorem sectionDifferences_eq_nil {section_ : String} {keys : List String} :
  sectionDifferences baseline candidate section_ keys = .ok [] ↔
    ∃ left right, membersOf baseline section_ = .ok left ∧ membersOf candidate section_ = .ok right ∧
      ∀ key ∈ keys, eq (get left key) (get right key)
  := by
  constructor
  · intro h
    obtain ⟨left, hleft, h⟩ := ok_of_bind h
    obtain ⟨right, hright, h⟩ := ok_of_bind h
    have none := List.filter_eq_nil_iff.mp (List.map_eq_nil_iff.mp (Except.ok.inj h))
    refine ⟨left, right, hleft, hright, fun key hkey => ?_⟩
    simpa using none key hkey
  · rintro ⟨left, right, hleft, hright, same⟩
    have none : keys.filter (fun key => !eq (get left key) (get right key)) = [] := by
      apply List.filter_eq_nil_iff.mpr
      intro key hkey
      simp [same key hkey]
    rw [sectionDifferences, hleft, hright]
    change Except.ok (List.map _ (keys.filter fun key => !eq (get left key) (get right key))) = _
    rw [none]
    rfl

theorem requireComparable_eq_ok :
  requireComparable baseline candidate = .ok () ↔
    ∀ field ∈ comparedFields, ∃ left right, membersOf baseline field.1 = .ok left ∧
      membersOf candidate field.1 = .ok right ∧ ∀ key ∈ field.2, eq (get left key) (get right key)
  := by
  have each : (∀ field ∈ comparedFields,
      sectionDifferences baseline candidate field.1 field.2 = .ok []) ↔ _ :=
    forall₂_congr fun field _ => sectionDifferences_eq_nil
  rw [← each, ← mapM_flatten_eq_nil]
  constructor
  · intro h
    obtain ⟨differences, found, h⟩ := ok_of_bind h
    refine ⟨differences, found, ?_⟩
    split at h
    next none => exact List.isEmpty_iff.mp none
    next => cases h
  · rintro ⟨differences, found, none⟩
    have found' : comparedFields.mapM (fun (section_, keys) =>
        sectionDifferences baseline candidate section_ keys) = .ok differences := found
    rw [requireComparable, found']
    change (if differences.flatten.isEmpty then _ else _) = _
    rw [none]
    rfl

theorem requireMetric_eq_ok {source role key : String} {metrics : Config} :
  requireMetric source role key metrics = .ok () ↔ (metrics.lookup key).isSome
  := by
  unfold requireMetric
  split_ifs with h <;> simp [h]

/-- What a comparison has read. -/
theorem reads_of_compare {r : Comparison}
    (h : compareReports n primary secondary baseline candidate = .ok r) :
  ∃ base cand, requireComparable baseline candidate = .ok () ∧
    metricsOf baseline = .ok base ∧ metricsOf candidate = .ok cand ∧
    Scored n primary secondary base cand ∧
    floatOf n (get base primary) = .ok r.baseline ∧
    floatOf n (get cand primary) = .ok r.candidate ∧
    floatOf n (get base secondary) = .ok r.secondaryBaseline ∧
    floatOf n (get cand secondary) = .ok r.secondaryCandidate ∧
    r.improved = (r.baseline.lt r.candidate && r.secondaryBaseline.le r.secondaryCandidate)
  := by
  obtain ⟨_, comparable, h⟩ := ok_of_bind h
  obtain ⟨base, hbase, h⟩ := ok_of_bind h
  obtain ⟨cand, hcand, h⟩ := ok_of_bind h
  obtain ⟨_, first, h⟩ := ok_of_bind h
  obtain ⟨_, second, h⟩ := ok_of_bind h
  obtain ⟨_, third, h⟩ := ok_of_bind h
  obtain ⟨_, fourth, h⟩ := ok_of_bind h
  obtain ⟨deltas, changes, h⟩ := ok_of_bind h
  obtain ⟨before, hbefore, h⟩ := ok_of_bind h
  obtain ⟨after, hafter, h⟩ := ok_of_bind h
  obtain ⟨before', hbefore', h⟩ := ok_of_bind h
  obtain ⟨after', hafter', h⟩ := ok_of_bind h
  cases h
  refine ⟨base, cand, comparable, hbase, hcand, ⟨?_, ?_, ?_⟩, hbefore, hafter, hbefore', hafter', rfl⟩
  · simp only [List.forall_mem_cons, List.not_mem_nil, false_implies, implies_true, and_true]
    exact ⟨⟨requireMetric_eq_ok.mp first, requireMetric_eq_ok.mp third⟩,
      requireMetric_eq_ok.mp second, requireMetric_eq_ok.mp fourth⟩
  · simp only [List.forall_mem_cons, List.not_mem_nil, false_implies, implies_true, and_true]
    exact ⟨⟨⟨before, hbefore⟩, after, hafter⟩, ⟨before', hbefore'⟩, after', hafter'⟩
  · intro member hmember
    obtain ⟨delta, hdelta⟩ := mapM_isOk_iff.mp ⟨deltas, changes⟩ member hmember
    obtain ⟨x, hx, hdelta⟩ := ok_of_bind hdelta
    obtain ⟨y, hy, -⟩ := ok_of_bind hdelta
    exact ⟨⟨y, hy⟩, x, hx⟩

/-- A verdict is returned for the reports that are admitted. -/
theorem compareReports_isOk_iff :
  (∃ r, compareReports n primary secondary baseline candidate = .ok r) ↔
    Admitted n primary secondary baseline candidate
  := by
  constructor
  · rintro ⟨r, h⟩
    obtain ⟨base, cand, comparable, hbase, hcand, scored, -⟩ := reads_of_compare h
    exact ⟨requireComparable_eq_ok.mp comparable, base, cand, hbase, hcand, scored⟩
  · rintro ⟨same, base, cand, hbase, hcand, scored⟩
    have present := scored.present
    have main := scored.main
    simp only [List.forall_mem_cons, List.not_mem_nil, false_implies, implies_true, and_true]
      at present main
    obtain ⟨⟨first, third⟩, second, fourth⟩ := present
    obtain ⟨⟨⟨before, hbefore⟩, after, hafter⟩, ⟨before', hbefore'⟩, after', hafter'⟩ := main
    have changes : ∃ deltas, (shared base cand).mapM (fun (key, value) => do
        return (key, (← floatOf n (get cand key)).add (← floatOf n value).neg)) = .ok deltas := by
      apply mapM_isOk_iff.mpr
      intro member hmember
      obtain ⟨⟨y, hy⟩, x, hx⟩ := scored.others member hmember
      refine ⟨(member.1, x.add y.neg), ?_⟩
      dsimp only
      rw [hx, hy]
      rfl
    obtain ⟨deltas, changes⟩ := changes
    refine ⟨⟨primary, secondary, before, after, before', after', deltas,
      before.lt after && before'.le after'⟩, ?_⟩
    rw [compareReports, requireComparable_eq_ok.mpr same, hbase, hcand]
    simp only [bind, Except.bind] at changes ⊢
    rw [requireMetric_eq_ok.mpr first, requireMetric_eq_ok.mpr second,
      requireMetric_eq_ok.mpr third, requireMetric_eq_ok.mpr fourth]
    dsimp only
    rw [changes, hbefore, hafter, hbefore', hafter']
    rfl

/-! ### The better one of two reports -/

/-- The second report is better than the first one. -/
def Improved (n : Numerals) (primary secondary : String) (baseline candidate : Report) : Prop :=
  ∃ r, compareReports n primary secondary baseline candidate = .ok r ∧ r.improved

/-- Every two of the reports, in either order, are compared. -/
def MutuallyComparable (n : Numerals) (primary secondary : String) (reports : Set Report) : Prop :=
  ∀ a ∈ reports, ∀ b ∈ reports, ∃ r, compareReports n primary secondary a b = .ok r

/-- A verdict depends on two numbers of each report. -/
theorem improved_iff {r : Comparison}
    (h : compareReports n primary secondary baseline candidate = .ok r) :
  Improved n primary secondary baseline candidate ↔
    r.baseline.lt r.candidate ∧ r.secondaryBaseline.le r.secondaryCandidate
  := by
  obtain ⟨_, _, _, _, _, _, _, _, _, _, value⟩ := reads_of_compare h
  rw [← Bool.and_eq_true, ← value]
  constructor
  · rintro ⟨r', h', better⟩
    rw [h] at h'
    cases h'
    exact better
  · exact fun better => ⟨r, h, better⟩

/-- What is read of the first report of a comparison is what is read of it as the second one. -/
theorem scores_eq {a b c : Report} {r r' : Comparison}
    (h : compareReports n primary secondary a b = .ok r)
    (h' : compareReports n primary secondary b c = .ok r') :
  r.candidate = r'.baseline ∧ r.secondaryCandidate = r'.secondaryBaseline
  := by
  obtain ⟨_, mid, _, _, hmid, _, _, first, _, second, _⟩ := reads_of_compare h
  obtain ⟨mid', _, _, hmid', _, _, first', _, second', _, _⟩ := reads_of_compare h'
  cases hmid.symm.trans hmid'
  exact ⟨Except.ok.inj (first.symm.trans first'), Except.ok.inj (second.symm.trans second')⟩

theorem improved_irrefl (report : Report) :
  ¬Improved n primary secondary report report
  := by
  rintro ⟨r, h, better⟩
  have higher := ((improved_iff h).mp ⟨r, h, better⟩).1
  rw [(scores_eq h h).1, PyFloat.lt_irrefl] at higher
  cases higher

theorem improved_asymm (h : Improved n primary secondary baseline candidate) :
  ¬Improved n primary secondary candidate baseline
  := by
  obtain ⟨r, compared, better⟩ := h
  rintro ⟨r', compared', better'⟩
  have higher := ((improved_iff compared).mp ⟨r, compared, better⟩).1
  have higher' := ((improved_iff compared').mp ⟨r', compared', better'⟩).1
  rw [← (scores_eq compared compared').1, (scores_eq compared' compared).1,
    PyFloat.lt_asymm higher] at higher'
  cases higher'

theorem improved_trans {a b c : Report} {r : Comparison}
    (h : Improved n primary secondary a b) (h' : Improved n primary secondary b c)
    (compared : compareReports n primary secondary a c = .ok r) :
  Improved n primary secondary a c
  := by
  obtain ⟨s, hs, better⟩ := h
  obtain ⟨t, ht, better'⟩ := h'
  obtain ⟨higher, notLower⟩ := (improved_iff hs).mp ⟨s, hs, better⟩
  obtain ⟨higher', notLower'⟩ := (improved_iff ht).mp ⟨t, ht, better'⟩
  obtain ⟨first, second⟩ := scores_eq hs ht
  obtain ⟨base, _, _, hbase, _, _, before, _, before', _, _⟩ := reads_of_compare compared
  obtain ⟨base', _, _, hbase', _, _, beforeS, _, beforeS', _, _⟩ := reads_of_compare hs
  obtain ⟨_, cand, _, _, hcand, _, _, after, _, after', _⟩ := reads_of_compare compared
  obtain ⟨_, cand', _, _, hcand', _, _, afterT, _, afterT', _⟩ := reads_of_compare ht
  cases hbase.symm.trans hbase'
  cases hcand.symm.trans hcand'
  rw [improved_iff compared, Except.ok.inj (before.symm.trans beforeS),
    Except.ok.inj (before'.symm.trans beforeS'), Except.ok.inj (after.symm.trans afterT),
    Except.ok.inj (after'.symm.trans afterT')]
  rw [first] at higher
  rw [second] at notLower
  exact ⟨PyFloat.lt_trans higher higher', PyFloat.le_trans notLower notLower'⟩

/-! ### The same ruler -/

/-- The value of a field of a section, if the report has one. -/
def recorded (report : Report) (section_ key : String) : Option ConfigValue :=
  match report.lookup section_ with
  | some (.object members) => members.lookup key
  | _ => none

/-- Two reports have the same value in a field. -/
def Agree (baseline candidate : Report) (section_ key : String) : Prop :=
  ∃ v w, recorded baseline section_ key = some v ∧ recorded candidate section_ key = some w ∧ eq v w

/-- Two reports measure the same questions, in number too, on the same corpus with the same
embeddings. -/
structure SameRuler (baseline candidate : Report) : Prop where
  compared : ∀ field ∈ comparedFields, ∀ key ∈ field.2, Agree baseline candidate field.1 key
  dimensions : Agree baseline candidate "retrieval" "embedding_dimensions"
  questions : Agree baseline candidate "metrics" "question_count"

theorem get_of_recorded {report : Report} {section_ key : String} {members : Config}
    {v : ConfigValue} (h : membersOf report section_ = .ok members)
    (h' : recorded report section_ key = some v) :
  get members key = v
  := by
  unfold recorded at h'
  unfold membersOf at h
  split at h'
  next members' found =>
    rw [found] at h
    cases h
    rw [get, h', Option.getD_some]
  next => cases h'

/-- A verdict is only about reports that measure alike, unless the comparison admits two that do not
have a field, or that differ in the dimensions or in the number of the questions; and to be better is
a strict order. -/
theorem verdict_iff (n : Numerals) (primary secondary : String) :
  (∀ baseline candidate,
    (SameRuler baseline candidate ∨
      ∃ e, compareReports n primary secondary baseline candidate = .error e) ↔
    (Admitted n primary secondary baseline candidate →
      (∀ field ∈ comparedFields, ∀ key ∈ field.2,
        (recorded baseline field.1 key).isSome ∧ (recorded candidate field.1 key).isSome) ∧
      Agree baseline candidate "retrieval" "embedding_dimensions" ∧
      Agree baseline candidate "metrics" "question_count")) ∧
  ∀ reports, MutuallyComparable n primary secondary reports →
    (∀ a ∈ reports, ¬Improved n primary secondary a a) ∧
    (∀ a ∈ reports, ∀ b ∈ reports, Improved n primary secondary a b →
      ¬Improved n primary secondary b a) ∧
    ∀ a ∈ reports, ∀ b ∈ reports, ∀ c ∈ reports, Improved n primary secondary a b →
      Improved n primary secondary b c → Improved n primary secondary a c
  := by
  refine ⟨fun baseline candidate => ⟨?_, fun condition => ?_⟩, fun reports comparable => ⟨?_, ?_, ?_⟩⟩
  · rintro (ruler | ⟨e, failed⟩) admitted
    · refine ⟨fun field hfield key hkey => ?_, ruler.dimensions, ruler.questions⟩
      obtain ⟨v, w, hv, hw, -⟩ := ruler.compared field hfield key hkey
      rw [hv, hw]
      exact ⟨rfl, rfl⟩
    · obtain ⟨r, h⟩ := compareReports_isOk_iff.mpr admitted
      rw [h] at failed
      cases failed
  · cases compared : compareReports n primary secondary baseline candidate with
    | error e => exact .inr ⟨e, rfl⟩
    | ok r =>
      have admitted := compareReports_isOk_iff.mp ⟨r, compared⟩
      obtain ⟨present, dimensions, questions⟩ := condition admitted
      refine .inl ⟨fun field hfield key hkey => ?_, dimensions, questions⟩
      obtain ⟨left, right, hleft, hright, same⟩ := admitted.same field hfield
      obtain ⟨hv, hw⟩ := present field hfield key hkey
      obtain ⟨v, hv⟩ := Option.isSome_iff_exists.mp hv
      obtain ⟨w, hw⟩ := Option.isSome_iff_exists.mp hw
      have equal := same key hkey
      rw [get_of_recorded hleft hv, get_of_recorded hright hw] at equal
      exact ⟨v, w, hv, hw, equal⟩
  · exact fun a _ => improved_irrefl a
  · exact fun a _ b _ => improved_asymm
  · intro a ha b _ c hc h h'
    obtain ⟨r, compared⟩ := comparable a ha c hc
    exact improved_trans h h' compared

end

/-- A report on one question, with embeddings of some dimensions. -/
def sampleReport (dimensions : ℤ) : Report :=
  [("schema_version", .int 3), ("mode", .str "vector"),
    ("dataset", .object [("name", .str "drcd"), ("goldenset_sha256", .str "9f"),
      ("corpus_sha256", .str "3c")]),
    ("retrieval", .object [("embedding_model", .str "gemini-embedding-2"),
      ("embedding_dimensions", .int dimensions)]),
    ("metrics", .object [("question_count", .float (.finite 1)), ("mrr", .float (.finite (1 / 2))),
      ("recall@1", .float (.finite 0))])]

/-- No metric of the reports is a string that would have to be read. -/
def noNumerals : Numerals where
  int _ := none
  float _ := none

/-- Embeddings of one model that have different lengths are compared. -/
theorem verdict_across_dimensions :
  (∃ r, compareReports noNumerals "recall@1" "mrr" (sampleReport 1536) (sampleReport 1024) =
    .ok r) ∧
    ¬SameRuler (sampleReport 1536) (sampleReport 1024)
  := by
  constructor
  · apply compareReports_isOk_iff.mpr
    refine ⟨?_, _, _, rfl, rfl, ?_, ?_, ?_⟩
    · simp only [comparedFields, List.forall_mem_cons]
      refine ⟨⟨_, _, rfl, rfl, ?_⟩, ⟨_, _, rfl, rfl, ?_⟩, by simp⟩
      · decide
      · decide
    · decide
    · simp only [List.forall_mem_cons]
      exact ⟨⟨⟨_, rfl⟩, _, rfl⟩, ⟨⟨_, rfl⟩, _, rfl⟩, by simp⟩
    · change ∀ member ∈ [("mrr", ConfigValue.float (.finite (1 / 2))),
        ("recall@1", ConfigValue.float (.finite 0))], _
      simp only [List.forall_mem_cons]
      exact ⟨⟨⟨_, rfl⟩, _, rfl⟩, ⟨⟨_, rfl⟩, _, rfl⟩, by simp⟩
  · intro ruler
    obtain ⟨v, w, hv, hw, equal⟩ := ruler.dimensions
    cases hv
    cases hw
    exact absurd equal (by decide)

end Lumina.Evaluation
