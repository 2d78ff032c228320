import Lumina.Etl.Text
import Lumina.Library.Dict
import Lumina.Library.Fallible
import Lumina.Library.Lines
import Lumina.Library.PyDecimal

/-!
# Prices

The prices of the models are a string that is edited by hand: entries between semicolons, each of a
model and two decimals.  An entry that cannot be read, or with a negative price, is left out.  But a
price may read as a NaN, which raises when it is compared with zero, so that all prices are lost; or
as an infinity or a huge number, of which there is no cost, so that the usage is not recorded; and
the products and their sum are rounded to 28 digits before the cost is rounded to six places.
-/

namespace Lumina.Platform

open Binary64 (roundEven)
open Etl (Text strip)
open PyDecimal (Unharmed roundedSum significant toPlaces)

/-! ### The price table -/

/-- `rpartition` at a character. -/
def rpartition (sep : Char) (text : Text) : Text × Text × Text :=
  if sep ∈ text then ((text.rdropWhile (· ≠ sep)).dropLast, [sep], text.rtakeWhile (· ≠ sep))
  else ([], [], text)

/-- `partition` at a character. -/
def partition (sep : Char) (text : Text) : Text × Text × Text :=
  match text.dropWhile (· ≠ sep) with
  | [] => (text, [], [])
  | _ :: rest => (text.takeWhile (· ≠ sep), [sep], rest)

/-- Prices in USD for a million tokens. -/
structure ModelPrice where
  promptUsdPer1m : PyDecimal
  completionUsdPer1m : PyDecimal
deriving DecidableEq

/-- The model and the prices of an entry, before they are compared; there are none if it is blank,
has not the format, or has a price that is not a decimal. -/
def entryParts (entry : Text) : Option (Text × ModelPrice) :=
  let entry := strip entry
  if entry = [] then none
  else
    let (model, _, pricePart) := rpartition ':' entry
    let (promptPart, slash, completionPart) := partition '/' pricePart
    if strip model = [] ∨ slash = [] then none
    else do
      let prompt ← PyDecimal.ofText (strip promptPart)
      let completion ← PyDecimal.ofText (strip completionPart)
      return (strip model, ⟨prompt, completion⟩)

/-- `price.prompt_usd_per_1m < 0 or price.completion_usd_per_1m < 0`. -/
def ModelPrice.isNegative (price : ModelPrice) : Except DecimalException Bool := do
  if ← price.promptUsdPer1m.isNegative then return true
  price.completionUsdPer1m.isNegative

/-- A price is a NaN, and is compared with zero. -/
def ModelPrice.ComparesNan (price : ModelPrice) : Prop :=
  (∃ s, price.promptUsdPer1m = .nan s) ∨
    price.promptUsdPer1m.isNegative = .ok false ∧ ∃ s, price.completionUsdPer1m = .nan s

instance (price : ModelPrice) : Decidable price.ComparesNan :=
  inferInstanceAs (Decidable (_ ∨ _ ∧ _))

/-- What an entry sets, if anything. -/
def readEntry (entry : Text) : Except DecimalException (Option (Text × ModelPrice)) :=
  match entryParts entry with
  | none => .ok none
  | some (model, price) => do
      if ← price.isNegative then return none
      return some (model, price)

/-- A table after what is read of one more entry. -/
def put (prices : List (Text × ModelPrice)) (read : Option (Text × ModelPrice)) :
    List (Text × ModelPrice) :=
  match read with
  | none => prices
  | some (model, price) => Dict.set model price prices

/-- `parse_model_prices`. -/
def parseModelPrices (raw : Text) : Except DecimalException (List (Text × ModelPrice)) :=
  (raw.splitOn ';').foldlM (fun prices entry => return put prices (← readEntry entry)) []

/-- What the tokens of a call cost at a price. -/
def ModelPrice.cost (price : ModelPrice) (promptTokens completionTokens : ℕ) :
    Except DecimalException PyDecimal := do
  let prompt ← (PyDecimal.finite promptTokens).mul price.promptUsdPer1m
  let completion ← (PyDecimal.finite completionTokens).mul price.completionUsdPer1m
  let sum ← prompt.add completion
  let cost ← sum.div (.finite 1000000)
  cost.quantize 6

/-- `compute_cost`, where the settings have a price string. -/
def computeCost (raw model : Text) (promptTokens completionTokens : ℕ) :
    Except DecimalException (Option PyDecimal) := do
  match (← parseModelPrices raw).lookup model with
  | none => return none
  | some price => return some (← price.cost promptTokens completionTokens)

/-! ### The usage -/

structure UsageEvent where
  category : String
  model : Text
  promptTokens : ℕ
  requestId : String
  completionTokens : ℕ := 0
  userId : Option ℕ := none
  conversationId : Option ℕ := none
deriving DecidableEq

/-- A row of the usage logs. -/
structure UsageRow extends UsageEvent where
  tenantId : ℕ
  cost : Option PyDecimal
deriving DecidableEq

/-- The counts are within integer columns. -/
def UsageEvent.Fits (event : UsageEvent) : Prop :=
  event.promptTokens ≤ 2147483647 ∧ event.completionTokens ≤ 2147483647

instance (event : UsageEvent) : Decidable event.Fits :=
  inferInstanceAs (Decidable (_ ∧ _))

/-- A cost is within a column `numeric(12, 6)`. -/
def costFits : PyDecimal → Bool
  | .finite q => |q| < 10 ^ 6
  | _ => false

/-- `UsageLogRepository.add`; the database raises if a value is not within its column. -/
def addUsage (rows : List UsageRow) (row : UsageRow) : Option (List UsageRow) :=
  if row.Fits ∧ row.cost.all costFits then some (rows ++ [row]) else none

/-- `UsageService.record`: what is raised is logged, and nothing else. -/
def record (raw : Text) (tenantId : ℕ) (event : UsageEvent) (rows : List UsageRow) :
    List UsageRow :=
  match computeCost raw event.model event.promptTokens event.completionTokens with
  | .error _ => rows
  | .ok cost => (addUsage rows { event with tenantId, cost }).getD rows

/-! ### What an entry sets -/

theorem ModelPrice.isNegative_of_comparesNan {price : ModelPrice} (h : price.ComparesNan) :
  price.isNegative = .error .invalidOperation
  := by
  unfold isNegative
  rcases h with ⟨s, prompt⟩ | ⟨prompt, s, completion⟩
  · rw [prompt]
    rfl
  · rw [prompt, completion]
    rfl

theorem ModelPrice.isNegative_of_not_comparesNan {price : ModelPrice} (h : ¬ price.ComparesNan) :
  ∃ b, price.isNegative = .ok b
  := by
  obtain ⟨notPrompt, notCompletion⟩ := not_or.mp h
  unfold isNegative
  cases prompt : price.promptUsdPer1m.isNegative with
  | error e =>
    cases value : price.promptUsdPer1m with
    | nan s => exact absurd ⟨s, value⟩ notPrompt
    | _ =>
      rw [value] at prompt
      cases prompt
  | ok b =>
    cases b with
    | true => exact ⟨true, rfl⟩
    | false =>
      cases value : price.completionUsdPer1m with
      | nan s => exact absurd ⟨prompt, s, value⟩ notCompletion
      | finite q => exact ⟨_, rfl⟩
      | infinite negative => exact ⟨_, rfl⟩

/-- Numbers that are compared and not rejected are not negative. -/
theorem ModelPrice.nonneg_of_isNegative {P C : ℚ}
    (h : (⟨.finite P, .finite C⟩ : ModelPrice).isNegative = .ok false) :
  0 ≤ P ∧ 0 ≤ C
  := by
  by_cases prompt : P < 0
  · have rejected : (⟨.finite P, .finite C⟩ : ModelPrice).isNegative = .ok true := by
      simp [isNegative, PyDecimal.isNegative, prompt, bind, Except.bind, pure, Except.pure]
    rw [rejected] at h
    cases h
  · have compared : (⟨.finite P, .finite C⟩ : ModelPrice).isNegative = .ok (decide (C < 0)) := by
      simp [isNegative, PyDecimal.isNegative, prompt, bind, Except.bind]
    rw [compared] at h
    exact ⟨not_lt.mp prompt, not_lt.mp (of_decide_eq_false (Except.ok.inj h))⟩

/-- A price of the entry is a NaN, and is compared with zero. -/
def ComparesNan (entry : Text) : Prop :=
  ∃ part ∈ entryParts entry, part.2.ComparesNan

instance (entry : Text) : Decidable (ComparesNan entry) :=
  inferInstanceAs (Decidable (∃ part ∈ entryParts entry, part.2.ComparesNan))

/-- What an entry sets if its prices are numbers that are not negative. -/
def accepted (entry : Text) : Option (Text × ModelPrice) :=
  (entryParts entry).filter fun part => part.2.isNegative = .ok false

theorem readEntry_of_comparesNan {entry : Text} (h : ComparesNan entry) :
  readEntry entry = .error .invalidOperation
  := by
  obtain ⟨part, parts, compared⟩ := h
  unfold readEntry
  rw [parts]
  dsimp only
  rw [ModelPrice.isNegative_of_comparesNan compared]
  rfl

theorem readEntry_of_not_comparesNan {entry : Text} (h : ¬ ComparesNan entry) :
  readEntry entry = .ok (accepted entry)
  := by
  unfold readEntry accepted
  cases parts : entryParts entry with
  | none => rfl
  | some part =>
    have fine : ¬ part.2.ComparesNan := fun compared => h ⟨part, parts, compared⟩
    obtain ⟨b, negative⟩ := ModelPrice.isNegative_of_not_comparesNan fine
    dsimp only
    rw [negative, Option.filter_some, negative]
    cases b with
    | true => rfl
    | false => rfl

/-- What is read of the entries, put into a table in turn. -/
def setAll (read : List (Option (Text × ModelPrice))) : List (Text × ModelPrice) :=
  Dict.ofPairs (read.filterMap id)

theorem parseModelPrices_eq (raw : Text) :
  parseModelPrices raw = ((raw.splitOn ';').mapM readEntry).map setAll
  := by
  have step : (fun prices entry => return put prices (← readEntry entry) :
      List (Text × ModelPrice) → Text → Except DecimalException (List (Text × ModelPrice))) =
      fun prices entry => (readEntry entry).map (put prices) := by
    funext prices entry
    cases readEntry entry with
    | error e => rfl
    | ok read => rfl
  have all : setAll = fun read => read.foldl put [] := by
    funext read
    unfold setAll Dict.ofPairs
    rw [List.foldl_filterMap]
    congr 1
    funext prices read
    cases read with
    | none => rfl
    | some part => rfl
  rw [parseModelPrices, step, Fallible.foldlM_map, all]

theorem parseModelPrices_intercalate {entries : List Text} (h : ∀ entry ∈ entries, ';' ∉ entry) :
  parseModelPrices ([';'].intercalate entries) = (entries.mapM readEntry).map setAll
  := by
  rw [parseModelPrices_eq]
  by_cases empty : entries = []
  · subst empty
    rfl
  · rw [List.splitOn_intercalate ';' h empty]

theorem parseModelPrices_of_not_mem {entry : Text} (h : ';' ∉ entry) :
  parseModelPrices entry = (readEntry entry).map fun read => setAll [read]
  := by
  have alone := parseModelPrices_intercalate (List.forall_mem_singleton.mpr h)
  have text : [';'].intercalate [entry] = entry := by simp
  rw [text] at alone
  rw [alone, List.mapM_cons, List.mapM_nil]
  cases readEntry entry with
  | error e => rfl
  | ok read => rfl

/-- The union of dictionaries, where a later one counts more. -/
def union (dicts : List (List (Text × ModelPrice))) : List (Text × ModelPrice) :=
  Dict.ofPairs dicts.flatten

theorem setAll_singleton (read : Option (Text × ModelPrice)) :
  setAll [read] = read.toList
  := by
  cases read <;> rfl

/-- The table of entries that do not raise is that of those which are accepted. -/
theorem parseModelPrices_of_noNan {entries : List Text} (h : ∀ entry ∈ entries, ';' ∉ entry)
    (noNan : ∀ entry ∈ entries, ¬ ComparesNan entry) :
  parseModelPrices ([';'].intercalate entries) = .ok (Dict.ofPairs (entries.filterMap accepted))
  := by
  have read : entries.mapM readEntry = .ok (entries.map accepted) :=
    Fallible.mapM_of_ok fun entry hentry => readEntry_of_not_comparesNan (noNan entry hentry)
  rw [parseModelPrices_intercalate h, read]
  change Except.ok (setAll (entries.map accepted)) = _
  rw [setAll, List.filterMap_map]
  rfl

/-- Nor does any of them alone, and the table is the union of theirs. -/
theorem mapM_parseModelPrices_of_noNan {entries : List Text} (h : ∀ entry ∈ entries, ';' ∉ entry)
    (noNan : ∀ entry ∈ entries, ¬ ComparesNan entry) :
  ∃ each, entries.mapM parseModelPrices = .ok each ∧
    union each = Dict.ofPairs (entries.filterMap accepted)
  := by
  refine ⟨entries.map fun entry => (accepted entry).toList, ?_, ?_⟩
  · apply Fallible.mapM_of_ok
    intro entry hentry
    rw [parseModelPrices_of_not_mem (h entry hentry),
      readEntry_of_not_comparesNan (noNan entry hentry)]
    exact congrArg Except.ok (setAll_singleton (accepted entry))
  · rw [union, List.filterMap_eq_flatMap_toList, List.flatMap_def]

theorem noNan_of_mapM_parseModelPrices {entries : List Text} (h : ∀ entry ∈ entries, ';' ∉ entry)
    {each : List (List (Text × ModelPrice))} (parsed : entries.mapM parseModelPrices = .ok each) :
  ∀ entry ∈ entries, ¬ ComparesNan entry
  := by
  intro entry hentry compared
  obtain ⟨prices, alone⟩ := Fallible.mapM_isOk_iff.mp ⟨each, parsed⟩ entry hentry
  rw [parseModelPrices_of_not_mem (h entry hentry), readEntry_of_comparesNan compared] at alone
  cases alone

/-! ### What a call costs -/

theorem ModelPrice.cost_finite (P C : ℚ) (promptTokens completionTokens : ℕ) :
  ModelPrice.cost ⟨.finite P, .finite C⟩ promptTokens completionTokens =
    (PyDecimal.fix (promptTokens * P)).bind fun prompt =>
      (PyDecimal.fix (completionTokens * C)).bind fun completion =>
        (prompt.add completion).bind fun sum =>
          (sum.div (.finite 1000000)).bind (PyDecimal.quantize 6)
  := rfl

/-- The cost is the sum of the products in millionths, if that has 28 digits in whole numbers. -/
theorem ModelPrice.cost_eq_ok_iff {P C : ℚ} (hP : 0 ≤ P) (hC : 0 ≤ C)
    (promptTokens completionTokens : ℕ) (cost : PyDecimal) :
  ModelPrice.cost ⟨.finite P, .finite C⟩ promptTokens completionTokens = .ok cost ↔
    roundEven (roundedSum (promptTokens * P) (completionTokens * C)) < 10 ^ 28 ∧
      cost = .finite
        (roundEven (roundedSum (promptTokens * P) (completionTokens * C)) / 10 ^ 6)
  := by
  have hx : 0 ≤ promptTokens * P := by positivity
  have hy : 0 ≤ completionTokens * C := by positivity
  have sum : 0 ≤ significant (promptTokens * P) +
      significant (completionTokens * C) :=
    add_nonneg (PyDecimal.significant_nonneg hx) (PyDecimal.significant_nonneg hy)
  have millionths := PyDecimal.quantize_of_millionths (x := cost)
    (PyDecimal.significant_nonneg sum) (PyDecimal.short_significant sum)
  have division (s : ℚ) : PyDecimal.div (.finite s) (.finite 1000000) =
      PyDecimal.fix (s / 1000000) := PyDecimal.div_of_ne_zero (by norm_num) s
  rw [cost_finite]
  constructor
  · intro h
    obtain ⟨prompt, first, h⟩ := Fallible.ok_of_bind h
    obtain ⟨completion, second, h⟩ := Fallible.ok_of_bind h
    obtain rfl := PyDecimal.of_fix first
    obtain rfl := PyDecimal.of_fix second
    obtain ⟨total, third, h⟩ := Fallible.ok_of_bind h
    obtain rfl := PyDecimal.of_fix third
    rw [division] at h
    exact millionths.mp h
  · intro h
    have small : roundedSum (promptTokens * P) (completionTokens * C) < 10 ^ 28 := by
      exact_mod_cast Rounding.lt_of_roundEven_lt h.1
    obtain ⟨first, second, third⟩ := PyDecimal.fix_of_roundedSum_lt hx hy small
    rw [first, second]
    dsimp only [Except.bind, PyDecimal.add]
    rw [third]
    dsimp only
    rw [division]
    exact millionths.mpr h

/-- The cost is the exact amount to six places, unless rounding to 28 digits changes that. -/
theorem ModelPrice.cost_exact_iff {P C : ℚ} (hP : 0 ≤ P) (hC : 0 ≤ C)
    (promptTokens completionTokens : ℕ) :
  ModelPrice.cost ⟨.finite P, .finite C⟩ promptTokens completionTokens =
      .ok (.finite (toPlaces 6 ((promptTokens * P + completionTokens * C) / 1000000))) ↔
    Unharmed (promptTokens * P) (completionTokens * C) ∧
      roundEven (promptTokens * P + completionTokens * C) < 10 ^ 28
  := by
  have nonneg : 0 ≤ promptTokens * P + completionTokens * C := by positivity
  rw [cost_eq_ok_iff hP hC, PyDecimal.toPlaces_millionths nonneg]
  unfold Unharmed
  constructor
  · rintro ⟨less, value⟩
    have same := PyDecimal.finite.inj value
    rw [div_left_inj' (by norm_num)] at same
    have counts : roundEven (promptTokens * P + completionTokens * C) =
        roundEven (roundedSum (promptTokens * P) (completionTokens * C)) := by
      exact_mod_cast same
    exact ⟨counts.symm, counts ▸ less⟩
  · rintro ⟨counts, less⟩
    rw [counts]
    exact ⟨less, rfl⟩

/-- The price of a model: that of the last entry which sets it. -/
def lastPrice (entries : List Text) (model : Text) : Option ModelPrice :=
  (entries.filterMap accepted).reverse.lookup model

theorem lookup_ofPairs (pairs : List (Text × ModelPrice)) (model : Text) :
  (Dict.ofPairs pairs).lookup model = pairs.reverse.lookup model
  := by
  have same : (instBEqOfDecidableEq : BEq Text) = List.instBEq := lawful_beq_subsingleton _ _
  have last := Dict.lookup_ofPairs pairs model
  rwa [same] at last

theorem nonneg_of_lastPrice {entries : List Text} {model : Text} {P C : ℚ}
    (h : lastPrice entries model = some ⟨.finite P, .finite C⟩) :
  0 ≤ P ∧ 0 ≤ C
  := by
  obtain ⟨before, after, split, -⟩ := List.lookup_eq_some_iff.mp h
  have member : (model, ⟨.finite P, .finite C⟩) ∈ (entries.filterMap accepted).reverse := by
    rw [split]
    exact List.mem_append_right before List.mem_cons_self
  obtain ⟨entry, -, read⟩ := List.mem_filterMap.mp (List.mem_reverse.mp member)
  obtain ⟨-, compared⟩ := Option.filter_eq_some_iff.mp read
  exact ModelPrice.nonneg_of_isNegative (of_decide_eq_true compared)

theorem computeCost_of_noNan {entries : List Text} (h : ∀ entry ∈ entries, ';' ∉ entry)
    (noNan : ∀ entry ∈ entries, ¬ ComparesNan entry) (model : Text)
    (promptTokens completionTokens : ℕ) :
  computeCost ([';'].intercalate entries) model promptTokens completionTokens =
    match lastPrice entries model with
    | none => .ok none
    | some price => (price.cost promptTokens completionTokens).map some
  := by
  unfold computeCost lastPrice
  rw [parseModelPrices_of_noNan h noNan, ← lookup_ofPairs]
  change (match (Dict.ofPairs (entries.filterMap accepted)).lookup model with
    | none => return none
    | some price => return some (← price.cost promptTokens completionTokens)) = _
  cases (Dict.ofPairs (entries.filterMap accepted)).lookup model with
  | none => rfl
  | some price =>
    dsimp only
    cases price.cost promptTokens completionTokens with
    | error e => rfl
    | ok cost => rfl

/-! ### What is recorded -/

theorem costFits_millionths (n : ℕ) :
  costFits (.finite (n / 10 ^ 6)) = decide (n < 10 ^ 12)
  := by
  have nonneg : (0 : ℚ) ≤ n / 10 ^ 6 := by positivity
  unfold costFits
  dsimp only
  rw [abs_of_nonneg nonneg]
  congr 1
  rw [div_lt_iff₀ (by positivity), ← pow_add]
  exact propext ⟨fun less => by exact_mod_cast less, fun less => by exact_mod_cast less⟩

theorem record_of_ok {raw : Text} {event : UsageEvent} {cost : Option PyDecimal}
    (h : computeCost raw event.model event.promptTokens event.completionTokens = .ok cost)
    (tenantId : ℕ) (rows : List UsageRow) :
  record raw tenantId event rows =
    if event.Fits ∧ cost.all costFits then rows ++ [{ event with tenantId, cost }] else rows
  := by
  unfold record
  rw [h]
  dsimp only [addUsage]
  split_ifs <;> rfl

/-! ### A bad entry costs only itself -/

/-- The cost of a call at the price in a table, if there is one: the exact amount to six places. -/
def CostRight (prices : List (Text × ModelPrice)) (event : UsageEvent)
    (cost : Except DecimalException (Option PyDecimal)) : Prop :=
  match prices.lookup event.model with
  | none => cost = .ok none
  | some price =>
      ∃ P C : ℚ, price = ⟨.finite P, .finite C⟩ ∧
        cost = .ok (some (.finite (toPlaces 6
          ((event.promptTokens * P + event.completionTokens * C) / 1000000))))

/-- A bad entry costs only itself: the table is that of the entries one by one, the cost of a call
is right, and the call is recorded if its counts can be. -/
structure OnlyItself (entries : List Text) (event : UsageEvent) : Prop where
  table : ∃ each, entries.mapM parseModelPrices = .ok each ∧
    parseModelPrices ([';'].intercalate entries) = .ok (union each) ∧
      CostRight (union each) event
        (computeCost ([';'].intercalate entries) event.model event.promptTokens
          event.completionTokens)
  recorded : event.Fits → ∀ tenantId rows, ∃ cost,
    record ([';'].intercalate entries) tenantId event rows =
      rows ++ [{ event with tenantId, cost }]

/-- The decimals have room for an amount in millionths, and so has the column if the counts are
within theirs. -/
def RoomFor (amount : ℚ) (event : UsageEvent) : Prop :=
  roundEven amount < 10 ^ 28 ∧ (event.Fits → roundEven amount < 10 ^ 12)

/-- The price of the model, if it has one, is finite, and there is room for what the call costs,
which is the same if it is rounded to 28 digits. -/
structure Harmless (entries : List Text) (event : UsageEvent) : Prop where
  noNan : ∀ entry ∈ entries, ¬ ComparesNan entry
  price : ∀ price, lastPrice entries event.model = some price →
    ∃ P C : ℚ, price = ⟨.finite P, .finite C⟩ ∧
      Unharmed (event.promptTokens * P) (event.completionTokens * C) ∧
        RoomFor (event.promptTokens * P + event.completionTokens * C) event

section

variable {entries : List Text} {event : UsageEvent} (h : ∀ entry ∈ entries, ';' ∉ entry)

include h

/-- The cost of a call is right if its price does no harm. -/
theorem Harmless.costRight (harmless : Harmless entries event) :
  CostRight (Dict.ofPairs (entries.filterMap accepted)) event
    (computeCost ([';'].intercalate entries) event.model event.promptTokens
      event.completionTokens)
  := by
  rw [computeCost_of_noNan h harmless.noNan, CostRight, lookup_ofPairs]
  change match lastPrice entries event.model with
    | none => _
    | some price => _
  cases last : lastPrice entries event.model with
  | none => rfl
  | some price =>
    obtain ⟨P, C, rfl, unharmed, room, -⟩ := harmless.price price last
    obtain ⟨hP, hC⟩ := nonneg_of_lastPrice last
    refine ⟨P, C, rfl, ?_⟩
    dsimp only
    rw [(ModelPrice.cost_exact_iff hP hC _ _).mpr ⟨unharmed, room⟩]
    rfl

/-- A call whose counts are within their columns is recorded if its price does no harm. -/
theorem Harmless.recorded (harmless : Harmless entries event) (fits : event.Fits) (tenantId : ℕ)
    (rows : List UsageRow) :
  ∃ cost, record ([';'].intercalate entries) tenantId event rows =
    rows ++ [{ event with tenantId, cost }]
  := by
  have cost := computeCost_of_noNan h harmless.noNan event.model event.promptTokens
    event.completionTokens
  cases last : lastPrice entries event.model with
  | none =>
    rw [last] at cost
    refine ⟨none, ?_⟩
    rw [record_of_ok cost, if_pos ⟨fits, rfl⟩]
  | some price =>
    obtain ⟨P, C, rfl, unharmed, room, column⟩ := harmless.price price last
    obtain ⟨hP, hC⟩ := nonneg_of_lastPrice last
    have nonneg : 0 ≤ event.promptTokens * P + event.completionTokens * C := by positivity
    have value := (ModelPrice.cost_exact_iff hP hC _ _).mpr ⟨unharmed, room⟩
    rw [last] at cost
    dsimp only at cost
    rw [value, PyDecimal.toPlaces_millionths nonneg] at cost
    dsimp only [Except.map] at cost
    have row := record_of_ok cost tenantId rows
    rw [if_pos] at row
    · exact ⟨_, row⟩
    · rw [Option.all_some, costFits_millionths]
      exact ⟨fits, decide_eq_true (column fits)⟩

theorem Harmless.onlyItself (harmless : Harmless entries event) :
  OnlyItself entries event
  := by
  obtain ⟨each, parsed, all⟩ := mapM_parseModelPrices_of_noNan h harmless.noNan
  refine ⟨⟨each, parsed, ?_, ?_⟩, harmless.recorded h⟩
  · rw [parseModelPrices_of_noNan h harmless.noNan, all]
  · rw [all]
    exact harmless.costRight h

/-- The price of the model does no harm if the cost of the call is right and it is recorded. -/
theorem OnlyItself.price_harmless (onlyItself : OnlyItself entries event)
    (noNan : ∀ entry ∈ entries, ¬ ComparesNan entry) {price : ModelPrice}
    (last : lastPrice entries event.model = some price) :
  ∃ P C : ℚ, price = ⟨.finite P, .finite C⟩ ∧
    Unharmed (event.promptTokens * P) (event.completionTokens * C) ∧
      RoomFor (event.promptTokens * P + event.completionTokens * C) event
  := by
  obtain ⟨each, parsed, -, right⟩ := onlyItself.table
  obtain ⟨each', parsed', all⟩ := mapM_parseModelPrices_of_noNan h noNan
  obtain rfl : each = each' := Except.ok.inj (parsed.symm.trans parsed')
  have looked : (union each).lookup event.model = some price := by
    rw [all, lookup_ofPairs]
    exact last
  rw [CostRight, looked] at right
  obtain ⟨P, C, rfl, cost⟩ := right
  obtain ⟨hP, hC⟩ := nonneg_of_lastPrice last
  have nonneg : 0 ≤ event.promptTokens * P + event.completionTokens * C := by positivity
  have computed := computeCost_of_noNan h noNan event.model event.promptTokens
    event.completionTokens
  rw [last, cost] at computed
  obtain ⟨amount, value, same⟩ := Fallible.ok_of_map computed.symm
  obtain rfl := Option.some.inj same
  obtain ⟨unharmed, room⟩ := (ModelPrice.cost_exact_iff hP hC _ _).mp value
  refine ⟨P, C, rfl, unharmed, room, ?_⟩
  intro fits
  obtain ⟨_, row⟩ := onlyItself.recorded fits 0 []
  rw [record_of_ok cost] at row
  split_ifs at row with recorded
  · rw [PyDecimal.toPlaces_millionths nonneg, Option.all_some, costFits_millionths] at recorded
    exact of_decide_eq_true recorded.2
  · cases row

end

/-- Prices of six places and up to 200 USD do no harm. -/
theorem onlyItself_of_usual {entries : List Text} (h : ∀ entry ∈ entries, ';' ∉ entry)
    {event : UsageEvent} (noNan : ∀ entry ∈ entries, ¬ ComparesNan entry)
    (usual : ∀ price, lastPrice entries event.model = some price →
      ∃ m n : ℕ, m ≤ 200000000 ∧ n ≤ 200000000 ∧
        price = ⟨.finite (m * 10 ^ (-6 : ℤ)), .finite (n * 10 ^ (-6 : ℤ))⟩)
    (fits : event.Fits) :
  OnlyItself entries event
  := by
  refine Harmless.onlyItself h ⟨noNan, fun price last => ?_⟩
  obtain ⟨m, n, hm, hn, rfl⟩ := usual price last
  refine ⟨_, _, rfl, ?_⟩
  have digits : event.promptTokens * m + event.completionTokens * n ≤ 999999000000000000 := by
    have prompt := Nat.mul_le_mul fits.1 hm
    have completion := Nat.mul_le_mul fits.2 hn
    omega
  have prompt : event.promptTokens * (m * 10 ^ (-6 : ℤ)) =
      ((event.promptTokens * m : ℕ) * 10 ^ (-6 : ℤ) : ℚ) := by
    push_cast
    ring
  have completion : event.completionTokens * (n * 10 ^ (-6 : ℤ)) =
      ((event.completionTokens * n : ℕ) * 10 ^ (-6 : ℤ) : ℚ) := by
    push_cast
    ring
  rw [prompt, completion]
  refine ⟨PyDecimal.unharmed_of_digits (by norm_num) (by omega), ?_⟩
  have amount : roundEven ((event.promptTokens * m : ℕ) * 10 ^ (-6 : ℤ) +
      (event.completionTokens * n : ℕ) * 10 ^ (-6 : ℤ)) ≤ 999999999999 := by
    apply Rounding.roundEven_le
    have total : ((event.promptTokens * m : ℕ) + (event.completionTokens * n : ℕ) : ℚ) ≤
        999999000000000000 := by
      exact_mod_cast digits
    rw [← add_mul]
    norm_num at total ⊢
    linarith
  exact ⟨by omega, fun _ => by omega⟩

/-- A bad entry costs only itself if and only if no entry has a NaN that is compared, and the price
of the model, if it has one, is harmless. -/
theorem onlyItself_iff {entries : List Text} (h : ∀ entry ∈ entries, ';' ∉ entry)
    (event : UsageEvent) :
  OnlyItself entries event ↔ Harmless entries event
  := by
  constructor
  · intro onlyItself
    obtain ⟨each, parsed, -, -⟩ := onlyItself.table
    have noNan := noNan_of_mapM_parseModelPrices h parsed
    exact ⟨noNan, fun price last => onlyItself.price_harmless h noNan last⟩
  · exact Harmless.onlyItself h

/-- An entry that cannot be read, between two that can. -/
def bookWithBadEntry : List Text :=
  ["a:1/2".toList, "bad".toList, "b:0.15/0.6".toList]

def sampleCall (model : Text) : UsageEvent :=
  { category := "chat", model, promptTokens := 1234, requestId := "r", completionTokens := 567 }

theorem onlyItself_with_bad_entry :
  OnlyItself bookWithBadEntry (sampleCall "b".toList)
  := by
  refine (onlyItself_iff (by decide) _).mpr ⟨by decide +kernel, ?_⟩
  intro price last
  have book : lastPrice bookWithBadEntry (sampleCall "b".toList).model =
      some ⟨.finite (3 / 20), .finite (3 / 5)⟩ := by
    decide +kernel
  refine ⟨3 / 20, 3 / 5, Option.some.inj (last.symm.trans book), ?_⟩
  unfold RoomFor
  decide +kernel

/-- A NaN, which no `try` guards, loses the prices of all models; and an infinite price the usage of
its model. -/
theorem prices_and_usage_lost :
  parseModelPrices "a:1/2".toList = .ok [("a".toList, ⟨.finite 1, .finite 2⟩)] ∧
    parseModelPrices "a:1/2;b:NaN/1".toList = .error .invalidOperation ∧
    ¬ OnlyItself ["a:1/2".toList, "b:NaN/1".toList] (sampleCall "a".toList) ∧
    record "a:1/2;b:NaN/1".toList 0 (sampleCall "a".toList) [] = [] ∧
    record "a:Infinity/1".toList 0 (sampleCall "a".toList) [] = []
  := by
  refine ⟨by decide +kernel, by decide +kernel, ?_, by decide +kernel, by decide +kernel⟩
  rintro ⟨⟨each, parsed, -⟩, -⟩
  have lost : ["a:1/2".toList, "b:NaN/1".toList].mapM parseModelPrices =
      .error .invalidOperation := by
    decide +kernel
  rw [lost] at parsed
  cases parsed

end Lumina.Platform
