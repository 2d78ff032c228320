import Lumina.Knowledge.KbConfig

/-!
# What is written is what is read

A parameter that the validation accepts is read back as it was written, unless it is not a number
that can be compared, or it is an overlap whose target is set by the tenant; and one that it rejects
is not read back, but for an overlap again.  The system settings have their declared defaults.
-/

namespace Lumina.Knowledge

/-- A value as a parameter of a kind. -/
def asParam : Kind → ConfigValue → Option ParamValue
  | .int, .int n => some (.int n)
  | .float, .int n => some (.float (.finite n))
  | .float, .float x => some (.float x)
  | .choice, .str s => some (.choice s)
  | _, _ => none

/-- The parameter is read from the layers as a value that is written. -/
def ReadsBack (specs : Specs) (key : String) (spec : ParamSpec) (layers : List Config)
    (value : ConfigValue) : Prop :=
  ∃ v, asParam spec.kind value = some v ∧ readParam specs key layers {} = some v

variable (repr : ConfigValue → String)

/-! ### What is validated -/

theorem mem_of_lookup {β : Type} {members : List (String × β)} {key : String} {b : β}
    (h : members.lookup key = some b) :
  (key, b) ∈ members
  := by
  obtain ⟨before, after, rfl, -⟩ := List.lookup_eq_some_iff.mp h
  exact List.mem_append_right before List.mem_cons_self

/-- No value of a section has a reason to be rejected. -/
def SectionValid (specs : Specs) (section_ : Config) : Prop :=
  ∀ key spec value, specs.lookup key = some spec → section_.lookup key = some value →
    rejectReason repr spec value section_ specs {} = none

/-- A configuration with an error in one of its members is rejected with it. -/
theorem validateParamSections_eq_ok_iff {members config : Config} {pfx : String}
    {alsoKnown : List String} {settings : AppSettings} :
  validateParamSections repr (.object members) pfx alsoKnown settings = .ok config ↔
    config = members ∧
      ∀ member ∈ members, validateMember repr pfx alsoKnown settings member = []
  := by
  rw [← List.flatMap_eq_nil_iff]
  unfold validateParamSections
  dsimp only
  split
  · rename_i none
    rw [none]
    constructor
    · rintro ⟨⟩
      exact ⟨rfl, rfl⟩
    · rintro ⟨rfl, -⟩
      rfl
  · rename_i some
    constructor
    · rintro ⟨⟩
    · rintro ⟨-, none⟩
      exact absurd none some

theorem sectionValid_of_validated {members config : Config} {pfx : String}
    {alsoKnown : List String}
    (h : validateParamSections repr (.object members) pfx alsoKnown {} = .ok config)
    {name : String} {specs : Specs} (known : paramSections.lookup name = some specs) :
  SectionValid repr specs (sectionOf config name)
  := by
  obtain ⟨rfl, valid⟩ := (validateParamSections_eq_ok_iff repr).mp h
  intro key spec value hspec hvalue
  unfold sectionOf at *
  split at hvalue
  · rename_i section_ found
    have noErrors := valid _ (mem_of_lookup found)
    unfold validateMember at noErrors
    simp only [known] at noErrors
    have noError := List.flatMap_eq_nil_iff.mp noErrors _ (mem_of_lookup hvalue)
    simp only [hspec] at noError
    split at noError
    · cases noError
    · assumption
  · cases hvalue

theorem lookup_filter {members : Config} {p : String × ConfigValue → Bool} {key : String}
    (h : ∀ value, p (key, value) = true) :
  (members.filter p).lookup key = members.lookup key
  := by
  induction members with
  | nil => rfl
  | cons member members ih =>
    obtain ⟨key', value⟩ := member
    by_cases same : key = key'
    · subst same
      rw [List.filter_cons_of_pos (h value)]
      simp
    · have other : (key == key') = false := by simpa using same
      rw [List.filter_cons]
      split_ifs
      · simp only [List.lookup_cons, other, ih]
      · simp only [List.lookup_cons, other, ih]

theorem name_of_known {name : String} {specs : Specs}
    (known : paramSections.lookup name = some specs) :
  (name = "retrieval" ∧ specs = retrievalSpecs) ∨ (name = "chunk" ∧ specs = chunkSpecs)
  := by
  have mem := mem_of_lookup known
  simpa [paramSections] using mem

theorem sectionOf_paramConfig_append {cleaned : Config} {quota : Option ConfigValue}
    {name : String} {specs : Specs} (known : paramSections.lookup name = some specs) :
  sectionOf (paramConfig (cleaned ++ quota.toList.map fun value => ("quota", value))) name =
    sectionOf cleaned name
  := by
  have kept : (paramSections.map (·.1)).contains name = true := by
    obtain ⟨rfl, -⟩ | ⟨rfl, -⟩ := name_of_known known
    · simp [paramSections]
    · simp [paramSections]
  have other : name ≠ "quota" := by
    rintro rfl
    simp [paramSections] at kept
  have same : (paramConfig (cleaned ++ quota.toList.map fun value => ("quota", value))).lookup
      name = cleaned.lookup name := by
    unfold paramConfig
    rw [lookup_filter fun _ => kept, List.lookup_append]
    cases quota with
    | none => simp
    | some value =>
      have differs : (name == "quota") = false := by simpa using other
      simp [List.lookup_cons, differs]
  unfold sectionOf
  rw [same]

/-- What the tenant sets has been validated as well. -/
theorem sectionValid_of_validateTenantSettings {t : ConfigValue} {tenant : Config}
    (h : validateTenantSettings repr t {} = .ok tenant) {name : String} {specs : Specs}
    (known : paramSections.lookup name = some specs) :
  SectionValid repr specs (sectionOf (paramConfig tenant) name)
  := by
  unfold validateTenantSettings at h
  split at h
  · cases h
    intro key spec value _ hvalue
    cases hvalue
  · dsimp only at h
    split at h
    · rename_i members cleaned valid _
      cases h
      rw [sectionOf_paramConfig_append known]
      exact sectionValid_of_validated repr valid known
    · cases h
  · cases h

/-! ### The layers -/

theorem readLayers_layersOf (accepted : ConfigValue → Option (Option ParamValue))
    (default : ParamValue) (key name : String) (configs : List Config) :
  readLayers accepted default key (layersOf name configs) =
    readLayers accepted default key (configs.map (sectionOf · name))
  := by
  unfold layersOf
  induction configs with
  | nil => rfl
  | cons config configs ih =>
    rw [List.map_cons]
    cases empty : sectionOf config name with
    | nil => exact ih
    | cons member members =>
      rw [List.filter_cons_of_pos rfl]
      unfold readLayers
      rw [ih]

theorem readParam_layersOf (specs : Specs) (key name : String) (configs : List Config) :
  readParam specs key (layersOf name configs) {} =
    readParam specs key (configs.map (sectionOf · name)) {}
  := by
  have same (n : ℕ) : readParamUpTo specs (layersOf name configs) {} n =
      readParamUpTo specs (configs.map (sectionOf · name)) {} n := by
    induction n with
    | zero =>
      unfold readParamUpTo
      funext key
      unfold readWith
      simp only [readLayers_layersOf]
    | succ n ih =>
      unfold readParamUpTo
      rw [ih]
      funext key
      unfold readWith
      simp only [readLayers_layersOf]
  unfold readParam
  rw [same]

theorem readWith_of_known {specs : Specs} {key : String} {spec : ParamSpec}
    (known : specs.lookup key = some spec) (layers : List Config) (settings : AppSettings)
    (effective : String → Option ParamValue) :
  readWith specs layers settings effective key =
    readLayers (accept spec (readCeiling spec effective)) (spec.defaultAttr settings) key layers
  := by
  unfold readWith
  rw [known]
  rfl

/-- A parameter with bounds of its own is read from the layers by `accept` alone. -/
theorem readParam_of_highOf {specs : Specs} {key : String} {spec : ParamSpec}
    (known : specs.lookup key = some spec) (free : spec.highOf = none) (layers : List Config)
    {settings : AppSettings} (n : ℕ) :
  readParamUpTo specs layers settings n key =
    readLayers (accept spec (some spec.high)) (spec.defaultAttr settings) key layers
  := by
  have ceiling (effective) : readCeiling spec effective = some spec.high := by
    unfold readCeiling
    rw [free]
  cases n with
  | zero =>
    unfold readParamUpTo
    rw [readWith_of_known known, ceiling]
  | succ n =>
    unfold readParamUpTo
    rw [readWith_of_known known, ceiling]

/-- What the first layer has is read if it is accepted, and else the other layers are. -/
theorem readLayers_cons {accepted : ConfigValue → Option (Option ParamValue)}
    {default : ParamValue} {key : String} {layer : Config} {value : ConfigValue}
    (has : layer.lookup key = some value) (layers : List Config) :
  readLayers accepted default key (layer :: layers) =
    match accepted value with
    | none => none
    | some none => readLayers accepted default key layers
    | some (some v) => some v
  := by
  rw [readLayers.eq_def]
  dsimp only
  split
  · rename_i none
    cases has.symm.trans none
  · rename_i found
    cases has.symm.trans found
    rfl

/-- What is read has been accepted in some layer, unless it is the default. -/
theorem of_readLayers {accepted : ConfigValue → Option (Option ParamValue)}
    {default v : ParamValue} {key : String} {layers : List Config}
    (h : readLayers accepted default key layers = some v) :
  v = default ∨ ∃ value, accepted value = some (some v)
  := by
  induction layers with
  | nil =>
    left
    exact (Option.some.inj h).symm
  | cons layer layers ih =>
    unfold readLayers at h
    split at h
    · exact ih h
    · rename_i value _
      split at h
      · cases h
      · exact ih h
      · rename_i taken
        right
        exact ⟨value, taken.trans (congrArg _ h)⟩

/-! ### Parameters with bounds of their own -/

/-- The declarations of the parameters that do not depend on another one. -/
inductive Regular (spec : ParamSpec) : Prop
  | int {low high : ℤ} :
      spec.kind = .int → spec.highOf = none → spec.low = some low → spec.high = some high →
        low ≤ high → Regular spec
  | float :
      spec.kind = .float → spec.highOf = none → spec.low = some 0 → spec.high = some 1 →
        Regular spec
  | choice {s : String} :
      spec.kind = .choice → spec.highOf = none → spec.defaultAttr {} = .choice s →
        s ∈ spec.choices → Regular spec

theorem Regular.highOf {spec : ParamSpec} (h : Regular spec) :
  spec.highOf = none
  := by
  cases h with
  | int _ free => exact free
  | float _ free => exact free
  | choice _ free => exact free

/-- Only the overlap depends on another parameter. -/
theorem regular_of_known {name key : String} {specs : Specs} {spec : ParamSpec}
    (known : paramSections.lookup name = some specs) (hspec : specs.lookup key = some spec) :
  Regular spec ∨
    (name = "chunk" ∧ specs = chunkSpecs ∧ key = "overlap_tokens" ∧ spec = overlapSpec)
  := by
  obtain ⟨rfl, rfl⟩ | ⟨rfl, rfl⟩ := name_of_known known
  · left
    have mem := mem_of_lookup hspec
    simp only [retrievalSpecs, List.mem_cons, Prod.mk.injEq, List.not_mem_nil, or_false] at mem
    rcases mem with ⟨-, rfl⟩ | ⟨-, rfl⟩ | ⟨-, rfl⟩ | ⟨-, rfl⟩ | ⟨-, rfl⟩ | ⟨-, rfl⟩ | ⟨-, rfl⟩ |
      ⟨-, rfl⟩ | ⟨-, rfl⟩ | ⟨-, rfl⟩
    · exact Regular.int rfl rfl rfl rfl (by decide)
    · exact Regular.int rfl rfl rfl rfl (by decide)
    · exact Regular.int rfl rfl rfl rfl (by decide)
    · exact Regular.int rfl rfl rfl rfl (by decide)
    · exact Regular.choice rfl rfl rfl (by simp [retrievalModes])
    · exact Regular.float rfl rfl rfl rfl
    · exact Regular.int rfl rfl rfl rfl (by decide)
    · exact Regular.int rfl rfl rfl rfl (by decide)
    · exact Regular.float rfl rfl rfl rfl
    · exact Regular.int rfl rfl rfl rfl (by decide)
  · have mem := mem_of_lookup hspec
    simp only [chunkSpecs, List.mem_cons, Prod.mk.injEq, List.not_mem_nil, or_false] at mem
    rcases mem with ⟨-, rfl⟩ | ⟨rfl, rfl⟩
    · left
      exact Regular.int rfl rfl rfl rfl (by decide)
    · right
      exact ⟨rfl, rfl, rfl, rfl⟩

/-- A number has no reason to be rejected exactly if it compares as neither too small nor too
great. -/
theorem boundsReason_eq_none_iff {spec : ParamSpec} {low : ℤ} (hlow : spec.low = some low)
    (high : ℤ) (value : ConfigValue) (x : PyFloat) :
  boundsReason repr spec value x (some high) = none ↔
    x.lt (.finite low) = false ∧ PyFloat.lt (.finite high) x = false
  := by
  unfold boundsReason
  rw [hlow, Option.any_some]
  by_cases small : x.lt (.finite low) = true
  · simp [small]
  · by_cases great : PyFloat.lt (.finite high) x = true
    · cases spec.highOf
      · simp [small, great]
      · simp [small, great]
    · simp [small, great]

theorem finite_lt_iff (m n : ℤ) :
  PyFloat.lt (.finite m) (.finite n) = false ↔ n ≤ m
  := by
  unfold PyFloat.lt
  rw [decide_eq_false_iff_not, not_lt, Int.cast_le]

theorem clampInt_eq_self_iff {low high n : ℤ} (h : low ≤ high) :
  clampInt (some low) (some high) n = n ↔ low ≤ n ∧ n ≤ high
  := by
  unfold clampInt
  dsimp only [Option.elim]
  omega

theorem clampFloat_finite (q : ℚ) :
  clampFloat (some 0) (some 1) (.finite q) = .finite (min 1 (max 0 q))
  := by
  have lower : PyFloat.max (.finite (0 : ℤ)) (.finite q) = .finite (max 0 q) := by
    unfold PyFloat.max PyFloat.lt
    rw [Int.cast_zero]
    by_cases positive : 0 < q
    · simp [positive, max_eq_right positive.le]
    · simp [positive, max_eq_left (not_lt.mp positive)]
  have upper (r : ℚ) : PyFloat.min (.finite (1 : ℤ)) (.finite r) = .finite (min 1 r) := by
    unfold PyFloat.min PyFloat.lt
    rw [Int.cast_one]
    by_cases small : r < 1
    · simp [small, min_eq_right small.le]
    · simp [small, min_eq_left (not_lt.mp small)]
  unfold clampFloat
  dsimp only [Option.elim]
  rw [lower, upper]

theorem clampFloat_infinite (negative : Bool) :
  clampFloat (some 0) (some 1) (.infinite negative) = .finite (if negative then 0 else 1)
  := by
  cases negative
  · simp [clampFloat, PyFloat.max, PyFloat.min, PyFloat.lt]
  · simp [clampFloat, PyFloat.max, PyFloat.min, PyFloat.lt]

theorem clampFloat_nan :
  clampFloat (some 0) (some 1) .nan = .finite 0
  := by
  simp [clampFloat, PyFloat.max, PyFloat.min, PyFloat.lt]

/-- A float is clamped to itself if it compares as within the bounds, and is a number. -/
theorem clampFloat_eq_self_iff (x : PyFloat) :
  clampFloat (some 0) (some 1) x = x ↔
    (x.lt (.finite (0 : ℤ)) = false ∧ PyFloat.lt (.finite (1 : ℤ)) x = false) ∧ x ≠ .nan
  := by
  cases x with
  | finite q =>
    rw [clampFloat_finite, PyFloat.finite.injEq]
    simp only [PyFloat.lt, Int.cast_zero, Int.cast_one, decide_eq_false_iff_not, not_lt, ne_eq,
      reduceCtorEq, not_false_eq_true, and_true]
    constructor
    · intro same
      rw [← same]
      exact ⟨le_min zero_le_one (le_max_left 0 q), min_le_left 1 _⟩
    · intro ⟨low, high⟩
      rw [max_eq_right low, min_eq_right high]
  | infinite negative =>
    rw [clampFloat_infinite]
    cases negative
    · simp [PyFloat.lt]
    · simp [PyFloat.lt]
  | nan =>
    rw [clampFloat_nan]
    simp

/-- An integer is clamped to itself as a float if it is within the bounds. -/
theorem accept_float_int_iff {spec : ParamSpec} (kind : spec.kind = .float)
    (low : spec.low = some 0) (n : ℤ) :
  accept spec (some (some 1)) (.int n) = some (some (.float (.finite n))) ↔ 0 ≤ n ∧ n ≤ 1
  := by
  unfold accept
  simp only [kind, low]
  constructor
  · intro h
    unfold PyFloat.ofInt at h
    cases nearest : Binary64.nearest n.natAbs with
    | none =>
      rw [nearest] at h
      cases h
    | some q =>
      rw [nearest] at h
      have clamped : clampFloat (some 0) (some 1) (.finite (if n < 0 then -q else q)) =
          .finite n := by
        simpa using h
      rw [clampFloat_finite, PyFloat.finite.injEq] at clamped
      constructor
      · have least : (0 : ℚ) ≤ n := by
          rw [← clamped]
          exact le_min zero_le_one (le_max_left 0 _)
        exact_mod_cast least
      · have greatest : (n : ℚ) ≤ 1 := by
          rw [← clamped]
          exact min_le_left 1 _
        exact_mod_cast greatest
  · intro ⟨least, greatest⟩
    have small : n.natAbs ≤ 2 ^ 53 := by omega
    have natural : ((n.natAbs : ℕ) : ℚ) = n := by
      rw [← Int.cast_natCast, Int.natAbs_of_nonneg least]
    have exact : PyFloat.ofInt n = some (.finite n) := by
      unfold PyFloat.ofInt
      rw [Binary64.nearest_of_representable (Binary64.representable_natCast small),
        Option.map_some, if_neg (not_lt.mpr least), natural]
    have low : (0 : ℚ) ≤ n := by exact_mod_cast least
    have high : (n : ℚ) ≤ 1 := by exact_mod_cast greatest
    rw [exact]
    simp [clampFloat_finite, low, high]

/-- The choice that is read is one of the choices. -/
theorem mem_choices_of_readLayers {spec : ParamSpec} (kind : spec.kind = .choice) {s : String}
    (default : spec.defaultAttr {} = .choice s) (mem : s ∈ spec.choices) {key r : String}
    {layers : List Config}
    (h : readLayers (accept spec (some spec.high)) (spec.defaultAttr {}) key layers =
      some (.choice r)) :
  r ∈ spec.choices
  := by
  rcases of_readLayers h with same | ⟨value, taken⟩
  · rw [default] at same
    cases same
    exact mem
  · unfold accept at taken
    simp only [kind] at taken
    cases value with
    | str s =>
      simp only at taken
      split_ifs at taken with mem
      · cases taken
        exact mem
      · cases taken
    | _ => cases taken

/-- A parameter with bounds of its own is read back if it is not rejected, and is a number. -/
theorem readsBack_iff_of_regular {spec : ParamSpec} (h : Regular spec) {specs : Specs}
    {key : String} (known : specs.lookup key = some spec) {layer : Config} {value : ConfigValue}
    (has : layer.lookup key = some value) (layers : List Config) :
  ReadsBack specs key spec (layer :: layers) value ↔
    rejectReason repr spec value layer specs {} = none ∧ value ≠ .float .nan
  := by
  have reads : readParam specs key (layer :: layers) {} = _ :=
    readParam_of_highOf known h.highOf (layer :: layers) _
  rw [readLayers_cons has] at reads
  have ceiling : writeCeiling spec layer specs {} = spec.high := by
    unfold writeCeiling
    rw [h.highOf]
  unfold ReadsBack
  rw [reads]
  cases h with
  | @int low high kind free hlow hhigh le =>
    cases value with
    | int n =>
      have bounds := boundsReason_eq_none_iff repr hlow high (.int n) (.finite n)
      rw [finite_lt_iff, finite_lt_iff] at bounds
      simp only [asParam, accept, rejectReason, kind, ceiling, hlow, hhigh, bounds, Option.map_some,
        Option.some.injEq, exists_eq_left', ParamValue.int.injEq, clampInt_eq_self_iff le, ne_eq,
        reduceCtorEq, not_false_eq_true, and_true]
    | _ => simp [asParam, rejectReason, kind]
  | float kind free low high =>
    cases value with
    | int n =>
      have bounds := boundsReason_eq_none_iff repr low 1 (.int n) (.finite n)
      rw [finite_lt_iff, finite_lt_iff] at bounds
      have accepted := accept_float_int_iff kind low n
      simp only [asParam, rejectReason, kind, ceiling, high, bounds, Option.some.injEq,
        exists_eq_left', ne_eq, reduceCtorEq, not_false_eq_true, and_true, ← accepted]
      split
      · simp_all
      · rename_i refused
        -- an integer is refused as a float only by an exception
        simp only [accept, kind, low] at refused
        cases exact : PyFloat.ofInt n with
        | none => simp [exact] at refused
        | some x => simp [exact] at refused
      · simp_all
    | float x =>
      have bounds := boundsReason_eq_none_iff repr low 1 (.float x) x
      simp only [asParam, accept, rejectReason, kind, ceiling, low, high, bounds, Option.map_some,
        Option.some.injEq, exists_eq_left', ParamValue.float.injEq, clampFloat_eq_self_iff, ne_eq,
        ConfigValue.float.injEq]
    | _ => simp [asParam, rejectReason, kind]
  | choice kind free default mem =>
    cases value with
    | str s =>
      by_cases allowed : s ∈ spec.choices
      · simp [asParam, accept, rejectReason, kind, allowed]
      · have never : ∀ rest,
            readLayers (accept spec (some spec.high)) (spec.defaultAttr {}) key rest ≠
              some (.choice s) :=
          fun rest read => allowed (mem_choices_of_readLayers kind default mem read)
        simpa [asParam, accept, rejectReason, kind, allowed] using never layers
    | _ => simp [asParam, rejectReason, kind]

/-! ### The overlap -/

/-- What the target is read as, from the sections of a knowledge base and of its tenant. -/
def effectiveTarget (layer tenantLayer : Config) : ℤ :=
  match layer.lookup "target_tokens" with
  | some (.int n) => clampInt (some 64) (some 4000) n
  | _ =>
      match tenantLayer.lookup "target_tokens" with
      | some (.int n) => clampInt (some 64) (some 4000) n
      | _ => 512

theorem clampInt_target (n : ℤ) :
  64 ≤ clampInt (some 64) (some 4000) n ∧ clampInt (some 64) (some 4000) n ≤ 4000
  := by
  unfold clampInt
  dsimp only [Option.elim]
  omega

theorem readLayers_target (layer tenantLayer : Config) :
  readLayers (accept targetSpec (some targetSpec.high)) (targetSpec.defaultAttr {}) "target_tokens"
      [layer, tenantLayer] =
    some (.int (effectiveTarget layer tenantLayer))
  := by
  have last : readLayers (accept targetSpec (some targetSpec.high)) (targetSpec.defaultAttr {})
      "target_tokens" [tenantLayer] = some (.int
        (match tenantLayer.lookup "target_tokens" with
          | some (.int n) => clampInt (some 64) (some 4000) n
          | _ => 512)) := by
    cases has : tenantLayer.lookup "target_tokens" with
    | none => simp [readLayers, has, targetSpec]
    | some value =>
      rw [readLayers_cons has]
      cases value with
      | _ => rfl
  unfold effectiveTarget
  cases has : layer.lookup "target_tokens" with
  | none => rw [readLayers.eq_def]; simp only [has]; exact last
  | some value =>
    rw [readLayers_cons has]
    cases value with
    | int n => rfl
    | _ => exact last

theorem le_effectiveTarget (layer tenantLayer : Config) :
  64 ≤ effectiveTarget layer tenantLayer
  := by
  unfold effectiveTarget
  split
  · exact (clampInt_target _).1
  · split
    · exact (clampInt_target _).1
    · decide

/-- An overlap is read back if it is below the target that is read. -/
theorem readsBack_overlap_iff {layer tenantLayer : Config} {value : ConfigValue}
    (has : layer.lookup "overlap_tokens" = some value) :
  ReadsBack chunkSpecs "overlap_tokens" overlapSpec [layer, tenantLayer] value ↔
    ∃ o, value = .int o ∧ 0 ≤ o ∧ o < effectiveTarget layer tenantLayer
  := by
  have known : chunkSpecs.lookup "overlap_tokens" = some overlapSpec := by
    simp [chunkSpecs, List.lookup_cons]
  have knownTarget : chunkSpecs.lookup "target_tokens" = some targetSpec := by simp [chunkSpecs]
  have target : readParamUpTo chunkSpecs [layer, tenantLayer] {} 1 "target_tokens" = _ :=
    (readParam_of_highOf knownTarget rfl _ 1).trans (readLayers_target layer tenantLayer)
  have atLeast := le_effectiveTarget layer tenantLayer
  have ceiling : readCeiling overlapSpec (readParamUpTo chunkSpecs [layer, tenantLayer] {} 1) =
      some (some (effectiveTarget layer tenantLayer - 1)) := by
    unfold readCeiling
    simp only [overlapSpec, target]
    rw [max_eq_left (by omega)]
  have reads : readParam chunkSpecs "overlap_tokens" [layer, tenantLayer] {} = _ :=
    readWith_of_known known [layer, tenantLayer] {} (readParamUpTo chunkSpecs _ {} 1)
  rw [ceiling, readLayers_cons has] at reads
  unfold ReadsBack
  rw [reads]
  cases value with
  | int n =>
    have bounds : (0 : ℤ) ≤ effectiveTarget layer tenantLayer - 1 := by omega
    have clamp := clampInt_eq_self_iff bounds (n := n)
    simp only [asParam, accept, overlapSpec, Option.map_some, Option.some.injEq, exists_eq_left',
      ParamValue.int.injEq, clamp, ConfigValue.int.injEq, Int.le_sub_one_iff]
  | _ => simp [asParam, overlapSpec]

theorem writeCeiling_overlap (layer : Config) :
  writeCeiling overlapSpec layer chunkSpecs {} =
    some (match layer.lookup "target_tokens" with
      | some (.int n) => max (n - 1) 0
      | _ => 511)
  := by
  have knownTarget : chunkSpecs.lookup "target_tokens" = some targetSpec := by
    simp [chunkSpecs]
  unfold writeCeiling
  simp only [overlapSpec, knownTarget, Option.map_some, targetSpec]
  cases layer.lookup "target_tokens" with
  | none => rfl
  | some target =>
    cases target with
    | _ => rfl

/-- An overlap is rejected by the target that is written beside it, or else by the default. -/
theorem rejectReason_overlap_iff (layer : Config) (value : ConfigValue) :
  rejectReason repr overlapSpec value layer chunkSpecs {} = none ↔
    ∃ o, value = .int o ∧ 0 ≤ o ∧
      match layer.lookup "target_tokens" with
      | some (.int n) => o ≤ max (n - 1) 0
      | _ => o ≤ 511
  := by
  cases value with
  | int o =>
    have reason : rejectReason repr overlapSpec (.int o) layer chunkSpecs {} =
        boundsReason repr overlapSpec (.int o) (.finite o)
          (writeCeiling overlapSpec layer chunkSpecs {}) := rfl
    rw [reason, writeCeiling_overlap, boundsReason_eq_none_iff repr rfl, finite_lt_iff,
      finite_lt_iff]
    simp only [ConfigValue.int.injEq, exists_eq_left']
    apply and_congr_right
    intro _
    split
    · exact Iff.rfl
    · exact Iff.rfl
  | _ => simp [rejectReason, overlapSpec]

/-! ### Writing and reading -/

/-- The members of a configuration that is an object. -/
def membersOf : ConfigValue → Config
  | .object members => members
  | _ => []

/-- The target that the settings of a tenant have. -/
def tenantTarget (tenant : Config) : Option ℤ :=
  match (sectionOf (paramConfig tenant) "chunk").lookup "target_tokens" with
  | some (.int n) => some n
  | _ => none

/-- What an accepted value has to be to be read: a number, and as an overlap without a target beside
it less than the target of the tenant. -/
def ReadableAsAccepted (section_ tenant : Config) (key : String) (value : ConfigValue) : Prop :=
  value ≠ .float .nan ∧
    (key = "overlap_tokens" → section_.lookup "target_tokens" = none →
      ∀ o, value = .int o → ∀ target ∈ tenantTarget tenant, o < target)

/-- What a rejected value has to be not to be read: an overlap is not less than the target that
counts where there is none beside it that counts, or where that is too small. -/
def UnreadableAsRejected (section_ tenant : Config) (key : String) (value : ConfigValue) : Prop :=
  key = "overlap_tokens" → ∀ o, value = .int o → 0 ≤ o →
    match section_.lookup "target_tokens" with
    | some (.int n) => 64 ≤ n ∨ 64 ≤ o
    | _ => ∀ target ∈ tenantTarget tenant, target ≤ o

/-- A target that has been validated is within its bounds. -/
theorem target_bounds {section_ : Config} (h : SectionValid repr chunkSpecs section_)
    {value : ConfigValue} (has : section_.lookup "target_tokens" = some value) :
  ∃ n, value = .int n ∧ 64 ≤ n ∧ n ≤ 4000
  := by
  have known : chunkSpecs.lookup "target_tokens" = some targetSpec := by simp [chunkSpecs]
  have accepted := h "target_tokens" targetSpec value known has
  cases value with
  | int n =>
    have reason : rejectReason repr targetSpec (.int n) section_ chunkSpecs {} =
        boundsReason repr targetSpec (.int n) (.finite n) (some 4000) := rfl
    rw [reason, boundsReason_eq_none_iff repr rfl, finite_lt_iff, finite_lt_iff] at accepted
    exact ⟨n, rfl, accepted⟩
  | _ => simp [rejectReason, targetSpec] at accepted

theorem clampInt_target_of_bounds {n : ℤ} (low : 64 ≤ n) (high : n ≤ 4000) :
  clampInt (some 64) (some 4000) n = n
  := by
  rw [clampInt_eq_self_iff (by decide)]
  exact ⟨low, high⟩

/-- Where the knowledge base has no target, the one of the tenant is read as it is, or else the
default. -/
theorem effectiveTarget_of_tenant {layer tenant : Config}
    (h : SectionValid repr chunkSpecs (sectionOf (paramConfig tenant) "chunk"))
    (none : ∀ n, layer.lookup "target_tokens" ≠ some (.int n)) :
  effectiveTarget layer (sectionOf (paramConfig tenant) "chunk") = (tenantTarget tenant).getD 512
  := by
  unfold effectiveTarget tenantTarget
  split
  · rename_i n has
    exact absurd has (none n)
  · cases has : (sectionOf (paramConfig tenant) "chunk").lookup "target_tokens" with
    | none => rfl
    | some value =>
      obtain ⟨n, rfl, low, high⟩ := target_bounds repr h has
      exact clampInt_target_of_bounds low high

/-- An overlap that is accepted is read back unless the target of the tenant is below it. -/
theorem readsBack_overlap_of_accepted {layer tenant : Config} {value : ConfigValue}
    (valid : SectionValid repr chunkSpecs layer)
    (tenantValid : SectionValid repr chunkSpecs (sectionOf (paramConfig tenant) "chunk"))
    (has : layer.lookup "overlap_tokens" = some value) :
  ReadsBack chunkSpecs "overlap_tokens" overlapSpec
      [layer, sectionOf (paramConfig tenant) "chunk"] value ↔
    ReadableAsAccepted layer tenant "overlap_tokens" value
  := by
  have known : chunkSpecs.lookup "overlap_tokens" = some overlapSpec := by
    simp [chunkSpecs, List.lookup_cons]
  obtain ⟨o, rfl, nonneg, low⟩ :=
    (rejectReason_overlap_iff repr layer value).mp (valid _ _ _ known has)
  rw [readsBack_overlap_iff has]
  simp only [ReadableAsAccepted, ConfigValue.int.injEq, exists_eq_left', ne_eq, reduceCtorEq,
    not_false_eq_true, true_and, forall_const, forall_eq']
  cases beside : layer.lookup "target_tokens" with
  | some target =>
    obtain ⟨n, rfl, least, greatest⟩ := target_bounds repr valid beside
    have same : effectiveTarget layer (sectionOf (paramConfig tenant) "chunk") = n := by
      unfold effectiveTarget
      rw [beside]
      exact clampInt_target_of_bounds least greatest
    simp only [beside] at low
    simp only [reduceCtorEq, false_implies, iff_true]
    omega
  | none =>
    have noTarget : ∀ n, layer.lookup "target_tokens" ≠ some (.int n) := by simp [beside]
    have effective := effectiveTarget_of_tenant repr tenantValid noTarget
    simp only [beside] at low
    rw [effective]
    cases tenantTarget tenant with
    | none =>
      simp only [Option.getD_none, Option.mem_def, reduceCtorEq, false_implies, implies_true,
        iff_true]
      omega
    | some target => simp [nonneg]

/-- An overlap that is rejected is read back if the target that counts is still above it. -/
theorem not_readsBack_overlap_of_rejected {layer tenant : Config} {value : ConfigValue}
    (tenantValid : SectionValid repr chunkSpecs (sectionOf (paramConfig tenant) "chunk"))
    (has : layer.lookup "overlap_tokens" = some value)
    (rejected : rejectReason repr overlapSpec value layer chunkSpecs {} ≠ none) :
  ¬ ReadsBack chunkSpecs "overlap_tokens" overlapSpec
      [layer, sectionOf (paramConfig tenant) "chunk"] value ↔
    UnreadableAsRejected layer tenant "overlap_tokens" value
  := by
  rw [ne_eq, rejectReason_overlap_iff] at rejected
  rw [readsBack_overlap_iff has]
  unfold UnreadableAsRejected
  rw [forall_prop_of_true rfl, not_exists]
  apply forall_congr'
  intro o
  by_cases written : value = .int o
  · subst written
    simp only [true_and, not_and, not_lt, forall_const]
    apply imp_congr_right
    intro nonneg
    simp only [ConfigValue.int.injEq, exists_eq_left', nonneg, true_and] at rejected
    split
    · rename_i n beside
      have same : effectiveTarget layer (sectionOf (paramConfig tenant) "chunk") =
          clampInt (some 64) (some 4000) n := by
        unfold effectiveTarget
        rw [beside]
      simp only [beside] at rejected
      rw [same]
      unfold clampInt
      dsimp only [Option.elim]
      omega
    · rename_i none
      have effective := effectiveTarget_of_tenant repr tenantValid none
      rw [effective]
      split at rejected
      · rename_i n beside
        exact absurd beside (none n)
      · cases tenantTarget tenant with
        | none =>
          simp only [Option.getD_none, Option.mem_def, reduceCtorEq, false_implies, implies_true,
            iff_true]
          omega
        | some target => simp
  · simp [written]

/-- A parameter with bounds of its own is not the overlap. -/
theorem Regular.key_ne {name key : String} {specs : Specs} {spec : ParamSpec} (h : Regular spec)
    (known : paramSections.lookup name = some specs) (hspec : specs.lookup key = some spec) :
  key ≠ "overlap_tokens"
  := by
  rintro rfl
  have same : spec = overlapSpec := by
    obtain ⟨-, rfl⟩ | ⟨-, rfl⟩ := name_of_known known
    · simp [retrievalSpecs, List.lookup_cons] at hspec
    · simpa [chunkSpecs, List.lookup_cons, eq_comm] using hspec
  have free := h.highOf
  rw [same] at free
  cases free

/-- The validation and the resolution agree on a value exactly where it is not an overlap that is
compared with one target when it is written and with another one when it is read. -/
theorem validation_agrees_iff {c t : ConfigValue} {tenant : Config}
    (ht : validateTenantSettings repr t {} = .ok tenant) {name key : String} {specs : Specs}
    {spec : ParamSpec} {value : ConfigValue} (known : paramSections.lookup name = some specs)
    (hspec : specs.lookup key = some spec)
    (has : (sectionOf (membersOf c) name).lookup key = some value) :
  (∀ config, validateKbConfig repr c {} = .ok config →
      (ReadsBack specs key spec (layersOf name [config, paramConfig tenant]) value ↔
        ReadableAsAccepted (sectionOf (membersOf c) name) tenant key value)) ∧
    (rejectReason repr spec value (sectionOf (membersOf c) name) specs {} ≠ none →
      (¬ ReadsBack specs key spec (layersOf name [membersOf c, paramConfig tenant]) value ↔
        UnreadableAsRejected (sectionOf (membersOf c) name) tenant key value))
  := by
  have sections (config : Config) : ReadsBack specs key spec
      (layersOf name [config, paramConfig tenant]) value ↔ ReadsBack specs key spec
        [sectionOf config name, sectionOf (paramConfig tenant) name] value := by
    unfold ReadsBack
    rw [readParam_layersOf]
    rfl
  simp only [sections]
  have accepted : ∀ config, validateKbConfig repr c {} = .ok config →
      config = membersOf c ∧ SectionValid repr specs (sectionOf (membersOf c) name) := by
    intro config valid
    cases c with
    | object members =>
      obtain ⟨rfl, -⟩ := (validateParamSections_eq_ok_iff repr).mp valid
      exact ⟨rfl, sectionValid_of_validated repr valid known⟩
    | _ => cases has
  rcases regular_of_known known hspec with regular | ⟨rfl, rfl, rfl, rfl⟩
  · have other := regular.key_ne known hspec
    have back := readsBack_iff_of_regular repr regular hspec has
      [sectionOf (paramConfig tenant) name]
    constructor
    · intro config valid
      obtain ⟨rfl, sound⟩ := accepted config valid
      rw [back]
      simp [ReadableAsAccepted, other, sound key spec value hspec has]
    · intro rejected
      rw [back]
      simp [UnreadableAsRejected, other, rejected]
  · have tenantValid := sectionValid_of_validateTenantSettings repr ht known
    constructor
    · intro config valid
      obtain ⟨rfl, sound⟩ := accepted config valid
      exact readsBack_overlap_of_accepted repr sound tenantValid has
    · intro rejected
      exact not_readsBack_overlap_of_rejected repr tenantValid has rejected

/-- A configuration with one parameter of the chunks. -/
def chunkConfigOf (key : String) (n : ℤ) : ConfigValue :=
  .object [("chunk", .object [(key, .int n)])]

theorem validateKbConfig_overlap :
  validateKbConfig repr (chunkConfigOf "overlap_tokens" 500) {} =
    .ok [("chunk", .object [("overlap_tokens", .int 500)])]
  := by
  simp [validateKbConfig, chunkConfigOf, validateParamSections, validateMember, paramSections,
    validateSection, chunkSpecs, overlapSpec, targetSpec, rejectReason, boundsReason, writeCeiling,
    PyFloat.lt, List.lookup_cons]

theorem validateTenantSettings_target :
  validateTenantSettings repr (chunkConfigOf "target_tokens" 64) {} =
    .ok [("chunk", .object [("target_tokens", .int 64)])]
  := by
  simp [validateTenantSettings, isParamMember, chunkConfigOf, validateParamSections,
    validateMember, paramSections, validateSection, chunkSpecs, targetSpec, rejectReason,
    boundsReason, writeCeiling, PyFloat.lt, List.lookup_cons]

theorem validation_agrees_iff_overlap :
  (∀ config, validateKbConfig (fun _ => "") (chunkConfigOf "overlap_tokens" 500) {} = .ok config →
      (ReadsBack chunkSpecs "overlap_tokens" overlapSpec (layersOf "chunk" [config,
          paramConfig [("chunk", .object [("target_tokens", .int 64)])]]) (.int 500) ↔
        ReadableAsAccepted [("overlap_tokens", .int 500)]
          [("chunk", .object [("target_tokens", .int 64)])] "overlap_tokens" (.int 500))) ∧
    (rejectReason (fun _ => "") overlapSpec (.int 500) [("overlap_tokens", .int 500)] chunkSpecs
          {} ≠ none →
      (¬ ReadsBack chunkSpecs "overlap_tokens" overlapSpec
          (layersOf "chunk" [[("chunk", .object [("overlap_tokens", .int 500)])],
            paramConfig [("chunk", .object [("target_tokens", .int 64)])]]) (.int 500) ↔
        UnreadableAsRejected [("overlap_tokens", .int 500)]
          [("chunk", .object [("target_tokens", .int 64)])] "overlap_tokens" (.int 500)))
  :=
  validation_agrees_iff (fun _ => "") (c := chunkConfigOf "overlap_tokens" 500)
    (validateTenantSettings_target _) rfl rfl rfl

/-- An overlap that is accepted is read as another one if the tenant sets a target below it. -/
theorem not_validation_agrees :
  ¬ ∀ (repr : ConfigValue → String) (c t : ConfigValue) (config tenant : Config)
      (name key : String) (specs : Specs) (spec : ParamSpec) (value : ConfigValue),
    validateKbConfig repr c {} = .ok config → validateTenantSettings repr t {} = .ok tenant →
      paramSections.lookup name = some specs → specs.lookup key = some spec →
        (sectionOf config name).lookup key = some value →
          ReadsBack specs key spec (layersOf name [config, paramConfig tenant]) value
  := by
  intro agrees
  have back := agrees (fun _ => "") _ _ _ _ "chunk" "overlap_tokens" chunkSpecs overlapSpec
    (.int 500) (validateKbConfig_overlap _) (validateTenantSettings_target _) rfl rfl rfl
  have layers : layersOf "chunk" [[("chunk", .object [("overlap_tokens", .int 500)])],
      paramConfig [("chunk", .object [("target_tokens", .int 64)])]] =
      [[("overlap_tokens", .int 500)], [("target_tokens", .int 64)]] := by
    simp [layersOf, sectionOf, paramConfig, paramSections]
  rw [layers, readsBack_overlap_iff (by simp)] at back
  obtain ⟨o, written, -, below⟩ := back
  cases written
  simp [effectiveTarget, clampInt, List.lookup_cons] at below

end Lumina.Knowledge
