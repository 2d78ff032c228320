import Lumina.Knowledge.ParamLayers

/-!
# What is read is in range

Whatever a knowledge base and its tenant have stored, a parameter is read as a value within its
declared bounds, if the system settings are within theirs. The overlap of the chunks is below the
target if one of the layers sets it; the default of the settings is not compared to the target that
a layer sets.
-/

namespace Lumina.Knowledge

/-- A value of the kind of the parameter within its bounds, or among its choices. -/
def InRange (spec : ParamSpec) : ParamValue → Prop
  | .int n => spec.kind = .int ∧ (∀ low ∈ spec.low, low ≤ n) ∧ ∀ high ∈ spec.high, n ≤ high
  | .float x => spec.kind = .float ∧
      ∃ q : ℚ, x = .finite q ∧ (∀ low ∈ spec.low, (low : ℚ) ≤ q) ∧ ∀ high ∈ spec.high, q ≤ high
  | .choice s => spec.kind = .choice ∧ s ∈ spec.choices

/-- Each setting is in the range of its parameter. -/
def SettingsInRange (settings : AppSettings) : Prop :=
  ∀ name specs key spec, paramSections.lookup name = some specs → specs.lookup key = some spec →
    InRange spec (spec.defaultAttr settings)

/-- The first integer that the layers have for a parameter. -/
def firstInt (key : String) : List Config → Option ℤ
  | [] => none
  | layer :: layers =>
      match layer.lookup key with
      | some (.int n) => some n
      | _ => firstInt key layers

/-- The target that is in force: the first integer of the layers within the bounds, or the setting.
-/
def targetInForce (layers : List Config) (settings : AppSettings) : ℤ :=
  ((firstInt "target_tokens" layers).map (clampInt (some 64) (some 4000))).getD
    settings.chunkTargetTokens

/-! ### Parameters with bounds of their own -/

theorem clampInt_bounds {low high : ℤ} (h : low ≤ high) (n : ℤ) :
  low ≤ clampInt (some low) (some high) n ∧ clampInt (some low) (some high) n ≤ high
  := by
  unfold clampInt
  dsimp only [Option.elim]
  omega

theorem clampFloat_bounds (x : PyFloat) :
  ∃ q : ℚ, clampFloat (some 0) (some 1) x = .finite q ∧ 0 ≤ q ∧ q ≤ 1
  := by
  cases x with
  | finite q =>
    rw [clampFloat_finite]
    exact ⟨_, rfl, le_min zero_le_one (le_max_left 0 q), min_le_left 1 _⟩
  | infinite negative =>
    rw [clampFloat_infinite]
    refine ⟨_, rfl, ?_⟩
    cases negative
    · exact ⟨zero_le_one, le_refl _⟩
    · exact ⟨le_refl _, zero_le_one⟩
  | nan =>
    rw [clampFloat_nan]
    exact ⟨0, rfl, le_refl _, zero_le_one⟩

/-- What is accepted is in range. -/
theorem inRange_of_accept {spec : ParamSpec} (h : Regular spec) {value : ConfigValue}
    {v : ParamValue} (taken : accept spec (some spec.high) value = some (some v)) :
  InRange spec v
  := by
  unfold accept at taken
  cases h with
  | @int low high kind _ hlow hhigh le =>
    rw [kind] at taken
    cases value with
    | int n =>
      cases taken
      rw [hlow, hhigh]
      obtain ⟨least, greatest⟩ := clampInt_bounds le n
      refine ⟨kind, ?_, ?_⟩
      · rw [hlow]
        rintro _ ⟨⟩
        exact least
      · rw [hhigh]
        rintro _ ⟨⟩
        exact greatest
    | _ => cases taken
  | float kind _ hlow hhigh =>
    have clamped (x : PyFloat) : InRange spec (.float (clampFloat spec.low spec.high x)) := by
      obtain ⟨q, hq, least, greatest⟩ := clampFloat_bounds x
      rw [hlow, hhigh, hq]
      refine ⟨kind, q, rfl, ?_, ?_⟩
      · rw [hlow]
        rintro _ ⟨⟩
        exact_mod_cast least
      · rw [hhigh]
        rintro _ ⟨⟩
        exact_mod_cast greatest
    rw [kind] at taken
    cases value with
    | int n =>
      obtain ⟨x, -, taken⟩ := Option.bind_eq_some_iff.mp taken
      cases taken
      exact clamped x
    | float x =>
      cases taken
      exact clamped x
    | _ => cases taken
  | choice kind =>
    rw [kind] at taken
    cases value with
    | str s =>
      dsimp only at taken
      split_ifs at taken with mem
      · cases taken
        exact ⟨kind, mem⟩
      · cases taken
    | _ => cases taken

theorem inRange_of_regular {spec : ParamSpec} (h : Regular spec) {specs : Specs} {key : String}
    (known : specs.lookup key = some spec) {layers : List Config} {settings : AppSettings}
    (default : InRange spec (spec.defaultAttr settings)) {v : ParamValue}
    (hread : readParam specs key layers settings = some v) :
  InRange spec v
  := by
  rw [readParam, readParam_of_highOf known h.highOf] at hread
  obtain rfl | ⟨value, taken⟩ := of_readLayers hread
  · exact default
  · exact inRange_of_accept h taken

/-! ### The target and the overlap -/

/-- An integer is read from the first layer that has one. -/
theorem readLayers_int {spec : ParamSpec} (kind : spec.kind = .int) (high : Option ℤ)
    (default : ParamValue) (key : String) (layers : List Config) :
  readLayers (accept spec (some high)) default key layers =
    some (((firstInt key layers).map fun n => .int (clampInt spec.low high n)).getD default)
  := by
  induction layers with
  | nil => rfl
  | cons layer layers ih =>
    unfold readLayers firstInt
    cases hlookup : layer.lookup key with
    | none => exact ih
    | some value =>
      have rejected (h : ∀ n, value ≠ .int n) : accept spec (some high) value = some none := by
        unfold accept
        rw [kind]
        cases value with
        | int n => exact absurd rfl (h n)
        | _ => rfl
      cases value with
      | int n =>
        unfold accept
        rw [kind]
        rfl
      | _ =>
        dsimp only
        rw [rejected]
        · exact ih
        · intro n same
          cases same

theorem paramSections_chunk : paramSections.lookup "chunk" = some chunkSpecs := by
  simp [paramSections, List.lookup_cons]

theorem chunkSpecs_target : chunkSpecs.lookup "target_tokens" = some targetSpec := by
  simp [chunkSpecs]

theorem chunkSpecs_overlap : chunkSpecs.lookup "overlap_tokens" = some overlapSpec := by
  simp [chunkSpecs, List.lookup_cons]

theorem readParamUpTo_target (layers : List Config) (settings : AppSettings) (n : ℕ) :
  readParamUpTo chunkSpecs layers settings n "target_tokens" =
    some (.int (targetInForce layers settings))
  := by
  rw [readParam_of_highOf chunkSpecs_target rfl, readLayers_int rfl]
  unfold targetInForce
  cases firstInt "target_tokens" layers
  all_goals rfl

/-- The overlap is clamped below the target if a layer sets it, and else it is the setting. -/
theorem readParam_overlap (layers : List Config) (settings : AppSettings) :
  readParam chunkSpecs "overlap_tokens" layers settings =
    some (.int (((firstInt "overlap_tokens" layers).map
      (clampInt (some 0) (some (max (targetInForce layers settings - 1) 0)))).getD
        settings.chunkOverlapTokens))
  := by
  have ceiling : readCeiling overlapSpec (readParamUpTo chunkSpecs layers settings 1) =
      some (some (max (targetInForce layers settings - 1) 0)) := by
    unfold readCeiling
    simp only [overlapSpec, readParamUpTo_target]
  have reads : readParam chunkSpecs "overlap_tokens" layers settings = _ :=
    readWith_of_known chunkSpecs_overlap layers settings
      (readParamUpTo chunkSpecs layers settings 1)
  rw [reads, ceiling, readLayers_int rfl]
  cases firstInt "overlap_tokens" layers
  all_goals rfl

section Range

variable {kb tenant : Config} {settings : AppSettings}

theorem SettingsInRange.target (h : SettingsInRange settings) :
  64 ≤ settings.chunkTargetTokens
  := (h "chunk" chunkSpecs "target_tokens" targetSpec paramSections_chunk
    chunkSpecs_target).2.1 64 rfl

theorem SettingsInRange.overlap (h : SettingsInRange settings) :
  0 ≤ settings.chunkOverlapTokens
  := (h "chunk" chunkSpecs "overlap_tokens" overlapSpec paramSections_chunk
    chunkSpecs_overlap).2.1 0 rfl

theorem le_targetInForce (h : SettingsInRange settings) (layers : List Config) :
  64 ≤ targetInForce layers settings
  := by
  unfold targetInForce
  cases firstInt "target_tokens" layers with
  | none => exact h.target
  | some n => exact (clampInt_target n).1

/-- What is read of the sections is in the ranges that are declared. -/
theorem inRange_of_readParam (h : SettingsInRange settings) {name key : String} {specs : Specs}
    {spec : ParamSpec} (known : paramSections.lookup name = some specs)
    (hspec : specs.lookup key = some spec) {layers : List Config} {v : ParamValue}
    (hread : readParam specs key layers settings = some v) :
  InRange spec v
  := by
  obtain regular | ⟨rfl, rfl, rfl, rfl⟩ := regular_of_known known hspec
  · exact inRange_of_regular regular hspec (h name specs key spec known hspec) hread
  · rw [readParam_overlap] at hread
    cases hread
    refine ⟨rfl, ?_, nofun⟩
    rintro _ ⟨⟩
    cases firstInt "overlap_tokens" layers with
    | none => exact h.overlap
    | some n =>
      exact (clampInt_bounds (Int.le_max_right (targetInForce layers settings - 1) 0) n).1

/-- The configuration of the chunker from what is stored. -/
theorem chunkConfigFrom_eq (kb tenant : Config) (settings : AppSettings) :
  let layers := layersOf "chunk" [kb, tenant]
  chunkConfigFrom kb tenant settings =
    some ⟨(targetInForce layers settings).toNat,
      (((firstInt "overlap_tokens" layers).map
        (clampInt (some 0) (some (max (targetInForce layers settings - 1) 0)))).getD
          settings.chunkOverlapTokens).toNat⟩
  := by
  unfold chunkConfigFrom
  dsimp only
  rw [readParam_overlap, readParam, readParamUpTo_target]
  rfl

/-- What the parameters are to be: each in its range, and the overlap below the target. -/
def ParamsInRange (kb tenant : Config) (settings : AppSettings) : Prop :=
  (∀ name specs key spec v, paramSections.lookup name = some specs →
    specs.lookup key = some spec →
    readParam specs key (layersOf name [kb, tenant]) settings = some v → InRange spec v) ∧
  ∃ config, chunkConfigFrom kb tenant settings = some config ∧
    config.overlapTokens < config.targetTokens

/-- The parameters are in range exactly if a layer sets the overlap, or its default is below the
target. -/
theorem params_in_range_iff (h : SettingsInRange settings) :
  ParamsInRange kb tenant settings ↔
    (firstInt "overlap_tokens" (layersOf "chunk" [kb, tenant])).isSome ∨
      settings.chunkOverlapTokens < targetInForce (layersOf "chunk" [kb, tenant]) settings
  := by
  have config := chunkConfigFrom_eq kb tenant settings
  have atLeast := le_targetInForce h (layersOf "chunk" [kb, tenant])
  have positive := h.overlap
  dsimp only at config
  generalize targetInForce (layersOf "chunk" [kb, tenant]) settings = target at *
  have below : ParamsInRange kb tenant settings ↔ ∃ config,
      chunkConfigFrom kb tenant settings = some config ∧
        config.overlapTokens < config.targetTokens := by
    apply and_iff_right
    intro name specs key spec v known hspec hread
    exact inRange_of_readParam h known hspec hread
  rw [below, config]
  cases firstInt "overlap_tokens" (layersOf "chunk" [kb, tenant]) with
  | none =>
    have overlap : settings.chunkOverlapTokens.toNat < target.toNat ↔
        settings.chunkOverlapTokens < target := by
      omega
    constructor
    · rintro ⟨_, ⟨⟩, lt⟩
      exact Or.inr (overlap.mp lt)
    · rintro (set | lt)
      · cases set
      · exact ⟨_, rfl, overlap.mpr lt⟩
  | some n =>
    obtain ⟨least, greatest⟩ := clampInt_bounds (Int.le_max_right (target - 1) 0) n
    refine iff_of_true ⟨_, rfl, ?_⟩ (Or.inl rfl)
    dsimp only [Option.map_some, Option.getD_some]
    omega

end Range

theorem settingsInRange_default : SettingsInRange {} := by
  intro name specs key spec known hspec
  have mem := mem_of_lookup hspec
  obtain ⟨rfl, rfl⟩ | ⟨rfl, rfl⟩ := name_of_known known
  · simp only [retrievalSpecs, List.mem_cons, Prod.mk.injEq, List.not_mem_nil, or_false] at mem
    rcases mem with ⟨-, rfl⟩ | ⟨-, rfl⟩ | ⟨-, rfl⟩ | ⟨-, rfl⟩ | ⟨-, rfl⟩ | ⟨-, rfl⟩ | ⟨-, rfl⟩ |
      ⟨-, rfl⟩ | ⟨-, rfl⟩ | ⟨-, rfl⟩
    all_goals simp [InRange, maxTopK, retrievalModes]
  · simp only [chunkSpecs, List.mem_cons, Prod.mk.injEq, List.not_mem_nil, or_false] at mem
    rcases mem with ⟨-, rfl⟩ | ⟨-, rfl⟩
    all_goals simp [InRange, targetSpec, overlapSpec]

/-- A target of 128 that the knowledge base sets is above the default overlap. -/
theorem params_in_range_iff_low :
  ParamsInRange [("chunk", .object [("target_tokens", .int 128)])] [] {}
  := (params_in_range_iff settingsInRange_default).mpr (Or.inr (by decide +kernel))

/-- A knowledge base that only lowers its target to 64 has the default overlap of 64. -/
theorem overlap_not_below_target :
  SettingsInRange {} ∧
    chunkConfigFrom [("chunk", .object [("target_tokens", .int 64)])] [] {} = some ⟨64, 64⟩ ∧
    ¬ ParamsInRange [("chunk", .object [("target_tokens", .int 64)])] [] {}
  := by
  have config :
      chunkConfigFrom [("chunk", .object [("target_tokens", .int 64)])] [] {} = some ⟨64, 64⟩ := by
    rw [chunkConfigFrom_eq]
    decide +kernel
  refine ⟨settingsInRange_default, config, ?_⟩
  rintro ⟨-, _, built, lt⟩
  cases config.symm.trans built
  exact lt_irrefl 64 lt

end Lumina.Knowledge
