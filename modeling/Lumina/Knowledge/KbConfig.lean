import Lumina.Etl.Text
import Lumina.Knowledge.Etl
import Lumina.Library.Binary64

/-!
# The parameters of a knowledge base

The declaration of every parameter that can be set, the validation of what a user writes, and the
resolution of a parameter over the layers: knowledge base, tenant, system.
-/

namespace Lumina.Knowledge

/-! ### Values -/

/-- A floating point number. -/
inductive PyFloat where
  | finite (q : ℚ)
  | infinite (negative : Bool)
  | nan
deriving DecidableEq

/-- `<`; nothing is less than `nan`, or greater. -/
def PyFloat.lt : PyFloat → PyFloat → Bool
  | .finite p, .finite q => p < q
  | .infinite true, .finite _ => true
  | .finite _, .infinite false => true
  | .infinite true, .infinite false => true
  | _, _ => false

/-- `max(a, b)`, which is `a` unless `b` is greater. -/
def PyFloat.max (a b : PyFloat) : PyFloat :=
  if a.lt b then b else a

/-- `min(a, b)`, which is `a` unless `b` is less. -/
def PyFloat.min (a b : PyFloat) : PyFloat :=
  if b.lt a then b else a

/-- `float(n)`; too large an integer raises `OverflowError`. -/
def PyFloat.ofInt (n : ℤ) : Option PyFloat :=
  (Binary64.nearest n.natAbs).map fun q => .finite (if n < 0 then -q else q)

/-- A value of the JSON of a configuration. -/
inductive ConfigValue where
  | null
  | bool (b : Bool)
  | int (n : ℤ)
  | float (x : PyFloat)
  | str (s : String)
  | list (items : List ConfigValue)
  | object (members : List (String × ConfigValue))

/-- A mapping of the JSON; of two members with one key, the first one counts. -/
abbrev Config := List (String × ConfigValue)

/-- What a parameter is read as. -/
inductive ParamValue where
  | int (n : ℤ)
  | float (x : PyFloat)
  | choice (s : String)
deriving DecidableEq

/-! ### The declarations -/

/-- The parameters of `app_settings`, with their declared defaults. -/
structure AppSettings where
  ragTopK : ℤ := 40
  ragFtsTopK : ℤ := 40
  ragRrfK : ℤ := 60
  ragHybridCandidates : ℤ := 24
  ragRetrievalMode : String := "vector+rerank"
  ragRerankThreshold : PyFloat := .finite 0
  ragContextChunks : ℤ := 8
  ragContextTokenBudget : ℤ := 4500
  ragMinScoreRatio : PyFloat := .finite 0
  ragQueryHistoryTurns : ℤ := 1
  chunkTargetTokens : ℤ := 512
  chunkOverlapTokens : ℤ := 64

inductive Kind where
  | int
  | float
  | choice
deriving DecidableEq

/-- The declaration of a parameter.  The bounds are integers, also those of a float; `highOf` is the
parameter below which this one has to be. -/
structure ParamSpec where
  defaultAttr : AppSettings → ParamValue
  kind : Kind
  low : Option ℤ := none
  high : Option ℤ := none
  choices : List String := []
  highOf : Option String := none

abbrev Specs := List (String × ParamSpec)

def maxTopK : ℤ := 200

def retrievalModes : List String :=
  ["vector", "vector+rerank", "hybrid", "hybrid+rerank"]

def retrievalSpecs : Specs :=
  [("top_k", ⟨(.int ·.ragTopK), .int, some 1, some maxTopK, [], none⟩),
    ("fts_top_k", ⟨(.int ·.ragFtsTopK), .int, some 1, some maxTopK, [], none⟩),
    ("rrf_k", ⟨(.int ·.ragRrfK), .int, some 1, some 1000, [], none⟩),
    ("hybrid_candidates", ⟨(.int ·.ragHybridCandidates), .int, some 1, some maxTopK, [], none⟩),
    ("retrieval_mode", ⟨(.choice ·.ragRetrievalMode), .choice, none, none, retrievalModes, none⟩),
    ("rerank_threshold", ⟨(.float ·.ragRerankThreshold), .float, some 0, some 1, [], none⟩),
    ("context_chunks", ⟨(.int ·.ragContextChunks), .int, some 1, some 50, [], none⟩),
    ("context_token_budget",
      ⟨(.int ·.ragContextTokenBudget), .int, some 1, some 100000, [], none⟩),
    ("min_score_ratio", ⟨(.float ·.ragMinScoreRatio), .float, some 0, some 1, [], none⟩),
    ("query_history_turns", ⟨(.int ·.ragQueryHistoryTurns), .int, some 0, some 10, [], none⟩)]

def targetSpec : ParamSpec :=
  ⟨(.int ·.chunkTargetTokens), .int, some 64, some 4000, [], none⟩

def overlapSpec : ParamSpec :=
  ⟨(.int ·.chunkOverlapTokens), .int, some 0, none, [], some "target_tokens"⟩

def chunkSpecs : Specs :=
  [("target_tokens", targetSpec), ("overlap_tokens", overlapSpec)]

/-- `SECTIONS`. -/
def paramSections : List (String × Specs) :=
  [("retrieval", retrievalSpecs), ("chunk", chunkSpecs)]

/-! ### Validation -/

structure FieldError where
  field : String
  message : String
deriving DecidableEq, Repr

/-- `_shown`, of a bound. -/
def shown : Option ℤ → String
  | none => "—"
  | some n => toString n

/-- `'、'.join`. -/
def listed (keys : List String) : String :=
  "、".intercalate keys

/-- `_ceiling` for the validation: it goes by the other parameter as it is written in the section,
or else by its default. -/
def writeCeiling (spec : ParamSpec) (section_ : Config) (specs : Specs) (settings : AppSettings) :
    Option ℤ :=
  match spec.highOf with
  | none => spec.high
  | some other =>
      let default : Option ParamValue := (specs.lookup other).map (·.defaultAttr settings)
      let effective : ℤ :=
        match section_.lookup other, default with
        | some (.int n), _ => n
        | _, some (.int n) => n
        | _, _ => 0
      some (max (effective - 1) 0)

section

variable (repr : ConfigValue → String)

def betweenMessage (spec : ParamSpec) (high : Option ℤ) (value : ConfigValue) : String :=
  s!"必須介於 {shown spec.low} 與 {shown high} 之間（收到 {repr value}）"

/-- The end of `_reject_reason`: why a number is out of the bounds. -/
def boundsReason (spec : ParamSpec) (value : ConfigValue) (x : PyFloat) (high : Option ℤ) :
    Option String :=
  if spec.low.any fun low : ℤ => x.lt (.finite low) then some (betweenMessage repr spec high value)
  else
    match high with
    | none => none
    | some bound =>
        if PyFloat.lt (.finite bound) x then
          match spec.highOf with
          | some other => some s!"必須小於 {other}（目前是 {bound + 1}，收到 {repr value}）"
          | none => some (betweenMessage repr spec high value)
        else none

/-- `_reject_reason`. -/
def rejectReason (spec : ParamSpec) (value : ConfigValue) (section_ : Config) (specs : Specs)
    (settings : AppSettings) : Option String :=
  match spec.kind, value with
  | .choice, .str s =>
      if s ∈ spec.choices then none
      else some s!"必須是下列之一：{listed spec.choices}（收到 {repr value}）"
  | .choice, _ => some s!"必須是下列之一：{listed spec.choices}（收到 {repr value}）"
  | .int, .bool _ => some "必須是整數"
  | .float, .bool _ => some "必須是數字"
  | .int, .int n =>
      boundsReason repr spec value (.finite n) (writeCeiling spec section_ specs settings)
  | .int, _ => some s!"必須是整數（收到 {repr value}）"
  | .float, .int n =>
      boundsReason repr spec value (.finite n) (writeCeiling spec section_ specs settings)
  | .float, .float x => boundsReason repr spec value x (writeCeiling spec section_ specs settings)
  | .float, _ => some s!"必須是數字（收到 {repr value}）"

/-- `_validate_section`. -/
def validateSection (name : String) (section_ : Config) (specs : Specs) (pfx : String)
    (settings : AppSettings) : List FieldError :=
  section_.flatMap fun (key, value) =>
    let field := s!"{pfx}.{name}.{key}"
    match specs.lookup key with
    | none => [⟨field, s!"不是可設定的參數；可用的有 {listed (specs.map (·.1))}"⟩]
    | some spec =>
        match rejectReason repr spec value section_ specs settings with
        | some message => [⟨field, message⟩]
        | none => []

/-- The errors of one member of a configuration. -/
def validateMember (pfx : String) (alsoKnown : List String) (settings : AppSettings)
    (member : String × ConfigValue) : List FieldError :=
  let (name, raw) := member
  match paramSections.lookup name with
  | none =>
      [⟨s!"{pfx}.{name}",
        s!"不是可設定的區塊；可用的有 {listed (paramSections.map (·.1) ++ alsoKnown)}"⟩]
  | some specs =>
      match raw with
      | .object section_ => validateSection repr name section_ specs pfx settings
      | _ => [⟨s!"{pfx}.{name}", "必須是物件"⟩]

/-- `validate_param_sections`: the configuration as it is, or all its errors. -/
def validateParamSections (config : ConfigValue) (pfx : String) (alsoKnown : List String)
    (settings : AppSettings) : Except (List FieldError) Config :=
  match config with
  | .null => .ok []
  | .object members =>
      match members.flatMap (validateMember repr pfx alsoKnown settings) with
      | [] => .ok members
      | errors => .error errors
  | _ => .error [⟨pfx, "必須是物件"⟩]

/-- `validate_kb_config`. -/
def validateKbConfig (config : ConfigValue) (settings : AppSettings) :
    Except (List FieldError) Config :=
  validateParamSections repr config "config" [] settings

/-! ### The settings of a tenant -/

/-- `RESOURCES` of the quotas. -/
def quotaResources : List String :=
  ["tokens_month", "messages_day", "documents", "storage_bytes", "streams"]

def credentialNames : List String :=
  ["openai_api_key", "gemini_api_key", "jina_api_key"]

/-- `_validate_quota`. -/
def validateQuota : ConfigValue → List FieldError
  | .object members =>
      members.flatMap fun (key, value) =>
        let field := s!"settings.quota.{key}"
        if key ∉ quotaResources then
          [⟨field, s!"不是可設定的配額；可用的有 {listed quotaResources}"⟩]
        else
          match value with
          | .null => []
          | .int n => if n < 0 then [⟨field, s!"不得為負數（收到 {repr value}）"⟩] else []
          | _ => [⟨field, s!"必須是整數或 null（收到 {repr value}）"⟩]
  | _ => [⟨"settings.quota", "必須是物件"⟩]

/-- `_validate_credentials`. -/
def validateCredentials : ConfigValue → List FieldError
  | .object members =>
      members.flatMap fun (key, value) =>
        let field := s!"settings.credentials.{key}"
        if key ∉ credentialNames then
          [⟨field, s!"不是可設定的憑證；可用的有 {listed credentialNames}"⟩]
        else
          match value with
          | .null => []
          | .str s =>
              if Etl.strip s.toList = [] then [⟨field, "必須是非空字串，或 null（撤銷）"⟩] else []
          | _ => [⟨field, "必須是非空字串，或 null（撤銷）"⟩]
  | _ => [⟨"settings.credentials", "必須是物件"⟩]

/-- The members that `TenantSettingsService._validate` treats apart. -/
def isParamMember (member : String × ConfigValue) : Bool :=
  member.1 ≠ "quota" && member.1 ≠ "credentials"

/-- `TenantSettingsService._validate`, without the credentials that it returns: they are not part
of the settings. -/
def validateTenantSettings (patch : ConfigValue) (settings : AppSettings) :
    Except (List FieldError) Config :=
  match patch with
  | .null => .ok []
  | .object members =>
      let rest := validateParamSections repr (.object (members.filter isParamMember)) "settings"
        ["quota", "credentials"] settings
      let quota := members.lookup "quota"
      let errors :=
        (match rest with
          | .error errors => errors
          | .ok _ => []) ++
        (quota.map (validateQuota repr)).getD [] ++
        ((members.lookup "credentials").map validateCredentials).getD []
      match rest, errors with
      | .ok cleaned, [] => .ok (cleaned ++ quota.toList.map fun value => ("quota", value))
      | _, errors => .error errors
  | _ => .error [⟨"settings", "必須是物件"⟩]

end

/-- The sections of the settings of a tenant that are parameters, as `param_config` selects them. -/
def paramConfig (settings : Config) : Config :=
  settings.filter fun member => (paramSections.map (·.1)).contains member.1

/-! ### Resolution -/

/-- `section_of`. -/
def sectionOf (config : Config) (name : String) : Config :=
  match config.lookup name with
  | some (.object members) => members
  | _ => []

/-- `layers_of`: the sections of that name, the most specific one first. -/
def layersOf (name : String) (configs : List Config) : List Config :=
  (configs.map (sectionOf · name)).filter fun section_ => !section_.isEmpty

def clampInt (low high : Option ℤ) (n : ℤ) : ℤ :=
  let n := low.elim n fun low => max low n
  high.elim n fun high => min high n

def clampFloat (low high : Option ℤ) (x : PyFloat) : PyFloat :=
  let x := low.elim x fun low : ℤ => PyFloat.max (.finite low) x
  high.elim x fun high : ℤ => PyFloat.min (.finite high) x

/-- `_accept`: the value within the bounds, or `none` if it is not of the kind.  The outer option is
for an exception, also one of the ceiling. -/
def accept (spec : ParamSpec) (ceiling : Option (Option ℤ)) (value : ConfigValue) :
    Option (Option ParamValue) :=
  match spec.kind, value with
  | .choice, .str s => some (if s ∈ spec.choices then some (.choice s) else none)
  | .choice, _ => some none
  | .int, .int n => ceiling.map fun high => some (.int (clampInt spec.low high n))
  | .int, _ => some none
  | .float, .int n => do
      let x ← PyFloat.ofInt n
      let high ← ceiling
      some (some (.float (clampFloat spec.low high x)))
  | .float, .float x => ceiling.map fun high => some (.float (clampFloat spec.low high x))
  | .float, _ => some none

/-- The loop of `read_param` through the layers. -/
def readLayers (accepted : ConfigValue → Option (Option ParamValue)) (default : ParamValue)
    (key : String) : List Config → Option ParamValue
  | [] => some default
  | layer :: layers =>
      match layer.lookup key with
      | none => readLayers accepted default key layers
      | some value =>
          match accepted value with
          | none => none
          | some none => readLayers accepted default key layers
          | some (some v) => some v

/-- `_ceiling` for the reading: it goes by what the other parameter is read as. -/
def readCeiling (spec : ParamSpec) (effective : String → Option ParamValue) :
    Option (Option ℤ) :=
  match spec.highOf with
  | none => some spec.high
  | some other =>
      match effective other with
      | some (.int n) => some (some (max (n - 1) 0))
      | _ => none

/-- The body of `read_param`, given what other parameters are read as. -/
def readWith (specs : Specs) (layers : List Config) (settings : AppSettings)
    (effective : String → Option ParamValue) (key : String) : Option ParamValue := do
  let spec ← specs.lookup key
  readLayers (accept spec (readCeiling spec effective)) (spec.defaultAttr settings) key layers

/-- `read_param`, where a parameter depends on another one at most `n` times in turn. -/
def readParamUpTo (specs : Specs) (layers : List Config) (settings : AppSettings) :
    (n : ℕ) → (key : String) → Option ParamValue
  | 0 => readWith specs layers settings fun _ => none
  | n + 1 => readWith specs layers settings (readParamUpTo specs layers settings n)

/-- `read_param`. -/
def readParam (specs : Specs) (key : String) (layers : List Config) (settings : AppSettings) :
    Option ParamValue :=
  readParamUpTo specs layers settings specs.length key

/-- `_chunk_config_from`. -/
def chunkConfigFrom (config tenantConfig : Config) (settings : AppSettings) :
    Option ChunkConfig := do
  let layers := layersOf "chunk" [config, tenantConfig]
  let target ← readParam chunkSpecs "target_tokens" layers settings
  let overlap ← readParam chunkSpecs "overlap_tokens" layers settings
  match target, overlap with
  | .int target, .int overlap => some ⟨target.toNat, overlap.toNat⟩
  | _, _ => none

end Lumina.Knowledge
