import AxonGateway.Registry.Numbers
import AxonGateway.Adapters.Responses

/-!
# The model registry and its snapshots

A document is validated, and then its entries are parsed. What is parsed can be exported, and the
export is what a snapshot is made of.
-/

namespace AxonGateway.Registry

open PyValue Screening Adapters

/-! ### Registered models -/

inductive RoutingStrategy where
  | roundRobin | weighted | leastLatency | costOptimized | smart | ensemble
  deriving DecidableEq

namespace RoutingStrategy

def value : RoutingStrategy → Text
  | roundRobin => "round-robin".toList
  | weighted => "weighted".toList
  | leastLatency => "least-latency".toList
  | costOptimized => "cost-optimized".toList
  | smart => "smart".toList
  | ensemble => "ensemble".toList

def all : List RoutingStrategy := [roundRobin, weighted, leastLatency, costOptimized, smart, ensemble]

/-- `RoutingStrategy(value)` -/
def ofValue : Value → Except Raised RoutingStrategy
  | .str t => (all.find? fun strategy ↦ strategy.value = t).elim (.error .valueError) .ok
  | _ => .error .valueError

end RoutingStrategy

structure TokenPricing where
  promptTokenCost : Double
  completionTokenCost : Double

structure ProviderModelMapping where
  provider : Text
  modelId : Value
  weight : Double
  fallbackOrder : ℤ
  pricing : Option TokenPricing

/-- `description`, `model_id` and `max_context_tokens` are kept as they are given. -/
structure ModelConfig where
  name : Text
  description : Value
  providers : List ProviderModelMapping
  routingStrategy : RoutingStrategy
  capabilities : Option (List Value)
  maxContextTokens : Option Value

structure ModelRegistry where
  models : List (Text × ModelConfig)
  revision : ℤ

/-! ### Validation -/

structure ValidationError where
  field : Text
  message : Text

def validRoutingStrategies : List Text := RoutingStrategy.all.map RoutingStrategy.value

def validProviders : List Text :=
  ["openai", "anthropic", "bedrock", "bedrock-mantle", "azure_openai", "vertex_ai", "google_ai",
    "cohere", "xai", "groq", "together", "fireworks", "ai21"].map String.toList

/-- A value that can be looked up in a set. -/
def hashable : Value → Bool
  | .arr _ => false
  | .obj _ => false
  | _ => true

def isIn (names : List Text) : Value → Bool
  | .str t => names.contains t
  | _ => false

/-- `value in names` for a set of texts. -/
def contains (names : List Text) (v : Value) : Except Raised Bool :=
  if hashable v then .ok (isIn names v) else .error .typeError

section Validation

variable (isPrintable : Char → Bool)

/-- The message about a value that is none of some names. -/
def invalidName (what : String) (v : Value) (names : List Text) : Text :=
  what.toList ++ v.pyStr isPrintable ++ "'. Must be one of: ".toList ++
    Value.repr isPrintable (.arr ((names.insertionSort (· ≤ ·)).map .str))

def validateName (pre : Text) (seenNames : List Text) (name : Option Value) :
    List ValidationError × List Text :=
  match name with
  | some (.str (c :: name)) =>
      (if seenNames.contains (c :: name) then
        [⟨pre ++ ".name".toList, "Duplicate model name: '".toList ++ (c :: name) ++ "'".toList⟩]
      else [], (c :: name) :: seenNames)
  | some v =>
      if v.truthy then ([⟨pre ++ ".name".toList, "'name' must be a string".toList⟩], seenNames)
      else ([⟨pre ++ ".name".toList, "Missing required field 'name'".toList⟩], seenNames)
  | none => ([⟨pre ++ ".name".toList, "Missing required field 'name'".toList⟩], seenNames)

/-- `not entry.get(key)` -/
def validateRequired (pre : Text) (key : String) (v : Option Value) : List ValidationError :=
  if (v.getD .null).truthy then []
  else [⟨pre ++ '.' :: key.toList, "Missing required field '".toList ++ key.toList ++ "'".toList⟩]

def validateStrategy (pre : Text) (strategy : Option Value) : Except Raised (List ValidationError) :=
  match strategy.getD .null with
  | .null => .ok []
  | v => do
      let known ← contains validRoutingStrategies v
      .ok (if known then [] else [⟨pre ++ ".routing_strategy".toList,
        invalidName isPrintable "Invalid routing strategy: '" v validRoutingStrategies⟩])

def isPositiveInt : Value → Bool
  | .number t => (pyInt (.number t)).any (1 ≤ ·)
  | _ => false

def validateMaxContextTokens (pre : Text) (v : Option Value) : List ValidationError :=
  if isNull (v.getD .null) || isPositiveInt (v.getD .null) then []
  else [⟨pre ++ ".max_context_tokens".toList,
    "'max_context_tokens' must be a positive integer".toList⟩]

def validateProviderName (pre : Text) (provider : Option Value) :
    Except Raised (List ValidationError) :=
  if (provider.getD .null).truthy then do
    let known ← contains validProviders (provider.getD .null)
    .ok (if known then [] else [⟨pre ++ ".provider".toList,
      invalidName isPrintable "Invalid provider: '" (provider.getD .null) validProviders⟩])
  else .ok (validateRequired pre "provider" provider)

def validateProvider (pre : Text) : Value → Except Raised (List ValidationError)
  | .obj prov => do
      let errors ← validateProviderName isPrintable pre (prov.lookup "provider".toList)
      .ok (errors ++ validateRequired pre "model_id" (prov.lookup "model_id".toList))
  | _ => .ok [⟨pre, "Provider entry must be a mapping".toList⟩]

def validateProviderList (pre : Text) (pidx : ℕ) : List Value → Except Raised (List ValidationError)
  | [] => .ok []
  | prov :: rest => do
      let errors ← validateProvider isPrintable
        (pre ++ ".providers[".toList ++ (toString pidx).toList ++ "]".toList) prov
      let later ← validateProviderList pre (pidx + 1) rest
      .ok (errors ++ later)

def validateProviders (pre : Text) (providers : Option Value) :
    Except Raised (List ValidationError) :=
  match providers.getD .null with
  | .null => .ok (validateRequired pre "providers" none)
  | .arr [] => .ok [⟨pre ++ ".providers".toList, "'providers' must not be empty".toList⟩]
  | .arr providers => validateProviderList isPrintable pre 0 providers
  | _ => .ok [⟨pre ++ ".providers".toList, "'providers' must be a list".toList⟩]

def validateEntry (pre : Text) (seenNames : List Text) :
    Value → Except Raised (List ValidationError × List Text)
  | .obj entry => do
      let (named, seenNames) := validateName pre seenNames (entry.lookup "name".toList)
      let described := validateRequired pre "description" (entry.lookup "description".toList)
      let strategy ← validateStrategy isPrintable pre (entry.lookup "routing_strategy".toList)
      let limited := validateMaxContextTokens pre (entry.lookup "max_context_tokens".toList)
      let providers ← validateProviders isPrintable pre (entry.lookup "providers".toList)
      .ok (named ++ described ++ strategy ++ limited ++ providers, seenNames)
  | _ => .ok ([⟨pre, "Entry must be a mapping".toList⟩], seenNames)

def validateEntries (idx : ℕ) (seenNames : List Text) :
    List Value → Except Raised (List ValidationError)
  | [] => .ok []
  | entry :: rest => do
      let (errors, seenNames) ← validateEntry isPrintable
        ("models[".toList ++ (toString idx).toList ++ "]".toList) seenNames entry
      let later ← validateEntries (idx + 1) seenNames rest
      .ok (errors ++ later)

def validate (config : Fields) : Except Raised (List ValidationError) :=
  match (config.lookup "models".toList).getD .null with
  | .null => .ok [⟨"models".toList, "Missing required top-level key 'models'".toList⟩]
  | .arr entries => validateEntries isPrintable 0 [] entries
  | _ => .ok [⟨"models".toList, "'models' must be a list".toList⟩]

end Validation

/-! ### Parsing -/

/-- `value[key]` -/
def getItem (v : Value) (key : String) : Except Raised Value :=
  match v with
  | .obj fields => (fields.lookup key.toList).elim (.error .keyError) .ok
  | _ => .error .typeError

/-- A text that was validated. -/
def textOf : Value → Except Raised Text
  | .str t => .ok t
  | _ => .error .typeError

/-- `list(value)` -/
def listOf : Value → Except Raised (List Value)
  | .arr items => .ok items
  | .str t => .ok (t.map fun c ↦ .str [c])
  | .obj fields => .ok (fields.map fun field ↦ .str field.1)
  | _ => .error .typeError

section Parsing

variable (N : Numbers)

def parseCost (pricing : Value) (key : String) : Except Raised Double := do
  let cost ← getItem pricing key
  N.float cost

def parsePricing : Option Value → Except Raised (Option TokenPricing)
  | none => .ok none
  | some pricing => do
      let prompt ← parseCost N pricing "prompt_token_cost"
      let completion ← parseCost N pricing "completion_token_cost"
      .ok (some ⟨prompt, completion⟩)

def parseProvider (prov : Value) : Except Raised ProviderModelMapping := do
  let fields ← match prov with
    | .obj fields => Except.ok fields
    | _ => .error .typeError
  let pricing ← parsePricing N (fields.lookup "pricing".toList)
  let provider ← getItem prov "provider"
  let provider ← textOf provider
  let modelId ← getItem prov "model_id"
  let weight ← N.float (getOr fields "weight".toList (.number "1.0".toList))
  let fallbackOrder ← N.int (getOr fields "fallback_order".toList (.number "0".toList))
  .ok ⟨provider, modelId, weight, fallbackOrder, pricing⟩

def parseProviders : List Value → Except Raised (List ProviderModelMapping)
  | [] => .ok []
  | prov :: rest => do
      let mapping ← parseProvider N prov
      let later ← parseProviders rest
      .ok (mapping :: later)

def parseCapabilities (capabilities : Option Value) : Except Raised (Option (List Value)) :=
  match capabilities.getD .null with
  | .null => .ok none
  | v => (listOf v).map some

/-- `_parse_entry` -/
def parseEntry (entry : Value) : Except Raised ModelConfig := do
  let fields ← match entry with
    | .obj fields => Except.ok fields
    | _ => .error .typeError
  let routingStrategy ← RoutingStrategy.ofValue
    (getOr fields "routing_strategy".toList (.str "round-robin".toList))
  let providers ← getItem entry "providers"
  let providers ← listOf providers
  let providers ← parseProviders N providers
  let capabilities ← parseCapabilities (fields.lookup "capabilities".toList)
  let name ← getItem entry "name"
  let name ← textOf name
  let description ← getItem entry "description"
  .ok ⟨name, description, providers, routingStrategy, capabilities,
    (fields.lookup "max_context_tokens".toList).filter fun v ↦ !isNull v⟩

/-- The entries under their names. -/
def parseEntries (models : List (Text × ModelConfig)) :
    List Value → Except Raised (List (Text × ModelConfig))
  | [] => .ok models
  | entry :: rest => do
      let config ← parseEntry N entry
      parseEntries (set models config.name config) rest

end Parsing

/-! ### Replacement and export -/

section Replacement

variable (isPrintable : Char → Bool) (N : Numbers)

/-- The models of a document that is valid. -/
def modelsOf (config : Fields) : Except Raised (List (Text × ModelConfig)) := do
  let errors ← validate isPrintable config
  if errors.isEmpty then
    match (config.lookup "models".toList).getD .null with
    | .arr entries => parseEntries N [] entries
    | _ => .error .typeError
  else .error .valueError

/-- `replace_config` -/
def replaceConfig (config : Fields) (revision : ℤ) (registry : ModelRegistry) :
    Except Raised Unit × ModelRegistry :=
  if revision < 0 then (.error .valueError, registry)
  else match modelsOf isPrintable N config with
    | .error e => (.error e, registry)
    | .ok models => (.ok (), ⟨models, revision⟩)

def TokenPricing.config (pricing : TokenPricing) : Fields :=
  [("prompt_token_cost".toList, pricing.promptTokenCost.value),
    ("completion_token_cost".toList, pricing.completionTokenCost.value)]

def ProviderModelMapping.config (mapping : ProviderModelMapping) : Fields :=
  [("provider".toList, .str mapping.provider), ("model_id".toList, mapping.modelId),
    ("weight".toList, mapping.weight.value),
    ("fallback_order".toList, .number (toString mapping.fallbackOrder).toList)] ++
    mapping.pricing.toList.map fun pricing ↦ ("pricing".toList, .obj pricing.config)

def ModelConfig.config (m : ModelConfig) : Fields :=
  [("name".toList, .str m.name), ("description".toList, m.description),
    ("routing_strategy".toList, .str m.routingStrategy.value)] ++
    (m.capabilities.toList.map fun items ↦ ("capabilities".toList, .arr items)) ++
    (m.maxContextTokens.toList.map fun v ↦ ("max_context_tokens".toList, v)) ++
    [("providers".toList, .arr (m.providers.map fun mapping ↦ .obj mapping.config))]

/-- `to_config` -/
def toConfig (models : List (Text × ModelConfig)) : Fields :=
  [("models".toList, .arr (models.map fun entry ↦ .obj entry.2.config))]

/-! ### Snapshots -/

variable (sha256 : Text → Text)

structure RoutingConfigSnapshot where
  revision : ℤ
  document : Text
  sha256 : Text

/-- `_SHA256` -/
def isSha256 (text : Text) : Bool :=
  text.length == 64 && text.all fun c ↦ c.isDigit || ('a' ≤ c && c ≤ 'f')

/-- `from_config` -/
def fromConfig (config : Fields) (revision : ℤ) : Except Raised RoutingConfigSnapshot := do
  if revision < 0 then .error .valueError
  else
    let _ ← (replaceConfig isPrintable N config revision ⟨[], 0⟩).1
    match JsonText.dumpsFinite (.obj config) with
    | none => .error .valueError
    | some document => .ok ⟨revision, document, sha256 document⟩

/-- `from_document` -/
def fromDocument (document : Text) (revision : ℤ) (checksum : Text) :
    Except Raised RoutingConfigSnapshot :=
  if isSha256 checksum then
    match (JsonText.loads document).map (JsonText.mapNumbers N.read) with
    | some (.obj config) => do
        let snapshot ← fromConfig isPrintable N sha256 config revision
        if snapshot.document = document ∧ snapshot.sha256 = checksum then
          .ok ⟨revision, document, checksum⟩
        else .error .valueError
    | _ => .error .valueError
  else .error .valueError

/-- `from_registry` -/
def fromRegistry (registry : ModelRegistry) : Except Raised RoutingConfigSnapshot :=
  fromConfig isPrintable N sha256 (toConfig registry.models) registry.revision

/-- `apply` -/
def RoutingConfigSnapshot.apply (snapshot : RoutingConfigSnapshot) (registry : ModelRegistry) :
    Except Raised Unit × ModelRegistry :=
  match (JsonText.loads snapshot.document).map (JsonText.mapNumbers N.read) with
  | some (.obj config) => replaceConfig isPrintable N config snapshot.revision registry
  | some _ => (.error .runtimeError, registry)
  | none => (.error .valueError, registry)

end Replacement

end AxonGateway.Registry
