import TurnEngine.Text.Blank

/-!
# Models

A model is served by a provider under an id. A reference names one: `provider/id` with both parts
there, or a bare id, which a default provider serves. The provider of a model picks the breaker
that guards its calls.
-/

namespace TurnEngine

/-- A model selected for a call. -/
structure Model where
  /-- The provider's own name of the model. -/
  modelId : String
  provider : String
  /-- The reference that named it. -/
  resolvedFrom : String
  deriving DecidableEq, Repr

namespace Model

/-- A provider and an id joined by a slash. -/
def join (provider modelId : String) : String :=
  provider ++ "/" ++ modelId

/-- The model of a provider and an id. -/
def new (provider modelId : String) : Model :=
  ⟨modelId, provider, join provider modelId⟩

/-- The name of a model in notices and audit trails. -/
def qualifiedName (m : Model) : String :=
  join m.provider m.modelId

/-- The text before and after the first slash. -/
def splitSlash : List Char → Option (List Char × List Char)
  | [] => none
  | c :: cs =>
    if c = '/' then some ([], cs)
    else (splitSlash cs).map fun p => (c :: p.1, p.2)

/-- The model a reference names. Blanks around the reference do not count; an empty reference and
an empty part name nothing. -/
def resolve (defaultProvider reference : String) : Option Model :=
  let trimmed := Text.trim reference.toList
  if trimmed.isEmpty then none
  else
    match splitSlash trimmed with
    | some (provider, modelId) =>
      if provider.isEmpty || modelId.isEmpty then none
      else some ⟨String.ofList modelId, String.ofList provider, String.ofList trimmed⟩
    | none => some ⟨String.ofList trimmed, defaultProvider, String.ofList trimmed⟩

end Model

end TurnEngine
