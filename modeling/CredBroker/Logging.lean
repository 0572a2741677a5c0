import CredBroker.Effects

/-!
# The redaction registry

`register_secret` and `scrub` of `logging_config`. What is logged leaves no
trace in the model.
-/

namespace CredBroker

open Python Interaction

/-- `REDACTED`. -/
def redacted : Str := "[REDACTED]"

/-- `register_secret(value)`, for whatever a JSON document put in the place of
the secret: only a string has the length and the hash that a set member needs. -/
def registerSecret (value : Json) : BrokerProg Unit :=
  if !value.truthy then return ()
  else
    match value with
    | .str s => if s.length < 8 then return () else op (.registerSecret s)
    | .arr items =>
      if items.length < 8 then return () else .throw (.typeError "unhashable type: 'list'")
    | .obj members =>
      if members.length < 8 then return () else .throw (.typeError "unhashable type: 'dict'")
    | _ => .throw (.typeError ("object of type '" ++ value.typeName ++ "' has no len()"))

/-- The replacements of `scrub`, in the order in which the set is listed. -/
def scrubWith (text : Str) (secrets : List Str) : Str :=
  secrets.foldl (fun text secret =>
    if text.contains secret then text.replace secret redacted else text) text

/-- `scrub(text)`. -/
def scrub (text : Str) : BrokerProg Str := do
  let secrets ← op .secretRegistry
  return scrubWith text secrets

end CredBroker
