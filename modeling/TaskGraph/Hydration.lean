import TaskGraph.Catalog

/-!
# Hydration

Hydrating a reference derives what is missing from what is known: the component from the text or
through the resolver, the text from the component, the digest from the text, the name from the
component.
-/
namespace TaskGraph

inductive HydrationError where
  | unresolvable
  | codec (error : CodecError)
deriving DecidableEq

def HydrationError.message : HydrationError → String
  | .unresolvable => "component reference cannot be resolved to a spec"
  | .codec error => error.message

namespace Reference

def componentToHydrate (codec : Codec) (resolve : Resolver) (r : Reference) :
    Except HydrationError Component :=
  match r.spec, r.text with
  | some c, _ => .ok c
  | none, some text => (codec.deserialize text).mapError .codec
  | none, none =>
    match resolve r with
    | some c => .ok c
    | none => .error .unresolvable

/-- The reference with everything known that can be derived. A hydrated one stays as it is. -/
def hydrate (codec : Codec) (resolve : Resolver) (r : Reference) :
    Except HydrationError Reference :=
  if r.isHydrated then .ok r
  else do
    let c ← r.componentToHydrate codec resolve
    let text ← match r.text with
      | some text => .ok text
      | none => (codec.serialize c).mapError HydrationError.codec
    return { r with
      name := r.name <|> c.name
      digest := some (TaskGraph.digest text)
      spec := some c
      text := some text }

end Reference

end TaskGraph
