import TaskGraph.Codec
import TaskGraph.Component.Identity

/-!
# Resolving references

A resolver gives the component that a reference denotes, as far as it can be had. A catalog is a
resolver over registered components: it goes by the component that the reference holds, by its
digest, by its URL, and last by its text. A registered component gets a new identity, and so does
each component inside it that has none; the others keep theirs, so that a component which two
references share is still one component after it has been registered.
-/
namespace TaskGraph

abbrev Resolver := Reference → Option Component

def Resolver.inline : Resolver := fun r => r.spec

abbrev Registered := { c : Component // c.identity.isSome }

theorem Registered.identity (c : Registered) : ∃ n, c.val.identity = some n :=
  Option.isSome_iff_exists.1 c.property

structure Catalog where
  byDigest : NameMap Registered := ∅
  byUrl : NameMap Registered := ∅
  /-- The number of identities given out; all of them lie below it. -/
  issued : Nat := 0

namespace Catalog

def empty : Catalog := {}

def size (c : Catalog) : Nat := c.byDigest.size

/-- The first number above all that were given out and all that the component has. -/
def next (c : Catalog) (spec : Component) : Nat :=
  spec.identities.foldr (fun n => max (n + 1)) c.issued

/-- The component with new identities, and the catalog without them. -/
def enroll (c : Catalog) (spec : Component) : Catalog × Registered :=
  ({ c with issued := (spec.numbered (c.next spec)).2 },
    ⟨(spec.numbered (c.next spec)).1, by rw [Component.identity_numbered]; rfl⟩)

def register (c : Catalog) (spec : Component) : Catalog × String :=
  let (c, registered) := c.enroll spec
  ({ c with byDigest := c.byDigest.insert spec.digest registered }, spec.digest)

def registerUrl (c : Catalog) (url : String) (spec : Component) : Catalog × String :=
  let (c, registered) := c.enroll spec
  ({ c with
      byDigest := c.byDigest.insert spec.digest registered
      byUrl := c.byUrl.insert url registered }, spec.digest)

/-- The component that a reference denotes. A component read from the text of a reference is a new
one each time. -/
def resolve (c : Catalog) : Resolver := fun r =>
  r.spec <|> (r.digest.bind c.byDigest.get?).map (·.val) <|>
    (r.url.bind c.byUrl.get?).map (·.val) <|> r.text.bind Component.ofText?

theorem resolve_of_spec (c : Catalog) {r : Reference} {spec : Component}
    (h : r.spec = some spec) : c.resolve r = some spec := by
  rw [resolve, h]
  rfl

end Catalog

/-- Where the components of references come from: from the references alone, or from a catalog. -/
inductive Provider where
  | inline
  | catalog (c : Catalog)

namespace Provider

def resolve : Provider → Resolver
  | .inline => .inline
  | .catalog c => c.resolve

/-- A component that a reference resolves to stands in the reference, or comes from a catalog and
has an identity, or is read from the text of the reference. -/
theorem of_resolve {p : Provider} {r : Reference} {c : Component} (h : p.resolve r = some c) :
    r.spec = some c ∨ (∃ n, c.identity = some n) ∨
      ∃ text, r.text = some text ∧ Component.ofText? text = some c := by
  match p with
  | .inline => exact .inl h
  | .catalog k =>
    simp only [resolve, Catalog.resolve, Option.orElse_eq_orElse, Option.orElse_eq_or,
      Option.or_eq_some_iff, Option.map_eq_some_iff, Option.bind_eq_some_iff] at h
    rcases h with h | ⟨-, ⟨e, -, rfl⟩ | ⟨-, ⟨e, -, rfl⟩ | ⟨-, h⟩⟩⟩
    · exact .inl h
    · exact .inr (.inl e.identity)
    · exact .inr (.inl e.identity)
    · exact .inr (.inr h)

def identities : Provider → List Nat
  | .inline => []
  | .catalog c => (c.byDigest.values ++ c.byUrl.values).flatMap (·.val.identities)

end Provider

end TaskGraph
