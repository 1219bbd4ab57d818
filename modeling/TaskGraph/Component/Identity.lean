import TaskGraph.Component.Basic

/-!
# Identities of components

Components that say the same may still be different ones, and one component may occur in several
places. An identity tells them apart. Numbering gives a component a new identity, and so it does
each component inside it that has none yet; one that has keeps it, with everything inside it.
-/
namespace TaskGraph

mutual

/-- Numbers a component, and the components inside it that have no identity, from `next` on, and
gives the number after the last. -/
def Component.numbered (next : Nat) : Component → Component × Nat
  | ⟨name, description, inputs, outputs, implementation, metadata, _⟩ =>
    match implementation with
    | none => (⟨name, description, inputs, outputs, none, metadata, some next⟩, next + 1)
    | some i =>
      let (i, after) := i.numbered (next + 1)
      (⟨name, description, inputs, outputs, some i, metadata, some next⟩, after)

def Implementation.numbered (next : Nat) : Implementation → Implementation × Nat
  | .container c => (.container c, next)
  | .graph g =>
    let (g, after) := g.numbered next
    (.graph g, after)

def Graph.numbered (next : Nat) : Graph → Graph × Nat
  | ⟨tasks, outputValues⟩ =>
    let (tasks, after) := numberedTasks next tasks
    (⟨tasks, outputValues⟩, after)

def numberedTasks (next : Nat) :
    {lo : Option String} → NameMap.From Task lo → NameMap.From Task lo × Nat
  | _, .nil => (.nil, next)
  | _, .cons id t h rest =>
    let (t, next) := t.numbered next
    let (rest, after) := numberedTasks next rest
    (.cons id t h rest, after)

def Task.numbered (next : Nat) : Task → Task × Nat
  | ⟨reference, arguments, annotations, execution⟩ =>
    let (reference, after) := reference.numbered next
    (⟨reference, arguments, annotations, execution⟩, after)

def Reference.numbered (next : Nat) : Reference → Reference × Nat
  | ⟨name, digest, url, spec, text⟩ =>
    match spec with
    | none => (⟨name, digest, url, none, text⟩, next)
    | some c =>
      if c.identity.isSome then
        (⟨name, digest, url, some c, text⟩, next)
      else
        let (c, after) := c.numbered next
        (⟨name, digest, url, some c, text⟩, after)

end

theorem Component.identity_numbered (c : Component) (next : Nat) :
    (c.numbered next).1.identity = some next := by
  obtain ⟨name, description, inputs, outputs, implementation, metadata, identity⟩ := c
  cases implementation <;> rfl

mutual

/-- The identities of a component and of the components inside it. -/
def Component.identities : Component → List Nat
  | ⟨_, _, _, _, none, _, identity⟩ => identity.toList
  | ⟨_, _, _, _, some i, _, identity⟩ => identity.toList ++ i.identities

def Implementation.identities : Implementation → List Nat
  | .container _ => []
  | .graph ⟨tasks, _⟩ => identitiesOfTasks tasks

def identitiesOfTasks : {lo : Option String} → NameMap.From Task lo → List Nat
  | _, .nil => []
  | _, .cons _ t _ rest => t.identities ++ identitiesOfTasks rest

def Task.identities : Task → List Nat
  | ⟨reference, _, _, _⟩ => reference.identities

def Reference.identities : Reference → List Nat
  | ⟨_, _, _, none, _⟩ => []
  | ⟨_, _, _, some c, _⟩ => c.identities

end

end TaskGraph
