import TaskGraph.Proofs.Held
import TaskGraph.Proofs.Identity

/-!
# Components without identities

An identity is no part of what a component says. Without the identities two components are equal if
they say the same; a component that has none is left as it is. Neither the text of a component nor
the component behind its numbers depends on them.
-/
namespace TaskGraph

mutual

/-- The component, and all components in it, without identities. -/
def Component.anonymous : Component → Component
  | ⟨name, description, inputs, outputs, none, metadata, _⟩ =>
    ⟨name, description, inputs, outputs, none, metadata, none⟩
  | ⟨name, description, inputs, outputs, some i, metadata, _⟩ =>
    ⟨name, description, inputs, outputs, some i.anonymous, metadata, none⟩

def Implementation.anonymous : Implementation → Implementation
  | .container c => .container c
  | .graph g => .graph g.anonymous

def Graph.anonymous : Graph → Graph
  | ⟨tasks, outputValues⟩ => ⟨anonymousTasks tasks, outputValues⟩

def anonymousTasks : {lo : Option String} → NameMap.From Task lo → NameMap.From Task lo
  | _, .nil => .nil
  | _, .cons id t h rest => .cons id t.anonymous h (anonymousTasks rest)

def Task.anonymous : Task → Task
  | ⟨reference, arguments, annotations, execution⟩ =>
    ⟨reference.anonymous, arguments, annotations, execution⟩

def Reference.anonymous : Reference → Reference
  | ⟨name, digest, url, none, text⟩ => ⟨name, digest, url, none, text⟩
  | ⟨name, digest, url, some c, text⟩ => ⟨name, digest, url, some c.anonymous, text⟩

end

theorem anonymousTasks_eq {lo : Option String} (tasks : NameMap.From Task lo) :
    anonymousTasks tasks = tasks.map fun _ t => t.anonymous := by
  induction tasks with
  | nil => rfl
  | cons id t h rest ih => rw [anonymousTasks, ih, NameMap.From.map]

theorem Component.anonymous_eq (c : Component) :
    c.anonymous = { c with
      implementation := c.implementation.map (·.anonymous), identity := none } := by
  obtain ⟨name, description, inputs, outputs, implementation, metadata, identity⟩ := c
  cases implementation <;> rfl

theorem Graph.anonymous_eq (g : Graph) :
    g.anonymous = { g with tasks := g.tasks.map fun _ t => t.anonymous } := by
  obtain ⟨tasks, outputValues⟩ := g
  rw [anonymous, anonymousTasks_eq]

theorem Task.anonymous_eq (t : Task) :
    t.anonymous = { t with reference := t.reference.anonymous } := by
  cases t
  rfl

theorem Reference.anonymous_eq (r : Reference) :
    r.anonymous = { r with spec := r.spec.map (·.anonymous) } := by
  obtain ⟨name, digest, url, spec, text⟩ := r
  cases spec <;> rfl

theorem Task.anonymous_eq_self {t : Task} (h : ∀ c, t.reference.spec = some c → c.anonymous = c) :
    t.anonymous = t := by
  obtain ⟨⟨name, digest, url, spec, text⟩, arguments, annotations, execution⟩ := t
  cases spec with
  | none => rfl
  | some c => rw [anonymous, Reference.anonymous, h c rfl]

theorem Graph.anonymous_eq_self {g : Graph} (h : ∀ id t, g.task? id = some t → t.anonymous = t) :
    g.anonymous = g := by
  have htasks : (g.tasks.map fun _ t => t.anonymous) = g.tasks := by
    ext id t
    rw [NameMap.From.get?_map]
    cases hid : g.tasks.get? id with
    | none => rfl
    | some t => rw [Option.map_some, h id t hid]
  rw [anonymous_eq, htasks]
  cases g
  rfl

/-- Without identities there is nothing to take away. -/
theorem Component.anonymous_eq_self (c : Component) (h : c.identities = []) : c.anonymous = c := by
  induction c using held_induction with
  | step c ih =>
    have hidentity : c.identity = none := by
      cases hc : c.identity with
      | none => rfl
      | some n =>
        have hn := mem_identities hc
        rw [h] at hn
        cases hn
    have himplementation : c.implementation.map (·.anonymous) = c.implementation := by
      cases hc : c.implementation with
      | none => rfl
      | some i =>
        cases i with
        | container container => rfl
        | graph g =>
          have hg := graph?_eq_some_iff.2 hc
          have htasks : g.anonymous = g := by
            refine Graph.anonymous_eq_self fun id t ht => Task.anonymous_eq_self fun d hd => ?_
            have hsubset := identities_subset_of_spec hg ht hd
            rw [h] at hsubset
            exact ih d ⟨g, id, t, hg, ht, hd⟩ (List.eq_nil_of_subset_nil hsubset)
          rw [Option.map_some, Implementation.anonymous, htasks]
    rw [anonymous_eq, himplementation, ← hidentity]
    cases c
    rfl

mutual

/-- No text shows an identity. -/
theorem Component.document_anonymous (c : Component) : c.anonymous.document = c.document := by
  match c with
  | ⟨name, description, inputs, outputs, none, metadata, _⟩ => rfl
  | ⟨name, description, inputs, outputs, some i, metadata, _⟩ =>
    simp only [Component.anonymous, Component.document, i.document_anonymous]

theorem Implementation.document_anonymous (i : Implementation) :
    i.anonymous.document = i.document := by
  match i with
  | .container c => rfl
  | .graph g => simp only [Implementation.anonymous, Implementation.document, g.document_anonymous]

theorem Graph.document_anonymous (g : Graph) : g.anonymous.document = g.document := by
  match g with
  | ⟨tasks, outputValues⟩ =>
    simp only [Graph.anonymous, Graph.document, taskMembers_anonymousTasks tasks]

theorem taskMembers_anonymousTasks {lo : Option String} (tasks : NameMap.From Task lo) :
    taskMembers (anonymousTasks tasks) = taskMembers tasks := by
  match tasks with
  | .nil => rfl
  | .cons id t h rest =>
    simp only [anonymousTasks, taskMembers, t.document_anonymous, taskMembers_anonymousTasks rest]

theorem Task.document_anonymous (t : Task) : t.anonymous.document = t.document := by
  match t with
  | ⟨reference, arguments, annotations, execution⟩ =>
    simp only [Task.anonymous, Task.document, reference.document_anonymous]

theorem Reference.document_anonymous (r : Reference) : r.anonymous.document = r.document := by
  match r with
  | ⟨name, digest, url, none, text⟩ => rfl
  | ⟨name, digest, url, some c, text⟩ =>
    simp only [Reference.anonymous, Reference.document, c.document_anonymous]

end

mutual

/-- Numbering changes nothing but the identities. -/
theorem Component.anonymous_numbered (next : Nat) (c : Component) :
    (c.numbered next).1.anonymous = c.anonymous := by
  match c with
  | ⟨name, description, inputs, outputs, none, metadata, _⟩ => rfl
  | ⟨name, description, inputs, outputs, some i, metadata, _⟩ =>
    simp only [Component.numbered, Component.anonymous, i.anonymous_numbered]

theorem Implementation.anonymous_numbered (next : Nat) (i : Implementation) :
    (i.numbered next).1.anonymous = i.anonymous := by
  match i with
  | .container c => rfl
  | .graph g => simp only [Implementation.numbered, Implementation.anonymous, g.anonymous_numbered]

theorem Graph.anonymous_numbered (next : Nat) (g : Graph) :
    (g.numbered next).1.anonymous = g.anonymous := by
  match g with
  | ⟨tasks, outputValues⟩ =>
    simp only [Graph.numbered, Graph.anonymous, anonymousTasks_numberedTasks next tasks]

theorem anonymousTasks_numberedTasks (next : Nat) {lo : Option String}
    (tasks : NameMap.From Task lo) :
    anonymousTasks (numberedTasks next tasks).1 = anonymousTasks tasks := by
  match tasks with
  | .nil => rfl
  | .cons id t h rest =>
    simp only [numberedTasks, anonymousTasks, t.anonymous_numbered,
      anonymousTasks_numberedTasks _ rest]

theorem Task.anonymous_numbered (next : Nat) (t : Task) :
    (t.numbered next).1.anonymous = t.anonymous := by
  match t with
  | ⟨reference, arguments, annotations, execution⟩ =>
    simp only [Task.numbered, Task.anonymous, reference.anonymous_numbered]

theorem Reference.anonymous_numbered (next : Nat) (r : Reference) :
    (r.numbered next).1.anonymous = r.anonymous := by
  match r with
  | ⟨name, digest, url, none, text⟩ => rfl
  | ⟨name, digest, url, some c, text⟩ =>
    by_cases hc : c.identity.isSome
    · simp only [Reference.numbered, if_pos hc]
    · simp only [Reference.numbered, if_neg hc, Reference.anonymous, c.anonymous_numbered]

end

end TaskGraph
