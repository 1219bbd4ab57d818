import TaskGraph.Proofs.Held
import TaskGraph.Proofs.Validation.Search

/-!
# The search below a component ends

Components of the catalog may refer to themselves and to each other, and a text may hold components
that hold texts. The search ends all the same: a component of the catalog or of the root is entered
once, and any other one is lighter than its caller, as it is read from a text in there or stands in
a component that has been read.
-/
namespace TaskGraph

mutual

def Component.allocations (place : Allocation) : Component → List Allocation
  | ⟨_, _, _, _, none, _, identity⟩ => [identity.elim place .shared]
  | ⟨_, _, _, _, some i, _, identity⟩ =>
    identity.elim place .shared :: i.allocations (identity.elim place .shared)

def Implementation.allocations (owner : Allocation) : Implementation → List Allocation
  | .container _ => []
  | .graph ⟨tasks, _⟩ => allocationsOfTasks owner tasks

def allocationsOfTasks (owner : Allocation) :
    {lo : Option String} → NameMap.From Task lo → List Allocation
  | _, .nil => []
  | _, .cons id t _ rest => t.allocations (.placed owner id) ++ allocationsOfTasks owner rest

def Task.allocations (place : Allocation) : Task → List Allocation
  | ⟨reference, _, _, _⟩ => reference.allocations place

def Reference.allocations (place : Allocation) : Reference → List Allocation
  | ⟨_, _, _, none, _⟩ => []
  | ⟨_, _, _, some c, _⟩ => c.allocations place

end

theorem allocationsOfTasks_eq (owner : Allocation) {lo : Option String}
    (tasks : NameMap.From Task lo) :
    allocationsOfTasks owner tasks =
      tasks.toList.flatMap fun e => e.2.allocations (.placed owner e.1) := by
  induction tasks with
  | nil => rfl
  | cons id t h rest ih => rw [allocationsOfTasks, NameMap.From.toList, List.flatMap_cons, ih]

theorem Task.allocations_of_spec {t : Task} {c : Component} (h : t.reference.spec = some c)
    (place : Allocation) : t.allocations place = c.allocations place := by
  obtain ⟨⟨name, digest, url, spec, text⟩, arguments, annotations, execution⟩ := t
  obtain rfl : spec = some c := h
  rfl

namespace Component

variable {c d : Component} {place : Allocation}

theorem allocation_mem_allocations : c.allocation place ∈ c.allocations place := by
  obtain ⟨name, description, inputs, outputs, implementation, metadata, identity⟩ := c
  cases implementation with
  | none => exact List.mem_singleton_self _
  | some i => exact List.mem_cons_self

theorem allocations_of_graph? {g : Graph} (hg : c.graph? = some g) :
    c.allocations place =
      c.allocation place :: allocationsOfTasks (c.allocation place) g.tasks := by
  obtain ⟨name, description, inputs, outputs, implementation, metadata, identity⟩ := c
  cases implementation with
  | none => cases hg
  | some i =>
    cases i with
    | container container => cases hg
    | graph g' =>
      obtain rfl : g' = g := Option.some.inj hg
      obtain ⟨tasks, outputValues⟩ := g'
      rfl

theorem allocations_subset_of_spec {g : Graph} (hg : c.graph? = some g) {id : String} {t : Task}
    (ht : g.task? id = some t) (hd : t.reference.spec = some d) :
    d.allocations (.placed (c.allocation place) id) ⊆ c.allocations place := by
  intro a ha
  rw [allocations_of_graph? hg, allocationsOfTasks_eq]
  refine List.mem_cons_of_mem _ (List.mem_flatMap.2
    ⟨(id, t), NameMap.From.mem_toList_iff.2 ht, ?_⟩)
  rwa [Task.allocations_of_spec hd]

theorem allocations_of_identity {n : Nat} (h : c.identity = some n) (p q : Allocation) :
    c.allocations p = c.allocations q := by
  obtain ⟨name, description, inputs, outputs, implementation, metadata, identity⟩ := c
  obtain rfl : identity = some n := h
  cases implementation <;> rfl

end Component

namespace Call

variable {provider : Provider} {root : Component} {k l : Call}

/-- The allocations that are there before the search: those of the root and of the catalog. -/
def lasting (provider : Provider) (root : Component) : List Allocation :=
  root.allocations .root ++ provider.registered.flatMap (·.val.allocations .root)

/-- The component is read from a text during the search, or stands in one that is. -/
inductive Decoded (provider : Provider) : Call → Prop
  | read {k l : Call} {text : String} (child : l ∈ k.children provider)
      (held : k.component.HoldsText text) (read : Component.ofText? text = some l.component) :
      Decoded provider l
  | inside {k l : Call} (caller : Decoded provider k) (child : l ∈ k.children provider)
      (held : k.component.Holds l.component) : Decoded provider l

/-- The component and all components inside it are there before the search. -/
def Lasts (provider : Provider) (root : Component) (k : Call) : Prop :=
  k.component.allocations k.place ⊆ lasting provider root

theorem Lasts.allocation_mem (h : k.Lasts provider root) : k.allocation ∈ lasting provider root :=
  h Component.allocation_mem_allocations

theorem lasts_or_of_mem_children (hk : k.Lasts provider root ∨ k.Decoded provider)
    (hl : l ∈ k.children provider) :
    l.Lasts provider root ∨
      (∃ text, k.component.HoldsText text ∧ Component.ofText? text = some l.component) ∨
      k.Decoded provider ∧ k.component.Holds l.component := by
  obtain ⟨g, id, t, hg, ht, hresolve, -, -, hplace⟩ := mem_children_iff.1 hl
  rcases Provider.resolve_cases hresolve with hspec | ⟨e, he, heq⟩ | ⟨text, htext, hread⟩
  · rcases hk with hk | hk
    · left
      rw [Lasts, hplace]
      exact List.Subset.trans (Component.allocations_subset_of_spec hg ht hspec) hk
    · exact .inr (.inr ⟨hk, g, id, t, hg, ht, hspec⟩)
  · left
    intro a ha
    obtain ⟨n, hn⟩ := e.identity
    rw [← heq, Component.allocations_of_identity hn l.place .root] at ha
    exact List.mem_append_right _ (List.mem_flatMap.2 ⟨e, he, ha⟩)
  · exact .inr (.inl ⟨text, ⟨g, id, t, hg, ht, htext⟩, hread⟩)

end Call

namespace Search

variable {provider : Provider} {root : Component} {s : Search} {k : Call} {rest : List Call}

theorem lasts_or_decoded (h : (start root).Leads provider s) :
    ∀ k ∈ s.entered ++ s.agenda, k.Lasts provider root ∨ k.Decoded provider := by
  refine calls_induction (.inl (List.subset_append_left _ _)) (fun k l hk hl => ?_) h
  rcases Call.lasts_or_of_mem_children hk hl with hlasts | ⟨text, hheld, hread⟩ | ⟨hk, hheld⟩
  · exact .inl hlasts
  · exact .inr (.read hl hheld hread)
  · exact .inr (.inside hk hl hheld)

/-- A call enters a component that is there before the search, or its component is lighter than its
caller's: it is read from a text in there, or stands there and the caller's has been read. -/
theorem enters_cases (h : (start root).Leads provider s) (hagenda : s.agenda = k :: rest) :
    k.allocation ∈ Call.lasting provider root ∨
      ∃ b ∈ s.entered, k ∈ b.children provider ∧ k.component.weight < b.component.weight ∧
        ((∃ text, b.component.HoldsText text ∧ text.length < b.component.weight ∧
            Component.ofText? text = some k.component ∧ k.component.weight ≤ text.length) ∨
          b.Decoded provider ∧ b.component.Holds k.component) := by
  have hsound := sound_start.leads h
  have hk : k ∈ s.entered ++ s.agenda := by simp [hagenda]
  rcases hsound.called k hk with rfl | ⟨b, hb, hchild⟩
  · exact .inl (List.mem_append_left _ Component.allocation_mem_allocations)
  · have hb' := lasts_or_decoded h b (List.mem_append_left _ hb)
    rcases Call.lasts_or_of_mem_children hb' hchild with
      hlasts | ⟨text, hheld, hread⟩ | ⟨hb', hheld⟩
    · exact .inl hlasts.allocation_mem
    · have hlength := hheld.length_lt
      have hweight := Component.weight_le_of_ofText? hread
      exact .inr ⟨b, hb, hchild, Nat.lt_of_le_of_lt hweight hlength,
        .inl ⟨text, hheld, hlength, hread, hweight⟩⟩
    · exact .inr ⟨b, hb, hchild, hheld.weight_lt, .inr ⟨hb', hheld⟩⟩

end Search

/-- Whatever the components refer to, the search below a component comes to an end, where the calls
that have entered are the visits of the recursive check. On the way every call returns at once, on a
component with an identity that has been entered, or it enters an allocation for the first time:
one of the finitely many that are there before the search, or one whose component is lighter than
that of its caller, since it is read from a text in there or stands in a component that is decoded
itself. -/
theorem Component.search_terminates (provider : Provider) (root : Component) :
    (WellFounded fun t s : Search => s.next provider = some t) ∧
    (∃ s, (Search.start root).Leads provider s ∧ s.agenda = [] ∧
      s.entered.map (·.toVisit) = root.visits provider) ∧
    ∀ s k rest, (Search.start root).Leads provider s → s.agenda = k :: rest →
      (k.allocation ∈ s.allocations ∧ k.component.identity.isSome ∧
        s.next provider = some ⟨s.entered, rest⟩) ∨
      (k.allocation ∉ s.allocations ∧
        s.next provider = some ⟨s.entered ++ [k], k.children provider ++ rest⟩ ∧
        (k.allocation ∈ Call.lasting provider root ∨
          ∃ b ∈ s.entered, k ∈ b.children provider ∧ k.component.weight < b.component.weight ∧
            ((∃ text, b.component.HoldsText text ∧ text.length < b.component.weight ∧
                Component.ofText? text = some k.component ∧ k.component.weight ≤ text.length) ∨
              b.Decoded provider ∧ b.component.Holds k.component))) := by
  refine ⟨Search.wellFounded_next provider, root.exists_search provider,
    fun s k rest hleads hagenda => ?_⟩
  have hsound := Search.sound_start.leads hleads
  by_cases hentered : k.allocation ∈ s.allocations
  · exact .inl ⟨hentered, hsound.identity_isSome_of_entered hagenda hentered,
      Search.next_of_mem hagenda hentered⟩
  · exact .inr ⟨hentered, Search.next_of_notMem hagenda hentered,
      Search.enters_cases hleads hagenda⟩

end TaskGraph
