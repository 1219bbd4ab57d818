import TaskGraph.Catalog
import TaskGraph.Proofs.Graph

/-!
# Closed components

A component is sound if its names are distinct and its graph has no dangling edge: every edge starts
at a declared input or at a declared output of an existing task, and only declared outputs are
bound. It is closed if it is sound and so are all graphs inside it, at any depth, as far as the
references of the tasks resolve.
-/
namespace TaskGraph

namespace Graph

/-- The task exists and, if its component resolves, this declares the output. -/
def provides (g : Graph) (resolve : Resolver) (o : TaskOutput) : Bool :=
  match g.task? o.task with
  | none => false
  | some t =>
    match resolve t.reference with
    | none => true
    | some c => c.hasOutput o.output

/-- What the argument reads exists, in a graph that implements `c`. -/
def Supplies (g : Graph) (resolve : Resolver) (c : Component) : Argument → Prop
  | .literal _ => True
  | .secret _ => True
  | .graphInput name => c.hasInput name
  | .taskOutput o => g.provides resolve o

def instances (g : Graph) (resolve : Resolver) : List Component :=
  g.tasks.values.filterMap fun t => resolve t.reference

/-- A graph that implements `c` has no dangling edges. -/
structure WellWired (resolve : Resolver) (c : Component) (g : Graph) : Prop where
  inputs : ∀ x ∈ g.referencedInputs.keys, c.hasInput x
  sources : ∀ r ∈ g.references, g.provides resolve r.2
  bindings : ∀ name ∈ g.outputValues.keys, c.hasOutput name

variable {g : Graph} {resolve : Resolver}

theorem provides_iff {o : TaskOutput} :
    g.provides resolve o ↔ ∃ t, g.task? o.task = some t ∧
      ∀ c, resolve t.reference = some c → c.hasOutput o.output := by
  rw [provides]
  cases g.task? o.task with
  | none => simp
  | some t => cases hc : resolve t.reference <;> simp [hc]

theorem mem_instances_iff {c : Component} :
    c ∈ g.instances resolve ↔ ∃ id t, g.task? id = some t ∧ resolve t.reference = some c := by
  rw [instances, List.mem_filterMap]
  constructor
  · rintro ⟨t, ht, hc⟩
    obtain ⟨id, hid⟩ := NameMap.From.mem_values_iff.1 ht
    exact ⟨id, t, hid, hc⟩
  · rintro ⟨id, t, hid, hc⟩
    exact ⟨t, NameMap.From.mem_values_iff.2 ⟨id, hid⟩, hc⟩

theorem containsTask_of_provides {o : TaskOutput} (h : g.provides resolve o) :
    g.containsTask o.task := by
  obtain ⟨t, ht, -⟩ := provides_iff.1 h
  exact containsTask_iff.2 ⟨t, ht⟩

theorem provides_of_task? {g' : Graph} {o o' : TaskOutput} {t t' : Task}
    (h : g.provides resolve o) (ht : g.task? o.task = some t) (ht' : g'.task? o'.task = some t')
    (hreference : t'.reference = t.reference) (houtput : o'.output = o.output) :
    g'.provides resolve o' := by
  obtain ⟨t₀, ht₀, hprovides⟩ := provides_iff.1 h
  rw [ht, Option.some.injEq] at ht₀
  subst ht₀
  refine provides_iff.2 ⟨t', ht', fun c hc => ?_⟩
  rw [houtput]
  exact hprovides c (hreference ▸ hc)

namespace WellWired

variable {c : Component}

theorem hasInput (h : g.WellWired resolve c) {id name x : String}
    (hread : g.argument? id name = some (.graphInput x)) : c.hasInput x :=
  h.inputs x (NameMap.From.mem_keys_iff_contains.2
    (contains_referencedInputs_iff.2 ⟨id, name, hread⟩))

theorem provides_source (h : g.WellWired resolve c) {site : Site} {o : TaskOutput}
    (hsource : g.source? site = some o) : g.provides resolve o :=
  h.sources (site, o) (mem_references_iff.2 hsource)

theorem hasOutput (h : g.WellWired resolve c) {name : String} {o : TaskOutput}
    (ho : g.outputValues.get? name = some o) : c.hasOutput name :=
  h.bindings name (NameMap.From.mem_keys_iff.2 ⟨o, ho⟩)

theorem supplies (h : g.WellWired resolve c) {id name : String} {a : Argument}
    (ha : g.argument? id name = some a) : g.Supplies resolve c a := by
  cases a with
  | literal value => exact trivial
  | secret secret => exact trivial
  | graphInput x => exact h.hasInput ha
  | taskOutput o => exact h.provides_source (source?_argument_eq_some_iff.2 ha)

theorem of_reads
    (harguments : ∀ id name a, g.argument? id name = some a → g.Supplies resolve c a)
    (hbindings : ∀ name o, g.outputValues.get? name = some o →
      g.provides resolve o ∧ c.hasOutput name) : g.WellWired resolve c where
  inputs := by
    intro x hx
    rw [NameMap.From.mem_keys_iff_contains, contains_referencedInputs_iff] at hx
    obtain ⟨id, name, hread⟩ := hx
    exact harguments id name _ hread
  sources := by
    rintro ⟨site, o⟩ hr
    have hsource := mem_references_iff.1 hr
    cases site with
    | argument id name => exact harguments id name _ (source?_argument_eq_some_iff.1 hsource)
    | output name => exact (hbindings name o hsource).1
  bindings := by
    intro name hname
    obtain ⟨o, ho⟩ := NameMap.From.mem_keys_iff.1 hname
    exact (hbindings name o ho).2

end WellWired

end Graph

namespace Component

structure Sound (resolve : Resolver) (c : Component) : Prop where
  inputs : (c.inputs.map (·.name)).Nodup
  outputs : (c.outputs.map (·.name)).Nodup
  wired : ∀ g, c.graph? = some g → g.WellWired resolve c

/-- The component stands inside another one, at some depth, or is the same. -/
inductive Reaches (resolve : Resolver) : Component → Component → Prop
  | refl (c : Component) : Reaches resolve c c
  | step {c d e : Component} {g : Graph} (hg : c.graph? = some g) (hd : d ∈ g.instances resolve)
      (h : Reaches resolve d e) : Reaches resolve c e

/-- All graphs inside the component are sound, and so is it, if it is a graph. -/
def ClosedInside (resolve : Resolver) (c : Component) : Prop :=
  ∀ d, Reaches resolve c d → d.isGraph → d.Sound resolve

/-- The component and all graphs inside it are sound. -/
def Closed (resolve : Resolver) (c : Component) : Prop :=
  c.Sound resolve ∧ c.ClosedInside resolve

variable {resolve : Resolver} {c : Component} {g : Graph}

theorem closedInside_iff (hg : c.graph? = some g) :
    c.ClosedInside resolve ↔
      c.Sound resolve ∧ ∀ d ∈ g.instances resolve, d.ClosedInside resolve := by
  constructor
  · intro h
    have hgraph : c.isGraph := by rw [isGraph, hg, Option.isSome_some]
    exact ⟨h c (.refl c) hgraph, fun d hd e he => h e (.step hg hd he)⟩
  · rintro ⟨hsound, hinside⟩ e he hgraph
    cases he with
    | refl => exact hsound
    | step hg' hd he =>
      obtain rfl := Option.some.inj (hg.symm.trans hg')
      exact hinside _ hd e he hgraph

theorem closed_iff (hg : c.graph? = some g) : c.Closed resolve ↔ c.ClosedInside resolve := by
  constructor
  · exact fun h => h.2
  · exact fun h => ⟨((closedInside_iff hg).1 h).1, h⟩

end Component

end TaskGraph
