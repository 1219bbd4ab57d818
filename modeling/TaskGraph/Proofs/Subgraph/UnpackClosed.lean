import TaskGraph.Proofs.Closed
import TaskGraph.Proofs.Subgraph.UnpackWiring

/-!
# Unpacking keeps a component closed

Unpacking merges a nested graph into its parent. An edge that is followed through the wrapper starts
at a renamed inner task or at a sibling of the wrapper, and the new inputs and outputs are declared
under names of their own.
-/
namespace TaskGraph

variable {resolve : Resolver}

namespace UnpackedWiring

variable {parent : Component} {outer : Graph} {wrapperId : String} {wrapper : Task}
  {nested : Component} {inner : Graph} {result : Component} {graph : Graph}
  {rename inputName : String → String}
  (w : UnpackedWiring parent outer wrapperId wrapper nested inner result graph rename inputName)

include w

theorem provides_inner {o : TaskOutput} (ho : inner.provides resolve o) :
    graph.provides resolve ⟨rename o.task, o.output⟩ := by
  obtain ⟨t, ht, -⟩ := Graph.provides_iff.1 ho
  obtain ⟨arguments, annotations, -, hcopy⟩ := w.inner_task o.task t ht
  exact Graph.provides_of_task? ho ht hcopy rfl rfl

theorem provides_followed (hinner : inner.WellWired resolve nested) {o o' : TaskOutput}
    (ho : outer.provides resolve o) (hfollowed : Followed rename wrapperId inner o (some o')) :
    graph.provides resolve o' := by
  cases hfollowed with
  | kept hother =>
    obtain ⟨t, ht, -⟩ := Graph.provides_iff.1 ho
    obtain ⟨arguments, hsibling⟩ := w.sibling_task o.task t hother ht
    exact Graph.provides_of_task? ho ht hsibling rfl rfl
  | @bound output source hbinding =>
    have hsource : inner.source? (.output output) = some source := hbinding
    exact w.provides_inner (hinner.provides_source hsource)

theorem hasInput_of_parent {x : String} (hx : parent.hasInput x) : result.hasInput x := by
  rw [Component.hasInput_iff] at hx ⊢
  exact (w.inputs_kept.map _).subset hx

theorem hasOutput_of_parent {name : String} (hname : parent.hasOutput name) :
    result.hasOutput name := by
  rw [Component.hasOutput_iff] at hname ⊢
  exact (w.outputs_kept.map _).subset hname

theorem supplies_followed (hinner : inner.WellWired resolve nested) {a b : Argument}
    (ha : outer.Supplies resolve parent a)
    (hfollowed : a.Followed (Followed rename wrapperId inner) (some b)) :
    graph.Supplies resolve result b := by
  generalize hb : some b = b' at hfollowed
  cases hfollowed with
  | literal value =>
    obtain rfl := Option.some.inj hb
    exact trivial
  | secret secret =>
    obtain rfl := Option.some.inj hb
    exact trivial
  | graphInput x =>
    obtain rfl := Option.some.inj hb
    exact w.hasInput_of_parent ha
  | taskOutput hr =>
    obtain ⟨o', rfl, rfl⟩ := Option.map_eq_some_iff.1 hb.symm
    exact w.provides_followed hinner ha hr

theorem supplies_spliced (hwrapper : outer.task? wrapperId = some wrapper)
    (houter : outer.WellWired resolve parent) (hinner : inner.WellWired resolve nested)
    {a b : Argument} (ha : inner.Supplies resolve nested a)
    (hspliced : Spliced rename inputName wrapperId wrapper nested inner parent result a (some b)) :
    graph.Supplies resolve result b := by
  cases hspliced with
  | literal value => exact trivial
  | secret secret => exact trivial
  | taskOutput o => exact w.provides_inner ha
  | fedLiteral hdeclared hfed hagree hnew hinput => exact Component.hasInput_of_input? hinput
  | unfed hdeclared hunfed hagree hnew hinput => exact Component.hasInput_of_input? hinput
  | @fed x a' _ hfed hliteral hfollowed =>
    have hread : outer.argument? wrapperId x = some a' := by
      rw [Graph.argument?_of_task? hwrapper, hfed]
    exact w.supplies_followed hinner (houter.supplies hread) hfollowed

theorem supplies_argument? (hwrapper : outer.task? wrapperId = some wrapper)
    (houter : outer.WellWired resolve parent) (hinner : inner.WellWired resolve nested)
    {id name : String} {b : Argument} (hb : graph.argument? id name = some b) :
    graph.Supplies resolve result b := by
  rcases (w.tasks id).1 (Graph.containsTask_of_argument? hb) with ⟨i, hi, rfl⟩ | ⟨hid, hne⟩
  · cases ha : inner.argument? i name with
    | none =>
      rw [w.inner_missing i name hi ha] at hb
      cases hb
    | some a =>
      have hspliced := w.inner_argument i name a ha
      rw [hb] at hspliced
      exact w.supplies_spliced hwrapper houter hinner (hinner.supplies ha) hspliced
  · cases ha : outer.argument? id name with
    | none =>
      rw [w.sibling_missing id name hne hid ha] at hb
      cases hb
    | some a =>
      have hfollowed := w.sibling_argument id name a hne ha
      rw [hb] at hfollowed
      exact w.supplies_followed hinner (houter.supplies ha) hfollowed

/-- A binding of the result is one of the parent that has been followed, or a nested one. -/
theorem supplies_binding (houter : outer.WellWired resolve parent)
    (hinner : inner.WellWired resolve nested) {name : String} {o : TaskOutput}
    (ho : graph.outputValues.get? name = some o) :
    graph.provides resolve o ∧ result.hasOutput name := by
  cases hold : outer.outputValues.get? name with
  | none =>
    obtain ⟨hdeclared, output, source, -, -, hbinding, rfl⟩ := w.new_binding name o hold ho
    have hread : inner.source? (.output output) = some source := hbinding
    exact ⟨w.provides_inner (hinner.provides_source hread), hdeclared⟩
  | some o₀ =>
    have hfollowed := w.binding name o₀ hold
    rw [ho] at hfollowed
    have hread : outer.source? (.output name) = some o₀ := hold
    exact ⟨w.provides_followed hinner (houter.provides_source hread) hfollowed,
      w.hasOutput_of_parent (houter.hasOutput hold)⟩

theorem wellWired (hwrapper : outer.task? wrapperId = some wrapper)
    (houter : outer.WellWired resolve parent) (hinner : inner.WellWired resolve nested) :
    graph.WellWired resolve result := by
  apply Graph.WellWired.of_reads
  · exact fun id name b hb => w.supplies_argument? hwrapper houter hinner hb
  · exact fun name o ho => w.supplies_binding houter hinner ho

theorem task_cases {k : String} {t : Task} (ht : graph.task? k = some t) :
    (∃ i t₀, rename i = k ∧ inner.task? i = some t₀ ∧ t.reference = t₀.reference) ∨
      ∃ t₀, k ≠ wrapperId ∧ outer.task? k = some t₀ ∧ t.reference = t₀.reference := by
  rcases (w.tasks k).1 (Graph.containsTask_iff.2 ⟨t, ht⟩) with ⟨i, hi, rfl⟩ | ⟨hk, hne⟩
  · obtain ⟨t₀, ht₀⟩ := Graph.containsTask_iff.1 hi
    obtain ⟨arguments, annotations, -, hcopy⟩ := w.inner_task i t₀ ht₀
    obtain rfl := Option.some.inj (hcopy.symm.trans ht)
    exact .inl ⟨i, t₀, rfl, ht₀, rfl⟩
  · obtain ⟨t₀, ht₀⟩ := Graph.containsTask_iff.1 hk
    obtain ⟨arguments, hsibling⟩ := w.sibling_task k t₀ hne ht₀
    obtain rfl := Option.some.inj (hsibling.symm.trans ht)
    exact .inr ⟨t₀, hne, ht₀, rfl⟩

/-- The tasks of the result instantiate what those of the parent and of the nested graph did. -/
theorem mem_instances {d : Component} (hd : d ∈ graph.instances resolve) :
    d ∈ inner.instances resolve ∨ d ∈ outer.instances resolve := by
  obtain ⟨id, t, ht, hresolve⟩ := Graph.mem_instances_iff.1 hd
  rcases w.task_cases ht with ⟨i, t₀, -, ht₀, heq⟩ | ⟨t₀, -, ht₀, heq⟩
  · exact .inl (Graph.mem_instances_iff.2 ⟨i, t₀, ht₀, heq ▸ hresolve⟩)
  · exact .inr (Graph.mem_instances_iff.2 ⟨id, t₀, ht₀, heq ▸ hresolve⟩)

end UnpackedWiring

namespace Unpacking

variable {u : Unpacking}

/-- Unpacking a graph keeps a component closed. -/
theorem closed_result (hparent : u.parent.graph? = some u.outer)
    (hwrapper : u.outer.task? u.wrapperId = some u.wrapper)
    (hresolve : resolve u.wrapper.reference = some u.nested)
    (hnested : u.nested.graph? = some u.inner) (hclosed : u.parent.Closed resolve) :
    u.result.Closed resolve := by
  obtain ⟨hsound, hinside⟩ := (Component.closedInside_iff hparent).1
    ((Component.closed_iff hparent).1 hclosed)
  obtain ⟨hnestedSound, hnestedInside⟩ := (Component.closedInside_iff hnested).1
    (hinside u.nested (Graph.mem_instances_iff.2 ⟨u.wrapperId, u.wrapper, hwrapper, hresolve⟩))
  have houter := hsound.wired u.outer hparent
  have hinner := hnestedSound.wired u.inner hnested
  have w := u.unpackedWiring (Graph.containsTask_iff.2 ⟨u.wrapper, hwrapper⟩) houter.bindings
    hnestedSound.inputs hnestedSound.outputs
    (fun r hr => Graph.containsTask_of_provides (hinner.sources r hr)) hinner.inputs
  rw [Component.closed_iff u.graph?_result, Component.closedInside_iff u.graph?_result]
  refine ⟨⟨nodup_inputs_result hsound.inputs, nodup_outputs_result hsound.outputs, ?_⟩, ?_⟩
  · intro g hg
    obtain rfl := Option.some.inj (u.graph?_result.symm.trans hg)
    exact w.wellWired hwrapper houter hinner
  · intro d hd
    rcases w.mem_instances hd with hd | hd
    · exact hnestedInside d hd
    · exact hinside d hd

end Unpacking

end TaskGraph
