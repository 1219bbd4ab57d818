import TaskGraph.Proofs.Subgraph.PackWiring
import TaskGraph.Proofs.Validation.Cycle

/-!
# Cycles that packing makes

Packing contracts the selected tasks to one. A task of the packed parent depends on another exactly
if some task that it stands for does, except that what the selected tasks read of each other is
lost. A graph without cycles therefore gets one exactly if a path leaves the selection and comes
back to it, through however many tasks outside. The new component never gets one.
-/
open Relation

namespace TaskGraph

/-- The task lies outside a set of tasks, but depends on one of them and has one depend on it. -/
def Graph.Reenters (g : Graph) (tasks : NameSet) (id : String) : Prop :=
  ¬ tasks.contains id ∧ (∃ s, tasks.contains s ∧ TransGen g.DependsOn id s) ∧
    ∃ s, tasks.contains s ∧ TransGen g.DependsOn s id

/-- No path leaves the set of tasks and comes back to it. -/
def Graph.Convex (g : Graph) (tasks : NameSet) : Prop := ∀ id, ¬ g.Reenters tasks id

/-- Tasks that read nothing from outside are entered again by no path. -/
theorem Graph.convex_of_closed {g : Graph} {tasks : NameSet}
    (hclosed : ∀ id, tasks.contains id → ∀ d ∈ g.dependenciesOf id, tasks.contains d) :
    g.Convex tasks := by
  rintro id ⟨houtside, -, s, hs, hpath⟩
  have hinside {id : String} (hpath : TransGen g.DependsOn s id) : tasks.contains id := by
    induction hpath with
    | single hread => exact hclosed s hs _ (mem_dependenciesOf_iff.2 hread)
    | tail _ hread ih => exact hclosed _ ih _ (mem_dependenciesOf_iff.2 hread)
  exact houtside (hinside hpath)

/-- The task that stands for a task of the parent after packing. -/
def Packed.standIn (packed : Packed) (selection : Selection) (id : String) : String :=
  if selection.tasks.contains id then packed.wrapperId else id

namespace Packing.Yields

variable {p : Packing} {packed : Packed} {nested : Component}

theorem standIn_of_selected {id : String} (hid : p.selection.tasks.contains id) :
    packed.standIn p.selection id = packed.wrapperId := if_pos hid

theorem standIn_of_unselected {id : String} (hid : ¬ p.selection.tasks.contains id) :
    packed.standIn p.selection id = id := if_neg hid

theorem dependsOn_of_inner (h : p.Yields packed nested) {a b : String}
    (hab : p.innerGraph.DependsOn a b) : p.graph.DependsOn a b := by
  obtain ⟨hb, name, output, ha⟩ := hab
  have hselected := h.containsTask_innerGraph_iff.1 hb
  obtain ⟨a₀, ha₀, hfed⟩ := h.inner_argument_cases ha
  cases hfed with
  | inner => exact ⟨h.contains_selected hselected, name, output, ha₀⟩

theorem dependsOn_of_applied (h : p.Yields packed nested)
    (hfree : ∀ r ∈ p.graph.references, r.2.task ≠ packed.wrapperId) {a b : String}
    (hab : (packed.appliedGraph p.selection p.graph).DependsOn a b) :
    ∃ x y, p.graph.DependsOn x y ∧ packed.standIn p.selection x = a ∧
      packed.standIn p.selection y = b ∧
      ¬ (p.selection.tasks.contains x ∧ p.selection.tasks.contains y) := by
  obtain ⟨hb, name, output, ha⟩ := hab
  have hunselected {x y n o : String} (hread : p.graph.argument? x n = some (.taskOutput ⟨y, o⟩))
      (hy : (packed.appliedGraph p.selection p.graph).containsTask y) :
      p.graph.containsTask y := by
    have hne := hfree (.argument x n, ⟨y, o⟩)
      (Graph.mem_references_iff.2 (Graph.source?_argument_eq_some_iff.2 hread))
    exact ((h.containsTask_appliedGraph_iff.1 hy).resolve_left hne).1
  rcases h.argument_cases ha with ⟨rfl, hwrapper⟩ | ⟨hout, a₀, ha₀, hrel⟩
  · obtain ⟨hbout, x, n, hx, hread⟩ := h.unselected_of_wrapper hwrapper
    exact ⟨x, b, ⟨hunselected hread hb, n, output, hread⟩, standIn_of_selected hx,
      standIn_of_unselected hbout, fun hboth => hbout hboth.2⟩
  · cases hrel with
    | @taskOutput o _ hr =>
      cases hr with
      | kept hbout =>
        exact ⟨a, b, ⟨hunselected ha₀ hb, name, output, ha₀⟩, standIn_of_unselected hout,
          standIn_of_unselected hbout, fun hboth => hout hboth.1⟩
      | moved hselected _ _ =>
        exact ⟨a, o.task, ⟨h.contains_selected hselected, name, o.output, ha₀⟩,
          standIn_of_unselected hout, standIn_of_selected hselected, fun hboth => hout hboth.1⟩

theorem dependsOn_applied (h : p.Yields packed nested) {x y : String}
    (hxy : p.graph.DependsOn x y)
    (hcross : ¬ (p.selection.tasks.contains x ∧ p.selection.tasks.contains y)) :
    (packed.appliedGraph p.selection p.graph).DependsOn (packed.standIn p.selection x)
      (packed.standIn p.selection y) := by
  obtain ⟨hy, name, output, ha⟩ := hxy
  have hexists : (packed.appliedGraph p.selection p.graph).containsTask
      (packed.standIn p.selection y) := by
    rw [h.containsTask_appliedGraph_iff]
    by_cases hselected : p.selection.tasks.contains y
    · exact .inl (standIn_of_selected hselected)
    · rw [standIn_of_unselected hselected]
      exact .inr ⟨hy, hselected⟩
  refine ⟨hexists, ?_⟩
  by_cases hx : p.selection.tasks.contains x
  · have hout : ¬ p.selection.tasks.contains y := fun hselected => hcross ⟨hx, hselected⟩
    rw [standIn_of_selected hx, standIn_of_unselected hout]
    have hfed := h.fed_innerArgument hx ha
    generalize p.innerArgument p.inlets (.taskOutput ⟨y, output⟩) = b at hfed
    cases hfed with
    | inner hselected => exact absurd hselected hout
    | @taskOutput _ input _ _ hfed =>
      exact ⟨input, output, by rw [Graph.argument?_of_task? h.task?_wrapperId, hfed]⟩
  · rw [standIn_of_unselected hx]
    have hrel := h.rel_argument? (Graph.containsTask_of_argument? ha) hx name
    rw [ha] at hrel
    obtain ⟨b, hb, hr⟩ := exists_of_some_rel hrel
    cases hr with
    | taskOutput hr =>
      cases hr with
      | kept hout => exact ⟨name, output, by rw [hb, standIn_of_unselected hout]⟩
      | @moved other hselected _ _ =>
        exact ⟨name, other, by rw [hb, standIn_of_selected hselected]⟩

section

variable (h : p.Yields packed nested)
  (hfree : ∀ r ∈ p.graph.references, r.2.task ≠ packed.wrapperId)

include h

theorem reaches_applied {x y : String} (hxy : TransGen p.graph.DependsOn x y) :
    ReflTransGen (packed.appliedGraph p.selection p.graph).DependsOn
      (packed.standIn p.selection x) (packed.standIn p.selection y) := by
  have hstep {x y : String} (hxy : p.graph.DependsOn x y) :
      ReflTransGen (packed.appliedGraph p.selection p.graph).DependsOn
        (packed.standIn p.selection x) (packed.standIn p.selection y) := by
    by_cases hboth : p.selection.tasks.contains x ∧ p.selection.tasks.contains y
    · rw [standIn_of_selected hboth.1, standIn_of_selected hboth.2]
    · exact .single (h.dependsOn_applied hxy hboth)
  induction hxy with
  | single hxy => exact hstep hxy
  | tail _ hyz ih => exact ih.trans (hstep hyz)

theorem cycle_of_reenters {id : String} (hid : p.graph.Reenters p.selection.tasks id) :
    TransGen (packed.appliedGraph p.selection p.graph).DependsOn packed.wrapperId
      packed.wrapperId := by
  obtain ⟨hout, ⟨s, hs, hto⟩, s', hs', hfrom⟩ := hid
  have hgraph : p.graph.containsTask id := by
    obtain ⟨b, hread, -⟩ := TransGen.head'_iff.1 hto
    exact hread.containsTask.1
  have hto' := h.reaches_applied hto
  have hfrom' := h.reaches_applied hfrom
  rw [standIn_of_unselected hout, standIn_of_selected hs] at hto'
  rw [standIn_of_selected hs', standIn_of_unselected hout] at hfrom'
  have hne : id ≠ packed.wrapperId := h.ne_wrapperId hgraph
  exact TransGen.trans_right hfrom' ((reflTransGen_iff_eq_or_transGen.1 hto').resolve_left hne.symm)

include hfree

theorem dependsOn_of_ne {a b : String}
    (hab : (packed.appliedGraph p.selection p.graph).DependsOn a b) (ha : a ≠ packed.wrapperId)
    (hb : b ≠ packed.wrapperId) : p.graph.DependsOn a b := by
  obtain ⟨x, y, hxy, rfl, rfl, -⟩ := h.dependsOn_of_applied hfree hab
  have hx : ¬ p.selection.tasks.contains x := fun hx => ha (standIn_of_selected hx)
  have hy : ¬ p.selection.tasks.contains y := fun hy => hb (standIn_of_selected hy)
  rwa [standIn_of_unselected hx, standIn_of_unselected hy]

/-- A path between tasks other than the wrapper was there before, or it passes the wrapper. -/
theorem reaches_or_passes {a b : String}
    (hab : TransGen (packed.appliedGraph p.selection p.graph).DependsOn a b)
    (ha : a ≠ packed.wrapperId) (hb : b ≠ packed.wrapperId) :
    TransGen p.graph.DependsOn a b ∨
      TransGen (packed.appliedGraph p.selection p.graph).DependsOn a packed.wrapperId ∧
        TransGen (packed.appliedGraph p.selection p.graph).DependsOn packed.wrapperId b := by
  induction hab with
  | single hab => exact .inl (.single (h.dependsOn_of_ne hfree hab ha hb))
  | @tail m b ham hmb ih =>
    by_cases hm : m = packed.wrapperId
    · rw [hm] at ham hmb
      exact .inr ⟨ham, .single hmb⟩
    · rcases ih hm with hpath | ⟨hto, hfrom⟩
      · exact .inl (hpath.tail (h.dependsOn_of_ne hfree hmb hm hb))
      · exact .inr ⟨hto, hfrom.tail hmb⟩

theorem reaches_selected {a : String}
    (ha : TransGen (packed.appliedGraph p.selection p.graph).DependsOn a packed.wrapperId)
    (hne : a ≠ packed.wrapperId) :
    ∃ s, p.selection.tasks.contains s ∧ TransGen p.graph.DependsOn a s := by
  have hlast {a : String} (ha : (packed.appliedGraph p.selection p.graph).DependsOn a
      packed.wrapperId) (hne : a ≠ packed.wrapperId) :
      ∃ s, p.selection.tasks.contains s ∧ TransGen p.graph.DependsOn a s := by
    obtain ⟨x, y, hxy, rfl, hy, -⟩ := h.dependsOn_of_applied hfree ha
    have hx : ¬ p.selection.tasks.contains x := fun hx => hne (standIn_of_selected hx)
    rw [standIn_of_unselected hx]
    refine ⟨y, ?_, .single hxy⟩
    by_contra hout
    rw [standIn_of_unselected hout] at hy
    exact h.ne_wrapperId hxy.containsTask.2 hy
  induction ha using TransGen.head_induction_on with
  | single ha => exact hlast ha hne
  | @head a m ham _ ih =>
    by_cases hm : m = packed.wrapperId
    · rw [hm] at ham
      exact hlast ham hne
    · obtain ⟨s, hs, hpath⟩ := ih hm
      exact ⟨s, hs, .head (h.dependsOn_of_ne hfree ham hne hm) hpath⟩

theorem exists_reenters (hcycle : TransGen (packed.appliedGraph p.selection p.graph).DependsOn
    packed.wrapperId packed.wrapperId) : ∃ id, p.graph.Reenters p.selection.tasks id := by
  obtain ⟨b, hread, hback⟩ := TransGen.head'_iff.1 hcycle
  obtain ⟨x, y, hxy, hx, rfl, hboth⟩ := h.dependsOn_of_applied hfree hread
  have hxselected : p.selection.tasks.contains x := by
    by_contra hout
    rw [standIn_of_unselected hout] at hx
    exact h.ne_wrapperId hxy.containsTask.1 hx
  have hout : ¬ p.selection.tasks.contains y := fun hy => hboth ⟨hxselected, hy⟩
  have hne : y ≠ packed.wrapperId := h.ne_wrapperId hxy.containsTask.2
  rw [standIn_of_unselected hout] at hback
  have hback' := (reflTransGen_iff_eq_or_transGen.1 hback).resolve_left hne.symm
  exact ⟨y, hout, h.reaches_selected hfree hback' hne, x, hxselected, .single hxy⟩

/-- Packing keeps a graph without cycles so, exactly if the selection is convex. -/
theorem acyclic_applied_iff (hacyclic : p.graph.Acyclic) :
    (packed.appliedGraph p.selection p.graph).Acyclic ↔ p.graph.Convex p.selection.tasks := by
  constructor
  · exact fun happlied id hid => happlied _ (h.cycle_of_reenters hid)
  · intro hconvex id hcycle
    suffices hwrapper : TransGen (packed.appliedGraph p.selection p.graph).DependsOn
        packed.wrapperId packed.wrapperId by
      obtain ⟨id, hid⟩ := h.exists_reenters hfree hwrapper
      exact hconvex id hid
    by_cases hid : id = packed.wrapperId
    · rwa [hid] at hcycle
    · rcases h.reaches_or_passes hfree hcycle hid hid with hold | ⟨hto, hfrom⟩
      · exact absurd hold (hacyclic id)
      · exact hfrom.trans hto

end

theorem acyclic_innerGraph (h : p.Yields packed nested) (hacyclic : p.graph.Acyclic) :
    p.innerGraph.Acyclic :=
  fun a hcycle => hacyclic a (hcycle.lift id fun _ _ => h.dependsOn_of_inner)

end Packing.Yields

/-- Packing a selection of a graph without cycles and putting the wrapper in its place makes a cycle
exactly if some task outside the selection depends on a selected task and has one depend on it. -/
theorem Component.circularTasks_ne_nil_iff_reenters (host : Host) (options : PackOptions)
    (selection : Selection) {parent : Component} {g : Graph} (hg : parent.graph? = some g)
    (hcheck : selection.check parent g = .ok ()) (hacyclic : g.Acyclic)
    (hfree : ∀ r ∈ g.references, r.2.task ≠ freshName options.baseName g.tasks.keys) :
    (∀ packed, parent.pack host options selection = .ok packed → ∃ result outer,
      packed.apply selection parent = .ok result ∧ result.graph? = some outer ∧
      (outer.circularTasks ≠ [] ↔ ∃ id, g.Reenters selection.tasks id)) ∧
    ((∀ c, ∃ text, host.codec.serialize c = .ok text) →
      ∃ packed, parent.pack host options selection = .ok packed) := by
  refine ⟨?_, fun hcodec => exists_pack hg hcheck hcodec⟩
  intro packed hpack
  obtain ⟨hid, nested, hyields⟩ := yields_of_pack hg hpack
  rw [← hid] at hfree
  refine ⟨_, _, Packed.apply_eq_ok hg, Packed.graph?_applied, ?_⟩
  rw [Ne, Graph.circularTasks_eq_nil_iff, hyields.acyclic_applied_iff hfree hacyclic, Graph.Convex,
    not_forall_not]

def endsSelection : Selection := .ofList [(.task, "load"), (.task, "report")]

theorem reenters_train : trainingGraph.Reenters endsSelection.tasks "train" :=
  ⟨Bool.false_ne_true, ⟨"load", rfl, .single ⟨rfl, "data", "rows", rfl⟩⟩,
    "report", rfl, .single ⟨rfl, "model", "model", rfl⟩⟩

theorem circularTasks_ne_nil_training :
    trainingPipeline.graph? = some trainingGraph ∧
    endsSelection.check trainingPipeline trainingGraph = .ok () ∧ trainingGraph.Acyclic ∧
    (∀ r ∈ trainingGraph.references, r.2.task ≠ freshName "Subgraph" trainingGraph.tasks.keys) ∧
    ∃ packed result outer, trainingPipeline.pack {} {} endsSelection = .ok packed ∧
      packed.apply endsSelection trainingPipeline = .ok result ∧ result.graph? = some outer ∧
      outer.circularTasks ≠ [] := by
  have hg : trainingPipeline.graph? = some trainingGraph := rfl
  have hcheck : endsSelection.check trainingPipeline trainingGraph = .ok () := rfl
  have hacyclic : trainingGraph.Acyclic := Graph.circularTasks_eq_nil_iff.1 (by cbv)
  have hfree : ∀ r ∈ trainingGraph.references,
      r.2.task ≠ freshName ({} : PackOptions).baseName trainingGraph.tasks.keys := by decide
  obtain ⟨hcycle, hpack⟩ :=
    Component.circularTasks_ne_nil_iff_reenters {} {} endsSelection hg hcheck hacyclic hfree
  obtain ⟨packed, hpacked⟩ := hpack fun c => ⟨c.text, rfl⟩
  obtain ⟨result, outer, happlied, houter, hiff⟩ := hcycle packed hpacked
  exact ⟨hg, hcheck, hacyclic, hfree, packed, result, outer, hpacked, happlied, houter,
    hiff.2 ⟨"train", reenters_train⟩⟩

end TaskGraph
