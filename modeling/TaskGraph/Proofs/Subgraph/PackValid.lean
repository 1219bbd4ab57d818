import TaskGraph.Proofs.Subgraph.PackClosed
import TaskGraph.Proofs.Subgraph.PackCycle
import TaskGraph.Proofs.Subgraph.UnpackValid
import TaskGraph.Proofs.Validation.Recursive

/-!
# Packing keeps a component valid

Packing a convex selection of a valid graph gives a valid component and leaves a valid parent. The
names that packing chooses come from names that are not blank, as long as no blank output is read
across the edge of the selection. The wrapper feeds every input of the new component, so that none
is missing, and what either graph reads was read before. Below the two lies nothing that did not lie
below the parent.
-/
namespace TaskGraph

variable {resolve : Resolver}

theorem isBlank_trimBlank (s : String) : isBlank (trimBlank s) = isBlank s := by
  have hdrop (l : List Char) : (l.dropWhile isBlankChar).all isBlankChar = l.all isBlankChar := by
    conv_rhs => rw [← List.takeWhile_append_dropWhile (p := isBlankChar) (l := l)]
    rw [List.all_append, List.all_takeWhile, Bool.true_and]
  rw [isBlank, trimBlank, String.toList_ofList, List.all_reverse, hdrop, List.all_reverse, hdrop,
    isBlank]

theorem PackOptions.not_isBlank_baseName (o : PackOptions) : ¬ isBlank o.baseName := by
  have hdefault : ¬ isBlank defaultSubgraphName := by decide
  rw [baseName]
  split
  · split
    · exact hdefault
    · rwa [isBlank_trimBlank]
  · exact hdefault

/-- The site and the task output that it reads lie on two sides of the edge of the selection. -/
def Selection.Crosses (s : Selection) : Site → TaskOutput → Prop
  | .argument id _, o => s.tasks.contains id ≠ s.tasks.contains o.task
  | .output name, o => s.tasks.contains o.task ∧ ¬ s.outputs.contains name

namespace Packing

variable {p : Packing}

def CrossesNamed (p : Packing) : Prop :=
  ∀ site o, p.graph.source? site = some o → p.selection.Crosses site o → ¬ isBlank o.output

/-- An inlet has a free name that comes from the name of its source. -/
theorem name_of_inlet {inlet : Inlet} (h : inlet ∈ p.inlets) :
    ∃ taken, inlet.input.name = freshName inlet.source.baseName taken := by
  obtain ⟨taken, annotations, heq⟩ := inlet_spec h
  exact ⟨taken, by rw [heq]⟩

theorem not_isBlank_inlet (hwired : p.graph.WellWired resolve p.parent)
    (hinputs : ∀ i ∈ p.parent.inputs, ¬ isBlank i.name) (hnamed : p.CrossesNamed) {inlet : Inlet}
    (h : inlet ∈ p.inlets) : ¬ isBlank inlet.input.name := by
  obtain ⟨id, name, a, hid, ha, hrel⟩ :=
    mem_sources_inlets_iff.1 (List.mem_map_of_mem (f := (·.source)) h)
  have hargument := Argument.argument_of_crossing hrel
  obtain ⟨taken, hname⟩ := name_of_inlet h
  rw [hname]
  refine not_isBlank_freshName ?_ taken
  cases hsource : inlet.source with
  | graphInput input =>
    rw [hsource, Source.argument] at hargument
    rw [← hargument] at ha
    have hdeclared := hwired.hasInput ha
    rw [Component.hasInput_iff, List.mem_map] at hdeclared
    obtain ⟨i, hi, rfl⟩ := hdeclared
    exact hinputs i hi
  | taskOutput o =>
    rw [hsource, Source.argument] at hargument
    rw [← hargument] at ha hrel
    have hunselected := unselected_of_crossing hrel
    refine hnamed (.argument id name) o (Graph.source?_argument_eq_some_iff.2 ha) fun heq => ?_
    exact hunselected (heq ▸ hid)

theorem name_of_outlet {outlet : Outlet} (h : outlet ∈ p.outlets) :
    outlet ∈ p.selectedOutlets ∨
      ∃ taken, outlet.output.name = freshName outlet.source.output taken := by
  revert outlet
  refine outlets_induction (motive := fun outlets => ∀ {outlet : Outlet}, outlet ∈ outlets →
    outlet ∈ p.selectedOutlets ∨
      ∃ taken, outlet.output.name = freshName outlet.source.output taken) (fun h => .inl h) ?_
  intro outlets source ih
  rcases p.addOutlet_cases p.selectedOutlets outlets source with ⟨-, heq⟩ | ⟨-, annotations, heq⟩
  · rw [heq]
    exact ih
  · rw [heq, ← List.append_assoc]
    intro outlet houtlet
    rcases List.mem_append.1 houtlet with hold | hnew
    · exact ih hold
    · obtain rfl := List.mem_singleton.1 hnew
      exact .inr ⟨_, rfl⟩

theorem outlet_consumed {outlet : Outlet} (h : outlet ∈ p.outlets) :
    outlet ∈ p.selectedOutlets ∨ ∃ site, (site, outlet.source) ∈ p.consumers := by
  rcases mem_sources_outlets_iff.1 (List.mem_map_of_mem (f := (·.source)) h) with hmem | hconsumer
  · obtain ⟨other, hother, hsource⟩ := List.mem_map.1 hmem
    refine .inl ((outlet_cases h).elim id fun hunique => ?_)
    rwa [← hunique other (List.mem_append_left _ hother) hsource]
  · exact .inr hconsumer

theorem not_isBlank_outlet (houtputs : ∀ o ∈ p.parent.outputs, ¬ isBlank o.name)
    (hnamed : p.CrossesNamed) {outlet : Outlet} (h : outlet ∈ p.outlets) :
    ¬ isBlank outlet.output.name := by
  by_cases hmem : outlet ∈ p.selectedOutlets
  · obtain ⟨hselected, -⟩ := mem_selectedOutlets_iff.1 hmem
    exact houtputs _ (Component.mem_of_output? (mem_selectedOutputs_iff.1 hselected).2)
  · obtain ⟨taken, hname⟩ := (name_of_outlet h).resolve_left hmem
    obtain ⟨site, hconsumer⟩ := (outlet_consumed h).resolve_left hmem
    obtain ⟨hread, htask, hside⟩ := mem_consumers_iff.1 hconsumer
    rw [hname]
    refine not_isBlank_freshName (hnamed site _ hread ?_) taken
    cases site with
    | argument id name =>
      intro heq
      simp [Site.isOutside, heq, htask] at hside
    | output name => exact ⟨htask, by simpa [Site.isOutside] using hside⟩

namespace Yields

variable {packed : Packed} {nested : Component} {policy : UnresolvedPolicy}

theorem component?_inner {id : String} (hid : p.selection.tasks.contains id) :
    p.innerGraph.component? resolve id = p.graph.component? resolve id := by
  rw [Graph.component?, Graph.component?, task?_innerGraph, if_pos hid]
  cases p.graph.task? id <;> rfl

theorem valid_innerGraph (h : p.Yields packed nested) (hgraph : p.parent.graph? = some p.graph)
    (hnonempty : ∃ id, p.selection.tasks.contains id) (hsound : p.parent.Sound resolve)
    (hvalid : p.graph.Valid resolve policy p.parent) :
    p.innerGraph.Valid resolve policy nested where
  nonempty := by
    obtain ⟨id, hid⟩ := hnonempty
    exact ⟨id, h.containsTask_innerGraph_iff.2 hid⟩
  referenced := by
    intro id t ht
    obtain ⟨-, t₀, ht₀, heq⟩ := h.task_of_inner ht
    rw [heq]
    exact hvalid.referenced id t₀ ht₀
  wired := (h.sound_nested hgraph hsound).wired p.innerGraph h.graph?_eq
  resolved := by
    rintro hpolicy site o hsource ⟨-, hnone⟩
    obtain ⟨hselected, site', hread⟩ := h.source_of_inner hsource
    rw [component?_inner hselected] at hnone
    exact hvalid.resolved hpolicy site' o hread ⟨h.contains_selected hselected, hnone⟩
  supplied := by
    intro id d hd i hi hrequired
    obtain ⟨t, ht, -⟩ := Graph.component?_eq_some_iff.1 hd
    obtain ⟨hid, -⟩ := h.task_of_inner ht
    rw [component?_inner hid] at hd
    obtain ⟨a, ha⟩ := hvalid.supplied id d hd i hi hrequired
    rw [argument?_innerGraph hid, ha]
    exact ⟨_, rfl⟩
  acyclic := h.acyclic_innerGraph hvalid.acyclic

theorem valid_nested (h : p.Yields packed nested) (hgraph : p.parent.graph? = some p.graph)
    (hnonempty : ∃ id, p.selection.tasks.contains id) (hnamed : p.CrossesNamed)
    {name : String} (hname : nested.name = some name) (hblank : ¬ isBlank name)
    {options : ValidationOptions} (hvalid : p.parent.Valid resolve options) :
    nested.Valid resolve options.nested where
  named := ⟨name, hname, hblank⟩
  implemented := by
    obtain ⟨_, _, rfl⟩ := h.nested_eq
    rfl
  inputNames := by
    intro i hi
    have hmem := h.hasInput_iff.1 (Component.hasInput_iff.2 (List.mem_map_of_mem hi))
    rcases List.mem_append.1 hmem with hselected | hinlet
    · obtain ⟨j, hj, heq⟩ := List.mem_map.1 hselected
      rw [← heq]
      exact hvalid.inputNames j (Component.mem_of_input? (mem_selectedInputs_iff.1 hj).2)
    · obtain ⟨inlet, hinlet, heq⟩ := List.mem_map.1 hinlet
      rw [← heq]
      exact not_isBlank_inlet (hvalid.graph p.graph hgraph).wired hvalid.inputNames hnamed hinlet
  inputs := (h.sound_nested hgraph hvalid.sound).inputs
  outputNames := by
    intro o ho
    obtain ⟨outlet, houtlet, heq⟩ :=
      h.hasOutput_iff.1 (Component.hasOutput_iff.2 (List.mem_map_of_mem ho))
    rw [← heq]
    exact not_isBlank_outlet hvalid.outputNames hnamed houtlet
  outputs := (h.sound_nested hgraph hvalid.sound).outputs
  valued := fun hchecked => absurd rfl hchecked
  graph := by
    intro g hg
    obtain rfl := Option.some.inj (h.graph?_eq.symm.trans hg)
    exact h.valid_innerGraph hgraph hnonempty hvalid.sound (hvalid.graph p.graph hgraph)

theorem component?_applied (h : p.Yields packed nested) {id : String}
    (hgraph : p.graph.containsTask id) (hid : ¬ p.selection.tasks.contains id) :
    (packed.appliedGraph p.selection p.graph).component? resolve id =
      p.graph.component? resolve id := by
  obtain ⟨t, ht⟩ := Graph.containsTask_iff.1 hgraph
  obtain ⟨arguments, houter⟩ := h.packedWiring.outer_task id t hid ht
  rw [Graph.component?, Graph.component?, ht, houter]
  rfl

theorem component?_wrapperId (h : p.Yields packed nested)
    (hresolve : resolve packed.wrapper.reference = some nested) :
    (packed.appliedGraph p.selection p.graph).component? resolve packed.wrapperId =
      some nested :=
  Graph.component?_eq_some_iff.2 ⟨packed.wrapper, h.task?_wrapperId, hresolve⟩

/-- The wrapper feeds every input of the new component. -/
theorem exists_wrapper_argument (h : p.Yields packed nested) {name : String}
    (hname : nested.hasInput name) :
    ∃ a, (packed.appliedGraph p.selection p.graph).argument? packed.wrapperId name = some a := by
  rw [Graph.argument?_of_task? h.task?_wrapperId, h.arguments_eq]
  rcases List.mem_append.1 (h.hasInput_iff.1 hname) with hselected | hinlet
  · obtain ⟨i, hi, rfl⟩ := List.mem_map.1 hselected
    exact ⟨_, get?_wrapperArguments_selected hi⟩
  · obtain ⟨inlet, hmem, rfl⟩ := List.mem_map.1 hinlet
    exact ⟨_, get?_wrapperArguments_inlet hmem⟩

theorem valid_appliedGraph (h : p.Yields packed nested)
    (hgraph : p.parent.graph? = some p.graph)
    (hresolve : resolve packed.wrapper.reference = some nested)
    (hconvex : p.graph.Convex p.selection.tasks) (hsound : p.parent.Sound resolve)
    (hvalid : p.graph.Valid resolve policy p.parent) :
    (packed.appliedGraph p.selection p.graph).Valid resolve policy
      (packed.applied p.selection p.parent p.graph) where
  nonempty := ⟨packed.wrapperId, h.containsTask_appliedGraph_iff.2 (.inl rfl)⟩
  referenced := by
    intro id t ht
    rcases h.task_cases ht with ⟨-, rfl⟩ | ⟨-, t₀, ht₀, heq⟩
    · simp [Reference.isEmpty, h.spec_eq]
    · rw [heq]
      exact hvalid.referenced id t₀ ht₀
  wired := (h.sound_applied hgraph hresolve hsound).wired _ Packed.graph?_applied
  resolved := by
    rintro hpolicy site o hsource ⟨-, hnone⟩
    have hkept {site' : Site} (hread : p.graph.source? site' = some o)
        (hunselected : ¬ p.selection.tasks.contains o.task) : False := by
      have htask := Graph.containsTask_of_provides (hvalid.wired.provides_source hread)
      rw [h.component?_applied htask hunselected] at hnone
      exact hvalid.resolved hpolicy site' o hread ⟨htask, hnone⟩
    rcases h.source_cases hsource with ⟨x, hwrapper⟩ | ⟨o₀, hread, hr⟩
    · obtain ⟨hunselected, id, name, -, ha⟩ := h.unselected_of_wrapper hwrapper
      exact hkept (Graph.source?_argument_eq_some_iff.2 ha) hunselected
    · cases hr with
      | kept hunselected => exact hkept hread hunselected
      | moved =>
        rw [h.component?_wrapperId hresolve] at hnone
        cases hnone
  supplied := by
    intro id d hd i hi hrequired
    obtain ⟨t, ht, -⟩ := Graph.component?_eq_some_iff.1 hd
    rcases h.task_cases ht with ⟨rfl, -⟩ | ⟨hunselected, t₀, ht₀, -⟩
    · obtain rfl := Option.some.inj ((h.component?_wrapperId hresolve).symm.trans hd)
      exact h.exists_wrapper_argument (Component.hasInput_iff.2 (List.mem_map_of_mem hi))
    · have hid := Graph.containsTask_iff.2 ⟨t₀, ht₀⟩
      rw [h.component?_applied hid hunselected] at hd
      obtain ⟨a, ha⟩ := hvalid.supplied id d hd i hi hrequired
      have hrel := h.rel_argument? hid hunselected i.name
      rw [ha] at hrel
      obtain ⟨b, hb, -⟩ := exists_of_some_rel hrel
      exact ⟨b, hb⟩
  acyclic := by
    refine (h.acyclic_applied_iff (fun r hr => ?_) hvalid.acyclic).2 hconvex
    exact h.ne_wrapperId (Graph.containsTask_of_provides (hvalid.wired.sources r hr))

theorem valid_applied (h : p.Yields packed nested) (hgraph : p.parent.graph? = some p.graph)
    (hresolve : resolve packed.wrapper.reference = some nested)
    (hconvex : p.graph.Convex p.selection.tasks) {options : ValidationOptions}
    (hvalid : p.parent.Valid resolve options) :
    (packed.applied p.selection p.parent p.graph).Valid resolve options where
  named := hvalid.named
  implemented := rfl
  inputNames := fun i hi => hvalid.inputNames i (h.packedWiring.inputs_kept.subset hi)
  inputs := (h.sound_applied hgraph hresolve hvalid.sound).inputs
  outputNames := hvalid.outputNames
  outputs := hvalid.outputs
  valued := fun hchecked i hi =>
    hvalid.valued hchecked i (h.packedWiring.inputs_kept.subset hi)
  graph := by
    intro g hg
    obtain rfl := Option.some.inj (Packed.graph?_applied.symm.trans hg)
    exact h.valid_appliedGraph hgraph hresolve hconvex hvalid.sound (hvalid.graph p.graph hgraph)

/-- What the packed parent reaches is itself, the new component, or reached by the parent. -/
theorem reaches_applied_cases (h : p.Yields packed nested)
    (hgraph : p.parent.graph? = some p.graph)
    (hresolve : resolve packed.wrapper.reference = some nested) {d : Component}
    (hd : Component.Reaches resolve (packed.applied p.selection p.parent p.graph) d) :
    d = packed.applied p.selection p.parent p.graph ∨ d = nested ∨
      Component.Reaches resolve p.parent d := by
  cases hd with
  | refl => exact .inl rfl
  | step hg he hd =>
    obtain rfl := Option.some.inj (Packed.graph?_applied.symm.trans hg)
    rcases h.mem_instances_of_applied hresolve he with rfl | he
    · cases hd with
      | refl => exact .inr (.inl rfl)
      | step hg he hd =>
        obtain rfl := Option.some.inj (h.graph?_eq.symm.trans hg)
        exact .inr (.inr (.step hgraph (h.mem_instances_of_inner he) hd))
    · exact .inr (.inr (.step hgraph he hd))

theorem isValid_validateRecursive (h : p.Yields packed nested)
    (hgraph : p.parent.graph? = some p.graph) (provider : Provider) {options : ValidationOptions}
    (happlied : (packed.applied p.selection p.parent p.graph).Valid provider.resolve
      { options with skipInputValues := false })
    (hnested : nested.Valid provider.resolve options.nested)
    (hbelow : ∀ d, Component.Reaches provider.resolve p.parent d → d.isGraph →
      d.Valid provider.resolve options.nested) :
    ((packed.applied p.selection p.parent p.graph).validateRecursive provider options).isValid := by
  refine Component.isValid_validateRecursive happlied fun d hd hdgraph => ?_
  rcases h.reaches_applied_cases hgraph (h.resolve_wrapper provider) hd with rfl | rfl | hd
  · exact happlied.nested
  · exact hnested
  · exact hbelow d hd hdgraph

end Yields

end Packing

namespace Component

theorem name_of_pack {host : Host} {options : PackOptions} {selection : Selection}
    {parent nested : Component} {packed : Packed}
    (hpack : parent.pack host options selection = .ok packed)
    (hspec : packed.wrapper.reference.spec = some nested) :
    nested.name = some packed.wrapperId := by
  obtain ⟨g, reference, -, -, hcomplete, rfl⟩ := pack_eq_ok_iff.1 hpack
  obtain ⟨text, -, rfl⟩ := Reference.complete_eq_ok_iff.1 hcomplete
  rw [Packing.reference_wrapper_packed] at hspec
  obtain rfl := Option.some.inj hspec
  rfl

/-- Packing a convex selection, across whose edge no blank output is read, keeps a component free of
errors, and the new component has none either. If an identity stands for one component below the
parent, as it does if the parent agrees with a coherent catalog, the same holds of what is found
below the two. -/
theorem isValid_of_pack_apply (provider : Provider) (host : Host) (options : PackOptions)
    (selection : Selection) {parent : Component} {g : Graph} (hg : parent.graph? = some g)
    (hcheck : selection.check parent g = .ok ()) (hnonempty : ∃ id, selection.tasks.contains id)
    (hconvex : g.Convex selection.tasks)
    (hnamed : ∀ site o, g.source? site = some o → selection.Crosses site o → ¬ isBlank o.output) :
    (∀ packed, parent.pack host options selection = .ok packed → ∃ nested result,
      packed.wrapper.reference.spec = some nested ∧ packed.apply selection parent = .ok result ∧
      (∀ validation, (parent.validate provider.resolve validation).isValid →
        (result.validate provider.resolve validation).isValid ∧
        (nested.validate provider.resolve validation.nested).isValid) ∧
      (parent.Identified provider.resolve → ∀ validation,
        (parent.validateRecursive provider validation).isValid →
        (result.validateRecursive provider validation).isValid)) ∧
    ((∀ c, ∃ text, host.codec.serialize c = .ok text) →
      ∃ packed, parent.pack host options selection = .ok packed) := by
  refine ⟨?_, fun hcodec => exists_pack hg hcheck hcodec⟩
  intro packed hpack
  obtain ⟨hid, nested, hyields⟩ := yields_of_pack hg hpack
  have hname := name_of_pack hpack hyields.spec_eq
  have hblank : ¬ isBlank packed.wrapperId := by
    rw [hid]
    exact not_isBlank_freshName options.not_isBlank_baseName _
  have hresolve := hyields.resolve_wrapper provider
  have hnested {validation : ValidationOptions}
      (hvalid : parent.Valid provider.resolve validation) :
      nested.Valid provider.resolve validation.nested :=
    hyields.valid_nested hg hnonempty hnamed hname hblank hvalid
  have happlied {validation : ValidationOptions}
      (hvalid : parent.Valid provider.resolve validation) :
      (packed.applied selection parent g).Valid provider.resolve validation :=
    hyields.valid_applied hg hresolve hconvex hvalid
  refine ⟨nested, _, hyields.spec_eq, Packed.apply_eq_ok hg, ?_, ?_⟩
  · intro validation hvalid
    rw [isValid_validate_iff] at hvalid
    exact ⟨isValid_validate_iff.2 (happlied hvalid), isValid_validate_iff.2 (hnested hvalid)⟩
  · intro hidentified validation hvalid
    obtain ⟨hparent, hbelow⟩ := (isValid_validateRecursive_iff hidentified).1 hvalid
    have hnew := hnested hparent
    exact hyields.isValid_validateRecursive hg provider (happlied hparent) hnew hbelow

end Component

/-- The merging graph with a task that reads the outputs of the other two. -/
def reportingGraph : Graph where
  tasks := NameMap.insert mergingGraph.tasks "report"
    { reference := { url := some "report.yaml" }, arguments := .ofList [
      ("table", .taskOutput ⟨"merge", "table"⟩), ("vcf", .taskOutput ⟨"call", "variants"⟩)] }
  outputValues := .ofList [("page", ⟨"report", "page"⟩), ("table", ⟨"merge", "table"⟩)]

def reportingPipeline : Component where
  name := some "reporting"
  outputs := [{ name := "page" }, { name := "table" }]
  implementation := some (.graph reportingGraph)

theorem isValid_reportingPipeline : (reportingPipeline.validate .inline {}).isValid := by
  have hacyclic : reportingGraph.circularTasks = [] := by cbv
  rw [Component.validate, Component.findings_of_graph? (by decide) rfl, Wiring.findings, hacyclic]
  decide

/-- Two tasks of which one reads the other, and on both of which a third one depends. -/
def mergingSelection : Selection := .ofList [(.task, "call"), (.task, "merge")]

theorem isValid_of_pack_apply_reporting :
    reportingPipeline.graph? = some reportingGraph ∧
    reportingGraph.DependsOn "merge" "call" ∧
    mergingSelection.check reportingPipeline reportingGraph = .ok () ∧
    (∃ id, mergingSelection.tasks.contains id) ∧ reportingGraph.Convex mergingSelection.tasks ∧
    (∀ site o, reportingGraph.source? site = some o → mergingSelection.Crosses site o →
      ¬ isBlank o.output) ∧
    (reportingPipeline.validateRecursive .inline {}).isValid ∧
    ∃ packed nested result, reportingPipeline.pack {} {} mergingSelection = .ok packed ∧
      packed.wrapper.reference.spec = some nested ∧
      packed.apply mergingSelection reportingPipeline = .ok result ∧
      (result.validate .inline {}).isValid ∧
      (nested.validate .inline ({} : ValidationOptions).nested).isValid ∧
      (result.validateRecursive .inline {}).isValid := by
  have hg : reportingPipeline.graph? = some reportingGraph := rfl
  have hread : reportingGraph.DependsOn "merge" "call" := Graph.mem_dependenciesOf_iff.1 (by decide)
  have hcheck : mergingSelection.check reportingPipeline reportingGraph = .ok () := rfl
  have hnonempty : ∃ id, mergingSelection.tasks.contains id := ⟨"call", rfl⟩
  have hconvex : reportingGraph.Convex mergingSelection.tasks := by
    have hclosed : ∀ id ∈ mergingSelection.tasks.keys, ∀ d ∈ reportingGraph.dependenciesOf id,
        mergingSelection.tasks.contains d := by decide
    exact Graph.convex_of_closed fun id hid =>
      hclosed id (NameMap.From.mem_keys_iff_contains.2 hid)
  have hnamed : ∀ site o, reportingGraph.source? site = some o →
      mergingSelection.Crosses site o → ¬ isBlank o.output := by
    intro site o hsource _
    have hall : ∀ r ∈ reportingGraph.references, ¬ isBlank r.2.output := by decide
    exact hall _ (Graph.mem_references_iff.2 hsource)
  have hroot := Component.isValid_validate_iff.1 isValid_reportingPipeline
  have hbelow : ∀ d, Component.Reaches Provider.inline.resolve reportingPipeline d → d.isGraph →
      d.Valid Provider.inline.resolve ({} : ValidationOptions).nested := by
    intro d hd hgraph
    cases hd with
    | refl => exact hroot.nested
    | step hg he hd =>
      obtain rfl := Option.some.inj hg
      obtain rfl := List.mem_singleton.1 he
      cases hd with
      | refl => exact Component.isValid_validate_iff.1 isValid_caller
      | step hg he hd =>
        obtain rfl := Option.some.inj hg
        cases he
  have hvalid : (reportingPipeline.validateRecursive .inline {}).isValid :=
    Component.isValid_validateRecursive hroot hbelow
  have hidentified : reportingPipeline.Identified Provider.inline.resolve :=
    Provider.identified_of_agreesWith trivial (Component.agreesWith_of_identities rfl _)
  obtain ⟨hpreserved, hpack⟩ := Component.isValid_of_pack_apply .inline {} {} mergingSelection hg
    hcheck hnonempty hconvex hnamed
  obtain ⟨packed, hpacked⟩ := hpack fun c => ⟨c.text, rfl⟩
  obtain ⟨nested, result, hspec, happly, hkept, hkeptBelow⟩ := hpreserved packed hpacked
  obtain ⟨hresult, hnested⟩ := hkept {} isValid_reportingPipeline
  exact ⟨hg, hread, hcheck, hnonempty, hconvex, hnamed, hvalid, packed, nested, result, hpacked,
    hspec, happly, hresult, hnested, hkeptBelow hidentified {} hvalid⟩

end TaskGraph
