import TaskGraph.Proofs.Subgraph.PackWiring

/-!
# The interface of a packed selection

The new component declares what is needed and nothing else. It has one input for each selected input
and one for each source outside that a selected task reads, and the wrapper feeds each of them. It
has one output for each selected output that is bound inside, and one for each other output of a
selected task that is read from outside. The mappings are the outside sites that read a selected
task, each once, and every output of the new component serves one of them.
-/
namespace TaskGraph

/-- The type that the declaration of a source gives it, so far as that is known. -/
inductive Source.Declares (resolve : Resolver) (parent : Component) (g : Graph) :
    Source → TypeTag → Prop
  | taskOutput {o : TaskOutput} {t : Task} {c : Component} {output : Output} {type : TypeTag}
      (task : g.task? o.task = some t) (resolved : resolve t.reference = some c)
      (declared : c.output? o.output = some output) (typed : output.type = some type) :
      Declares resolve parent g (.taskOutput o) type
  | graphInput {name : String} {input : Input} {type : TypeTag}
      (declared : parent.input? name = some input) (typed : input.type = some type) :
      Declares resolve parent g (.graphInput name) type

namespace Selection

/-- The source is neither an output of a selected task nor a selected input. -/
def LeavesOut (s : Selection) : Source → Prop
  | .taskOutput o => ¬ s.tasks.contains o.task
  | .graphInput name => ¬ s.inputs.contains name

/-- A selected task reads the source, which lies outside. -/
def Draws (s : Selection) (g : Graph) (source : Source) : Prop :=
  s.LeavesOut source ∧
    ∃ id name, s.tasks.contains id ∧ g.argument? id name = some source.argument

/-- The site lies outside and reads an output of a selected task. -/
def IsReadAt (s : Selection) (g : Graph) (site : Site) (o : TaskOutput) : Prop :=
  site.isOutside s.tasks ∅ ∧ g.source? site = some o ∧ s.tasks.contains o.task

/-- The output is selected and bound to an output of a selected task. -/
def Exposes (s : Selection) (g : Graph) (name : String) (o : TaskOutput) : Prop :=
  s.outputs.contains name ∧ g.outputValues.get? name = some o ∧ s.tasks.contains o.task

end Selection

/-- The inputs of the new component: the selected ones, and inlets for the sources outside that the
selected tasks read. -/
structure ExactInputs (resolve : Resolver) (selection : Selection) (parent : Component) (g : Graph)
    (wrapper : Task) (nested : Component) (included : List Input) (inlets : List Inlet) :
    Prop where
  inputs : nested.inputs = included ++ inlets.map (·.input)
  distinct : (nested.inputs.map (·.name)).Nodup
  included_names : included.map (·.name) = selection.inputs.keys
  sources : ∀ source, source ∈ inlets.map (·.source) ↔ selection.Draws g source
  sources_distinct : (inlets.map (·.source)).Nodup
  typed : ∀ inlet ∈ inlets, ∀ type,
    inlet.input.type = some type ↔ inlet.source.Declares resolve parent g type
  fed : ∀ inlet ∈ inlets, wrapper.arguments.get? inlet.input.name = some inlet.source.argument
  arguments : wrapper.arguments.keys.Perm (nested.inputs.map (·.name))

/-- The outputs of the new component: the selected ones that are bound inside, and outlets for what
else is read from outside. -/
structure ExactOutputs (selection : Selection) (g : Graph) (nested : Component) (inner : Graph)
    (exposed consumed : List Outlet) : Prop where
  outputs : nested.outputs = (exposed ++ consumed).map (·.output)
  distinct : (nested.outputs.map (·.name)).Nodup
  bindings : inner.outputValues.keys.Perm (nested.outputs.map (·.name))
  bound : ∀ outlet ∈ exposed ++ consumed,
    inner.outputValues.get? outlet.output.name = some outlet.source
  exposed_bound : ∀ name o, (∃ outlet ∈ exposed, outlet.output.name = name ∧ outlet.source = o) ↔
    selection.Exposes g name o
  consumed_read : ∀ o, o ∈ consumed.map (·.source) ↔
    (∃ site, selection.IsReadAt g site o) ∧ ∀ name, ¬ selection.Exposes g name o
  consumed_distinct : (consumed.map (·.source)).Nodup

/-- The mappings: one for each outside site that reads a selected task, and at least one for each
output of the new component. -/
structure ExactMappings (selection : Selection) (g : Graph) (mappings : List Mapping)
    (nested : Component) (inner : Graph) : Prop where
  targets : ∀ site o, (∃ m ∈ mappings, m.target = site ∧ m.source = o) ↔
    selection.IsReadAt g site o
  targets_distinct : (mappings.map (·.target)).Nodup
  bound : ∀ m ∈ mappings, inner.outputValues.get? m.nestedOutput = some m.source
  serving : ∀ output ∈ nested.outputs, ∃ m ∈ mappings, m.nestedOutput = output.name ∧
    inner.outputValues.get? output.name = some m.source

namespace Packing

variable {p : Packing}

theorem typeOf?_eq_some_iff {source : Source} {type : TypeTag} :
    p.typeOf? source = some type ↔ source.Declares p.resolve p.parent p.graph type := by
  cases source with
  | taskOutput o =>
    simp only [typeOf?, typeOfTaskOutput?, bind, Option.bind_eq_some_iff]
    constructor
    · rintro ⟨t, ht, c, hc, output, houtput, htype⟩
      exact .taskOutput ht hc houtput htype
    · rintro (⟨ht, hc, houtput, htype⟩ | _)
      exact ⟨_, ht, _, hc, _, houtput, htype⟩
  | graphInput name =>
    simp only [typeOf?, Option.bind_eq_some_iff]
    constructor
    · rintro ⟨input, hinput, htype⟩
      exact .graphInput hinput htype
    · rintro (_ | ⟨hinput, htype⟩)
      exact ⟨_, hinput, htype⟩

theorem relation_eq_crossing_iff {a : Argument} {source : Source} :
    p.relation a = .crossing source ↔ p.selection.LeavesOut source ∧ a = source.argument := by
  constructor
  · intro h
    obtain rfl := Argument.argument_of_crossing h
    cases source with
    | taskOutput o => exact ⟨unselected_of_crossing h, rfl⟩
    | graphInput name => exact ⟨unselected_input_of_crossing h, rfl⟩
  · rintro ⟨hout, rfl⟩
    cases source with
    | taskOutput o => exact if_neg hout
    | graphInput name => exact if_neg hout

theorem readsOutside_iff {source : Source} :
    p.ReadsOutside source ↔ p.selection.Draws p.graph source := by
  simp only [ReadsOutside, Selection.Draws, relation_eq_crossing_iff]
  constructor
  · rintro ⟨id, name, a, hid, ha, hout, rfl⟩
    exact ⟨hout, id, name, hid, ha⟩
  · rintro ⟨hout, id, name, hid, ha⟩
    exact ⟨id, name, _, hid, ha, hout, rfl⟩

theorem names_selectedInputs (hcheck : p.selection.stranger? p.parent p.graph = none) :
    p.selectedInputs.map (·.name) = p.selection.inputs.keys := by
  rw [selectedInputs, List.map_filterMap]
  refine (List.filterMap_congr fun name hname => ?_).trans List.filterMap_some
  have hselected := NameMap.From.mem_keys_iff_contains.1 hname
  obtain ⟨i, hi⟩ := Component.exists_input?_of_hasInput
    ((Selection.stranger?_eq_none_iff.1 hcheck).2.1 name hselected)
  rw [hi, Option.map_some, Component.name_of_input? hi]

theorem keys_wrapperArguments_perm (p : Packing) :
    (p.wrapperArguments p.inlets).keys.Perm
      (p.selectedInputs.map (·.name) ++ p.inlets.map (·.input.name)) := by
  rw [List.perm_ext_iff_of_nodup (NameMap.From.keys_nodup _) p.nodup_inlets]
  intro name
  rw [NameMap.From.mem_keys_iff_contains, wrapperArguments_eq, NameMap.contains_ofList_iff]
  simp [Function.comp_def]

theorem keys_innerGraph_perm (p : Packing) :
    p.innerGraph.outputValues.keys.Perm (p.outlets.map (·.output.name)) := by
  rw [List.perm_ext_iff_of_nodup (NameMap.From.keys_nodup _) p.nodup_outlets]
  intro name
  rw [NameMap.From.mem_keys_iff_contains, innerGraph, NameMap.contains_ofList_iff]
  simp [Function.comp_def]

theorem exists_selectedOutlet_iff (hcheck : p.selection.stranger? p.parent p.graph = none)
    {name : String} {o : TaskOutput} :
    (∃ outlet ∈ p.selectedOutlets, outlet.output.name = name ∧ outlet.source = o) ↔
      p.selection.Exposes p.graph name o := by
  constructor
  · rintro ⟨outlet, houtlet, rfl, rfl⟩
    obtain ⟨houtput, hbound, htask⟩ := mem_selectedOutlets_iff.1 houtlet
    exact ⟨(mem_selectedOutputs_iff.1 houtput).1, hbound, htask⟩
  · rintro ⟨hselected, hbound, htask⟩
    obtain ⟨output, houtput⟩ := Component.exists_output?_of_hasOutput
      ((Selection.stranger?_eq_none_iff.1 hcheck).2.2 name hselected)
    obtain rfl := Component.name_of_output? houtput
    exact ⟨⟨o, output⟩, mem_selectedOutlets_iff.2
      ⟨mem_selectedOutputs_iff.2 ⟨hselected, houtput⟩, hbound, htask⟩, rfl, rfl⟩

theorem isReadAt_iff {site : Site} {o : TaskOutput} :
    p.selection.IsReadAt p.graph site o ↔ (site, o) ∈ p.consumers ∨
      ∃ name, site = .output name ∧ p.selection.Exposes p.graph name o := by
  rw [mem_consumers_iff]
  cases site with
  | argument id name =>
    simp only [Selection.IsReadAt, Site.isOutside, reduceCtorEq, false_and, exists_false, or_false]
    tauto
  | output name =>
    constructor
    · rintro ⟨-, hsource, htask⟩
      by_cases hselected : p.selection.outputs.contains name
      · exact .inr ⟨name, rfl, hselected, hsource, htask⟩
      · exact .inl ⟨hsource, htask, by simpa [Site.isOutside] using hselected⟩
    · rintro (⟨hsource, htask, -⟩ | ⟨_, heq, -, hbound, htask⟩)
      · exact ⟨rfl, hsource, htask⟩
      · obtain rfl := Site.output.inj heq
        exact ⟨rfl, hbound, htask⟩

theorem mem_sources_selectedOutlets_iff (hcheck : p.selection.stranger? p.parent p.graph = none)
    {o : TaskOutput} : o ∈ p.selectedOutlets.map (·.source) ↔
      ∃ name, p.selection.Exposes p.graph name o := by
  rw [List.mem_map]
  constructor
  · rintro ⟨outlet, houtlet, rfl⟩
    exact ⟨_, (exists_selectedOutlet_iff hcheck).1 ⟨outlet, houtlet, rfl, rfl⟩⟩
  · rintro ⟨name, hexposed⟩
    obtain ⟨outlet, houtlet, -, hsource⟩ := (exists_selectedOutlet_iff hcheck).2 hexposed
    exact ⟨outlet, houtlet, hsource⟩

theorem mem_sources_consumedOutlets_iff (hcheck : p.selection.stranger? p.parent p.graph = none)
    {o : TaskOutput} : o ∈ p.consumedOutlets.map (·.source) ↔
      (∃ site, p.selection.IsReadAt p.graph site o) ∧
        ∀ name, ¬ p.selection.Exposes p.graph name o := by
  have hall : o ∈ p.outlets.map (·.source) ↔ _ := mem_sources_outlets_iff
  rw [outlets_eq, List.map_append, List.mem_append, mem_sources_selectedOutlets_iff hcheck] at hall
  constructor
  · intro hmem
    obtain ⟨outlet, houtlet, rfl⟩ := List.mem_map.1 hmem
    have hother := p.nodup_sources_consumedOutlets.2 outlet houtlet
    rw [mem_sources_selectedOutlets_iff hcheck] at hother
    obtain ⟨site, hsite⟩ := (hall.1 (.inr hmem)).resolve_left hother
    exact ⟨⟨site, isReadAt_iff.2 (.inl hsite)⟩, not_exists.1 hother⟩
  · rintro ⟨⟨site, hread⟩, hother⟩
    refine (hall.2 (.inr ?_)).resolve_left (not_exists.2 hother)
    rcases isReadAt_iff.1 hread with hsite | ⟨name, -, hexposed⟩
    · exact ⟨site, hsite⟩
    · exact absurd hexposed (hother name)

theorem exists_mapping_iff (hcheck : p.selection.stranger? p.parent p.graph = none) {site : Site}
    {o : TaskOutput} : (∃ m ∈ p.mappings p.outlets, m.target = site ∧ m.source = o) ↔
      p.selection.IsReadAt p.graph site o := by
  constructor
  · rintro ⟨m, hm, rfl, rfl⟩
    obtain ⟨hsource, htask, hside, -⟩ := outlet_of_mem_mappings hm
    exact ⟨hside, hsource, htask⟩
  · rintro ⟨hside, hsource, htask⟩
    obtain ⟨m, hm, rfl⟩ := exists_mapping hcheck hsource htask hside
    have hread := (outlet_of_mem_mappings hm).1
    exact ⟨m, hm, rfl, Option.some.inj (hread.symm.trans hsource)⟩

theorem nodup_targets_mappings (p : Packing) : ((p.mappings p.outlets).map (·.target)).Nodup := by
  rw [mappings, List.map_append]
  refine List.Nodup.append ?_ ?_ ?_
  · have hnames := p.nodup_selectedOutlets.map fun _ _ => Site.output.inj
    rw [List.map_map] at hnames ⊢
    exact hnames
  · have hsites := p.graph.nodup_sites_references.sublist
      (List.filter_sublist.map _ : (p.consumers.map (·.1)).Sublist _)
    refine nodup_map_filterMap ?_ hsites
    rintro r m heq
    obtain ⟨outlet, -, rfl⟩ := Option.map_eq_some_iff.1 heq
    rfl
  · intro site hselected hconsumer
    obtain ⟨_, hmem, rfl⟩ := List.mem_map.1 hselected
    obtain ⟨outlet, houtlet, rfl⟩ := List.mem_map.1 hmem
    obtain ⟨m, hm, htarget⟩ := List.mem_map.1 hconsumer
    obtain ⟨⟨site, o⟩, hsite, heq⟩ := List.mem_filterMap.1 hm
    obtain ⟨other, -, rfl⟩ := Option.map_eq_some_iff.1 heq
    obtain rfl : site = .output outlet.output.name := htarget
    have houtside := (mem_consumers_iff.1 hsite).2.2
    have hname := (mem_selectedOutputs_iff.1 (mem_selectedOutlets_iff.1 houtlet).1).1
    simp [Site.isOutside, hname] at houtside

theorem exists_mapping_of_outlet (hcheck : p.selection.stranger? p.parent p.graph = none)
    {outlet : Outlet} (h : outlet ∈ p.outlets) :
    ∃ m ∈ p.mappings p.outlets, m.nestedOutput = outlet.output.name ∧
      m.source = outlet.source := by
  by_cases hselected : outlet ∈ p.selectedOutlets
  · refine ⟨⟨outlet.source, outlet.output.name, .output outlet.output.name⟩, ?_, rfl, rfl⟩
    rw [mappings, List.mem_append, List.mem_map]
    exact .inl ⟨outlet, hselected, rfl⟩
  · have hconsumed : outlet ∈ p.consumedOutlets :=
      (List.mem_append.1 (p.outlets_eq ▸ h)).resolve_left hselected
    obtain ⟨⟨site, hread⟩, -⟩ := (mem_sources_consumedOutlets_iff hcheck).1
      (List.mem_map_of_mem (f := (·.source)) hconsumed)
    obtain ⟨m, hm, -, hsource⟩ := (exists_mapping_iff hcheck).2 hread
    obtain ⟨-, -, -, other, hother, hexposed, hname⟩ := outlet_of_mem_mappings hm
    have heq := (outlet_cases h).resolve_left hselected other hother (hexposed.trans hsource)
    exact ⟨m, hm, by rw [← hname, heq], hsource⟩

def includedInputs (p : Packing) : List Input :=
  p.selectedInputs.map fun i => { i with value := none, annotations := p.nestedPlace i.annotations }

def placeInlet (p : Packing) (inlet : Inlet) : Inlet :=
  { inlet with
    input := { inlet.input with annotations := p.nestedPlace inlet.input.annotations } }

def placeOutlet (p : Packing) (outlet : Outlet) : Outlet :=
  { outlet with
    output := { outlet.output with annotations := p.nestedPlace outlet.output.annotations } }

theorem sources_placeInlet (p : Packing) (inlets : List Inlet) :
    (inlets.map p.placeInlet).map (·.source) = inlets.map (·.source) := by
  rw [List.map_map]
  rfl

theorem sources_placeOutlet (p : Packing) (outlets : List Outlet) :
    (outlets.map p.placeOutlet).map (·.source) = outlets.map (·.source) := by
  rw [List.map_map]
  rfl

theorem inputs_nested_eq (p : Packing) (name author : String) :
    (p.nested name author p.inlets p.outlets).inputs =
      p.includedInputs ++ (p.inlets.map p.placeInlet).map (·.input) := by
  rw [inputs_nested, innerInputs, List.map_append, List.map_map, List.map_map, List.map_map]
  rfl

theorem outputs_nested_eq (p : Packing) (name author : String) :
    (p.nested name author p.inlets p.outlets).outputs =
      (p.selectedOutlets.map p.placeOutlet ++ p.consumedOutlets.map p.placeOutlet).map
        (·.output) := by
  rw [← List.map_append, ← outlets_eq, nested, List.map_map, List.map_map]
  rfl

namespace Yields

variable {packed : Packed} {nested : Component}

theorem exactInputs (h : p.Yields packed nested) :
    ExactInputs p.resolve p.selection p.parent p.graph packed.wrapper nested p.includedInputs
      (p.inlets.map p.placeInlet) := by
  have hdistinct := h.nodup_inputs
  obtain ⟨name, author, rfl⟩ := h.nested_eq
  exact {
    inputs := p.inputs_nested_eq name author
    distinct := hdistinct
    included_names := by
      rw [includedInputs, List.map_map]
      exact names_selectedInputs h.accepted
    sources := by
      intro source
      rw [sources_placeInlet, mem_sources_inlets_iff, readsOutside_iff]
    sources_distinct := by
      rw [sources_placeInlet]
      exact p.nodup_sources_inlets
    typed := by
      intro _ hmem type
      obtain ⟨inlet, hinlet, rfl⟩ := List.mem_map.1 hmem
      obtain ⟨taken, annotations, heq⟩ := inlet_spec hinlet
      rw [placeInlet, heq]
      exact typeOf?_eq_some_iff
    fed := by
      intro _ hmem
      obtain ⟨inlet, hinlet, rfl⟩ := List.mem_map.1 hmem
      have hfed := get?_wrapperArguments_inlet hinlet
      rwa [← h.arguments_eq] at hfed
    arguments := by
      rw [h.arguments_eq, names_inputs_nested]
      exact p.keys_wrapperArguments_perm }

theorem exactOutputs (h : p.Yields packed nested) :
    ExactOutputs p.selection p.graph nested p.innerGraph (p.selectedOutlets.map p.placeOutlet)
      (p.consumedOutlets.map p.placeOutlet) := by
  obtain ⟨name, author, rfl⟩ := h.nested_eq
  exact {
    outputs := p.outputs_nested_eq name author
    distinct := by
      rw [names_outputs_nested]
      exact p.nodup_outlets
    bindings := by
      rw [names_outputs_nested]
      exact p.keys_innerGraph_perm
    bound := by
      intro _ hmem
      rw [← List.map_append, ← outlets_eq] at hmem
      obtain ⟨outlet, houtlet, rfl⟩ := List.mem_map.1 hmem
      have hbound := get?_outputValues_innerGraph houtlet
      exact hbound
    exposed_bound := by
      intro name o
      rw [← exists_selectedOutlet_iff h.accepted]
      simp only [List.mem_map, exists_exists_and_eq_and]
      rfl
    consumed_read := by
      intro o
      rw [sources_placeOutlet]
      exact mem_sources_consumedOutlets_iff h.accepted
    consumed_distinct := by
      rw [sources_placeOutlet]
      exact p.nodup_sources_consumedOutlets.1 }

theorem exactMappings (h : p.Yields packed nested) :
    ExactMappings p.selection p.graph packed.mappings nested p.innerGraph where
  targets := by
    intro site o
    rw [h.mappings_eq]
    exact exists_mapping_iff h.accepted
  targets_distinct := by
    rw [h.mappings_eq]
    exact p.nodup_targets_mappings
  bound := by
    intro m hm
    rw [h.mappings_eq] at hm
    obtain ⟨-, -, -, outlet, houtlet, hsource, hname⟩ := outlet_of_mem_mappings hm
    rw [← hsource, ← hname]
    exact get?_outputValues_innerGraph houtlet
  serving := by
    intro output houtput
    have hdeclared := Component.hasOutput_iff.2 (List.mem_map_of_mem (f := (·.name)) houtput)
    obtain ⟨outlet, houtlet, hname⟩ := h.hasOutput_iff.1 hdeclared
    obtain ⟨m, hm, hnested, hsource⟩ := exists_mapping_of_outlet h.accepted houtlet
    rw [h.mappings_eq]
    refine ⟨m, hm, hnested.trans hname, ?_⟩
    rw [← hname, hsource]
    exact get?_outputValues_innerGraph houtlet

end Yields

end Packing

/-- The interface of a packed selection is exactly what its edge needs: the inputs, the arguments of
the wrapper, the outputs and the mappings. The selection is packed unless the codec fails. -/
theorem Component.interface_of_pack (host : Host) (options : PackOptions) (selection : Selection)
    {parent : Component} {g : Graph} (hg : parent.graph? = some g)
    (hcheck : selection.check parent g = .ok ()) :
    (∀ packed, parent.pack host options selection = .ok packed →
      ∃ nested inner included inlets exposed consumed,
        packed.wrapper.reference.spec = some nested ∧ nested.graph? = some inner ∧
        ExactInputs host.resolve selection parent g packed.wrapper nested included inlets ∧
        ExactOutputs selection g nested inner exposed consumed ∧
        ExactMappings selection g packed.mappings nested inner) ∧
    ((∀ c, ∃ text, host.codec.serialize c = .ok text) →
      ∃ packed, parent.pack host options selection = .ok packed) := by
  refine ⟨fun packed hpack => ?_, fun hcodec => exists_pack hg hcheck hcodec⟩
  obtain ⟨-, nested, hyields⟩ := yields_of_pack hg hpack
  exact ⟨nested, _, _, _, _, _, hyields.spec_eq, hyields.graph?_eq, hyields.exactInputs,
    hyields.exactOutputs, hyields.exactMappings⟩

/-- Two selected tasks share one source, whose name is that of another source and of a selected
input, and one of their outputs is read by a task and by two outputs. -/
def surveyGraph : Graph where
  tasks := NameMap.ofList [
    ("left", { reference := {}, arguments := .ofList [("in", .graphInput "rows")] }),
    ("right", { reference := {}, arguments := .ofList [("in", .graphInput "rows")] }),
    ("match", { reference := {}, arguments := .ofList [
      ("a", .taskOutput ⟨"left", "rows"⟩), ("b", .taskOutput ⟨"right", "rows"⟩),
      ("c", .graphInput "rows")] }),
    ("score", { reference := {}, arguments := .ofList [
      ("a", .taskOutput ⟨"left", "rows"⟩), ("pairs", .taskOutput ⟨"match", "pairs"⟩)] }),
    ("report", { reference := {}, arguments := .ofList [
      ("pairs", .taskOutput ⟨"match", "pairs"⟩), ("score", .taskOutput ⟨"score", "score"⟩)] })]
  outputValues := .ofList [("matches", ⟨"match", "pairs"⟩), ("pairs", ⟨"match", "pairs"⟩)]

def surveyPipeline : Component where
  inputs := [{ name := "rows", type := some (.named "Table") }]
  outputs := [{ name := "matches" }, { name := "pairs" }]
  implementation := some (.graph surveyGraph)

def surveySelection : Selection :=
  .ofList [(.task, "match"), (.task, "score"), (.input, "rows"), (.output, "pairs")]

theorem interface_of_pack_survey :
    surveyPipeline.graph? = some surveyGraph ∧
    surveySelection.check surveyPipeline surveyGraph = .ok () ∧
    ∃ packed nested inner included inlets exposed consumed,
      surveyPipeline.pack {} {} surveySelection = .ok packed ∧
      packed.wrapper.reference.spec = some nested ∧ nested.graph? = some inner ∧
      ExactInputs .inline surveySelection surveyPipeline surveyGraph packed.wrapper nested included
        inlets ∧
      ExactOutputs surveySelection surveyGraph nested inner exposed consumed ∧
      ExactMappings surveySelection surveyGraph packed.mappings nested inner := by
  have hg : surveyPipeline.graph? = some surveyGraph := rfl
  have hcheck : surveySelection.check surveyPipeline surveyGraph = .ok () := rfl
  obtain ⟨hexact, hpack⟩ := Component.interface_of_pack {} {} surveySelection hg hcheck
  obtain ⟨packed, hpacked⟩ := hpack fun c => ⟨c.text, rfl⟩
  obtain ⟨nested, inner, included, inlets, exposed, consumed, h⟩ := hexact packed hpacked
  exact ⟨hg, hcheck, packed, nested, inner, included, inlets, exposed, consumed, hpacked, h⟩

end TaskGraph
