import TaskGraph.Proofs.Subgraph.UnpackedGraph

/-!
# Unpacking preserves the wiring

Every edge that led into the wrapper or out of it is followed through the wrapper: a reading of an
output of the wrapper becomes a reading of what the nested graph bound to that output, and a reading
of a nested input becomes what the wrapper read there. Edges between inner tasks are renamed, and
all others stay. The wrapper may read itself; such an argument is followed twice.
-/
namespace TaskGraph

/-- What becomes of the reading of a task output when a wrapper of `inner` is unpacked. -/
inductive Followed (rename : String → String) (wrapperId : String) (inner : Graph) :
    TaskOutput → Option TaskOutput → Prop
  | kept {o : TaskOutput} (other : o.task ≠ wrapperId) : Followed rename wrapperId inner o (some o)
  | bound {output : String} {o : TaskOutput} (binding : inner.outputValues.get? output = some o) :
      Followed rename wrapperId inner ⟨wrapperId, output⟩ (some ⟨rename o.task, o.output⟩)
  | unbound {output : String} (binding : inner.outputValues.get? output = none) :
      Followed rename wrapperId inner ⟨wrapperId, output⟩ none

inductive Argument.Followed (r : TaskOutput → Option TaskOutput → Prop) :
    Argument → Option Argument → Prop
  | literal (value : String) : Followed r (.literal value) (some (.literal value))
  | graphInput (name : String) : Followed r (.graphInput name) (some (.graphInput name))
  | secret (name : String) : Followed r (.secret name) (some (.secret name))
  | taskOutput {o : TaskOutput} {o' : Option TaskOutput} (h : r o o') :
      Followed r (.taskOutput o) (o'.map .taskOutput)

/-- What becomes of an argument of an inner task. -/
inductive Spliced (rename inputName : String → String) (wrapperId : String) (wrapper : Task)
    (nested : Component) (inner : Graph) (parent result : Component) :
    Argument → Option Argument → Prop
  | literal (value : String) : Spliced rename inputName wrapperId wrapper nested inner parent result
      (.literal value) (some (.literal value))
  | secret (name : String) : Spliced rename inputName wrapperId wrapper nested inner parent result
      (.secret name) (some (.secret name))
  | taskOutput (o : TaskOutput) :
      Spliced rename inputName wrapperId wrapper nested inner parent result
        (.taskOutput o) (some (.taskOutput ⟨rename o.task, o.output⟩))
  | fedLiteral {x value : String} {i : Input} {annotations : Annotations}
      (declared : nested.input? x = some i)
      (fed : wrapper.arguments.get? x = some (.literal value))
      (agree : annotations.AgreeButPosition i.annotations)
      (new : ¬ parent.hasInput (inputName x))
      (input : result.input? (inputName x) = some
        { i with name := inputName x, default := some value, value := none, annotations }) :
      Spliced rename inputName wrapperId wrapper nested inner parent result
        (.graphInput x) (some (.graphInput (inputName x)))
  | unfed {x : String} {i : Input} {annotations : Annotations}
      (declared : nested.input? x = some i)
      (unfed : wrapper.arguments.get? x = none)
      (agree : annotations.AgreeButPosition i.annotations)
      (new : ¬ parent.hasInput (inputName x))
      (input : result.input? (inputName x) = some
        { i with name := inputName x, value := none, annotations }) :
      Spliced rename inputName wrapperId wrapper nested inner parent result
        (.graphInput x) (some (.graphInput (inputName x)))
  | fed {x : String} {a : Argument} {a' : Option Argument}
      (fed : wrapper.arguments.get? x = some a) (notLiteral : ∀ value, a ≠ .literal value)
      (followed : a.Followed (Followed rename wrapperId inner) a') :
      Spliced rename inputName wrapperId wrapper nested inner parent result (.graphInput x) a'

/-- The task gives an input a literal or nothing. -/
def Task.LeavesOpen (t : Task) (input : String) : Prop :=
  ∀ a, t.arguments.get? input = some a → ∃ value, a = .literal value

/-- The wiring of `outer`, the graph of `parent`, after the wrapper of `nested` has given way to its
graph `inner`; `graph` is then the graph of `result`. -/
structure UnpackedWiring (parent : Component) (outer : Graph) (wrapperId : String) (wrapper : Task)
    (nested : Component) (inner : Graph) (result : Component) (graph : Graph)
    (rename inputName : String → String) : Prop where
  rename_injective : ∀ i j, inner.containsTask i → inner.containsTask j →
    rename i = rename j → i = j
  rename_fresh : ∀ i, inner.containsTask i → ¬ outer.containsTask (rename i)
  inputName_injective : ∀ x y, nested.hasInput x → nested.hasInput y → wrapper.LeavesOpen x →
    wrapper.LeavesOpen y → inputName x = inputName y → x = y
  tasks : ∀ k, graph.containsTask k ↔
    (∃ i, inner.containsTask i ∧ rename i = k) ∨ outer.containsTask k ∧ k ≠ wrapperId
  inner_task : ∀ i t, inner.task? i = some t → ∃ arguments annotations,
    annotations.AgreeButPosition t.annotations ∧
    graph.task? (rename i) = some { t with arguments, annotations }
  inner_argument : ∀ i name a, inner.argument? i name = some a →
    Spliced rename inputName wrapperId wrapper nested inner parent result a
      (graph.argument? (rename i) name)
  inner_missing : ∀ i name, inner.containsTask i → inner.argument? i name = none →
    graph.argument? (rename i) name = none
  sibling_task : ∀ k t, k ≠ wrapperId → outer.task? k = some t →
    ∃ arguments, graph.task? k = some { t with arguments }
  sibling_argument : ∀ k name a, k ≠ wrapperId → outer.argument? k name = some a →
    a.Followed (Followed rename wrapperId inner) (graph.argument? k name)
  sibling_missing : ∀ k name, k ≠ wrapperId → outer.containsTask k →
    outer.argument? k name = none → graph.argument? k name = none
  binding : ∀ name o, outer.outputValues.get? name = some o →
    Followed rename wrapperId inner o (graph.outputValues.get? name)
  new_binding : ∀ name o, outer.outputValues.get? name = none →
    graph.outputValues.get? name = some o → result.hasOutput name ∧
    ∃ output source, nested.hasOutput output ∧
      (∀ site, outer.source? site ≠ some ⟨wrapperId, output⟩) ∧
      inner.outputValues.get? output = some source ∧ o = ⟨rename source.task, source.output⟩
  unread_output : ∀ output source, nested.hasOutput output →
    (∀ site, outer.source? site ≠ some ⟨wrapperId, output⟩) →
    inner.outputValues.get? output = some source → ∃ name, ¬ parent.hasOutput name ∧
      result.hasOutput name ∧
      graph.outputValues.get? name = some ⟨rename source.task, source.output⟩
  inputs_kept : parent.inputs <+: result.inputs
  outputs_kept : parent.outputs <+: result.outputs

namespace Unpacking

variable {u : Unpacking}

theorem followed_reconnect (u : Unpacking) (o : TaskOutput) :
    Followed u.newId u.wrapperId u.inner o (u.reconnect u.taskIds o) := by
  rw [reconnect]
  by_cases hw : o.task = u.wrapperId
  · obtain ⟨task, output⟩ := o
    obtain rfl : task = u.wrapperId := hw
    rw [if_pos rfl]
    cases hbinding : u.inner.outputValues.get? output with
    | none => exact .unbound hbinding
    | some source => exact .bound hbinding
  · rw [if_neg hw]
    exact .kept hw

theorem followed_reconnectArgument (u : Unpacking) (a : Argument) :
    a.Followed (Followed u.newId u.wrapperId u.inner) (u.reconnectArgument a) := by
  cases a with
  | literal value => exact .literal value
  | graphInput name => exact .graphInput name
  | secret name => exact .secret name
  | taskOutput o => exact .taskOutput (u.followed_reconnect o)

def inputName (u : Unpacking) (x : String) : String := (u.inputs.names.get? x).getD x

theorem exists_newInput?_of_leavesOpen {i : Input} (h : u.wrapper.LeavesOpen i.name) :
    ∃ j, u.newInput? i = some j := by
  rw [newInput?]
  cases ha : u.wrapper.arguments.get? i.name with
  | none => exact ⟨_, rfl⟩
  | some a =>
    obtain ⟨value, rfl⟩ := h a ha
    exact ⟨_, rfl⟩

theorem newInput_spec (hnodup : (u.nested.inputs.map (·.name)).Nodup) {x : String} {i j : Input}
    (hi : u.nested.input? x = some i) (hj : u.newInput? i = some j) :
    u.inputs.names.get? x = some (u.inputName x) ∧ ¬ u.parent.hasInput (u.inputName x) ∧
      u.result.input? (u.inputName x) = some (renameInput j (u.inputName x)) := by
  obtain ⟨new, hnew, hmem⟩ := exists_newInput hnodup (Component.mem_of_input? hi) hj
  rw [Component.name_of_input? hi] at hnew
  have hname : u.inputName x = new := by rw [inputName, hnew, Option.getD_some]
  rw [hname]
  exact ⟨hnew, notHasInput_of_new hmem, input?_result_of_new hmem⟩

theorem get?_inputNames_of_leavesOpen (hnodup : (u.nested.inputs.map (·.name)).Nodup) {x : String}
    (hx : u.nested.hasInput x) (hopen : u.wrapper.LeavesOpen x) :
    u.inputs.names.get? x = some (u.inputName x) := by
  obtain ⟨i, hi⟩ := Component.exists_input?_of_hasInput hx
  obtain ⟨j, hj⟩ := exists_newInput?_of_leavesOpen (Component.name_of_input? hi ▸ hopen)
  exact (newInput_spec hnodup hi hj).1

theorem eq_of_inputName_eq {x y : String} (hx : u.inputs.names.get? x = some (u.inputName x))
    (hy : u.inputs.names.get? y = some (u.inputName y)) (heq : u.inputName x = u.inputName y) :
    x = y := by
  rw [← heq] at hy
  rw [inputs_eq] at hx hy
  exact Materialized.eq_of_get?_names hx hy

theorem spliced_graphInput (hnodup : (u.nested.inputs.map (·.name)).Nodup) {x : String}
    (hx : u.nested.hasInput x) :
    Spliced u.newId u.inputName u.wrapperId u.wrapper u.nested u.inner u.parent u.result
      (.graphInput x) (u.spliceArgument (.graphInput x)) := by
  obtain ⟨i, hi⟩ := Component.exists_input?_of_hasInput hx
  have hname := Component.name_of_input? hi
  cases ha : u.wrapper.arguments.get? x with
  | none =>
    have hj : u.newInput? i =
        some { i with value := none, annotations := u.place i.annotations } := by
      rw [newInput?, hname, ha]
    obtain ⟨hget, hnew, hinput⟩ := newInput_spec hnodup hi hj
    rw [spliceArgument, outerArgument, hget]
    exact .unfed hi ha (u.agree_place _) hnew hinput
  | some a =>
    by_cases hliteral : ∃ value, a = .literal value
    · obtain ⟨value, rfl⟩ := hliteral
      have hj : u.newInput? i = some { i with
          default := some value
          value := none
          annotations := u.place i.annotations } := by
        rw [newInput?, hname, ha]
      obtain ⟨hget, hnew, hinput⟩ := newInput_spec hnodup hi hj
      rw [spliceArgument, outerArgument, hget]
      exact .fedLiteral hi ha (u.agree_place _) hnew hinput
    · have hnone := get?_inputNames_of_fed ha fun value heq => hliteral ⟨value, heq⟩
      rw [spliceArgument, outerArgument, hnone, ha, Option.getD_some]
      exact .fed ha (fun value heq => hliteral ⟨value, heq⟩) (u.followed_reconnectArgument a)

theorem reconnect_redirect (hw : u.outer.containsTask u.wrapperId) {o : TaskOutput}
    (ho : u.inner.containsTask o.task) :
    u.reconnect u.taskIds (redirect u.taskIds o) = some ⟨u.newId o.task, o.output⟩ := by
  rw [redirect_taskIds, reconnect_of_ne (newId_ne_wrapperId hw ho)]

theorem spliced_argument (hw : u.outer.containsTask u.wrapperId)
    (hnodup : (u.nested.inputs.map (·.name)).Nodup)
    (hreferences : ∀ r ∈ u.inner.references, u.inner.containsTask r.2.task)
    (hinputs : ∀ x ∈ u.inner.referencedInputs.keys, u.nested.hasInput x) {i name : String}
    {a : Argument} (ha : u.inner.argument? i name = some a) :
    Spliced u.newId u.inputName u.wrapperId u.wrapper u.nested u.inner u.parent u.result a
      (u.spliceArgument a) := by
  cases a with
  | literal value => exact .literal value
  | secret secret => exact .secret secret
  | graphInput x =>
    have hread := Graph.contains_referencedInputs_iff.2 ⟨i, name, ha⟩
    exact spliced_graphInput hnodup (hinputs x (NameMap.From.mem_keys_iff_contains.2 hread))
  | taskOutput o =>
    have hsource := Graph.source?_argument_eq_some_iff.2 ha
    have ho := hreferences _ (Graph.mem_references_iff.2 hsource)
    rw [spliceArgument, outerArgument, reconnectArgument, reconnect_redirect hw ho]
    exact .taskOutput o

theorem get?_outputValues_graph_of_hasOutput {name : String} (hname : u.parent.hasOutput name) :
    u.graph.outputValues.get? name =
      (u.outer.outputValues.get? name).bind (u.reconnect u.taskIds) := by
  apply get?_outputValues_graph_of_ne
  intro x hx
  exact notHasOutput_of_new hx hname

theorem get?_outputValues_graph_of_outer
    (hbindings : ∀ name ∈ u.outer.outputValues.keys, u.parent.hasOutput name) {name : String}
    (hname : u.outer.outputValues.contains name) :
    u.graph.outputValues.get? name =
      (u.outer.outputValues.get? name).bind (u.reconnect u.taskIds) :=
  get?_outputValues_graph_of_hasOutput
    (hbindings name (NameMap.From.mem_keys_iff_contains.2 hname))

theorem get?_outputValues_graph_unread (hw : u.outer.containsTask u.wrapperId)
    (hreferences : ∀ r ∈ u.inner.references, u.inner.containsTask r.2.task) {x new : String}
    {source : TaskOutput} (hnew : u.outputs.names.get? x = some new)
    (hsource : u.inner.outputValues.get? x = some source) :
    u.graph.outputValues.get? new = some ⟨u.newId source.task, source.output⟩ := by
  have hclosed := hreferences (.output x, source) (Graph.mem_references_iff.2 hsource)
  rw [get?_outputValues_graph_new hnew hsource, reconnect_redirect hw hclosed]

/-- A binding under a name that was not bound before is that of a nested output. -/
theorem exists_unread_of_new_binding (hw : u.outer.containsTask u.wrapperId)
    (hreferences : ∀ r ∈ u.inner.references, u.inner.containsTask r.2.task) {name : String}
    {o : TaskOutput} (hnone : u.outer.outputValues.get? name = none)
    (ho : u.graph.outputValues.get? name = some o) :
    u.result.hasOutput name ∧ ∃ x source, u.nested.hasOutput x ∧
      (∀ site, u.outer.source? site ≠ some ⟨u.wrapperId, x⟩) ∧
      u.inner.outputValues.get? x = some source ∧ o = ⟨u.newId source.task, source.output⟩ := by
  by_cases hnew : ∃ x, u.outputs.names.get? x = some name
  · obtain ⟨x, hx⟩ := hnew
    obtain ⟨hdeclared, hbound, hunread⟩ := of_get?_outputNames hx
    obtain ⟨source, hsource⟩ := NameMap.From.contains_iff.1 hbound
    rw [get?_outputValues_graph_unread hw hreferences hx hsource, Option.some.injEq] at ho
    exact ⟨hasOutput_result_of_new hx, x, source, hdeclared, hunread, hsource, ho.symm⟩
  · rw [get?_outputValues_graph_of_ne fun x hx => hnew ⟨x, hx⟩, hnone] at ho
    cases ho

theorem unpackedWiring (hw : u.outer.containsTask u.wrapperId)
    (hbindings : ∀ name ∈ u.outer.outputValues.keys, u.parent.hasOutput name)
    (hinputNames : (u.nested.inputs.map (·.name)).Nodup)
    (houtputNames : (u.nested.outputs.map (·.name)).Nodup)
    (hreferences : ∀ r ∈ u.inner.references, u.inner.containsTask r.2.task)
    (hinputs : ∀ x ∈ u.inner.referencedInputs.keys, u.nested.hasInput x) :
    UnpackedWiring u.parent u.outer u.wrapperId u.wrapper u.nested u.inner u.result u.graph
      u.newId u.inputName where
  rename_injective := fun i j hi hj h => newId_injective hi hj h
  rename_fresh := fun i hi => newId_fresh hi
  inputName_injective := by
    intro x y hx hy hxopen hyopen heq
    have hgetx := get?_inputNames_of_leavesOpen hinputNames hx hxopen
    have hgety := get?_inputNames_of_leavesOpen hinputNames hy hyopen
    exact eq_of_inputName_eq hgetx hgety heq
  tasks := fun k => containsTask_graph_iff hw
  inner_task := by
    intro i t ht
    exact ⟨_, _, u.agree_place _, task?_graph_newId hw ht⟩
  inner_argument := by
    intro i name a ha
    have hi := Graph.containsTask_of_argument? ha
    rw [argument?_graph_newId hw hi, ha, Option.bind_some]
    exact spliced_argument hw hinputNames hreferences hinputs ha
  inner_missing := by
    intro i name hi ha
    rw [argument?_graph_newId hw hi, ha, Option.bind_none]
  sibling_task := by
    intro k t hne ht
    exact ⟨_, task?_graph_of_outer ht hne⟩
  sibling_argument := by
    intro k name a hne ha
    have hk := Graph.containsTask_of_argument? ha
    rw [argument?_graph_of_outer hk hne, ha, Option.bind_some]
    exact u.followed_reconnectArgument a
  sibling_missing := by
    intro k name hne hk ha
    rw [argument?_graph_of_outer hk hne, ha, Option.bind_none]
  binding := by
    intro name o ho
    rw [get?_outputValues_graph_of_outer hbindings (NameMap.From.contains_of_get? ho), ho,
      Option.bind_some]
    exact u.followed_reconnect o
  new_binding := fun name o hnone ho => exists_unread_of_new_binding hw hreferences hnone ho
  unread_output := by
    intro output source hdeclared hunread hsource
    obtain ⟨new, hnew⟩ := exists_newOutput houtputNames hdeclared
      (NameMap.From.contains_of_get? hsource) hunread
    exact ⟨new, notHasOutput_of_new hnew, hasOutput_result_of_new hnew,
      get?_outputValues_graph_unread hw hreferences hnew hsource⟩
  inputs_kept := List.prefix_append _ _
  outputs_kept := List.prefix_append _ _

end Unpacking

namespace Component

variable {resolve : Resolver} {task : String} {parent : Component} {outer : Graph} {wrapper : Task}
  {nested : Component} {inner : Graph}

theorem unpack_eq_ok (hparent : parent.graph? = some outer)
    (hwrapper : outer.task? task = some wrapper)
    (hresolve : resolve wrapper.reference = some nested) (hnested : nested.graph? = some inner) :
    parent.unpack resolve task =
      .ok (Unpacking.result ⟨task, wrapper, nested, inner, parent, outer⟩) := by
  simp only [unpack, requireGraph_eq_ok_iff.2 hparent, bind, Except.bind, hwrapper, hresolve,
    hnested]

/-- Unpacking preserves the wiring of a graph, provided that the nested graph has no dangling edges.
The inner tasks and the nested inputs are renamed injectively. -/
theorem wiring_of_unpack (hparent : parent.graph? = some outer)
    (hwrapper : outer.task? task = some wrapper)
    (hresolve : resolve wrapper.reference = some nested) (hnested : nested.graph? = some inner)
    (hbindings : ∀ name ∈ outer.outputValues.keys, parent.hasOutput name)
    (hinputNames : (nested.inputs.map (·.name)).Nodup)
    (houtputNames : (nested.outputs.map (·.name)).Nodup)
    (hreferences : ∀ r ∈ inner.references, inner.containsTask r.2.task)
    (hinputs : ∀ x ∈ inner.referencedInputs.keys, nested.hasInput x) :
    ∃ result graph rename inputName, parent.unpack resolve task = .ok result ∧
      result.graph? = some graph ∧
      UnpackedWiring parent outer task wrapper nested inner result graph rename inputName := by
  let u : Unpacking := ⟨task, wrapper, nested, inner, parent, outer⟩
  have hw : u.outer.containsTask u.wrapperId := Graph.containsTask_iff.2 ⟨wrapper, hwrapper⟩
  exact ⟨u.result, u.graph, u.newId, u.inputName,
    unpack_eq_ok hparent hwrapper hresolve hnested, u.graph?_result,
    u.unpackedWiring hw hbindings hinputNames houtputNames hreferences hinputs⟩

end Component

/-- A graph whose task `calls` reads an input that is fed a literal and one that is fed nothing, and
whose task `merge` reads an input that is fed an output of the wrapper itself. -/
def variantGraph : Graph where
  tasks := NameMap.ofList [
    ("calls", { reference := {}, arguments := .ofList [
      ("reads", .graphInput "reads"), ("ploidy", .graphInput "ploidy")] }),
    ("merge", { reference := {}, arguments := .ofList [
      ("known", .graphInput "known"), ("new", .taskOutput ⟨"calls", "variants"⟩)] })]
  outputValues := .ofList [("variants", ⟨"calls", "variants"⟩), ("merged", ⟨"merge", "variants"⟩)]

def variantCaller : Component where
  inputs := [{ name := "reads" }, { name := "ploidy", default := some "2" }, { name := "known" }]
  outputs := [{ name := "variants" }, { name := "merged" }]
  implementation := some (.graph variantGraph)

/-- The wrapper of the variant caller; its ids collide with a task beside it. -/
def variantWrapper : Task where
  reference := .toComponent variantCaller
  arguments := .ofList [
    ("reads", .literal "sample.bam"), ("known", .taskOutput ⟨"wrapper", "variants"⟩)]

def cohortGraph : Graph where
  tasks := NameMap.ofList [("wrapper", variantWrapper),
    ("merge", { reference := {}, arguments := .ofList [
      ("vcf", .taskOutput ⟨"wrapper", "merged"⟩)] })]
  outputValues := .ofList [("summary", ⟨"merge", "table"⟩)]

def cohortPipeline : Component where
  outputs := [{ name := "summary" }]
  implementation := some (.graph cohortGraph)

theorem wiring_of_unpack_cohort :
    cohortPipeline.graph? = some cohortGraph ∧ cohortGraph.task? "wrapper" = some variantWrapper ∧
    ∃ result graph rename inputName,
      cohortPipeline.unpack .inline "wrapper" = .ok result ∧ result.graph? = some graph ∧
      UnpackedWiring cohortPipeline cohortGraph "wrapper" variantWrapper variantCaller variantGraph
        result graph rename inputName :=
  ⟨rfl, rfl, Component.wiring_of_unpack rfl rfl rfl rfl (by decide) (by decide) (by decide)
    (by decide) (by decide)⟩

end TaskGraph
