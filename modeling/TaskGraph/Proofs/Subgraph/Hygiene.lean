import TaskGraph.Proofs.Subgraph.PackClosed
import TaskGraph.Proofs.Subgraph.UnpackWiring

/-!
# What becomes of dangling references

An id is free if no task has it, whatever the references say. A reference that names no task goes on
naming the id that it names, and so it dangles in the result as well, unless by coincidence this id
has just been given: to the new wrapper, or to an inner task in the parent. A dangling reference of
a nested graph may also meet a task that stands beside the wrapper, or name the wrapper itself.
-/
namespace TaskGraph

/-- The site reads an output of a task that the graph does not have. -/
def Graph.DanglesAt (g : Graph) (site : Site) (o : TaskOutput) : Prop :=
  g.source? site = some o ∧ ¬ g.containsTask o.task

/-- What becomes of the dangling references of `g` when a selection becomes the graph `inner` and
`outer` has the wrapper in its place: they dangle on, unless they name the id of the wrapper. -/
structure PackHygiene (selection : Selection) (g : Graph) (wrapperId : String)
    (inner outer : Graph) : Prop where
  wrapper_fresh : ¬ g.containsTask wrapperId
  outside : ∀ site o, site.isOutside selection.tasks ∅ → g.DanglesAt site o →
    outer.source? site = some o
  selected : ∀ id name o, selection.tasks.contains id → g.DanglesAt (.argument id name) o →
    ∃ x, inner.argument? id name = some (.graphInput x) ∧
      outer.source? (.argument wrapperId x) = some o
  inner_resolved : ∀ site o, inner.source? site = some o → inner.containsTask o.task
  captured_iff : ∀ o : TaskOutput, ¬ g.containsTask o.task →
    (outer.containsTask o.task ↔ o.task = wrapperId)

/-- Who reads the one task output in the parent reads the other one, which dangles, once the outputs
of the wrapper are followed. -/
inductive Strays (outer : Graph) (wrapperId : String) (inner : Graph) :
    TaskOutput → TaskOutput → Prop
  | outer {o : TaskOutput} (dangling : ¬ outer.containsTask o.task) :
      Strays outer wrapperId inner o o
  | inner {output : String} {o : TaskOutput} (bound : inner.outputValues.get? output = some o)
      (dangling : ¬ inner.containsTask o.task) : Strays outer wrapperId inner ⟨wrapperId, output⟩ o

/-- The site is neither an argument of the wrapper nor the binding of a new output. -/
def Site.Survives (wrapperId : String) (parent result : Component) : Site → Prop
  | .argument task _ => task ≠ wrapperId
  | .output name => result.hasOutput name → parent.hasOutput name

/-- What becomes of the dangling references of `outer` and of `inner` when a wrapper is unpacked:
they dangle on, unless they name an id that an inner task gets or, in the case of `inner`, that of a
task beside the wrapper. Those of `inner` to the wrapper itself are followed like any others. -/
structure UnpackHygiene (parent : Component) (outer : Graph) (wrapperId : String)
    (nested : Component) (inner : Graph) (result : Component) (graph : Graph)
    (rename : String → String) : Prop where
  rename_fresh : ∀ i, inner.containsTask i → ¬ outer.containsTask (rename i)
  beside : ∀ site o₀ o, site.Survives wrapperId parent result → outer.source? site = some o₀ →
    Strays outer wrapperId inner o₀ o → graph.source? site = some o
  spliced : ∀ i name x o₀ o, inner.argument? i name = some (.graphInput x) →
    outer.source? (.argument wrapperId x) = some o₀ → Strays outer wrapperId inner o₀ o →
    graph.source? (.argument (rename i) name) = some o
  inner_argument : ∀ i name o, inner.DanglesAt (.argument i name) o →
    Followed rename wrapperId inner o (graph.source? (.argument (rename i) name))
  inner_output : ∀ output o, inner.DanglesAt (.output output) o → nested.hasOutput output →
    (∀ site, outer.source? site ≠ some ⟨wrapperId, output⟩) →
    ∃ new, ¬ parent.hasOutput new ∧ result.hasOutput new ∧
      Followed rename wrapperId inner o (graph.source? (.output new))
  captured_iff : ∀ o : TaskOutput, ¬ outer.containsTask o.task →
    (graph.containsTask o.task ↔ ∃ i, inner.containsTask i ∧ rename i = o.task)
  inner_captured_iff : ∀ o : TaskOutput, ¬ inner.containsTask o.task →
    (graph.containsTask o.task ↔ (∃ i, inner.containsTask i ∧ rename i = o.task) ∨
      outer.containsTask o.task ∧ o.task ≠ wrapperId)

namespace Packing.Yields

variable {p : Packing} {packed : Packed} {nested : Component}

theorem unselected_of_dangling (h : p.Yields packed nested) {o : TaskOutput}
    (ho : ¬ p.graph.containsTask o.task) : ¬ p.selection.tasks.contains o.task :=
  fun hselected => ho (h.contains_selected hselected)

theorem eq_of_rewired (h : p.Yields packed nested) {o o' : TaskOutput}
    (ho : ¬ p.graph.containsTask o.task)
    (hr : Rewired p.selection.tasks packed.wrapperId nested p.innerGraph o o') : o' = o := by
  cases hr with
  | kept => rfl
  | moved hselected => exact absurd hselected (h.unselected_of_dangling ho)

theorem source?_of_dangling (h : p.Yields packed nested) {site : Site} {o : TaskOutput}
    (hside : site.isOutside p.selection.tasks ∅) (ho : p.graph.DanglesAt site o) :
    (packed.appliedGraph p.selection p.graph).source? site = some o := by
  obtain ⟨hsource, hdangling⟩ := ho
  cases site with
  | output name =>
    have hrel := h.rel_outputValues name
    have hget : p.graph.outputValues.get? name = some o := hsource
    rw [hget] at hrel
    obtain ⟨o', ho', hr⟩ := exists_of_some_rel hrel
    rw [h.eq_of_rewired hdangling hr] at ho'
    exact ho'
  | argument id name =>
    rw [Graph.source?_argument_eq_some_iff] at hsource
    have hid : ¬ p.selection.tasks.contains id := by simpa [Site.isOutside] using hside
    have hrel := h.rel_argument? (Graph.containsTask_of_argument? hsource) hid name
    rw [hsource] at hrel
    obtain ⟨a, ha, hr⟩ := exists_of_some_rel hrel
    rw [Graph.source?_argument_eq_some_iff, ha]
    cases hr with
    | taskOutput hr => rw [h.eq_of_rewired hdangling hr]

theorem exists_inlet_of_dangling (h : p.Yields packed nested) {id name : String} {o : TaskOutput}
    (hid : p.selection.tasks.contains id) (ho : p.graph.DanglesAt (.argument id name) o) :
    ∃ x, p.innerGraph.argument? id name = some (.graphInput x) ∧
      (packed.appliedGraph p.selection p.graph).source? (.argument packed.wrapperId x) =
        some o := by
  obtain ⟨hsource, hdangling⟩ := ho
  rw [Graph.source?_argument_eq_some_iff] at hsource
  rw [argument?_innerGraph hid, hsource, Option.map_some]
  have hfed := h.fed_innerArgument hid hsource
  generalize p.innerArgument p.inlets (.taskOutput o) = a at hfed
  cases hfed with
  | inner hselected => exact absurd hselected (h.unselected_of_dangling hdangling)
  | taskOutput _ _ hread =>
    refine ⟨_, rfl, ?_⟩
    rw [Graph.source?_argument_eq_some_iff, Graph.argument?_of_task? h.task?_wrapperId]
    exact hread

theorem packHygiene (h : p.Yields packed nested) :
    PackHygiene p.selection p.graph packed.wrapperId p.innerGraph
      (packed.appliedGraph p.selection p.graph) where
  wrapper_fresh := fun hw => h.ne_wrapperId hw rfl
  outside := fun site o => h.source?_of_dangling
  selected := fun id name o => h.exists_inlet_of_dangling
  inner_resolved := fun site o ho => h.containsTask_innerGraph_iff.2 (h.source_of_inner ho).1
  captured_iff := by
    intro o ho
    rw [h.containsTask_appliedGraph_iff, or_iff_left fun hmem => ho hmem.1]

end Packing.Yields

namespace Unpacking

variable {u : Unpacking}

theorem redirect_of_dangling {o : TaskOutput} (ho : ¬ u.inner.containsTask o.task) :
    redirect u.taskIds o = o := by
  rw [redirect_taskIds, newId_of_notContainsTask ho]

theorem reconnect_of_strays (hw : u.outer.containsTask u.wrapperId) {o₀ o : TaskOutput}
    (h : Strays u.outer u.wrapperId u.inner o₀ o) : u.reconnect u.taskIds o₀ = some o := by
  cases h with
  | outer hdangling => exact reconnect_of_ne fun heq => hdangling (heq ▸ hw)
  | inner hbound hdangling =>
    rw [reconnect, if_pos rfl, hbound, Option.map_some, redirect_of_dangling hdangling]

theorem source?_graph_of_survives {site : Site} {o₀ : TaskOutput}
    (hsite : site.Survives u.wrapperId u.parent u.result) (ho : u.outer.source? site = some o₀) :
    u.graph.source? site = u.reconnect u.taskIds o₀ := by
  cases site with
  | output name =>
    have hget : u.outer.outputValues.get? name = some o₀ := ho
    rw [Graph.source?, get?_outputValues_graph_of_ne, hget, Option.bind_some]
    intro x hx
    exact notHasOutput_of_new hx (hsite (hasOutput_result_of_new hx))
  | argument k name =>
    rw [Graph.source?_argument_eq_some_iff] at ho
    rw [Graph.source?, argument?_graph_of_outer (Graph.containsTask_of_argument? ho) hsite, ho,
      Option.bind_some, bind_taskOutput?_reconnectArgument]

theorem source?_graph_of_wrapper {i name x : String} {o₀ : TaskOutput}
    (hw : u.outer.task? u.wrapperId = some u.wrapper)
    (hi : u.inner.argument? i name = some (.graphInput x))
    (ho : u.outer.source? (.argument u.wrapperId x) = some o₀) :
    u.graph.source? (.argument (u.newId i) name) = u.reconnect u.taskIds o₀ := by
  rw [Graph.source?_argument_eq_some_iff, Graph.argument?_of_task? hw] at ho
  have hnone := get?_inputNames_of_fed ho fun value => Argument.noConfusion
  rw [Graph.source?, argument?_graph_newId (NameMap.From.contains_of_get? hw)
    (Graph.containsTask_of_argument? hi), hi, Option.bind_some, spliceArgument, outerArgument,
    hnone, ho, Option.getD_some, bind_taskOutput?_reconnectArgument]

theorem source?_graph_of_inner (hw : u.outer.containsTask u.wrapperId) {i name : String}
    {o : TaskOutput} (ho : u.inner.DanglesAt (.argument i name) o) :
    u.graph.source? (.argument (u.newId i) name) = u.reconnect u.taskIds o := by
  obtain ⟨hsource, hdangling⟩ := ho
  rw [Graph.source?_argument_eq_some_iff] at hsource
  rw [Graph.source?, argument?_graph_newId hw (Graph.containsTask_of_argument? hsource), hsource,
    Option.bind_some, spliceArgument, outerArgument, redirect_of_dangling hdangling,
    bind_taskOutput?_reconnectArgument]

theorem exists_output_of_dangling {output : String} {o : TaskOutput}
    (ho : u.inner.DanglesAt (.output output) o) (hdeclared : u.nested.hasOutput output)
    (hunread : ∀ site, u.outer.source? site ≠ some ⟨u.wrapperId, output⟩) :
    ∃ new, ¬ u.parent.hasOutput new ∧ u.result.hasOutput new ∧
      u.graph.source? (.output new) = u.reconnect u.taskIds o := by
  obtain ⟨hsource, hdangling⟩ := ho
  have hbound : u.inner.outputValues.get? output = some o := hsource
  obtain ⟨new, hget⟩ :=
    exists_get?_outputNames hdeclared (NameMap.From.contains_of_get? hbound) hunread
  refine ⟨new, notHasOutput_of_new hget, hasOutput_result_of_new hget, ?_⟩
  rw [Graph.source?, get?_outputValues_graph_new hget hbound, redirect_of_dangling hdangling]

theorem unpackHygiene (hwrapper : u.outer.task? u.wrapperId = some u.wrapper) :
    UnpackHygiene u.parent u.outer u.wrapperId u.nested u.inner u.result u.graph u.newId := by
  have hw : u.outer.containsTask u.wrapperId := NameMap.From.contains_of_get? hwrapper
  exact {
    rename_fresh := fun i hi => newId_fresh hi
    beside := by
      intro site o₀ o hsite ho hstrays
      rw [source?_graph_of_survives hsite ho, reconnect_of_strays hw hstrays]
    spliced := by
      intro i name x o₀ o hi ho hstrays
      rw [source?_graph_of_wrapper hwrapper hi ho, reconnect_of_strays hw hstrays]
    inner_argument := by
      intro i name o ho
      rw [source?_graph_of_inner hw ho]
      exact u.followed_reconnect o
    inner_output := by
      intro output o ho hdeclared hunread
      obtain ⟨new, hnew, houtput, hsource⟩ := exists_output_of_dangling ho hdeclared hunread
      refine ⟨new, hnew, houtput, ?_⟩
      rw [hsource]
      exact u.followed_reconnect o
    captured_iff := by
      intro o ho
      rw [containsTask_graph_iff hw, or_iff_left fun hmem => ho hmem.1]
    inner_captured_iff := fun o _ => containsTask_graph_iff hw }

end Unpacking

/-- Packing and unpacking leave a dangling reference dangling, unless it names an id that has just
been given or, in a nested graph, the id of a task beside the wrapper. Nothing is assumed of the
graphs; packing fails only if the selection is unknown or the codec fails. -/
theorem Component.hygiene_of_pack_and_unpack {parent : Component} {g : Graph}
    (hg : parent.graph? = some g) :
    (∀ (host : Host) (options : PackOptions) (selection : Selection),
      (∀ packed, parent.pack host options selection = .ok packed → ∃ nested inner result outer,
        packed.wrapper.reference.spec = some nested ∧ nested.graph? = some inner ∧
        packed.apply selection parent = .ok result ∧ result.graph? = some outer ∧
        PackHygiene selection g packed.wrapperId inner outer) ∧
      (selection.check parent g = .ok () → (∀ c, ∃ text, host.codec.serialize c = .ok text) →
        ∃ packed, parent.pack host options selection = .ok packed)) ∧
    ∀ (resolve : Resolver) (task : String) (wrapper : Task) (nested : Component) (inner : Graph),
      g.task? task = some wrapper → resolve wrapper.reference = some nested →
      nested.graph? = some inner → ∃ result graph rename,
        parent.unpack resolve task = .ok result ∧ result.graph? = some graph ∧
        UnpackHygiene parent g task nested inner result graph rename := by
  constructor
  · intro host options selection
    refine ⟨?_, fun hcheck hcodec => exists_pack hg hcheck hcodec⟩
    intro packed hpack
    obtain ⟨-, nested, hyields⟩ := yields_of_pack hg hpack
    exact ⟨nested, _, _, _, hyields.spec_eq, hyields.graph?_eq, Packed.apply_eq_ok hg,
      Packed.graph?_applied, hyields.packHygiene⟩
  · intro resolve task wrapper nested inner hwrapper hresolve hnested
    let u : Unpacking := ⟨task, wrapper, nested, inner, parent, g⟩
    have hu : u.outer.task? u.wrapperId = some u.wrapper := hwrapper
    exact ⟨u.result, u.graph, u.newId, unpack_eq_ok hg hwrapper hresolve hnested, u.graph?_result,
      Unpacking.unpackHygiene hu⟩

def alignGraph : Graph where
  tasks := NameMap.ofList [
    ("align", { reference := {}, arguments := .ofList [
      ("index", .taskOutput ⟨"index", "fasta"⟩), ("log", .taskOutput ⟨"report 2", "log"⟩),
      ("again", .taskOutput ⟨"sample", "bam"⟩)] }),
    ("report", { reference := {} })]
  outputValues := .ofList [("bam", ⟨"report", "bam"⟩)]

def aligner : Component where
  outputs := [{ name := "bam" }]
  implementation := some (.graph alignGraph)

def sampleGraph : Graph where
  tasks := NameMap.ofList [
    ("index", { reference := {} }),
    ("report", { reference := {}, arguments := .ofList [
      ("bam", .taskOutput ⟨"align", "bam"⟩), ("table", .taskOutput ⟨"Subgraph", "table"⟩)] }),
    ("sample", { reference := .toComponent aligner })]
  outputValues := .ofList [("bam", ⟨"gone", "bam"⟩)]

def samplePipeline : Component where
  implementation := some (.graph sampleGraph)

def indexSelection : Selection := .ofList [(.task, "index")]

theorem hygiene_of_pack_and_unpack_sample :
    samplePipeline.graph? = some sampleGraph ∧
    (∃ packed nested inner result outer, samplePipeline.pack {} {} indexSelection = .ok packed ∧
      packed.wrapper.reference.spec = some nested ∧ nested.graph? = some inner ∧
      packed.apply indexSelection samplePipeline = .ok result ∧ result.graph? = some outer ∧
      PackHygiene indexSelection sampleGraph packed.wrapperId inner outer) ∧
    ∃ result graph rename,
      samplePipeline.unpack .inline "sample" = .ok result ∧ result.graph? = some graph ∧
      UnpackHygiene samplePipeline sampleGraph "sample" aligner alignGraph result graph rename := by
  have hg : samplePipeline.graph? = some sampleGraph := rfl
  obtain ⟨hpack, hunpack⟩ := Component.hygiene_of_pack_and_unpack hg
  obtain ⟨hygiene, hexists⟩ := hpack {} {} indexSelection
  obtain ⟨packed, hpacked⟩ := hexists rfl fun c => ⟨c.text, rfl⟩
  obtain ⟨nested, inner, result, outer, h⟩ := hygiene packed hpacked
  exact ⟨hg, ⟨packed, nested, inner, result, outer, hpacked, h⟩,
    hunpack .inline "sample" _ aligner alignGraph rfl rfl rfl⟩

/-- The site reads no task of the one graph, and the other site a task of the other one. -/
def Captured (g : Graph) (site : Site) (graph : Graph) (site' : Site) : Prop :=
  (∃ o, g.DanglesAt site o) ∧ ∃ o, graph.source? site' = some o ∧ graph.containsTask o.task

/-- A dangling reference to the id of the new wrapper is captured, and so is one to the id of an
inner task. References of the nested graph are captured by a task beside the wrapper, by another
inner task, and through the wrapper itself. A binding of no declared output gives way to that of a
new one. -/
theorem dangling_references_captured :
    (∃ packed result graph, samplePipeline.pack {} {} indexSelection = .ok packed ∧
      packed.apply indexSelection samplePipeline = .ok result ∧ result.graph? = some graph ∧
      Captured sampleGraph (.argument "report" "table") graph (.argument "report" "table")) ∧
    ∃ result graph,
      samplePipeline.unpack .inline "sample" = .ok result ∧ result.graph? = some graph ∧
      Captured sampleGraph (.argument "report" "bam") graph (.argument "report" "bam") ∧
      Captured sampleGraph (.output "bam") graph (.output "bam") ∧
      Captured alignGraph (.argument "align" "index") graph (.argument "align" "index") ∧
      Captured alignGraph (.argument "align" "log") graph (.argument "align" "log") ∧
      Captured alignGraph (.argument "align" "again") graph (.argument "align" "again") := by
  refine ⟨⟨_, _, _, rfl, rfl, rfl, ⟨_, rfl, by decide⟩, _, rfl, by decide⟩, _, _, rfl, rfl,
    ⟨⟨_, rfl, by decide⟩, _, rfl, by decide⟩, ⟨⟨_, rfl, by decide⟩, _, rfl, by decide⟩,
    ⟨⟨_, rfl, by decide⟩, _, rfl, by decide⟩, ⟨⟨_, rfl, by decide⟩, _, rfl, by decide⟩,
    ⟨⟨_, rfl, by decide⟩, _, rfl, by decide⟩⟩

end TaskGraph
