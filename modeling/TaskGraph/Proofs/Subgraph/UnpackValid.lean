import TaskGraph.Proofs.Subgraph.UnpackClosed
import TaskGraph.Proofs.Validation.Valid

/-!
# Unpacking keeps a component valid

Unpacking a valid graph from a valid parent gives a valid component, provided that the graph binds
the outputs that are read of the wrapper. A path of the result either stays inside the unpacked
graph or becomes a path of the parent when the unpacked tasks are taken for the wrapper, so that a
cycle of the result would be a cycle of one of the two. A new input is never required, since the
wrapper had to feed the nested inputs that are.
-/
open Relation

namespace TaskGraph

variable {resolve : Resolver}

/-- The task of the parent that a task of the result comes from. -/
inductive Origin (rename : String → String) (wrapperId : String) (inner outer : Graph) :
    String → String → Prop
  | inner {i : String} (task : inner.containsTask i) :
      Origin rename wrapperId inner outer (rename i) wrapperId
  | sibling {k : String} (task : outer.containsTask k) (other : k ≠ wrapperId) :
      Origin rename wrapperId inner outer k k

theorem Argument.Followed.of_taskOutput {r : TaskOutput → Option TaskOutput → Prop} {a : Argument}
    {o' : TaskOutput} (h : a.Followed r (some (.taskOutput o'))) :
    ∃ o, a = .taskOutput o ∧ r o (some o') := by
  generalize hb : some (Argument.taskOutput o') = b at h
  cases h with
  | literal value => cases hb
  | graphInput name => cases hb
  | secret secret => cases hb
  | taskOutput hr =>
    obtain ⟨_, rfl, heq⟩ := Option.map_eq_some_iff.1 hb.symm
    cases heq
    exact ⟨_, rfl, hr⟩

namespace UnpackedWiring

variable {parent : Component} {outer : Graph} {wrapperId : String} {wrapper : Task}
  {nested : Component} {inner : Graph} {result : Component} {graph : Graph}
  {rename inputName : String → String}

theorem dependsOn_of_followed (houter : outer.WellWired resolve parent)
    (hinner : inner.WellWired resolve nested) {x name : String} {a : Argument} {o : TaskOutput}
    (hread : outer.argument? x name = some a)
    (hfollowed : a.Followed (Followed rename wrapperId inner) (some (.taskOutput o))) :
    ∃ y, Origin rename wrapperId inner outer o.task y ∧ outer.DependsOn x y := by
  obtain ⟨o₀, rfl, hr⟩ := hfollowed.of_taskOutput
  have hexists := Graph.containsTask_of_provides
    (houter.provides_source (Graph.source?_argument_eq_some_iff.2 hread))
  cases hr with
  | kept hother => exact ⟨_, .sibling hexists hother, hexists, name, _, hread⟩
  | @bound output source hbinding =>
    have hsource : inner.source? (.output output) = some source := hbinding
    have htask := Graph.containsTask_of_provides (hinner.provides_source hsource)
    exact ⟨_, .inner htask, hexists, name, output, hread⟩

/-- What is read of the wrapper is found again if the nested graph binds it. -/
theorem exists_of_followed (hbound : ∀ site output,
      outer.source? site = some ⟨wrapperId, output⟩ → inner.outputValues.contains output)
    {x name : String} {a : Argument} {b : Option Argument}
    (hread : outer.argument? x name = some a)
    (hfollowed : a.Followed (Followed rename wrapperId inner) b) : ∃ b', b = some b' := by
  cases hfollowed with
  | literal value => exact ⟨_, rfl⟩
  | graphInput name => exact ⟨_, rfl⟩
  | secret secret => exact ⟨_, rfl⟩
  | taskOutput hr =>
    cases hr with
    | kept hother => exact ⟨_, rfl⟩
    | bound hbinding => exact ⟨_, rfl⟩
    | @unbound output hbinding =>
      have hcontains := hbound _ output (Graph.source?_argument_eq_some_iff.2 hread)
      obtain ⟨source, hsource⟩ := NameMap.From.contains_iff.1 hcontains
      rw [hbinding] at hsource
      cases hsource

section

variable
  (w : UnpackedWiring parent outer wrapperId wrapper nested inner result graph rename inputName)
  (hwrapper : outer.task? wrapperId = some wrapper)
  (houter : outer.WellWired resolve parent) (hinner : inner.WellWired resolve nested)

include w

theorem origin_unique {k x y : String} (hx : Origin rename wrapperId inner outer k x)
    (hy : Origin rename wrapperId inner outer k y) : x = y := by
  generalize hk : k = k' at hy
  cases hx with
  | inner hi =>
    cases hy with
    | inner => rfl
    | sibling hsibling => exact absurd (hk ▸ hsibling) (w.rename_fresh _ hi)
  | sibling hsibling =>
    cases hy with
    | inner hi => exact absurd (hk ▸ hsibling) (w.rename_fresh _ hi)
    | sibling => exact hk

/-- An argument of the result is one of the parent that has been followed, be it for a task beside
the wrapper or for one that reads what the wrapper did, or it is one of the nested graph. -/
theorem argument_cases (hwrapper : outer.task? wrapperId = some wrapper) {k name : String}
    {b : Argument} (hb : graph.argument? k name = some b) :
    (∃ x n a, Origin rename wrapperId inner outer k x ∧ outer.argument? x n = some a ∧
      a.Followed (Followed rename wrapperId inner) (some b)) ∨
    (∃ i o, rename i = k ∧ inner.argument? i name = some (.taskOutput o) ∧
      b = .taskOutput ⟨rename o.task, o.output⟩) ∨
    ∀ o, b ≠ .taskOutput o := by
  rcases (w.tasks k).1 (Graph.containsTask_of_argument? hb) with ⟨i, hi, rfl⟩ | ⟨hk, hne⟩
  · cases ha : inner.argument? i name with
    | none =>
      rw [w.inner_missing i name hi ha] at hb
      cases hb
    | some a =>
      have hspliced := w.inner_argument i name a ha
      rw [hb] at hspliced
      generalize hb' : some b = b' at hspliced
      cases hspliced with
      | @fed x c _ hfed hliteral hfollowed =>
        have hread : outer.argument? wrapperId x = some c := by
          rw [Graph.argument?_of_task? hwrapper, hfed]
        exact .inl ⟨wrapperId, x, c, .inner hi, hread, hb' ▸ hfollowed⟩
      | taskOutput o => exact .inr (.inl ⟨i, o, rfl, ha, Option.some.inj hb'⟩)
      | _ =>
        obtain rfl := Option.some.inj hb'
        exact .inr (.inr fun o h => by cases h)
  · cases ha : outer.argument? k name with
    | none =>
      rw [w.sibling_missing k name hne hk ha] at hb
      cases hb
    | some a =>
      have hfollowed := w.sibling_argument k name a hne ha
      rw [hb] at hfollowed
      exact .inl ⟨k, name, a, .sibling hk hne, ha, hfollowed⟩

include hwrapper houter hinner

theorem dependsOn_cases {a b : String} (hab : graph.DependsOn a b) :
    (∃ x y, Origin rename wrapperId inner outer a x ∧ Origin rename wrapperId inner outer b y ∧
      outer.DependsOn x y) ∨
    ∃ i j, rename i = a ∧ rename j = b ∧ inner.DependsOn i j := by
  obtain ⟨-, name, output, hread⟩ := hab
  rcases w.argument_cases hwrapper hread with
    ⟨x, n, c, hx, hc, hfollowed⟩ | ⟨i, o, rfl, hi, heq⟩ | hother
  · obtain ⟨y, hy, hdepends⟩ := dependsOn_of_followed houter hinner hc hfollowed
    exact .inl ⟨x, y, hx, hy, hdepends⟩
  · cases heq
    have hsource := Graph.source?_argument_eq_some_iff.2 hi
    have hexists := Graph.containsTask_of_provides (hinner.provides_source hsource)
    exact .inr ⟨i, o.task, rfl, rfl, hexists, name, o.output, hi⟩
  · exact absurd rfl (hother _)

theorem reaches_cases {a b : String} (hab : TransGen graph.DependsOn a b) :
    (∃ x y, Origin rename wrapperId inner outer a x ∧ Origin rename wrapperId inner outer b y ∧
      TransGen outer.DependsOn x y) ∨
    ∃ i j, rename i = a ∧ rename j = b ∧ TransGen inner.DependsOn i j := by
  have hedge {a b : String} (hab : graph.DependsOn a b) :=
    w.dependsOn_cases hwrapper houter hinner hab
  induction hab with
  | single hab =>
    rcases hedge hab with ⟨x, y, hx, hy, hstep⟩ | ⟨i, j, hi, hj, hstep⟩
    · exact .inl ⟨x, y, hx, hy, .single hstep⟩
    · exact .inr ⟨i, j, hi, hj, .single hstep⟩
  | tail _ hbc ih =>
    rcases ih with ⟨x, y, hx, hy, hpath⟩ | ⟨i, j, rfl, rfl, hpath⟩
    · rcases hedge hbc with ⟨y', z, hy', hz, hstep⟩ | ⟨i, j, rfl, rfl, hstep⟩
      · rw [w.origin_unique hy' hy] at hstep
        exact .inl ⟨x, z, hx, hz, hpath.tail hstep⟩
      · rw [w.origin_unique hy (.inner hstep.containsTask.1)] at hpath
        exact .inl ⟨x, wrapperId, hx, .inner hstep.containsTask.2, hpath⟩
    · obtain ⟨c, hic, -⟩ := TransGen.head'_iff.1 hpath
      obtain ⟨d, -, hdj⟩ := TransGen.tail'_iff.1 hpath
      rcases hedge hbc with ⟨y, z, hy, hz, hstep⟩ | ⟨j', k, hj', rfl, hstep⟩
      · rw [w.origin_unique hy (.inner hdj.containsTask.2)] at hstep
        exact .inl ⟨wrapperId, z, .inner hic.containsTask.1, hz, .single hstep⟩
      · obtain rfl := w.rename_injective j' j hstep.containsTask.1 hdj.containsTask.2 hj'
        exact .inr ⟨i, k, rfl, rfl, hpath.tail hstep⟩

theorem acyclic (houterAcyclic : outer.Acyclic) (hinnerAcyclic : inner.Acyclic) :
    graph.Acyclic := by
  intro k hcycle
  rcases w.reaches_cases hwrapper houter hinner hcycle with ⟨x, y, hx, hy, hpath⟩ |
    ⟨i, j, rfl, hj, hpath⟩
  · rw [w.origin_unique hx hy] at hpath
    exact houterAcyclic y hpath
  · obtain ⟨c, hic, -⟩ := TransGen.head'_iff.1 hpath
    obtain ⟨d, -, hdj⟩ := TransGen.tail'_iff.1 hpath
    obtain rfl := w.rename_injective j i hdj.containsTask.2 hic.containsTask.1 hj
    exact hinnerAcyclic j hpath

omit houter hinner

theorem source_cases {site : Site} {o : TaskOutput} (hsource : graph.source? site = some o) :
    (∃ site' o', inner.source? site' = some o' ∧ o = ⟨rename o'.task, o'.output⟩) ∨
      ∃ site', outer.source? site' = some o ∧ o.task ≠ wrapperId := by
  have hfollow {site' : Site} {o₀ : TaskOutput} (hread : outer.source? site' = some o₀)
      (hr : Followed rename wrapperId inner o₀ (some o)) :
      (∃ site' o', inner.source? site' = some o' ∧ o = ⟨rename o'.task, o'.output⟩) ∨
        ∃ site', outer.source? site' = some o ∧ o.task ≠ wrapperId := by
    cases hr with
    | kept hother => exact .inr ⟨site', hread, hother⟩
    | @bound output source hbinding => exact .inl ⟨.output output, source, hbinding, rfl⟩
  cases site with
  | argument k name =>
    rw [Graph.source?_argument_eq_some_iff] at hsource
    rcases w.argument_cases hwrapper hsource with
      ⟨x, n, a, -, ha, hfollowed⟩ | ⟨i, o', -, hi, heq⟩ | hother
    · obtain ⟨o₀, rfl, hr⟩ := hfollowed.of_taskOutput
      exact hfollow (Graph.source?_argument_eq_some_iff.2 ha) hr
    · cases heq
      exact .inl ⟨.argument i name, o', Graph.source?_argument_eq_some_iff.2 hi, rfl⟩
    · exact absurd rfl (hother o)
  | output name =>
    have hget : graph.outputValues.get? name = some o := hsource
    cases hold : outer.outputValues.get? name with
    | none =>
      obtain ⟨-, output, source, -, -, hbinding, rfl⟩ := w.new_binding name o hold hget
      exact .inl ⟨.output output, source, hbinding, rfl⟩
    | some o₀ =>
      have hread : outer.source? (.output name) = some o₀ := hold
      have hr := w.binding name o₀ hold
      rw [hget] at hr
      exact hfollow hread hr

omit hwrapper

theorem component?_rename {i : String} (hi : inner.containsTask i) :
    graph.component? resolve (rename i) = inner.component? resolve i := by
  obtain ⟨t, ht⟩ := Graph.containsTask_iff.1 hi
  obtain ⟨arguments, annotations, -, hcopy⟩ := w.inner_task i t ht
  rw [Graph.component?, Graph.component?, ht, hcopy]
  rfl

theorem component?_sibling {k : String} (hk : outer.containsTask k) (hne : k ≠ wrapperId) :
    graph.component? resolve k = outer.component? resolve k := by
  obtain ⟨t, ht⟩ := Graph.containsTask_iff.1 hk
  obtain ⟨arguments, hsibling⟩ := w.sibling_task k t hne ht
  rw [Graph.component?, Graph.component?, ht, hsibling]
  rfl

theorem exists_argument (hwrapper : outer.task? wrapperId = some wrapper)
    (hbound : ∀ site output, outer.source? site = some ⟨wrapperId, output⟩ →
      inner.outputValues.contains output) :
    (∀ i name a, inner.argument? i name = some a →
      ∃ b, graph.argument? (rename i) name = some b) ∧
    ∀ k name a, k ≠ wrapperId → outer.argument? k name = some a →
      ∃ b, graph.argument? k name = some b := by
  constructor
  · intro i name a ha
    have hspliced := w.inner_argument i name a ha
    generalize graph.argument? (rename i) name = b at hspliced
    cases hspliced with
    | fed hfed hliteral hfollowed =>
      have hread := (Graph.argument?_of_task? hwrapper _).trans hfed
      exact exists_of_followed hbound hread hfollowed
    | _ => exact ⟨_, rfl⟩
  · intro k name a hne ha
    exact exists_of_followed hbound ha (w.sibling_argument k name a hne ha)

theorem valid_graph (hwrapper : outer.task? wrapperId = some wrapper)
    {policy : UnresolvedPolicy} (houter : outer.Valid resolve policy parent)
    (hinner : inner.Valid resolve policy nested)
    (hbound : ∀ site output, outer.source? site = some ⟨wrapperId, output⟩ →
      inner.outputValues.contains output) :
    graph.Valid resolve policy result where
  nonempty := by
    obtain ⟨i, hi⟩ := hinner.nonempty
    exact ⟨rename i, (w.tasks _).2 (.inl ⟨i, hi, rfl⟩)⟩
  referenced := by
    intro k t ht
    rcases w.task_cases ht with ⟨i, t₀, -, ht₀, heq⟩ | ⟨t₀, -, ht₀, heq⟩
    · exact heq ▸ hinner.referenced i t₀ ht₀
    · exact heq ▸ houter.referenced k t₀ ht₀
  wired := w.wellWired hwrapper houter.wired hinner.wired
  resolved := by
    intro hpolicy site o hsource hunresolved
    obtain ⟨hexists, hnone⟩ := hunresolved
    rcases w.source_cases hwrapper hsource with ⟨site', o', hread, rfl⟩ | ⟨site', hread, hne⟩
    · have htask := Graph.containsTask_of_provides (hinner.wired.provides_source hread)
      rw [w.component?_rename htask] at hnone
      exact hinner.resolved hpolicy site' o' hread ⟨htask, hnone⟩
    · have htask := Graph.containsTask_of_provides (houter.wired.provides_source hread)
      rw [w.component?_sibling htask hne] at hnone
      exact houter.resolved hpolicy site' o hread ⟨htask, hnone⟩
  supplied := by
    intro k d hd i hi hrequired
    obtain ⟨hcopied, hkept⟩ := w.exists_argument hwrapper hbound
    obtain ⟨t, ht, hresolved⟩ := Graph.component?_eq_some_iff.1 hd
    rcases w.task_cases ht with ⟨j, t₀, rfl, ht₀, heq⟩ | ⟨t₀, hne, ht₀, heq⟩
    · have hd₀ := Graph.component?_eq_some_iff.2 ⟨t₀, ht₀, heq ▸ hresolved⟩
      obtain ⟨a, ha⟩ := hinner.supplied j d hd₀ i hi hrequired
      exact hcopied j i.name a ha
    · have hd₀ := Graph.component?_eq_some_iff.2 ⟨t₀, ht₀, heq ▸ hresolved⟩
      obtain ⟨a, ha⟩ := houter.supplied k d hd₀ i hi hrequired
      exact hkept k i.name a hne ha
  acyclic := w.acyclic hwrapper houter.wired hinner.wired houter.acyclic hinner.acyclic

end

end UnpackedWiring

namespace Unpacking

variable {u : Unpacking} {options : ValidationOptions}

/-- An input of the result is one of the parent, or it stands for a nested input that the wrapper
left open. -/
theorem input_cases {j : Input} (hj : j ∈ u.result.inputs) :
    j ∈ u.parent.inputs ∨ j ∈ u.inputs.elements :=
  List.mem_append.1 hj

theorem not_isBlank_of_new_input (h : ∀ i ∈ u.nested.inputs, ¬ isBlank i.name) {j : Input}
    (hj : j ∈ u.inputs.elements) : ¬ isBlank j.name := by
  rw [inputs_eq] at hj
  refine Materialized.not_isBlank_of_mem_elements (fun _ _ => rfl) ?_ hj
  intro a ha
  obtain ⟨i, hi, hnew⟩ := List.mem_filterMap.1 ha
  rw [name_of_newInput? hnew]
  exact h i hi

theorem not_isBlank_of_new_output (h : ∀ o ∈ u.nested.outputs, ¬ isBlank o.name) {o' : Output}
    (ho' : o' ∈ u.outputs.elements) : ¬ isBlank o'.name := by
  rw [outputs_eq] at ho'
  refine Materialized.not_isBlank_of_mem_elements (fun _ _ => rfl) ?_ ho'
  intro a ha
  obtain ⟨o, ho, hnew⟩ := List.mem_filterMap.1 ha
  rw [name_of_newOutput? hnew]
  exact h o ho

/-- A new input is not required if the wrapper feeds all nested inputs that are. -/
theorem not_isRequired_of_new_input (hfed : ∀ i ∈ u.nested.inputs, i.isRequired →
      ∃ a, u.wrapper.arguments.get? i.name = some a) {j : Input} (hj : j ∈ u.inputs.elements) :
    ¬ j.isRequired := by
  rw [inputs_eq] at hj
  obtain ⟨⟨a, name⟩, hentry, rfl⟩ := List.mem_map.1 hj
  obtain ⟨i, hi, hnew⟩ := List.mem_filterMap.1 (mem_of_mem_freshNames hentry)
  intro hrequired
  have ha : a.isRequired := hrequired
  rw [newInput?] at hnew
  split at hnew
  · cases hnew
    simp [Input.isRequired] at ha
  · rename_i hnone
    cases hnew
    obtain ⟨b, hb⟩ := hfed i hi ha
    rw [hnone] at hb
    cases hb
  · cases hnew

theorem valid_result (u : Unpacking) (hparent : u.parent.graph? = some u.outer)
    (hwrapper : u.outer.task? u.wrapperId = some u.wrapper)
    (hresolve : resolve u.wrapper.reference = some u.nested)
    (hnested : u.nested.graph? = some u.inner)
    (hbound : ∀ site output, u.outer.source? site = some ⟨u.wrapperId, output⟩ →
      u.inner.outputValues.contains output)
    (hvalid : u.parent.Valid resolve options)
    (hnestedValid : u.nested.Valid resolve options.nested) :
    u.result.Valid resolve options ∧
      ∀ j ∈ u.result.inputs, j ∉ u.parent.inputs → ¬ j.isRequired := by
  have houter := hvalid.graph u.outer hparent
  have hinner := hnestedValid.graph u.inner hnested
  have w := u.unpackedWiring (Graph.containsTask_iff.2 ⟨u.wrapper, hwrapper⟩)
    houter.wired.bindings hnestedValid.inputs hnestedValid.outputs
    (fun r hr => Graph.containsTask_of_provides (hinner.wired.sources r hr)) hinner.wired.inputs
  have hfed : ∀ i ∈ u.nested.inputs, i.isRequired →
      ∃ a, u.wrapper.arguments.get? i.name = some a := by
    intro i hi hrequired
    have hinstance := Graph.component?_eq_some_iff.2 ⟨u.wrapper, hwrapper, hresolve⟩
    obtain ⟨a, ha⟩ := houter.supplied u.wrapperId u.nested hinstance i hi hrequired
    exact ⟨a, (Graph.argument?_of_task? hwrapper _).symm.trans ha⟩
  have hrequired : ∀ j ∈ u.result.inputs, j ∉ u.parent.inputs → ¬ j.isRequired :=
    fun j hj hnew => not_isRequired_of_new_input hfed ((input_cases hj).resolve_left hnew)
  refine ⟨⟨hvalid.named, rfl, ?_, nodup_inputs_result hvalid.inputs, ?_,
    nodup_outputs_result hvalid.outputs, ?_, ?_⟩, hrequired⟩
  · intro j hj
    rcases input_cases hj with hold | hnew
    · exact hvalid.inputNames j hold
    · exact not_isBlank_of_new_input hnestedValid.inputNames hnew
  · intro o ho
    rcases List.mem_append.1 ho with hold | hnew
    · exact hvalid.outputNames o hold
    · exact not_isBlank_of_new_output hnestedValid.outputNames hnew
  · intro hchecked j hj hmust
    by_cases hold : j ∈ u.parent.inputs
    · exact hvalid.valued hchecked j hold hmust
    · exact absurd hmust (hrequired j hj hold)
  · intro g hg
    obtain rfl := Option.some.inj (u.graph?_result.symm.trans hg)
    exact w.valid_graph hwrapper houter hinner hbound

end Unpacking

/-- Unpacking a task whose graph is found valid keeps a component valid, provided that the graph
binds every output that is read of the task. The result has no cycle, every required argument, and
distinct names, and no new input needs a value. -/
theorem Component.isValid_of_unpack {options : ValidationOptions} {task : String}
    {parent nested : Component} {outer inner : Graph} {wrapper : Task}
    (hparent : parent.graph? = some outer) (hwrapper : outer.task? task = some wrapper)
    (hresolve : resolve wrapper.reference = some nested) (hnested : nested.graph? = some inner)
    (hbound : ∀ site output, outer.source? site = some ⟨task, output⟩ →
      inner.outputValues.contains output)
    (hvalid : (parent.validate resolve options).isValid)
    (hnestedValid : (nested.validate resolve options.nested).isValid) :
    ∃ result graph, parent.unpack resolve task = .ok result ∧ result.graph? = some graph ∧
      (result.validate resolve options).isValid ∧ graph.circularTasks = [] ∧
      (∀ id d, graph.component? resolve id = some d → ∀ i ∈ d.inputs, i.isRequired →
        ∃ a, graph.argument? id i.name = some a) ∧
      (∀ i ∈ result.inputs, i ∉ parent.inputs → i.optional ∨ i.default.isSome) ∧
      (result.inputs.map (·.name)).Nodup ∧ (result.outputs.map (·.name)).Nodup := by
  let u : Unpacking := ⟨task, wrapper, nested, inner, parent, outer⟩
  rw [isValid_validate_iff] at hvalid hnestedValid
  obtain ⟨hresult, hnew⟩ : u.result.Valid resolve options ∧
      ∀ j ∈ u.result.inputs, j ∉ parent.inputs → ¬ j.isRequired :=
    u.valid_result hparent hwrapper hresolve hnested hbound hvalid hnestedValid
  have hgraph := hresult.graph u.graph u.graph?_result
  refine ⟨u.result, u.graph, unpack_eq_ok hparent hwrapper hresolve hnested, u.graph?_result,
    isValid_validate_iff.2 hresult, Graph.circularTasks_eq_nil_iff.2 hgraph.acyclic,
    hgraph.supplied, ?_, hresult.inputs, hresult.outputs⟩
  intro i hi hold
  have hoptional := hnew i hi hold
  cases hdefault : i.default <;> simp_all [Input.isRequired]

def callingGraph : Graph where
  tasks := NameMap.ofList [
    ("call", { reference := { url := some "calls.yaml" }, arguments := .ofList [
      ("reads", .graphInput "reads"), ("ploidy", .graphInput "ploidy")] })]
  outputValues := .ofList [("variants", ⟨"call", "vcf"⟩)]

def caller : Component where
  name := some "caller"
  inputs := [{ name := "reads" }, { name := "ploidy", default := some "2" }]
  outputs := [{ name := "variants" }]
  implementation := some (.graph callingGraph)

def callerTask : Task where
  reference := .toComponent caller
  arguments := .ofList [("reads", .literal "sample.bam")]

/-- A graph whose task `merge` reads the output of a task that is a graph itself. -/
def mergingGraph : Graph where
  tasks := NameMap.ofList [("call", callerTask),
    ("merge", { reference := { url := some "merge.yaml" }, arguments := .ofList [
      ("vcf", .taskOutput ⟨"call", "variants"⟩)] })]
  outputValues := .ofList [("table", ⟨"merge", "table"⟩)]

def mergingPipeline : Component where
  name := some "merging"
  outputs := [{ name := "table" }]
  implementation := some (.graph mergingGraph)

theorem isValid_mergingPipeline : (mergingPipeline.validate .inline {}).isValid := by
  have hacyclic : mergingGraph.circularTasks = [] := by cbv
  rw [Component.validate, Component.findings_of_graph? (by decide) rfl, Wiring.findings, hacyclic]
  decide

theorem isValid_caller : (caller.validate .inline ({} : ValidationOptions).nested).isValid := by
  have hacyclic : callingGraph.circularTasks = [] := by cbv
  rw [Component.validate, Component.findings_of_graph? (by decide) rfl, Wiring.findings, hacyclic]
  decide

theorem isValid_of_unpack_merging :
    (mergingPipeline.validate .inline {}).isValid ∧
    (caller.validate .inline ({} : ValidationOptions).nested).isValid ∧
    (∀ site output, mergingGraph.source? site = some ⟨"call", output⟩ →
      callingGraph.outputValues.contains output) ∧
    ∃ result, mergingPipeline.unpack .inline "call" = .ok result ∧
      (result.validate .inline {}).isValid := by
  have hbound : ∀ site output, mergingGraph.source? site = some ⟨"call", output⟩ →
      callingGraph.outputValues.contains output := by
    intro site output hsource
    have hall : ∀ r ∈ mergingGraph.references, r.2.task = "call" →
        callingGraph.outputValues.contains r.2.output := by decide
    exact hall _ (Graph.mem_references_iff.2 hsource) rfl
  have hparent : mergingPipeline.graph? = some mergingGraph := rfl
  have hwrapper : mergingGraph.task? "call" = some callerTask := rfl
  have hresolve : Resolver.inline callerTask.reference = some caller := rfl
  have hgraph : caller.graph? = some callingGraph := rfl
  obtain ⟨result, graph, hunpack, -, hresult, -⟩ :=
    Component.isValid_of_unpack hparent hwrapper hresolve hgraph hbound isValid_mergingPipeline
      isValid_caller
  exact ⟨isValid_mergingPipeline, isValid_caller, hbound, result, hunpack, hresult⟩

end TaskGraph
