import TaskGraph.Proofs.Subgraph.Session

/-!
# The work in a component

A task stands for a piece of work: the component that it instantiates and the way it is run. The
pieces are collected over all levels, each as often as it occurs. Packing adds the wrapper to them
and unpacking takes the wrapper away; all other pieces stay. So a session keeps the pieces that are
no graphs themselves, and the number of the others says how often a component can be unpacked.
-/
namespace TaskGraph

/-- The component that a task instantiates, and how the task is run. -/
abbrev Work := Reference × Option Execution

def Work.isGraph (w : Work) : Bool := w.1.spec.any (·.isGraph)

def Task.piece (t : Task) : Work := (t.reference, t.execution)

mutual

/-- The work of the tasks of a component and of the graphs that stand in their references, at all
levels. -/
def Component.work : Component → List Work
  | ⟨_, _, _, _, none, _, _⟩ => []
  | ⟨_, _, _, _, some (.container _), _, _⟩ => []
  | ⟨_, _, _, _, some (.graph ⟨tasks, _⟩), _, _⟩ => workOfTasks tasks

def workOfTasks : {lo : Option String} → NameMap.From Task lo → List Work
  | _, .nil => []
  | _, .cons _ t _ rest => t.work ++ workOfTasks rest

def Task.work : Task → List Work
  | ⟨reference, _, _, execution⟩ => (reference, execution) :: reference.work

def Reference.work : Reference → List Work
  | ⟨_, _, _, none, _⟩ => []
  | ⟨_, _, _, some c, _⟩ => c.work

end

/-- The pieces of work that are no graphs, each as often as it occurs. -/
def Component.leaves (c : Component) : List Work := c.work.filter (!·.isGraph)

/-- The number of tasks that are graphs, at all levels. -/
def Component.graphCount (c : Component) : Nat := c.work.countP (·.isGraph)

theorem Component.work_of_graph? {c : Component} {g : Graph} (h : c.graph? = some g) :
    c.work = workOfTasks g.tasks := by
  fun_cases Component.work c <;> simp_all [Component.graph?]
  subst h
  rfl

theorem Reference.work_of_spec {r : Reference} {c : Component} (h : r.spec = some c) :
    r.work = c.work := by
  obtain ⟨name, digest, url, spec, text⟩ := r
  obtain rfl : spec = some c := h
  rfl

theorem Task.work_eq (t : Task) : t.work = t.piece :: t.reference.work := by
  cases t
  rfl

theorem Task.work_congr {s t : Task} (h : s.piece = t.piece) : s.work = t.work := by
  have hreference : s.reference = t.reference := congrArg Prod.fst h
  rw [work_eq, work_eq, h, hreference]

theorem workOfTasks_eq {lo : Option String} (tasks : NameMap.From Task lo) :
    workOfTasks tasks = tasks.toList.flatMap (·.2.work) := by
  induction tasks with
  | nil => rfl
  | cons id t h rest ih => rw [workOfTasks, NameMap.From.toList, List.flatMap_cons, ih]

/-- Changing the arguments and annotations of tasks changes no work. -/
theorem workOfTasks_map {lo : Option String} {f : String → Task → Task}
    (h : ∀ id t, (f id t).piece = t.piece) (tasks : NameMap.From Task lo) :
    workOfTasks (tasks.map f) = workOfTasks tasks := by
  rw [workOfTasks_eq, workOfTasks_eq, NameMap.From.toList_map, List.flatMap_map]
  apply List.flatMap_congr
  intro e _
  exact Task.work_congr (h e.1 e.2)

theorem workOfTasks_perm {lo : Option String} {tasks : NameMap.From Task lo}
    {entries : List (String × Task)} (h : tasks.toList.Perm entries) :
    (workOfTasks tasks).Perm (entries.flatMap (·.2.work)) := by
  rw [workOfTasks_eq]
  exact h.flatMap_right _

namespace Packed

theorem workOfTasks_rewire (wrapperId : String) (g : Graph) (m : Mapping) :
    workOfTasks (rewire wrapperId g m).tasks = workOfTasks g.tasks := by
  rw [rewire]
  cases m.target with
  | output name => rfl
  | argument task name =>
    apply workOfTasks_map
    intro id t
    split <;> rfl

theorem workOfTasks_foldl_rewire (wrapperId : String) (mappings : List Mapping) (g : Graph) :
    workOfTasks (mappings.foldl (rewire wrapperId) g).tasks = workOfTasks g.tasks := by
  induction mappings generalizing g with
  | nil => rfl
  | cons m mappings ih => rw [List.foldl_cons, ih, workOfTasks_rewire]

theorem work_applied (packed : Packed) (selection : Selection) (parent : Component) (g : Graph) :
    (packed.applied selection parent g).work.Perm
      (packed.wrapper.work ++ workOfTasks (rest selection g).tasks) := by
  rw [Component.work_of_graph? graph?_applied]
  have hfree : (packed.mappings.foldl (rewire (packed.appliedId selection g))
      (rest selection g)).tasks.get? (packed.appliedId selection g) = none := by
    have htask := task?_foldl_rewire (packed.appliedId selection g) (packed.appliedId selection g)
      packed.mappings (rest selection g)
    rw [task?_rest_appliedId] at htask
    exact htask
  have hperm := workOfTasks_perm (NameMap.toList_insert_perm packed.wrapper hfree)
  rw [List.flatMap_cons, ← workOfTasks_eq, workOfTasks_foldl_rewire] at hperm
  exact hperm

end Packed

namespace Packing

variable {p : Packing}

theorem workOfTasks_innerGraph (p : Packing) :
    workOfTasks p.innerGraph.tasks = workOfTasks p.selectedTasks := by
  have hplace : workOfTasks p.innerGraph.tasks = workOfTasks (p.innerTasks p.inlets) := by
    apply workOfTasks_map
    exact fun _ _ => rfl
  have hinner : workOfTasks (p.innerTasks p.inlets) = workOfTasks p.selectedTasks := by
    apply workOfTasks_map
    exact fun _ _ => rfl
  exact hplace.trans hinner

/-- Packing adds the wrapper to the work of the parent. -/
theorem Yields.work_applied {packed : Packed} {nested : Component} (h : p.Yields packed nested)
    (hg : p.parent.graph? = some p.graph) :
    (packed.applied p.selection p.parent p.graph).work.Perm
      (packed.wrapper.piece :: p.parent.work) := by
  have hsplit := workOfTasks_perm
    (NameMap.From.toList_filter_perm (fun id => p.selection.tasks.contains id) p.graph.tasks)
  rw [List.flatMap_append, ← workOfTasks_eq, ← workOfTasks_eq] at hsplit
  have hwrapper : packed.wrapper.work = packed.wrapper.piece :: workOfTasks p.selectedTasks := by
    rw [Task.work_eq, Reference.work_of_spec h.spec_eq, Component.work_of_graph? h.graph?_eq,
      workOfTasks_innerGraph]
  have happlied := packed.work_applied p.selection p.parent p.graph
  rw [hwrapper, List.cons_append] at happlied
  rw [Component.work_of_graph? hg]
  exact happlied.trans (hsplit.symm.cons _)

end Packing

namespace Unpacking

variable {u : Unpacking}

theorem workOfTasks_withInnerTasks (u : Unpacking) :
    (workOfTasks (u.withInnerTasks u.taskIds u.inputs.names u.outer).tasks).Perm
      (workOfTasks u.inner.tasks ++ workOfTasks u.outer.tasks) := by
  rw [tasks_withInnerTasks, workOfTasks_eq u.inner.tasks, workOfTasks_eq u.outer.tasks]
  let entries := u.inner.tasks.toList.map fun e =>
    (u.newId e.1, u.outerTask u.taskIds u.inputs.names e.2)
  have hentries : entries.flatMap (·.2.work) = u.inner.tasks.toList.flatMap (·.2.work) := by
    rw [List.flatMap_map]
    exact List.flatMap_congr fun e _ => Task.work_congr rfl
  rw [← hentries, ← List.flatMap_append]
  apply workOfTasks_perm
  apply NameMap.toList_insertAll_perm
  · rw [map_fst_withInnerTasks]
    exact u.nodup_newIds
  · intro k hk
    rw [map_fst_withInnerTasks] at hk
    obtain ⟨i, hi, rfl⟩ := List.mem_map.1 hk
    have hfresh := newId_fresh (Graph.mem_taskKeys_iff.1 hi)
    rw [Bool.not_eq_true] at hfresh
    exact NameMap.From.contains_eq_false_iff.1 hfresh

/-- Unpacking takes the wrapper from the work of the parent. -/
theorem work_result (hparent : u.parent.graph? = some u.outer)
    (hwrapper : u.outer.task? u.wrapperId = some u.wrapper)
    (hspec : u.wrapper.reference.spec = some u.nested) (hnested : u.nested.graph? = some u.inner) :
    u.parent.work.Perm (u.wrapper.piece :: u.result.work) := by
  let withInner := u.withInnerTasks u.taskIds u.inputs.names u.outer
  have hwork : u.wrapper.work = u.wrapper.piece :: workOfTasks u.inner.tasks := by
    rw [Task.work_eq, Reference.work_of_spec hspec, Component.work_of_graph? hnested]
  have hget : withInner.tasks.get? u.wrapperId = some u.wrapper := by
    have hcontains := Graph.containsTask_iff.2 ⟨_, hwrapper⟩
    exact (task?_withInnerTasks_of_ne fun i hi => newId_ne_wrapperId hcontains hi).trans hwrapper
  have herase := workOfTasks_perm (NameMap.From.toList_erase_perm hget)
  have hresult : u.result.work = workOfTasks (withInner.tasks.erase u.wrapperId) := by
    rw [Component.work_of_graph? u.graph?_result]
    apply workOfTasks_map
    exact fun _ _ => rfl
  rw [List.flatMap_cons, ← workOfTasks_eq, ← hresult, hwork, List.cons_append] at herase
  have hall := herase.symm.trans u.workOfTasks_withInnerTasks
  rw [Component.work_of_graph? hparent]
  have hmiddle : (workOfTasks u.inner.tasks ++ u.wrapper.piece :: u.result.work).Perm
      (workOfTasks u.inner.tasks ++ workOfTasks u.outer.tasks) :=
    List.perm_middle.trans hall
  exact ((List.perm_append_left_iff _).1 hmiddle).symm

end Unpacking

namespace Component

variable {start c c' : Component} {w : Work}

theorem leaves_perm_of_work_perm (h : c'.work.Perm (w :: c.work)) (hw : w.isGraph) :
    c'.leaves.Perm c.leaves := by
  have hfilter := h.filter (!·.isGraph)
  rwa [List.filter_cons_of_neg (by simp [hw])] at hfilter

theorem graphCount_of_work_perm (h : c'.work.Perm (w :: c.work)) (hw : w.isGraph) :
    c'.graphCount = c.graphCount + 1 := by
  rw [graphCount, h.countP_eq, List.countP_cons_of_pos hw]
  rfl

def IsGraphTask (c : Component) (task : String) : Prop :=
  ∃ g t, c.graph? = some g ∧ g.task? task = some t ∧ t.piece.isGraph

def UnpacksTo (c c' : Component) : Prop :=
  ∃ task, c.IsGraphTask task ∧ (Edit.unpack task).perform .inline c = .ok c'

theorem work_perm_of_pack {codec : Codec} {author : Option String} {options : PackOptions}
    {selection : Selection}
    (h : (Edit.pack codec author options selection).perform .inline c = .ok c') :
    ∃ w : Work, w.isGraph ∧ c'.work.Perm (w :: c.work) := by
  obtain ⟨packed, hpack, happly⟩ := Edit.perform_pack_eq_ok_iff.1 h
  obtain ⟨g, hg, rfl⟩ := Packed.apply_eq_ok_iff.1 happly
  obtain ⟨-, nested, hyields⟩ := yields_of_pack hg hpack
  refine ⟨packed.wrapper.piece, ?_, hyields.work_applied hg⟩
  rw [Work.isGraph, Task.piece, hyields.spec_eq, Option.any_some, isGraph, hyields.graph?_eq]
  rfl

/-- Unpacking a task takes one graph from the work of a component, or changes nothing if the task
is no graph. -/
theorem work_perm_of_unpack {task : String}
    (h : (Edit.unpack task).perform .inline c = .ok c') :
    (∃ w : Work, w.isGraph ∧ c.work.Perm (w :: c'.work)) ∨ ¬ c.IsGraphTask task ∧ c' = c := by
  obtain ⟨outer, wrapper, hg, hwrapper, hunpack⟩ := unpack_cases h
  rcases hunpack with ⟨hnested, rfl⟩ | ⟨nested, inner, hresolve, hnested, rfl⟩
  · right
    refine ⟨?_, rfl⟩
    rintro ⟨g, t, hg', ht, hgraph⟩
    obtain rfl := Option.some.inj (hg.symm.trans hg')
    obtain rfl := Option.some.inj (hwrapper.symm.trans ht)
    obtain ⟨nested, hspec, hgraph⟩ := (Option.any_eq_true _ _).1 hgraph
    exact hnested nested hspec hgraph
  · left
    let u : Unpacking := ⟨task, wrapper, nested, inner, c, outer⟩
    refine ⟨wrapper.piece, ?_, Unpacking.work_result (u := u) hg hwrapper hresolve hnested⟩
    have hgraph : nested.isGraph := by rw [isGraph, hnested, Option.isSome_some]
    exact (Option.any_eq_true _ _).2 ⟨nested, hresolve, hgraph⟩

theorem graphCount_of_unpacksTo (h : c.UnpacksTo c') : c'.graphCount + 1 = c.graphCount := by
  obtain ⟨task, hgraph, hunpack⟩ := h
  rcases work_perm_of_unpack hunpack with ⟨w, hw, hperm⟩ | ⟨hno, -⟩
  · exact (graphCount_of_work_perm hperm hw).symm
  · exact absurd hgraph hno

theorem exists_unpack {task : String} (h : c.IsGraphTask task) :
    ∃ c', (Edit.unpack task).perform .inline c = .ok c' := by
  obtain ⟨g, t, hg, ht, hgraph⟩ := h
  obtain ⟨nested, hspec, hnested⟩ := (Option.any_eq_true _ _).1 hgraph
  obtain ⟨inner, hinner⟩ := Option.isSome_iff_exists.1 hnested
  exact ⟨_, unpack_eq_ok hg ht hspec hinner⟩

theorem leaves_perm_of_perform {edit : Edit} (h : edit.perform .inline c = .ok c') :
    c'.leaves.Perm c.leaves := by
  cases edit with
  | pack codec author options selection =>
    obtain ⟨w, hw, hperm⟩ := work_perm_of_pack h
    exact leaves_perm_of_work_perm hperm hw
  | unpack task =>
    rcases work_perm_of_unpack h with ⟨w, hw, hperm⟩ | ⟨-, rfl⟩
    · exact (leaves_perm_of_work_perm hperm hw).symm
    · exact .refl _

theorem leaves_perm_of_session (h : Session .inline start c) : c.leaves.Perm start.leaves := by
  induction h with
  | start => exact .refl _
  | step edit _ hedit ih => exact (leaves_perm_of_perform hedit).trans ih

theorem graphCount_of_run {run : Nat → Component} {n : Nat}
    (h : ∀ i, i < n → (run i).UnpacksTo (run (i + 1))) :
    (run n).graphCount + n = (run 0).graphCount := by
  induction n with
  | zero => rfl
  | succ n ih =>
    have hstep := graphCount_of_unpacksTo (h n (Nat.lt_succ_self n))
    have hrun := ih fun i hi => h i (Nat.lt_succ_of_lt hi)
    omega

/-- A session neither loses nor repeats a piece of work that is no graph. Each pack adds one graph
to the tasks of all levels, and each unpacking of a graph takes one away, so that there are no more
unpackings in a row than graphs. -/
theorem work_of_session (h : Session .inline start c) :
    c.leaves.Perm start.leaves ∧
    (∀ codec author options selection c',
      (Edit.pack codec author options selection).perform .inline c = .ok c' →
        c'.graphCount = c.graphCount + 1) ∧
    (∀ task, c.IsGraphTask task → ∃ c',
      (Edit.unpack task).perform .inline c = .ok c' ∧ c'.graphCount + 1 = c.graphCount) ∧
    ∀ (run : Nat → Component) (n : Nat), run 0 = c →
      (∀ i, i < n → (run i).UnpacksTo (run (i + 1))) → n ≤ c.graphCount := by
  refine ⟨leaves_perm_of_session h, ?_, ?_, ?_⟩
  · intro codec author options selection c' hpack
    obtain ⟨w, hw, hperm⟩ := work_perm_of_pack hpack
    exact graphCount_of_work_perm hperm hw
  · intro task hgraph
    obtain ⟨c', hunpack⟩ := exists_unpack hgraph
    exact ⟨c', hunpack, graphCount_of_unpacksTo ⟨task, hgraph, hunpack⟩⟩
  · rintro run n rfl hrun
    have hcount := graphCount_of_run hrun
    omega

end Component

/-- Packing the task beside the wrapper and unpacking the wrapper leaves one graph and the three
tasks that are none. -/
theorem work_of_session_cohort :
    ∃ c c', (Edit.pack .compact none {} mergeSelection).perform .inline cohortPipeline = .ok c ∧
      c.UnpacksTo c' ∧ Session .inline cohortPipeline c' ∧
      c'.leaves.Perm cohortPipeline.leaves ∧ cohortPipeline.leaves.length = 3 ∧
      cohortPipeline.graphCount = 1 ∧ c.graphCount = 2 ∧ c'.graphCount = 1 := by
  have hcount : cohortPipeline.graphCount = 1 := rfl
  obtain ⟨c, g, arguments, hpack, hg, hwrapper⟩ := exists_perform_pack_cohort
  have hstart : Session .inline cohortPipeline cohortPipeline := .start
  obtain ⟨-, honeMore, -⟩ := Component.work_of_session hstart
  have hpacked := honeMore _ _ _ _ _ hpack
  have hsession : Session .inline cohortPipeline c := .step _ .start hpack
  have hgraph : c.IsGraphTask "wrapper" := ⟨g, _, hg, hwrapper, rfl⟩
  obtain ⟨-, -, hunpack, -⟩ := Component.work_of_session hsession
  obtain ⟨c', hedit, honeLess⟩ := hunpack "wrapper" hgraph
  have hsession' : Session .inline cohortPipeline c' := .step _ hsession hedit
  exact ⟨c, c', hpack, ⟨"wrapper", hgraph, hedit⟩, hsession',
    (Component.work_of_session hsession').1, rfl, hcount, by omega, by omega⟩

end TaskGraph
