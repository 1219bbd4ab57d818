import Mathlib.Data.List.Nodup
import Mathlib.Data.List.Permutation
import Mathlib.Logic.Relation
import TaskGraph.Proofs.Graph
import TaskGraph.Validation.Cycle

/-!
# The circular tasks of a graph

Every task at which the search finds a cycle does lie on a cycle, and there is no cycle that avoids
all of these tasks. A graph without cycles is therefore one in which the search finds nothing. Which
tasks of a cycle are found depends on the order of the search and is not claimed.
-/
open Relation

namespace TaskGraph

/-- What is accessible against a relation lies on none of its cycles. -/
theorem not_transGen_self_of_acc {α : Type u} {r : α → α → Prop} {a : α}
    (h : Acc (fun y x => r x y) a) : ¬ TransGen r a a := by
  induction h with
  | intro a _ ih =>
    intro hcycle
    obtain ⟨b, hab, hba⟩ := TransGen.head'_iff.1 hcycle
    exact ih b hab (TransGen.tail' hba hab)

structure SearchState where
  roots : List String
  path : SearchPath
  fresh : List String
  found : List String

namespace SearchState

variable {dependencies : String → List String}

inductive Step (dependencies : String → List String) : SearchState → SearchState → Prop
  | close {roots task next later rest fresh found}
      (h : next ∈ task :: rest.map (·.1)) :
      Step dependencies ⟨roots, (task, next :: later) :: rest, fresh, found⟩
        ⟨roots, (task, later) :: rest, fresh,
          if next ∈ found then found else found ++ [next]⟩
  | enter {roots task next later rest fresh found} (h : next ∈ fresh) :
      Step dependencies ⟨roots, (task, next :: later) :: rest, fresh, found⟩
        ⟨roots, (next, dependencies next) :: (task, later) :: rest, fresh.erase next, found⟩
  | skip {roots task next later rest fresh found} (hpath : next ∉ task :: rest.map (·.1))
      (hfresh : next ∉ fresh) :
      Step dependencies ⟨roots, (task, next :: later) :: rest, fresh, found⟩
        ⟨roots, (task, later) :: rest, fresh, found⟩
  | leave {roots task rest fresh found} :
      Step dependencies ⟨roots, (task, []) :: rest, fresh, found⟩ ⟨roots, rest, fresh, found⟩
  | start {root roots fresh found} (h : root ∈ fresh) :
      Step dependencies ⟨root :: roots, [], fresh, found⟩
        ⟨roots, [(root, dependencies root)], fresh.erase root, found⟩
  | pass {root roots fresh found} (h : root ∉ fresh) :
      Step dependencies ⟨root :: roots, [], fresh, found⟩ ⟨roots, [], fresh, found⟩

theorem exists_steps_searchFrom (dependencies : String → List String) (s : SearchState) :
    ∃ fresh, ReflTransGen (Step dependencies) s
      ⟨[], [], fresh, searchFrom dependencies s.roots s.path s.fresh s.found⟩ := by
  obtain ⟨roots, path, fresh, found⟩ := s
  dsimp only
  induction roots, path, fresh, found using searchFrom.induct dependencies with
  | case1 roots fresh found task next later rest hnext ih =>
    obtain ⟨left, hsteps⟩ := ih
    rw [searchFrom, if_pos hnext]
    exact ⟨left, .head (.close hnext) hsteps⟩
  | case2 roots fresh found task next later rest hfresh hnext ih =>
    obtain ⟨left, hsteps⟩ := ih
    rw [searchFrom, if_neg hnext, if_pos hfresh]
    exact ⟨left, .head (.enter hfresh) hsteps⟩
  | case3 roots fresh found task next later rest hfresh hnext ih =>
    obtain ⟨left, hsteps⟩ := ih
    rw [searchFrom, if_neg hnext, if_neg hfresh]
    exact ⟨left, .head (.skip hnext hfresh) hsteps⟩
  | case4 roots fresh found task rest ih =>
    obtain ⟨left, hsteps⟩ := ih
    rw [searchFrom]
    exact ⟨left, .head .leave hsteps⟩
  | case5 fresh found =>
    rw [searchFrom]
    exact ⟨fresh, .refl⟩
  | case6 fresh found root roots hroot ih =>
    obtain ⟨left, hsteps⟩ := ih
    rw [searchFrom, if_pos hroot]
    exact ⟨left, .head (.start hroot) hsteps⟩
  | case7 fresh found root roots hroot ih =>
    obtain ⟨left, hsteps⟩ := ih
    rw [searchFrom, if_neg hroot]
    exact ⟨left, .head (.pass hroot) hsteps⟩

/-- What every step keeps holds at the end of a search. -/
theorem searchFrom_invariant {motive : SearchState → Prop}
    (step : ∀ s s', Step dependencies s s' → motive s → motive s') {s : SearchState}
    (h : motive s) : ∃ fresh, motive
      ⟨[], [], fresh, searchFrom dependencies s.roots s.path s.fresh s.found⟩ := by
  obtain ⟨fresh, hsteps⟩ := exists_steps_searchFrom dependencies s
  refine ⟨fresh, ?_⟩
  generalize (⟨[], [], fresh, _⟩ : SearchState) = last at hsteps
  induction hsteps with
  | refl => exact h
  | tail _ hstep ih => exact step _ _ hstep ih

def Leads (dependencies : String → List String) (a b : String) : Prop := b ∈ dependencies a

/-- Each task of a path is read by the one below it, and so is what is still to be followed. -/
def Linked (dependencies : String → List String) : SearchPath → Prop
  | [] => True
  | (task, later) :: path => later ⊆ dependencies task ∧
      (∀ frame ∈ path.head?, Leads dependencies frame.1 task) ∧ Linked dependencies path

theorem Linked.reaches {task : String} {later : List String} {rest : SearchPath}
    (h : Linked dependencies ((task, later) :: rest)) {id : String}
    (hid : id ∈ task :: rest.map (·.1)) : ReflTransGen (Leads dependencies) id task := by
  induction rest generalizing task later with
  | nil =>
    obtain rfl := List.mem_singleton.1 hid
    exact .refl
  | cons below rest ih =>
    obtain ⟨-, hbelow, hrest⟩ := h
    rcases List.mem_cons.1 hid with rfl | hid
    · exact .refl
    · exact (ih hrest hid).tail (hbelow below rfl)

structure Justified (dependencies : String → List String) (s : SearchState) : Prop where
  linked : Linked dependencies s.path
  onCycle : ∀ id ∈ s.found, TransGen (Leads dependencies) id id
  nodup : s.found.Nodup

theorem Justified.step {s s' : SearchState} (hstep : Step dependencies s s')
    (h : s.Justified dependencies) : s'.Justified dependencies := by
  obtain ⟨hlinked, hcycle, hnodup⟩ := h
  cases hstep with
  | @close roots task next later rest fresh found hnext =>
    have hread : Leads dependencies task next := hlinked.1 List.mem_cons_self
    have hnew : TransGen (Leads dependencies) next next :=
      TransGen.tail' (hlinked.reaches hnext) hread
    refine ⟨⟨fun d hd => hlinked.1 (List.mem_cons_of_mem _ hd), hlinked.2⟩, ?_, ?_⟩
    · intro id hid
      dsimp only at hid
      split at hid
      · exact hcycle id hid
      · rcases List.mem_append.1 hid with hid | hid
        · exact hcycle id hid
        · exact List.mem_singleton.1 hid ▸ hnew
    · dsimp only
      split
      · exact hnodup
      · rw [← List.concat_eq_append]
        exact List.Nodup.concat ‹_› hnodup
  | enter hfresh =>
    refine ⟨⟨List.Subset.refl _, ?_, fun d hd => hlinked.1 (List.mem_cons_of_mem _ hd), hlinked.2⟩,
      hcycle, hnodup⟩
    rintro frame ⟨⟩
    exact hlinked.1 List.mem_cons_self
  | skip hpath hfresh =>
    exact ⟨⟨fun d hd => hlinked.1 (List.mem_cons_of_mem _ hd), hlinked.2⟩, hcycle, hnodup⟩
  | leave => exact ⟨hlinked.2.2, hcycle, hnodup⟩
  | start hroot =>
    refine ⟨⟨List.Subset.refl _, ?_, trivial⟩, hcycle, hnodup⟩
    rintro frame ⟨⟩
  | pass hroot => exact ⟨trivial, hcycle, hnodup⟩

/-- From the task no cycle can be reached that avoids the tasks of `found`. -/
def Settled (dependencies : String → List String) (found : List String) : String → Prop :=
  Acc fun d id => Leads dependencies id d ∧ d ∉ found

theorem Settled.mono {found found' : List String} (hsub : found ⊆ found') {id : String}
    (h : Settled dependencies found id) : Settled dependencies found' id :=
  Subrelation.accessible (fun ⟨hread, hnew⟩ => ⟨hread, fun hold => hnew (hsub hold)⟩) h

/-- Each dependency of a task of the path is still to be followed, stands above the task, has been
found, or is settled. -/
def Accounted (dependencies : String → List String) (found : List String) :
    Option String → SearchPath → Prop
  | _, [] => True
  | above, (task, later) :: path =>
    (∀ d ∈ dependencies task, d ∈ later ∨ above = some d ∨ d ∈ found ∨
      Settled dependencies found d) ∧ Accounted dependencies found (some task) path

theorem Accounted.mono {found found' : List String} (hsub : found ⊆ found') {path : SearchPath}
    {above : Option String} (h : Accounted dependencies found above path) :
    Accounted dependencies found' above path := by
  induction path generalizing above with
  | nil => trivial
  | cons frame path ih =>
    refine ⟨fun d hd => ?_, ih h.2⟩
    exact (h.1 d hd).imp_right (Or.imp_right (Or.imp (fun hd => hsub hd) (Settled.mono hsub)))

/-- Every task of `ids` is still to be entered, on the path, or settled, and also still to be tried,
on the path, or settled. -/
structure Covers (dependencies : String → List String) (ids : List String) (s : SearchState) :
    Prop where
  accounted : Accounted dependencies s.found none s.path
  later : ∀ frame ∈ s.path, frame.2 ⊆ ids
  entered : ∀ id ∈ ids, id ∈ s.fresh ∨ id ∈ s.path.map (·.1) ∨ Settled dependencies s.found id
  tried : ∀ id ∈ ids, id ∈ s.roots ∨ id ∈ s.path.map (·.1) ∨ Settled dependencies s.found id

theorem Accounted.of_settled {found : List String} {path : SearchPath} {task : String}
    (h : Accounted dependencies found (some task) path)
    (htask : Settled dependencies found task) : Accounted dependencies found none path := by
  cases path with
  | nil => trivial
  | cons frame path =>
    refine ⟨fun d hd => ?_, h.2⟩
    rcases h.1 d hd with hlater | habove | hdone
    · exact .inl hlater
    · exact .inr (.inr (.inr (Option.some.inj habove ▸ htask)))
    · exact .inr (.inr hdone)

theorem Covers.step {ids : List String} (hids : ∀ id, dependencies id ⊆ ids) {s s' : SearchState}
    (hstep : Step dependencies s s') (h : s.Covers dependencies ids) :
    s'.Covers dependencies ids := by
  obtain ⟨haccounted, hlater, hentered, htried⟩ := h
  cases hstep with
  | @close roots task next later rest fresh found hnext =>
    have hsub : found ⊆ if next ∈ found then found else found ++ [next] := by
      split
      · exact List.Subset.refl _
      · exact List.subset_append_left _ _
    have hnew : next ∈ if next ∈ found then found else found ++ [next] := by
      split
      · assumption
      · simp
    refine ⟨⟨fun d hd => ?_, haccounted.2.mono hsub⟩, ?_, ?_, ?_⟩
    · rcases haccounted.1 d hd with hd | habove | hd | hd
      · exact (List.mem_cons.1 hd).elim (fun heq => .inr (.inr (.inl (heq ▸ hnew)))) .inl
      · cases habove
      · exact .inr (.inr (.inl (hsub hd)))
      · exact .inr (.inr (.inr (hd.mono hsub)))
    · rw [List.forall_mem_cons] at hlater ⊢
      exact ⟨fun d hd => hlater.1 (List.mem_cons_of_mem _ hd), hlater.2⟩
    · exact fun id hid => (hentered id hid).imp_right (Or.imp_right (Settled.mono hsub))
    · exact fun id hid => (htried id hid).imp_right (Or.imp_right (Settled.mono hsub))
  | @enter roots task next later rest fresh found hfresh =>
    refine ⟨⟨fun d hd => .inl hd, fun d hd => ?_, haccounted.2⟩, ?_, ?_, ?_⟩
    · rcases haccounted.1 d hd with hd | habove | hd
      · exact (List.mem_cons.1 hd).elim (fun heq => .inr (.inl (congrArg some heq.symm))) .inl
      · cases habove
      · exact .inr (.inr hd)
    · rw [List.forall_mem_cons] at hlater
      rw [List.forall_mem_cons, List.forall_mem_cons]
      exact ⟨hids next, fun d hd => hlater.1 (List.mem_cons_of_mem _ hd), hlater.2⟩
    · intro id hid
      rcases hentered id hid with hold | hpath | hsettled
      · by_cases heq : id = next
        · exact .inr (.inl (heq ▸ List.mem_cons_self))
        · exact .inl ((List.mem_erase_of_ne heq).2 hold)
      · exact .inr (.inl (List.mem_cons_of_mem _ hpath))
      · exact .inr (.inr hsettled)
    · exact fun id hid => (htried id hid).imp_right (Or.imp_left (List.mem_cons_of_mem _))
  | @skip roots task next later rest fresh found hpath hfresh =>
    rw [List.forall_mem_cons] at hlater
    have hsettled : Settled dependencies found next :=
      ((hentered next (hlater.1 List.mem_cons_self)).resolve_left hfresh).resolve_left hpath
    refine ⟨⟨fun d hd => ?_, haccounted.2⟩, ?_, hentered, htried⟩
    · rcases haccounted.1 d hd with hd | hd
      · exact (List.mem_cons.1 hd).elim (fun heq => .inr (.inr (.inr (heq ▸ hsettled)))) .inl
      · exact .inr hd
    · rw [List.forall_mem_cons]
      exact ⟨fun d hd => hlater.1 (List.mem_cons_of_mem _ hd), hlater.2⟩
  | @leave roots task rest fresh found =>
    have hsettled : Settled dependencies found task := by
      refine Acc.intro task fun d hd => ?_
      rcases haccounted.1 d hd.1 with hnone | habove | hfound | hd
      · cases hnone
      · cases habove
      · exact absurd hfound hd.2
      · exact hd
    have hleft {id : String} (h : id ∈ task :: rest.map (·.1) ∨ Settled dependencies found id) :
        id ∈ rest.map (·.1) ∨ Settled dependencies found id := by
      rcases h with hid | hid
      · exact (List.mem_cons.1 hid).elim (fun heq => .inr (heq ▸ hsettled)) .inl
      · exact .inr hid
    exact ⟨haccounted.2.of_settled hsettled, (List.forall_mem_cons.1 hlater).2,
      fun id hid => (hentered id hid).imp_right hleft,
      fun id hid => (htried id hid).imp_right hleft⟩
  | @start root roots fresh found hroot =>
    refine ⟨⟨fun d hd => .inl hd, trivial⟩, ?_, ?_, ?_⟩
    · rw [List.forall_mem_singleton]
      exact hids root
    · intro id hid
      rcases hentered id hid with hold | hpath | hsettled
      · by_cases heq : id = root
        · exact .inr (.inl (heq ▸ List.mem_cons_self))
        · exact .inl ((List.mem_erase_of_ne heq).2 hold)
      · cases hpath
      · exact .inr (.inr hsettled)
    · intro id hid
      rcases htried id hid with hold | hpath | hsettled
      · exact (List.mem_cons.1 hold).elim (fun heq => .inr (.inl (heq ▸ List.mem_cons_self))) .inl
      · cases hpath
      · exact .inr (.inr hsettled)
  | @pass root roots fresh found hroot =>
    refine ⟨trivial, hlater, hentered, fun id hid => ?_⟩
    rcases htried id hid with hold | hdone
    · rcases List.mem_cons.1 hold with rfl | hold
      · exact .inr ((hentered id hid).resolve_left hroot)
      · exact .inl hold
    · exact .inr hdone

end SearchState

namespace Graph

variable {g : Graph}

/-- Both tasks exist, and the first reads an output of the second. -/
def DependsOn (g : Graph) (id dependency : String) : Prop :=
  g.containsTask dependency ∧
    ∃ name output, g.argument? id name = some (.taskOutput ⟨dependency, output⟩)

/-- No task depends on itself, be it through others. -/
def Acyclic (g : Graph) : Prop := ∀ id, ¬ TransGen g.DependsOn id id

theorem mem_dependencies_iff {t : Task} {dependency : String} :
    dependency ∈ t.dependencies ↔
      ∃ name output, t.arguments.get? name = some (.taskOutput ⟨dependency, output⟩) := by
  simp only [Task.dependencies, List.mem_filterMap, NameMap.From.mem_values_iff,
    Option.map_eq_some_iff, Argument.taskOutput?_eq_some_iff]
  constructor
  · rintro ⟨a, ⟨name, ha⟩, ⟨task, output⟩, rfl, rfl⟩
    exact ⟨name, output, ha⟩
  · rintro ⟨name, output, ha⟩
    exact ⟨_, ⟨name, ha⟩, _, rfl, rfl⟩

theorem mem_dependenciesOf_iff {id dependency : String} :
    dependency ∈ g.dependenciesOf id ↔ g.DependsOn id dependency := by
  rw [dependenciesOf, DependsOn]
  cases ht : g.task? id with
  | none => simp [argument?, ht]
  | some t => simp [argument?, ht, mem_dependencies_iff, and_comm]

theorem leads_dependenciesOf : SearchState.Leads g.dependenciesOf = g.DependsOn := by
  funext id dependency
  exact propext mem_dependenciesOf_iff

theorem DependsOn.containsTask {id dependency : String} (h : g.DependsOn id dependency) :
    g.containsTask id ∧ g.containsTask dependency := by
  obtain ⟨hdependency, name, output, ha⟩ := h
  exact ⟨containsTask_of_argument? ha, hdependency⟩

theorem justified_circularTasks (g : Graph) : ∃ fresh,
    SearchState.Justified g.dependenciesOf ⟨[], [], fresh, g.circularTasks⟩ :=
  SearchState.searchFrom_invariant (s := ⟨g.tasks.keys, [], g.tasks.keys, []⟩)
    (fun _ _ hstep h => h.step hstep)
    ⟨trivial, fun _ hid => absurd hid List.not_mem_nil, List.nodup_nil⟩

theorem nodup_circularTasks (g : Graph) : g.circularTasks.Nodup :=
  g.justified_circularTasks.choose_spec.nodup

theorem onCycle_of_mem_circularTasks {id : String} (h : id ∈ g.circularTasks) :
    TransGen g.DependsOn id id := by
  rw [← leads_dependenciesOf]
  exact g.justified_circularTasks.choose_spec.onCycle id h

theorem settled_circularTasks {id : String} (hid : g.containsTask id) :
    SearchState.Settled g.dependenciesOf g.circularTasks id := by
  have hids (id : String) : g.dependenciesOf id ⊆ g.tasks.keys := fun d hd =>
    mem_taskKeys_iff.2 (mem_dependenciesOf_iff.1 hd).1
  obtain ⟨fresh, hcovers⟩ := SearchState.searchFrom_invariant
    (motive := SearchState.Covers g.dependenciesOf g.tasks.keys)
    (s := ⟨g.tasks.keys, [], g.tasks.keys, []⟩) (fun _ _ hstep h => h.step hids hstep)
    ⟨trivial, fun _ hframe => absurd hframe List.not_mem_nil, fun _ h => .inl h, fun _ h => .inl h⟩
  rcases hcovers.tried id (mem_taskKeys_iff.2 hid) with hroot | hpath | hsettled
  · cases hroot
  · cases hpath
  · exact hsettled

/-- Every cycle passes through a circular task. -/
theorem no_cycle_avoids_circularTasks (g : Graph) (id : String) :
    ¬ TransGen (fun a b => g.DependsOn a b ∧ b ∉ g.circularTasks) id id := by
  intro hcycle
  obtain ⟨b, hread, -⟩ := TransGen.head'_iff.1 hcycle
  have hsettled := settled_circularTasks hread.1.containsTask.1
  rw [SearchState.Settled, leads_dependenciesOf] at hsettled
  exact not_transGen_self_of_acc hsettled hcycle

theorem circularTasks_eq_nil_iff : g.circularTasks = [] ↔ g.Acyclic := by
  constructor
  · intro hnil id hcycle
    apply g.no_cycle_avoids_circularTasks id
    simpa [hnil] using hcycle
  · intro hacyclic
    rw [List.eq_nil_iff_forall_not_mem]
    exact fun id hid => hacyclic id (onCycle_of_mem_circularTasks hid)

end Graph

end TaskGraph
