import TaskGraph.Proofs.Validation.Search

/-!
# What the recursive report is made of

The report joins what is found in the root, with values for its inputs, and what is found in the
graphs below it, with or without. Each allocation that the root reaches contributes once and no
other does, and the path of an issue leads from the root to the component that the issue is about.
-/
namespace TaskGraph

def Visit.issues (provider : Provider) (options : ValidationOptions) (v : Visit) :
    List LocatedIssue :=
  (v.component.validate provider.resolve options).findings.map (⟨v.path, v.component.name, ·⟩)

theorem Visit.isValid_iff_issues {provider : Provider} {options : ValidationOptions} {v : Visit} :
    (∀ i ∈ v.issues provider options, ¬ i.finding.isError) ↔
      (v.component.validate provider.resolve options).isValid := by
  rw [Visit.issues, List.forall_mem_map, Report.isValid_iff_findings]

theorem RecursiveReport.isValid_iff_issues {r : RecursiveReport} :
    r.isValid ↔ ∀ i ∈ r.issues, ¬ i.finding.isError := by
  rw [isValid, errors, List.isEmpty_iff, List.filter_eq_nil_iff]

namespace Component

/-- The root, and the graphs that the tasks of such a component resolve to, each with its
allocation. -/
inductive Reached (provider : Provider) (root : Component) : Allocation → Component → Prop
  | root : Reached provider root (root.allocation .root) root
  | task {a : Allocation} {c d : Component} {g : Graph} {id : String} {t : Task}
      (owner : Reached provider root a c) (graph : c.graph? = some g) (task : g.task? id = some t)
      (resolved : provider.resolve t.reference = some d) (nested : d.isGraph) :
      Reached provider root (d.allocation (.placed a id)) d

/-- The component that some tasks lead to, each one a task of the graph before. -/
def follow? (provider : Provider) : Component → List String → Option Component
  | c, [] => some c
  | c, id :: path => do
    let g ← c.graph?
    let t ← g.task? id
    let d ← provider.resolve t.reference
    d.follow? provider path

/-- The calls below the root make up the recursive report. -/
structure Coverage (provider : Provider) (root : Component) (options : ValidationOptions)
    (below : List Call) : Prop where
  /-- No allocation is covered twice. -/
  distinct : ((Call.start root :: below).map (·.allocation)).Nodup
  reached : ∀ a c, Reached provider root a c ↔
    ∃ k ∈ Call.start root :: below, k.allocation = a ∧ k.component = c
  paths : ∀ k ∈ Call.start root :: below, root.follow? provider k.path = some k.component
  issues : (root.validateRecursive provider options).issues =
    (Call.start root).issues provider { options with skipInputValues := false } ++
      below.flatMap (·.issues provider { options with skipInputValues := true })

variable {provider : Provider} {root : Component} {options : ValidationOptions}

theorem follow?_concat {c d : Component} {g : Graph} {id : String} {t : Task} {path : List String}
    (hg : d.graph? = some g) (ht : g.task? id = some t) (h : c.follow? provider path = some d) :
    c.follow? provider (path ++ [id]) = provider.resolve t.reference := by
  induction path generalizing c with
  | nil =>
    obtain rfl := Option.some.inj h
    simp [follow?, hg, ht]
  | cons j path ih =>
    simp only [follow?, Option.bind_eq_bind, Option.bind_eq_some_iff] at h
    obtain ⟨g', hg', t', ht', e, he, h⟩ := h
    simp only [List.cons_append, follow?, hg', ht', he, Option.bind_eq_bind, Option.bind_some]
    exact ih h

theorem visits_eq_cons (provider : Provider) (root : Component) :
    ∃ visits, root.visits provider = ⟨[], root⟩ :: visits := by
  cases hidentity : root.identity with
  | some n =>
    have hn := List.mem_append_left provider.identities (mem_identities hidentity)
    exact ⟨_, visitsFrom_of_mem hidentity hn⟩
  | none => exact ⟨_, visitsFrom_of_identity_none hidentity⟩

end Component

namespace Search

open Component

variable {provider : Provider} {root : Component} {s : Search} {k : Call}

theorem reached_of_leads (h : (start root).Leads provider s) :
    ∀ k ∈ s.entered ++ s.agenda, Reached provider root k.allocation k.component ∧
      root.follow? provider k.path = some k.component := by
  refine calls_induction ⟨.root, rfl⟩ (fun k l ⟨hreached, hpath⟩ hl => ?_) h
  obtain ⟨g, id, t, hg, ht, hresolve, hgraph, hlpath, hplace⟩ := Call.mem_children_iff.1 hl
  refine ⟨?_, ?_⟩
  · rw [Call.allocation, hplace]
    exact .task hreached hg ht hresolve hgraph
  · rw [hlpath, follow?_concat hg ht hpath, hresolve]

theorem reaches_of_called (h : (start root).Leads provider s) (hk : s.Called provider root k) :
    Reaches provider.resolve root k.component := by
  have hchild {b k : Call} (hb : Reaches provider.resolve root b.component)
      (hk : k ∈ b.children provider) : Reaches provider.resolve root k.component := by
    obtain ⟨g, id, t, hg, ht, hresolve, -⟩ := Call.mem_children_iff.1 hk
    have hinstance := Graph.mem_instances_iff.2 ⟨id, t, ht, hresolve⟩
    exact hb.trans (.step hg hinstance (.refl _))
  rcases hk with rfl | ⟨b, hb, hk⟩
  · exact .refl root
  · have hentered := calls_induction (.refl root) (fun _ _ => hchild) h b
    exact hchild (hentered (List.mem_append_left _ hb)) hk

/-- If an identity belongs to one component only, so does an allocation: one place is one task of
one call. -/
theorem component_eq_of_allocation (h : (start root).Leads provider s)
    (hidentified : root.Identified provider.resolve) {j k : Call} (hj : s.Called provider root j)
    (hk : s.Called provider root k) (heq : j.allocation = k.allocation) :
    j.component = k.component := by
  cases hidentity : k.component.identity with
  | some n =>
    rw [Call.allocation_of_identity hidentity] at heq
    exact hidentified _ _ (reaches_of_called h hj) (reaches_of_called h hk) n
      (hj.identity_of_allocation heq) hidentity
  | none =>
    have hjnone := hk.identity_none_of_allocation hidentity heq
    rw [Call.allocation_of_identity_none hidentity, Call.allocation_of_identity_none hjnone] at heq
    rcases hj with rfl | ⟨b, hb, hj⟩ <;> rcases hk with rfl | ⟨c, hc, hk⟩
    · rfl
    · obtain ⟨-, id, -, -, -, -, -, -, hplace⟩ := Call.mem_children_iff.1 hk
      cases heq.trans hplace
    · obtain ⟨-, id, -, -, -, -, -, -, hplace⟩ := Call.mem_children_iff.1 hj
      cases heq.symm.trans hplace
    · obtain ⟨g, i, t, hg, ht, hjresolve, -, -, hjplace⟩ := Call.mem_children_iff.1 hj
      obtain ⟨g', i', t', hg', ht', hkresolve, -, -, hkplace⟩ := Call.mem_children_iff.1 hk
      rw [hjplace, hkplace, Allocation.placed.injEq] at heq
      obtain ⟨howner, rfl⟩ := heq
      obtain rfl := List.inj_on_of_nodup_map (sound_start.leads h).nodup hb hc howner
      obtain rfl := Option.some.inj (hg.symm.trans hg')
      obtain rfl := Option.some.inj (ht.symm.trans ht')
      exact Option.some.inj (hjresolve.symm.trans hkresolve)

theorem exists_entered (h : (start root).Leads provider s) (hdone : s.agenda = [])
    (hidentified : root.Identified provider.resolve) {a : Allocation} {c : Component}
    (hreached : Reached provider root a c) :
    ∃ k ∈ s.entered, k.allocation = a ∧ k.component = c := by
  have hsound := sound_start.leads h
  have hentered {l : Call} (hl : l ∈ s.agenda ∨ l.allocation ∈ s.allocations)
      (hcalled : s.Called provider root l) :
      ∃ k ∈ s.entered, k.allocation = l.allocation ∧ k.component = l.component := by
    rw [hdone] at hl
    obtain ⟨k, hk, heq⟩ := List.mem_map.1 (hl.resolve_left List.not_mem_nil)
    have hkcalled := hsound.called k (List.mem_append_left _ hk)
    exact ⟨k, hk, heq, component_eq_of_allocation h hidentified hkcalled hcalled heq⟩
  induction hreached with
  | root => exact hentered hsound.started (.inl rfl)
  | @task a c d g id t _ hg ht hresolve hgraph ih =>
    obtain ⟨k, hk, rfl, rfl⟩ := ih
    have hl : ⟨⟨k.path ++ [id], d⟩, .placed k.allocation id⟩ ∈ k.children provider :=
      Call.mem_children_iff.2 ⟨g, id, t, hg, ht, hresolve, hgraph, rfl, rfl⟩
    exact hentered (hsound.closed k hk _ hl) (.inr ⟨k, hk, hl⟩)

theorem entered_eq_cons (h : (start root).Leads provider s)
    (hvisits : s.entered.map (·.toVisit) = root.visits provider) :
    ∃ below, s.entered = .start root :: below ∧ ∀ k ∈ below, k.path ≠ [] := by
  have hsound := sound_start.leads h
  have hfirst {k : Call} (hk : k ∈ s.entered) (hpath : k.path = []) : k = .start root := by
    rcases hsound.called k (List.mem_append_left _ hk) with heq | ⟨b, -, hchild⟩
    · exact heq
    · obtain ⟨-, id, -, -, -, -, -, hpath', -⟩ := Call.mem_children_iff.1 hchild
      exact absurd (hpath'.symm.trans hpath) (List.concat_ne_nil id b.path)
  obtain ⟨visits, hcons⟩ := visits_eq_cons provider root
  rw [hcons] at hvisits
  obtain ⟨k, below, hentered, hk, -⟩ := List.map_eq_cons_iff.1 hvisits
  obtain rfl := hfirst (hentered ▸ List.mem_cons_self) (congrArg Visit.path hk)
  refine ⟨below, hentered, fun l hl hpath => ?_⟩
  obtain rfl := hfirst (hentered ▸ List.mem_cons_of_mem _ hl) hpath
  have hnodup := hsound.nodup
  rw [allocations, hentered, List.map_cons, List.nodup_cons] at hnodup
  exact hnodup.1 (List.mem_map_of_mem hl)

end Search

namespace Component

variable {provider : Provider} {root : Component} {options : ValidationOptions}

theorem exists_coverage (hidentified : root.Identified provider.resolve)
    (options : ValidationOptions) : ∃ below, Coverage provider root options below := by
  obtain ⟨s, hleads, hdone, hvisits⟩ := root.exists_search provider
  obtain ⟨below, hentered, hpaths⟩ := Search.entered_eq_cons hleads hvisits
  have hreached {k : Call} (hk : k ∈ s.entered) :=
    Search.reached_of_leads hleads k (List.mem_append_left _ hk)
  refine ⟨below, ?_, ?_, ?_, ?_⟩
  · rw [← hentered]
    exact (Search.sound_start.leads hleads).nodup
  · rw [← hentered]
    intro a c
    refine ⟨Search.exists_entered hleads hdone hidentified, ?_⟩
    rintro ⟨k, hk, rfl, rfl⟩
    exact (hreached hk).1
  · rw [← hentered]
    exact fun k hk => (hreached hk).2
  · rw [validateRecursive, ← hvisits, hentered]
    simp only [List.map_cons, List.flatMap_cons, List.flatMap_map]
    congr 1
    refine List.flatMap_congr fun k hk => ?_
    rw [Visit.issues, List.isEmpty_eq_false_iff.2 (hpaths k hk), Bool.not_false]

theorem Coverage.isValid_iff {below : List Call} (h : Coverage provider root options below) :
    (root.validateRecursive provider options).isValid ↔
      (root.validate provider.resolve { options with skipInputValues := false }).isValid ∧
      ∀ a c, Reached provider root a c →
        (c.validate provider.resolve { options with skipInputValues := true }).isValid := by
  rw [RecursiveReport.isValid_iff_issues, h.issues, List.forall_mem_append,
    List.forall_mem_flatMap, Visit.isValid_iff_issues]
  simp only [Visit.isValid_iff_issues]
  refine and_congr_right fun hroot => ⟨fun hbelow a c hc => ?_, fun hreached k hk => ?_⟩
  · obtain ⟨k, hk, rfl, rfl⟩ := (h.reached a c).1 hc
    rcases List.mem_cons.1 hk with rfl | hk
    · exact isValid_validate_iff.2 (isValid_validate_iff.1 hroot).nested
    · exact hbelow k hk
  · exact hreached _ _ ((h.reached _ _).2 ⟨k, List.mem_cons_of_mem _ hk, rfl, rfl⟩)

/-- The recursive report joins the issues of the root and those of every graph that it reaches, each
allocation once, and the path of an issue leads to its component. It is free of errors exactly if
the reports on all these components are. -/
theorem validateRecursive_covers (hidentified : root.Identified provider.resolve)
    (options : ValidationOptions) :
    (∃ below, Coverage provider root options below) ∧
    ((root.validateRecursive provider options).isValid ↔
      (root.validate provider.resolve { options with skipInputValues := false }).isValid ∧
      ∀ a c, Reached provider root a c →
        (c.validate provider.resolve { options with skipInputValues := true }).isValid) := by
  obtain ⟨below, hcoverage⟩ := exists_coverage hidentified options
  exact ⟨⟨below, hcoverage⟩, hcoverage.isValid_iff⟩

end Component

def linkGraph (url : String) : Graph where
  tasks := NameMap.ofList [("next", { reference := { url := some url } })]

def linkTo (name url : String) : Component where
  name := some name
  implementation := some (.graph (linkGraph url))

/-- Two components that refer to each other. -/
def ringProvider : Provider :=
  .catalog ((Catalog.empty.registerUrl "ping" (linkTo "ping" "pong")).1.registerUrl "pong"
    (linkTo "pong" "ping")).1

def ringGraph : Graph where
  tasks := NameMap.ofList [
    ("enter", { reference := { url := some "ping" } }),
    ("read", { reference := { text := some (linkTo "read" "pong").text } })]

def ringRoot : Component where
  name := some "root"
  implementation := some (.graph ringGraph)

theorem validateRecursive_covers_ring :
    ringRoot.Identified ringProvider.resolve ∧
    (∃ c, Component.Reached ringProvider ringRoot (.shared 1) c ∧ c.name = some "pong") ∧
    (∃ below, Component.Coverage ringProvider ringRoot {} below) ∧
    ((ringRoot.validateRecursive ringProvider {}).isValid ↔
      (ringRoot.validate ringProvider.resolve {}).isValid ∧
      ∀ a c, Component.Reached ringProvider ringRoot a c →
        (c.validate ringProvider.resolve { skipInputValues := true }).isValid) := by
  have hcoherent : ringProvider.Coherent :=
    (Catalog.coherent_empty.registerUrl "ping"
      (Component.agreesWith_of_identities rfl _)).registerUrl "pong"
      (Component.agreesWith_of_identities rfl _)
  have hidentified : ringRoot.Identified ringProvider.resolve :=
    Provider.identified_of_agreesWith hcoherent (Component.agreesWith_of_identities rfl _)
  refine ⟨hidentified, ?_, Component.validateRecursive_covers hidentified {}⟩
  have hroot : Component.Reached ringProvider ringRoot _ _ := .root
  have henter : ringGraph.task? "enter" = some _ := rfl
  have hnext : (linkGraph "pong").task? "next" = some _ := rfl
  have hping := hroot.task rfl henter rfl rfl
  exact ⟨_, hping.task rfl hnext rfl rfl, rfl⟩

end TaskGraph
