import TaskGraph.Proofs.Identity
import TaskGraph.Proofs.Validation.Valid
import TaskGraph.Validation.Recursive

/-!
# What checking everything below a component covers

The search makes no visit but to the root and to graphs that it reaches, and it leaves no such graph
out: whatever is not visited again has the identity of a component that has been entered. If an
identity belongs to one component only, no error is found exactly if the root is valid and all
graphs that it reaches are, these without regard to the values of their inputs.
-/
namespace TaskGraph

variable {provider : Provider}

theorem Report.isValid_iff_findings (r : Report) : r.isValid ↔ ∀ f ∈ r.findings, ¬ f.isError := by
  rw [isValid, List.isEmpty_iff, List.eq_nil_iff_forall_not_mem]
  simp [findings, Finding.error, Finding.warning, Finding.isError, or_imp, forall_and]

theorem Visit.mem_children_iff {v w : Visit} :
    w ∈ v.children provider ↔ ∃ g id t, v.component.graph? = some g ∧ g.task? id = some t ∧
      provider.resolve t.reference = some w.component ∧ w.component.isGraph ∧
      w.path = v.path ++ [id] := by
  rw [children]
  cases hg : v.component.graph? with
  | none => simp
  | some g =>
    simp only [List.mem_filterMap, Prod.exists, NameMap.From.mem_toList_iff, Option.some.injEq,
      exists_and_left, exists_eq_left', child?, Option.map_eq_some_iff, Option.filter_eq_some_iff]
    constructor
    · rintro ⟨id, t, ht, c, ⟨hc, hgraph⟩, rfl⟩
      exact ⟨id, t, ht, hc, hgraph, rfl⟩
    · rintro ⟨id, t, ht, hc, hgraph, hpath⟩
      exact ⟨id, t, ht, w.component, ⟨hc, hgraph⟩, by rw [← hpath]⟩

theorem visitsFrom_induction {motive : Visit → Prop}
    (child : ∀ v w, motive v → w ∈ v.children provider → motive w) {pending : List Nat}
    {agenda : List Visit} (hagenda : ∀ v ∈ agenda, motive v) :
    ∀ v ∈ visitsFrom provider pending agenda, motive v := by
  fun_induction visitsFrom provider pending agenda with
  | case1 => exact hagenda
  | case2 pending v rest n hn hpending ih =>
    obtain ⟨hv, hrest⟩ := List.forall_mem_cons.1 hagenda
    refine List.forall_mem_cons.2 ⟨hv, ih fun w hw => ?_⟩
    exact (List.mem_append.1 hw).elim (child v w hv) (hrest w)
  | case3 pending v rest n hn hpending ih => exact ih (List.forall_mem_cons.1 hagenda).2
  | case4 pending v rest hn ih =>
    obtain ⟨hv, hrest⟩ := List.forall_mem_cons.1 hagenda
    refine List.forall_mem_cons.2 ⟨hv, ih fun w hw => ?_⟩
    exact (List.mem_append.1 hw).elim (child v w hv) (hrest w)

/-- The component is visited, or one with its identity is, or it was entered before. -/
def Entered (pending : List Nat) (visits : List Visit) (c : Component) : Prop :=
  (∃ v ∈ visits, v.component = c) ∨
    ∃ n, c.identity = some n ∧ (n ∉ pending ∨ ∃ v ∈ visits, v.component.identity = some n)

theorem Entered.cons {pending : List Nat} {visits : List Visit} {c : Component}
    (h : Entered pending visits c) (v : Visit) : Entered pending (v :: visits) c := by
  rcases h with ⟨w, hw, heq⟩ | ⟨n, hn, hpending | ⟨w, hw, heq⟩⟩
  · exact .inl ⟨w, List.mem_cons_of_mem _ hw, heq⟩
  · exact .inr ⟨n, hn, .inl hpending⟩
  · exact .inr ⟨n, hn, .inr ⟨w, List.mem_cons_of_mem _ hw, heq⟩⟩

theorem Entered.cons_of_identity {pending : List Nat} {visits : List Visit} {c : Component}
    {v : Visit} {n : Nat} (hn : v.component.identity = some n)
    (h : Entered (pending.removeAll [n]) visits c) : Entered pending (v :: visits) c := by
  rcases h with hvisited | ⟨m, hm, hpending | hvisited⟩
  · exact Entered.cons (.inl hvisited) v
  · by_cases heq : m = n
    · exact .inr ⟨m, hm, .inr ⟨v, List.mem_cons_self, heq ▸ hn⟩⟩
    · refine .inr ⟨m, hm, .inl fun hmem => hpending ?_⟩
      simpa [List.removeAll, heq] using hmem
  · exact Entered.cons (.inr ⟨m, hm, .inr hvisited⟩) v

theorem entered_visitsFrom (pending : List Nat) (agenda : List Visit) :
    (∀ v ∈ agenda, Entered pending (visitsFrom provider pending agenda) v.component) ∧
      ∀ v ∈ visitsFrom provider pending agenda, ∀ w ∈ v.children provider,
        Entered pending (visitsFrom provider pending agenda) w.component := by
  fun_induction visitsFrom provider pending agenda with
  | case1 => exact ⟨fun v hv => (List.not_mem_nil hv).elim, fun v hv => (List.not_mem_nil hv).elim⟩
  | case2 pending v rest n hn hpending ih =>
    obtain ⟨hagenda, hchildren⟩ := ih
    refine ⟨List.forall_mem_cons.2 ⟨.inl ⟨v, List.mem_cons_self, rfl⟩, fun w hw => ?_⟩,
      List.forall_mem_cons.2 ⟨fun w hw => ?_, fun w hw x hx => ?_⟩⟩
    · exact .cons_of_identity hn (hagenda w (List.mem_append_right _ hw))
    · exact .cons_of_identity hn (hagenda w (List.mem_append_left _ hw))
    · exact .cons_of_identity hn (hchildren w hw x hx)
  | case3 pending v rest n hn hpending ih =>
    obtain ⟨hagenda, hchildren⟩ := ih
    exact ⟨List.forall_mem_cons.2 ⟨.inr ⟨n, hn, .inl hpending⟩, hagenda⟩, hchildren⟩
  | case4 pending v rest hn ih =>
    obtain ⟨hagenda, hchildren⟩ := ih
    refine ⟨List.forall_mem_cons.2 ⟨.inl ⟨v, List.mem_cons_self, rfl⟩, fun w hw => ?_⟩,
      List.forall_mem_cons.2 ⟨fun w hw => ?_, fun w hw x hx => ?_⟩⟩
    · exact (hagenda w (List.mem_append_right _ hw)).cons v
    · exact (hagenda w (List.mem_append_left _ hw)).cons v
    · exact (hchildren w hw x hx).cons v

namespace Component

variable {root d : Component}

theorem visit_cases {v : Visit} (h : v ∈ root.visits provider) :
    v = ⟨[], root⟩ ∨
      v.path ≠ [] ∧ v.component.isGraph ∧ Reaches provider.resolve root v.component := by
  have hreaches : ∀ v ∈ root.visits provider,
      (v = ⟨[], root⟩ ∨ v.path ≠ [] ∧ v.component.isGraph) ∧
        Reaches provider.resolve root v.component := by
    refine visitsFrom_induction ?_ (List.forall_mem_singleton.2 ⟨.inl rfl, .refl root⟩)
    rintro v w ⟨-, hv⟩ hw
    obtain ⟨g, id, t, hg, ht, hresolve, hgraph, hpath⟩ := Visit.mem_children_iff.1 hw
    have hinstance := Graph.mem_instances_iff.2 ⟨id, t, ht, hresolve⟩
    refine ⟨.inr ⟨?_, hgraph⟩, hv.trans (.step hg hinstance (.refl _))⟩
    rw [hpath]
    exact List.concat_ne_nil id v.path
  obtain ⟨hroot | ⟨hpath, hgraph⟩, hv⟩ := hreaches v h
  · exact .inl hroot
  · exact .inr ⟨hpath, hgraph, hv⟩

theorem root_mem_visits : ⟨[], root⟩ ∈ root.visits provider := by
  rw [visits, visitsFrom]
  split
  · rename_i n hn
    rw [if_pos (List.mem_append_left _ (mem_identities hn))]
    exact List.mem_cons_self
  · exact List.mem_cons_self

/-- Every graph that the root reaches is visited. -/
theorem exists_visit (hidentified : root.Identified provider.resolve)
    (hd : Reaches provider.resolve root d) (hgraph : d.isGraph) :
    ∃ v ∈ root.visits provider, v.component = d := by
  have hvisited {v w : Visit} (hv : v ∈ root.visits provider) (hw : w ∈ v.children provider)
      (hreaches : Reaches provider.resolve root w.component) :
      ∃ x ∈ root.visits provider, x.component = w.component := by
    rcases (entered_visitsFrom _ _).2 v hv w hw with hvisited | ⟨n, hn, hpending | ⟨x, hx, heq⟩⟩
    · exact hvisited
    · exact absurd (Provider.identities_subset_of_reaches hreaches (mem_identities hn)) hpending
    · rcases visit_cases hx with rfl | ⟨-, -, hxreaches⟩
      · exact ⟨_, hx, hidentified _ _ (.refl root) hreaches n heq hn⟩
      · exact ⟨x, hx, hidentified _ _ hxreaches hreaches n heq hn⟩
  suffices ∀ c, Reaches provider.resolve c d → Reaches provider.resolve root c →
      (∃ v ∈ root.visits provider, v.component = c) →
      ∃ v ∈ root.visits provider, v.component = d from
    this root hd (.refl root) ⟨_, root_mem_visits, rfl⟩
  intro c hcd hroot hc
  induction hcd with
  | refl c => exact hc
  | @step c e d g hg he hed ih =>
    obtain ⟨v, hv, rfl⟩ := hc
    have hroot := hroot.trans (.step hg he (.refl e))
    refine ih hd hgraph hroot ?_
    obtain ⟨id, t, ht, hresolve⟩ := Graph.mem_instances_iff.1 he
    have hegraph : e.isGraph := by
      cases hed with
      | refl => exact hgraph
      | step hg' _ _ => rw [isGraph, hg', Option.isSome_some]
    have hchild : (⟨v.path ++ [id], e⟩ : Visit) ∈ v.children provider :=
      Visit.mem_children_iff.2 ⟨g, id, t, hg, ht, hresolve, hegraph, rfl⟩
    exact hvisited hv hchild hroot

variable {options : ValidationOptions}

theorem isValid_validateRecursive_iff_visits :
    (root.validateRecursive provider options).isValid ↔ ∀ v ∈ root.visits provider,
      v.component.Valid provider.resolve
        { options with skipInputValues := !v.path.isEmpty } := by
  simp only [← isValid_validate_iff, RecursiveReport.isValid, RecursiveReport.errors,
    validateRecursive, List.isEmpty_iff, List.filter_eq_nil_iff, List.forall_mem_flatMap,
    List.forall_mem_map]
  exact forall₂_congr fun v _ => (Report.isValid_iff_findings _).symm

/-- No error is found below a component that is valid, as are all graphs that it reaches. -/
theorem isValid_validateRecursive
    (hroot : root.Valid provider.resolve { options with skipInputValues := false })
    (hbelow : ∀ d, Reaches provider.resolve root d → d.isGraph →
      d.Valid provider.resolve options.nested) :
    (root.validateRecursive provider options).isValid := by
  rw [isValid_validateRecursive_iff_visits]
  intro v hv
  rcases visit_cases hv with rfl | ⟨hpath, hgraph, hreaches⟩
  · exact hroot
  · have hvalid := hbelow v.component hreaches hgraph
    rwa [List.isEmpty_eq_false_iff.2 hpath]

/-- Checking everything below a component finds no error exactly if the component is valid, with
values for its inputs, and so are all graphs that it reaches, with or without. -/
theorem isValid_validateRecursive_iff (hidentified : root.Identified provider.resolve) :
    (root.validateRecursive provider options).isValid ↔
      root.Valid provider.resolve { options with skipInputValues := false } ∧
      ∀ d, Reaches provider.resolve root d → d.isGraph →
        d.Valid provider.resolve options.nested := by
  refine ⟨fun h => ?_, fun h => isValid_validateRecursive h.1 h.2⟩
  rw [isValid_validateRecursive_iff_visits] at h
  refine ⟨h _ root_mem_visits, fun d hd hgraph => ?_⟩
  obtain ⟨v, hv, rfl⟩ := exists_visit hidentified hd hgraph
  exact (h v hv).nested

end Component

end TaskGraph
