import TaskGraph.Proofs.Subgraph.PackClosed
import TaskGraph.Proofs.Subgraph.UnpackClosed

/-!
# Editing sessions

A session packs selections and unpacks tasks in any order, as long as the edits succeed. No session
leaves a dangling edge or a repeated name behind in a component that had none, at any depth.
-/
namespace TaskGraph

inductive Edit where
  | pack (codec : Codec) (author : Option String) (options : PackOptions) (selection : Selection)
  | unpack (task : String)

/-- The component after an edit. A selection is packed and replaced by its wrapper at once. -/
def Edit.perform (resolve : Resolver) : Edit → Component → Except EditError Component
  | .pack codec author options selection, c => do
    let packed ← c.pack { codec, resolve, author } options selection
    packed.apply selection c
  | .unpack task, c => c.unpack resolve task

theorem Edit.perform_pack_eq_ok_iff {resolve : Resolver} {codec : Codec} {author : Option String}
    {options : PackOptions} {selection : Selection} {c c' : Component} :
    (Edit.pack codec author options selection).perform resolve c = .ok c' ↔ ∃ packed,
      c.pack { codec, resolve, author } options selection = .ok packed ∧
        packed.apply selection c = .ok c' := by
  rw [perform]
  cases c.pack { codec, resolve, author } options selection with
  | error e => simp [bind, Except.bind]
  | ok packed => simp [bind, Except.bind]

/-- The components that a session reaches from `start`. -/
inductive Session (resolve : Resolver) (start : Component) : Component → Prop
  | start : Session resolve start start
  | step {c c' : Component} (edit : Edit) (h : Session resolve start c)
      (hedit : edit.perform resolve c = .ok c') : Session resolve start c'

namespace Component

variable {provider : Provider} {c c' : Component}

theorem closed_of_pack_apply {codec : Codec} {author : Option String} {options : PackOptions}
    {selection : Selection} {packed : Packed} (hclosed : c.Closed provider.resolve)
    (hpack : c.pack { codec, resolve := provider.resolve, author } options selection = .ok packed)
    (happly : packed.apply selection c = .ok c') : c'.Closed provider.resolve := by
  obtain ⟨g, hg, rfl⟩ := Packed.apply_eq_ok_iff.1 happly
  obtain ⟨-, nested, hyields⟩ := yields_of_pack hg hpack
  exact hyields.closed_applied hg (hyields.resolve_wrapper provider) hclosed

/-- Unpacking finds the task in the graph of the component. If no graph can be had for it, the
component stays as it is. -/
theorem unpack_cases {resolve : Resolver} {task : String} (h : c.unpack resolve task = .ok c') :
    ∃ outer wrapper, c.graph? = some outer ∧ outer.task? task = some wrapper ∧
      ((∀ nested, resolve wrapper.reference = some nested → ¬ nested.isGraph) ∧ c' = c ∨
        ∃ nested inner, resolve wrapper.reference = some nested ∧ nested.graph? = some inner ∧
          c' = Unpacking.result ⟨task, wrapper, nested, inner, c, outer⟩) := by
  cases hg : c.graph? with
  | none => simp [unpack, requireGraph, hg, bind, Except.bind] at h
  | some outer =>
    simp only [unpack, requireGraph_eq_ok_iff.2 hg, bind, Except.bind] at h
    cases hwrapper : outer.task? task with
    | none =>
      rw [hwrapper] at h
      cases h
    | some wrapper =>
      refine ⟨outer, wrapper, rfl, hwrapper, ?_⟩
      cases hresolve : resolve wrapper.reference with
      | none =>
        simp only [hwrapper, hresolve, Except.ok.injEq] at h
        refine .inl ⟨?_, h.symm⟩
        rintro _ ⟨⟩
      | some nested =>
        cases hnested : nested.graph? with
        | none =>
          simp only [hwrapper, hresolve, hnested, Except.ok.injEq] at h
          refine .inl ⟨?_, h.symm⟩
          rintro _ ⟨⟩
          simp [isGraph, hnested]
        | some inner =>
          simp only [hwrapper, hresolve, hnested, Except.ok.injEq] at h
          exact .inr ⟨nested, inner, rfl, hnested, h.symm⟩

theorem closed_of_unpack {resolve : Resolver} {task : String} (hclosed : c.Closed resolve)
    (hunpack : c.unpack resolve task = .ok c') : c'.Closed resolve := by
  obtain ⟨outer, wrapper, hg, hwrapper, hcases⟩ := unpack_cases hunpack
  rcases hcases with ⟨-, rfl⟩ | ⟨nested, inner, hresolve, hnested, rfl⟩
  · exact hclosed
  · exact Unpacking.closed_result hg hwrapper hresolve hnested hclosed

theorem closed_of_perform {edit : Edit} (hclosed : c.Closed provider.resolve)
    (hedit : edit.perform provider.resolve c = .ok c') : c'.Closed provider.resolve := by
  cases edit with
  | unpack task => exact closed_of_unpack hclosed hedit
  | pack codec author options selection =>
    obtain ⟨packed, hpack, happly⟩ := Edit.perform_pack_eq_ok_iff.1 hedit
    exact closed_of_pack_apply hclosed hpack happly

/-- Whatever a session reaches from a closed component is closed. -/
theorem closed_of_session (provider : Provider) {start c : Component}
    (hstart : start.Closed provider.resolve) (h : Session provider.resolve start c) :
    c.Closed provider.resolve := by
  induction h with
  | start => exact hstart
  | step edit h hedit ih => exact closed_of_perform ih hedit

end Component

def mergeSelection : Selection := .ofList [(.task, "merge")]

theorem exists_perform_pack_cohort : ∃ c g arguments,
    (Edit.pack .compact none {} mergeSelection).perform .inline cohortPipeline = .ok c ∧
    c.graph? = some g ∧ g.task? "wrapper" = some { variantWrapper with arguments } := by
  have hcohort : cohortPipeline.graph? = some cohortGraph := rfl
  obtain ⟨packed, hpack⟩ : ∃ packed,
      cohortPipeline.pack { codec := .compact, resolve := .inline } {} mergeSelection =
        .ok packed :=
    Component.exists_pack hcohort rfl fun c => ⟨c.text, rfl⟩
  refine ⟨_, packed.appliedGraph mergeSelection cohortGraph, _,
    Edit.perform_pack_eq_ok_iff.2 ⟨packed, hpack, Packed.apply_eq_ok hcohort⟩,
    Packed.graph?_applied, Packed.task?_appliedGraph_of_rest rfl (by decide)⟩

theorem closed_of_session_cohort :
    cohortPipeline.Closed Provider.inline.resolve ∧
    ∃ c c', Session Provider.inline.resolve cohortPipeline c' ∧
      (Edit.pack .compact none {} mergeSelection).perform Provider.inline.resolve cohortPipeline =
        .ok c ∧
      (Edit.unpack "wrapper").perform Provider.inline.resolve c = .ok c' ∧
      c'.Closed Provider.inline.resolve := by
  have hcaller : variantCaller.graph? = some variantGraph := rfl
  have hcohort : cohortPipeline.graph? = some cohortGraph := rfl
  have hcallerClosed : variantCaller.ClosedInside Provider.inline.resolve := by
    refine (Component.closedInside_iff hcaller).2 ⟨⟨by decide, by decide, ?_⟩, ?_⟩
    · rintro g ⟨⟩
      exact ⟨by decide, by decide, by decide⟩
    · have hinstances : variantGraph.instances Provider.inline.resolve = [] := rfl
      simp [hinstances]
  have hclosed : cohortPipeline.Closed Provider.inline.resolve := by
    rw [Component.closed_iff hcohort, Component.closedInside_iff hcohort]
    refine ⟨⟨by decide, by decide, ?_⟩, ?_⟩
    · rintro g ⟨⟩
      exact ⟨by decide, by decide, by decide⟩
    · have hinstances : cohortGraph.instances Provider.inline.resolve = [variantCaller] := rfl
      simp [hinstances, hcallerClosed]
  obtain ⟨c, g, arguments, hpack, hg, hwrapper⟩ := exists_perform_pack_cohort
  obtain ⟨c', hunpack⟩ : ∃ c', (Edit.unpack "wrapper").perform Provider.inline.resolve c = .ok c' :=
    ⟨_, Component.unpack_eq_ok hg hwrapper rfl hcaller⟩
  have hsession : Session Provider.inline.resolve cohortPipeline c' :=
    .step (.unpack "wrapper") (.step _ .start hpack) hunpack
  exact ⟨hclosed, c, c', hsession, hpack, hunpack,
    Component.closed_of_session .inline hclosed hsession⟩

end TaskGraph
