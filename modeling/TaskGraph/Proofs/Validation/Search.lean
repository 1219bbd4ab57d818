import Mathlib.Data.Finset.Card
import Mathlib.Logic.Relation
import TaskGraph.Proofs.Validation.Recursive

/-!
# The search below a component, call by call

Each call is given a component and the place where it stands. It returns at once if the allocation
of the component has been entered; otherwise it enters it and makes a call for each task whose
component is a graph. An identity is one allocation wherever it occurs, and a component without one
is an allocation of its own at each place. The calls that enter are the visits of the recursive
check, in their order, so what the calls keep in every state holds of the visits at the end.
-/
namespace TaskGraph

/-- Where a component is kept. -/
inductive Allocation where
  | root
  | shared (identity : Nat)
  /-- By a task of a component that is kept somewhere itself. -/
  | placed (owner : Allocation) (task : String)
deriving DecidableEq

/-- A component with an identity is one allocation wherever it occurs. -/
def Component.allocation (place : Allocation) (c : Component) : Allocation :=
  c.identity.elim place .shared

theorem Component.allocation_of_identity {place : Allocation} {c : Component} {n : Nat}
    (h : c.identity = some n) : c.allocation place = .shared n := by
  rw [allocation, h, Option.elim_some]

theorem Component.allocation_of_identity_none {place : Allocation} {c : Component}
    (h : c.identity = none) : c.allocation place = place := by
  rw [allocation, h, Option.elim_none]

section

variable {provider : Provider} {pending : List Nat} {v : Visit} {agenda : List Visit} {n : Nat}

theorem visitsFrom_nil : visitsFrom provider pending [] = [] := by
  rw [visitsFrom]

theorem visitsFrom_of_mem (hn : v.component.identity = some n) (h : n ∈ pending) :
    visitsFrom provider pending (v :: agenda) =
      v :: visitsFrom provider (pending.removeAll [n]) (v.children provider ++ agenda) := by
  rw [visitsFrom]
  split <;> simp_all

theorem visitsFrom_of_notMem (hn : v.component.identity = some n) (h : n ∉ pending) :
    visitsFrom provider pending (v :: agenda) = visitsFrom provider pending agenda := by
  rw [visitsFrom]
  split <;> simp_all

theorem visitsFrom_of_identity_none (h : v.component.identity = none) :
    visitsFrom provider pending (v :: agenda) =
      v :: visitsFrom provider pending (v.children provider ++ agenda) := by
  rw [visitsFrom]
  split <;> simp_all

end

/-- A visit that is about to be made, and the place of its component. -/
structure Call extends Visit where
  place : Allocation

namespace Call

def allocation (k : Call) : Allocation := k.component.allocation k.place

def start (root : Component) : Call := ⟨⟨[], root⟩, .root⟩

def children (provider : Provider) (k : Call) : List Call :=
  match k.component.graph? with
  | some g => g.tasks.toList.filterMap fun e =>
      (k.toVisit.child? provider e.1 e.2).map fun v => ⟨v, .placed k.allocation e.1⟩
  | none => []

variable {provider : Provider} {k l : Call}

theorem map_toVisit_children :
    (k.children provider).map (·.toVisit) = k.toVisit.children provider := by
  rw [children, Visit.children]
  cases k.component.graph? with
  | none => rfl
  | some g =>
    simp only [List.map_filterMap, Option.map_map, Function.comp_def, Option.map_id']

theorem mem_children_iff :
    l ∈ k.children provider ↔ ∃ g id t, k.component.graph? = some g ∧ g.task? id = some t ∧
      provider.resolve t.reference = some l.component ∧ l.component.isGraph ∧
      l.path = k.path ++ [id] ∧ l.place = .placed k.allocation id := by
  rw [children]
  cases hg : k.component.graph? with
  | none => simp
  | some g =>
    simp only [List.mem_filterMap, Prod.exists, NameMap.From.mem_toList_iff, Option.some.injEq,
      exists_and_left, exists_eq_left', Visit.child?, Option.map_map, Option.map_eq_some_iff,
      Option.filter_eq_some_iff, Function.comp_apply]
    constructor
    · rintro ⟨id, t, ht, c, ⟨hc, hgraph⟩, rfl⟩
      exact ⟨id, t, ht, hc, hgraph, rfl, rfl⟩
    · rintro ⟨id, t, ht, hc, hgraph, hpath, hplace⟩
      exact ⟨id, t, ht, l.component, ⟨hc, hgraph⟩, by rw [← hpath, ← hplace]⟩

theorem nodup_map_place_children : ((k.children provider).map (·.place)).Nodup := by
  rw [children]
  cases k.component.graph? with
  | none => exact List.nodup_nil
  | some g =>
    have hsublist : (g.tasks.toList.filterMap fun e =>
        (k.toVisit.child? provider e.1 e.2).map fun _ => Allocation.placed k.allocation e.1).Sublist
          (g.tasks.keys.map (.placed k.allocation)) := by
      rw [NameMap.From.keys_eq_map, List.map_map]
      induction g.tasks.toList with
      | nil => exact List.Sublist.slnil
      | cons e es ih =>
        rw [List.filterMap_cons]
        split
        · exact ih.cons _
        · rename_i place hplace
          obtain ⟨-, -, rfl⟩ := Option.map_eq_some_iff.1 hplace
          exact ih.cons_cons _
    have hinjective : Function.Injective (Allocation.placed k.allocation) :=
      fun i j h => (Allocation.placed.inj h).2
    have hkeys := g.tasks.keys_nodup.map hinjective
    simpa only [List.map_filterMap, Option.map_map, Function.comp_def] using hkeys.sublist hsublist

theorem allocation_of_identity {n : Nat} (h : k.component.identity = some n) :
    k.allocation = .shared n :=
  Component.allocation_of_identity h

theorem allocation_of_identity_none (h : k.component.identity = none) : k.allocation = k.place :=
  Component.allocation_of_identity_none h

theorem identities_subset_of_mem_children (h : l ∈ k.children provider) :
    l.component.identities ⊆ k.component.identities ++ provider.identities := by
  obtain ⟨g, id, t, hg, ht, hresolve, -⟩ := mem_children_iff.1 h
  have hinstance := Graph.mem_instances_iff.2 ⟨id, t, ht, hresolve⟩
  exact Provider.identities_subset_of_reaches (.step hg hinstance (.refl _))

end Call

structure Search where
  /-- The calls that have entered, the first one first. -/
  entered : List Call
  /-- The calls that are still to be made, the next one first. -/
  agenda : List Call

namespace Search

def start (root : Component) : Search := ⟨[], [.start root]⟩

def allocations (s : Search) : List Allocation := s.entered.map (·.allocation)

def next (provider : Provider) (s : Search) : Option Search :=
  match s.agenda with
  | [] => none
  | k :: rest =>
    if k.allocation ∈ s.allocations then some ⟨s.entered, rest⟩
    else some ⟨s.entered ++ [k], k.children provider ++ rest⟩

abbrev Leads (provider : Provider) : Search → Search → Prop :=
  Relation.ReflTransGen fun s t => s.next provider = some t

variable {provider : Provider} {root : Component} {s t : Search} {k : Call} {rest : List Call}

@[simp] theorem allocations_mk (entered agenda : List Call) :
    (mk entered agenda).allocations = entered.map (·.allocation) := rfl

theorem next_of_mem (hagenda : s.agenda = k :: rest) (h : k.allocation ∈ s.allocations) :
    s.next provider = some ⟨s.entered, rest⟩ := by
  simp only [next, hagenda, if_pos h]

theorem next_of_notMem (hagenda : s.agenda = k :: rest) (h : k.allocation ∉ s.allocations) :
    s.next provider = some ⟨s.entered ++ [k], k.children provider ++ rest⟩ := by
  simp only [next, hagenda, if_neg h]

/-- The next call returns at once, or it enters and leaves calls to its children. -/
theorem next_cases (h : s.next provider = some t) :
    ∃ k rest, s.agenda = k :: rest ∧
      (k.allocation ∈ s.allocations ∧ t = ⟨s.entered, rest⟩ ∨
        k.allocation ∉ s.allocations ∧ t = ⟨s.entered ++ [k], k.children provider ++ rest⟩) := by
  cases hagenda : s.agenda with
  | nil => simp [next, hagenda] at h
  | cons k rest =>
    refine ⟨k, rest, rfl, ?_⟩
    by_cases hentered : k.allocation ∈ s.allocations
    · rw [next_of_mem hagenda hentered, Option.some.injEq] at h
      exact .inl ⟨hentered, h.symm⟩
    · rw [next_of_notMem hagenda hentered, Option.some.injEq] at h
      exact .inr ⟨hentered, h.symm⟩

theorem calls_induction {motive : Call → Prop} (first : motive (.start root))
    (child : ∀ k l, motive k → l ∈ k.children provider → motive l)
    (h : (start root).Leads provider s) : ∀ k ∈ s.entered ++ s.agenda, motive k := by
  induction h with
  | refl => exact List.forall_mem_singleton.2 first
  | tail _ hnext ih =>
    obtain ⟨k, rest, hagenda, ⟨-, rfl⟩ | ⟨-, rfl⟩⟩ := next_cases hnext
    all_goals
      rw [hagenda, List.forall_mem_append, List.forall_mem_cons] at ih
      obtain ⟨hentered, hk, hrest⟩ := ih
    · exact List.forall_mem_append.2 ⟨hentered, hrest⟩
    · simp only [List.forall_mem_append, List.forall_mem_singleton]
      exact ⟨⟨hentered, hk⟩, fun l hl => child k l hk hl, hrest⟩

/-- The identities that the search may still come across. -/
def ahead (provider : Provider) (s : Search) : List Nat :=
  s.agenda.flatMap (·.component.identities) ++ provider.identities

def unentered (provider : Provider) (s : Search) : Finset Nat :=
  {n ∈ (s.ahead provider).toFinset | .shared n ∉ s.allocations}

theorem mem_unentered_iff {n : Nat} :
    n ∈ s.unentered provider ↔ n ∈ s.ahead provider ∧ .shared n ∉ s.allocations := by
  simp [unentered]

theorem mem_ahead_of_identity (hagenda : s.agenda = k :: rest) {n : Nat}
    (hn : k.component.identity = some n) : n ∈ s.ahead provider := by
  rw [ahead, hagenda, List.flatMap_cons]
  exact List.mem_append_left _ (List.mem_append_left _ (Component.mem_identities hn))

theorem ahead_subset_of_next (h : s.next provider = some t) :
    t.ahead provider ⊆ s.ahead provider := by
  obtain ⟨k, rest, hagenda, ⟨-, rfl⟩ | ⟨-, rfl⟩⟩ := next_cases h
  · rw [ahead, ahead, hagenda, List.flatMap_cons, List.append_assoc]
    exact List.subset_append_right _ _
  · intro n hn
    simp only [ahead, hagenda, List.flatMap_append, List.flatMap_cons, List.mem_append,
      List.mem_flatMap] at hn ⊢
    rcases hn with (⟨l, hl, hn⟩ | hn) | hn
    · rcases List.mem_append.1 (Call.identities_subset_of_mem_children hl hn) with hn | hn
      · exact .inl (.inl hn)
      · exact .inr hn
    · exact .inl (.inr hn)
    · exact .inr hn

theorem allocations_subset_of_next (h : s.next provider = some t) :
    s.allocations ⊆ t.allocations := by
  obtain ⟨k, rest, -, ⟨-, rfl⟩ | ⟨-, rfl⟩⟩ := next_cases h
  · exact List.Subset.refl _
  · rw [allocations, allocations_mk, List.map_append]
    exact List.subset_append_left _ _

theorem unentered_subset_of_next (h : s.next provider = some t) :
    t.unentered provider ⊆ s.unentered provider := by
  intro n hn
  rw [mem_unentered_iff] at hn ⊢
  exact ⟨ahead_subset_of_next h hn.1, fun hmem => hn.2 (allocations_subset_of_next h hmem)⟩

/-- What is left to do: first the identities that have not been entered, and then what the calls
still to be made may cost. -/
def remaining (provider : Provider) (s : Search) : Nat × Nat :=
  ((s.unentered provider).card, total (s.agenda.map (·.cost)))

theorem card_unentered_lt_of_identity (hnext : s.next provider = some t)
    (hagenda : s.agenda = k :: rest) {n : Nat} (hn : k.component.identity = some n)
    (hbefore : .shared n ∉ s.allocations) (hafter : .shared n ∈ t.allocations) :
    (t.unentered provider).card < (s.unentered provider).card := by
  apply Finset.card_lt_card
  refine Finset.ssubset_iff_subset_ne.2 ⟨unentered_subset_of_next hnext, fun heq => ?_⟩
  have hmem : n ∈ s.unentered provider :=
    mem_unentered_iff.2 ⟨mem_ahead_of_identity hagenda hn, hbefore⟩
  rw [← heq, mem_unentered_iff] at hmem
  exact hmem.2 hafter

theorem remaining_lt_of_next (h : s.next provider = some t) :
    Prod.Lex (· < ·) (· < ·) (t.remaining provider) (s.remaining provider) := by
  have hcard := Finset.card_le_card (unentered_subset_of_next h)
  have hcost (hlt : total (t.agenda.map (·.cost)) < total (s.agenda.map (·.cost))) :
      Prod.Lex (· < ·) (· < ·) (t.remaining provider) (s.remaining provider) := by
    rw [Prod.lex_def]
    rcases Nat.lt_or_eq_of_le hcard with hcard | hcard
    · exact .inl hcard
    · exact .inr ⟨hcard, hlt⟩
  obtain ⟨k, rest, hagenda, ⟨-, rfl⟩ | ⟨hentered, rfl⟩⟩ := next_cases h
  · apply hcost
    have := k.cost_pos
    simp only [hagenda, List.map_cons, total_cons]
    omega
  · cases hidentity : k.component.identity with
    | some n =>
      rw [Call.allocation_of_identity hidentity] at hentered
      have hafter : .shared n ∈ (s.entered ++ [k]).map (·.allocation) := by
        simp [Call.allocation_of_identity hidentity]
      exact .left _ _ (card_unentered_lt_of_identity h hagenda hidentity hentered hafter)
    | none =>
      apply hcost
      have hchildren := k.cost_children_lt provider
      rw [← k.cost_of_identity_none hidentity, ← Call.map_toVisit_children, List.map_map]
        at hchildren
      simp only [hagenda, List.map_append, total_append, List.map_cons, total_cons]
      exact Nat.add_lt_add_right hchildren _

/-- There is no search without end, from whatever state. -/
theorem wellFounded_next (provider : Provider) :
    WellFounded fun t s : Search => s.next provider = some t :=
  Subrelation.wf remaining_lt_of_next
    (InvImage.wf (remaining provider) (Prod.lex Nat.lt_wfRel Nat.lt_wfRel).wf)

/-- The call is the first one, or its caller has entered. -/
def Called (provider : Provider) (root : Component) (s : Search) (k : Call) : Prop :=
  k = .start root ∨ ∃ b ∈ s.entered, k ∈ b.children provider

theorem Called.enter {agenda : List Call} {j : Call} (hj : s.Called provider root j) :
    Called provider root ⟨s.entered ++ [k], agenda⟩ j :=
  hj.imp_right fun ⟨b, hb, hchild⟩ => ⟨b, List.mem_append_left _ hb, hchild⟩

theorem Called.place_ne_shared (hk : s.Called provider root k) (n : Nat) :
    k.place ≠ .shared n := by
  rcases hk with rfl | ⟨b, -, hchild⟩
  · exact Allocation.noConfusion
  · obtain ⟨g, id, t, -, -, -, -, -, hplace⟩ := Call.mem_children_iff.1 hchild
    rw [hplace]
    exact Allocation.noConfusion

/-- Only components with an identity are an allocation under it. -/
theorem Called.identity_of_allocation (hk : s.Called provider root k) {n : Nat}
    (hn : k.allocation = .shared n) : k.component.identity = some n := by
  cases hidentity : k.component.identity with
  | some m =>
    rw [Call.allocation_of_identity hidentity, Allocation.shared.injEq] at hn
    rw [hn]
  | none =>
    rw [Call.allocation_of_identity_none hidentity] at hn
    exact absurd hn (hk.place_ne_shared n)

theorem Called.identity_none_of_allocation {j : Call} (hk : s.Called provider root k)
    (hidentity : k.component.identity = none) (heq : j.allocation = k.allocation) :
    j.component.identity = none := by
  cases hidentity' : j.component.identity with
  | none => rfl
  | some n =>
    rw [Call.allocation_of_identity hidentity'] at heq
    rw [hk.identity_of_allocation heq.symm] at hidentity
    cases hidentity

/-- A call that has not entered has no children yet. -/
theorem Called.place_ne_placed (hk : s.Called provider root k) {a : Allocation}
    (ha : a ∉ s.allocations) (id : String) : k.place ≠ .placed a id := by
  intro hplace
  rcases hk with rfl | ⟨b, hb, hchild⟩
  · cases hplace
  · obtain ⟨g, j, t, -, -, -, -, -, hplace'⟩ := Call.mem_children_iff.1 hchild
    rw [hplace', Allocation.placed.injEq] at hplace
    exact ha (hplace.1 ▸ List.mem_map_of_mem hb)

/-- What the states have in common that the search from the root comes to. -/
structure Sound (provider : Provider) (root : Component) (s : Search) : Prop where
  called : ∀ k ∈ s.entered ++ s.agenda, s.Called provider root k
  nodup : s.allocations.Nodup
  /-- Components without an identity stand at different places. -/
  apart : (((s.entered ++ s.agenda).filter (·.component.identity.isNone)).map (·.place)).Nodup
  started : Call.start root ∈ s.agenda ∨ (Call.start root).allocation ∈ s.allocations
  closed : ∀ b ∈ s.entered, ∀ k ∈ b.children provider, k ∈ s.agenda ∨ k.allocation ∈ s.allocations
  known : s.ahead provider ⊆ root.identities ++ provider.identities

theorem sound_start : (start root).Sound provider root where
  called := fun k hk => .inl (List.mem_singleton.1 hk)
  nodup := List.nodup_nil
  apart := (List.nodup_singleton _).sublist (List.filter_sublist.map _)
  started := .inl (List.mem_singleton_self _)
  closed := fun b hb => (List.not_mem_nil hb).elim
  known := by simp [ahead, start, Call.start]

namespace Sound

theorem identity_isSome_of_entered (h : s.Sound provider root) (hagenda : s.agenda = k :: rest)
    (hentered : k.allocation ∈ s.allocations) : k.component.identity.isSome := by
  by_contra hidentity
  rw [Option.not_isSome_iff_eq_none] at hidentity
  obtain ⟨j, hj, heq⟩ := List.mem_map.1 hentered
  have hk : k ∈ s.agenda := hagenda ▸ List.mem_cons_self
  have hcalled := h.called k (List.mem_append_right _ hk)
  have hjnone := hcalled.identity_none_of_allocation hidentity heq
  rw [Call.allocation_of_identity_none hjnone, Call.allocation_of_identity_none hidentity] at heq
  have hapart := h.apart
  rw [List.filter_append, List.map_append, List.nodup_append] at hapart
  refine hapart.2.2 j.place ?_ k.place ?_ heq
  · exact List.mem_map_of_mem (List.mem_filter.2 ⟨hj, by rw [hjnone, Option.isNone_none]⟩)
  · exact List.mem_map_of_mem (List.mem_filter.2 ⟨hk, by rw [hidentity, Option.isNone_none]⟩)

theorem apart_enter (h : s.Sound provider root) (hagenda : s.agenda = k :: rest)
    (hentered : k.allocation ∉ s.allocations) :
    ((((s.entered ++ [k]) ++ (k.children provider ++ rest)).filter
      (·.component.identity.isNone)).map (·.place)).Nodup := by
  have hperm : ((s.entered ++ [k]) ++ (k.children provider ++ rest)).Perm
      ((s.entered ++ s.agenda) ++ k.children provider) := by
    rw [hagenda, List.append_assoc, List.append_assoc]
    have htail : (k :: (k.children provider ++ rest)).Perm (k :: (rest ++ k.children provider)) :=
      List.perm_append_comm.cons k
    exact htail.append_left _
  refine (((hperm.filter _).map _).nodup_iff).2 ?_
  rw [List.filter_append, List.map_append, List.nodup_append]
  refine ⟨h.apart, Call.nodup_map_place_children.sublist (List.filter_sublist.map _), ?_⟩
  intro a ha b hb heq
  obtain ⟨j, hj, rfl⟩ := List.mem_map.1 ha
  obtain ⟨l, hl, rfl⟩ := List.mem_map.1 hb
  obtain ⟨g, id, t, -, -, -, -, -, hplace⟩ := Call.mem_children_iff.1 (List.mem_filter.1 hl).1
  have hcalled := h.called j (List.mem_filter.1 hj).1
  exact hcalled.place_ne_placed hentered id (heq.trans hplace)

theorem skip (h : s.Sound provider root) (hagenda : s.agenda = k :: rest)
    (hentered : k.allocation ∈ s.allocations) : Sound provider root ⟨s.entered, rest⟩ := by
  have hsublist : (s.entered ++ rest).Sublist (s.entered ++ s.agenda) := by
    rw [hagenda]
    exact (List.sublist_cons_self k rest).append_left _
  have hleft {j : Call} (hj : j ∈ s.agenda ∨ j.allocation ∈ s.allocations) :
      j ∈ rest ∨ j.allocation ∈ s.allocations := by
    rw [hagenda, List.mem_cons] at hj
    rcases hj with (rfl | hj) | hj
    · exact .inr hentered
    · exact .inl hj
    · exact .inr hj
  exact {
    called := fun j hj => h.called j (hsublist.subset hj)
    nodup := h.nodup
    apart := h.apart.sublist ((hsublist.filter _).map _)
    started := hleft h.started
    closed := fun b hb j hj => hleft (h.closed b hb j hj)
    known := List.Subset.trans (ahead_subset_of_next (next_of_mem hagenda hentered)) h.known }

theorem called_enter (h : s.Sound provider root) (hagenda : s.agenda = k :: rest) {j : Call}
    (hj : j ∈ (s.entered ++ [k]) ++ (k.children provider ++ rest)) :
    Called provider root ⟨s.entered ++ [k], k.children provider ++ rest⟩ j := by
  have hcalled := h.called j
  rw [hagenda, List.mem_append, List.mem_cons] at hcalled
  simp only [List.mem_append, List.mem_singleton] at hj
  rcases hj with (hj | rfl) | hj | hj
  · exact (hcalled (.inl hj)).enter
  · exact (hcalled (.inr (.inl rfl))).enter
  · exact .inr ⟨k, by simp, hj⟩
  · exact (hcalled (.inr (.inr hj))).enter

theorem enter (h : s.Sound provider root) (hagenda : s.agenda = k :: rest)
    (hentered : k.allocation ∉ s.allocations) :
    Sound provider root ⟨s.entered ++ [k], k.children provider ++ rest⟩ := by
  have hleft {j : Call} (hj : j ∈ s.agenda ∨ j.allocation ∈ s.allocations) :
      j ∈ k.children provider ++ rest ∨ j.allocation ∈ (s.entered ++ [k]).map (·.allocation) := by
    rw [List.map_append, List.mem_append, List.mem_append]
    rw [hagenda, List.mem_cons] at hj
    rcases hj with (rfl | hj) | hj
    · exact .inr (.inr (List.mem_singleton_self _))
    · exact .inl (.inr hj)
    · exact .inr (.inl hj)
  exact {
    called := fun j hj => h.called_enter hagenda hj
    nodup := by
      rw [allocations_mk, List.map_append]
      exact h.nodup.append (List.nodup_singleton _) (List.disjoint_singleton.2 hentered)
    apart := h.apart_enter hagenda hentered
    started := hleft h.started
    closed := by
      intro b hb j hj
      rcases List.mem_append.1 hb with hb | hb
      · exact hleft (h.closed b hb j hj)
      · exact .inl (List.mem_append_left _ (List.mem_singleton.1 hb ▸ hj))
    known := List.Subset.trans (ahead_subset_of_next (next_of_notMem hagenda hentered)) h.known }

theorem next (h : s.Sound provider root) (hnext : s.next provider = some t) :
    t.Sound provider root := by
  obtain ⟨k, rest, hagenda, ⟨hentered, rfl⟩ | ⟨hentered, rfl⟩⟩ := next_cases hnext
  · exact h.skip hagenda hentered
  · exact h.enter hagenda hentered

theorem leads (h : s.Sound provider root) (hleads : s.Leads provider t) :
    t.Sound provider root := by
  induction hleads with
  | refl => exact h
  | tail _ hnext ih => exact ih.next hnext

end Sound

/-- The identities that have not been entered, as the recursive check lists them. -/
def pending (provider : Provider) (root : Component) (s : Search) : List Nat :=
  (root.identities ++ provider.identities).filter (.shared · ∉ s.allocations)

theorem mem_pending_iff {n : Nat} : n ∈ s.pending provider root ↔
    n ∈ root.identities ++ provider.identities ∧ .shared n ∉ s.allocations := by
  simp only [pending, List.mem_filter, decide_eq_true_eq]

theorem pending_enter {n : Nat} (hn : k.component.identity = some n) {agenda : List Call} :
    (mk (s.entered ++ [k]) agenda).pending provider root =
      (s.pending provider root).removeAll [n] := by
  rw [pending, pending, List.removeAll, List.filter_filter]
  refine List.filter_congr fun m _ => ?_
  simp [allocations, Call.allocation_of_identity hn, not_or, and_comm]

theorem pending_enter_of_identity_none (hidentity : k.component.identity = none)
    (hplace : ∀ n, k.place ≠ .shared n) {agenda : List Call} :
    (mk (s.entered ++ [k]) agenda).pending provider root = s.pending provider root := by
  refine List.filter_congr fun m _ => ?_
  simp [allocations, Call.allocation_of_identity_none hidentity, (hplace m).symm]

/-- From every state the search comes to its end, and the calls that enter on the way make the
visits of the recursive check. -/
theorem Sound.leads_visitsFrom (h : s.Sound provider root) :
    ∃ calls, s.Leads provider ⟨s.entered ++ calls, []⟩ ∧ calls.map (·.toVisit) =
      visitsFrom provider (s.pending provider root) (s.agenda.map (·.toVisit)) := by
  induction s using (wellFounded_next provider).induction with
  | _ s ih =>
    cases hagenda : s.agenda with
    | nil =>
      refine ⟨[], ?_, visitsFrom_nil.symm⟩
      rw [List.append_nil, ← hagenda]
    | cons k rest =>
      rw [List.map_cons]
      by_cases hentered : k.allocation ∈ s.allocations
      · have hnext : s.next provider = some _ := next_of_mem hagenda hentered
        obtain ⟨calls, hleads, hcalls⟩ := ih _ hnext (h.next hnext)
        refine ⟨calls, hleads.head hnext, hcalls.trans ?_⟩
        obtain ⟨n, hn⟩ := Option.isSome_iff_exists.1 (h.identity_isSome_of_entered hagenda hentered)
        rw [Call.allocation_of_identity hn] at hentered
        rw [visitsFrom_of_notMem hn fun hmem => (mem_pending_iff.1 hmem).2 hentered]
        rfl
      · have hnext : s.next provider = some _ := next_of_notMem hagenda hentered
        obtain ⟨calls, hleads, hcalls⟩ := ih _ hnext (h.next hnext)
        refine ⟨k :: calls, ?_, ?_⟩
        · rw [List.append_cons]
          exact hleads.head hnext
        · rw [List.map_cons, hcalls, List.map_append, Call.map_toVisit_children]
          cases hidentity : k.component.identity with
          | some n =>
            have hknown := h.known (mem_ahead_of_identity hagenda hidentity)
            rw [Call.allocation_of_identity hidentity] at hentered
            rw [visitsFrom_of_mem hidentity (mem_pending_iff.2 ⟨hknown, hentered⟩),
              pending_enter hidentity]
          | none =>
            have hk : k ∈ s.entered ++ s.agenda := by simp [hagenda]
            rw [visitsFrom_of_identity_none hidentity,
              pending_enter_of_identity_none hidentity (h.called k hk).place_ne_shared]

end Search

/-- The search comes to an end, and the calls that have entered then are the visits of the recursive
check. -/
theorem Component.exists_search (provider : Provider) (root : Component) :
    ∃ s, (Search.start root).Leads provider s ∧ s.agenda = [] ∧
      s.entered.map (·.toVisit) = root.visits provider := by
  have hsound : (Search.start root).Sound provider root := Search.sound_start
  obtain ⟨calls, hleads, hcalls⟩ := hsound.leads_visitsFrom
  refine ⟨_, hleads, rfl, ?_⟩
  have hpending : (Search.start root).pending provider root =
      root.identities ++ provider.identities :=
    List.filter_eq_self.2 fun n _ => rfl
  rw [hpending] at hcalls
  exact hcalls

end TaskGraph
