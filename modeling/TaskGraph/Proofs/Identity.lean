import Mathlib.Data.List.Nodup
import Mathlib.Data.List.Pairwise
import TaskGraph.Component.Weight
import TaskGraph.Proofs.Closed
import TaskGraph.Proofs.NameMap

/-!
# Identities of components

A component that is registered gets a number that was not used before, and so does each component
inside it that has none; what has an identity keeps it. So an identity belongs to one component in
a catalog that has been filled so, as long as the components agreed with the catalog when they were
registered, and then it does below any component that agrees with the catalog. A component that is
read from a text has no identities, and agrees with every catalog.
-/
namespace TaskGraph

/-- What the component reaches under one identity is one component. -/
def Component.Identified (resolve : Resolver) (c : Component) : Prop :=
  ∀ d e, Reaches resolve c d → Reaches resolve c e → ∀ n, d.identity = some n →
    e.identity = some n → d = e

theorem identitiesOfTasks_eq {lo : Option String} (tasks : NameMap.From Task lo) :
    identitiesOfTasks tasks = tasks.toList.flatMap (·.2.identities) := by
  induction tasks with
  | nil => rfl
  | cons id t h rest ih => rw [identitiesOfTasks, NameMap.From.toList, List.flatMap_cons, ih]

theorem Reference.identities_of_spec {r : Reference} {c : Component} (h : r.spec = some c) :
    r.identities = c.identities := by
  obtain ⟨name, digest, url, spec, text⟩ := r
  obtain rfl : spec = some c := h
  rfl

theorem Task.identities_eq (t : Task) : t.identities = t.reference.identities := by
  cases t
  rfl

namespace Component

variable {c d e : Component} {g : Graph}

theorem Reaches.trans {resolve : Resolver} (hcd : Reaches resolve c d) (hde : Reaches resolve d e) :
    Reaches resolve c e := by
  induction hcd with
  | refl c => exact hde
  | step hg hd _ ih => exact .step hg hd (ih hde)

theorem identities_of_graph? (hg : c.graph? = some g) :
    c.identities = c.identity.toList ++ identitiesOfTasks g.tasks := by
  obtain ⟨name, description, inputs, outputs, implementation, metadata, identity⟩ := c
  cases implementation with
  | none => cases hg
  | some i =>
    cases i with
    | container container => cases hg
    | graph g' =>
      obtain rfl : g' = g := Option.some.inj hg
      obtain ⟨tasks, outputValues⟩ := g'
      rfl

theorem mem_identities {n : Nat} (h : c.identity = some n) : n ∈ c.identities := by
  obtain ⟨name, description, inputs, outputs, implementation, metadata, identity⟩ := c
  obtain rfl : identity = some n := h
  cases implementation with
  | none => exact List.mem_singleton_self n
  | some i => exact List.mem_append_left _ (List.mem_singleton_self n)

theorem mem_instances_inline_iff :
    d ∈ g.instances .inline ↔ ∃ id t, g.task? id = some t ∧ t.reference.spec = some d :=
  Graph.mem_instances_iff

theorem identities_sublist_of_task {id : String} {t : Task} (ht : g.task? id = some t)
    (hd : t.reference.spec = some d) : d.identities.Sublist (identitiesOfTasks g.tasks) := by
  rw [identitiesOfTasks_eq, ← Reference.identities_of_spec hd, ← Task.identities_eq]
  exact List.sublist_flatten_of_mem (List.mem_map_of_mem (NameMap.From.mem_toList_iff.2 ht))

theorem exists_of_mem_instances (h : d ∈ g.instances .inline) :
    ∃ id, (g.task? id).bind (·.reference.spec) = some d := by
  obtain ⟨id, t, ht, hspec⟩ := mem_instances_inline_iff.1 h
  exact ⟨id, Option.bind_eq_some_iff.2 ⟨t, ht, hspec⟩⟩

theorem mem_instances_of_spec {id : String}
    (h : (g.task? id).bind (·.reference.spec) = some d) : d ∈ g.instances .inline := by
  obtain ⟨t, ht, hspec⟩ := Option.bind_eq_some_iff.1 h
  exact mem_instances_inline_iff.2 ⟨id, t, ht, hspec⟩

theorem identities_sublist_of_spec (hg : c.graph? = some g) {id : String} {t : Task}
    (ht : g.task? id = some t) (hd : t.reference.spec = some d) :
    d.identities.Sublist c.identities := by
  rw [identities_of_graph? hg]
  exact (identities_sublist_of_task ht hd).trans (List.sublist_append_right _ _)

theorem identities_subset_of_spec (hg : c.graph? = some g) {id : String} {t : Task}
    (ht : g.task? id = some t) (hd : t.reference.spec = some d) : d.identities ⊆ c.identities :=
  (identities_sublist_of_spec hg ht hd).subset

theorem identities_subset_of_reaches (h : Reaches .inline c d) : d.identities ⊆ c.identities := by
  induction h with
  | refl c => exact List.Subset.refl _
  | step hg hd _ ih =>
    obtain ⟨id, t, ht, hspec⟩ := mem_instances_inline_iff.1 hd
    exact List.Subset.trans ih (identities_subset_of_spec hg ht hspec)

/-- Of tasks among which an identity occurs once, two that have it are the same. -/
theorem task_unique {n : Nat} (hcount : (identitiesOfTasks g.tasks).count n ≤ 1) {i j : String}
    {s t : Task} (hs : g.task? i = some s) (ht : g.task? j = some t) (hns : n ∈ s.identities)
    (hnt : n ∈ t.identities) : s = t := by
  rw [← List.nodup_replicate (a := n), ← List.filter_beq, identitiesOfTasks_eq,
    List.filter_flatMap, List.nodup_flatMap] at hcount
  have hs := NameMap.From.mem_toList_iff.2 hs
  have ht := NameMap.From.mem_toList_iff.2 ht
  by_contra hne
  have : Std.Symm (Function.onFun List.Disjoint
      fun e : String × Task => e.2.identities.filter (· == n)) :=
    ⟨fun _ _ h _ hb ha => h ha hb⟩
  have hdisjoint := hcount.2.forall hs ht fun h => hne (congrArg Prod.snd h)
  exact hdisjoint (List.mem_filter.2 ⟨hns, beq_self_eq_true n⟩)
    (List.mem_filter.2 ⟨hnt, beq_self_eq_true n⟩)

/-- No component is found again inside one in which its identity occurs once. -/
theorem eq_of_identity {n : Nat} (hcount : c.identities.count n ≤ 1) (hd : Reaches .inline c d)
    (he : Reaches .inline c e) (hdn : d.identity = some n) (hen : e.identity = some n) : d = e := by
  have hbelow {c d e : Component} {g : Graph} (hcount : c.identities.count n ≤ 1)
      (hg : c.graph? = some g) (hd : d ∈ g.instances .inline) (he : Reaches .inline d e)
      (hcn : c.identity = some n) (hen : e.identity = some n) : False := by
    obtain ⟨id, t, ht, hspec⟩ := mem_instances_inline_iff.1 hd
    have hmem : n ∈ identitiesOfTasks g.tasks :=
      (identities_sublist_of_task ht hspec).subset
        (identities_subset_of_reaches he (mem_identities hen))
    rw [identities_of_graph? hg, hcn, List.count_append] at hcount
    have hroot := List.count_pos_iff.2 (List.mem_singleton_self n)
    have htasks := List.count_pos_iff.2 hmem
    simp only [Option.toList_some] at hcount
    omega
  induction hd with
  | refl c =>
    cases he with
    | refl => rfl
    | step hg he' he => exact (hbelow hcount hg he' he hdn hen).elim
  | @step c d' d g hg hd' hd ih =>
    cases he with
    | refl => exact (hbelow hcount hg hd' hd hen hdn).elim
    | @step _ e' _ g' hg' he' he =>
      obtain rfl := Option.some.inj (hg.symm.trans hg')
      obtain ⟨i, s, hs, hspec⟩ := mem_instances_inline_iff.1 hd'
      obtain ⟨j, t, ht, htspec⟩ := mem_instances_inline_iff.1 he'
      have htasks : (identitiesOfTasks g.tasks).count n ≤ 1 := by
        rw [identities_of_graph? hg, List.count_append] at hcount
        omega
      have hns : n ∈ s.identities := by
        rw [Task.identities_eq, Reference.identities_of_spec hspec]
        exact identities_subset_of_reaches hd (mem_identities hdn)
      have hnt : n ∈ t.identities := by
        rw [Task.identities_eq, Reference.identities_of_spec htspec]
        exact identities_subset_of_reaches he (mem_identities hen)
      obtain rfl := task_unique htasks hs ht hns hnt
      obtain rfl := Option.some.inj (hspec.symm.trans htspec)
      have hle := (identities_sublist_of_spec hg hs hspec).count_le n
      exact ih (Nat.le_trans hle hcount) he hdn

end Component

/-- The new identities are the next numbers, each once, and some of the old identities. -/
def Numbering (next after : Nat) (old new : List Nat) : Prop :=
  ∃ k kept, after = next + k ∧ kept ⊆ old ∧ new.Perm (List.range' next k ++ kept)

namespace Numbering

variable {next after last : Nat} {old new old' new' : List Nat}

theorem keep (next : Nat) (l : List Nat) : Numbering next next l l :=
  ⟨0, l, rfl, List.Subset.refl l, .refl l⟩

theorem one (next : Nat) (old : List Nat) : Numbering next (next + 1) old [next] :=
  ⟨1, [], rfl, List.nil_subset old, .refl [next]⟩

theorem append (h : Numbering next after old new) (h' : Numbering after last old' new') :
    Numbering next last (old ++ old') (new ++ new') := by
  obtain ⟨k, kept, rfl, hkept, hnew⟩ := h
  obtain ⟨l, kept', rfl, hkept', hnew'⟩ := h'
  refine ⟨k + l, kept ++ kept', Nat.add_assoc next k l, ?_, (hnew.append hnew').trans ?_⟩
  · exact List.append_subset.2 ⟨List.subset_append_of_subset_left _ hkept,
      List.subset_append_of_subset_right _ hkept'⟩
  · rw [← List.range'_append_1, List.append_assoc, List.append_assoc]
    exact (List.perm_append_comm_assoc _ _ _).append_left _

theorem le (h : Numbering next after old new) : next ≤ after := by
  obtain ⟨k, -, rfl, -⟩ := h
  exact Nat.le_add_right next k

theorem mem_cases (h : Numbering next after old new) {n : Nat} (hn : n ∈ new) :
    n ∈ old ∨ next ≤ n ∧ n < after := by
  obtain ⟨k, kept, rfl, hkept, hnew⟩ := h
  rcases List.mem_append.1 (hnew.mem_iff.1 hn) with hn | hn
  · exact .inr (List.mem_range'_1.1 hn)
  · exact .inl (hkept hn)

theorem count_le (h : Numbering next after old new) {n : Nat} (hn : n ∉ old) :
    new.count n ≤ 1 := by
  obtain ⟨k, kept, -, hkept, hnew⟩ := h
  have hkept := List.count_eq_zero.2 fun h => hn (hkept h)
  rw [hnew.count_eq, List.count_append, hkept]
  exact List.nodup_iff_count_le_one.1 List.nodup_range' n

end Numbering

mutual

theorem Component.numbering (next : Nat) (c : Component) :
    Numbering next (c.numbered next).2 c.identities (c.numbered next).1.identities := by
  match c with
  | ⟨name, description, inputs, outputs, none, metadata, identity⟩ =>
    exact .one next identity.toList
  | ⟨name, description, inputs, outputs, some i, metadata, identity⟩ =>
    exact (Numbering.one next identity.toList).append (i.numbering (next + 1))

theorem Implementation.numbering (next : Nat) (i : Implementation) :
    Numbering next (i.numbered next).2 i.identities (i.numbered next).1.identities := by
  match i with
  | .container c => exact .keep next []
  | .graph ⟨tasks, outputValues⟩ => exact numbering_numberedTasks next tasks

theorem numbering_numberedTasks (next : Nat) {lo : Option String} (tasks : NameMap.From Task lo) :
    Numbering next (numberedTasks next tasks).2 (identitiesOfTasks tasks)
      (identitiesOfTasks (numberedTasks next tasks).1) := by
  match tasks with
  | .nil => exact .keep next []
  | .cons id t h rest => exact (t.numbering next).append (numbering_numberedTasks _ rest)

theorem Task.numbering (next : Nat) (t : Task) :
    Numbering next (t.numbered next).2 t.identities (t.numbered next).1.identities := by
  match t with
  | ⟨reference, arguments, annotations, execution⟩ => exact reference.numbering next

theorem Reference.numbering (next : Nat) (r : Reference) :
    Numbering next (r.numbered next).2 r.identities (r.numbered next).1.identities := by
  match r with
  | ⟨name, digest, url, none, text⟩ => exact .keep next []
  | ⟨name, digest, url, some c, text⟩ =>
    by_cases hc : c.identity.isSome
    · simp only [Reference.numbered, if_pos hc]
      exact .keep next _
    · simp only [Reference.numbered, if_neg hc]
      exact c.numbering next

end

theorem Reference.spec_numbered (next : Nat) (r : Reference) :
    (r.numbered next).1.spec =
      r.spec.map fun c => if c.identity.isSome then c else (c.numbered next).1 := by
  obtain ⟨name, digest, url, spec, text⟩ := r
  cases spec with
  | none => rfl
  | some c =>
    by_cases hc : c.identity.isSome
    · simp only [Reference.numbered, if_pos hc, Option.map_some]
    · simp only [Reference.numbered, if_neg hc, Option.map_some]

theorem exists_get?_numberedTasks (next : Nat) {lo : Option String}
    (tasks : NameMap.From Task lo) (id : String) :
    ∃ m, next ≤ m ∧ (numberedTasks next tasks).1.get? id =
      (tasks.get? id).map fun t => (t.numbered m).1 := by
  induction tasks generalizing next with
  | nil => exact ⟨next, Nat.le_refl next, rfl⟩
  | cons j t h rest ih =>
    by_cases hid : id = j
    · exact ⟨next, Nat.le_refl next, by simp [numberedTasks, NameMap.From.get?, hid]⟩
    · obtain ⟨m, hm, hget⟩ := ih (t.numbered next).2
      refine ⟨m, Nat.le_trans (t.numbering next).le hm, ?_⟩
      simpa only [numberedTasks, NameMap.From.get?, if_neg hid] using hget

/-- What a task holds stays if it has an identity, and is numbered otherwise. -/
theorem Graph.exists_spec_numbered (next : Nat) (g : Graph) (id : String) :
    ∃ m, next ≤ m ∧ ((g.numbered next).1.task? id).bind (·.reference.spec) =
      ((g.task? id).bind (·.reference.spec)).map
        fun c => if c.identity.isSome then c else (c.numbered m).1 := by
  obtain ⟨tasks, outputValues⟩ := g
  obtain ⟨m, hm, hget⟩ := exists_get?_numberedTasks next tasks id
  refine ⟨m, hm, ?_⟩
  change ((numberedTasks next tasks).1.get? id).bind _ = ((tasks.get? id).bind _).map _
  rw [hget]
  cases tasks.get? id with
  | none => rfl
  | some t =>
    cases t
    exact Reference.spec_numbered m _

namespace Component

variable {c d : Component} {next : Nat}

theorem graph?_numbered (next : Nat) (c : Component) :
    (c.numbered next).1.graph? = c.graph?.map fun g => (g.numbered (next + 1)).1 := by
  obtain ⟨name, description, inputs, outputs, implementation, metadata, identity⟩ := c
  cases implementation with
  | none => rfl
  | some i => cases i <;> rfl

end Component

open Json

theorem Json.Decoder.exists_of_members? {α : Type} {read : Document → Option α}
    {members : List (Literal × Document)} {m : NameMap α} (h : members? read members = some m)
    {e : String × α} (he : e ∈ m.toList) : ∃ d, read d = some e.2 := by
  obtain ⟨entries, hentries, rfl⟩ := Option.map_eq_some_iff.1 h
  have hmem := NameMap.mem_of_get?_ofList (NameMap.From.mem_toList_iff.1 he)
  clear h he
  induction members generalizing entries with
  | nil =>
    obtain rfl : [] = entries := Option.some.inj hentries
    cases hmem
  | cons member members ih =>
    simp only [List.mapM_cons, Option.bind_eq_bind, Option.bind_eq_some_iff, member?,
      Option.pure_def, Option.some.injEq] at hentries
    obtain ⟨entry, ⟨name, -, value, hvalue, rfl⟩, rest, hrest, rfl⟩ := hentries
    rcases List.mem_cons.1 hmem with heq | hmem
    · exact ⟨member.2, hvalue.trans (congrArg (fun e => some e.2) heq.symm)⟩
    · exact ih rest hrest hmem

section

variable {component : Decoder Component} {room : Nat} {d : Document}
  (hnone : ∀ room d c, component room d = some c → c.identities = [])

include hnone

theorem Reference.identities_decoderWith {r : Reference}
    (h : Reference.decoderWith component room d = some r) : r.identities = [] := by
  simp only [Reference.decoderWith, Option.bind_eq_bind, Option.bind_eq_some_iff,
    Option.some.injEq] at h
  obtain ⟨f, -, name, -, digest, -, url, -, spec, hspec, text, -, rfl⟩ := h
  cases spec with
  | none => rfl
  | some c =>
    obtain ⟨doc, -, hc⟩ := Fields.find?_of_optional hspec
    exact hnone _ _ c hc

theorem Task.identities_decoderWith {t : Task}
    (h : Task.decoderWith component room d = some t) : t.identities = [] := by
  simp only [Task.decoderWith, Option.bind_eq_bind, Option.bind_eq_some_iff,
    Option.some.injEq] at h
  obtain ⟨f, -, r, hr, _, -, _, -, _, -, rfl⟩ := h
  obtain ⟨doc, -, hr⟩ := Fields.find?_of_required hr
  exact Reference.identities_decoderWith hnone hr

theorem Graph.identities_decoderWith {g : Graph}
    (h : Graph.decoderWith component room d = some g) : identitiesOfTasks g.tasks = [] := by
  simp only [Graph.decoderWith, Option.bind_eq_bind, Option.bind_eq_some_iff,
    Option.some.injEq] at h
  obtain ⟨f, -, tasks, htasks, _, -, rfl⟩ := h
  rw [Fields.defaulted] at htasks
  split at htasks
  · obtain rfl := Option.some.inj htasks
    rfl
  · unfold Decoder.names at htasks
    split at htasks
    · rw [identitiesOfTasks_eq, List.flatMap_eq_nil_iff]
      intro e he
      obtain ⟨doc, ht⟩ := Decoder.exists_of_members? htasks he
      exact Task.identities_decoderWith hnone ht
    · cases htasks

theorem Component.identities_decoderWith {c : Component}
    (h : Component.decoderWith component room d = some c) : c.identities = [] := by
  simp only [Component.decoderWith, Option.bind_eq_bind, Option.bind_eq_some_iff,
    Option.some.injEq] at h
  obtain ⟨f, -, name, -, description, -, inputs, -, outputs, -, i, hi, metadata, -, rfl⟩ := h
  cases i with
  | none => rfl
  | some i =>
    cases i with
    | container container => rfl
    | graph g =>
      obtain ⟨doc, -, hi⟩ := Fields.find?_of_optional hi
      simp only [Implementation.decoderWith, Option.bind_eq_bind, Option.bind_eq_some_iff] at hi
      obtain ⟨⟨tag, payload, inner⟩, -, hi⟩ := hi
      dsimp only at hi
      split at hi
      · simp at hi
      · obtain ⟨g', hg, heq⟩ := Option.map_eq_some_iff.1 hi
        obtain rfl := Implementation.graph.inj heq
        have htasks := Graph.identities_decoderWith hnone hg
        rwa [identities_of_graph? rfl]
      · cases hi

end

namespace Component

theorem identities_decoder (room : Nat) {d : Document} {c : Component}
    (h : Component.decoder room d = some c) : c.identities = [] := by
  induction room using Nat.strongRecOn generalizing d c with
  | ind room ih =>
    rw [Component.decoder] at h
    refine identities_decoderWith (fun inner e b hb => ?_) h
    split at hb
    · exact ih _ ‹_› hb
    · cases hb

/-- A component that is read from a text has no identities. -/
theorem identities_of_ofText? {text : String} {c : Component} (h : ofText? text = some c) :
    c.identities = [] := by
  obtain ⟨d, -, hc⟩ := Option.bind_eq_some_iff.1 h
  exact identities_decoder _ hc

end Component

/-- What stands in either component under one identity is one component. -/
def Component.Agrees (c d : Component) : Prop :=
  ∀ x y, Reaches .inline c x → Reaches .inline d y → ∀ n, x.identity = some n →
    y.identity = some n → x = y

namespace Component

variable {c d : Component} {next : Nat}

theorem Agrees.symm (h : c.Agrees d) : d.Agrees c :=
  fun x y hx hy n hxn hyn => (h y x hy hx n hyn hxn).symm

theorem agrees_of_identities (h : c.identities = []) (d : Component) : c.Agrees d := by
  intro x _ hx _ n hn _
  have hmem := identities_subset_of_reaches hx (mem_identities hn)
  rw [h] at hmem
  cases hmem

/-- What stands in a numbered component has a new number, or stood there before. -/
theorem reaches_of_numbered (h : Reaches .inline (c.numbered next).1 d) :
    (∃ n, next ≤ n ∧ d.identity = some n) ∨ Reaches .inline c d := by
  generalize hc : (c.numbered next).1 = c' at h
  induction h generalizing c next with
  | refl => exact .inl ⟨next, Nat.le_refl next, by rw [← hc, identity_numbered]⟩
  | @step c' d' e g' hg' hd' he ih =>
    subst hc
    rw [graph?_numbered, Option.map_eq_some_iff] at hg'
    obtain ⟨g, hg, rfl⟩ := hg'
    obtain ⟨id, hid⟩ := exists_of_mem_instances hd'
    obtain ⟨m, hm, hspec⟩ := g.exists_spec_numbered (next + 1) id
    rw [hspec, Option.map_eq_some_iff] at hid
    obtain ⟨d, hd, rfl⟩ := hid
    have hd := mem_instances_of_spec hd
    by_cases hidentity : d.identity.isSome
    · rw [if_pos hidentity] at he
      exact .inr (.step hg hd he)
    · rw [if_neg hidentity] at ih
      rcases ih rfl with ⟨n, hn, hen⟩ | he
      · exact .inl ⟨n, by omega, hen⟩
      · exact .inr (.step hg hd he)

theorem reaches_of_numbered_of_lt (h : Reaches .inline (c.numbered next).1 d) {n : Nat}
    (hd : d.identity = some n) (hn : n < next) : Reaches .inline c d := by
  rcases reaches_of_numbered h with ⟨m, hm, hdm⟩ | h
  · obtain rfl := Option.some.inj (hdm.symm.trans hd)
    exact absurd hm (Nat.not_le.2 hn)
  · exact h

/-- What stands inside a component and has an identity keeps it, and its place, when the component
is numbered. -/
theorem reaches_numbered (h : Reaches .inline c d) (hd : d.identity.isSome) :
    d = c ∨ ∀ next, Reaches .inline (c.numbered next).1 d := by
  induction h with
  | refl => exact .inl rfl
  | @step c d' d g hg hd' h ih =>
    refine .inr fun next => ?_
    obtain ⟨id, hid⟩ := exists_of_mem_instances hd'
    obtain ⟨m, -, hspec⟩ := g.exists_spec_numbered (next + 1) id
    rw [hid, Option.map_some] at hspec
    have hg' := graph?_numbered next c
    rw [hg, Option.map_some] at hg'
    refine .step hg' (mem_instances_of_spec hspec) ?_
    split
    · exact h
    · rename_i hnone
      rcases ih hd with rfl | h
      · exact absurd hd hnone
      · exact h m

end Component

/-- The components that have been registered, under digests and under URLs. -/
def Catalog.registered (k : Catalog) : List Registered := k.byDigest.values ++ k.byUrl.values

/-- Every identity in the catalog has been given out, and belongs to one component only. -/
structure Catalog.Coherent (k : Catalog) : Prop where
  issued : ∀ r ∈ k.registered, ∀ n ∈ r.val.identities, n < k.issued
  agree : ∀ r ∈ k.registered, ∀ s ∈ k.registered, r.val.Agrees s.val

/-- An identity belongs to one component only, in the component and in the list together. -/
structure Component.AgreesWith (c : Component) (others : List Registered) : Prop where
  self : c.Agrees c
  others : ∀ r ∈ others, c.Agrees r.val

theorem Component.agreesWith_of_identities {c : Component} (h : c.identities = [])
    (others : List Registered) : c.AgreesWith others :=
  ⟨agrees_of_identities h c, fun r _ => agrees_of_identities h r.val⟩

namespace Catalog

variable {k : Catalog}

theorem issued_le_next (k : Catalog) (c : Component) : k.issued ≤ k.next c := by
  rw [next]
  induction c.identities with
  | nil => exact Nat.le_refl k.issued
  | cons n l ih => exact Nat.le_trans ih (Nat.le_max_right _ _)

theorem lt_next {c : Component} {n : Nat} (h : n ∈ c.identities) : n < k.next c := by
  rw [next]
  generalize c.identities = l at h
  induction l with
  | nil => cases h
  | cons m l ih =>
    rcases List.mem_cons.1 h with rfl | h
    · exact Nat.le_max_left _ _
    · exact Nat.lt_of_lt_of_le (ih h) (Nat.le_max_right _ _)

theorem coherent_empty : empty.Coherent := by
  constructor <;> intro r hr <;> cases hr

/-- A component agrees with a catalog in which everything stands that it has with an identity. -/
theorem Coherent.agreesWith (h : k.Coherent) {c : Component}
    (hc : ∀ d, Component.Reaches .inline c d → d.identity.isSome →
      ∃ r ∈ k.registered, Component.Reaches .inline r.val d) : c.AgreesWith k.registered := by
  have hagrees {s : Registered} (hs : s ∈ k.registered) : c.Agrees s.val := by
    intro x y hx hy n hxn hyn
    obtain ⟨r, hr, hrx⟩ := hc x hx (hxn ▸ rfl)
    exact h.agree r hr s hs x y hrx hy n hxn hyn
  refine ⟨fun x y hx hy n hxn hyn => ?_, fun s hs => hagrees hs⟩
  obtain ⟨s, hs, hsy⟩ := hc y hy (hyn ▸ rfl)
  exact hagrees hs x y hx hsy n hxn hyn

theorem agrees_enroll {spec : Component} (hspec : spec.Agrees spec) :
    (k.enroll spec).2.val.Agrees (k.enroll spec).2.val := by
  intro x y hx hy n hxn hyn
  by_cases hn : n < k.next spec
  · exact hspec x y (Component.reaches_of_numbered_of_lt hx hxn hn)
      (Component.reaches_of_numbered_of_lt hy hyn hn) n hxn hyn
  · have hcount := (Component.numbering (k.next spec) spec).count_le fun h => hn (lt_next h)
    exact Component.eq_of_identity hcount hx hy hxn hyn

theorem Coherent.agrees_enroll_registered (h : k.Coherent) {spec : Component} {r : Registered}
    (hr : r ∈ k.registered) (hspec : spec.Agrees r.val) : (k.enroll spec).2.val.Agrees r.val := by
  intro x y hx hy n hxn hyn
  have hmem := Component.identities_subset_of_reaches hy (Component.mem_identities hyn)
  have hn := Nat.lt_of_lt_of_le (h.issued r hr n hmem) (k.issued_le_next spec)
  exact hspec x y (Component.reaches_of_numbered_of_lt hx hxn hn) hy n hxn hyn

theorem issued_le_enroll (k : Catalog) (spec : Component) :
    k.issued ≤ (k.enroll spec).1.issued :=
  Nat.le_trans (k.issued_le_next spec) (Component.numbering (k.next spec) spec).le

theorem lt_issued_enroll {spec : Component} {n : Nat}
    (hn : n ∈ (k.enroll spec).2.val.identities) : n < (k.enroll spec).1.issued := by
  have hnumbering := Component.numbering (k.next spec) spec
  rcases hnumbering.mem_cases hn with hold | ⟨-, hnew⟩
  · exact Nat.lt_of_lt_of_le (lt_next hold) hnumbering.le
  · exact hnew

/-- A catalog stays coherent when a component that agrees with it is enrolled. -/
theorem Coherent.enroll (h : k.Coherent) {spec : Component}
    (hspec : spec.AgreesWith k.registered) {k' : Catalog}
    (hissued : k'.issued = (k.enroll spec).1.issued)
    (hregistered : ∀ r ∈ k'.registered, r ∈ k.registered ∨ r = (k.enroll spec).2) :
    k'.Coherent := by
  refine ⟨fun r hr n hn => ?_, fun r hr s hs => ?_⟩
  · rw [hissued]
    rcases hregistered r hr with hr | rfl
    · exact Nat.lt_of_lt_of_le (h.issued r hr n hn) (k.issued_le_enroll spec)
    · exact lt_issued_enroll hn
  · have hnew {r : Registered} (hr : r ∈ k.registered) : (k.enroll spec).2.val.Agrees r.val :=
      h.agrees_enroll_registered hr (hspec.others r hr)
    rcases hregistered r hr with hr | rfl <;> rcases hregistered s hs with hs | rfl
    · exact h.agree r hr s hs
    · exact (hnew hr).symm
    · exact hnew hs
    · exact agrees_enroll hspec.self

theorem Coherent.register (h : k.Coherent) {spec : Component}
    (hspec : spec.AgreesWith k.registered) : (k.register spec).1.Coherent := by
  refine h.enroll hspec rfl fun r hr => ?_
  rcases List.mem_append.1 hr with hr | hr
  · exact (NameMap.mem_values_insert hr).imp_left (List.mem_append_left _)
  · exact .inl (List.mem_append_right _ hr)

theorem Coherent.registerUrl (h : k.Coherent) (url : String) {spec : Component}
    (hspec : spec.AgreesWith k.registered) : (k.registerUrl url spec).1.Coherent := by
  refine h.enroll hspec rfl fun r hr => ?_
  rcases List.mem_append.1 hr with hr | hr
  · exact (NameMap.mem_values_insert hr).imp_left (List.mem_append_left _)
  · exact (NameMap.mem_values_insert hr).imp_left (List.mem_append_right _)

end Catalog

namespace Provider

/-- The components that the provider may give besides those in the references. -/
def registered : Provider → List Registered
  | .inline => []
  | .catalog k => k.registered

def Coherent : Provider → Prop
  | .inline => True
  | .catalog k => k.Coherent

variable {p : Provider} {c d : Component}

theorem mem_identities_iff {n : Nat} :
    n ∈ p.identities ↔ ∃ r ∈ p.registered, n ∈ r.val.identities := by
  cases p with
  | inline => simp [identities, registered]
  | catalog k => exact List.mem_flatMap

/-- A component that a reference resolves to stands in the reference, or is a registered one, or is
read from a text. -/
theorem resolve_cases {r : Reference} (h : p.resolve r = some c) :
    r.spec = some c ∨ (∃ e ∈ p.registered, e.val = c) ∨
      ∃ text, r.text = some text ∧ Component.ofText? text = some c := by
  cases p with
  | inline => exact .inl h
  | catalog k =>
    simp only [resolve, Catalog.resolve, Option.orElse_eq_orElse, Option.orElse_eq_or,
      Option.or_eq_some_iff, Option.map_eq_some_iff, Option.bind_eq_some_iff] at h
    rcases h with hspec | ⟨-, ⟨e, ⟨digest, -, he⟩, rfl⟩ | ⟨-, ⟨e, ⟨url, -, he⟩, rfl⟩ |
      ⟨-, hread⟩⟩⟩
    · exact .inl hspec
    · have hmem := NameMap.From.mem_values_iff.2 ⟨digest, he⟩
      exact .inr (.inl ⟨e, List.mem_append_left _ hmem, rfl⟩)
    · have hmem := NameMap.From.mem_values_iff.2 ⟨url, he⟩
      exact .inr (.inl ⟨e, List.mem_append_right _ hmem, rfl⟩)
    · exact .inr (.inr hread)

/-- What a component reaches has no other identities than the component and the catalog have. -/
theorem identities_subset_of_reaches (h : Component.Reaches p.resolve c d) :
    d.identities ⊆ c.identities ++ p.identities := by
  induction h with
  | refl c => exact List.subset_append_left _ _
  | step hg hd _ ih =>
    obtain ⟨id, t, ht, hresolve⟩ := Graph.mem_instances_iff.1 hd
    refine List.Subset.trans ih (List.append_subset.2 ⟨?_, List.subset_append_right _ _⟩)
    rcases resolve_cases hresolve with hspec | ⟨r, hr, rfl⟩ | ⟨text, -, hread⟩
    · have hsubset := Component.identities_subset_of_spec hg ht hspec
      exact List.Subset.trans hsubset (List.subset_append_left _ _)
    · exact fun n hn => List.mem_append_right _ (mem_identities_iff.2 ⟨r, hr, hn⟩)
    · rw [Component.identities_of_ofText? hread]
      exact List.nil_subset _

/-- What a component reaches stands in it or in the catalog, or has been read from a text. -/
theorem reaches_cases (h : Component.Reaches p.resolve c d) :
    Component.Reaches .inline c d ∨ (∃ r ∈ p.registered, Component.Reaches .inline r.val d) ∨
      d.identities = [] := by
  induction h with
  | refl c => exact .inl (.refl c)
  | step hg hd _ ih =>
    obtain ⟨id, t, ht, hresolve⟩ := Graph.mem_instances_iff.1 hd
    rcases ih with hinline | hcatalog | hnone
    · rcases resolve_cases hresolve with hspec | ⟨r, hr, rfl⟩ | ⟨text, -, hread⟩
      · exact .inl (.step hg (Component.mem_instances_inline_iff.2 ⟨id, t, ht, hspec⟩) hinline)
      · exact .inr (.inl ⟨r, hr, hinline⟩)
      · have hsubset := Component.identities_subset_of_reaches hinline
        rw [Component.identities_of_ofText? hread] at hsubset
        exact .inr (.inr (List.eq_nil_of_subset_nil hsubset))
    · exact .inr (.inl hcatalog)
    · exact .inr (.inr hnone)

/-- With a coherent catalog, an identity below a component that agrees with it belongs to one
component only. -/
theorem identified_of_agreesWith (hcoherent : p.Coherent) (h : c.AgreesWith p.registered) :
    c.Identified p.resolve := by
  intro d e hd he n hdn hen
  have hmem {d : Component} (hd : Component.Reaches p.resolve c d) (hdn : d.identity = some n) :
      Component.Reaches .inline c d ∨ ∃ r ∈ p.registered, Component.Reaches .inline r.val d := by
    rcases reaches_cases hd with hd | hd | hnone
    · exact .inl hd
    · exact .inr hd
    · have hn := Component.mem_identities hdn
      rw [hnone] at hn
      cases hn
  rcases hmem hd hdn with hcd | ⟨r, hr, hrd⟩ <;> rcases hmem he hen with hce | ⟨s, hs, hse⟩
  · exact h.self d e hcd hce n hdn hen
  · exact h.others s hs d e hcd hse n hdn hen
  · exact (h.others r hr).symm d e hrd hce n hdn hen
  · cases p with
    | inline => cases hr
    | catalog k => exact hcoherent.agree r hr s hs d e hrd hse n hdn hen

end Provider

end TaskGraph
