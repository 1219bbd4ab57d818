import TaskGraph.Codec
import TaskGraph.Json.Extent

/-!
# The weight of a component

The weight counts what a search through the components inside a component may come across: its
tasks, the components in them, and the texts from which more components may be read. A component
that is read from a text weighs no more than the text is long, so such a search comes to an end.
-/
namespace TaskGraph

open Json

mutual

/-- One for the component and for each of its tasks, the weight of the components in them, and the
lengths of their texts. -/
def Component.weight : Component → Nat
  | ⟨_, _, _, _, none, _, _⟩ => 1
  | ⟨_, _, _, _, some (.container _), _, _⟩ => 1
  | ⟨_, _, _, _, some (.graph ⟨tasks, _⟩), _, _⟩ => 1 + weightOfTasks tasks

def weightOfTasks : {lo : Option String} → NameMap.From Task lo → Nat
  | _, .nil => 0
  | _, .cons _ t _ rest => t.weight + weightOfTasks rest

def Task.weight : Task → Nat
  | ⟨reference, _, _, _⟩ => reference.weight

def Reference.weight : Reference → Nat
  | ⟨_, _, _, none, text⟩ => 1 + (text.getD "").length
  | ⟨_, _, _, some c, text⟩ => 1 + c.weight + (text.getD "").length

end

theorem Component.weight_pos (c : Component) : 0 < c.weight := by
  fun_cases Component.weight c <;> omega

theorem Reference.weight_pos (r : Reference) : 0 < r.weight := by
  fun_cases Reference.weight r <;> omega

theorem Reference.weight_spec_lt {r : Reference} {c : Component} (h : r.spec = some c) :
    c.weight < r.weight := by
  obtain ⟨name, digest, url, spec, text⟩ := r
  obtain rfl : spec = some c := h
  simp only [Reference.weight]
  omega

theorem Reference.length_text_lt {r : Reference} {text : String} (h : r.text = some text) :
    text.length < r.weight := by
  obtain ⟨name, digest, url, spec, _⟩ := r
  obtain rfl : _ = some text := h
  cases spec <;> simp only [Reference.weight, Option.getD_some] <;> omega

theorem Task.weight_eq (t : Task) : t.weight = t.reference.weight := by
  cases t
  rfl

theorem weightOfTasks_eq {lo : Option String} (tasks : NameMap.From Task lo) :
    weightOfTasks tasks = total (tasks.toList.map (·.2.weight)) := by
  induction tasks with
  | nil => rfl
  | cons id t h rest ih => simp [weightOfTasks, NameMap.From.toList, ih]

theorem Component.weight_of_graph? {c : Component} {g : Graph} (h : c.graph? = some g) :
    c.weight = 1 + weightOfTasks g.tasks := by
  fun_cases Component.weight c <;> simp_all [Component.graph?]
  subst h
  rfl

theorem weightOfTasks_insertAbove {lo : Option String} (k : String) (t : Task)
    (h : AboveBound lo k) (m : NameMap.From Task lo) :
    weightOfTasks (m.insertAbove k t h) ≤ t.weight + weightOfTasks m := by
  induction m with
  | nil => simp [NameMap.From.insertAbove, weightOfTasks]
  | cons j u hj rest ih =>
    simp only [NameMap.From.insertAbove]
    split
    · simp [weightOfTasks]
    · split
      · rename_i heq
        subst heq
        simp only [weightOfTasks]
        omega
      · have := ih (by simp only [AboveBound]; grind)
        simp only [weightOfTasks]
        omega

theorem weightOfTasks_ofList (entries : List (String × Task)) :
    weightOfTasks (NameMap.ofList entries) ≤ total (entries.map (·.2.weight)) := by
  suffices ∀ m : NameMap Task,
      weightOfTasks (entries.foldl (fun m e => NameMap.insert m e.1 e.2) m) ≤
        weightOfTasks m + total (entries.map (·.2.weight)) by
    simpa [NameMap.ofList, weightOfTasks] using this .nil
  induction entries with
  | nil => simp
  | cons e es ih =>
    intro m
    have := ih (NameMap.insert m e.1 e.2)
    have := weightOfTasks_insertAbove e.1 e.2 (aboveBound_none _) m
    simp only [NameMap.insert, List.foldl_cons, List.map_cons, total_cons] at *
    omega

theorem weight_le_of_members? {read : Document → Option Task}
    {members : List (Literal × Document)} {tasks : NameMap Task}
    (hread : ∀ d t, read d = some t → t.weight ≤ d.extent)
    (h : Decoder.members? read members = some tasks) :
    weightOfTasks tasks ≤ extentOfMembers members := by
  obtain ⟨entries, he, rfl⟩ := Option.map_eq_some_iff.1 h
  refine Nat.le_trans (weightOfTasks_ofList entries) ?_
  clear h
  induction members generalizing entries with
  | nil => simp_all
  | cons m ms ih =>
    simp only [List.mapM_cons, Option.bind_eq_bind, Option.bind_eq_some_iff, Decoder.member?,
      Option.pure_def, Option.some.injEq] at he
    obtain ⟨e, ⟨k, -, t, ht, rfl⟩, es, hes, rfl⟩ := he
    have := ih es hes
    have := hread _ _ ht
    simp only [List.map_cons, total_cons, extentOfMembers]
    omega

theorem length_lt_of_text {room : Nat} {d : Document} {s : String}
    (h : Decoder.text room d = some s) : s.length < d.extent := by
  cases d <;> simp_all [Decoder.text, Document.extent]

theorem extent_lt_of_variant {room inner : Nat} {d payload : Document} {tag : String}
    (h : Decoder.variant room d = some (tag, payload, inner)) : payload.extent < d.extent := by
  unfold Decoder.variant at h
  split at h
  · simp_all [Document.extent, extentOfMembers]
  · simp at h

/-- A decoder of components that reads none with more weight than its document has extent. -/
def BoundedDecoder (component : Decoder Component) : Prop :=
  ∀ room d c, component room d = some c → c.weight ≤ d.extent

section

variable {component : Decoder Component} (hc : BoundedDecoder component) {room : Nat} {d : Document}
include hc

theorem Reference.weight_le_extent {r : Reference}
    (h : Reference.decoderWith component room d = some r) : r.weight ≤ d.extent := by
  simp only [Reference.decoderWith, Option.bind_eq_bind, Option.bind_eq_some_iff,
    Option.some.injEq] at h
  obtain ⟨f, hf, name, -, digest, -, url, -, spec, hspec, text, htext, rfl⟩ := h
  match spec, text with
  | none, none =>
    simpa [Reference.weight, Nat.succ_le_iff] using d.extent_pos
  | some c, none =>
    obtain ⟨dc, hdc, hc'⟩ := Fields.find?_of_optional hspec
    have := hc _ _ _ hc'
    have := Fields.extent_lt hf hdc
    simp only [Reference.weight, Option.getD_none, String.length_empty]
    omega
  | none, some s =>
    obtain ⟨ds, hds, hs⟩ := Fields.find?_of_optional htext
    have := length_lt_of_text hs
    have := Fields.extent_lt hf hds
    simp only [Reference.weight, Option.getD_some]
    omega
  | some c, some s =>
    obtain ⟨dc, hdc, hc'⟩ := Fields.find?_of_optional hspec
    obtain ⟨ds, hds, hs⟩ := Fields.find?_of_optional htext
    have := hc _ _ _ hc'
    have := length_lt_of_text hs
    have := Fields.extent_add_lt hf (by decide) hdc hds
    simp only [Reference.weight, Option.getD_some]
    omega

theorem Task.weight_le_extent {t : Task} (h : Task.decoderWith component room d = some t) :
    t.weight ≤ d.extent := by
  simp only [Task.decoderWith, Option.bind_eq_bind, Option.bind_eq_some_iff,
    Option.some.injEq] at h
  obtain ⟨f, hf, r, hr, _, -, _, -, _, -, rfl⟩ := h
  obtain ⟨dr, hdr, hr⟩ := Fields.find?_of_required hr
  have := Reference.weight_le_extent hc hr
  have := Fields.extent_lt hf hdr
  simp only [Task.weight]
  omega

theorem Graph.weight_lt_extent {g : Graph} (h : Graph.decoderWith component room d = some g) :
    weightOfTasks g.tasks < d.extent := by
  simp only [Graph.decoderWith, Option.bind_eq_bind, Option.bind_eq_some_iff,
    Option.some.injEq] at h
  obtain ⟨f, hf, tasks, htasks, _, -, rfl⟩ := h
  unfold Fields.defaulted at htasks
  split at htasks
  · obtain rfl := Option.some.inj htasks
    exact d.extent_pos
  · rename_i dt hdt
    have := Fields.extent_lt hf hdt
    unfold Decoder.names at htasks
    split at htasks
    · have := weight_le_of_members? (fun _ _ => Task.weight_le_extent hc) htasks
      simp only [Document.extent] at *
      omega
    · simp at htasks

theorem Graph.weight_lt_of_implementation {g : Graph}
    (h : Implementation.decoderWith component room d = some (.graph g)) :
    weightOfTasks g.tasks < d.extent := by
  simp only [Implementation.decoderWith, Option.bind_eq_bind, Option.bind_eq_some_iff] at h
  obtain ⟨⟨tag, payload, inner⟩, hv, h⟩ := h
  have := extent_lt_of_variant hv
  dsimp only at h
  split at h
  · simp at h
  · obtain ⟨g', hg, h⟩ := Option.map_eq_some_iff.1 h
    obtain rfl := Implementation.graph.inj h
    have := Graph.weight_lt_extent hc hg
    omega
  · simp at h

theorem Component.weight_decoderWith {c : Component}
    (h : Component.decoderWith component room d = some c) : c.weight ≤ d.extent := by
  simp only [Component.decoderWith, Option.bind_eq_bind, Option.bind_eq_some_iff,
    Option.some.injEq] at h
  obtain ⟨f, hf, name, -, description, -, inputs, -, outputs, -, i, hi, metadata, -, rfl⟩ := h
  match i with
  | none | some (.container _) => simpa [Component.weight, Nat.succ_le_iff] using d.extent_pos
  | some (.graph g) =>
    obtain ⟨di, hdi, hi⟩ := Fields.find?_of_optional hi
    have := Fields.extent_lt hf hdi
    obtain ⟨tasks, outputValues⟩ := g
    have : weightOfTasks tasks < di.extent := Graph.weight_lt_of_implementation hc hi
    simp only [Component.weight]
    omega

end

namespace Component

theorem weight_le_extent (room : Nat) {d : Document} {c : Component}
    (h : Component.decoder room d = some c) : c.weight ≤ d.extent := by
  induction room using Nat.strongRecOn generalizing d c with
  | ind room ih =>
    rw [Component.decoder] at h
    refine weight_decoderWith (fun inner e b hb => ?_) h
    split at hb
    · exact ih _ ‹_› hb
    · simp at hb

/-- A component weighs no more than the text that it is read from is long. -/
theorem weight_le_of_ofText? {text : String} {c : Component} (h : ofText? text = some c) :
    c.weight ≤ text.length := by
  obtain ⟨d, hd, hc⟩ := Option.bind_eq_some_iff.1 h
  exact Nat.le_trans (weight_le_extent _ hc) (Document.extent_le_of_read? hd)

end Component

end TaskGraph
