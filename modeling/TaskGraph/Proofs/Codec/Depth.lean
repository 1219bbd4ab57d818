import TaskGraph.Proofs.Codec.RoundTrip
import TaskGraph.Proofs.Json.Room

/-!
# Components are written in the room they were read in

Whatever is read out of a document nests no deeper, when it is written, than the document was
allowed to. In one place the writer nests deeper than the document did: the tasks of a graph are
written even if they were left out. From one component down to the next there are six levels, so a
graph in a text is read with a room of five modulo six, which leaves a level for the tasks.
-/
namespace TaskGraph

open Json

namespace Value

theorem nesting_of_ofNumeral? {n : Numeral} {v : Value} (h : ofNumeral? n = some v) :
    v.document.nesting = 0 := by
  unfold ofNumeral? at h
  extract_lets i at h
  split at h
  · obtain rfl := Option.some.inj h
    rfl
  · obtain ⟨d, -, rfl⟩ := Option.map_eq_some_iff.1 h
    rw [document, Document.double]
    split <;> rfl

theorem nesting_object_le {room : Nat} {members : NameMap Value}
    (h : ∀ e ∈ members.toList, e.2.document.nesting ≤ room) :
    (Document.object (memberDocuments members)).nesting ≤ room + 1 := by
  rw [memberDocuments_eq]
  exact nesting_object_succ_le (List.forall_mem_map.2 h)

theorem confined (room : Nat) : decoder.Confined document room := by
  induction room using Nat.strongRecOn with
  | ind room ih =>
    intro doc v h
    cases doc with
    | null =>
      rw [decoder] at h
      cases h
      exact Nat.zero_le room
    | bool b =>
      rw [decoder] at h
      cases h
      exact Nat.zero_le room
    | number n =>
      rw [decoder] at h
      exact le_of_eq_of_le (nesting_of_ofNumeral? h) (Nat.zero_le room)
    | string s =>
      rw [decoder] at h
      obtain ⟨s, -, rfl⟩ := Option.map_eq_some_iff.1 h
      exact Nat.zero_le room
    | array items =>
      cases room with
      | zero => cases h
      | succ inner =>
        obtain ⟨values, hvalues, rfl⟩ := Option.map_eq_some_iff.1 h
        rw [document, itemDocuments_eq]
        have hinner := ih inner (Nat.lt_succ_self inner)
        exact nesting_array_succ_le (List.forall_mem_map.2 (hinner.mapM hvalues))
    | object members =>
      cases room with
      | zero => cases h
      | succ inner =>
        obtain ⟨values, hvalues, rfl⟩ := Option.map_eq_some_iff.1 h
        exact nesting_object_le ((ih inner (Nat.lt_succ_self inner)).members? hvalues)

end Value

theorem TypeTag.confined (room : Nat) : decoder.Confined document room := by
  intro doc tag h
  unfold decoder at h
  split at h
  · obtain ⟨name, -, rfl⟩ := Option.map_eq_some_iff.1 h
    exact Nat.zero_le _
  · obtain ⟨members, hmembers, rfl⟩ := Option.map_eq_some_iff.1 h
    exact Value.nesting_object_le ((Value.confined _).members? hmembers)
  · cases h

section

variable {name key : String} {f : Fields}

theorem fit_texts {texts : List String}
    (h : f.defaulted key (Decoder.list Decoder.text) [] = some texts) :
    Fit [(name, if !texts.isEmpty then some (textsDocument texts) else none)] f.room :=
  Fields.fit_list (fun inner _ => Decoder.Confined.text inner) h

theorem fit_annotations {m : NameMap String}
    (h : f.defaulted key (Decoder.names Decoder.text) ∅ = some m) :
    Fit [(name, if !m.isEmpty then some (namesDocument m) else none)] f.room :=
  Fields.fit_names (fun inner _ => Decoder.Confined.text inner) h

end

theorem Input.confined (room : Nat) : decoder.Confined document room := by
  intro doc i h
  simp only [decoder, Option.bind_eq_bind, Option.bind_eq_some_iff, Option.some.injEq] at h
  obtain ⟨f, hf, name, -, type, htype, description, -, default, -, optional, -, value, -,
    annotations, hannotations, rfl⟩ := h
  have htype : Fit [("type", type.map (·.document))] f.room :=
    Fields.fit_optional (TypeTag.confined f.room) htype
  have hannotations : Fit [("annotations", _)] f.room := fit_annotations hannotations
  rw [document_eq, Fields.room_eq hf]
  exact Fit.nesting_le <|
    (Fields.fit_text "name" name f.room).cons <| htype.cons <|
    (Fields.fit_optional_text "description" description f.room).cons <|
    (Fields.fit_optional_text "default" default f.room).cons <|
    (Fields.fit_flag "optional" optional f.room).cons <|
    (Fields.fit_optional_text "value" value f.room).cons hannotations

theorem Output.confined (room : Nat) : decoder.Confined document room := by
  intro doc o h
  simp only [decoder, Option.bind_eq_bind, Option.bind_eq_some_iff, Option.some.injEq] at h
  obtain ⟨f, hf, name, -, type, htype, description, -, annotations, hannotations, rfl⟩ := h
  have htype : Fit [("type", type.map (·.document))] f.room :=
    Fields.fit_optional (TypeTag.confined f.room) htype
  have hannotations : Fit [("annotations", _)] f.room := fit_annotations hannotations
  rw [document_eq, Fields.room_eq hf]
  exact Fit.nesting_le <|
    (Fields.fit_text "name" name f.room).cons <| htype.cons <|
    (Fields.fit_optional_text "description" description f.room).cons hannotations

theorem Container.confined (room : Nat) : decoder.Confined document room := by
  intro doc c h
  simp only [decoder, Option.bind_eq_bind, Option.bind_eq_some_iff, Option.some.injEq] at h
  obtain ⟨f, hf, image, -, command, hcommand, args, hargs, env, henv, rfl⟩ := h
  have hcommand : Fit [("command", _)] f.room := fit_texts hcommand
  have hargs : Fit [("args", _)] f.room := fit_texts hargs
  have henv : Fit [("env", _)] f.room := fit_annotations henv
  rw [document_eq, Fields.room_eq hf]
  exact Fit.nesting_le <|
    (Fields.fit_text "image" image f.room).cons <| hcommand.cons <| hargs.cons henv

theorem TaskOutput.confined (room : Nat) : decoder.Confined document room := by
  intro doc o h
  simp only [decoder, Option.bind_eq_bind, Option.bind_eq_some_iff, Option.some.injEq] at h
  obtain ⟨f, hf, task, -, output, -, rfl⟩ := h
  rw [Fields.room_eq hf]
  exact Fit.nesting_le <|
    (Fields.fit_text "taskId" task f.room).cons (Fields.fit_text "outputName" output f.room)

namespace Argument

theorem confined_nameDecoder (field : String) (room : Nat) :
    (nameDecoder field).Confined (fun s => .record [(field, .text s)]) room := by
  intro doc s h
  obtain ⟨f, hf, -⟩ := Option.bind_eq_some_iff.1 h
  rw [Fields.room_eq hf]
  exact nesting_tagged_le field (Nat.zero_le f.room)

theorem confined (room : Nat) : decoder.Confined document room := by
  intro doc a h
  simp only [decoder, Option.bind_eq_bind, Option.bind_eq_some_iff] at h
  obtain ⟨⟨tag, payload, inner⟩, hvariant, h⟩ := h
  rw [Decoder.variant_room_eq hvariant]
  dsimp only at h
  split at h
  · obtain ⟨value, -, rfl⟩ := Option.map_eq_some_iff.1 h
    exact nesting_tagged_le "literal" (Nat.zero_le inner)
  · obtain ⟨name, hname, rfl⟩ := Option.map_eq_some_iff.1 h
    exact nesting_tagged_le "graphInput" (confined_nameDecoder "inputName" inner payload name hname)
  · obtain ⟨source, hsource, rfl⟩ := Option.map_eq_some_iff.1 h
    exact nesting_tagged_le "taskOutput" (TaskOutput.confined inner payload source hsource)
  · obtain ⟨name, hname, rfl⟩ := Option.map_eq_some_iff.1 h
    exact nesting_tagged_le "secret" (confined_nameDecoder "name" inner payload name hname)
  · cases h

end Argument

namespace Execution

theorem confined_retryDecoder (room : Nat) : retryDecoder.Confined retryDocument room := by
  intro doc n h
  obtain ⟨f, hf, -⟩ := Option.bind_eq_some_iff.1 h
  rw [Fields.room_eq hf]
  exact nesting_tagged_le "maxRetries" (Nat.zero_le f.room)

theorem confined (room : Nat) : decoder.Confined document room := by
  intro doc e h
  simp only [decoder, Option.bind_eq_bind, Option.bind_eq_some_iff, Option.some.injEq] at h
  obtain ⟨f, hf, retries, hretries, staleness, hstaleness, rfl⟩ := h
  have hretries : Fit [("retryStrategy", _)] f.room :=
    Fields.fit_optional (confined_retryDecoder f.room) hretries
  have hstaleness : Fit [("cachingStrategy", _)] f.room :=
    Fields.fit_optional (Argument.confined_nameDecoder _ f.room) hstaleness
  rw [document_eq, Fields.room_eq hf]
  exact (hretries.cons hstaleness).nesting_le

end Execution

section

variable {component : Decoder Component} {room : Nat}

theorem Reference.confined
    (h : ∀ inner, room = inner + 1 → component.Confined Component.document inner) :
    (decoderWith component).Confined document room := by
  intro doc r hread
  simp only [decoderWith, Option.bind_eq_bind, Option.bind_eq_some_iff, Option.some.injEq] at hread
  obtain ⟨f, hf, name, -, digest, -, url, -, spec, hspec, text, -, rfl⟩ := hread
  have hspec : Fit [("spec", _)] f.room := Fields.fit_optional (h f.room (Fields.room_eq hf)) hspec
  rw [document_eq, Fields.room_eq hf]
  exact Fit.nesting_le <|
    (Fields.fit_optional_text "name" name f.room).cons <|
    (Fields.fit_optional_text "digest" digest f.room).cons <|
    (Fields.fit_optional_text "url" url f.room).cons <| hspec.cons <|
    Fields.fit_optional_text "text" text f.room

theorem Task.confined
    (h : ∀ inner, room = inner + 2 → component.Confined Component.document inner) :
    (decoderWith component).Confined document room := by
  intro doc t hread
  simp only [decoderWith, Option.bind_eq_bind, Option.bind_eq_some_iff, Option.some.injEq] at hread
  obtain ⟨f, hf, reference, hreference, arguments, harguments, annotations, hannotations, execution,
    hexecution, rfl⟩ := hread
  have hroom := Fields.room_eq hf
  have hreference : Fit [("componentRef", _)] f.room := Fields.fit_required
    (Reference.confined fun inner hinner => h inner (by rw [hroom, hinner])) hreference
  have harguments : Fit [("arguments", _)] f.room :=
    Fields.fit_names (fun inner _ => Argument.confined inner) harguments
  have hannotations : Fit [("annotations", _)] f.room := fit_annotations hannotations
  have hexecution : Fit [("executionOptions", _)] f.room :=
    Fields.fit_optional (Execution.confined f.room) hexecution
  rw [document_eq, hroom]
  exact Fit.nesting_le <| hreference.cons <| harguments.cons <| hannotations.cons hexecution

/-- A graph needs a second level for its tasks, whether it was read with them or not. -/
theorem Graph.confined (hroom : room % 6 = 5)
    (h : ∀ inner, room = inner + 4 → component.Confined Component.document inner) :
    (decoderWith component).Confined document room := by
  intro doc g hread
  simp only [decoderWith, Option.bind_eq_bind, Option.bind_eq_some_iff, Option.some.injEq] at hread
  obtain ⟨f, hf, tasks, htasks, outputValues, houtputs, rfl⟩ := hread
  have hf := Fields.room_eq hf
  have htask : ∀ inner, f.room = inner + 1 →
      (Task.decoderWith component).Confined Task.document inner := fun inner hinner =>
    Task.confined fun innermost hinnermost => h innermost (by rw [hf, hinner, hinnermost])
  have htasks : Fit [("tasks", some (.record (tasks.toList.map fun e => (e.1, e.2.document))))]
      f.room := by
    rcases Fields.eq_default_or_nesting_le (Decoder.Confined.names htask) htasks with rfl | hnesting
    · have hlevel : 1 ≤ f.room := by omega
      exact Fields.fit_of_nesting_le hlevel
    · exact Fields.fit_of_nesting_le hnesting
  have houtputs : Fit [("outputValues", _)] f.room :=
    Fields.fit_names (fun inner _ => TaskOutput.confined inner) houtputs
  rw [document_eq, hf]
  exact (htasks.cons houtputs).nesting_le

theorem Implementation.confined (hroom : room % 6 = 0)
    (h : ∀ inner, room = inner + 5 → component.Confined Component.document inner) :
    (decoderWith component).Confined document room := by
  intro doc i hread
  simp only [decoderWith, Option.bind_eq_bind, Option.bind_eq_some_iff] at hread
  obtain ⟨⟨tag, payload, inner⟩, hvariant, hread⟩ := hread
  have hinner := Decoder.variant_room_eq hvariant
  rw [hinner]
  dsimp only at hread
  split at hread
  · obtain ⟨c, hc, rfl⟩ := Option.map_eq_some_iff.1 hread
    exact nesting_tagged_le "container" (Container.confined inner payload c hc)
  · obtain ⟨g, hg, rfl⟩ := Option.map_eq_some_iff.1 hread
    have hgraph : (Graph.decoderWith component).Confined Graph.document inner :=
      Graph.confined (by omega) fun innermost hinnermost =>
        h innermost (by rw [hinner, hinnermost])
    exact nesting_tagged_le "graph" (hgraph payload g hg)
  · cases hread

end

namespace Component

theorem confined_metadataDecoder (room : Nat) : metadataDecoder.Confined metadataDocument room := by
  intro doc a h
  obtain ⟨f, hf, hannotations⟩ := Option.bind_eq_some_iff.1 h
  rw [Fields.room_eq hf]
  exact (fit_annotations hannotations).nesting_le

theorem confined_decoderWith {component : Decoder Component} {room : Nat} (hroom : room % 6 = 1)
    (h : ∀ inner, room = inner + 6 → component.Confined document inner) :
    (decoderWith component).Confined document room := by
  intro doc c hread
  simp only [decoderWith, Option.bind_eq_bind, Option.bind_eq_some_iff, Option.some.injEq] at hread
  obtain ⟨f, hf, name, -, description, -, inputs, hinputs, outputs, houtputs, implementation,
    himplementation, metadata, hmetadata, rfl⟩ := hread
  have hf := Fields.room_eq hf
  have hinputs : Fit [("inputs", _)] f.room :=
    Fields.fit_list (fun inner _ => Input.confined inner) hinputs
  have houtputs : Fit [("outputs", _)] f.room :=
    Fields.fit_list (fun inner _ => Output.confined inner) houtputs
  have himplementation : Fit [("implementation", _)] f.room :=
    Fields.fit_optional (Implementation.confined (by omega) fun inner hinner =>
      h inner (by rw [hf, hinner])) himplementation
  have hmetadata : Fit [("metadata", _)] f.room :=
    Fields.fit_optional (confined_metadataDecoder f.room) hmetadata
  rw [document_eq, hf]
  exact Fit.nesting_le <|
    (Fields.fit_optional_text "name" name f.room).cons <|
    (Fields.fit_optional_text "description" description f.room).cons <|
    hinputs.cons <| houtputs.cons <| himplementation.cons hmetadata

theorem confined (room : Nat) (hroom : room % 6 = 1) : Decoder.Confined decoder document room := by
  induction room using Nat.strongRecOn with
  | ind room ih =>
    intro doc c hread
    rw [decoder_eq] at hread
    refine confined_decoderWith hroom (fun inner hinner => ?_) doc c hread
    exact ih inner (by omega) (by omega)

/-- What is read from a text can be written and read again. -/
theorem nesting_le_of_ofText? {text : String} {c : Component} (h : ofText? text = some c) :
    c.document.nesting ≤ maxNesting := by
  obtain ⟨doc, -, hdoc⟩ := Option.bind_eq_some_iff.1 h
  exact confined maxNesting rfl doc c hdoc

end Component

end TaskGraph
