import TaskGraph.Codec
import TaskGraph.Proofs.Anonymous
import TaskGraph.Proofs.Codec.Parts
import TaskGraph.Proofs.Codec.Recursion
import TaskGraph.Proofs.Json.Reading

/-!
# Reading components back

Both texts of a component are read back as the component, without the identities, which no text
shows. The structured types in it must not hold doubles, and the text must not nest deeper than a
reader allows; nothing is asked of the strings, or of how deep components stand in components.
-/
namespace TaskGraph

open Json

mutual

/-- The structured types in the component, and in all components in it, hold no double. -/
def Component.isRealFree : Component → Bool
  | ⟨_, _, inputs, outputs, none, _, _⟩ =>
    inputs.all Input.isRealFree && outputs.all Output.isRealFree
  | ⟨_, _, inputs, outputs, some i, _, _⟩ =>
    inputs.all Input.isRealFree && outputs.all Output.isRealFree && i.isRealFree

def Implementation.isRealFree : Implementation → Bool
  | .container _ => true
  | .graph ⟨tasks, _⟩ => areTasksRealFree tasks

def areTasksRealFree : {lo : Option String} → NameMap.From Task lo → Bool
  | _, .nil => true
  | _, .cons _ t _ rest => t.isRealFree && areTasksRealFree rest

def Task.isRealFree : Task → Bool
  | ⟨reference, _, _, _⟩ => reference.isRealFree

def Reference.isRealFree : Reference → Bool
  | ⟨_, _, _, none, _⟩ => true
  | ⟨_, _, _, some c, _⟩ => c.isRealFree

end

theorem areTasksRealFree_iff {lo : Option String} {tasks : NameMap.From Task lo} :
    areTasksRealFree tasks ↔ ∀ e ∈ tasks.toList, e.2.isRealFree := by
  induction tasks with
  | nil => simp [areTasksRealFree, NameMap.From.toList]
  | cons id t h rest ih =>
    rw [areTasksRealFree, Bool.and_eq_true, ih, NameMap.From.toList, List.forall_mem_cons]

theorem Task.isRealFree_of_spec {t : Task} {c : Component} (h : t.reference.spec = some c) :
    t.isRealFree = c.isRealFree := by
  obtain ⟨⟨name, digest, url, spec, text⟩, arguments, annotations, execution⟩ := t
  obtain rfl : spec = some c := h
  rfl

namespace Component

variable {c d : Component}

theorem isRealFree_eq (c : Component) : c.isRealFree = (c.inputs.all Input.isRealFree &&
    c.outputs.all Output.isRealFree && c.graph?.all fun g => areTasksRealFree g.tasks) := by
  obtain ⟨name, description, inputs, outputs, implementation, metadata, identity⟩ := c
  cases implementation with
  | none => simp [isRealFree, graph?]
  | some i =>
    cases i with
    | container container => simp [isRealFree, Implementation.isRealFree, graph?]
    | graph g =>
      cases g
      simp [isRealFree, Implementation.isRealFree, graph?]

theorem isRealFree_of_mem_inputs (h : c.isRealFree) : ∀ i ∈ c.inputs, i.isRealFree := by
  simp only [isRealFree_eq, Bool.and_eq_true] at h
  exact List.all_eq_true.1 h.1.1

theorem isRealFree_of_mem_outputs (h : c.isRealFree) : ∀ o ∈ c.outputs, o.isRealFree := by
  simp only [isRealFree_eq, Bool.and_eq_true] at h
  exact List.all_eq_true.1 h.1.2

theorem isRealFree_of_holds (h : c.isRealFree) (hd : c.Holds d) : d.isRealFree := by
  obtain ⟨g, id, t, hg, ht, hspec⟩ := hd
  simp only [isRealFree_eq, Bool.and_eq_true, hg, Option.all_some, areTasksRealFree_iff] at h
  have htask := h.2 (id, t) (NameMap.From.mem_toList_iff.2 ht)
  rwa [Task.isRealFree_of_spec hspec] at htask

end Component

namespace Reference

def fields (r : Reference) : List (String × Option Document) := [
  ("name", r.name.map .text),
  ("digest", r.digest.map .text),
  ("url", r.url.map .text),
  ("spec", r.spec.map (·.document)),
  ("text", r.text.map .text)]

theorem document_eq (r : Reference) : r.document = .record (present r.fields) := by
  obtain ⟨name, digest, url, spec, text⟩ := r
  have hnone (members : List (String × Document)) :
      members ++ [] = members ++ present [("spec", none)] := rfl
  cases spec with
  | none =>
    rw [document, hnone]
    simp only [memberIfSome_eq, present_append]
    rfl
  | some c =>
    simp only [document, memberIfSome_eq, singleton_eq_present, present_append]
    rfl

end Reference

namespace Task

def fields (t : Task) : List (String × Option Document) := [
  ("componentRef", some t.reference.document),
  ("arguments", if !t.arguments.isEmpty then
    some (.record (t.arguments.toList.map fun e => (e.1, e.2.document))) else none),
  ("annotations", if !t.annotations.isEmpty then some (namesDocument t.annotations) else none),
  ("executionOptions", t.execution.map (·.document))]

theorem document_eq (t : Task) : t.document = .record (present t.fields) := by
  obtain ⟨reference, arguments, annotations, execution⟩ := t
  simp only [document, memberIfSome_eq, memberIf_eq, singleton_eq_present, present_append]
  rfl

end Task

theorem taskMembers_eq {lo : Option String} (tasks : NameMap.From Task lo) :
    taskMembers tasks = tasks.toList.map fun e => (e.1, e.2.document) := by
  induction tasks with
  | nil => rfl
  | cons id t h rest ih => rw [taskMembers, ih, NameMap.From.toList, List.map_cons]

namespace Graph

def fields (g : Graph) : List (String × Option Document) := [
  ("tasks", some (.record (g.tasks.toList.map fun e => (e.1, e.2.document)))),
  ("outputValues", if !g.outputValues.isEmpty then
    some (.record (g.outputValues.toList.map fun e => (e.1, e.2.document))) else none)]

theorem document_eq (g : Graph) : g.document = .record (present g.fields) := by
  obtain ⟨tasks, outputValues⟩ := g
  simp only [document, taskMembers_eq, memberIf_eq, singleton_eq_present, present_append]
  rfl

end Graph

namespace Component

def metadataDocument (a : Annotations) : Document :=
  .record (present [("annotations", if !a.isEmpty then some (namesDocument a) else none)])

def fields (c : Component) : List (String × Option Document) := [
  ("name", c.name.map .text),
  ("description", c.description.map .text),
  ("inputs", if !c.inputs.isEmpty then some (.array (c.inputs.map (·.document))) else none),
  ("outputs", if !c.outputs.isEmpty then some (.array (c.outputs.map (·.document))) else none),
  ("implementation", c.implementation.map (·.document)),
  ("metadata", c.metadata.map metadataDocument)]

theorem document_eq (c : Component) : c.document = .record (present c.fields) := by
  obtain ⟨name, description, inputs, outputs, implementation, metadata, identity⟩ := c
  have hnone (members : List (String × Document)) :
      members ++ [] = members ++ present [("implementation", none)] := rfl
  cases implementation with
  | none =>
    rw [document, hnone]
    simp only [memberIfSome_eq, memberIf_eq, present_append]
    rfl
  | some i =>
    simp only [document, memberIfSome_eq, memberIf_eq, singleton_eq_present, present_append]
    rfl

theorem document_ne_null (c : Component) : c.document ≠ .null := by
  rw [document_eq]
  exact nofun

end Component

theorem Implementation.document_ne_null (i : Implementation) : i.document ≠ .null := by
  cases i <;> rw [document] <;> exact nofun

theorem Reference.reads {r : Reference}
    (h : ∀ c ∈ r.spec, Decoder.Reads Component.decoder c.anonymous c.document) :
    (decoderWith Component.decoder).Reads r.anonymous r.document := by
  rw [document_eq, anonymous_eq]
  refine Decoder.reads_record fieldNames rfl (by decide) fun room hfit => ?_
  have hname := Fields.optional_text hfit "name" r.name rfl
  have hdigest := Fields.optional_text hfit "digest" r.digest rfl
  have hurl := Fields.optional_text hfit "url" r.url rfl
  have hspec := Fields.optional_ofList_map hfit "spec" h Component.document_ne_null rfl
  have htext := Fields.optional_text hfit "text" r.text rfl
  simp only [hname, hdigest, hurl, hspec, htext, Option.bind_eq_bind, Option.bind_some]

theorem Task.reads {t : Task}
    (h : ∀ c ∈ t.reference.spec, Decoder.Reads Component.decoder c.anonymous c.document) :
    (decoderWith Component.decoder).Reads t.anonymous t.document := by
  have harguments : (Decoder.names Argument.decoder).Reads t.arguments _ :=
    Decoder.reads_names fun e _ => e.2.reads
  rw [document_eq, anonymous_eq]
  refine Decoder.reads_record fieldNames rfl (by decide) fun room hfit => ?_
  have hreference := Fields.required_ofList hfit "componentRef" (Reference.reads h) rfl
  have harguments := Fields.defaulted_names hfit "arguments" harguments rfl
  have hannotations :=
    Fields.defaulted_names hfit "annotations" (reads_namesDocument t.annotations) rfl
  have hexecution := Fields.optional_ofList hfit "executionOptions" (fun e _ => e.reads)
    Execution.document_ne_null rfl
  simp only [hreference, harguments, hannotations, hexecution, Option.bind_eq_bind,
    Option.bind_some]

theorem Graph.reads {g : Graph} (h : ∀ e ∈ g.tasks.toList, ∀ c ∈ e.2.reference.spec,
    Decoder.Reads Component.decoder c.anonymous c.document) :
    (decoderWith Component.decoder).Reads g.anonymous g.document := by
  have htasks : (Decoder.names (Task.decoderWith Component.decoder)).Reads
      (g.tasks.map fun _ t => t.anonymous) _ :=
    Decoder.reads_names_map fun e he => Task.reads (h e he)
  have houtputs : (Decoder.names TaskOutput.decoder).Reads g.outputValues _ :=
    Decoder.reads_names fun e _ => e.2.reads
  rw [document_eq, anonymous_eq]
  refine Decoder.reads_record ["tasks", "outputValues"] rfl (by decide) fun room hfit => ?_
  have htasks := Fields.defaulted_of_written hfit "tasks" ∅ htasks rfl
  have houtputs := Fields.defaulted_names hfit "outputValues" houtputs rfl
  simp only [htasks, houtputs, Option.bind_eq_bind, Option.bind_some]

theorem Implementation.reads {i : Implementation}
    (h : ∀ g, i = .graph g → (Graph.decoderWith Component.decoder).Reads g.anonymous g.document) :
    (decoderWith Component.decoder).Reads i.anonymous i.document := by
  cases i with
  | container c =>
    refine Decoder.reads_variant fun room hroom => ?_
    simp only [c.reads room hroom, Option.map_some]
    rfl
  | graph g =>
    refine Decoder.reads_variant fun room hroom => ?_
    simp only [h g rfl room hroom, Option.map_some]
    rfl

theorem Component.reads_metadataDocument (a : Annotations) :
    metadataDecoder.Reads a (metadataDocument a) := by
  refine Decoder.reads_record ["annotations"] rfl (by decide) fun room hfit => ?_
  exact Fields.defaulted_names hfit "annotations" (reads_namesDocument a) rfl

namespace Component

variable {c : Component}

theorem reads_of_implementation (hinputs : ∀ i ∈ c.inputs, i.isRealFree)
    (houtputs : ∀ o ∈ c.outputs, o.isRealFree)
    (h : ∀ i ∈ c.implementation,
      (Implementation.decoderWith decoder).Reads i.anonymous i.document) :
    Decoder.Reads decoder c.anonymous c.document := by
  have hinputs : (Decoder.list Input.decoder).Reads c.inputs _ :=
    Decoder.reads_list fun i hi => Input.reads (hinputs i hi)
  have houtputs : (Decoder.list Output.decoder).Reads c.outputs _ :=
    Decoder.reads_list fun o ho => Output.reads (houtputs o ho)
  have hread : (decoderWith decoder).Reads c.anonymous c.document := by
    rw [document_eq, anonymous_eq]
    refine Decoder.reads_record fieldNames rfl (by decide) fun room hfit => ?_
    have hname := Fields.optional_text hfit "name" c.name rfl
    have hdescription := Fields.optional_text hfit "description" c.description rfl
    have hinputs := Fields.defaulted_list hfit "inputs" hinputs rfl
    have houtputs := Fields.defaulted_list hfit "outputs" houtputs rfl
    have himplementation := Fields.optional_ofList_map hfit "implementation" h
      Implementation.document_ne_null rfl
    have hmetadata := Fields.optional_ofList hfit "metadata"
      (fun a _ => reads_metadataDocument a) (fun _ => nofun) rfl
    simp only [hname, hdescription, hinputs, houtputs, himplementation, hmetadata,
      Option.bind_eq_bind, Option.bind_some]
  intro room hroom
  rw [decoder_eq]
  exact hread room hroom

/-- The document of a component is read back as the component, without identities. -/
theorem reads (c : Component) (h : c.isRealFree) :
    Decoder.Reads decoder c.anonymous c.document := by
  induction c using held_induction with
  | step c ih =>
    refine reads_of_implementation (isRealFree_of_mem_inputs h) (isRealFree_of_mem_outputs h)
      fun i hi => Implementation.reads ?_
    rintro g rfl
    refine Graph.reads fun e he d hd => ?_
    have hholds := holds_of_mem_tasks hi he hd
    exact ih d hholds (isRealFree_of_holds h hholds)

end Component

theorem Reference.plain_document {r : Reference}
    (h : ∀ c, r.spec = some c → c.document.Plain) : r.document.Plain := by
  rw [document_eq]
  apply plain_present
  simpa [fields] using h

theorem Task.plain_document {t : Task} (h : ∀ c, t.reference.spec = some c → c.document.Plain) :
    t.document.Plain := by
  have harguments :
      (Document.record (t.arguments.toList.map fun e => (e.1, e.2.document))).Plain :=
    Document.plain_record (List.forall_mem_map.2 fun e _ => e.2.plain_document)
  rw [document_eq]
  apply plain_present
  simp [fields, Reference.plain_document h, harguments, plain_namesDocument,
    Execution.plain_document]

theorem Graph.plain_document {g : Graph} (h : ∀ e ∈ g.tasks.toList, e.2.document.Plain) :
    g.document.Plain := by
  have htasks : (Document.record (g.tasks.toList.map fun e => (e.1, e.2.document))).Plain :=
    Document.plain_record (List.forall_mem_map.2 h)
  have houtputs :
      (Document.record (g.outputValues.toList.map fun e => (e.1, e.2.document))).Plain :=
    Document.plain_record (List.forall_mem_map.2 fun e _ => e.2.plain_document)
  rw [document_eq]
  apply plain_present
  simp [fields, htasks, houtputs]

theorem Implementation.plain_document {i : Implementation}
    (h : ∀ g, i = .graph g → g.document.Plain) : i.document.Plain := by
  cases i with
  | container c => exact Document.plain_record (by simp [c.plain_document])
  | graph g => exact Document.plain_record (by simp [h g rfl])

namespace Component

theorem plain_metadataDocument (a : Annotations) : (metadataDocument a).Plain :=
  plain_present (by simp [plain_namesDocument])

/-- Neither a number other than an integer nor a string without a text is written. -/
theorem plain_document (c : Component) (h : c.isRealFree) : c.document.Plain := by
  induction c using held_induction with
  | step c ih =>
    have hinputs : (Document.array (c.inputs.map (·.document))).Plain :=
      Document.plain_array (List.forall_mem_map.2 fun i hi =>
        Input.plain_document (isRealFree_of_mem_inputs h i hi))
    have houtputs : (Document.array (c.outputs.map (·.document))).Plain :=
      Document.plain_array (List.forall_mem_map.2 fun o ho =>
        Output.plain_document (isRealFree_of_mem_outputs h o ho))
    have himplementation : ∀ i, c.implementation = some i → i.document.Plain := by
      refine fun i hi => Implementation.plain_document ?_
      rintro g rfl
      refine Graph.plain_document fun e he => Task.plain_document fun d hd => ?_
      have hholds := holds_of_mem_tasks hi he hd
      exact ih d hholds (isRealFree_of_holds h hholds)
    rw [document_eq]
    apply plain_present
    simpa [fields, hinputs, houtputs, plain_metadataDocument] using himplementation

variable {c : Component}

theorem ofText?_text (h : c.isRealFree) (hnesting : c.document.nesting ≤ maxNesting) :
    ofText? c.text = some c.anonymous := by
  rw [ofText?, Decoder.ofText?, text, Document.read?_compact (c.plain_document h)]
  exact c.reads h maxNesting hnesting

theorem ofText?_indentedText (h : c.isRealFree) (hnesting : c.document.nesting ≤ maxNesting) :
    ofText? c.indentedText = some c.anonymous := by
  rw [ofText?, Decoder.ofText?, indentedText, Document.read?_indented (c.plain_document h)]
  exact c.reads h maxNesting hnesting

/-- Both codecs read a component back that they have written, but for the identities, if no
structured type in it holds a double and its text does not nest too deep. -/
theorem deserialize_serialize (h : c.isRealFree) (hnesting : c.document.nesting ≤ maxNesting) :
    (Codec.compact.serialize c).bind Codec.compact.deserialize = .ok c.anonymous ∧
    (Codec.indented.serialize c).bind Codec.indented.deserialize = .ok c.anonymous ∧
    (c.identities = [] → c.anonymous = c) := by
  have hcompact : Codec.readText c.text = .ok c.anonymous := by
    rw [Codec.readText, ofText?_text h hnesting]
  have hindented : Codec.readText c.indentedText = .ok c.anonymous := by
    rw [Codec.readText, ofText?_indentedText h hnesting]
  exact ⟨hcompact, hindented, c.anonymous_eq_self⟩

end Component

/-- A component with a structured type, and with characters that have to be escaped. -/
def quotingComponent : Component where
  name := some "say \"\x07\"\n"
  inputs := [{
    name := "words"
    type := some (.structured (.ofList [
      ("List", .array [.text "\\", .integer ⟨-3, by decide⟩, .null, .object .nil])])) }]
  implementation := some (.container { image := "alpine", args := ["→", ""] })
  metadata := some ∅

/-- A graph around it. -/
def quotingPipeline : Component where
  implementation := some (.graph {
    tasks := NameMap.ofList [("say", {
      reference := .toComponent quotingComponent
      arguments := .ofList [("words", .secret "key")]
      execution := some { maxRetries := some 3 } })] })

theorem deserialize_serialize_quoting :
    quotingPipeline.isRealFree ∧ quotingPipeline.document.nesting ≤ maxNesting ∧
    (Codec.compact.serialize quotingPipeline).bind Codec.compact.deserialize =
      .ok quotingPipeline ∧
    (Codec.indented.serialize quotingPipeline).bind Codec.indented.deserialize =
      .ok quotingPipeline := by
  have hreal : quotingPipeline.isRealFree := by decide
  have hnesting : quotingPipeline.document.nesting ≤ maxNesting := by decide
  obtain ⟨hcompact, hindented, hself⟩ := Component.deserialize_serialize hreal hnesting
  rw [hself rfl] at hcompact hindented
  exact ⟨hreal, hnesting, hcompact, hindented⟩

end TaskGraph
