import TaskGraph.Component.Basic

/-!
# The JSON form of components

`Component.document` writes a component with its fields in a fixed order and leaves out what is
absent or empty; only the tasks of a graph are always written. `Component.decoder` reads it back
and also accepts other spellings of the same component: unknown members, records written as
arrays, absent and `null` fields.
-/
namespace TaskGraph

open Json

/-- A member that is written if there is a value. -/
def memberIfSome (name : String) : Option Document → List (String × Document)
  | some d => [(name, d)]
  | none => []

def memberIf (name : String) (present : Bool) (d : Document) : List (String × Document) :=
  if present then [(name, d)] else []

def textsDocument (texts : List String) : Document := .array (texts.map .text)

def namesDocument (m : NameMap String) : Document :=
  .record (m.toList.map fun (k, v) => (k, .text v))

namespace Input

def document (i : Input) : Document :=
  .record <| [("name", .text i.name)] ++
    memberIfSome "type" (i.type.map (·.document)) ++
    memberIfSome "description" (i.description.map .text) ++
    memberIfSome "default" (i.default.map .text) ++
    memberIf "optional" i.optional (.bool true) ++
    memberIfSome "value" (i.value.map .text) ++
    memberIf "annotations" (!i.annotations.isEmpty) (namesDocument i.annotations)

def fieldNames : List String :=
  ["name", "type", "description", "default", "optional", "value", "annotations"]

def decoder : Decoder Input := fun room doc => do
  let f ← Fields.decoder fieldNames room doc
  some {
    name := ← f.required "name" Decoder.text
    type := ← f.optional "type" TypeTag.decoder
    description := ← f.optional "description" Decoder.text
    default := ← f.optional "default" Decoder.text
    optional := ← f.defaulted "optional" Decoder.bool false
    value := ← f.optional "value" Decoder.text
    annotations := ← f.defaulted "annotations" (Decoder.names Decoder.text) ∅ }

end Input

namespace Output

def document (o : Output) : Document :=
  .record <| [("name", .text o.name)] ++
    memberIfSome "type" (o.type.map (·.document)) ++
    memberIfSome "description" (o.description.map .text) ++
    memberIf "annotations" (!o.annotations.isEmpty) (namesDocument o.annotations)

def fieldNames : List String := ["name", "type", "description", "annotations"]

def decoder : Decoder Output := fun room doc => do
  let f ← Fields.decoder fieldNames room doc
  some {
    name := ← f.required "name" Decoder.text
    type := ← f.optional "type" TypeTag.decoder
    description := ← f.optional "description" Decoder.text
    annotations := ← f.defaulted "annotations" (Decoder.names Decoder.text) ∅ }

end Output

namespace Container

def document (c : Container) : Document :=
  .record <| [("image", .text c.image)] ++
    memberIf "command" (!c.command.isEmpty) (textsDocument c.command) ++
    memberIf "args" (!c.args.isEmpty) (textsDocument c.args) ++
    memberIf "env" (!c.env.isEmpty) (namesDocument c.env)

def fieldNames : List String := ["image", "command", "args", "env"]

def decoder : Decoder Container := fun room doc => do
  let f ← Fields.decoder fieldNames room doc
  some {
    image := ← f.required "image" Decoder.text
    command := ← f.defaulted "command" (Decoder.list Decoder.text) []
    args := ← f.defaulted "args" (Decoder.list Decoder.text) []
    env := ← f.defaulted "env" (Decoder.names Decoder.text) ∅ }

end Container

namespace TaskOutput

def document (o : TaskOutput) : Document :=
  .record [("taskId", .text o.task), ("outputName", .text o.output)]

def decoder : Decoder TaskOutput := fun room doc => do
  let f ← Fields.decoder ["taskId", "outputName"] room doc
  some ⟨← f.required "taskId" Decoder.text, ← f.required "outputName" Decoder.text⟩

end TaskOutput

namespace Argument

def document : Argument → Document
  | .literal value => .record [("literal", .text value)]
  | .graphInput name => .record [("graphInput", .record [("inputName", .text name)])]
  | .taskOutput source => .record [("taskOutput", source.document)]
  | .secret name => .record [("secret", .record [("name", .text name)])]

/-- A record with one text in it. -/
def nameDecoder (field : String) : Decoder String := fun room doc => do
  (← Fields.decoder [field] room doc).required field Decoder.text

def decoder : Decoder Argument := fun room doc => do
  let (tag, payload, room) ← Decoder.variant room doc
  match tag with
  | "literal" => (Decoder.text room payload).map .literal
  | "graphInput" => (nameDecoder "inputName" room payload).map .graphInput
  | "taskOutput" => (TaskOutput.decoder room payload).map .taskOutput
  | "secret" => (nameDecoder "name" room payload).map .secret
  | _ => none

end Argument

namespace Execution

def document (e : Execution) : Document :=
  .record <|
    memberIfSome "retryStrategy"
      (e.maxRetries.map fun n => .record [("maxRetries", .number (.ofNat n.toNat))]) ++
    memberIfSome "cachingStrategy"
      (e.maxCacheStaleness.map fun s => .record [("maxCacheStaleness", .text s)])

def retryDecoder : Decoder UInt32 := fun room doc => do
  let f ← Fields.decoder ["maxRetries"] room doc
  (f.required "maxRetries" (Decoder.natBelow (Nat.pow 2 32))).map UInt32.ofNat

def decoder : Decoder Execution := fun room doc => do
  let f ← Fields.decoder ["retryStrategy", "cachingStrategy"] room doc
  some {
    maxRetries := ← f.optional "retryStrategy" retryDecoder
    maxCacheStaleness :=
      ← f.optional "cachingStrategy" (Argument.nameDecoder "maxCacheStaleness") }

end Execution

mutual

def Component.document : Component → Document
  | ⟨name, description, inputs, outputs, implementation, metadata, _⟩ =>
    .record <|
      memberIfSome "name" (name.map .text) ++
      memberIfSome "description" (description.map .text) ++
      memberIf "inputs" (!inputs.isEmpty) (.array (inputs.map (·.document))) ++
      memberIf "outputs" (!outputs.isEmpty) (.array (outputs.map (·.document))) ++
      (match implementation with
        | some i => [("implementation", i.document)]
        | none => []) ++
      memberIfSome "metadata" (metadata.map fun a =>
        .record (memberIf "annotations" (!a.isEmpty) (namesDocument a)))

def Implementation.document : Implementation → Document
  | .container c => .record [("container", c.document)]
  | .graph g => .record [("graph", g.document)]

def Graph.document : Graph → Document
  | ⟨tasks, outputValues⟩ =>
    .record <| [("tasks", .record (taskMembers tasks))] ++
      memberIf "outputValues" (!outputValues.isEmpty)
        (.record (outputValues.toList.map fun (k, v) => (k, v.document)))

def taskMembers : {lo : Option String} → NameMap.From Task lo → List (String × Document)
  | _, .nil => []
  | _, .cons id t _ rest => (id, t.document) :: taskMembers rest

def Task.document : Task → Document
  | ⟨reference, arguments, annotations, execution⟩ =>
    .record <| [("componentRef", reference.document)] ++
      memberIf "arguments" (!arguments.isEmpty)
        (.record (arguments.toList.map fun (k, v) => (k, v.document))) ++
      memberIf "annotations" (!annotations.isEmpty) (namesDocument annotations) ++
      memberIfSome "executionOptions" (execution.map (·.document))

def Reference.document : Reference → Document
  | ⟨name, digest, url, spec, text⟩ =>
    .record <|
      memberIfSome "name" (name.map .text) ++
      memberIfSome "digest" (digest.map .text) ++
      memberIfSome "url" (url.map .text) ++
      (match spec with
        | some c => [("spec", c.document)]
        | none => []) ++
      memberIfSome "text" (text.map .text)

end

def Reference.fieldNames : List String := ["name", "digest", "url", "spec", "text"]

/-- Reads a reference, given how to read the component in it. -/
def Reference.decoderWith (component : Decoder Component) : Decoder Reference :=
  fun room doc => do
    let f ← Fields.decoder fieldNames room doc
    some {
      name := ← f.optional "name" Decoder.text
      digest := ← f.optional "digest" Decoder.text
      url := ← f.optional "url" Decoder.text
      spec := ← f.optional "spec" component
      text := ← f.optional "text" Decoder.text }

def Task.fieldNames : List String :=
  ["componentRef", "arguments", "annotations", "executionOptions"]

def Task.decoderWith (component : Decoder Component) : Decoder Task := fun room doc => do
  let f ← Fields.decoder fieldNames room doc
  some {
    reference := ← f.required "componentRef" (Reference.decoderWith component)
    arguments := ← f.defaulted "arguments" (Decoder.names Argument.decoder) ∅
    annotations := ← f.defaulted "annotations" (Decoder.names Decoder.text) ∅
    execution := ← f.optional "executionOptions" Execution.decoder }

def Graph.decoderWith (component : Decoder Component) : Decoder Graph := fun room doc => do
  let f ← Fields.decoder ["tasks", "outputValues"] room doc
  some {
    tasks := ← f.defaulted "tasks" (Decoder.names (Task.decoderWith component)) ∅
    outputValues := ← f.defaulted "outputValues" (Decoder.names TaskOutput.decoder) ∅ }

def Implementation.decoderWith (component : Decoder Component) : Decoder Implementation :=
  fun room doc => do
    let (tag, payload, room) ← Decoder.variant room doc
    match tag with
    | "container" => (Container.decoder room payload).map .container
    | "graph" => (Graph.decoderWith component room payload).map .graph
    | _ => none

/-- The annotations of a component, which stand in a record of their own. -/
def metadataDecoder : Decoder Annotations := fun room doc => do
  (← Fields.decoder ["annotations"] room doc).defaulted "annotations"
    (Decoder.names Decoder.text) ∅

def Component.fieldNames : List String :=
  ["name", "description", "inputs", "outputs", "implementation", "metadata"]

/-- Reads a component, given how to read the components that its tasks refer to. -/
def Component.decoderWith (component : Decoder Component) : Decoder Component :=
  fun room doc => do
    let f ← Fields.decoder fieldNames room doc
    some {
      name := ← f.optional "name" Decoder.text
      description := ← f.optional "description" Decoder.text
      inputs := ← f.defaulted "inputs" (Decoder.list Input.decoder) []
      outputs := ← f.defaulted "outputs" (Decoder.list Output.decoder) []
      implementation := ← f.optional "implementation" (Implementation.decoderWith component)
      metadata := ← f.optional "metadata" metadataDecoder }

/-- A component inside another one has less room than that, so reading ends. -/
def Component.decoder (room : Nat) (doc : Document) : Option Component :=
  decoderWith (fun inner d => if inner < room then decoder inner d else none) room doc
termination_by room

def Reference.decoder : Decoder Reference := decoderWith Component.decoder

def Task.decoder : Decoder Task := decoderWith Component.decoder

def Graph.decoder : Decoder Graph := decoderWith Component.decoder

end TaskGraph
