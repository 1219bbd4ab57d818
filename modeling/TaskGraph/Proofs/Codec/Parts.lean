import TaskGraph.Component.Document
import TaskGraph.Proofs.Json.Decoding

/-!
# Reading back the parts of a component

What a component consists of besides other components, such as types, inputs and arguments, is read
back from its JSON form as it was. Types must not hold doubles, whose text may denote another
number. A record is seen as the list of its fields, absent ones included.
-/
namespace TaskGraph

open Json

namespace Value

mutual

/-- The value holds no double. -/
def isRealFree : Value → Bool
  | .null => true
  | .bool _ => true
  | .integer _ => true
  | .real _ => false
  | .text _ => true
  | .array items => areItemsRealFree items
  | .object members => areMembersRealFree members

def areItemsRealFree : List Value → Bool
  | [] => true
  | v :: vs => v.isRealFree && areItemsRealFree vs

def areMembersRealFree : {lo : Option String} → NameMap.From Value lo → Bool
  | _, .nil => true
  | _, .cons _ v _ rest => v.isRealFree && areMembersRealFree rest

end

theorem itemDocuments_eq (items : List Value) : itemDocuments items = items.map document := by
  induction items with
  | nil => rfl
  | cons v vs ih => rw [itemDocuments, ih, List.map_cons]

theorem memberDocuments_eq {lo : Option String} (members : NameMap.From Value lo) :
    memberDocuments members = members.toList.map fun e => (some e.1, e.2.document) := by
  induction members with
  | nil => rfl
  | cons k v h rest ih => rw [memberDocuments, ih, NameMap.From.toList, List.map_cons]

theorem ofNumeral?_ofInt (i : WideInteger) : ofNumeral? (.ofInt i.val) = some (.integer i) := by
  obtain ⟨i, hlow, hhigh⟩ := i
  have habs : (if (Numeral.ofInt i).negative = true then -((Numeral.ofInt i).whole : Int)
      else (Numeral.ofInt i).whole) = i := by
    simp only [Numeral.ofInt, decide_eq_true_eq]
    split <;> omega
  have hzero : ¬ ((Numeral.ofInt i).negative = true ∧ (Numeral.ofInt i).whole = 0) := by
    simp only [Numeral.ofInt, decide_eq_true_eq]
    omega
  unfold ofNumeral?
  dsimp only
  rw [dif_pos ⟨rfl, hzero, by rwa [habs], by rwa [habs]⟩]
  simp only [habs]

theorem reads_array {items : List Value} (h : ∀ v ∈ items, decoder.Reads v v.document) :
    decoder.Reads (.array items) (.array (items.map document)) := by
  intro room hroom
  obtain ⟨inner, rfl, hitems⟩ := Document.nesting_array_le hroom
  have hread : ∀ v ∈ items, decoder inner v.document = some (id v) := fun v hv =>
    h v hv inner (hitems _ (List.mem_map_of_mem hv))
  rw [decoder, Decoder.mapM_map hread, List.map_id, Option.map_some]

theorem reads_members {members : NameMap Value}
    (h : ∀ e ∈ members.toList, decoder.Reads e.2 e.2.document) {room : Nat}
    (hroom : ∀ m ∈ memberDocuments members, m.2.nesting ≤ room) :
    Decoder.members? (decoder room) (memberDocuments members) = some members := by
  rw [memberDocuments_eq] at hroom ⊢
  have hread : ∀ e ∈ members.toList, decoder room e.2.document = some e.2 := fun e he =>
    h e he room (hroom _ (List.mem_map_of_mem he))
  have hmembers : _ = some (members.map fun _ v => v) := Decoder.members?_toList hread
  rw [hmembers, NameMap.From.map_id]

mutual

theorem reads (v : Value) (h : v.isRealFree) : decoder.Reads v v.document := by
  match v with
  | .null => exact fun room _ => by rw [document, decoder]
  | .bool b => exact fun room _ => by rw [document, decoder]
  | .integer i => exact fun room _ => by rw [document, decoder, ofNumeral?_ofInt]
  | .text s => exact fun room _ => by rw [document, Document.text, decoder, Option.map_some]
  | .array items =>
    rw [document, itemDocuments_eq]
    exact reads_array (reads_items items h)
  | .object members =>
    intro room hroom
    rw [document] at hroom ⊢
    obtain ⟨inner, rfl, hmembers⟩ := Document.nesting_object_le hroom
    rw [decoder, reads_members (reads_entries members h) hmembers, Option.map_some]

theorem reads_items (items : List Value) (h : areItemsRealFree items) :
    ∀ v ∈ items, decoder.Reads v v.document := by
  match items with
  | [] => exact List.forall_mem_nil _
  | v :: vs =>
    rw [areItemsRealFree, Bool.and_eq_true] at h
    exact List.forall_mem_cons.2 ⟨reads v h.1, reads_items vs h.2⟩

theorem reads_entries {lo : Option String} (members : NameMap.From Value lo)
    (h : areMembersRealFree members) : ∀ e ∈ members.toList, decoder.Reads e.2 e.2.document := by
  match members with
  | .nil => exact List.forall_mem_nil _
  | .cons k v hk rest =>
    rw [areMembersRealFree, Bool.and_eq_true] at h
    exact List.forall_mem_cons.2 ⟨reads v h.1, reads_entries rest h.2⟩

end

mutual

theorem plain_document (v : Value) (h : v.isRealFree) : v.document.Plain := by
  match v with
  | .null => exact Document.plain_null
  | .bool b => exact Document.plain_bool b
  | .integer i => exact Document.plain_number_iff.2 rfl
  | .text s => exact Document.plain_text s
  | .array items => exact Document.plain_array (plain_itemDocuments items h)
  | .object members => exact Document.plain_object (plain_memberDocuments members h)

theorem plain_itemDocuments (items : List Value) (h : areItemsRealFree items) :
    ∀ d ∈ itemDocuments items, d.Plain := by
  match items with
  | [] => exact List.forall_mem_nil _
  | v :: vs =>
    rw [areItemsRealFree, Bool.and_eq_true] at h
    exact List.forall_mem_cons.2 ⟨plain_document v h.1, plain_itemDocuments vs h.2⟩

theorem plain_memberDocuments {lo : Option String} (members : NameMap.From Value lo)
    (h : areMembersRealFree members) : ∀ m ∈ memberDocuments members, m.1.isSome ∧ m.2.Plain := by
  match members with
  | .nil => exact List.forall_mem_nil _
  | .cons k v hk rest =>
    rw [areMembersRealFree, Bool.and_eq_true] at h
    exact List.forall_mem_cons.2 ⟨⟨rfl, plain_document v h.1⟩, plain_memberDocuments rest h.2⟩

end

end Value

namespace TypeTag

/-- The type holds no double. -/
def isRealFree : TypeTag → Bool
  | .named _ => true
  | .structured members => Value.areMembersRealFree members

theorem reads {tag : TypeTag} (h : tag.isRealFree) : decoder.Reads tag tag.document := by
  cases tag with
  | named name => exact fun _ _ => rfl
  | structured members =>
    intro room hroom
    obtain ⟨inner, rfl, hmembers⟩ := Document.nesting_object_le hroom
    rw [document, decoder, Value.reads_members (Value.reads_entries members h) hmembers,
      Option.map_some]

theorem plain_document {tag : TypeTag} (h : tag.isRealFree) : tag.document.Plain := by
  cases tag with
  | named name => exact Document.plain_text name
  | structured members => exact Document.plain_object (Value.plain_memberDocuments members h)

theorem document_ne_null (tag : TypeTag) : tag.document ≠ .null := by
  cases tag <;> exact nofun

end TypeTag

theorem memberIfSome_eq (name : String) (doc? : Option Document) :
    memberIfSome name doc? = present [(name, doc?)] := by
  cases doc? <;> rfl

theorem memberIf_eq (name : String) (written : Bool) (doc : Document) :
    memberIf name written doc = present [(name, if written then some doc else none)] := by
  cases written <;> rfl

theorem singleton_eq_present (name : String) (doc : Document) :
    [(name, doc)] = present [(name, some doc)] := rfl

theorem present_append (fields fields' : List (String × Option Document)) :
    present fields ++ present fields' = present (fields ++ fields') :=
  (List.filterMap_append ..).symm

theorem plain_present {fields : List (String × Option Document)}
    (h : ∀ f ∈ fields, ∀ doc ∈ f.2, doc.Plain) : (Document.record (present fields)).Plain :=
  Document.plain_record fun _ hm => h _ (mem_of_mem_present hm) _ rfl

theorem reads_textsDocument (texts : List String) :
    (Decoder.list Decoder.text).Reads texts (textsDocument texts) :=
  Decoder.reads_list fun s _ => Decoder.reads_text s

theorem reads_namesDocument (m : NameMap String) :
    (Decoder.names Decoder.text).Reads m (namesDocument m) :=
  Decoder.reads_names fun e _ => Decoder.reads_text e.2

theorem plain_textsDocument (texts : List String) : (textsDocument texts).Plain :=
  Document.plain_array (List.forall_mem_map.2 fun s _ => Document.plain_text s)

theorem plain_namesDocument (m : NameMap String) : (namesDocument m).Plain :=
  Document.plain_record (List.forall_mem_map.2 fun e _ => Document.plain_text e.2)

namespace Input

/-- The type of the input holds no double. -/
def isRealFree (i : Input) : Bool := i.type.all TypeTag.isRealFree

def fields (i : Input) : List (String × Option Document) := [
  ("name", some (.text i.name)),
  ("type", i.type.map (·.document)),
  ("description", i.description.map .text),
  ("default", i.default.map .text),
  ("optional", if i.optional then some (.bool true) else none),
  ("value", i.value.map .text),
  ("annotations", if !i.annotations.isEmpty then some (namesDocument i.annotations) else none)]

theorem document_eq (i : Input) : i.document = .record (present i.fields) := by
  simp only [document, memberIfSome_eq, memberIf_eq, singleton_eq_present, present_append]
  rfl

theorem reads {i : Input} (h : i.isRealFree) : decoder.Reads i i.document := by
  have htypes : ∀ tag ∈ i.type, TypeTag.decoder.Reads tag tag.document := fun tag htag =>
    TypeTag.reads ((Option.all_eq_true _ _).1 h tag htag)
  rw [document_eq]
  refine Decoder.reads_record fieldNames rfl (by decide) fun room hfit => ?_
  have hname := Fields.required_text hfit "name" i.name rfl
  have htype := Fields.optional_ofList hfit "type" htypes TypeTag.document_ne_null rfl
  have hdescription := Fields.optional_text hfit "description" i.description rfl
  have hdefault := Fields.optional_text hfit "default" i.default rfl
  have hoptional := Fields.defaulted_flag hfit "optional" i.optional rfl
  have hvalue := Fields.optional_text hfit "value" i.value rfl
  have hannotations :=
    Fields.defaulted_names hfit "annotations" (reads_namesDocument i.annotations) rfl
  simp only [hname, htype, hdescription, hdefault, hoptional, hvalue, hannotations,
    Option.bind_eq_bind, Option.bind_some]

theorem plain_document {i : Input} (h : i.isRealFree) : i.document.Plain := by
  have htypes : ∀ tag, i.type = some tag → tag.document.Plain := fun tag htag =>
    TypeTag.plain_document ((Option.all_eq_true _ _).1 h tag htag)
  rw [document_eq]
  apply plain_present
  simpa [fields, plain_namesDocument] using htypes

end Input

namespace Output

/-- The type of the output holds no double. -/
def isRealFree (o : Output) : Bool := o.type.all TypeTag.isRealFree

def fields (o : Output) : List (String × Option Document) := [
  ("name", some (.text o.name)),
  ("type", o.type.map (·.document)),
  ("description", o.description.map .text),
  ("annotations", if !o.annotations.isEmpty then some (namesDocument o.annotations) else none)]

theorem document_eq (o : Output) : o.document = .record (present o.fields) := by
  simp only [document, memberIfSome_eq, memberIf_eq, singleton_eq_present, present_append]
  rfl

theorem reads {o : Output} (h : o.isRealFree) : decoder.Reads o o.document := by
  have htypes : ∀ tag ∈ o.type, TypeTag.decoder.Reads tag tag.document := fun tag htag =>
    TypeTag.reads ((Option.all_eq_true _ _).1 h tag htag)
  rw [document_eq]
  refine Decoder.reads_record fieldNames rfl (by decide) fun room hfit => ?_
  have hname := Fields.required_text hfit "name" o.name rfl
  have htype := Fields.optional_ofList hfit "type" htypes TypeTag.document_ne_null rfl
  have hdescription := Fields.optional_text hfit "description" o.description rfl
  have hannotations :=
    Fields.defaulted_names hfit "annotations" (reads_namesDocument o.annotations) rfl
  simp only [hname, htype, hdescription, hannotations, Option.bind_eq_bind, Option.bind_some]

theorem plain_document {o : Output} (h : o.isRealFree) : o.document.Plain := by
  have htypes : ∀ tag, o.type = some tag → tag.document.Plain := fun tag htag =>
    TypeTag.plain_document ((Option.all_eq_true _ _).1 h tag htag)
  rw [document_eq]
  apply plain_present
  simpa [fields, plain_namesDocument] using htypes

end Output

namespace Container

def fields (c : Container) : List (String × Option Document) := [
  ("image", some (.text c.image)),
  ("command", if !c.command.isEmpty then some (textsDocument c.command) else none),
  ("args", if !c.args.isEmpty then some (textsDocument c.args) else none),
  ("env", if !c.env.isEmpty then some (namesDocument c.env) else none)]

theorem document_eq (c : Container) : c.document = .record (present c.fields) := by
  simp only [document, memberIf_eq, singleton_eq_present, present_append]
  rfl

theorem reads (c : Container) : decoder.Reads c c.document := by
  rw [document_eq]
  refine Decoder.reads_record fieldNames rfl (by decide) fun room hfit => ?_
  have himage := Fields.required_text hfit "image" c.image rfl
  have hcommand := Fields.defaulted_list hfit "command" (reads_textsDocument c.command) rfl
  have hargs := Fields.defaulted_list hfit "args" (reads_textsDocument c.args) rfl
  have henv := Fields.defaulted_names hfit "env" (reads_namesDocument c.env) rfl
  simp only [himage, hcommand, hargs, henv, Option.bind_eq_bind, Option.bind_some]

theorem plain_document (c : Container) : c.document.Plain := by
  rw [document_eq]
  apply plain_present
  simp [fields, plain_textsDocument, plain_namesDocument]

end Container

namespace TaskOutput

theorem reads (o : TaskOutput) : decoder.Reads o o.document := by
  have hdocument : o.document = .record (present
      [("taskId", some (.text o.task)), ("outputName", some (.text o.output))]) := rfl
  rw [hdocument]
  refine Decoder.reads_record ["taskId", "outputName"] rfl (by decide) fun room hfit => ?_
  have htask := Fields.required_text hfit "taskId" o.task rfl
  have houtput := Fields.required_text hfit "outputName" o.output rfl
  simp only [htask, houtput, Option.bind_eq_bind, Option.bind_some]

theorem plain_document (o : TaskOutput) : o.document.Plain :=
  Document.plain_record (by simp)

end TaskOutput

namespace Argument

theorem reads_nameDecoder (field s : String) :
    (nameDecoder field).Reads s (.record [(field, .text s)]) := by
  rw [singleton_eq_present]
  refine Decoder.reads_record [field] rfl (List.nodup_singleton field) fun room hfit => ?_
  exact Fields.required_text hfit field s (by simp)

theorem reads (a : Argument) : decoder.Reads a a.document := by
  cases a with
  | literal value => exact Decoder.reads_variant fun room _ => rfl
  | graphInput name =>
    refine Decoder.reads_variant fun room hroom => ?_
    simp only [reads_nameDecoder "inputName" name room hroom, Option.map_some]
  | taskOutput source =>
    refine Decoder.reads_variant fun room hroom => ?_
    simp only [source.reads room hroom, Option.map_some]
  | secret name =>
    refine Decoder.reads_variant fun room hroom => ?_
    simp only [reads_nameDecoder "name" name room hroom, Option.map_some]

theorem plain_document (a : Argument) : a.document.Plain := by
  have hname (field s : String) : (Document.record [(field, .text s)]).Plain :=
    Document.plain_record (by simp)
  cases a with
  | literal value => exact hname "literal" value
  | graphInput name => exact Document.plain_record (by simp [hname])
  | taskOutput source => exact Document.plain_record (by simp [source.plain_document])
  | secret name => exact Document.plain_record (by simp [hname])

end Argument

namespace Execution

def retryDocument (n : UInt32) : Document := .record [("maxRetries", .number (.ofNat n.toNat))]

def cachingDocument (s : String) : Document := .record [("maxCacheStaleness", .text s)]

def fields (e : Execution) : List (String × Option Document) := [
  ("retryStrategy", e.maxRetries.map retryDocument),
  ("cachingStrategy", e.maxCacheStaleness.map cachingDocument)]

theorem document_eq (e : Execution) : e.document = .record (present e.fields) := by
  simp only [document, memberIfSome_eq, present_append]
  rfl

theorem reads_retryDecoder (n : UInt32) : retryDecoder.Reads n (retryDocument n) := by
  rw [retryDocument, singleton_eq_present]
  refine Decoder.reads_record ["maxRetries"] rfl (by decide) fun room hfit => ?_
  have hnumber := Fields.required_ofList hfit "maxRetries" (Decoder.reads_natBelow n.toNat_lt) rfl
  exact (congrArg _ hnumber).trans (congrArg some n.ofNat_toNat)

theorem reads (e : Execution) : decoder.Reads e e.document := by
  have hretries : ∀ n ∈ e.maxRetries, retryDecoder.Reads n (retryDocument n) :=
    fun n _ => reads_retryDecoder n
  have hstaleness : ∀ s ∈ e.maxCacheStaleness,
      (Argument.nameDecoder "maxCacheStaleness").Reads s (cachingDocument s) :=
    fun s _ => Argument.reads_nameDecoder "maxCacheStaleness" s
  rw [document_eq]
  refine Decoder.reads_record ["retryStrategy", "cachingStrategy"] rfl (by decide)
    fun room hfit => ?_
  have hretry := Fields.optional_ofList hfit "retryStrategy" hretries (fun _ => nofun) rfl
  have hcaching := Fields.optional_ofList hfit "cachingStrategy" hstaleness (fun _ => nofun) rfl
  simp only [hretry, hcaching, Option.bind_eq_bind, Option.bind_some]

theorem plain_document (e : Execution) : e.document.Plain := by
  have hretry (n : UInt32) : (retryDocument n).Plain :=
    Document.plain_record (by simp [Numeral.ofNat, Numeral.isInteger])
  have hcaching (s : String) : (cachingDocument s).Plain := Document.plain_record (by simp)
  rw [document_eq]
  apply plain_present
  simp [fields, hretry, hcaching]

theorem document_ne_null (e : Execution) : e.document ≠ .null := by
  rw [document_eq]
  exact nofun

end Execution

end TaskGraph
