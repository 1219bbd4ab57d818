import TaskGraph.Json.Decoder
import TaskGraph.Proofs.Json.Lexing
import TaskGraph.Proofs.NameMap

/-!
# Reading values back

A decoder reads a value back from a document if it gives the value wherever there is room for the
arrays and objects of the document. What a decoder makes of a record comes down to what it makes of
the fields that are present, and these have one level of room less.
-/
namespace TaskGraph.Json

mutual

/-- How many arrays and objects stand inside one another, the document included. -/
def Document.nesting : Document → Nat
  | .null => 0
  | .bool _ => 0
  | .number _ => 0
  | .string _ => 0
  | .array items => nestingOfItems items + 1
  | .object members => nestingOfMembers members + 1

def nestingOfItems : List Document → Nat
  | [] => 0
  | d :: ds => max d.nesting (nestingOfItems ds)

def nestingOfMembers : List (Literal × Document) → Nat
  | [] => 0
  | (_, d) :: ms => max d.nesting (nestingOfMembers ms)

end

theorem nestingOfItems_le_iff {items : List Document} {n : Nat} :
    nestingOfItems items ≤ n ↔ ∀ d ∈ items, d.nesting ≤ n := by
  induction items with
  | nil => simp [nestingOfItems]
  | cons d ds ih => rw [nestingOfItems, Nat.max_le, ih, List.forall_mem_cons]

theorem nestingOfMembers_le_iff {members : List (Literal × Document)} {n : Nat} :
    nestingOfMembers members ≤ n ↔ ∀ m ∈ members, m.2.nesting ≤ n := by
  induction members with
  | nil => simp [nestingOfMembers]
  | cons m ms ih => rw [nestingOfMembers, Nat.max_le, ih, List.forall_mem_cons]

namespace Document

/-- An array needs room for one level more than its items do. -/
theorem nesting_array_le {items : List Document} {room : Nat} (h : (array items).nesting ≤ room) :
    ∃ inner, room = inner + 1 ∧ ∀ d ∈ items, d.nesting ≤ inner := by
  cases room with
  | zero => cases h
  | succ inner => exact ⟨inner, rfl, nestingOfItems_le_iff.1 (Nat.le_of_succ_le_succ h)⟩

theorem nesting_object_le {members : List (Literal × Document)} {room : Nat}
    (h : (object members).nesting ≤ room) :
    ∃ inner, room = inner + 1 ∧ ∀ m ∈ members, m.2.nesting ≤ inner := by
  cases room with
  | zero => cases h
  | succ inner => exact ⟨inner, rfl, nestingOfMembers_le_iff.1 (Nat.le_of_succ_le_succ h)⟩

theorem nesting_record_le {members : List (String × Document)} {room : Nat}
    (h : (record members).nesting ≤ room) :
    ∃ inner, room = inner + 1 ∧ ∀ m ∈ members, m.2.nesting ≤ inner := by
  obtain ⟨inner, rfl, hmembers⟩ := nesting_object_le h
  exact ⟨inner, rfl, fun m hm => hmembers _ (List.mem_map_of_mem hm)⟩

@[simp] theorem plain_text (s : String) : (text s).Plain := by
  simp [Plain, text, tokens, Token.isPlain]

@[simp] theorem plain_bool (b : Bool) : (bool b).Plain := by simp [Plain, tokens, Token.isPlain]

@[simp] theorem plain_null : null.Plain := by simp [Plain, tokens, Token.isPlain]

@[simp] theorem plain_number_iff {n : Numeral} : (number n).Plain ↔ n.isInteger := by
  simp [Plain, tokens, Token.isPlain]

theorem plain_array {items : List Document} (h : ∀ d ∈ items, d.Plain) : (array items).Plain := by
  have hitems : ∀ t ∈ itemTokens items, t.isPlain := by
    induction items with
    | nil => exact List.forall_mem_nil _
    | cons d ds ih =>
      obtain ⟨hd, hds⟩ := List.forall_mem_cons.1 h
      cases ds with
      | nil => exact hd
      | cons e ds =>
        exact List.forall_mem_append.2 ⟨hd, List.forall_mem_cons.2 ⟨rfl, ih hds⟩⟩
  have hclose : Token.closeArray.isPlain := rfl
  rw [Plain, tokens, List.forall_mem_cons, List.forall_mem_append]
  exact ⟨rfl, hitems, List.forall_mem_singleton.2 hclose⟩

theorem plain_object {members : List (Literal × Document)}
    (h : ∀ m ∈ members, m.1.isSome ∧ m.2.Plain) : (object members).Plain := by
  have hmembers : ∀ t ∈ memberTokens members, t.isPlain := by
    induction members with
    | nil => exact List.forall_mem_nil _
    | cons m ms ih =>
      obtain ⟨⟨hkey, hd⟩, hms⟩ := List.forall_mem_cons.1 h
      have hname : ∀ ts : List Token, (∀ t ∈ ts, t.isPlain) →
          ∀ t ∈ Token.string m.1 :: .colon :: ts, t.isPlain := fun ts hts =>
        List.forall_mem_cons.2 ⟨hkey, List.forall_mem_cons.2 ⟨rfl, hts⟩⟩
      cases ms with
      | nil => exact hname _ hd
      | cons m' ms =>
        exact hname _ (List.forall_mem_append.2 ⟨hd, List.forall_mem_cons.2 ⟨rfl, ih hms⟩⟩)
  have hclose : Token.closeObject.isPlain := rfl
  rw [Plain, tokens, List.forall_mem_cons, List.forall_mem_append]
  exact ⟨rfl, hmembers, List.forall_mem_singleton.2 hclose⟩

theorem plain_record {members : List (String × Document)} (h : ∀ m ∈ members, m.2.Plain) :
    (record members).Plain :=
  plain_object (List.forall_mem_map.2 fun m hm => ⟨rfl, h m hm⟩)

end Document

/-- The decoder gives the value for the document, wherever there is room for it. -/
def Decoder.Reads {α : Type} (decoder : Decoder α) (a : α) (doc : Document) : Prop :=
  ∀ room, doc.nesting ≤ room → decoder room doc = some a

namespace Decoder

variable {α β : Type} {decoder : Decoder α}

theorem reads_text (s : String) : text.Reads s (.text s) := fun _ _ => rfl

theorem reads_bool (b : Bool) : bool.Reads b (.bool b) := fun _ _ => rfl

theorem reads_natBelow {bound n : Nat} (h : n < bound) :
    (natBelow bound).Reads n (.number (.ofNat n)) := by
  intro room _
  simp [natBelow, Numeral.ofNat, Numeral.isInteger, h]

theorem mapM_map {γ : Type} {read : γ → Option α} {doc : β → γ} {value : β → α} {xs : List β}
    (h : ∀ b ∈ xs, read (doc b) = some (value b)) :
    (xs.map doc).mapM read = some (xs.map value) := by
  induction xs with
  | nil => rfl
  | cons b bs ih =>
    obtain ⟨hb, hbs⟩ := List.forall_mem_cons.1 h
    simp [List.mapM_cons, hb, ih hbs]

theorem reads_list {xs : List α} {doc : α → Document} (h : ∀ a ∈ xs, decoder.Reads a (doc a)) :
    (list decoder).Reads xs (.array (xs.map doc)) := by
  intro room hroom
  obtain ⟨inner, rfl, hitems⟩ := Document.nesting_array_le hroom
  have hread : ∀ a ∈ xs, decoder inner (doc a) = some (id a) := fun a ha =>
    h a ha inner (hitems _ (List.mem_map_of_mem ha))
  rw [list, mapM_map hread, List.map_id]

theorem members?_toList {read : Document → Option α} {doc : β → Document} {value : β → α}
    {m : NameMap β} (h : ∀ e ∈ m.toList, read (doc e.2) = some (value e.2)) :
    members? read (m.toList.map fun e => (some e.1, doc e.2)) =
      some (m.map fun _ b => value b) := by
  have hentries : (m.toList.map fun e => (some e.1, doc e.2)).mapM (member? read) =
      some (m.toList.map fun e => (e.1, value e.2)) :=
    mapM_map fun e he => by simp [member?, h e he]
  have hvalues := NameMap.From.toList_map (fun _ b => value b) m
  rw [members?, hentries, Option.map_some, ← hvalues, NameMap.ofList_toList]

/-- The values of a map are read back under their names, if each of them is. -/
theorem reads_names_map {m : NameMap β} {doc : β → Document} {value : β → α}
    (h : ∀ e ∈ m.toList, decoder.Reads (value e.2) (doc e.2)) :
    (names decoder).Reads (m.map fun _ b => value b)
      (.record (m.toList.map fun e => (e.1, doc e.2))) := by
  intro room hroom
  obtain ⟨inner, rfl, hmembers⟩ := Document.nesting_record_le hroom
  rw [Document.record, List.map_map]
  exact members?_toList fun e he => h e he inner (hmembers _ (List.mem_map_of_mem he))

theorem reads_names {m : NameMap α} {doc : α → Document}
    (h : ∀ e ∈ m.toList, decoder.Reads e.2 (doc e.2)) :
    (names decoder).Reads m (.record (m.toList.map fun e => (e.1, doc e.2))) := by
  have hread : (names decoder).Reads (m.map fun _ a => a) _ := reads_names_map h
  rwa [NameMap.From.map_id] at hread

theorem reads_variant {tag : String} {payload : Document}
    {value : String × Document × Nat → Option α} {a : α}
    (h : ∀ room, payload.nesting ≤ room → value (tag, payload, room) = some a) :
    Reads (fun room doc => (variant room doc).bind value) a (.record [(tag, payload)]) := by
  intro room hroom
  obtain ⟨inner, rfl, hmembers⟩ := Document.nesting_record_le hroom
  exact h inner (hmembers _ (List.mem_singleton_self _))

end Decoder

/-- The fields that have a value, in their order. -/
def present (fields : List (String × Option Document)) : List (String × Document) :=
  fields.filterMap fun f => f.2.map (f.1, ·)

section

variable {fields : List (String × Option Document)}

theorem present_cons (name : String) (doc? : Option Document) :
    present ((name, doc?) :: fields) = (doc?.map (name, ·)).toList ++ present fields := by
  cases doc? <;> rfl

theorem mem_of_mem_present {m : String × Document} (h : m ∈ present fields) :
    (m.1, some m.2) ∈ fields := by
  obtain ⟨⟨name, doc?⟩, hfield, heq⟩ := List.mem_filterMap.1 h
  obtain ⟨doc, rfl, rfl⟩ := Option.map_eq_some_iff.1 heq
  exact hfield

theorem mem_present {name : String} {doc : Document} (h : (name, some doc) ∈ fields) :
    (name, doc) ∈ present fields :=
  List.mem_filterMap.2 ⟨_, h, rfl⟩

theorem keys_present_sublist (fields : List (String × Option Document)) :
    ((present fields).map (·.1)).Sublist (fields.map (·.1)) := by
  induction fields with
  | nil => exact List.Sublist.slnil
  | cons f fields ih =>
    obtain ⟨name, doc?⟩ := f
    rw [present_cons]
    cases doc? with
    | none => exact ih.cons name
    | some doc => exact ih.cons_cons name

theorem find?_present (hnodup : (fields.map (·.1)).Nodup) (name : String) :
    ((present fields).find? (·.1 == name)).map (·.2) = (fields.lookup name).join := by
  induction fields with
  | nil => rfl
  | cons f fields ih =>
    obtain ⟨key, doc?⟩ := f
    rw [List.map_cons, List.nodup_cons] at hnodup
    rw [present_cons, List.lookup_cons]
    by_cases hkey : name = key
    · subst hkey
      cases doc? with
      | some doc => simp
      | none =>
        have hnone : (present fields).find? (·.1 == name) = none := by
          rw [List.find?_eq_none]
          intro m hm heq
          have hname := (keys_present_sublist fields).subset (List.mem_map_of_mem hm)
          exact hnodup.1 (beq_iff_eq.1 heq ▸ hname)
        simp [hnone]
    · have hne : (name == key) = false := beq_false_of_ne hkey
      rw [hne, ← ih hnodup.2]
      cases doc? <;> simp [Ne.symm hkey]

end

/-- What a record offers to the decoders of its fields. -/
def Fields.ofList (fields : List (String × Option Document)) (room : Nat) : Fields :=
  ⟨fun name => (fields.lookup name).join, room⟩

section

variable {α : Type} {fields : List (String × Option Document)} {names : List String} {room : Nat}

theorem Fields.decoder_present (hnodup : (fields.map (·.1)).Nodup) (names : List String)
    (room : Nat) :
    Fields.decoder names (room + 1) (.record (present fields)) = some (.ofList fields room) := by
  have hkeys : ((present fields).map (some ·.1)).Nodup := by
    have hinjective : Function.Injective (some : String → Option String) :=
      fun _ _ => Option.some.inj
    have hsome := (hnodup.sublist (keys_present_sublist fields)).map hinjective
    rwa [List.map_map] at hsome
  have hfind (name : String) : ((present fields).map fun m => (some m.1, m.2)).find?
      (·.1 == some name) = ((present fields).find? (·.1 == name)).map fun m => (some m.1, m.2) := by
    rw [List.find?_map]
    rfl
  simp only [decoder, Document.record, List.map_map, Function.comp_def]
  rw [if_pos]
  · simp only [hfind, Option.map_map, Function.comp_def, find?_present hnodup, ofList]
  · simp [List.nodup_iff_count_le_one.1 hkeys]

/-- There is room for every field that has a value. -/
def Fit (fields : List (String × Option Document)) (room : Nat) : Prop :=
  ∀ name doc, (name, some doc) ∈ fields → doc.nesting ≤ room

/-- A record is read back if its fields are, with one level of room less. -/
theorem Decoder.reads_record (names : List String) (hnames : fields.map (·.1) = names)
    (hnodup : names.Nodup) {value : Fields → Option α} {a : α}
    (h : ∀ room, Fit fields room → value (.ofList fields room) = some a) :
    Reads (fun room doc => (Fields.decoder names room doc).bind value) a
      (.record (present fields)) := by
  intro room hroom
  obtain ⟨inner, rfl, hmembers⟩ := Document.nesting_record_le hroom
  dsimp only
  rw [Fields.decoder_present (hnames ▸ hnodup), Option.bind_some]
  exact h inner fun name doc hf => hmembers _ (mem_present hf)

namespace Fields

variable {β : Type} {room : Nat} {name : String} {decoder : Decoder α}

theorem read_of_lookup (hfit : Fit fields room) {doc : Document} {a : α}
    (hlookup : fields.lookup name = some (some doc)) (h : decoder.Reads a doc) :
    decoder room doc = some a := by
  obtain ⟨before, behind, rfl, -⟩ := List.lookup_eq_some_iff.1 hlookup
  exact h room (hfit name doc (by simp))

theorem required_ofList (hfit : Fit fields room) (name : String) {doc : Document} {a : α}
    (h : decoder.Reads a doc) (hlookup : fields.lookup name = some (some doc)) :
    (ofList fields room).required name decoder = some a := by
  simp [required, ofList, hlookup, read_of_lookup hfit hlookup h]

/-- A field that is written if there is a value is read back as the value or as none. -/
theorem optional_ofList_map (hfit : Fit fields room) (name : String) {b? : Option β}
    {doc : β → Document} {value : β → α} (h : ∀ b ∈ b?, decoder.Reads (value b) (doc b))
    (hnull : ∀ b, doc b ≠ .null) (hlookup : fields.lookup name = some (b?.map doc)) :
    (ofList fields room).optional name decoder = some (b?.map value) := by
  cases b? with
  | none => simp [optional, defaulted, ofList, hlookup]
  | some b =>
    have hread := read_of_lookup hfit hlookup (h b rfl)
    have hoptional : decoder.optional room (doc b) = some (some (value b)) := by
      rw [Decoder.optional, hread]
      · rfl
      · exact hnull b
    simp [optional, defaulted, ofList, hlookup, hoptional]

theorem optional_ofList (hfit : Fit fields room) (name : String) {a? : Option α}
    {doc : α → Document} (h : ∀ a ∈ a?, decoder.Reads a (doc a)) (hnull : ∀ a, doc a ≠ .null)
    (hlookup : fields.lookup name = some (a?.map doc)) :
    (ofList fields room).optional name decoder = some a? := by
  have hread := optional_ofList_map hfit name h hnull hlookup
  rwa [Option.map_id'] at hread

theorem defaulted_of_written (hfit : Fit fields room) (name : String) {doc : Document} {a : α}
    (default : α) (h : decoder.Reads a doc) (hlookup : fields.lookup name = some (some doc)) :
    (ofList fields room).defaulted name decoder default = some a := by
  simp [defaulted, ofList, hlookup, read_of_lookup hfit hlookup h]

/-- A field that is written unless its value is the default is read back as the value. -/
theorem defaulted_ofList (hfit : Fit fields room) (name : String) {written : Bool} {doc : Document}
    {a default : α} (h : written = true → decoder.Reads a doc)
    (hdefault : written = false → default = a)
    (hlookup : fields.lookup name = some (if written then some doc else none)) :
    (ofList fields room).defaulted name decoder default = some a := by
  cases written with
  | false => simp [defaulted, ofList, hlookup, hdefault]
  | true => exact defaulted_of_written hfit name default (h rfl) hlookup

theorem defaulted_list (hfit : Fit fields room) (name : String) {xs : List α} {doc : Document}
    (h : (Decoder.list decoder).Reads xs doc)
    (hlookup : fields.lookup name = some (if !xs.isEmpty then some doc else none)) :
    (ofList fields room).defaulted name (Decoder.list decoder) [] = some xs := by
  refine defaulted_ofList hfit name (fun _ => h) (fun hempty => ?_) hlookup
  cases xs with
  | nil => rfl
  | cons => cases hempty

theorem defaulted_names (hfit : Fit fields room) (name : String) {m : NameMap α} {doc : Document}
    (h : (Decoder.names decoder).Reads m doc)
    (hlookup : fields.lookup name = some (if !m.isEmpty then some doc else none)) :
    (ofList fields room).defaulted name (Decoder.names decoder) ∅ = some m := by
  refine defaulted_ofList hfit name (fun _ => h) (fun hempty => ?_) hlookup
  cases m with
  | nil => rfl
  | cons => cases hempty

theorem defaulted_flag (hfit : Fit fields room) (name : String) (b : Bool)
    (hlookup : fields.lookup name = some (if b then some (.bool true) else none)) :
    (ofList fields room).defaulted name Decoder.bool false = some b := by
  have hread : b = true → Decoder.bool.Reads b (.bool true) := fun hb => hb ▸ Decoder.reads_bool b
  exact defaulted_ofList hfit name hread Eq.symm hlookup

theorem required_text (hfit : Fit fields room) (name s : String)
    (hlookup : fields.lookup name = some (some (.text s))) :
    (ofList fields room).required name Decoder.text = some s :=
  required_ofList hfit name (Decoder.reads_text s) hlookup

theorem optional_text (hfit : Fit fields room) (name : String) (s? : Option String)
    (hlookup : fields.lookup name = some (s?.map .text)) :
    (ofList fields room).optional name Decoder.text = some s? :=
  optional_ofList hfit name (fun s _ => Decoder.reads_text s) (fun _ => nofun) hlookup

end Fields

end

end TaskGraph.Json
