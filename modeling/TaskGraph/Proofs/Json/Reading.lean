import TaskGraph.Json.Reader
import TaskGraph.Proofs.Json.Lexing

/-!
# Reading back a document

The tokens of a document are read as the document, inside whatever is open and in front of whatever
follows. So both written forms of a document without fractions are read back, however deeply it
nests.
-/
namespace TaskGraph.Json

namespace Document

theorem exists_tokens_eq_cons (d : Document) :
    ∃ t ts, d.tokens = t :: ts ∧ t ≠ .closeArray := by
  cases d <;> exact ⟨_, _, rfl, nofun⟩

theorem itemTokens_cons_cons (d e : Document) (ds : List Document) :
    itemTokens (d :: e :: ds) = d.tokens ++ .comma :: itemTokens (e :: ds) := rfl

theorem exists_itemTokens_eq_cons (d : Document) (ds : List Document) :
    ∃ t ts, itemTokens (d :: ds) = t :: ts ∧ t ≠ .closeArray := by
  obtain ⟨t, ts, htokens, ht⟩ := d.exists_tokens_eq_cons
  cases ds with
  | nil => exact ⟨t, ts, htokens, ht⟩
  | cons e ds => exact ⟨t, _, by rw [itemTokens_cons_cons, htokens, List.cons_append], ht⟩

theorem exists_memberTokens_eq_cons (k : Literal) (d : Document) (ms : List (Literal × Document)) :
    ∃ ts, memberTokens ((k, d) :: ms) = .string k :: .colon :: ts := by
  cases ms <;> exact ⟨_, rfl⟩

end Document

theorem readValue_openArray (outer : List Opened) {t : Token} (h : t ≠ .closeArray)
    (ts : List Token) :
    readValue outer (.openArray :: t :: ts) = readValue (.array [] :: outer) (t :: ts) := by
  cases t <;> first | exact absurd rfl h | rfl

mutual

/-- The tokens of a document are read as the document. -/
theorem readValue_tokens (d : Document) (outer : List Opened) (ts : List Token) :
    readValue outer (d.tokens ++ ts) = readRest d outer ts := by
  match d with
  | .null => rfl
  | .bool b => rfl
  | .number n => rfl
  | .string s => rfl
  | .array [] => rfl
  | .array (d :: ds) =>
    have hitems := readValue_itemTokens (d :: ds) (List.cons_ne_nil d ds) [] outer ts
    obtain ⟨t, rest, htokens, ht⟩ := Document.exists_itemTokens_eq_cons d ds
    rw [htokens] at hitems
    rw [Document.tokens, htokens, List.cons_append, List.cons_append, List.cons_append,
      List.append_assoc, readValue_openArray outer ht]
    exact hitems
  | .object [] => rfl
  | .object ((k, d) :: ms) =>
    obtain ⟨rest, htokens⟩ := Document.exists_memberTokens_eq_cons k d ms
    have hmembers := readValue_memberTokens ((k, d) :: ms) htokens [] outer ts
    simp only [Document.tokens, htokens, List.cons_append, List.append_assoc]
    exact hmembers

/-- The tokens of the items that are left are read as the array. -/
theorem readValue_itemTokens (items : List Document) (hne : items ≠ []) (done : List Document)
    (outer : List Opened) (ts : List Token) :
    readValue (.array done :: outer) (Document.itemTokens items ++ .closeArray :: ts) =
      readRest (.array (done.reverse ++ items)) outer ts := by
  match items with
  | [d] => rw [Document.itemTokens, readValue_tokens d, readRest, List.reverse_cons]
  | d :: e :: ds =>
    have hrest := readValue_itemTokens (e :: ds) (List.cons_ne_nil e ds) (d :: done) outer ts
    rw [List.reverse_cons, List.append_assoc] at hrest
    rw [Document.itemTokens_cons_cons, List.append_assoc, readValue_tokens d]
    exact hrest

/-- The tokens of the members that are left, behind the first name, are read as the object. -/
theorem readValue_memberTokens (members : List (Literal × Document)) {k : Literal}
    {rest : List Token} (htokens : Document.memberTokens members = .string k :: .colon :: rest)
    (done : List (Literal × Document)) (outer : List Opened) (ts : List Token) :
    readValue (.object done k :: outer) (rest ++ .closeObject :: ts) =
      readRest (.object (done.reverse ++ members)) outer ts := by
  match members with
  | [(j, d)] =>
    cases htokens
    rw [readValue_tokens d, readRest, List.reverse_cons]
  | (j, d) :: (k', e) :: ms =>
    obtain ⟨rest', htokens'⟩ := Document.exists_memberTokens_eq_cons k' e ms
    have hrest := readValue_memberTokens ((k', e) :: ms) htokens' ((j, d) :: done) outer ts
    rw [List.reverse_cons, List.append_assoc] at hrest
    cases htokens
    rw [List.append_assoc, readValue_tokens d, htokens']
    exact hrest

end

/-- A text whose tokens are those of a document is read as the document. -/
theorem Document.read?_of_lex {text : String} {d : Document} (h : lex text.toList = some d.tokens) :
    read? text = some d := by
  have hread := readValue_tokens d [] []
  rw [List.append_nil] at hread
  rw [read?, h, Option.bind_some, hread]
  rfl

theorem Document.read?_compact {d : Document} (h : d.Plain) : read? d.compact = some d :=
  read?_of_lex (lex_compact h)

theorem Document.read?_indented {d : Document} (h : d.Plain) : read? d.indented = some d :=
  read?_of_lex (lex_indented h)

end TaskGraph.Json
