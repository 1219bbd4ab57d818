import Mathlib.Data.List.Basic
import TaskGraph.Json.Printer

/-!
# Reading back the tokens of a text

A text spells its tokens if it consists of their texts with blanks in between, and no number runs
into what follows it. Both written forms of a document spell its tokens, and a text that spells
tokens is read as them, as far as its numbers are integers and its strings denote texts.
-/
namespace TaskGraph

theorem ofDecimalDigits_decimalDigits (n : Nat) : ofDecimalDigits (decimalDigits n) = n :=
  Nat.ofDigitChars_ten_toDigits

theorem isDigit_of_mem_decimalDigits {n : Nat} {c : Char} (h : c ∈ decimalDigits n) : c.isDigit :=
  Nat.isDigit_of_mem_toDigits (by decide) (by decide) h

theorem decimalDigits_ne_nil (n : Nat) : decimalDigits n ≠ [] := Nat.toDigits_ne_nil

/-- Only zero is written with a zero in front. -/
theorem eq_zero_of_head?_decimalDigits {n : Nat} (h : (decimalDigits n).head? = some '0') :
    n = 0 := by
  induction n using Nat.strongRecOn with
  | ind n ih =>
    rw [decimalDigits] at h
    by_cases hn : n < 10
    · rw [Nat.toDigits_of_lt_base hn] at h
      have hzero : ∀ m < 10, [Nat.digitChar m].head? = some '0' → m = 0 := by decide
      exact hzero n hn h
    · have hten : 10 ≤ n := Nat.le_of_not_lt hn
      rw [Nat.toDigits_of_base_le (by decide) hten,
        List.head?_append_of_ne_nil _ Nat.toDigits_ne_nil] at h
      have := ih (n / 10) (by omega) h
      omega

namespace Json

/-- No number that is read before the text runs on into it. -/
def Stops (cs : List Char) : Prop :=
  ∀ c ∈ cs.head?, ¬ c.isDigit ∧ c ≠ '.' ∧ c ≠ 'e' ∧ c ≠ 'E'

theorem stops_nil : Stops [] := by
  intro c hc
  cases hc

theorem stops_cons {c : Char} {cs : List Char} :
    Stops (c :: cs) ↔ ¬ c.isDigit ∧ c ≠ '.' ∧ c ≠ 'e' ∧ c ≠ 'E' := by
  simp [Stops]

theorem scanDigits_decimalDigits (n : Nat) {rest : List Char} (h : Stops rest) :
    scanDigits (decimalDigits n ++ rest) = some (decimalDigits n, rest) := by
  have hdigits : ∀ c ∈ decimalDigits n, c.isDigit := fun c hc => isDigit_of_mem_decimalDigits hc
  have htake : rest.takeWhile Char.isDigit = [] := by
    cases rest with
    | nil => rfl
    | cons c cs => rw [List.takeWhile_cons_of_neg (stops_cons.1 h).1]
  have hdrop : rest.dropWhile Char.isDigit = rest := by
    cases rest with
    | nil => rfl
    | cons c cs => rw [List.dropWhile_cons_of_neg (stops_cons.1 h).1]
  rw [scanDigits, List.takeWhile_append_of_pos hdigits, List.dropWhile_append_of_pos hdigits, htake,
    hdrop, List.append_nil]
  split
  · exact absurd ‹_› (decimalDigits_ne_nil n)
  · rfl

theorem scanFraction_of_stops {rest : List Char} (h : Stops rest) :
    scanFraction rest = some ([], rest) := by
  cases rest with
  | nil => rfl
  | cons c cs =>
    have := (stops_cons.1 h).2.1
    simp [scanFraction, this]

theorem scanExponent_of_stops {rest : List Char} (h : Stops rest) :
    scanExponent rest = some (none, rest) := by
  cases rest with
  | nil => rfl
  | cons c cs =>
    obtain ⟨-, -, he, hE⟩ := stops_cons.1 h
    simp [scanExponent, he, hE]

theorem scanNumber_decimalDigits (negative : Bool) (n : Nat) {rest : List Char} (h : Stops rest) :
    scanNumber negative (decimalDigits n ++ rest) = some (⟨negative, n, [], none⟩, rest) := by
  have hlead : ¬ ((decimalDigits n).head? = some '0' ∧ 1 < (decimalDigits n).length) := by
    rintro ⟨hhead, hlength⟩
    obtain rfl := eq_zero_of_head?_decimalDigits hhead
    exact absurd hlength (by decide)
  simp only [scanNumber, scanDigits_decimalDigits n h, if_neg hlead, scanFraction_of_stops h,
    scanExponent_of_stops h, ofDecimalDigits_decimalDigits]

theorem unitOfHex?_of_lt : ∀ n < 32,
    unitOfHex? '0' '0' (Nat.digitChar (n / 16)) (Nat.digitChar (n % 16)) = some n := by
  decide

theorem scanString_escapeChar (done : List Nat) (c : Char) (rest : List Char) :
    scanString done (escapeChar c ++ rest) = scanString (c.toNat :: done) rest := by
  unfold escapeChar
  split
  case h_8 hquote hbackslash _ _ _ _ _ =>
    split
    · rename_i hcontrol
      simp only [List.cons_append, List.nil_append, scanString, unitOfHex?_of_lt _ hcontrol]
    · rename_i hprintable
      rw [List.singleton_append, scanString, if_neg hprintable]
      · exact hquote
      · exact fun _ _ _ _ _ heq _ => hbackslash heq
      · exact fun _ _ heq _ => hbackslash heq
  all_goals rfl

theorem scanString_escaped (done : List Nat) (cs rest : List Char) :
    scanString done (cs.flatMap escapeChar ++ '"' :: rest) =
      some (done.reverse ++ cs.map Char.toNat, rest) := by
  induction cs generalizing done with
  | nil => simp [scanString]
  | cons c cs ih =>
    rw [List.flatMap_cons, List.append_assoc, scanString_escapeChar, ih]
    simp

/-- No character is half of a surrogate pair. -/
theorem not_surrogate (c : Char) :
    isHighSurrogate c.toNat = false ∧ isLowSurrogate c.toNat = false := by
  have hvalid : c.toNat < 0xD800 ∨ 0xDFFF < c.toNat ∧ c.toNat < 0x110000 := c.valid
  simp only [isHighSurrogate, isLowSurrogate, Bool.and_eq_false_iff, decide_eq_false_iff_not]
  omega

theorem charsOfUnits_map_toNat (done cs : List Char) :
    charsOfUnits done (cs.map Char.toNat) = some (done.reverse ++ cs) := by
  induction cs generalizing done with
  | nil => simp [charsOfUnits]
  | cons c cs ih =>
    obtain ⟨hhigh, hlow⟩ := not_surrogate c
    cases cs with
    | nil => simp [charsOfUnits, hhigh, hlow]
    | cons d cs =>
      have := ih (c :: done)
      simp only [List.map_cons] at this
      simp [charsOfUnits, hhigh, hlow, this]

theorem literalOfUnits_map_toNat (s : String) :
    literalOfUnits (s.toList.map Char.toNat) = some s := by
  rw [literalOfUnits, charsOfUnits_map_toNat]
  simp

/-- The token is no string without a text, and no number other than an integer. -/
def Token.isPlain : Token → Bool
  | .number n => n.isInteger
  | .string s => s.isSome
  | _ => true

def Token.isNumber : Token → Bool
  | .number _ => true
  | _ => false

theorem scanToken_digit {c : Char} (h : c.isDigit) (cs : List Char) :
    scanToken c cs = (scanNumber false (c :: cs)).map fun (n, rest) => (.number n, rest) := by
  unfold scanToken
  split <;> first | exact absurd h (by decide) | rw [if_pos h]

theorem not_isJsonBlank_of_isDigit {c : Char} (h : c.isDigit) : ¬ isJsonBlank c := by
  intro hblank
  simp only [isJsonBlank, decide_eq_true_eq] at hblank
  rcases hblank with rfl | rfl | rfl | rfl <;> exact absurd h (by decide)

theorem scanToken_number {n : Numeral} (hn : n.isInteger) {rest : List Char} (hrest : Stops rest) :
    ∃ c cs, n.text ++ rest = c :: cs ∧ ¬ isJsonBlank c ∧
      scanToken c cs = some (.number n, rest) := by
  obtain ⟨negative, whole, fraction, exponent⟩ := n
  simp only [Numeral.isInteger, Bool.and_eq_true, List.isEmpty_iff, Option.isNone_iff_eq_none] at hn
  obtain ⟨rfl, rfl⟩ := hn
  have hscan := fun negative => scanNumber_decimalDigits negative whole hrest
  cases negative with
  | true =>
    refine ⟨'-', decimalDigits whole ++ rest, by simp [Numeral.text], by decide, ?_⟩
    simp [scanToken, hscan]
  | false =>
    obtain ⟨c, cs, hdigits⟩ := List.exists_cons_of_ne_nil (decimalDigits_ne_nil whole)
    have hc : c.isDigit := isDigit_of_mem_decimalDigits (hdigits ▸ List.mem_cons_self)
    have hscan := hscan false
    rw [hdigits, List.cons_append] at hscan
    refine ⟨c, cs ++ rest, by simp [Numeral.text, hdigits], not_isJsonBlank_of_isDigit hc, ?_⟩
    rw [scanToken_digit hc, hscan]
    rfl

/-- A token is read from its text, whatever follows it. -/
theorem scanToken_text {t : Token} (ht : t.isPlain) {rest : List Char}
    (hrest : t.isNumber → Stops rest) :
    ∃ c cs, t.text ++ rest = c :: cs ∧ ¬ isJsonBlank c ∧ scanToken c cs = some (t, rest) := by
  cases t with
  | string s =>
    obtain ⟨s, rfl⟩ := Option.isSome_iff_exists.1 ht
    have htext : (Token.string (some s)).text ++ rest =
        '"' :: (s.toList.flatMap escapeChar ++ '"' :: rest) := by
      simp [Token.text, quote]
    refine ⟨_, _, htext, by decide, ?_⟩
    simp [scanToken, scanString_escaped, literalOfUnits_map_toNat]
  | number n => exact scanToken_number ht (hrest rfl)
  | bool b => cases b <;> exact ⟨_, _, rfl, by decide, rfl⟩
  | _ => exact ⟨_, _, rfl, by decide, rfl⟩

/-- The text consists of the texts of the tokens, with blanks in between, and no number runs on into
what follows it. -/
inductive Spells : List Token → List Char → Prop
  | nil : Spells [] []
  | blank {ts : List Token} {cs : List Char} (c : Char) (blank : isJsonBlank c)
      (rest : Spells ts cs) : Spells ts (c :: cs)
  | token {ts : List Token} {cs : List Char} (t : Token) (stops : t.isNumber → Stops cs)
      (rest : Spells ts cs) : Spells (t :: ts) (t.text ++ cs)

theorem lexFrom_of_spells {ts : List Token} {cs : List Char} (h : Spells ts cs)
    (hplain : ∀ t ∈ ts, t.isPlain) (done : List Token) :
    lexFrom done cs = some (done.reverse ++ ts) := by
  induction h generalizing done with
  | nil => simp [lexFrom]
  | blank c hblank _ ih =>
    rw [lexFrom, if_pos hblank]
    exact ih hplain done
  | @token ts rest t hstops _ ih =>
    obtain ⟨ht, hts⟩ := List.forall_mem_cons.1 hplain
    obtain ⟨c, cs, htext, hblank, hscan⟩ := scanToken_text ht hstops
    rw [htext, lexFrom, if_neg hblank]
    split
    · rename_i hnone
      rw [hscan] at hnone
      cases hnone
    · rename_i t' rest' hsome
      rw [hscan, Option.some.injEq, Prod.mk.injEq] at hsome
      obtain ⟨rfl, rfl⟩ := hsome
      rw [ih hts]
      simp

/-- A text that spells some tokens is read as them. -/
theorem lex_of_spells {ts : List Token} {cs : List Char} (h : Spells ts cs)
    (hplain : ∀ t ∈ ts, t.isPlain) : lex cs = some ts :=
  lexFrom_of_spells h hplain []

theorem Spells.blanks {ts : List Token} {cs : List Char} (h : Spells ts cs) {blanks : List Char}
    (hblanks : ∀ c ∈ blanks, isJsonBlank c) : Spells ts (blanks ++ cs) := by
  induction blanks with
  | nil => exact h
  | cons c blanks ih =>
    obtain ⟨hc, hblanks⟩ := List.forall_mem_cons.1 hblanks
    exact .blank c hc (ih hblanks)

theorem Spells.newLine {ts : List Token} {cs : List Char} (h : Spells ts cs) (depth : Nat) :
    Spells ts (Document.newLine depth ++ cs) := by
  refine h.blanks fun c hc => ?_
  rcases List.mem_cons.1 hc with rfl | hc
  · rfl
  · rw [List.eq_of_mem_replicate hc]
    rfl

theorem stops_newLine (depth : Nat) (cs : List Char) : Stops (Document.newLine depth ++ cs) :=
  stops_cons.2 (by decide)

mutual

/-- The compact text of a document spells its tokens, in front of what follows. -/
theorem Document.spells_compact (d : Document) {ts : List Token} {cs : List Char}
    (h : Spells ts cs) (hstops : Stops cs) :
    Spells (d.tokens ++ ts) (d.tokens.flatMap Token.text ++ cs) := by
  match d with
  | .null => exact .token .null nofun h
  | .bool b => simpa [tokens] using Spells.token (.bool b) nofun h
  | .number n => simpa [tokens] using Spells.token (.number n) (fun _ => hstops) h
  | .string s => simpa [tokens] using Spells.token (.string s) nofun h
  | .array items =>
    have hclose := Spells.token .closeArray nofun h
    have hitems := spells_itemTokens items hclose (stops_cons.2 (by decide))
    simpa [tokens] using Spells.token .openArray nofun hitems
  | .object members =>
    have hclose := Spells.token .closeObject nofun h
    have hmembers := spells_memberTokens members hclose (stops_cons.2 (by decide))
    simpa [tokens] using Spells.token .openObject nofun hmembers

theorem Document.spells_itemTokens (items : List Document) {ts : List Token} {cs : List Char}
    (h : Spells ts cs) (hstops : Stops cs) :
    Spells (itemTokens items ++ ts) ((itemTokens items).flatMap Token.text ++ cs) := by
  match items with
  | [] => exact h
  | [d] => exact d.spells_compact h hstops
  | d :: e :: ds =>
    have hcomma := Spells.token .comma nofun (spells_itemTokens (e :: ds) h hstops)
    simpa [itemTokens] using d.spells_compact hcomma (stops_cons.2 (by decide))

theorem Document.spells_memberTokens (members : List (Literal × Document)) {ts : List Token}
    {cs : List Char} (h : Spells ts cs) (hstops : Stops cs) :
    Spells (memberTokens members ++ ts) ((memberTokens members).flatMap Token.text ++ cs) := by
  match members with
  | [] => exact h
  | [(k, d)] =>
    have hcolon := Spells.token .colon nofun (d.spells_compact h hstops)
    simpa [memberTokens] using Spells.token (.string k) nofun hcolon
  | (k, d) :: m :: ms =>
    have hcomma := Spells.token .comma nofun (spells_memberTokens (m :: ms) h hstops)
    have hd := d.spells_compact hcomma (stops_cons.2 (by decide))
    have hcolon := Spells.token .colon nofun hd
    simpa [memberTokens] using Spells.token (.string k) nofun hcolon

end

mutual

/-- The lines of a document spell its tokens, in front of what follows. -/
theorem Document.spells_indentedAt (d : Document) (depth : Nat) {ts : List Token} {cs : List Char}
    (h : Spells ts cs) (hstops : Stops cs) :
    Spells (d.tokens ++ ts) (d.indentedAt depth ++ cs) := by
  match d with
  | .null => exact .token .null nofun h
  | .bool b => simpa [tokens, indentedAt] using Spells.token (.bool b) nofun h
  | .number n =>
    simpa [tokens, indentedAt] using Spells.token (.number n) (fun _ => hstops) h
  | .string s => simpa [tokens, indentedAt] using Spells.token (.string s) nofun h
  | .array [] => exact .token .openArray nofun (.token .closeArray nofun h)
  | .object [] => exact .token .openObject nofun (.token .closeObject nofun h)
  | .array (d :: ds) =>
    have hclose := (Spells.token .closeArray nofun h).newLine depth
    have hitems := spells_indentedItems (d :: ds) (depth + 1) hclose (stops_newLine depth _)
    simpa [tokens, indentedAt, Token.text] using Spells.token .openArray nofun hitems
  | .object (m :: ms) =>
    have hclose := (Spells.token .closeObject nofun h).newLine depth
    have hmembers := spells_indentedMembers (m :: ms) (depth + 1) hclose (stops_newLine depth _)
    simpa [tokens, indentedAt, Token.text] using Spells.token .openObject nofun hmembers

theorem Document.spells_indentedItems (items : List Document) (depth : Nat) {ts : List Token}
    {cs : List Char} (h : Spells ts cs) (hstops : Stops cs) :
    Spells (itemTokens items ++ ts) (indentedItems depth items ++ cs) := by
  match items with
  | [] => exact h
  | [d] =>
    have hd := d.spells_indentedAt depth h hstops
    simpa [itemTokens, indentedItems] using hd.newLine depth
  | d :: e :: ds =>
    have hcomma := Spells.token .comma nofun (spells_indentedItems (e :: ds) depth h hstops)
    have hd := d.spells_indentedAt depth hcomma (stops_cons.2 (by decide))
    simpa [itemTokens, indentedItems, Token.text] using hd.newLine depth

theorem Document.spells_indentedMembers (members : List (Literal × Document)) (depth : Nat)
    {ts : List Token} {cs : List Char} (h : Spells ts cs) (hstops : Stops cs) :
    Spells (memberTokens members ++ ts) (indentedMembers depth members ++ cs) := by
  match members with
  | [] => exact h
  | [(k, d)] =>
    have hd := (d.spells_indentedAt depth h hstops).blank ' ' rfl
    have hcolon := Spells.token .colon nofun hd
    simpa [memberTokens, indentedMembers, Token.text] using
      (Spells.token (.string k) nofun hcolon).newLine depth
  | (k, d) :: m :: ms =>
    have hcomma := Spells.token .comma nofun (spells_indentedMembers (m :: ms) depth h hstops)
    have hd := (d.spells_indentedAt depth hcomma (stops_cons.2 (by decide))).blank ' ' rfl
    have hcolon := Spells.token .colon nofun hd
    simpa [memberTokens, indentedMembers, Token.text] using
      (Spells.token (.string k) nofun hcolon).newLine depth

end

/-- The document holds no string without a text, and no number other than an integer. -/
def Document.Plain (d : Document) : Prop := ∀ t ∈ d.tokens, t.isPlain

theorem lex_compact {d : Document} (h : d.Plain) : lex d.compact.toList = some d.tokens := by
  have hspells := d.spells_compact .nil stops_nil
  rw [List.append_nil, List.append_nil] at hspells
  rw [Document.compact, String.toList_ofList]
  exact lex_of_spells hspells h

theorem lex_indented {d : Document} (h : d.Plain) : lex d.indented.toList = some d.tokens := by
  have hspells := d.spells_indentedAt 0 .nil stops_nil
  rw [List.append_nil, List.append_nil] at hspells
  rw [Document.indented, String.toList_ofList]
  exact lex_of_spells hspells h

end Json

end TaskGraph
