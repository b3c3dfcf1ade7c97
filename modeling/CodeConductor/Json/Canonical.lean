import Mathlib.Data.List.Basic
import Mathlib.Data.List.Nodup
import Mathlib.Data.Nat.Digits.Defs
import Mathlib.Data.Set.Basic
import Mathlib.Tactic.IntervalCases

/-!
# Canonical JSON

The text `canonicalJson` writes for a JSON value: no blanks, and the members of an object in the
order of their keys. The text of a value is never the beginning of the text of another one that goes
on with a delimiter, so a text can be cut into those of its parts in one way only
(`splits_canonicalJson`). Hence objects with one text have, under every key, values with one text
(`JsonObject.map_get_eq`).

The order of the keys is a parameter. It need not tell distinct keys apart.
-/

namespace CodeConductor

/-- The characters of numbers and of the words `null`, `true` and `false`. -/
def isAtomChar (c : Char) : Bool := c.isAlphanum || c = '+' || c = '-' || c = '.'

/-- The decimal text of a number. -/
structure JsonNumber where
  text : List Char
  ne_nil : text ≠ []
  isAtomChar_of_mem : ∀ c ∈ text, isAtomChar c = true
  deriving DecidableEq

/-- A JSON value. -/
inductive JsonValue where
  | null
  | bool (value : Bool)
  | number (value : JsonNumber)
  | string (value : String)
  | array (items : List JsonValue)
  | object (members : List (String × JsonValue))

/-- A JSON object; no key occurs twice. -/
structure JsonObject where
  members : List (String × JsonValue)
  nodup : (members.map Prod.fst).Nodup

/-- The hexadecimal digit of a number below sixteen. -/
def hexDigit (n : ℕ) : Char := Char.ofNat (if n < 10 then 48 + n else 87 + n)

/-- What `JSON.stringify` writes for a character of a string. -/
def escapeChar (c : Char) : List Char :=
  if c = '"' then ['\\', '"']
  else if c = '\\' then ['\\', '\\']
  else if c.toNat = 8 then ['\\', 'b']
  else if c.toNat = 9 then ['\\', 't']
  else if c.toNat = 10 then ['\\', 'n']
  else if c.toNat = 12 then ['\\', 'f']
  else if c.toNat = 13 then ['\\', 'r']
  else if c.toNat < 32 then ['\\', 'u', '0', '0', hexDigit (c.toNat / 16), hexDigit (c.toNat % 16)]
  else [c]

/-- What `JSON.stringify` writes for a string. -/
def quoted (value : String) : List Char := '"' :: value.toList.flatMap escapeChar ++ ['"']

/-- `.join(",")`. -/
def commaJoin : List (List Char) → List Char
  | [] => []
  | word :: rest => word ++ rest.flatMap fun other ↦ ',' :: other

/-- The text of a member of an object. -/
def memberText (member : String × List Char) : List Char := quoted member.1 ++ ':' :: member.2

section

variable (keyLe : String → String → Bool)

mutual

/-- `canonicalJson`. -/
def canonicalJson : JsonValue → List Char
  | .null => ['n', 'u', 'l', 'l']
  | .bool true => ['t', 'r', 'u', 'e']
  | .bool false => ['f', 'a', 'l', 's', 'e']
  | .number value => value.text
  | .string value => quoted value
  | .array items => '[' :: commaJoin (canonicalItems items) ++ [']']
  | .object members => '{' :: commaJoin (((canonicalMembers members).mergeSort
      fun left right ↦ keyLe left.1 right.1).map memberText) ++ ['}']

/-- The texts of the items of an array. -/
def canonicalItems : List JsonValue → List (List Char)
  | [] => []
  | item :: rest => canonicalJson item :: canonicalItems rest

/-- The keys of an object with the texts of their values. -/
def canonicalMembers : List (String × JsonValue) → List (String × List Char)
  | [] => []
  | member :: rest => (member.1, canonicalJson member.2) :: canonicalMembers rest

end

theorem canonicalItems_eq (items : List JsonValue) :
    canonicalItems keyLe items = items.map (canonicalJson keyLe) := by
  induction items with
  | nil => rfl
  | cons item rest ih => rw [canonicalItems, ih, List.map_cons]

theorem canonicalMembers_eq (members : List (String × JsonValue)) :
    canonicalMembers keyLe members =
      members.map fun member ↦ (member.1, canonicalJson keyLe member.2) := by
  induction members with
  | nil => rfl
  | cons member rest ih => rw [canonicalMembers, ih, List.map_cons]

end

/-! ### Texts that can be cut off -/

/-- The characters that follow a value. -/
def isDelimiter (c : Char) : Bool := c = ',' || c = ']' || c = '}'

/-- What follows a value: nothing, or a text that begins with a delimiter. -/
def Delimited (text : List Char) : Prop := ∀ c ∈ text.head?, isDelimiter c = true

theorem Delimited.nil : Delimited [] := fun _ h ↦ nomatch h

theorem Delimited.cons {c : Char} (h : isDelimiter c = true) (text : List Char) :
    Delimited (c :: text) := by
  intro c' hc
  obtain rfl := Option.some.inj hc
  exact h

/-- The word can be cut off before a delimiter, whatever word of the language a text begins with. -/
def Splits (language : Set (List Char)) (word : List Char) : Prop :=
  ∀ other ∈ language, ∀ rest rest', Delimited rest → Delimited rest' →
    word ++ rest = other ++ rest' → word = other ∧ rest = rest'

/-- The word is not empty and does not begin with a delimiter. -/
def Opens (word : List Char) : Prop := ∃ c rest, word = c :: rest ∧ isDelimiter c = false

theorem delimited_flatMap (words : List (List Char)) {c : Char} (hc : isDelimiter c = true)
    (rest : List Char) : Delimited ((words.flatMap fun other ↦ ',' :: other) ++ c :: rest) := by
  cases words with
  | nil => exact .cons hc rest
  | cons word words => exact .cons rfl _

/-- Words after commas, up to a closing bracket, can be cut apart. -/
theorem flatMap_splits {language : Set (List Char)} {c : Char} (hc : isDelimiter c = true)
    (hcomma : c ≠ ',') {words : List (List Char)} (hwords : ∀ word ∈ words, Splits language word)
    {others : List (List Char)} (hothers : ∀ other ∈ others, other ∈ language)
    {rest rest' : List Char}
    (h : (words.flatMap fun word ↦ ',' :: word) ++ c :: rest =
      (others.flatMap fun other ↦ ',' :: other) ++ c :: rest') :
    words = others ∧ rest = rest' := by
  induction words generalizing others with
  | nil =>
    cases others with
    | nil => exact ⟨rfl, (List.cons.inj h).2⟩
    | cons other others => exact absurd (List.cons.inj h).1 hcomma
  | cons word words ih =>
    cases others with
    | nil => exact absurd (List.cons.inj h).1.symm hcomma
    | cons other others =>
      simp only [List.flatMap_cons, List.cons_append, List.append_assoc, List.cons.injEq,
        true_and] at h
      obtain ⟨hword, hrest⟩ := hwords word List.mem_cons_self other
        (hothers other List.mem_cons_self) _ _ (delimited_flatMap words hc rest)
        (delimited_flatMap others hc rest') h
      obtain ⟨hwords', hrest'⟩ := ih (fun w hw ↦ hwords w (List.mem_cons_of_mem _ hw))
        (fun w hw ↦ hothers w (List.mem_cons_of_mem _ hw)) hrest
      exact ⟨by rw [hword, hwords'], hrest'⟩

/-- Words between commas, up to a closing bracket, can be cut apart. -/
theorem commaJoin_splits {language : Set (List Char)} (hopens : ∀ word ∈ language, Opens word)
    {c : Char} (hc : isDelimiter c = true) (hcomma : c ≠ ',') {words : List (List Char)}
    (hmem : ∀ word ∈ words, word ∈ language) (hwords : ∀ word ∈ words, Splits language word)
    {others : List (List Char)} (hothers : ∀ other ∈ others, other ∈ language)
    {rest rest' : List Char} (h : commaJoin words ++ c :: rest = commaJoin others ++ c :: rest') :
    words = others ∧ rest = rest' := by
  -- A word cannot begin with the bracket that closes an empty list.
  have hclosed {word tail tail' : List Char} (hword : word ∈ language)
      (h : c :: tail = word ++ tail') : False := by
    obtain ⟨first, _, rfl, hfirst⟩ := hopens word hword
    rw [← (List.cons.inj h).1, hc] at hfirst
    exact Bool.noConfusion hfirst
  cases words with
  | nil =>
    cases others with
    | nil => exact ⟨rfl, (List.cons.inj h).2⟩
    | cons other others =>
      rw [commaJoin, commaJoin, List.append_assoc] at h
      exact (hclosed (hothers other List.mem_cons_self) h).elim
  | cons word words =>
    cases others with
    | nil =>
      rw [commaJoin, commaJoin, List.append_assoc] at h
      exact (hclosed (hmem word List.mem_cons_self) h.symm).elim
    | cons other others =>
      rw [commaJoin, commaJoin, List.append_assoc, List.append_assoc] at h
      obtain ⟨hword, hrest⟩ := hwords word List.mem_cons_self other
        (hothers other List.mem_cons_self) _ _ (delimited_flatMap words hc rest)
        (delimited_flatMap others hc rest') h
      obtain ⟨hwords', hrest'⟩ := flatMap_splits hc hcomma
        (fun w hw ↦ hwords w (List.mem_cons_of_mem _ hw))
        (fun w hw ↦ hothers w (List.mem_cons_of_mem _ hw)) hrest
      exact ⟨by rw [hword, hwords'], hrest'⟩

/-! ### Strings -/

/-- The character an escape begins with, and what follows it. -/
def unescapeChar : List Char → Option (Char × List Char)
  | '\\' :: '"' :: rest => some ('"', rest)
  | '\\' :: '\\' :: rest => some ('\\', rest)
  | '\\' :: 'b' :: rest => some (Char.ofNat 8, rest)
  | '\\' :: 't' :: rest => some (Char.ofNat 9, rest)
  | '\\' :: 'n' :: rest => some (Char.ofNat 10, rest)
  | '\\' :: 'f' :: rest => some (Char.ofNat 12, rest)
  | '\\' :: 'r' :: rest => some (Char.ofNat 13, rest)
  | '\\' :: 'u' :: '0' :: '0' :: high :: low :: rest =>
    let digit (c : Char) : ℕ := if c.toNat < 58 then c.toNat - 48 else c.toNat - 87
    some (Char.ofNat (16 * digit high + digit low), rest)
  | c :: rest => some (c, rest)
  | [] => none

theorem unescapeChar_escapeChar (c : Char) (rest : List Char) :
    unescapeChar (escapeChar c ++ rest) = some (c, rest) := by
  unfold escapeChar
  split_ifs with hquote hslash h8 h9 h10 h12 h13 hcontrol
  · rw [hquote]; rfl
  · rw [hslash]; rfl
  · rw [← Char.ofNat_toNat c, h8]; rfl
  · rw [← Char.ofNat_toNat c, h9]; rfl
  · rw [← Char.ofNat_toNat c, h10]; rfl
  · rw [← Char.ofNat_toNat c, h12]; rfl
  · rw [← Char.ofNat_toNat c, h13]; rfl
  · have hdigits : ∀ n < 32, unescapeChar
        (['\\', 'u', '0', '0', hexDigit (n / 16), hexDigit (n % 16)] ++ rest) =
          some (Char.ofNat n, rest) := by
      intro n hn
      interval_cases n <;> rfl
    rw [hdigits _ hcontrol, Char.ofNat_toNat]
  · rw [List.cons_append, List.nil_append, unescapeChar]
    all_goals
      intros
      exact hslash ‹_›

theorem head_escapeChar (c : Char) : ∃ first rest, escapeChar c = first :: rest ∧ first ≠ '"' := by
  unfold escapeChar
  split_ifs with hquote
  all_goals exact ⟨_, _, rfl, by first | decide | exact hquote⟩

/-- Escaped characters up to the closing quote can be read back. -/
theorem flatMap_escapeChar_splits {value other rest rest' : List Char}
    (h : value.flatMap escapeChar ++ '"' :: rest = other.flatMap escapeChar ++ '"' :: rest') :
    value = other ∧ rest = rest' := by
  have hclosed {c : Char} {tail tail' : List Char} (h : '"' :: tail = escapeChar c ++ tail') :
      False := by
    obtain ⟨first, _, hescape, hfirst⟩ := head_escapeChar c
    rw [hescape] at h
    exact hfirst (List.cons.inj h).1.symm
  induction value generalizing other with
  | nil =>
    cases other with
    | nil => exact ⟨rfl, (List.cons.inj h).2⟩
    | cons c other =>
      rw [List.flatMap_cons, List.append_assoc] at h
      exact (hclosed h).elim
  | cons c value ih =>
    cases other with
    | nil =>
      rw [List.flatMap_cons, List.append_assoc] at h
      exact (hclosed h.symm).elim
    | cons c' other =>
      rw [List.flatMap_cons, List.flatMap_cons, List.append_assoc, List.append_assoc] at h
      have hread := congrArg unescapeChar h
      rw [unescapeChar_escapeChar, unescapeChar_escapeChar] at hread
      obtain ⟨rfl, htail⟩ := Prod.mk.inj (Option.some.inj hread)
      obtain ⟨rfl, hrest⟩ := ih htail
      exact ⟨rfl, hrest⟩

/-- A quoted string can be cut off whatever follows. -/
theorem quoted_splits {value other : String} {rest rest' : List Char}
    (h : quoted value ++ rest = quoted other ++ rest') : value = other ∧ rest = rest' := by
  simp only [quoted, List.cons_append, List.append_assoc, List.cons.injEq, true_and,
    List.nil_append] at h
  obtain ⟨hvalue, hrest⟩ := flatMap_escapeChar_splits h
  exact ⟨String.toList_inj.1 hvalue, hrest⟩

theorem memberText_injective : Function.Injective memberText := by
  intro member other h
  obtain ⟨hkey, hvalue⟩ := quoted_splits h
  exact Prod.ext hkey (List.cons.inj hvalue).2

/-! ### Values -/

/-- The text of a number or of a word such as `null`. -/
def IsAtom (word : List Char) : Prop := word ≠ [] ∧ ∀ c ∈ word, isAtomChar c = true

theorem isAtom_of_all {word : List Char} (hne : word ≠ []) (h : word.all isAtomChar = true) :
    IsAtom word :=
  ⟨hne, List.all_eq_true.1 h⟩

/-- An atom can be cut off before a delimiter. -/
theorem IsAtom.eq_of_append {word other rest rest' : List Char} (hword : IsAtom word)
    (hother : IsAtom other) (hrest : Delimited rest) (hrest' : Delimited rest')
    (h : word ++ rest = other ++ rest') : word = other ∧ rest = rest' := by
  have htake {tail : List Char} (htail : Delimited tail) : tail.takeWhile isAtomChar = [] := by
    cases tail with
    | nil => rfl
    | cons c tail =>
      have hc : isDelimiter c = true := htail c rfl
      have hatom : isAtomChar c = false := by
        simp only [isDelimiter, Bool.or_eq_true, decide_eq_true_eq] at hc
        rcases hc with (rfl | rfl) | rfl <;> decide
      rw [List.takeWhile_cons, hatom]
      rfl
  have hwords := congrArg (List.takeWhile isAtomChar) h
  rw [List.takeWhile_append_of_pos hword.2, List.takeWhile_append_of_pos hother.2, htake hrest,
    htake hrest', List.append_nil, List.append_nil] at hwords
  subst hwords
  exact ⟨rfl, List.append_cancel_left h⟩

section

variable (keyLe : String → String → Bool)

/-- What the text of a value begins with. -/
inductive TextShape : List Char → Prop where
  | atom (word : List Char) (h : IsAtom word) : TextShape word
  | string (value : String) : TextShape (quoted value)
  | array (items : List JsonValue) :
    TextShape ('[' :: commaJoin (items.map (canonicalJson keyLe)) ++ [']'])
  | object (members : List (String × List Char))
    (h : ∀ member ∈ members, ∃ value, member.2 = canonicalJson keyLe value) :
    TextShape ('{' :: commaJoin (members.map memberText) ++ ['}'])

theorem textShape (value : JsonValue) : TextShape keyLe (canonicalJson keyLe value) := by
  cases value with
  | null =>
    rw [canonicalJson]
    exact .atom _ (isAtom_of_all nofun rfl)
  | bool value =>
    cases value <;> rw [canonicalJson] <;> exact .atom _ (isAtom_of_all nofun rfl)
  | number value =>
    rw [canonicalJson]
    exact .atom _ ⟨value.ne_nil, value.isAtomChar_of_mem⟩
  | string value =>
    rw [canonicalJson]
    exact .string value
  | array items =>
    rw [canonicalJson, canonicalItems_eq]
    exact .array items
  | object members =>
    rw [canonicalJson, canonicalMembers_eq]
    refine .object _ fun member hmem ↦ ?_
    obtain ⟨source, -, rfl⟩ := List.mem_map.1 (List.mem_mergeSort.1 hmem)
    exact ⟨source.2, rfl⟩

/-- The texts of values. -/
def valueTexts : Set (List Char) := Set.range (canonicalJson keyLe)

/-- The texts of members. -/
def memberTexts : Set (List Char) :=
  {word | ∃ key value, word = memberText (key, canonicalJson keyLe value)}

theorem opens_of_mem_valueTexts : ∀ word ∈ valueTexts keyLe, Opens word := by
  rintro word ⟨value, rfl⟩
  have hshape := textShape keyLe value
  generalize canonicalJson keyLe value = word at hshape ⊢
  cases hshape with
  | atom word h =>
    obtain ⟨c, rest, rfl⟩ := List.exists_cons_of_ne_nil h.1
    refine ⟨c, rest, rfl, ?_⟩
    have hc : isAtomChar c = true := h.2 c List.mem_cons_self
    by_contra hdelimiter
    simp only [isDelimiter, Bool.not_eq_false, Bool.or_eq_true, decide_eq_true_eq] at hdelimiter
    rcases hdelimiter with (rfl | rfl) | rfl <;> exact absurd hc (by decide)
  | string value => exact ⟨'"', _, rfl, rfl⟩
  | array items => exact ⟨'[', _, rfl, rfl⟩
  | object members h => exact ⟨'{', _, rfl, rfl⟩

theorem opens_of_mem_memberTexts : ∀ word ∈ memberTexts keyLe, Opens word := by
  rintro word ⟨key, value, rfl⟩
  exact ⟨'"', _, rfl, rfl⟩

theorem IsAtom.ne_cons {word : List Char} (hword : IsAtom word) {c : Char}
    (hc : isAtomChar c = false) {rest rest' : List Char} : word ++ rest ≠ c :: rest' := by
  intro h
  obtain ⟨first, tail, rfl⟩ := List.exists_cons_of_ne_nil hword.1
  have hfirst : isAtomChar first = true := hword.2 first List.mem_cons_self
  rw [(List.cons.inj h).1, hc] at hfirst
  exact Bool.noConfusion hfirst

theorem IsAtom.splits {word : List Char} (hword : IsAtom word) : Splits (valueTexts keyLe) word := by
  rintro other ⟨value, rfl⟩ rest rest' hrest hrest' h
  have hshape := textShape keyLe value
  generalize canonicalJson keyLe value = other at hshape h ⊢
  cases hshape with
  | atom other hother => exact hword.eq_of_append hother hrest hrest' h
  | string value => exact (hword.ne_cons rfl h).elim
  | array items => exact (hword.ne_cons rfl h).elim
  | object members _ => exact (hword.ne_cons rfl h).elim

theorem quoted_splits_values (text : String) : Splits (valueTexts keyLe) (quoted text) := by
  rintro other ⟨value, rfl⟩ rest rest' - - h
  have hshape := textShape keyLe value
  generalize canonicalJson keyLe value = other at hshape h ⊢
  cases hshape with
  | atom other hother => exact (hother.ne_cons rfl h.symm).elim
  | string value =>
    obtain ⟨rfl, hrest⟩ := quoted_splits h
    exact ⟨rfl, hrest⟩
  | array items => exact absurd (List.cons.inj h).1 (by decide)
  | object members _ => exact absurd (List.cons.inj h).1 (by decide)

theorem array_splits {items : List JsonValue}
    (hitems : ∀ word ∈ items.map (canonicalJson keyLe), Splits (valueTexts keyLe) word) :
    Splits (valueTexts keyLe) ('[' :: commaJoin (items.map (canonicalJson keyLe)) ++ [']']) := by
  have hmem (values : List JsonValue) :
      ∀ word ∈ values.map (canonicalJson keyLe), word ∈ valueTexts keyLe := by
    intro word hword
    obtain ⟨value, -, rfl⟩ := List.mem_map.1 hword
    exact ⟨value, rfl⟩
  rintro other ⟨value, rfl⟩ rest rest' - - h
  have hshape := textShape keyLe value
  generalize canonicalJson keyLe value = other at hshape h ⊢
  cases hshape with
  | atom other hother => exact (hother.ne_cons rfl h.symm).elim
  | string value => exact absurd (List.cons.inj h).1 (by decide)
  | array others =>
    simp only [List.cons_append, List.append_assoc, List.cons.injEq, true_and,
      List.nil_append] at h
    obtain ⟨hwords, hrest⟩ := commaJoin_splits (opens_of_mem_valueTexts keyLe) rfl (by decide)
      (hmem items) hitems (hmem others) h
    exact ⟨by rw [hwords], hrest⟩
  | object members _ => exact absurd (List.cons.inj h).1 (by decide)

/-- Members can be cut off if their values can. -/
theorem memberText_splits {member : String × List Char}
    (hmember : Splits (valueTexts keyLe) member.2) :
    Splits (memberTexts keyLe) (memberText member) := by
  rintro other ⟨key, value, rfl⟩ rest rest' hrest hrest' h
  rw [memberText, memberText, List.append_assoc, List.append_assoc] at h
  obtain ⟨hkey, htail⟩ := quoted_splits h
  obtain ⟨hvalue, hrests⟩ := hmember _ ⟨value, rfl⟩ rest rest' hrest hrest'
    (List.cons.inj htail).2
  exact ⟨by rw [memberText, memberText, hkey, hvalue], hrests⟩

theorem object_splits {members : List (String × List Char)}
    (hvalues : ∀ member ∈ members, ∃ value, member.2 = canonicalJson keyLe value)
    (hmembers : ∀ member ∈ members, Splits (valueTexts keyLe) member.2) :
    Splits (valueTexts keyLe) ('{' :: commaJoin (members.map memberText) ++ ['}']) := by
  have hmem {others : List (String × List Char)}
      (hothers : ∀ member ∈ others, ∃ value, member.2 = canonicalJson keyLe value) :
      ∀ word ∈ others.map memberText, word ∈ memberTexts keyLe := by
    intro word hword
    obtain ⟨member, hmember, rfl⟩ := List.mem_map.1 hword
    obtain ⟨value, hvalue⟩ := hothers member hmember
    exact ⟨member.1, value, by rw [← hvalue]⟩
  rintro other ⟨value, rfl⟩ rest rest' - - h
  have hshape := textShape keyLe value
  generalize canonicalJson keyLe value = other at hshape h ⊢
  cases hshape with
  | atom other hother => exact (hother.ne_cons rfl h.symm).elim
  | string value => exact absurd (List.cons.inj h).1 (by decide)
  | array items => exact absurd (List.cons.inj h).1 (by decide)
  | object others hothers =>
    simp only [List.cons_append, List.append_assoc, List.cons.injEq, true_and,
      List.nil_append] at h
    obtain ⟨hwords, hrest⟩ := commaJoin_splits (opens_of_mem_memberTexts keyLe) rfl (by decide)
      (hmem hvalues) (fun word hword ↦ by
        obtain ⟨member, hmember, rfl⟩ := List.mem_map.1 hword
        exact memberText_splits keyLe (hmembers member hmember)) (hmem hothers) h
    exact ⟨by rw [hwords], hrest⟩

mutual

/-- **The text of a value can be cut off** before a delimiter. -/
theorem splits_canonicalJson : ∀ value : JsonValue,
    Splits (valueTexts keyLe) (canonicalJson keyLe value)
  | .null => by
    rw [canonicalJson]
    exact IsAtom.splits keyLe (isAtom_of_all nofun rfl)
  | .bool true => by
    rw [canonicalJson]
    exact IsAtom.splits keyLe (isAtom_of_all nofun rfl)
  | .bool false => by
    rw [canonicalJson]
    exact IsAtom.splits keyLe (isAtom_of_all nofun rfl)
  | .number value => by
    rw [canonicalJson]
    exact IsAtom.splits keyLe ⟨value.ne_nil, value.isAtomChar_of_mem⟩
  | .string value => by
    rw [canonicalJson]
    exact quoted_splits_values keyLe value
  | .array items => by
    rw [canonicalJson, canonicalItems_eq]
    exact array_splits keyLe (splits_items items)
  | .object members => by
    rw [canonicalJson, canonicalMembers_eq]
    refine object_splits keyLe (fun member hmem ↦ ?_) fun member hmem ↦ ?_
    · obtain ⟨source, -, rfl⟩ := List.mem_map.1 (List.mem_mergeSort.1 hmem)
      exact ⟨source.2, rfl⟩
    · exact splits_members members member (List.mem_mergeSort.1 hmem)

theorem splits_items : ∀ items : List JsonValue,
    ∀ word ∈ items.map (canonicalJson keyLe), Splits (valueTexts keyLe) word
  | [], _, h => nomatch h
  | item :: rest, word, h => by
    rcases List.mem_cons.1 h with rfl | hrest
    · exact splits_canonicalJson item
    · exact splits_items rest word hrest

theorem splits_members : ∀ members : List (String × JsonValue),
    ∀ member ∈ members.map fun member ↦ (member.1, canonicalJson keyLe member.2),
      Splits (valueTexts keyLe) member.2
  | [], _, h => nomatch h
  | (key, value) :: rest, member, h => by
    rcases List.mem_cons.1 h with rfl | hrest
    · exact splits_canonicalJson value
    · exact splits_members rest member hrest

end

/-! ### Members of one text -/

/-- Objects of one text have the same members, as texts and in the order of their keys. -/
theorem sorted_of_canonicalJson_eq {members others : List (String × JsonValue)}
    (h : canonicalJson keyLe (.object members) = canonicalJson keyLe (.object others)) :
    ((members.map fun member ↦ (member.1, canonicalJson keyLe member.2)).mergeSort
        fun left right ↦ keyLe left.1 right.1) =
      (others.map fun member ↦ (member.1, canonicalJson keyLe member.2)).mergeSort
        fun left right ↦ keyLe left.1 right.1 := by
  rw [canonicalJson, canonicalJson, canonicalMembers_eq, canonicalMembers_eq] at h
  set texts := members.map fun member ↦ (member.1, canonicalJson keyLe member.2) with htexts
  set texts' := others.map fun member ↦ (member.1, canonicalJson keyLe member.2) with htexts'
  have hmem {source : List (String × JsonValue)} {words : List (String × List Char)}
      (hperm : words.Perm (source.map fun member ↦ (member.1, canonicalJson keyLe member.2))) :
      ∀ word ∈ words.map memberText, word ∈ memberTexts keyLe := by
    intro word hword
    obtain ⟨member, hmember, rfl⟩ := List.mem_map.1 hword
    obtain ⟨pair, -, rfl⟩ := List.mem_map.1 (hperm.mem_iff.1 hmember)
    exact ⟨pair.1, pair.2, rfl⟩
  have hperm := List.mergeSort_perm texts fun left right ↦ keyLe left.1 right.1
  have hperm' := List.mergeSort_perm texts' fun left right ↦ keyLe left.1 right.1
  have hwords := (commaJoin_splits (opens_of_mem_memberTexts keyLe) rfl (by decide) (hmem hperm)
    (fun word hword ↦ by
      obtain ⟨member, hmember, rfl⟩ := List.mem_map.1 hword
      exact memberText_splits keyLe
        (splits_members keyLe members member (hperm.mem_iff.1 hmember)))
    (hmem hperm') (List.cons.inj h).2).1
  exact List.map_injective_iff.2 memberText_injective hwords

/-- Objects of one text have the same members, as texts. -/
theorem perm_of_canonicalJson_eq {members others : List (String × JsonValue)}
    (h : canonicalJson keyLe (.object members) = canonicalJson keyLe (.object others)) :
    (members.map fun member ↦ (member.1, canonicalJson keyLe member.2)).Perm
      (others.map fun member ↦ (member.1, canonicalJson keyLe member.2)) := by
  have hsorted := sorted_of_canonicalJson_eq keyLe h
  exact (List.mergeSort_perm _ _).symm.trans
    ((List.Perm.of_eq hsorted).trans (List.mergeSort_perm _ _))

/-- Arrays of one text have items of the same texts. -/
theorem items_of_canonicalJson_eq {items others : List JsonValue}
    (h : canonicalJson keyLe (.array items) = canonicalJson keyLe (.array others)) :
    items.map (canonicalJson keyLe) = others.map (canonicalJson keyLe) := by
  rw [canonicalJson, canonicalJson, canonicalItems_eq, canonicalItems_eq] at h
  have hmem (values : List JsonValue) :
      ∀ word ∈ values.map (canonicalJson keyLe), word ∈ valueTexts keyLe := by
    intro word hword
    obtain ⟨value, -, rfl⟩ := List.mem_map.1 hword
    exact ⟨value, rfl⟩
  exact (commaJoin_splits (opens_of_mem_valueTexts keyLe) rfl (by decide) (hmem items)
    (splits_items keyLe items) (hmem others) (List.cons.inj h).2).1

theorem string_of_canonicalJson_eq {text : String} {value : JsonValue}
    (h : canonicalJson keyLe value = canonicalJson keyLe (.string text)) :
    value = .string text := by
  rw [canonicalJson.eq_def keyLe (.string text)] at h
  cases value with
  | null =>
    rw [canonicalJson] at h
    exact absurd (List.cons.inj h).1 (by decide)
  | bool value =>
    cases value <;> rw [canonicalJson] at h <;> exact absurd (List.cons.inj h).1 (by decide)
  | number value =>
    rw [canonicalJson] at h
    have hatom : IsAtom value.text := ⟨value.ne_nil, value.isAtomChar_of_mem⟩
    exact (hatom.ne_cons rfl ((List.append_nil _).trans h)).elim
  | string value =>
    rw [canonicalJson] at h
    obtain ⟨rfl, -⟩ := quoted_splits (congrArg (· ++ []) h)
    rfl
  | array items =>
    rw [canonicalJson] at h
    exact absurd (List.cons.inj h).1 (by decide)
  | object members =>
    rw [canonicalJson] at h
    exact absurd (List.cons.inj h).1 (by decide)

namespace JsonObject

variable (object : JsonObject)

/-- The object as a value. -/
def value : JsonValue := .object object.members

/-- The value of a member. -/
def get (key : String) : Option JsonValue :=
  (object.members.find? fun member ↦ member.1 = key).map Prod.snd

theorem get_eq_some_iff {key : String} {value : JsonValue} :
    object.get key = some value ↔ (key, value) ∈ object.members := by
  obtain ⟨members, nodup⟩ := object
  rw [get]
  dsimp only
  induction members with
  | nil => simp
  | cons member rest ih =>
    rw [List.map_cons, List.nodup_cons] at nodup
    by_cases hkey : member.1 = key
    · rw [List.find?_cons_of_pos (by simpa using hkey), Option.map_some, Option.some.injEq,
        List.mem_cons]
      constructor
      · intro h
        exact .inl (Prod.ext hkey.symm h.symm)
      · rintro (rfl | hrest)
        · rfl
        · exact absurd (List.mem_map_of_mem hrest) (hkey ▸ nodup.1)
    · rw [List.find?_cons_of_neg (by simpa using hkey), ih nodup.2, List.mem_cons,
        or_iff_right fun h ↦ hkey (congrArg Prod.fst h).symm]

/-- **Objects of one text have, under every key, values of one text.** -/
theorem map_get_eq {object other : JsonObject}
    (h : canonicalJson keyLe object.value = canonicalJson keyLe other.value) (key : String) :
    (object.get key).map (canonicalJson keyLe) = (other.get key).map (canonicalJson keyLe) := by
  have hperm := perm_of_canonicalJson_eq keyLe h
  have hiff (source : JsonObject) (text : List Char) :
      (source.get key).map (canonicalJson keyLe) = some text ↔ (key, text) ∈
        source.members.map fun member ↦ (member.1, canonicalJson keyLe member.2) := by
    rw [Option.map_eq_some_iff, List.mem_map]
    constructor
    · rintro ⟨value, hvalue, rfl⟩
      exact ⟨(key, value), (source.get_eq_some_iff).1 hvalue, rfl⟩
    · rintro ⟨⟨key', value⟩, hmem, heq⟩
      obtain ⟨rfl, rfl⟩ := Prod.mk.inj heq
      exact ⟨value, (source.get_eq_some_iff).2 hmem, rfl⟩
  refine Option.ext fun text ↦ ?_
  rw [hiff, hiff, hperm.mem_iff]

/-- The text of a member that is a string. -/
def string (key : String) : Option String :=
  match object.get key with
  | some (.string text) => some text
  | _ => none

/-- Objects of one text have the same strings. -/
theorem string_eq {object other : JsonObject}
    (h : canonicalJson keyLe object.value = canonicalJson keyLe other.value) (key : String) :
    object.string key = other.string key := by
  have hle (source target : JsonObject)
      (h : canonicalJson keyLe source.value = canonicalJson keyLe target.value) {text : String}
      (hsource : source.string key = some text) : target.string key = some text := by
    have hget := map_get_eq keyLe h key
    unfold string at hsource ⊢
    split at hsource
    · rename_i text' hvalue
      obtain rfl := Option.some.inj hsource
      rw [hvalue, Option.map_some] at hget
      obtain ⟨value, hother, htext⟩ := Option.map_eq_some_iff.1 hget.symm
      rw [hother, string_of_canonicalJson_eq keyLe htext]
    · exact nomatch hsource
  refine Option.ext fun text ↦ ?_
  exact ⟨hle object other h, hle other object h.symm⟩

end JsonObject

end

end CodeConductor
