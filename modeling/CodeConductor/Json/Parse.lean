import CodeConductor.Json.Canonical
import CodeConductor.Order.InsertionMap
import Mathlib

/-!
# Reading JSON

`JSON.parse` reads a text in two passes: a lexer cuts it into tokens, character by character, and a
parser builds the value from them with a stack of the arrays and objects that are open.

The lexer forgets blanks between tokens. So the lines `JSON.stringify(value, null, 2)` writes are read
back whatever blanks stand before each (`jsonParse_prettyLines`). A text that ends in a character no
token ends in is never read (`jsonParse_eq_none`).
-/

namespace CodeConductor

/-- The blanks of JSON. -/
def isJsonBlank (c : Char) : Bool := c = ' ' || c = '\t' || c = '\n' || c = '\r'

/-! ### Numerals -/

/-- A digit at least, and nothing but digits. -/
def isDigits (text : List Char) : Bool := text ≠ [] && text.all Char.isDigit

/-- A whole number without leading zeros. -/
def isWhole (text : List Char) : Bool := isDigits text && (text = ['0'] || text.head? ≠ some '0')

/-- The text without its sign. -/
def dropSign (signs : List Char) : List Char → List Char
  | [] => []
  | c :: rest => if c ∈ signs then rest else c :: rest

/-- The numbers of JSON. -/
def isNumeral (text : List Char) : Bool :=
  let unsigned := dropSign ['-'] text
  let mantissa := unsigned.takeWhile fun c ↦ c ≠ 'e' && c ≠ 'E'
  let exponent := unsigned.dropWhile fun c ↦ c ≠ 'e' && c ≠ 'E'
  let fraction := mantissa.dropWhile fun c ↦ c ≠ '.'
  isWhole (mantissa.takeWhile fun c ↦ c ≠ '.') &&
    (fraction = [] || isDigits fraction.tail) &&
    (exponent = [] || isDigits (dropSign ['+', '-'] exponent.tail))

/-! ### Tokens -/

/-- The characters that are tokens. -/
def isPunct (c : Char) : Bool := c ∈ ['[', ']', '{', '}', ',', ':']

/-- The tokens of JSON. -/
inductive JsonToken where
  | punct (c : Char)
  | text (value : String)
  | atom (value : JsonValue)

/-- The value of a word outside strings. A number is kept by its text. -/
def atomValue (word : List Char) : Option JsonValue :=
  if word = ['n', 'u', 'l', 'l'] then some .null
  else if word = ['t', 'r', 'u', 'e'] then some (.bool true)
  else if word = ['f', 'a', 'l', 's', 'e'] then some (.bool false)
  else if h : word ≠ [] ∧ ∀ c ∈ word, isAtomChar c = true then
    if isNumeral word then some (.number ⟨word, h.1, h.2⟩) else none
  else none

/-- What the lexer is in the middle of. -/
inductive LexState where
  | between
  | atom (word : List Char)
  | text (value : List Char)
  | escape (value : List Char)
  | hex (value : List Char) (digits : List ℕ)

/-- The character of an escape of one letter. -/
def unescape (c : Char) : Option Char :=
  if c = '"' ∨ c = '\\' ∨ c = '/' then some c
  else if c = 'b' then some (Char.ofNat 8)
  else if c = 't' then some (Char.ofNat 9)
  else if c = 'n' then some (Char.ofNat 10)
  else if c = 'f' then some (Char.ofNat 12)
  else if c = 'r' then some (Char.ofNat 13)
  else none

/-- The value of a hexadecimal digit. -/
def hexValue (c : Char) : Option ℕ :=
  if c.isDigit then some (c.toNat - 48)
  else if 'a' ≤ c ∧ c ≤ 'f' then some (c.toNat - 87)
  else if 'A' ≤ c ∧ c ≤ 'F' then some (c.toNat - 55)
  else none

/-- The character of a hexadecimal escape; half of a surrogate pair is none. -/
def hexChar (digits : List ℕ) : Option Char :=
  let code := digits.foldl (fun code digit ↦ 16 * code + digit) 0
  if 0xD800 ≤ code ∧ code ≤ 0xDFFF then none else some (Char.ofNat code)

/-- The lexer. -/
def lexFrom : LexState → List Char → Option (List JsonToken)
  | .between, [] => some []
  | .atom word, [] => (atomValue word).map fun value ↦ [.atom value]
  | .text _, [] => none
  | .escape _, [] => none
  | .hex _ _, [] => none
  | .between, c :: rest =>
    if isJsonBlank c then lexFrom .between rest
    else if isPunct c then (lexFrom .between rest).map (.punct c :: ·)
    else if c = '"' then lexFrom (.text []) rest
    else if isAtomChar c then lexFrom (.atom [c]) rest
    else none
  | .atom word, c :: rest =>
    if isAtomChar c then lexFrom (.atom (word ++ [c])) rest
    else
      (atomValue word).bind fun value ↦
        if isJsonBlank c then (lexFrom .between rest).map (.atom value :: ·)
        else if isPunct c then (lexFrom .between rest).map (.atom value :: .punct c :: ·)
        else none
  | .text value, c :: rest =>
    if c = '"' then (lexFrom .between rest).map (.text (.ofList value) :: ·)
    else if c = '\\' then lexFrom (.escape value) rest
    else if c.toNat < 32 then none
    else lexFrom (.text (value ++ [c])) rest
  | .escape value, c :: rest =>
    if c = 'u' then lexFrom (.hex value []) rest
    else
      match unescape c with
      | some c' => lexFrom (.text (value ++ [c'])) rest
      | none => none
  | .hex value digits, c :: rest =>
    match hexValue c with
    | none => none
    | some digit =>
      if digits.length = 3 then
        match hexChar (digits ++ [digit]) with
        | some c' => lexFrom (.text (value ++ [c'])) rest
        | none => none
      else lexFrom (.hex value (digits ++ [digit])) rest

attribute [grind =] lexFrom

/-! ### Values -/

/-- An array or object that is open, with what it has so far. -/
inductive JsonFrame where
  | array (items : List JsonValue)
  | object (members : List (String × JsonValue)) (key : String)

/-- What the parser waits for. -/
inductive ParseState where
  | value
  | key (members : List (String × JsonValue))
  | after (value : JsonValue)

/-- The parser. A key that occurs twice has its last value. -/
def parseFrom : ParseState → List JsonFrame → List JsonToken → Option JsonValue
  | .after value, [], [] => some value
  | .after value, .array items :: stack, .punct c :: rest =>
    if c = ',' then parseFrom .value (.array (items ++ [value]) :: stack) rest
    else if c = ']' then parseFrom (.after (.array (items ++ [value]))) stack rest
    else none
  | .after value, .object members key :: stack, .punct c :: rest =>
    if c = ',' then parseFrom (.key (InsertionMap.set members key value)) stack rest
    else if c = '}' then
      parseFrom (.after (.object (InsertionMap.set members key value))) stack rest
    else none
  | .key members, stack, .text key :: .punct c :: rest =>
    if c = ':' then parseFrom .value (.object members key :: stack) rest else none
  | .value, stack, .text value :: rest => parseFrom (.after (.string value)) stack rest
  | .value, stack, .atom value :: rest => parseFrom (.after value) stack rest
  | .value, stack, .punct c :: .punct c' :: rest =>
    if c = '[' ∧ c' = ']' then parseFrom (.after (.array [])) stack rest
    else if c = '{' ∧ c' = '}' then parseFrom (.after (.object [])) stack rest
    else if c = '[' then parseFrom .value (.array [] :: stack) (.punct c' :: rest)
    else none
  | .value, stack, .punct c :: rest =>
    if c = '[' then parseFrom .value (.array [] :: stack) rest
    else if c = '{' then parseFrom (.key []) stack rest
    else none
  | _, _, _ => none

attribute [grind =] parseFrom

/-- `JSON.parse`. -/
def jsonParse (text : List Char) : Option JsonValue :=
  (lexFrom .between text).bind (parseFrom .value [])

/-! ### What a text ends in -/

theorem isDigits_getLast? {text : List Char} (h : isDigits text = true) :
    ∃ c, text.getLast? = some c ∧ c.isDigit = true := by
  obtain ⟨hne, hall⟩ := Bool.and_eq_true_iff.1 h
  have hne' : text ≠ [] := of_decide_eq_true hne
  exact ⟨text.getLast hne', List.getLast?_eq_some_getLast hne',
    List.all_eq_true.1 hall _ (List.getLast_mem hne')⟩

theorem getLast?_of_suffix {text tail : List Char} (h : tail <:+ text) {c : Char}
    (hlast : tail.getLast? = some c) : text.getLast? = some c := by
  obtain ⟨lead, rfl⟩ := h
  rw [List.getLast?_append, hlast]
  rfl

theorem dropSign_suffix (signs text : List Char) : dropSign signs text <:+ text := by
  cases text with
  | nil => exact List.suffix_rfl
  | cons c rest =>
    rw [dropSign]
    split
    · exact List.suffix_cons c rest
    · exact List.suffix_rfl

/-- A number ends in a digit. -/
theorem isNumeral_getLast? {text : List Char} (h : isNumeral text = true) :
    ∃ c, text.getLast? = some c ∧ c.isDigit = true := by
  rw [isNumeral] at h
  obtain ⟨h, hexponent⟩ := Bool.and_eq_true_iff.1 h
  obtain ⟨hwhole, hfraction⟩ := Bool.and_eq_true_iff.1 h
  have hunsigned : dropSign ['-'] text <:+ text := dropSign_suffix _ _
  generalize dropSign ['-'] text = unsigned at *
  have hcut := List.takeWhile_append_dropWhile
    (p := fun c : Char ↦ decide (c ≠ 'e') && decide (c ≠ 'E')) (l := unsigned)
  generalize unsigned.takeWhile (fun c ↦ decide (c ≠ 'e') && decide (c ≠ 'E')) = mantissa at *
  generalize unsigned.dropWhile (fun c ↦ decide (c ≠ 'e') && decide (c ≠ 'E')) = exponent at *
  have hpoint := List.takeWhile_append_dropWhile (p := fun c : Char ↦ decide (c ≠ '.'))
    (l := mantissa)
  generalize mantissa.takeWhile (fun c ↦ decide (c ≠ '.')) = whole at *
  generalize mantissa.dropWhile (fun c ↦ decide (c ≠ '.')) = fraction at *
  have hend {tail : List Char} (htail : tail <:+ unsigned) (hdigits : isDigits tail = true) :
      ∃ c, text.getLast? = some c ∧ c.isDigit = true := by
    obtain ⟨c, hlast, hdigit⟩ := isDigits_getLast? hdigits
    exact ⟨c, getLast?_of_suffix (htail.trans hunsigned) hlast, hdigit⟩
  rcases Bool.or_eq_true_iff.1 hexponent with hnone | hdigits
  · obtain rfl : exponent = [] := of_decide_eq_true hnone
    rw [List.append_nil] at hcut
    subst hcut
    rcases Bool.or_eq_true_iff.1 hfraction with hnone | hdigits
    · obtain rfl : fraction = [] := of_decide_eq_true hnone
      rw [List.append_nil] at hpoint
      exact hend (hpoint ▸ List.suffix_rfl) (Bool.and_eq_true_iff.1 hwhole).1
    · refine hend ?_ hdigits
      exact (List.tail_suffix fraction).trans (hpoint ▸ List.suffix_append whole fraction)
  · refine hend ?_ hdigits
    exact (dropSign_suffix _ _).trans
      ((List.tail_suffix exponent).trans (hcut ▸ List.suffix_append mantissa exponent))

/-- The characters no token ends in, outside strings. -/
def isDangling (c : Char) : Bool := c = '/' || c = '#' || c = '-'

theorem atomValue_eq_none {word : List Char} : atomValue (word ++ ['-']) = none := by
  have hkeyword (keyword : List Char) (h : keyword.getLast? ≠ some '-') :
      word ++ ['-'] ≠ keyword := by
    rintro rfl
    exact h List.getLast?_concat
  have hnumeral : isNumeral (word ++ ['-']) = false := by
    cases h : isNumeral (word ++ ['-']) with
    | false => rfl
    | true =>
      obtain ⟨c, hlast, hdigit⟩ := isNumeral_getLast? h
      rw [List.getLast?_concat] at hlast
      obtain rfl := Option.some.inj hlast
      exact absurd hdigit (by decide)
  rw [atomValue, if_neg (hkeyword _ (by decide)), if_neg (hkeyword _ (by decide)),
    if_neg (hkeyword _ (by decide)), hnumeral]
  split <;> rfl

/-- A text that is read from no state is not read after a character either. -/
theorem lexFrom_cons_eq_none {text : List Char} (h : ∀ state, lexFrom state text = none) (c : Char) :
    ∀ state, lexFrom state (c :: text) = none := by
  intro state
  cases state with
  | between => simp [lexFrom, h]
  | atom word => simp [lexFrom, h]
  | text value => simp [lexFrom, h]
  | escape value =>
    rw [lexFrom, h]
    cases unescape c <;> simp [h]
  | hex value digits =>
    rw [lexFrom]
    cases hexValue c with
    | none => rfl
    | some digit =>
      cases hchar : hexChar (digits ++ [digit]) <;> simp [h, hchar]

theorem lexFrom_dangling {c : Char} (h : isDangling c = true) (text : List Char) :
    ∀ state, lexFrom state (text ++ [c]) = none := by
  induction text with
  | nil =>
    have hc : c = '/' ∨ c = '#' ∨ c = '-' := by simpa [isDangling, or_assoc] using h
    have hminus : atomValue ([] ++ ['-']) = none := atomValue_eq_none
    rw [List.nil_append] at hminus
    intro state
    cases state with
    | between =>
      rcases hc with rfl | rfl | rfl
      · rfl
      · rfl
      · show (atomValue ['-']).map (fun value ↦ [JsonToken.atom value]) = none
        rw [hminus]
        rfl
    | atom word =>
      have hbind (k : JsonValue → Option (List JsonToken)) (hk : ∀ value, k value = none) :
          (atomValue word).bind k = none := by
        cases atomValue word with
        | none => rfl
        | some value => exact hk value
      rcases hc with rfl | rfl | rfl
      · exact hbind _ fun _ ↦ rfl
      · exact hbind _ fun _ ↦ rfl
      · show (atomValue (word ++ ['-'])).map (fun value ↦ [JsonToken.atom value]) = none
        rw [atomValue_eq_none]
        rfl
    | text value => rcases hc with rfl | rfl | rfl <;> rfl
    | escape value => rcases hc with rfl | rfl | rfl <;> rfl
    | hex value digits => rcases hc with rfl | rfl | rfl <;> rfl
  | cons d text ih => exact lexFrom_cons_eq_none ih d

/-- **A text that ends in a character no token ends in** is not JSON. -/
theorem jsonParse_eq_none {c : Char} (h : isDangling c = true) (text : List Char) :
    jsonParse (text ++ [c]) = none := by
  rw [jsonParse, lexFrom_dangling h]
  rfl

/-! ### Tokens and the blanks between them -/

/-- What ends a word. -/
def isBreak (c : Char) : Bool := isJsonBlank c || isPunct c

theorem isAtomChar_of_isBreak {c : Char} (h : isBreak c = true) : isAtomChar c = false := by
  have hcases : c ∈ [' ', '\t', '\n', '\r', '[', ']', '{', '}', ',', ':'] := by
    simp only [isBreak, isJsonBlank, isPunct, Bool.or_eq_true, decide_eq_true_eq] at h
    simp only [List.mem_cons, List.not_mem_nil, or_false] at h ⊢
    tauto
  have hall : [' ', '\t', '\n', '\r', '[', ']', '\x7b', '\x7d', ',', ':'].all (!isAtomChar ·) = true := by
    decide
  have hnot := List.all_eq_true.1 hall c hcases
  rwa [Bool.not_eq_true'] at hnot

theorem lexFrom_atom_of_not {word : List Char} {c : Char} (h : isAtomChar c = false)
    (rest : List Char) :
    lexFrom (.atom word) (c :: rest) =
      (atomValue word).bind fun value ↦
        if isJsonBlank c then (lexFrom .between rest).map (.atom value :: ·)
        else if isPunct c then (lexFrom .between rest).map (.atom value :: .punct c :: ·)
        else none := by
  rw [lexFrom, if_neg (by rw [h]; decide)]

/-- Before a break a text is cut into its own tokens. -/
theorem lexFrom_append {text : List Char} {tokens : List JsonToken} {state : LexState}
    (h : lexFrom state text = some tokens) {c : Char} (hc : isBreak c = true) (rest : List Char) :
    lexFrom state (text ++ c :: rest) =
      (lexFrom .between (c :: rest)).map (tokens ++ ·) := by
  induction text generalizing state tokens with
  | nil =>
    cases state with
    | between =>
      obtain rfl := Option.some.inj h
      simp
    | atom word =>
      obtain ⟨value, hvalue, rfl⟩ := Option.map_eq_some_iff.1 h
      rw [List.nil_append, lexFrom_atom_of_not (isAtomChar_of_isBreak hc), hvalue, Option.bind_some,
        lexFrom]
      split
      · rfl
      · rename_i hblank
        have hpunct : isPunct c = true := (Bool.or_eq_true_iff.1 hc).resolve_left hblank
        rw [if_pos hpunct, if_pos hpunct, Option.map_map]
        rfl
    | text value => exact nomatch h
    | escape value => exact nomatch h
    | hex value digits => exact nomatch h
  | cons d text ih =>
    -- the lexer takes the same step, and what it has put out stands first
    have hmap {state : LexState} {f : List JsonToken → List JsonToken}
        (hf : ∀ tokens more, f (tokens ++ more) = f tokens ++ more)
        (h : (lexFrom state text).map f = some tokens) :
        (lexFrom state (text ++ c :: rest)).map f =
          (lexFrom .between (c :: rest)).map (tokens ++ ·) := by
      obtain ⟨others, hothers, rfl⟩ := Option.map_eq_some_iff.1 h
      rw [ih hothers, Option.map_map]
      exact congrArg (fun g ↦ Option.map g (lexFrom .between (c :: rest)))
        (funext fun more ↦ hf others more)
    rw [List.cons_append]
    cases state with
    | between =>
      rw [lexFrom] at h ⊢
      split at h <;> rename_i hblank
      · rw [if_pos hblank]
        exact ih h
      rw [if_neg hblank]
      split at h <;> rename_i hpunct
      · rw [if_pos hpunct]
        exact hmap (fun _ _ ↦ rfl) h
      rw [if_neg hpunct]
      split at h <;> rename_i hquote
      · rw [if_pos hquote]
        exact ih h
      rw [if_neg hquote]
      split at h <;> rename_i hatom
      · rw [if_pos hatom]
        exact ih h
      · exact nomatch h
    | atom word =>
      rw [lexFrom] at h ⊢
      split at h <;> rename_i hatom
      · rw [if_pos hatom]
        exact ih h
      rw [if_neg hatom]
      obtain ⟨value, hvalue, h⟩ := Option.bind_eq_some_iff.1 h
      rw [hvalue, Option.bind_some]
      split at h <;> rename_i hblank
      · rw [if_pos hblank]
        exact hmap (fun _ _ ↦ rfl) h
      rw [if_neg hblank]
      split at h <;> rename_i hpunct
      · rw [if_pos hpunct]
        exact hmap (fun _ _ ↦ rfl) h
      · exact nomatch h
    | text value =>
      rw [lexFrom] at h ⊢
      split at h <;> rename_i hquote
      · rw [if_pos hquote]
        exact hmap (fun _ _ ↦ rfl) h
      rw [if_neg hquote]
      split at h <;> rename_i hslash
      · rw [if_pos hslash]
        exact ih h
      rw [if_neg hslash]
      split at h <;> rename_i hcontrol
      · exact nomatch h
      · rw [if_neg hcontrol]
        exact ih h
    | escape value =>
      rw [lexFrom] at h ⊢
      split at h <;> rename_i hu
      · rw [if_pos hu]
        exact ih h
      rw [if_neg hu]
      cases hc' : unescape d with
      | none => simp [hc'] at h
      | some c' =>
        rw [hc'] at h
        exact ih h
    | hex value digits =>
      rw [lexFrom] at h ⊢
      cases hdigit : hexValue d with
      | none => simp [hdigit] at h
      | some digit =>
        rw [hdigit] at h
        dsimp only at h ⊢
        split at h <;> rename_i hlength
        · rw [if_pos hlength]
          cases hc' : hexChar (digits ++ [digit]) with
          | none => simp [hc'] at h
          | some c' =>
            rw [hc'] at h
            exact ih h
        · rw [if_neg hlength]
          exact ih h

theorem lexFrom_between_blanks {blanks : List Char} (h : blanks.all isJsonBlank = true)
    (text : List Char) : lexFrom .between (blanks ++ text) = lexFrom .between text := by
  induction blanks with
  | nil => rfl
  | cons c blanks ih =>
    obtain ⟨hc, hrest⟩ := Bool.and_eq_true_iff.1 h
    rw [List.cons_append, lexFrom, if_pos hc, ih hrest]

/-! ### The tokens of a value -/

/-- A character that is written in a string is read in it. -/
theorem lexFrom_escapeChar (value : List Char) (c : Char) (rest : List Char) :
    lexFrom (.text value) (escapeChar c ++ rest) = lexFrom (.text (value ++ [c])) rest := by
  rw [escapeChar]
  split_ifs with hquote hslash h8 h9 h10 h12 h13 hcontrol
  · rw [hquote]
    rfl
  · rw [hslash]
    rfl
  · rw [← Char.ofNat_toNat c, h8]
    rfl
  · rw [← Char.ofNat_toNat c, h9]
    rfl
  · rw [← Char.ofNat_toNat c, h10]
    rfl
  · rw [← Char.ofNat_toNat c, h12]
    rfl
  · rw [← Char.ofNat_toNat c, h13]
    rfl
  · have hdigits : ∀ n < 32, hexValue (hexDigit (n / 16)) = some (n / 16) ∧
        hexValue (hexDigit (n % 16)) = some (n % 16) ∧
        hexChar [0, 0, n / 16, n % 16] = some (Char.ofNat n) := by
      decide
    obtain ⟨hhigh, hlow, hchar⟩ := hdigits _ hcontrol
    rw [Char.ofNat_toNat] at hchar
    have hzero : hexValue '0' = some 0 := rfl
    simp [lexFrom, hzero, hhigh, hlow, hchar]
  · rw [List.singleton_append, lexFrom, if_neg hquote, if_neg hslash, if_neg hcontrol]

theorem lexFrom_text (value rest : List Char) (acc : List Char) :
    lexFrom (.text acc) (value.flatMap escapeChar ++ '"' :: rest) =
      (lexFrom .between rest).map (.text (.ofList (acc ++ value)) :: ·) := by
  induction value generalizing acc with
  | nil =>
    rw [List.flatMap_nil, List.nil_append, List.append_nil, lexFrom, if_pos rfl]
  | cons c value ih =>
    rw [List.flatMap_cons, List.append_assoc, lexFrom_escapeChar, ih, List.append_assoc,
      List.singleton_append]

/-- A string is one token. -/
theorem lexFrom_quoted (value : String) (rest : List Char) :
    lexFrom .between (quoted value ++ rest) =
      (lexFrom .between rest).map (.text value :: ·) := by
  have hquoted : quoted value ++ rest = '"' :: (value.toList.flatMap escapeChar ++ '"' :: rest) := by
    simp [quoted]
  rw [hquoted, lexFrom, if_neg (by decide), if_neg (by decide), if_pos rfl, lexFrom_text,
    List.nil_append, String.ofList_toList]

/-- A word is one token. -/
theorem lexFrom_word {word : List Char} (hne : word ≠ [])
    (hatom : ∀ c ∈ word, isAtomChar c = true) :
    lexFrom .between word = (atomValue word).map fun value ↦ [.atom value] := by
  have hrest (word : List Char) : ∀ rest : List Char, (∀ c ∈ rest, isAtomChar c = true) →
      lexFrom (.atom word) rest = (atomValue (word ++ rest)).map fun value ↦ [.atom value] := by
    intro rest
    induction rest generalizing word with
    | nil =>
      intro _
      rw [List.append_nil]
      rfl
    | cons c rest ih =>
      intro hrest
      rw [lexFrom, if_pos (hrest c List.mem_cons_self), ih _ fun d hd ↦ hrest d
        (List.mem_cons_of_mem _ hd), List.append_assoc, List.singleton_append]
  cases word with
  | nil => exact absurd rfl hne
  | cons c word =>
    have hc := hatom c List.mem_cons_self
    have hnot : isBreak c = false := by
      cases hbreak : isBreak c with
      | false => rfl
      | true => exact absurd hc (by rw [isAtomChar_of_isBreak hbreak]; decide)
    obtain ⟨hblank, hpunct⟩ := Bool.or_eq_false_iff.1 hnot
    have hquote : c ≠ '"' := by
      rintro rfl
      exact absurd hc (by decide)
    rw [lexFrom, if_neg (by rw [hblank]; decide), if_neg (by rw [hpunct]; decide), if_neg hquote,
      if_pos hc, hrest [c] word fun d hd ↦ hatom d (List.mem_cons_of_mem _ hd)]
    rfl

/-! ### Values with numbers -/

mutual

/-- A JSON value: its numbers are numbers, and no key of an object occurs twice. -/
def JsonValue.isJson : JsonValue → Bool
  | .null => true
  | .bool _ => true
  | .number value => isNumeral value.text
  | .string _ => true
  | .array items => itemsJson items
  | .object members => decide (members.map Prod.fst).Nodup && membersJson members

/-- `isJson`, of the items of an array. -/
def itemsJson : List JsonValue → Bool
  | [] => true
  | item :: rest => item.isJson && itemsJson rest

/-- `isJson`, of the members of an object. -/
def membersJson : List (String × JsonValue) → Bool
  | [] => true
  | member :: rest => member.2.isJson && membersJson rest

end

mutual

/-- The tokens of a value. -/
def valueTokens : JsonValue → List JsonToken
  | .null => [.atom .null]
  | .bool value => [.atom (.bool value)]
  | .number value => [.atom (.number value)]
  | .string value => [.text value]
  | .array items => .punct '[' :: itemTokens items ++ [.punct ']']
  | .object members => .punct '\x7b' :: memberTokens members ++ [.punct '\x7d']

/-- The tokens of the items of an array. -/
def itemTokens : List JsonValue → List JsonToken
  | [] => []
  | item :: rest =>
    valueTokens item ++ (if rest.isEmpty then [] else [.punct ',']) ++ itemTokens rest

/-- The tokens of the members of an object. -/
def memberTokens : List (String × JsonValue) → List JsonToken
  | [] => []
  | member :: rest =>
    .text member.1 :: .punct ':' :: valueTokens member.2 ++
      (if rest.isEmpty then [] else [.punct ',']) ++ memberTokens rest

end

/-- What the tokens of a value begin with. -/
theorem valueTokens_cons (value : JsonValue) :
    ∃ token rest, valueTokens value = token :: rest ∧ ∀ c, token = .punct c → c ≠ ']' := by
  cases value with
  | null => exact ⟨_, _, rfl, nofun⟩
  | bool value => exact ⟨_, _, rfl, nofun⟩
  | number value => exact ⟨_, _, rfl, nofun⟩
  | string value => exact ⟨_, _, rfl, nofun⟩
  | array items =>
    refine ⟨_, _, rfl, fun c h ↦ ?_⟩
    obtain rfl := JsonToken.punct.inj h
    decide
  | object members =>
    refine ⟨_, _, rfl, fun c h ↦ ?_⟩
    obtain rfl := JsonToken.punct.inj h
    decide

/-- After a bracket that is not closed at once, items follow. -/
theorem parseFrom_open {stack : List JsonFrame} {token : JsonToken} {rest : List JsonToken}
    (h : ∀ c, token = .punct c → c ≠ ']') :
    parseFrom .value stack (.punct '[' :: token :: rest) =
      parseFrom .value (.array [] :: stack) (token :: rest) := by
  cases token with
  | punct c =>
    have hc : c ≠ ']' := h c rfl
    rw [parseFrom, if_neg (fun h ↦ hc h.2), if_neg (fun h ↦ absurd h.1 (by decide)), if_pos rfl]
  | text value => rfl
  | atom value => rfl

theorem set_of_not_mem {members : List (String × JsonValue)} {key : String} (value : JsonValue)
    (h : key ∉ members.map Prod.fst) :
    InsertionMap.set members key value = members ++ [(key, value)] := by
  induction members with
  | nil => rfl
  | cons member rest ih =>
    rw [List.map_cons, List.mem_cons, not_or] at h
    rw [InsertionMap.set, if_neg (Ne.symm h.1), ih h.2, List.cons_append]

mutual

/-- **The parser reads a value** off its tokens. -/
theorem parseFrom_valueTokens : ∀ value : JsonValue, value.isJson = true →
    ∀ (stack : List JsonFrame) (rest : List JsonToken),
      parseFrom .value stack (valueTokens value ++ rest) = parseFrom (.after value) stack rest
  | .null => fun _ _ _ ↦ rfl
  | .bool _ => fun _ _ _ ↦ rfl
  | .number _ => fun _ _ _ ↦ rfl
  | .string _ => fun _ _ _ ↦ rfl
  | .array [] => fun _ _ _ ↦ rfl
  | .array (item :: items) => by
    intro h stack rest
    obtain ⟨token, more, htokens, htoken⟩ := valueTokens_cons item
    have hitems := parseFrom_itemTokens (item :: items) h nofun [] stack rest
    rw [itemTokens, htokens] at hitems
    rw [valueTokens, itemTokens, htokens]
    simp only [List.cons_append, List.append_assoc, List.nil_append] at hitems ⊢
    rw [parseFrom_open htoken]
    exact hitems
  | .object [] => fun _ _ _ ↦ rfl
  | .object (member :: members) => by
    intro h stack rest
    obtain ⟨hnodup, hmembers⟩ := Bool.and_eq_true_iff.1 h
    have hread := parseFrom_memberTokens (member :: members) hmembers nofun [] stack rest
      (of_decide_eq_true hnodup)
    rw [valueTokens]
    simp only [List.cons_append, List.append_assoc, List.nil_append] at hread ⊢
    rw [← hread]
    rfl

/-- The items of an array, after those that have been read. -/
theorem parseFrom_itemTokens : ∀ items : List JsonValue, itemsJson items = true → items ≠ [] →
    ∀ (done : List JsonValue) (stack : List JsonFrame) (rest : List JsonToken),
      parseFrom .value (.array done :: stack) (itemTokens items ++ [.punct ']'] ++ rest) =
        parseFrom (.after (.array (done ++ items))) stack rest
  | [] => fun _ hne ↦ absurd rfl hne
  | item :: items => by
    intro h _ done stack rest
    obtain ⟨hitem, hitems⟩ := Bool.and_eq_true_iff.1 h
    have hread := parseFrom_itemTokens items hitems
    rw [itemTokens]
    cases items with
    | nil =>
      simp only [itemTokens, List.isEmpty_nil, if_true, List.append_nil, List.append_assoc,
        List.singleton_append]
      rw [parseFrom_valueTokens item hitem]
      rfl
    | cons next items =>
      have hnext := hread nofun (done ++ [item]) stack rest
      simp only [List.isEmpty_cons, Bool.false_eq_true, if_false, List.append_assoc,
        List.singleton_append] at hnext ⊢
      rw [parseFrom_valueTokens item hitem]
      exact hnext

/-- The members of an object, after those that have been read. -/
theorem parseFrom_memberTokens : ∀ members : List (String × JsonValue),
    membersJson members = true → members ≠ [] →
    ∀ (done : List (String × JsonValue)) (stack : List JsonFrame) (rest : List JsonToken),
      ((done ++ members).map Prod.fst).Nodup →
      parseFrom (.key done) stack (memberTokens members ++ [.punct '\x7d'] ++ rest) =
        parseFrom (.after (.object (done ++ members))) stack rest
  | [] => fun _ hne ↦ absurd rfl hne
  | (key, value) :: members => by
    intro h _ done stack rest hnodup
    obtain ⟨hvalue, hmembers⟩ := Bool.and_eq_true_iff.1 h
    have hread := parseFrom_memberTokens members hmembers
    have hnew : key ∉ done.map Prod.fst := by
      rw [List.map_append, List.nodup_append] at hnodup
      exact fun hmem ↦ hnodup.2.2 key hmem key List.mem_cons_self rfl
    have hset := set_of_not_mem value hnew
    rw [memberTokens]
    cases members with
    | nil =>
      simp only [memberTokens, List.isEmpty_nil, if_true, List.append_nil, List.append_assoc,
        List.cons_append, List.nil_append]
      show parseFrom .value (.object done key :: stack) _ = _
      rw [parseFrom_valueTokens value hvalue, ← hset]
      rfl
    | cons next members =>
      have hnext := hread nofun (done ++ [(key, value)]) stack rest (by simpa using hnodup)
      simp only [List.isEmpty_cons, Bool.false_eq_true, if_false, List.append_assoc,
        List.cons_append, List.nil_append] at hnext ⊢
      show parseFrom .value (.object done key :: stack) _ = _
      rw [parseFrom_valueTokens value hvalue]
      show parseFrom (.key (InsertionMap.set done key value)) stack _ = _
      rw [hset]
      exact hnext

end

/-! ### Pretty-printed JSON -/

/-- A line of `JSON.stringify(value, null, 2)`: how far it is indented, and what it says. -/
structure JsonLine where
  depth : ℕ
  content : List Char

/-- The text of a line. -/
def JsonLine.text (line : JsonLine) : List Char :=
  List.replicate (2 * line.depth) ' ' ++ line.content

/-- A step further in. -/
def deeper (lines : List JsonLine) : List JsonLine :=
  lines.map fun line ↦ { line with depth := line.depth + 1 }

/-- With a comma at the end. -/
def withComma : List JsonLine → List JsonLine
  | [] => []
  | [line] => [{ line with content := line.content ++ [','] }]
  | line :: rest => line :: withComma rest

/-- After a key. -/
def withKey (key : String) : List JsonLine → List JsonLine
  | [] => []
  | line :: rest => { line with content := quoted key ++ ':' :: ' ' :: line.content } :: rest

mutual

/-- The lines of `JSON.stringify(value, null, 2)`. -/
def prettyLines : JsonValue → List JsonLine
  | .null => [⟨0, ['n', 'u', 'l', 'l']⟩]
  | .bool true => [⟨0, ['t', 'r', 'u', 'e']⟩]
  | .bool false => [⟨0, ['f', 'a', 'l', 's', 'e']⟩]
  | .number value => [⟨0, value.text⟩]
  | .string value => [⟨0, quoted value⟩]
  | .array items =>
    if items.isEmpty then [⟨0, ['[', ']']⟩]
    else ⟨0, ['[']⟩ :: deeper (prettyItems items) ++ [⟨0, [']']⟩]
  | .object members =>
    if members.isEmpty then [⟨0, ['\x7b', '\x7d']⟩]
    else ⟨0, ['\x7b']⟩ :: deeper (prettyMembers members) ++ [⟨0, ['\x7d']⟩]

/-- The lines of the items of an array. -/
def prettyItems : List JsonValue → List JsonLine
  | [] => []
  | item :: rest =>
    (if rest.isEmpty then prettyLines item else withComma (prettyLines item)) ++ prettyItems rest

/-- The lines of the members of an object. -/
def prettyMembers : List (String × JsonValue) → List JsonLine
  | [] => []
  | member :: rest =>
    (if rest.isEmpty then withKey member.1 (prettyLines member.2)
      else withComma (withKey member.1 (prettyLines member.2))) ++ prettyMembers rest

end

/-- The tokens of lines. -/
def lexLines : List JsonLine → Option (List JsonToken)
  | [] => some []
  | line :: rest =>
    (lexFrom .between line.content).bind fun tokens ↦ (lexLines rest).map (tokens ++ ·)

theorem lexLines_append (lines more : List JsonLine) :
    lexLines (lines ++ more) =
      (lexLines lines).bind fun tokens ↦ (lexLines more).map (tokens ++ ·) := by
  induction lines with
  | nil => simp [lexLines]
  | cons line rest ih =>
    rw [List.cons_append, lexLines, lexLines, ih]
    cases lexFrom .between line.content <;> cases lexLines rest <;> cases lexLines more <;>
      simp

theorem lexLines_deeper (lines : List JsonLine) : lexLines (deeper lines) = lexLines lines := by
  induction lines with
  | nil => rfl
  | cons line rest ih =>
    rw [deeper, List.map_cons, lexLines, lexLines, ← deeper, ih]

theorem lexFrom_comma {text : List Char} {tokens : List JsonToken}
    (h : lexFrom .between text = some tokens) :
    lexFrom .between (text ++ [',']) = some (tokens ++ [.punct ',']) := by
  rw [lexFrom_append h (by decide) []]
  rfl

theorem lexLines_withComma {lines : List JsonLine} (hne : lines ≠ []) {tokens : List JsonToken}
    (h : lexLines lines = some tokens) :
    lexLines (withComma lines) = some (tokens ++ [.punct ',']) := by
  induction lines generalizing tokens with
  | nil => exact absurd rfl hne
  | cons line rest ih =>
    obtain ⟨first, hfirst, h⟩ := Option.bind_eq_some_iff.1 h
    obtain ⟨others, hothers, rfl⟩ := Option.map_eq_some_iff.1 h
    cases rest with
    | nil =>
      obtain rfl := Option.some.inj hothers
      rw [withComma, lexLines, lexFrom_comma hfirst]
      simp [lexLines]
    | cons next rest =>
      rw [withComma, lexLines, hfirst, ih nofun hothers]
      · simp
      · exact nofun

theorem lexLines_withKey (key : String) {lines : List JsonLine} (hne : lines ≠ [])
    {tokens : List JsonToken} (h : lexLines lines = some tokens) :
    lexLines (withKey key lines) = some (.text key :: .punct ':' :: tokens) := by
  cases lines with
  | nil => exact absurd rfl hne
  | cons line rest =>
    obtain ⟨first, hfirst, h⟩ := Option.bind_eq_some_iff.1 h
    obtain ⟨others, hothers, rfl⟩ := Option.map_eq_some_iff.1 h
    have hcontent : lexFrom .between (quoted key ++ ':' :: ' ' :: line.content) =
        some (.text key :: .punct ':' :: first) := by
      rw [lexFrom_quoted]
      show (((lexFrom .between line.content).map (.punct ':' :: ·)).map _) = _
      rw [hfirst]
      rfl
    rw [withKey, lexLines, hcontent, hothers]
    rfl

theorem prettyLines_ne_nil (value : JsonValue) : prettyLines value ≠ [] := by
  cases value with
  | bool value => cases value <;> exact nofun
  | array items =>
    rw [prettyLines]
    split <;> exact nofun
  | object members =>
    rw [prettyLines]
    split <;> exact nofun
  | null => exact nofun
  | number value => exact nofun
  | string value => exact nofun

theorem withKey_ne_nil (key : String) {lines : List JsonLine} (h : lines ≠ []) :
    withKey key lines ≠ [] := by
  cases lines with
  | nil => exact absurd rfl h
  | cons line rest => exact nofun

theorem lexFrom_number {value : JsonNumber} (h : isNumeral value.text = true) :
    lexFrom .between value.text = some [.atom (.number value)] := by
  have hword (word : List Char) (hnot : isNumeral word = false) : value.text ≠ word := by
    rintro rfl
    exact absurd h (by rw [hnot]; decide)
  have hatom : value.text ≠ [] ∧ ∀ c ∈ value.text, isAtomChar c = true :=
    ⟨value.ne_nil, value.isAtomChar_of_mem⟩
  rw [lexFrom_word value.ne_nil value.isAtomChar_of_mem, atomValue, if_neg (hword _ (by decide)),
    if_neg (hword _ (by decide)), if_neg (hword _ (by decide)), dif_pos hatom, if_pos h]
  rfl

mutual

/-- The lines of a value have its tokens. -/
theorem lexLines_prettyLines : ∀ value : JsonValue, value.isJson = true →
    lexLines (prettyLines value) = some (valueTokens value)
  | .null => fun _ ↦ rfl
  | .bool true => fun _ ↦ rfl
  | .bool false => fun _ ↦ rfl
  | .number value => by
    intro h
    rw [prettyLines, lexLines, lexFrom_number h]
    rfl
  | .string value => by
    intro _
    have hquoted := lexFrom_quoted value []
    rw [List.append_nil] at hquoted
    rw [prettyLines, lexLines, hquoted]
    rfl
  | .array items => by
    intro h
    have hitems := lexLines_prettyItems items h
    rw [prettyLines, valueTokens]
    cases items with
    | nil => rfl
    | cons item items =>
      rw [List.isEmpty_cons, if_neg (by decide), lexLines_append, lexLines, lexLines_deeper, hitems]
      rfl
  | .object members => by
    intro h
    have hmembers := lexLines_prettyMembers members (Bool.and_eq_true_iff.1 h).2
    rw [prettyLines, valueTokens]
    cases members with
    | nil => rfl
    | cons member members =>
      rw [List.isEmpty_cons, if_neg (by decide), lexLines_append, lexLines, lexLines_deeper, hmembers]
      rfl

theorem lexLines_prettyItems : ∀ items : List JsonValue, itemsJson items = true →
    lexLines (prettyItems items) = some (itemTokens items)
  | [] => fun _ ↦ rfl
  | item :: rest => by
    intro h
    obtain ⟨hitem, hrest⟩ := Bool.and_eq_true_iff.1 h
    have hfirst := lexLines_prettyLines item hitem
    have hothers := lexLines_prettyItems rest hrest
    rw [prettyItems, itemTokens, lexLines_append, hothers]
    split
    · rw [hfirst, List.append_nil]
      rfl
    · rw [lexLines_withComma (prettyLines_ne_nil item) hfirst]
      rfl

theorem lexLines_prettyMembers : ∀ members : List (String × JsonValue), membersJson members = true →
    lexLines (prettyMembers members) = some (memberTokens members)
  | [] => fun _ ↦ rfl
  | (key, value) :: rest => by
    intro h
    obtain ⟨hvalue, hrest⟩ := Bool.and_eq_true_iff.1 h
    have hfirst := lexLines_withKey key (prettyLines_ne_nil value) (lexLines_prettyLines value hvalue)
    have hothers := lexLines_prettyMembers rest hrest
    rw [prettyMembers, memberTokens, lexLines_append, hothers]
    split
    · rw [hfirst, List.append_nil]
      rfl
    · rw [lexLines_withComma (withKey_ne_nil key (prettyLines_ne_nil value)) hfirst]
      rfl

end

/-- **Lines are read back** whatever blanks stand before each but the first. -/
theorem lexFrom_lines {blanks : JsonLine → List Char} {line : JsonLine} {rest : List JsonLine}
    (hblanks : ∀ line ∈ rest, (blanks line).all isJsonBlank = true) {tokens : List JsonToken}
    (h : lexLines (line :: rest) = some tokens) :
    lexFrom .between (line.content ++ rest.flatMap fun line ↦ '\n' :: (blanks line ++ line.content)) =
      some tokens := by
  induction rest generalizing line tokens with
  | nil =>
    obtain ⟨first, hfirst, h⟩ := Option.bind_eq_some_iff.1 h
    obtain ⟨others, hothers, rfl⟩ := Option.map_eq_some_iff.1 h
    obtain rfl := Option.some.inj hothers
    rw [List.flatMap_nil, List.append_nil, List.append_nil, hfirst]
  | cons next rest ih =>
    obtain ⟨first, hfirst, h⟩ := Option.bind_eq_some_iff.1 h
    obtain ⟨others, hothers, rfl⟩ := Option.map_eq_some_iff.1 h
    have hrest := ih (fun line hline ↦ hblanks line (List.mem_cons_of_mem _ hline)) hothers
    rw [List.flatMap_cons, List.cons_append, lexFrom_append hfirst (by decide)]
    have hnewline (text : List Char) :
        lexFrom .between ('\n' :: text) = lexFrom .between text := rfl
    rw [hnewline, List.append_assoc, lexFrom_between_blanks (hblanks next List.mem_cons_self), hrest]
    rfl

/-- **JSON.parse undoes JSON.stringify**, whatever blanks stand before the lines. -/
theorem jsonParse_prettyLines {value : JsonValue} (hjson : value.isJson = true)
    {blanks : JsonLine → List Char} {line : JsonLine} {rest : List JsonLine}
    (hlines : prettyLines value = line :: rest)
    (hblanks : ∀ line ∈ rest, (blanks line).all isJsonBlank = true) :
    jsonParse (line.content ++ rest.flatMap fun line ↦ '\n' :: (blanks line ++ line.content)) =
      some value := by
  have htokens := lexLines_prettyLines value hjson
  rw [hlines] at htokens
  have hparse := parseFrom_valueTokens value hjson [] []
  rw [List.append_nil] at hparse
  rw [jsonParse, lexFrom_lines hblanks htokens, Option.bind_some, hparse]
  rfl

/-! ### What the lines look like -/

/-- The characters a line of JSON may begin or end with. -/
def isEdge (c : Char) : Bool := c = '"' || isPunct c || isAtomChar c

/-- A line begins and ends in a token, and has no line break and no beginning of a comment; a line with
an `@` begins with a string. -/
structure IsJsonLine (content : List Char) : Prop where
  head : ∃ c rest, content = c :: rest ∧ isEdge c = true
  last : ∃ lead c, content = lead ++ [c] ∧ isEdge c = true
  oneLine : '\n' ∉ content
  quotes : '@' ∈ content → content.head? = some '"'
  noDashes : ¬['-', '-'] <+: content

theorem escapeChar_oneLine (c : Char) : '\n' ∉ escapeChar c := by
  rw [escapeChar]
  split_ifs with hquote hslash h8 h9 h10 h12 h13 hcontrol
  · decide
  · decide
  · decide
  · decide
  · decide
  · decide
  · decide
  · have hdigits : ∀ n < 32, '\n' ∉ ['\\', 'u', '0', '0', hexDigit (n / 16), hexDigit (n % 16)] := by
      decide
    exact hdigits _ hcontrol
  · intro h
    rw [← List.mem_singleton.1 h] at hcontrol
    exact hcontrol (by decide)

theorem quoted_eq (value : String) :
    quoted value = '"' :: (value.toList.flatMap escapeChar ++ ['"']) := rfl

theorem quoted_oneLine (value : String) : '\n' ∉ quoted value := by
  rw [quoted_eq, List.mem_cons, List.mem_append, List.mem_flatMap]
  rintro (h | ⟨c, -, h⟩ | h)
  · exact absurd h (by decide)
  · exact escapeChar_oneLine c h
  · exact absurd h (by decide)

theorem isJsonLine_quoted (value : String) : IsJsonLine (quoted value) where
  head := ⟨_, _, rfl, rfl⟩
  last := ⟨'"' :: value.toList.flatMap escapeChar, '"', rfl, rfl⟩
  oneLine := quoted_oneLine value
  quotes _ := rfl
  noDashes h := by
    rw [quoted_eq, List.cons_prefix_cons] at h
    exact absurd h.1 (by decide)

theorem isJsonLine_number {value : JsonNumber} (h : isNumeral value.text = true) :
    IsJsonLine value.text := by
  obtain ⟨c, rest, hhead⟩ := List.exists_cons_of_ne_nil value.ne_nil
  have hedge {d : Char} (hd : d ∈ value.text) : isEdge d = true := by
    rw [isEdge, value.isAtomChar_of_mem d hd, Bool.or_true]
  have hatom {d : Char} (hd : isAtomChar d = false) : d ∉ value.text := fun hmem ↦
    absurd (value.isAtomChar_of_mem d hmem) (by rw [hd]; decide)
  refine ⟨⟨c, rest, hhead, hedge (hhead ▸ List.mem_cons_self)⟩,
    ⟨value.text.dropLast, value.text.getLast value.ne_nil,
      (List.dropLast_append_getLast value.ne_nil).symm, hedge (List.getLast_mem _)⟩,
    hatom (by decide), fun hmem ↦ absurd hmem (hatom (by decide)), ?_⟩
  rintro ⟨tail, htail⟩
  rw [← htail] at h
  exact absurd h (by simp [isNumeral, dropSign, isWhole, isDigits])

/-- With a comma a line is still one. -/
theorem IsJsonLine.comma {content : List Char} (h : IsJsonLine content) :
    IsJsonLine (content ++ [',']) := by
  obtain ⟨c, rest, rfl, hc⟩ := h.head
  refine ⟨⟨c, rest ++ [','], rfl, hc⟩, ⟨c :: rest, ',', rfl, rfl⟩, ?_, ?_, ?_⟩
  · intro hmem
    rcases List.mem_append.1 hmem with hmem | hmem
    · exact h.oneLine hmem
    · exact absurd hmem (by decide)
  · intro hmem
    rcases List.mem_append.1 hmem with hmem | hmem
    · exact h.quotes hmem
    · exact absurd hmem (by decide)
  · rw [List.cons_append, List.cons_prefix_cons]
    rintro ⟨rfl, hdash⟩
    cases rest with
    | nil => exact absurd hdash (by decide)
    | cons d rest =>
      rw [List.cons_append, List.cons_prefix_cons] at hdash
      exact h.noDashes (hdash.1 ▸ List.cons_prefix_cons.2 ⟨rfl,
        List.cons_prefix_cons.2 ⟨rfl, List.nil_prefix⟩⟩)

/-- ... and after a key. -/
theorem IsJsonLine.key {content : List Char} (h : IsJsonLine content) (key : String) :
    IsJsonLine (quoted key ++ ':' :: ' ' :: content) := by
  obtain ⟨lead, c, rfl, hc⟩ := h.last
  refine ⟨⟨'"', _, rfl, rfl⟩, ⟨quoted key ++ ':' :: ' ' :: lead, c, by simp, hc⟩, ?_,
    fun _ ↦ rfl, ?_⟩
  · intro hmem
    rcases List.mem_append.1 hmem with hmem | hmem
    · exact quoted_oneLine key hmem
    · rw [List.mem_cons, List.mem_cons] at hmem
      rcases hmem with hmem | hmem | hmem
      · exact absurd hmem (by decide)
      · exact absurd hmem (by decide)
      · exact h.oneLine hmem
  · rw [quoted_eq, List.cons_append, List.cons_prefix_cons]
    exact fun hdash ↦ absurd hdash.1 (by decide)

theorem isJsonLine_withComma {lines : List JsonLine} (h : ∀ line ∈ lines, IsJsonLine line.content) :
    ∀ line ∈ withComma lines, IsJsonLine line.content := by
  induction lines with
  | nil => exact nofun
  | cons line rest ih =>
    cases rest with
    | nil =>
      intro other hother
      obtain rfl := List.mem_singleton.1 hother
      exact (h line List.mem_cons_self).comma
    | cons next rest =>
      intro other hother
      rcases List.mem_cons.1 hother with rfl | hother
      · exact h _ List.mem_cons_self
      · exact ih (fun line hline ↦ h line (List.mem_cons_of_mem _ hline)) other hother

theorem isJsonLine_withKey {lines : List JsonLine} (h : ∀ line ∈ lines, IsJsonLine line.content)
    (key : String) : ∀ line ∈ withKey key lines, IsJsonLine line.content := by
  cases lines with
  | nil => exact nofun
  | cons line rest =>
    intro other hother
    rcases List.mem_cons.1 hother with rfl | hother
    · exact (h line List.mem_cons_self).key key
    · exact h other (List.mem_cons_of_mem _ hother)

theorem isJsonLine_deeper {lines : List JsonLine} (h : ∀ line ∈ lines, IsJsonLine line.content) :
    ∀ line ∈ deeper lines, IsJsonLine line.content := by
  intro line hline
  obtain ⟨source, hsource, rfl⟩ := List.mem_map.1 hline
  exact h source hsource

/-- A line of one token. -/
theorem isJsonLine_of_all {content : List Char} (hne : content ≠ [])
    (h : content.all isEdge = true) (hquotes : '@' ∉ content) (hdashes : ¬['-', '-'] <+: content) :
    IsJsonLine content := by
  obtain ⟨c, rest, rfl⟩ := List.exists_cons_of_ne_nil hne
  have hedge := List.all_eq_true.1 h
  refine ⟨⟨c, rest, rfl, hedge c List.mem_cons_self⟩, ⟨(c :: rest).dropLast, (c :: rest).getLast hne,
    (List.dropLast_append_getLast hne).symm, hedge _ (List.getLast_mem _)⟩, fun hmem ↦ ?_,
    fun hmem ↦ absurd hmem hquotes, hdashes⟩
  exact absurd (hedge _ hmem) (by decide)

mutual

theorem isJsonLine_prettyLines : ∀ value : JsonValue, value.isJson = true →
    ∀ line ∈ prettyLines value, IsJsonLine line.content
  | .null => by
    intro _ line hline
    obtain rfl := List.mem_singleton.1 hline
    exact isJsonLine_of_all nofun (by decide) (by decide) (by decide)
  | .bool true => by
    intro _ line hline
    obtain rfl := List.mem_singleton.1 hline
    exact isJsonLine_of_all nofun (by decide) (by decide) (by decide)
  | .bool false => by
    intro _ line hline
    obtain rfl := List.mem_singleton.1 hline
    exact isJsonLine_of_all nofun (by decide) (by decide) (by decide)
  | .number value => by
    intro h line hline
    obtain rfl := List.mem_singleton.1 hline
    exact isJsonLine_number h
  | .string value => by
    intro _ line hline
    obtain rfl := List.mem_singleton.1 hline
    exact isJsonLine_quoted value
  | .array items => by
    intro h line hline
    have hitems := isJsonLine_deeper (isJsonLine_prettyItems items h)
    rw [prettyLines] at hline
    split at hline
    · obtain rfl := List.mem_singleton.1 hline
      exact isJsonLine_of_all nofun (by decide) (by decide) (by decide)
    · rw [List.cons_append, List.mem_cons, List.mem_append, List.mem_singleton] at hline
      rcases hline with rfl | hline | rfl
      · exact isJsonLine_of_all nofun (by decide) (by decide) (by decide)
      · exact hitems line hline
      · exact isJsonLine_of_all nofun (by decide) (by decide) (by decide)
  | .object members => by
    intro h line hline
    have hmembers :=
      isJsonLine_deeper (isJsonLine_prettyMembers members (Bool.and_eq_true_iff.1 h).2)
    rw [prettyLines] at hline
    split at hline
    · obtain rfl := List.mem_singleton.1 hline
      exact isJsonLine_of_all nofun (by decide) (by decide) (by decide)
    · rw [List.cons_append, List.mem_cons, List.mem_append, List.mem_singleton] at hline
      rcases hline with rfl | hline | rfl
      · exact isJsonLine_of_all nofun (by decide) (by decide) (by decide)
      · exact hmembers line hline
      · exact isJsonLine_of_all nofun (by decide) (by decide) (by decide)

theorem isJsonLine_prettyItems : ∀ items : List JsonValue, itemsJson items = true →
    ∀ line ∈ prettyItems items, IsJsonLine line.content
  | [] => fun _ ↦ nofun
  | item :: rest => by
    intro h line hline
    obtain ⟨hitem, hrest⟩ := Bool.and_eq_true_iff.1 h
    have hfirst := isJsonLine_prettyLines item hitem
    have hothers := isJsonLine_prettyItems rest hrest
    rw [prettyItems, List.mem_append] at hline
    rcases hline with hline | hline
    · split at hline
      · exact hfirst line hline
      · exact isJsonLine_withComma hfirst line hline
    · exact hothers line hline

theorem isJsonLine_prettyMembers : ∀ members : List (String × JsonValue),
    membersJson members = true → ∀ line ∈ prettyMembers members, IsJsonLine line.content
  | [] => fun _ ↦ nofun
  | (key, value) :: rest => by
    intro h line hline
    obtain ⟨hvalue, hrest⟩ := Bool.and_eq_true_iff.1 h
    have hfirst := isJsonLine_withKey (isJsonLine_prettyLines value hvalue) key
    have hothers := isJsonLine_prettyMembers rest hrest
    rw [prettyMembers, List.mem_append] at hline
    rcases hline with hline | hline
    · split at hline
      · exact hfirst line hline
      · exact isJsonLine_withComma hfirst line hline
    · exact hothers line hline

end

end CodeConductor
