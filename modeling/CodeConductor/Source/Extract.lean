import CodeConductor.Json.Parse
import CodeConductor.Verification.PatchBytes
import Mathlib.Data.List.DropRight

/-!
# Contracts in source comments

`extractContracts` finds the contracts of a source file: JSON between a start and an end marker, each on
a comment line of its own. A position in the source is the text before it and the text after it.

The markers are found after any comment leader, however often its character is repeated, but a body
line loses no more of its leader than one `//`, `#`, `--` or `*`, and one blank. So what is written in
comments comes back exactly when their leaders are of these (`extractsAll_iff`).
-/

namespace CodeConductor

/-- `START_MARKER`. -/
def startMarker : List Char := "@conductor-contract".toList

/-- `END_MARKER`. -/
def endMarker : List Char := "@end-conductor-contract".toList

/-! ### The code -/

/-- `indexOf`: the text before the first occurrence of a word, and the text after it. -/
def splitAtWord (word : List Char) : List Char → Option (List Char × List Char)
  | [] => if word = [] then some ([], []) else none
  | c :: rest =>
    if word <+: c :: rest then some ([], (c :: rest).drop word.length)
    else (splitAtWord word rest).map fun parts ↦ (c :: parts.1, parts.2)

/-- The part of a text in its last line. -/
def lastLine (text : List Char) : List Char := text.rtakeWhile (· ≠ '\n')

/-- The part of a text in its first line. -/
def firstLine (text : List Char) : List Char := text.takeWhile (· ≠ '\n')

/-- `text.trim()`. -/
def trimSpaces (text : List Char) : List Char := (text.dropWhile isSpace).rdropWhile isSpace

/-- The character, at least so many times. -/
def isRun (c : Char) (least : ℕ) (text : List Char) : Bool := least ≤ text.length && text.all (· = c)

/-- `\/\/+|#+|--+|\*`. -/
def isLineLeader (text : List Char) : Bool :=
  isRun '/' 2 text || isRun '#' 1 text || isRun '-' 2 text || text = ['*']

/-- `\/\*+`. -/
def isBlockOpener : List Char → Bool
  | '/' :: stars => isRun '*' 1 stars
  | _ => false

/-- `isCommentStartMarker`. -/
def isCommentStartMarker (before after : List Char) : Bool :=
  let leader := trimSpaces (lastLine before)
  (isBlockOpener leader || isLineLeader leader) && (firstLine after).all isSpace

/-- The test of `findCommentEndMarker`. -/
def isCommentEndMarker (before after : List Char) : Bool :=
  let leader := trimSpaces (lastLine before)
  let closing := trimSpaces (firstLine after)
  (leader = [] || isLineLeader leader) &&
    (closing = [] || closing = ['*', '/'] || closing = ['-', '-', '>'])

theorem length_of_splitAtWord {word text skipped rest : List Char} (hword : word ≠ [])
    (h : splitAtWord word text = some (skipped, rest)) : rest.length < text.length := by
  induction text generalizing skipped with
  | nil =>
    rw [splitAtWord, if_neg hword] at h
    exact nomatch h
  | cons c text ih =>
    rw [splitAtWord] at h
    split at h
    · obtain ⟨-, rfl⟩ := Prod.mk.inj (Option.some.inj h)
      have hpositive := List.length_pos_iff.2 hword
      rw [List.length_drop, List.length_cons]
      omega
    · obtain ⟨⟨skipped, rest⟩, hrest, heq⟩ := Option.map_eq_some_iff.1 h
      obtain ⟨-, rfl⟩ := Prod.mk.inj heq
      exact Nat.lt_succ_of_lt (ih hrest)

theorem startMarker_ne : startMarker ≠ [] := by decide

theorem endMarker_ne : endMarker ≠ [] := by decide

/-- `findCommentEndMarker`: the text up to the marker, and the text after it. -/
def findCommentEndMarker (before text : List Char) : Option (List Char × List Char) :=
  match _h : splitAtWord endMarker text with
  | none => none
  | some (skipped, after) =>
    if isCommentEndMarker (before ++ skipped) after then some (skipped, after)
    else
      (findCommentEndMarker (before ++ skipped ++ endMarker) after).map fun parts ↦
        (skipped ++ endMarker ++ parts.1, parts.2)
termination_by text.length
decreasing_by exact length_of_splitAtWord endMarker_ne _h

theorem findCommentEndMarker_eq (before text : List Char) :
    findCommentEndMarker before text = (splitAtWord endMarker text).bind fun parts ↦
      if isCommentEndMarker (before ++ parts.1) parts.2 then some parts
      else
        (findCommentEndMarker (before ++ parts.1 ++ endMarker) parts.2).map fun more ↦
          (parts.1 ++ endMarker ++ more.1, more.2) := by
  rw [findCommentEndMarker]
  split
  · rename_i hsplit
    rw [hsplit]
    rfl
  · rename_i hsplit
    rw [hsplit]
    rfl

theorem length_of_findCommentEndMarker {before text body rest : List Char}
    (h : findCommentEndMarker before text = some (body, rest)) : rest.length < text.length := by
  induction before, text using findCommentEndMarker.induct generalizing body with
  | case1 before text hsplit =>
    rw [findCommentEndMarker_eq, hsplit] at h
    exact nomatch h
  | case2 before text skipped after hsplit hend =>
    rw [findCommentEndMarker_eq, hsplit, Option.bind_some, if_pos hend] at h
    obtain ⟨-, rfl⟩ := Prod.mk.inj (Option.some.inj h)
    exact length_of_splitAtWord endMarker_ne hsplit
  | case3 before text skipped after hsplit hend ih =>
    rw [findCommentEndMarker_eq, hsplit, Option.bind_some, if_neg hend] at h
    obtain ⟨⟨more, rest⟩, hmore, heq⟩ := Option.map_eq_some_iff.1 h
    obtain ⟨-, rfl⟩ := Prod.mk.inj heq
    exact (ih hmore).trans (length_of_splitAtWord endMarker_ne hsplit)

/-- `.split(/\r?\n/)`. -/
def splitLines : List Char → List (List Char)
  | [] => [[]]
  | '\r' :: '\n' :: rest => [] :: splitLines rest
  | '\n' :: rest => [] :: splitLines rest
  | c :: rest =>
    match splitLines rest with
    | [] => [[c]]
    | line :: lines => (c :: line) :: lines

/-- `.join("\n")`. -/
def joinLines : List (List Char) → List Char
  | [] => []
  | line :: rest => line ++ rest.flatMap fun other ↦ '\n' :: other

/-- The text without one blank at its beginning. -/
def dropSpace : List Char → List Char
  | [] => []
  | c :: rest => if isSpace c then rest else c :: rest

/-- `entry.replace(/^\s*(?:\/\/|#|--|\*)?\s?/, "")`. -/
def stripLeader (entry : List Char) : List Char :=
  let entry := entry.dropWhile isSpace
  dropSpace <|
    if ['/', '/'] <+: entry then entry.drop 2
    else if ['#'] <+: entry then entry.drop 1
    else if ['-', '-'] <+: entry then entry.drop 2
    else if ['*'] <+: entry then entry.drop 1
    else entry

variable (jsonMessage : List Char → String) (file : String)

/-- `extractContracts`, from a position. `JSON.parse` throws `jsonMessage` at a text it cannot read. -/
def extractContracts (before text : List Char) : Except String (List (ℕ × JsonValue)) :=
  match _h : splitAtWord startMarker text with
  | none => .ok []
  | some (skipped, after) =>
    if !isCommentStartMarker (before ++ skipped) after then
      extractContracts (before ++ skipped ++ startMarker) after
    else
      let line := (splitLines (before ++ skipped)).length
      match _h' : findCommentEndMarker (before ++ skipped ++ startMarker) after with
      | none => .error (file ++ ":" ++ toString line ++ " has no @end-conductor-contract")
      | some (body, rest) =>
        let raw := trimSpaces (joinLines ((splitLines body).map stripLeader))
        match jsonParse raw with
        | none =>
          .error (file ++ ":" ++ toString line ++ " contains invalid Conductor JSON: " ++
            jsonMessage raw)
        | some value => do
          let others ← extractContracts (before ++ skipped ++ startMarker ++ body ++ endMarker) rest
          return (line, value) :: others
termination_by text.length
decreasing_by
  · exact length_of_splitAtWord startMarker_ne _h
  · exact (length_of_findCommentEndMarker _h').trans (length_of_splitAtWord startMarker_ne _h)

theorem extractContracts_none {before text : List Char} (h : splitAtWord startMarker text = none) :
    extractContracts jsonMessage file before text = .ok [] := by
  rw [extractContracts]
  split
  · rfl
  · rename_i hsplit
    exact nomatch h.symm.trans hsplit

/-- Where a start marker stands in a comment, its contract is read. -/
theorem extractContracts_some {before text skipped after body rest : List Char}
    (hstart : splitAtWord startMarker text = some (skipped, after))
    (hcomment : isCommentStartMarker (before ++ skipped) after = true)
    (hend : findCommentEndMarker (before ++ skipped ++ startMarker) after = some (body, rest)) :
    extractContracts jsonMessage file before text =
      match jsonParse (trimSpaces (joinLines ((splitLines body).map stripLeader))) with
      | none =>
        .error (file ++ ":" ++ toString (splitLines (before ++ skipped)).length ++
          " contains invalid Conductor JSON: " ++
          jsonMessage (trimSpaces (joinLines ((splitLines body).map stripLeader))))
      | some value => do
        let others ← extractContracts jsonMessage file
          (before ++ skipped ++ startMarker ++ body ++ endMarker) rest
        return ((splitLines (before ++ skipped)).length, value) :: others := by
  rw [extractContracts]
  split
  · rename_i hsplit
    exact nomatch hstart.symm.trans hsplit
  · rename_i skipped' after' hsplit
    obtain ⟨rfl, rfl⟩ := Prod.mk.inj (Option.some.inj (hstart.symm.trans hsplit))
    rw [if_neg (by rw [hcomment]; decide)]
    dsimp only
    split
    · rename_i hnone
      exact nomatch hend.symm.trans hnone
    · rename_i body' rest' hfound
      obtain ⟨rfl, rfl⟩ := Prod.mk.inj (Option.some.inj (hend.symm.trans hfound))
      rfl

/-! ### Contracts as they are written -/

/-- Blanks within a line. -/
abbrev Blanks := {text : List Char // text.all isSpace = true ∧ '\n' ∉ text}

/-- The leaders of a comment, on the line of the start marker and on the others: one line leader, or that
of a block comment, with a star or nothing on the other lines. -/
structure CommentForm where
  opener : List Char
  leader : List Char
  isForm : (isLineLeader opener = true ∧ leader = opener) ∨
    (isBlockOpener opener = true ∧ (leader = [] ∨ leader = ['*']))

/-- A contract in a comment. -/
structure ContractComment where
  form : CommentForm
  openIndent : Blanks
  openGap : Blanks
  openTail : Blanks
  indent : Blanks
  gap : Blanks
  /-- Lines end in `\r\n`. -/
  crlf : Bool
  value : {value : JsonValue // value.isJson = true}
  closeGap : Blanks
  closing : List Char
  isClosing : closing ∈ [[], ['*', '/'], ['-', '-', '>']]
  closeTail : Blanks

namespace ContractComment

variable (comment : ContractComment)

/-- What ends a line. -/
def lineEnd : List Char := if comment.crlf then ['\r', '\n'] else ['\n']

/-- What every line but the first begins with. -/
def lead : List Char := comment.indent.1 ++ comment.form.leader ++ comment.gap.1

/-- The line of the start marker, up to it. -/
def opening : List Char := comment.openIndent.1 ++ comment.form.opener ++ comment.openGap.1

/-- The text between the markers. -/
def body : List Char :=
  comment.openTail.1 ++ comment.lineEnd ++
    ((prettyLines comment.value.1).flatMap fun line ↦ comment.lead ++ line.text ++ comment.lineEnd) ++
    comment.lead

/-- The line of the end marker, after it. -/
def ending : List Char := comment.closeGap.1 ++ comment.closing ++ comment.closeTail.1

/-- The comment. -/
def text : List Char :=
  comment.opening ++ startMarker ++ comment.body ++ endMarker ++ comment.ending

/-- **The leader comes off**: it is one that a body line loses as a whole; and if the contract has more
than one line, what is left of the blanks after it are blanks of JSON. -/
def LeaderComesOff : Prop :=
  comment.form.leader ∈ [[], ['/', '/'], ['#'], ['-', '-'], ['*']] ∧
    (comment.form.leader = [] ∨ (prettyLines comment.value.1).length = 1 ∨
      (comment.gap.1.drop 1).all isJsonBlank = true)

end ContractComment

/-- Source text before a comment: whole lines, without a start marker. -/
abbrev SourceLines :=
  {text : List Char // ¬startMarker <:+: text ∧ (text = [] ∨ text.getLast? = some '\n')}

/-- A source file: comments with text before each, and what stands on the lines after the last one. -/
structure SourceFile where
  pieces : List (SourceLines × ContractComment)
  rest : Option {text : List Char // ¬startMarker <:+: text}

/-- The text of pieces. -/
def piecesText (rest : List Char) : List (SourceLines × ContractComment) → List Char
  | [] => rest
  | [piece] => piece.1.1 ++ piece.2.text ++ rest
  | piece :: pieces => piece.1.1 ++ piece.2.text ++ '\n' :: piecesText rest pieces

/-- The text of a file. -/
def SourceFile.text (source : SourceFile) : List Char :=
  piecesText (source.rest.elim [] fun text ↦ '\n' :: text.1) source.pieces

/-- The line numbers and values of the contracts in pieces, after some text. -/
def piecesContracts (before : List Char) :
    List (SourceLines × ContractComment) → List (ℕ × JsonValue)
  | [] => []
  | piece :: pieces =>
    ((before ++ piece.1.1).count '\n' + 1, piece.2.value.1) ::
      piecesContracts (before ++ piece.1.1 ++ piece.2.text ++ ['\n']) pieces

/-- **All contracts are extracted**, in order, with the lines of their start markers. -/
def ExtractsAll (jsonMessage : List Char → String) (file : String) (source : SourceFile) : Prop :=
  extractContracts jsonMessage file [] source.text = .ok (piecesContracts [] source.pieces)

/-! ### Lines and blanks -/

/-- What a line begins with after the lines before it. -/
theorem lastLine_append {before tail : List Char}
    (hbefore : before = [] ∨ before.getLast? = some '\n') (htail : '\n' ∉ tail) :
    lastLine (before ++ tail) = tail := by
  have hpos : ∀ c ∈ tail.reverse, decide (c ≠ '\n') = true := fun c hc ↦
    decide_eq_true fun heq ↦ htail (heq ▸ List.mem_reverse.1 hc)
  have hstop : before.reverse.takeWhile (fun c ↦ decide (c ≠ '\n')) = [] := by
    rcases hbefore with rfl | hlast
    · rfl
    · rw [← List.head?_reverse] at hlast
      obtain ⟨rest, hrest⟩ := List.head?_eq_some_iff.1 hlast
      rw [hrest]
      rfl
  rw [lastLine, List.rtakeWhile, List.reverse_append, List.takeWhile_append_of_pos hpos, hstop,
    List.append_nil, List.reverse_reverse]

theorem mem_lastLine {before tail : List Char} {c : Char} (hc : c ≠ '\n') (htail : '\n' ∉ tail) :
    c ∈ lastLine (before ++ c :: tail) := by
  have hpos : ∀ d ∈ tail.reverse, decide (d ≠ '\n') = true := fun d hd ↦
    decide_eq_true fun heq ↦ htail (heq ▸ List.mem_reverse.1 hd)
  rw [lastLine, List.rtakeWhile, List.reverse_append, List.reverse_cons, List.append_assoc,
    List.takeWhile_append_of_pos hpos, List.singleton_append,
    List.takeWhile_cons_of_pos (p := fun d ↦ decide (d ≠ '\n')) (decide_eq_true hc),
    List.mem_reverse]
  exact List.mem_append_right _ List.mem_cons_self

theorem dropWhile_spaces {spaces : List Char} (h : spaces.all isSpace = true) (text : List Char) :
    (spaces ++ text).dropWhile isSpace = text.dropWhile isSpace := by
  induction spaces with
  | nil => rfl
  | cons c spaces ih =>
    obtain ⟨hc, hrest⟩ := Bool.and_eq_true_iff.1 h
    rw [List.cons_append, List.dropWhile_cons_of_pos hc, ih hrest]

theorem rdropWhile_spaces {spaces : List Char} (h : spaces.all isSpace = true) (text : List Char) :
    (text ++ spaces).rdropWhile isSpace = text.rdropWhile isSpace := by
  have hreverse : spaces.reverse.all isSpace = true := by rw [List.all_reverse, h]
  rw [List.rdropWhile, List.reverse_append, dropWhile_spaces hreverse, List.rdropWhile]

/-- Blanks around a text that neither begins nor ends in one are trimmed. -/
theorem trimSpaces_append {spaces spaces' core lead tail : List Char} {first last : Char}
    (hspaces : spaces.all isSpace = true) (hspaces' : spaces'.all isSpace = true)
    (hfirst : core = first :: tail) (hnot : isSpace first = false) (hlast : core = lead ++ [last])
    (hnot' : isSpace last = false) : trimSpaces (spaces ++ (core ++ spaces')) = core := by
  rw [trimSpaces, dropWhile_spaces hspaces, hfirst, List.cons_append,
    List.dropWhile_cons_of_neg (by rw [hnot]; decide), ← List.cons_append, rdropWhile_spaces hspaces',
    ← hfirst, hlast, List.rdropWhile_concat_neg _ _ _ (by rw [hnot']; decide)]

theorem trimSpaces_spaces {spaces : List Char} (h : spaces.all isSpace = true) :
    trimSpaces spaces = [] := by
  have hnil := dropWhile_spaces h []
  rw [List.append_nil] at hnil
  rw [trimSpaces, hnil]
  rfl

/-- Trimming ends a text in its last character that is no blank. -/
theorem exists_trimSpaces {text spaces : List Char} {c : Char} (hc : isSpace c = false)
    (h : spaces.all isSpace = true) :
    ∃ lead, trimSpaces (text ++ c :: spaces) = lead ++ [c] := by
  have hdrop : ∃ lead, (text ++ c :: spaces).dropWhile isSpace = lead ++ c :: spaces := by
    induction text with
    | nil => exact ⟨[], List.dropWhile_cons_of_neg (by rw [hc]; decide)⟩
    | cons d text ih =>
      rw [List.cons_append, List.dropWhile_cons]
      split
      · exact ih
      · exact ⟨d :: text, rfl⟩
  obtain ⟨lead, hlead⟩ := hdrop
  refine ⟨lead, ?_⟩
  rw [trimSpaces, hlead, List.append_cons, rdropWhile_spaces h,
    List.rdropWhile_concat_neg _ _ _ (by rw [hc]; decide)]

theorem mem_trimSpaces {text : List Char} {c : Char} (hc : isSpace c = false) (hmem : c ∈ text) :
    c ∈ trimSpaces text := by
  have hdrop (text : List Char) (hmem : c ∈ text) : c ∈ text.dropWhile isSpace := by
    rw [← List.takeWhile_append_dropWhile (p := isSpace) (l := text)] at hmem
    rcases List.mem_append.1 hmem with hmem | hmem
    · exact absurd (List.mem_takeWhile_imp hmem) (by rw [hc]; decide)
    · exact hmem
  rw [trimSpaces, List.rdropWhile, List.mem_reverse]
  exact hdrop _ (List.mem_reverse.2 (hdrop _ hmem))

/-! ### Finding a word -/

section Word

variable {c : Char} {word : List Char}

/-- A word whose first character it has only once is found at its own place, or before it within the text
that precedes. -/
theorem splitAtWord_append (hword : c ∉ word) (body after : List Char) :
    splitAtWord (c :: word) (body ++ (c :: word ++ after)) = some (body, after) ∨
      ∃ skipped rest, body = skipped ++ (c :: word ++ rest) ∧
        splitAtWord (c :: word) (body ++ (c :: word ++ after)) =
          some (skipped, rest ++ (c :: word ++ after)) := by
  induction body with
  | nil =>
    left
    rw [List.nil_append, List.cons_append, splitAtWord,
      if_pos (List.cons_append ▸ List.prefix_append (c :: word) after), ← List.cons_append,
      List.drop_left]
  | cons d body ih =>
    rw [List.cons_append, splitAtWord]
    by_cases hhere : c :: word <+: d :: (body ++ (c :: word ++ after))
    · right
      obtain ⟨rest, hrest⟩ : c :: word <+: d :: body := by
        have hbody : d :: body <+: d :: (body ++ (c :: word ++ after)) :=
          List.cons_append ▸ List.prefix_append (d :: body) _
        rcases List.prefix_or_prefix_of_prefix hhere hbody with h | ⟨more, hmore⟩
        · exact h
        obtain ⟨tail, htail⟩ := hhere
        cases more with
        | nil =>
          rw [List.append_nil] at hmore
          exact hmore ▸ List.prefix_rfl
        | cons e more =>
          -- the word would have its first character once more
          have heq : (d :: body) ++ (e :: (more ++ tail)) = (d :: body) ++ (c :: (word ++ after)) := by
            have hleft : (d :: body) ++ (e :: (more ++ tail)) = c :: word ++ tail := by
              rw [← hmore, List.append_assoc, List.cons_append (a := e)]
            exact hleft.trans htail
          obtain rfl : e = c := (List.cons.inj (List.append_cancel_left heq)).1
          rw [List.cons_append, List.cons.injEq] at hmore
          exact absurd (hmore.2 ▸ List.mem_append_right _ List.mem_cons_self) hword
      refine ⟨[], rest, hrest.symm, ?_⟩
      rw [if_pos hhere, ← List.cons_append, ← hrest, List.append_assoc, List.drop_left]
    · rw [if_neg hhere]
      rcases ih with h | ⟨skipped, rest, rfl, h⟩
      · left
        rw [h]
        rfl
      · right
        refine ⟨d :: skipped, rest, rfl, ?_⟩
        rw [h]
        rfl

/-- Before text without the word it is found at its place. -/
theorem splitAtWord_of_not_infix (hword : c ∉ word) {body : List Char}
    (h : ¬c :: word <:+: body) (after : List Char) :
    splitAtWord (c :: word) (body ++ (c :: word ++ after)) = some (body, after) := by
  rcases splitAtWord_append hword body after with hfound | ⟨skipped, rest, rfl, -⟩
  · exact hfound
  · exact absurd ⟨skipped, rest, List.append_assoc _ _ _⟩ h

theorem splitAtWord_eq_none {text : List Char} (h : ¬c :: word <:+: text) :
    splitAtWord (c :: word) text = none := by
  induction text with
  | nil => rfl
  | cons d text ih =>
    rw [splitAtWord, if_neg fun hstart ↦ h hstart.isInfix,
      ih fun hmid ↦ h (hmid.trans (List.suffix_cons d text).isInfix)]
    rfl

/-- A text without the first character of a word adds none of it before text that has none. -/
theorem not_infix_append {lead text : List Char} (hlead : c ∉ lead) (h : ¬c :: word <:+: text) :
    ¬c :: word <:+: lead ++ text := by
  induction lead with
  | nil => exact h
  | cons d lead ih =>
    rw [List.mem_cons, not_or] at hlead
    rw [List.cons_append, List.infix_cons_iff]
    rintro (hstart | hmid)
    · exact hlead.1 (List.cons_prefix_cons.1 hstart).1
    · exact ih hlead.2 hmid

/-- ... nor after text that ends before it with a character the word does not have. -/
theorem not_infix_append_right {text tail : List Char} (htail : c ∉ tail) {d : Char}
    (hd : d ∉ c :: word) (h : text = [] ∨ text.getLast? = some d) (hnot : ¬c :: word <:+: text) :
    ¬c :: word <:+: text ++ tail := by
  induction text with
  | nil => exact fun hmid ↦ htail (hmid.subset List.mem_cons_self)
  | cons e text ih =>
    rw [List.cons_append, List.infix_cons_iff]
    rintro (hstart | hmid)
    · have htext : e :: text <+: e :: (text ++ tail) :=
        List.cons_append ▸ List.prefix_append (e :: text) tail
      rcases List.prefix_or_prefix_of_prefix hstart htext with hword | hword
      · exact hnot hword.isInfix
      · have hlast : (e :: text).getLast? = some d := h.resolve_left nofun
        exact hd (hword.subset (List.mem_of_getLast? hlast))
    · have hrest : text = [] ∨ text.getLast? = some d := by
        cases text with
        | nil => exact .inl rfl
        | cons f text => exact .inr (List.getLast?_cons_cons.symm.trans (h.resolve_left nofun))
      exact ih hrest (fun hmid ↦ hnot (hmid.trans (List.suffix_cons e text).isInfix)) hmid

end Word

/-! ### The end marker of a comment -/

/-- A character of an appended text is in one of its parts. -/
theorem append_eq_append_cons {α : Type} {a b p q : List α} {c : α} (h : a ++ b = p ++ c :: q) :
    (∃ q', a = p ++ c :: q') ∨ ∃ p', p = a ++ p' ∧ b = p' ++ c :: q := by
  rcases List.append_eq_append_iff.1 h with ⟨p', hp, hb⟩ | ⟨r, ha, hr⟩
  · exact .inr ⟨p', hp, hb⟩
  · cases r with
    | nil =>
      rw [List.append_nil] at ha
      exact .inr ⟨[], by rw [ha, List.append_nil], hr.symm⟩
    | cons d r =>
      obtain ⟨rfl, -⟩ := List.cons.inj hr
      exact .inl ⟨r, ha⟩

theorem startMarker_eq : ∃ word, startMarker = '@' :: word ∧ '@' ∉ word ∧ '\n' ∉ startMarker :=
  ⟨startMarker.tail, by decide, by decide, by decide⟩

theorem endMarker_eq : ∃ word, endMarker = '@' :: word ∧ '@' ∉ word := ⟨endMarker.tail, by decide, by decide⟩

/-- The end marker is found behind text in which every end marker is refused. -/
theorem findCommentEndMarker_append {before body after : List Char}
    (hend : isCommentEndMarker (before ++ body) after = true)
    (hrefused : ∀ skipped rest, body = skipped ++ '@' :: rest →
      ∀ after, isCommentEndMarker (before ++ skipped) after = false) :
    findCommentEndMarker before (body ++ (endMarker ++ after)) = some (body, after) := by
  obtain ⟨word, hmarker, hword⟩ := endMarker_eq
  induction hlength : body.length using Nat.strong_induction_on generalizing before body with
  | _ length ih =>
    subst hlength
    rw [findCommentEndMarker_eq]
    rw [hmarker]
    rcases splitAtWord_append hword body after with hfound | ⟨skipped, rest, rfl, hfound⟩
    · rw [hfound, Option.bind_some, if_pos hend]
    · rw [hfound, Option.bind_some, if_neg (by rw [hrefused skipped (word ++ rest) rfl]; decide)]
      have hmore : findCommentEndMarker (before ++ skipped ++ '@' :: word)
          (rest ++ (endMarker ++ after)) = some (rest, after) := by
        refine ih rest.length (by simp only [List.length_append, List.length_cons]; omega)
          (by simpa using hend) (fun skipped' rest' hrest after ↦ ?_) rfl
        have hrefuse := hrefused (skipped ++ '@' :: word ++ skipped') rest' (by rw [hrest]; simp) after
        rwa [← List.append_assoc, ← List.append_assoc] at hrefuse
      rw [hmarker] at hmore
      rw [hmore, Option.map_some]
      simp

/-- A line with a string in it before the marker is no line of an end marker. -/
theorem isCommentEndMarker_of_quote {before after : List Char} (h : '"' ∈ lastLine before) :
    isCommentEndMarker before after = false := by
  have hmem : '"' ∈ trimSpaces (lastLine before) := mem_trimSpaces (by decide) h
  have hrun (c : Char) (least : ℕ) (hc : '"' ≠ c) :
      isRun c least (trimSpaces (lastLine before)) = false := by
    rw [isRun, Bool.and_eq_false_iff]
    exact .inr (List.all_eq_false.2 ⟨_, hmem, by simpa using hc⟩)
  have hleader : isLineLeader (trimSpaces (lastLine before)) = false := by
    rw [isLineLeader, hrun '/' 2 (by decide), hrun '#' 1 (by decide), hrun '-' 2 (by decide)]
    refine decide_eq_false fun heq ↦ ?_
    rw [heq] at hmem
    exact absurd hmem (by decide)
  have hne : trimSpaces (lastLine before) ≠ [] := fun heq ↦ by
    rw [heq] at hmem
    exact nomatch hmem
  rw [isCommentEndMarker, hleader, decide_eq_false hne]
  rfl

/-- An `@` in a line of JSON stands behind a quote on that line. -/
theorem quote_mem_lastLine {lead lineEnd before skipped rest : List Char} {line : JsonLine}
    (hjson : IsJsonLine line.content) (hlead : '@' ∉ lead) (hlineEnd : '@' ∉ lineEnd)
    (h : lead ++ line.text ++ lineEnd = skipped ++ '@' :: rest) :
    '"' ∈ lastLine (before ++ skipped) := by
  rcases append_eq_append_cons h with ⟨rest', h⟩ | ⟨more, -, hmore⟩
  · rw [JsonLine.text, ← List.append_assoc] at h
    rcases append_eq_append_cons h with ⟨rest'', hblank⟩ | ⟨more, rfl, hmore⟩
    · have hmem : '@' ∈ lead ++ List.replicate (2 * line.depth) ' ' :=
        hblank ▸ List.mem_append_right _ List.mem_cons_self
      rcases List.mem_append.1 hmem with hmem | hmem
      · exact absurd hmem hlead
      · exact absurd (List.eq_of_mem_replicate hmem) (by decide)
    · have hquote := hjson.quotes (hmore ▸ List.mem_append_right _ List.mem_cons_self)
      rw [hmore] at hquote
      cases more with
      | nil => exact absurd (Option.some.inj hquote) (by decide)
      | cons c more =>
        obtain rfl : c = '"' := Option.some.inj hquote
        rw [← List.append_assoc]
        refine mem_lastLine (by decide) fun hnewline ↦ hjson.oneLine ?_
        rw [hmore]
        exact List.mem_cons_of_mem _ (List.mem_append_left _ hnewline)
  · exact absurd (hmore ▸ List.mem_append_right _ List.mem_cons_self) hlineEnd

/-! ### Lines without their leaders -/

/-- A line without the carriage return at its end. -/
def dropReturn (line : List Char) : List Char :=
  if line.getLast? = some '\r' then line.dropLast else line

theorem splitLines_step {c : Char} {rest line : List Char} {lines : List (List Char)} (hc : c ≠ '\n')
    (hreturn : ¬(c = '\r' ∧ rest.head? = some '\n')) (h : splitLines rest = line :: lines) :
    splitLines (c :: rest) = (c :: line) :: lines := by
  rw [splitLines, h]
  · rintro tail rfl rfl
    exact hreturn ⟨rfl, rfl⟩
  · exact hc

theorem dropReturn_cons {c : Char} {line : List Char} (h : ¬(c = '\r' ∧ line = [])) :
    dropReturn (c :: line) = c :: dropReturn line := by
  cases line with
  | nil =>
    have hc : [c].getLast? ≠ some '\r' := fun heq ↦ h ⟨Option.some.inj heq, rfl⟩
    rw [dropReturn, if_neg hc]
    rfl
  | cons d line =>
    rw [dropReturn, dropReturn, List.getLast?_cons_cons]
    split <;> rfl

/-- The first line, without a carriage return at its end. -/
theorem splitLines_cons {line rest : List Char} (h : '\n' ∉ line) :
    splitLines (line ++ '\n' :: rest) = dropReturn line :: splitLines rest := by
  induction line with
  | nil =>
    rw [List.nil_append, splitLines]
    rfl
  | cons c line ih =>
    rw [List.mem_cons, not_or] at h
    by_cases hreturn : c = '\r' ∧ line = []
    · obtain ⟨rfl, rfl⟩ := hreturn
      show splitLines ('\r' :: '\n' :: rest) = _
      rw [splitLines]
      rfl
    · rw [List.cons_append, dropReturn_cons hreturn]
      refine splitLines_step (Ne.symm h.1) (fun hhead ↦ ?_) (ih h.2)
      cases line with
      | nil => exact hreturn ⟨hhead.1, rfl⟩
      | cons d line => exact h.2 (Option.some.inj hhead.2 ▸ List.mem_cons_self)

theorem splitLines_of_not_mem {line : List Char} (h : '\n' ∉ line) : splitLines line = [line] := by
  induction line with
  | nil => rfl
  | cons c line ih =>
    rw [List.mem_cons, not_or] at h
    refine splitLines_step (Ne.symm h.1) (fun hhead ↦ ?_) (ih h.2)
    exact h.2 (List.mem_of_mem_head? hhead.2)

/-- One line more than line breaks. -/
theorem length_splitLines (text : List Char) : (splitLines text).length = text.count '\n' + 1 := by
  induction text using splitLines.induct with
  | case1 => rfl
  | case2 rest ih =>
    rw [splitLines, List.length_cons, ih, List.count_cons_of_ne (by decide), List.count_cons_self]
  | case3 rest ih => rw [splitLines, List.length_cons, ih, List.count_cons_self]
  | case4 c rest hreturn hc hnil ih =>
    rw [hnil] at ih
    exact nomatch ih
  | case5 c rest hreturn hc line lines hlines ih =>
    rw [splitLines, hlines, List.count_cons_of_ne hc, ← ih, hlines]
    · rfl
    · exact hreturn
    · exact hc

theorem dropReturn_of_edge {lead : List Char} {c : Char} (h : isEdge c = true) :
    dropReturn (lead ++ [c]) = lead ++ [c] := by
  refine if_neg fun heq ↦ ?_
  rw [List.getLast?_concat] at heq
  rw [Option.some.inj heq] at h
  exact absurd h (by decide)

theorem dropReturn_return (line : List Char) : dropReturn (line ++ ['\r']) = line := by
  rw [dropReturn, if_pos List.getLast?_concat, List.dropLast_concat]

/-- No token begins or ends in a blank. -/
theorem isSpace_of_isEdge {c : Char} (h : isEdge c = true) : isSpace c = false := by
  have hlisted : ∀ n ∈ [0x9, 0xA, 0xB, 0xC, 0xD, 0x20, 0xA0, 0x1680, 0x2028, 0x2029, 0x202F, 0x205F,
      0x3000, 0xFEFF], isEdge (Char.ofNat n) = false := by decide
  have hrange : ∀ n < 11, isEdge (Char.ofNat (0x2000 + n)) = false := by decide
  cases hspace : isSpace c with
  | false => rfl
  | true =>
    have hnot : isEdge c = false := by
      rw [← Char.ofNat_toNat c]
      rcases Bool.or_eq_true_iff.1 hspace with hmem | hbetween
      · exact hlisted _ (of_decide_eq_true hmem)
      · obtain ⟨hlow, hhigh⟩ := Bool.and_eq_true_iff.1 hbetween
        have hlow' := of_decide_eq_true hlow
        have hhigh' := of_decide_eq_true hhigh
        obtain ⟨n, hn⟩ := Nat.exists_eq_add_of_le hlow'
        rw [hn]
        exact hrange n (by omega)
    exact absurd h (by rw [hnot]; decide)

/-- What is left of the leader before a line of JSON. -/
def leftover (leader blanks : List Char) : List Char := if leader = [] then [] else blanks.drop 1

theorem dropSpace_append {blanks content : List Char} (hblanks : blanks.all isSpace = true)
    (hcontent : ∀ c ∈ content.head?, isSpace c = false) :
    dropSpace (blanks ++ content) = blanks.drop 1 ++ content := by
  cases blanks with
  | nil =>
    cases content with
    | nil => rfl
    | cons c content =>
      rw [List.nil_append, dropSpace, if_neg (by rw [hcontent c rfl]; decide)]
      rfl
  | cons c blanks =>
    rw [List.cons_append, dropSpace, if_pos (Bool.and_eq_true_iff.1 hblanks).1]
    rfl

/-- **A leader comes off** with one blank; without a leader all blanks come off. -/
theorem stripLeader_append {indent leader blanks content : List Char}
    (hindent : indent.all isSpace = true) (hblanks : blanks.all isSpace = true)
    (hleader : leader ∈ [[], ['/', '/'], ['#'], ['-', '-'], ['*']])
    (hhead : ∀ c ∈ content.head?, isEdge c = true) (hdashes : ¬['-', '-'] <+: content) :
    stripLeader (indent ++ leader ++ blanks ++ content) = leftover leader blanks ++ content := by
  have hspace : ∀ c ∈ content.head?, isSpace c = false := fun c hc ↦ isSpace_of_isEdge (hhead c hc)
  rw [stripLeader, List.append_assoc, List.append_assoc, dropWhile_spaces hindent]
  simp only [List.mem_cons, List.not_mem_nil, or_false] at hleader
  rcases hleader with rfl | rfl | rfl | rfl | rfl
  · have hbare : (blanks ++ content).dropWhile isSpace = content := by
      rw [dropWhile_spaces hblanks]
      cases content with
      | nil => rfl
      | cons c content => exact List.dropWhile_cons_of_neg (by rw [hspace c rfl]; decide)
    have hslash : ¬['/', '/'] <+: content := by
      rintro ⟨rest, rfl⟩
      exact absurd (hhead '/' rfl) (by decide)
    have hhash : ¬['#'] <+: content := by
      rintro ⟨rest, rfl⟩
      exact absurd (hhead '#' rfl) (by decide)
    have hstar : ¬['*'] <+: content := by
      rintro ⟨rest, rfl⟩
      exact absurd (hhead '*' rfl) (by decide)
    rw [List.nil_append, hbare, if_neg hslash, if_neg hhash, if_neg hdashes, if_neg hstar]
    have hnone : dropSpace ([] ++ content) = [].drop 1 ++ content := dropSpace_append rfl hspace
    exact hnone
  all_goals exact dropSpace_append hblanks hspace

theorem stripLeader_spaces {spaces : List Char} (h : spaces.all isSpace = true) :
    stripLeader spaces = [] := by
  have hstrip : stripLeader (spaces ++ [] ++ [] ++ []) = leftover [] [] ++ [] :=
    stripLeader_append h rfl List.mem_cons_self nofun nofun
  simpa [leftover] using hstrip

theorem eq_replicate_of_isRun {c : Char} {least : ℕ} {text : List Char}
    (h : isRun c least text = true) : ∃ more, text = List.replicate (least + more) c := by
  obtain ⟨hlength, hall⟩ := Bool.and_eq_true_iff.1 h
  obtain ⟨more, hmore⟩ := Nat.exists_eq_add_of_le (of_decide_eq_true hlength)
  refine ⟨more, hmore ▸ List.eq_replicate_of_mem fun d hd ↦ ?_⟩
  exact of_decide_eq_true (List.all_eq_true.1 hall d hd)

/-- **A leader of more characters does not come off**: its last character stays. -/
theorem stripLeader_repeated {indent leader gap : List Char} (hindent : indent.all isSpace = true)
    (hleader : isLineLeader leader = true)
    (hnot : leader ∉ [[], ['/', '/'], ['#'], ['-', '-'], ['*']]) :
    ∃ lead c, isDangling c = true ∧ stripLeader (indent ++ leader ++ gap) = lead ++ c :: gap := by
  have hsplit (c : Char) (n : ℕ) : List.replicate (n + 1) c = List.replicate n c ++ [c] :=
    List.replicate_succ'
  rw [stripLeader, List.append_assoc, dropWhile_spaces hindent]
  rw [isLineLeader, Bool.or_eq_true, Bool.or_eq_true, Bool.or_eq_true, decide_eq_true_eq] at hleader
  rcases hleader with ((hrun | hrun) | hrun) | rfl
  · obtain ⟨more, rfl⟩ := eq_replicate_of_isRun hrun
    cases more with
    | zero => exact absurd (by decide) hnot
    | succ more =>
      refine ⟨List.replicate more '/', '/', rfl, ?_⟩
      rw [List.append_cons, ← hsplit, Nat.add_comm 2, List.replicate_succ, List.replicate_succ,
        List.replicate_succ]
      rfl
  · obtain ⟨more, rfl⟩ := eq_replicate_of_isRun hrun
    cases more with
    | zero => exact absurd (by decide) hnot
    | succ more =>
      refine ⟨List.replicate more '#', '#', rfl, ?_⟩
      rw [List.append_cons, ← hsplit, Nat.add_comm 1, List.replicate_succ, List.replicate_succ]
      rfl
  · obtain ⟨more, rfl⟩ := eq_replicate_of_isRun hrun
    cases more with
    | zero => exact absurd (by decide) hnot
    | succ more =>
      refine ⟨List.replicate more '-', '-', rfl, ?_⟩
      rw [List.append_cons, ← hsplit, Nat.add_comm 2, List.replicate_succ, List.replicate_succ,
        List.replicate_succ]
      rfl
  · exact absurd (by decide) hnot

namespace ContractComment

variable {comment : ContractComment}

/-! ### The lines of a comment -/

/-- The characters of leaders. -/
def isLeaderChar (c : Char) : Bool := c ∈ ['/', '#', '-', '*']

theorem isLeaderChar_of_isRun {c : Char} {least : ℕ} {text : List Char}
    (hc : isLeaderChar c = true) (h : isRun c least text = true) :
    ∀ d ∈ text, isLeaderChar d = true := by
  intro d hd
  rw [of_decide_eq_true (List.all_eq_true.1 (Bool.and_eq_true_iff.1 h).2 d hd), hc]

theorem isLeaderChar_of_isLineLeader {text : List Char} (h : isLineLeader text = true) :
    ∀ c ∈ text, isLeaderChar c = true := by
  rw [isLineLeader, Bool.or_eq_true, Bool.or_eq_true, Bool.or_eq_true, decide_eq_true_eq] at h
  rcases h with ((hrun | hrun) | hrun) | rfl
  · exact isLeaderChar_of_isRun (by decide) hrun
  · exact isLeaderChar_of_isRun (by decide) hrun
  · exact isLeaderChar_of_isRun (by decide) hrun
  · exact List.all_eq_true.1 rfl

theorem isLeaderChar_of_isBlockOpener {text : List Char} (h : isBlockOpener text = true) :
    ∀ c ∈ text, isLeaderChar c = true := by
  unfold isBlockOpener at h
  split at h
  · intro c hc
    rcases List.mem_cons.1 hc with rfl | hc
    · decide
    · exact isLeaderChar_of_isRun (by decide) h c hc
  · exact nomatch h

theorem isLeaderChar_opener : ∀ c ∈ comment.form.opener, isLeaderChar c = true := by
  rcases comment.form.isForm with ⟨hline, -⟩ | ⟨hblock, -⟩
  · exact isLeaderChar_of_isLineLeader hline
  · exact isLeaderChar_of_isBlockOpener hblock

theorem isLeaderChar_leader : ∀ c ∈ comment.form.leader, isLeaderChar c = true := by
  rcases comment.form.isForm with ⟨hline, heq⟩ | ⟨-, heq | heq⟩
  · exact heq ▸ isLeaderChar_of_isLineLeader hline
  · exact heq ▸ nofun
  · exact heq ▸ List.all_eq_true.1 rfl

/-- A character that is neither a blank nor of a leader. -/
theorem not_mem_blanks {c : Char} (hspace : isSpace c = false) (blanks : Blanks) : c ∉ blanks.1 :=
  fun hmem ↦ absurd (List.all_eq_true.1 blanks.2.1 c hmem) (by rw [hspace]; decide)

theorem not_mem_lead {c : Char} (h : isLeaderChar c = false)
    (hblank : ∀ blanks : Blanks, c ∉ blanks.1) : c ∉ comment.lead := by
  rw [lead, List.mem_append, List.mem_append, not_or, not_or]
  exact ⟨⟨hblank _, fun hmem ↦ absurd (isLeaderChar_leader c hmem) (by rw [h]; decide)⟩, hblank _⟩

theorem not_mem_opening {c : Char} (h : isLeaderChar c = false)
    (hblank : ∀ blanks : Blanks, c ∉ blanks.1) : c ∉ comment.opening := by
  rw [opening, List.mem_append, List.mem_append, not_or, not_or]
  exact ⟨⟨hblank _, fun hmem ↦ absurd (isLeaderChar_opener c hmem) (by rw [h]; decide)⟩, hblank _⟩

theorem newline_not_mem_lead : '\n' ∉ comment.lead :=
  not_mem_lead (by decide) fun blanks ↦ blanks.2.2

theorem newline_not_mem_opening : '\n' ∉ comment.opening :=
  not_mem_opening (by decide) fun blanks ↦ blanks.2.2

theorem at_not_mem_lead : '@' ∉ comment.lead :=
  not_mem_lead (by decide) (not_mem_blanks (by decide))

theorem at_not_mem_opening : '@' ∉ comment.opening :=
  not_mem_opening (by decide) (not_mem_blanks (by decide))

/-- A line ends in a line break, with a carriage return before it or without. -/
theorem lineEnd_eq : ∃ carriage, comment.lineEnd = carriage ++ ['\n'] ∧
    (carriage = [] ∨ carriage = ['\r']) := by
  rw [lineEnd]
  split
  · exact ⟨['\r'], rfl, .inr rfl⟩
  · exact ⟨[], rfl, .inl rfl⟩

theorem at_not_mem_lineEnd : '@' ∉ comment.lineEnd := by
  rw [lineEnd]
  split <;> decide

/-- The lines of the body. -/
theorem splitLines_lines {lines : List JsonLine} (hlines : ∀ line ∈ lines, IsJsonLine line.content) :
    splitLines ((lines.flatMap fun line ↦ comment.lead ++ line.text ++ comment.lineEnd) ++
        comment.lead) =
      lines.map (fun line ↦ comment.lead ++ line.text) ++ [comment.lead] := by
  induction lines with
  | nil => exact splitLines_of_not_mem newline_not_mem_lead
  | cons line lines ih =>
    obtain ⟨carriage, hend, hcarriage⟩ := comment.lineEnd_eq
    have hjson := hlines line List.mem_cons_self
    obtain ⟨contentLead, c, hcontent, hedge⟩ := hjson.last
    have hnewline : '\n' ∉ comment.lead ++ line.text ++ carriage := by
      rw [JsonLine.text, List.mem_append, List.mem_append, List.mem_append, not_or, not_or, not_or]
      refine ⟨⟨newline_not_mem_lead, fun hmem ↦ ?_, hjson.oneLine⟩, ?_⟩
      · exact absurd (List.eq_of_mem_replicate hmem) (by decide)
      · rcases hcarriage with rfl | rfl <;> decide
    have hreturn : dropReturn (comment.lead ++ line.text ++ carriage) = comment.lead ++ line.text := by
      rcases hcarriage with rfl | rfl
      · rw [List.append_nil, JsonLine.text, hcontent, ← List.append_assoc, ← List.append_assoc]
        exact dropReturn_of_edge hedge
      · exact dropReturn_return _
    have hshape (rest : List Char) : comment.lead ++ line.text ++ comment.lineEnd ++ rest =
        comment.lead ++ line.text ++ carriage ++ '\n' :: rest := by
      rw [hend]
      simp
    rw [List.flatMap_cons, List.append_assoc _ _ comment.lead, hshape, splitLines_cons hnewline,
      hreturn, ih fun other hother ↦ hlines other (List.mem_cons_of_mem _ hother)]
    rfl

/-- The lines of a comment lose their leaders; nothing is left of the line of the start marker. -/
theorem stripped_body : (splitLines comment.body).map stripLeader =
    [] :: (prettyLines comment.value.1).map (fun line ↦ stripLeader (comment.lead ++ line.text)) ++
      [stripLeader comment.lead] := by
  obtain ⟨carriage, hend, hcarriage⟩ := comment.lineEnd_eq
  have hnewline : '\n' ∉ comment.openTail.1 ++ carriage := by
    rw [List.mem_append, not_or]
    refine ⟨comment.openTail.2.2, ?_⟩
    rcases hcarriage with rfl | rfl <;> decide
  have hspaces : (comment.openTail.1 ++ carriage).all isSpace = true := by
    rw [List.all_append, comment.openTail.2.1]
    rcases hcarriage with rfl | rfl <;> decide
  have hreturn : (dropReturn (comment.openTail.1 ++ carriage)).all isSpace = true := by
    rw [dropReturn]
    split
    · exact List.all_eq_true.2 fun c hc ↦
        List.all_eq_true.1 hspaces c (List.dropLast_subset _ hc)
    · exact hspaces
  have hshape : comment.body = comment.openTail.1 ++ carriage ++ '\n' ::
      (((prettyLines comment.value.1).flatMap fun line ↦
        comment.lead ++ line.text ++ comment.lineEnd) ++ comment.lead) := by
    have hfirst : comment.openTail.1 ++ comment.lineEnd =
        comment.openTail.1 ++ carriage ++ ['\n'] := by rw [hend, List.append_assoc]
    rw [body, hfirst]
    simp
  rw [hshape, splitLines_cons hnewline,
    splitLines_lines (isJsonLine_prettyLines comment.value.1 comment.value.2), List.map_cons,
    List.map_append, List.map_map, stripLeader_spaces hreturn]
  rfl

end ContractComment

end CodeConductor
