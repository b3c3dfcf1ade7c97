import CodeConductor.Source.Extract

/-!
# Contracts in comments are read back

A comment is found by its markers whatever its leader is. Its lines are JSON again exactly when the
leader comes off each of them (`LeaderComesOff`): a leader of more characters leaves its last character
in every line, the last of which then ends in it, and no JSON does.
-/

namespace CodeConductor

/-- A blank that JSON does not know is not part of any token. -/
theorem lexFrom_blanks_eq_none {blanks : List Char} (hblanks : blanks.all isSpace = true)
    (hnot : blanks.all isJsonBlank = false) (text : List Char) :
    lexFrom .between (blanks ++ text) = none := by
  induction blanks with
  | nil => exact nomatch hnot
  | cons c blanks ih =>
    obtain ⟨hc, hrest⟩ := Bool.and_eq_true_iff.1 hblanks
    rw [List.cons_append, lexFrom]
    by_cases hjson : isJsonBlank c = true
    · rw [if_pos hjson]
      refine ih hrest ?_
      rwa [List.all_cons, hjson, Bool.true_and] at hnot
    · have hedge : isEdge c = false := by
        cases h : isEdge c with
        | false => rfl
        | true => exact absurd hc (by rw [isSpace_of_isEdge h]; decide)
      rw [isEdge, Bool.or_eq_false_iff, Bool.or_eq_false_iff] at hedge
      obtain ⟨⟨hquote, hpunct⟩, hatom⟩ := hedge
      rw [if_neg hjson, if_neg (by rw [hpunct]; decide), if_neg (of_decide_eq_false hquote),
        if_neg (by rw [hatom]; decide)]

/-! ### The start marker -/

theorem splitAtWord_start {text : List Char} (h : ¬startMarker <:+: text) (after : List Char) :
    splitAtWord startMarker (text ++ (startMarker ++ after)) = some (text, after) := by
  obtain ⟨word, hmarker, hword, -⟩ := startMarker_eq
  rw [hmarker] at h ⊢
  exact splitAtWord_of_not_infix hword h after

theorem splitAtWord_start_eq_none {text : List Char} (h : ¬startMarker <:+: text) :
    splitAtWord startMarker text = none := by
  obtain ⟨word, hmarker, -⟩ := startMarker_eq
  rw [hmarker] at h ⊢
  exact splitAtWord_eq_none h

theorem start_not_infix_append {lead text : List Char} (hlead : '@' ∉ lead)
    (h : ¬startMarker <:+: text) : ¬startMarker <:+: lead ++ text := by
  obtain ⟨word, hmarker, -⟩ := startMarker_eq
  rw [hmarker] at h ⊢
  exact not_infix_append hlead h

theorem start_not_infix_append_right {text tail : List Char} (htail : '@' ∉ tail)
    (hlines : text = [] ∨ text.getLast? = some '\n') (h : ¬startMarker <:+: text) :
    ¬startMarker <:+: text ++ tail := by
  obtain ⟨word, hmarker, -, hnewline⟩ := startMarker_eq
  rw [hmarker] at h hnewline ⊢
  exact not_infix_append_right htail hnewline hlines h

namespace ContractComment

variable {comment : ContractComment}

/-! ### The JSON of a comment -/

/-- What is read as JSON. -/
def raw (comment : ContractComment) : List Char :=
  trimSpaces (joinLines ((splitLines comment.body).map stripLeader))

theorem joinLines_lines (lines : List (List Char)) (last : List Char) :
    joinLines ([] :: lines ++ [last]) = (lines.flatMap fun line ↦ '\n' :: line) ++ '\n' :: last := by
  simp [joinLines]

theorem isSpace_leftover {leader blanks : List Char} (h : blanks.all isSpace = true) :
    (leftover leader blanks).all isSpace = true := by
  rw [leftover]
  split
  · rfl
  · exact List.all_eq_true.2 fun c hc ↦ List.all_eq_true.1 h c (List.mem_of_mem_drop hc)

/-- The blanks before the content of a line. -/
def lineBlanks (comment : ContractComment) (line : JsonLine) : List Char :=
  comment.gap.1 ++ List.replicate (2 * line.depth) ' '

theorem lineBlanks_spaces (line : JsonLine) : (comment.lineBlanks line).all isSpace = true := by
  rw [lineBlanks, List.all_append, comment.gap.2.1, Bool.true_and]
  exact List.all_eq_true.2 fun c hc ↦ List.eq_of_mem_replicate hc ▸ by decide

/-- **What is read** when the leader is one that comes off: the lines with what is left of their blanks,
without those around the whole. -/
theorem raw_of_leader (hleader : comment.form.leader ∈ [[], ['/', '/'], ['#'], ['-', '-'], ['*']])
    {line : JsonLine} {rest : List JsonLine} (hlines : prettyLines comment.value.1 = line :: rest) :
    comment.raw = line.content ++ rest.flatMap fun line ↦
      '\n' :: (leftover comment.form.leader (comment.lineBlanks line) ++ line.content) := by
  have hjson : ∀ other ∈ line :: rest, IsJsonLine other.content :=
    hlines ▸ isJsonLine_prettyLines comment.value.1 comment.value.2
  have hstrip (other : JsonLine) (h : IsJsonLine other.content) :
      stripLeader (comment.lead ++ other.text) =
        leftover comment.form.leader (comment.lineBlanks other) ++ other.content := by
    obtain ⟨c, tail, hcontent, hedge⟩ := h.head
    have hhead : ∀ d ∈ other.content.head?, isEdge d = true := by
      intro d hd
      rw [hcontent] at hd
      exact Option.some.inj hd ▸ hedge
    have hshape : comment.lead ++ other.text =
        comment.indent.1 ++ comment.form.leader ++ comment.lineBlanks other ++ other.content := by
      simp only [lead, JsonLine.text, lineBlanks, List.append_assoc]
    rw [hshape, stripLeader_append comment.indent.2.1 (lineBlanks_spaces other) hleader hhead h.noDashes]
  have hlast : stripLeader comment.lead = leftover comment.form.leader comment.gap.1 := by
    have h : stripLeader (comment.lead ++ []) = leftover comment.form.leader comment.gap.1 ++ [] :=
      stripLeader_append comment.indent.2.1 comment.gap.2.1 hleader (by simp) (by simp)
    rwa [List.append_nil, List.append_nil] at h
  have hmap : (line :: rest).map (fun other ↦ stripLeader (comment.lead ++ other.text)) =
      (line :: rest).map fun other ↦
        leftover comment.form.leader (comment.lineBlanks other) ++ other.content :=
    List.map_congr_left fun other hother ↦ hstrip other (hjson other hother)
  rw [raw, stripped_body, hlines, hmap, hlast, joinLines_lines]
  obtain ⟨c, tail, hcontent, hedge⟩ := (hjson line List.mem_cons_self).head
  obtain ⟨front, d, hfront, hedge'⟩ : ∃ front d,
      line.content ++ rest.flatMap (fun line ↦
        '\n' :: (leftover comment.form.leader (comment.lineBlanks line) ++ line.content)) =
          front ++ [d] ∧ isEdge d = true := by
    rcases List.eq_nil_or_concat rest with rfl | ⟨others, last, rfl⟩
    · obtain ⟨front, d, hfront, hedge'⟩ := (hjson line List.mem_cons_self).last
      exact ⟨front, d, by rw [List.flatMap_nil, List.append_nil, hfront], hedge'⟩
    · obtain ⟨front, d, hfront, hedge'⟩ := (hjson last (by simp)).last
      refine ⟨line.content ++ others.flatMap (fun line ↦
        '\n' :: (leftover comment.form.leader (comment.lineBlanks line) ++ line.content)) ++
          '\n' :: (leftover comment.form.leader (comment.lineBlanks last) ++ front), d, ?_, hedge'⟩
      rw [List.concat_eq_append, List.flatMap_append, List.flatMap_singleton, hfront]
      simp only [List.append_assoc, List.cons_append]
  have hbefore : ('\n' :: leftover comment.form.leader (comment.lineBlanks line)).all isSpace = true :=
    Bool.and_eq_true_iff.2 ⟨by decide, isSpace_leftover (lineBlanks_spaces line)⟩
  have hafter : ('\n' :: leftover comment.form.leader comment.gap.1).all isSpace = true :=
    Bool.and_eq_true_iff.2 ⟨by decide, isSpace_leftover comment.gap.2.1⟩
  have htrim := trimSpaces_append hbefore hafter
    (congrArg (· ++ rest.flatMap fun line ↦
      '\n' :: (leftover comment.form.leader (comment.lineBlanks line) ++ line.content)) hcontent)
    (isSpace_of_isEdge hedge) hfront (isSpace_of_isEdge hedge')
  rw [← htrim]
  congr 1
  simp only [List.map_cons, List.flatMap_cons, List.flatMap_map, List.append_assoc, List.cons_append]

/-- The blanks before the lines of JSON are blanks of JSON when those of the leader's gap are. -/
theorem leftover_lineBlanks (h : comment.form.leader = [] ∨ (comment.gap.1.drop 1).all isJsonBlank = true)
    (line : JsonLine) : (leftover comment.form.leader (comment.lineBlanks line)).all isJsonBlank = true := by
  rw [leftover]
  split
  · rfl
  · rename_i hleader
    have hgap := h.resolve_left hleader
    rw [lineBlanks, List.drop_append, List.all_append, hgap, Bool.true_and]
    exact List.all_eq_true.2 fun c hc ↦
      List.eq_of_mem_replicate (List.mem_of_mem_drop hc) ▸ by decide

/-- Where the leader comes off, what is read is the contract. -/
theorem jsonParse_raw (h : comment.LeaderComesOff) : jsonParse comment.raw = some comment.value.1 := by
  obtain ⟨hleader, hblanks⟩ := h
  obtain ⟨line, rest, hlines⟩ := List.exists_cons_of_ne_nil (prettyLines_ne_nil comment.value.1)
  rw [raw_of_leader hleader hlines]
  refine jsonParse_prettyLines comment.value.2 hlines fun other hother ↦ ?_
  rcases hblanks with hnil | hone | hgap
  · exact leftover_lineBlanks (.inl hnil) other
  · rw [hlines, List.length_cons] at hone
    obtain rfl : rest = [] := List.eq_nil_of_length_eq_zero (by omega)
    exact nomatch hother
  · exact leftover_lineBlanks (.inr hgap) other

/-- Where a blank is left that JSON does not know, nothing is read. -/
theorem jsonParse_raw_of_blank (hleader : comment.form.leader ∈ [['/', '/'], ['#'], ['-', '-'], ['*']])
    (hlength : (prettyLines comment.value.1).length ≠ 1)
    (hgap : (comment.gap.1.drop 1).all isJsonBlank = false) : jsonParse comment.raw = none := by
  obtain ⟨line, rest, hlines⟩ := List.exists_cons_of_ne_nil (prettyLines_ne_nil comment.value.1)
  rw [raw_of_leader (List.mem_cons_of_mem _ hleader) hlines]
  cases rest with
  | nil => exact absurd (by rw [hlines]; rfl) hlength
  | cons next rest =>
    have hne : comment.form.leader ≠ [] := fun heq ↦ absurd (heq ▸ hleader) (by decide)
    have hleft : leftover comment.form.leader (comment.lineBlanks next) =
        comment.gap.1.drop 1 ++ List.replicate (2 * next.depth) ' ' := by
      have hdrop : comment.gap.1 ≠ [] := fun heq ↦ absurd hgap (by rw [heq]; decide)
      obtain ⟨c, tail, hcons⟩ := List.exists_cons_of_ne_nil hdrop
      rw [leftover, if_neg hne, lineBlanks, hcons]
      rfl
    have hspaces : (comment.gap.1.drop 1).all isSpace = true := List.all_eq_true.2 fun c hc ↦
      List.all_eq_true.1 comment.gap.2.1 c (List.mem_of_mem_drop hc)
    have htokens := lexLines_prettyLines comment.value.1 comment.value.2
    rw [hlines] at htokens
    obtain ⟨first, hfirst, -⟩ := Option.bind_eq_some_iff.1 htokens
    have hnewline (text : List Char) :
        lexFrom .between ('\n' :: text) = lexFrom .between text := rfl
    rw [jsonParse, List.flatMap_cons, List.cons_append, lexFrom_append hfirst (by decide), hnewline,
      hleft, List.append_assoc, List.append_assoc, lexFrom_blanks_eq_none hspaces hgap]
    rfl

/-- Where more characters are in the leader, one is left at the end. -/
theorem jsonParse_raw_of_leader
    (hleader : comment.form.leader ∉ [[], ['/', '/'], ['#'], ['-', '-'], ['*']]) :
    jsonParse comment.raw = none := by
  have hline : isLineLeader comment.form.leader = true := by
    rcases comment.form.isForm with ⟨hline, heq⟩ | ⟨-, heq | heq⟩
    · exact heq ▸ hline
    · exact absurd (heq ▸ List.mem_cons_self) hleader
    · exact absurd (by rw [heq]; decide) hleader
  obtain ⟨lead, c, hc, hlast⟩ : ∃ lead c, isDangling c = true ∧
      stripLeader comment.lead = lead ++ c :: comment.gap.1 :=
    stripLeader_repeated comment.indent.2.1 hline hleader
  have hspace : isSpace c = false := by
    rw [isDangling, Bool.or_eq_true, Bool.or_eq_true, decide_eq_true_eq, decide_eq_true_eq,
      decide_eq_true_eq] at hc
    rcases hc with (rfl | rfl) | rfl <;> decide
  have hraw : ∃ front, comment.raw = front ++ [c] := by
    rw [raw, stripped_body, joinLines_lines, hlast, ← List.cons_append, ← List.append_assoc]
    exact exists_trimSpaces hspace comment.gap.2.1
  obtain ⟨front, hfront⟩ := hraw
  rw [hfront, jsonParse_eq_none hc]

/-- Where the leader does not come off, nothing is read. -/
theorem jsonParse_raw_eq_none (h : ¬comment.LeaderComesOff) : jsonParse comment.raw = none := by
  by_cases hleader : comment.form.leader ∈ [[], ['/', '/'], ['#'], ['-', '-'], ['*']]
  · have hblanks : ¬(comment.form.leader = [] ∨ (prettyLines comment.value.1).length = 1 ∨
        (comment.gap.1.drop 1).all isJsonBlank = true) := fun hblanks ↦ h ⟨hleader, hblanks⟩
    rw [not_or, not_or] at hblanks
    obtain ⟨hne, hlength, hgap⟩ := hblanks
    exact jsonParse_raw_of_blank ((List.mem_cons.1 hleader).resolve_left hne) hlength
      (Bool.eq_false_iff.2 hgap)
  · exact jsonParse_raw_of_leader hleader

/-! ### The markers of a comment -/

theorem edge_of_isLeaderChar {c : Char} (h : isLeaderChar c = true) : isSpace c = false := by
  have hmem : c ∈ ['/', '#', '-', '*'] := of_decide_eq_true h
  simp only [List.mem_cons, List.not_mem_nil, or_false] at hmem
  rcases hmem with rfl | rfl | rfl | rfl <;> decide

/-- A leader between blanks. -/
theorem trimSpaces_leader {indent gap : Blanks} {leader : List Char}
    (h : ∀ c ∈ leader, isLeaderChar c = true) : trimSpaces (indent.1 ++ leader ++ gap.1) = leader := by
  cases leader with
  | nil =>
    rw [List.append_nil]
    exact trimSpaces_spaces (by rw [List.all_append, indent.2.1, gap.2.1]; rfl)
  | cons c rest =>
    obtain ⟨front, last, hlast⟩ : ∃ front last, c :: rest = front ++ [last] :=
      ⟨_, _, (List.dropLast_append_getLast (List.cons_ne_nil c rest)).symm⟩
    rw [List.append_assoc]
    exact trimSpaces_append indent.2.1 gap.2.1 rfl (edge_of_isLeaderChar (h c List.mem_cons_self)) hlast
      (edge_of_isLeaderChar (h last (hlast ▸ List.mem_append_right _ List.mem_cons_self)))

theorem firstLine_append {line : List Char} (h : '\n' ∉ line) (rest : List Char) :
    firstLine (line ++ '\n' :: rest) = line := by
  have hpos : ∀ c ∈ line, decide (c ≠ '\n') = true := fun c hc ↦
    decide_eq_true fun heq ↦ h (heq ▸ hc)
  rw [firstLine, List.takeWhile_append_of_pos hpos]
  exact List.append_nil line

theorem firstLine_of_not_mem {line : List Char} (h : '\n' ∉ line) : firstLine line = line :=
  List.takeWhile_eq_self_iff.2 fun _ hc ↦ decide_eq_true fun heq ↦ h (heq ▸ hc)

/-- The start marker is found on its line. -/
theorem isCommentStartMarker_opening {before : List Char}
    (hbefore : before = [] ∨ before.getLast? = some '\n') (rest : List Char) :
    isCommentStartMarker (before ++ comment.opening) (comment.openTail.1 ++ comment.lineEnd ++ rest) =
      true := by
  have hleader : trimSpaces (lastLine (before ++ comment.opening)) = comment.form.opener := by
    rw [lastLine_append hbefore newline_not_mem_opening]
    exact trimSpaces_leader isLeaderChar_opener
  have hopener : (isBlockOpener comment.form.opener || isLineLeader comment.form.opener) = true := by
    rcases comment.form.isForm with ⟨hline, -⟩ | ⟨hblock, -⟩
    · rw [hline, Bool.or_true]
    · rw [hblock, Bool.true_or]
  obtain ⟨carriage, hend, hcarriage⟩ := comment.lineEnd_eq
  have hnewline : '\n' ∉ comment.openTail.1 ++ carriage := by
    rw [List.mem_append, not_or]
    refine ⟨comment.openTail.2.2, ?_⟩
    rcases hcarriage with rfl | rfl <;> decide
  have hblank : (firstLine (comment.openTail.1 ++ comment.lineEnd ++ rest)).all isSpace = true := by
    have hshape : comment.openTail.1 ++ comment.lineEnd ++ rest =
        comment.openTail.1 ++ carriage ++ '\n' :: rest := by
      rw [hend]
      simp
    rw [hshape, firstLine_append hnewline, List.all_append, comment.openTail.2.1]
    rcases hcarriage with rfl | rfl <;> decide
  rw [isCommentStartMarker, hleader, hopener, hblank]
  rfl

theorem not_mem_ending {c : Char} (h : ∀ closing ∈ [[], ['*', '/'], ['-', '-', '>']], c ∉ closing)
    (hblank : ∀ blanks : Blanks, c ∉ blanks.1) : c ∉ comment.ending := by
  rw [ending, List.mem_append, List.mem_append, not_or, not_or]
  exact ⟨⟨hblank _, h _ comment.isClosing⟩, hblank _⟩

theorem newline_not_mem_ending : '\n' ∉ comment.ending :=
  not_mem_ending (by decide) fun blanks ↦ blanks.2.2

theorem at_not_mem_ending : '@' ∉ comment.ending :=
  not_mem_ending (by decide) (not_mem_blanks (by decide))

/-- What stands after the end marker is trimmed to what closes the comment. -/
theorem trimSpaces_ending : trimSpaces comment.ending = comment.closing := by
  have hclosing := comment.isClosing
  simp only [List.mem_cons, List.not_mem_nil, or_false] at hclosing
  rw [ending, List.append_assoc]
  rcases hclosing with heq | heq | heq
  · rw [heq, List.nil_append]
    exact trimSpaces_spaces (by rw [List.all_append, comment.closeGap.2.1, comment.closeTail.2.1]; rfl)
  · rw [heq]
    exact trimSpaces_append comment.closeGap.2.1 comment.closeTail.2.1 rfl (by decide)
      (show ['*', '/'] = ['*'] ++ ['/'] from rfl) (by decide)
  · rw [heq]
    exact trimSpaces_append comment.closeGap.2.1 comment.closeTail.2.1 rfl (by decide)
      (show ['-', '-', '>'] = ['-', '-'] ++ ['>'] from rfl) (by decide)

/-- Every `@` in lines of JSON stands behind a quote. -/
theorem quote_mem_lines {lines : List JsonLine} (hlines : ∀ line ∈ lines, IsJsonLine line.content)
    {before skipped rest : List Char}
    (h : (lines.flatMap fun line ↦ comment.lead ++ line.text ++ comment.lineEnd) =
      skipped ++ '@' :: rest) : '"' ∈ lastLine (before ++ skipped) := by
  induction lines generalizing before skipped with
  | nil => exact absurd h.symm (by simp)
  | cons line lines ih =>
    rw [List.flatMap_cons] at h
    rcases append_eq_append_cons h with ⟨_, hline⟩ | ⟨skipped, rfl, hmore⟩
    · exact quote_mem_lastLine (hlines line List.mem_cons_self) at_not_mem_lead at_not_mem_lineEnd hline
    · rw [← List.append_assoc]
      exact ih (fun other hother ↦ hlines other (List.mem_cons_of_mem _ hother)) hmore

/-- **No marker in a string ends the comment.** -/
theorem isCommentEndMarker_within {before skipped rest : List Char}
    (h : comment.body = skipped ++ '@' :: rest) (after : List Char) :
    isCommentEndMarker (before ++ skipped) after = false := by
  rw [body] at h
  rcases append_eq_append_cons h with ⟨_, hlines⟩ | ⟨_, -, hlead⟩
  · rcases append_eq_append_cons hlines with ⟨_, hfirst⟩ | ⟨skipped, rfl, hmore⟩
    · have hmem : '@' ∈ comment.openTail.1 ++ comment.lineEnd :=
        hfirst ▸ List.mem_append_right _ List.mem_cons_self
      rcases List.mem_append.1 hmem with hmem | hmem
      · exact absurd hmem (not_mem_blanks (by decide) _)
      · exact absurd hmem at_not_mem_lineEnd
    · rw [← List.append_assoc]
      exact isCommentEndMarker_of_quote
        (quote_mem_lines (isJsonLine_prettyLines comment.value.1 comment.value.2) hmore)
  · exact absurd (hlead ▸ List.mem_append_right _ List.mem_cons_self) at_not_mem_lead

/-- The lines of a body, which ends with what a line begins with. -/
theorem exists_body : ∃ lines, comment.body = lines ++ comment.lead ∧ lines.getLast? = some '\n' := by
  obtain ⟨carriage, hend, -⟩ := comment.lineEnd_eq
  refine ⟨_, rfl, ?_⟩
  obtain ⟨others, last, hlines⟩ : ∃ others last, prettyLines comment.value.1 = others ++ [last] :=
    ⟨_, _, (List.dropLast_append_getLast (prettyLines_ne_nil comment.value.1)).symm⟩
  rw [hlines, List.flatMap_append, List.flatMap_singleton, hend, ← List.append_assoc,
    ← List.append_assoc, ← List.append_assoc]
  exact List.getLast?_concat

/-- The end marker is found on its line. -/
theorem isCommentEndMarker_body (before : List Char) {rest : List Char}
    (hrest : rest = [] ∨ rest.head? = some '\n') :
    isCommentEndMarker (before ++ comment.body) (comment.ending ++ rest) = true := by
  obtain ⟨lines, hbody, hlast⟩ := comment.exists_body
  have hbefore : (before ++ lines).getLast? = some '\n' := by rw [List.getLast?_append, hlast]; rfl
  have hleader : trimSpaces (lastLine (before ++ comment.body)) = comment.form.leader := by
    rw [hbody, ← List.append_assoc, lastLine_append (.inr hbefore) newline_not_mem_lead]
    exact trimSpaces_leader isLeaderChar_leader
  have hclosing : trimSpaces (firstLine (comment.ending ++ rest)) = comment.closing := by
    rcases hrest with rfl | hhead
    · rw [List.append_nil, firstLine_of_not_mem newline_not_mem_ending, trimSpaces_ending]
    · obtain ⟨rest, rfl⟩ := List.head?_eq_some_iff.1 hhead
      rw [firstLine_append newline_not_mem_ending, trimSpaces_ending]
  have hform : (comment.form.leader = [] || isLineLeader comment.form.leader) = true := by
    rcases comment.form.isForm with ⟨hline, heq⟩ | ⟨-, heq | heq⟩
    · rw [heq, hline, Bool.or_true]
    · rw [heq]
      rfl
    · rw [heq]
      rfl
  have hends : comment.closing = [] ∨ comment.closing = ['*', '/'] ∨
      comment.closing = ['-', '-', '>'] := by simpa using comment.isClosing
  rw [isCommentEndMarker, hleader, hclosing, hform]
  rcases hends with heq | heq | heq <;> rw [heq] <;> decide

/-- **The body of a comment is found**, whatever its leader is. -/
theorem findCommentEndMarker_body (before : List Char) {rest : List Char}
    (hrest : rest = [] ∨ rest.head? = some '\n') :
    findCommentEndMarker before (comment.body ++ (endMarker ++ (comment.ending ++ rest))) =
      some (comment.body, comment.ending ++ rest) :=
  findCommentEndMarker_append (isCommentEndMarker_body before hrest)
    fun _ _ h after ↦ isCommentEndMarker_within h after

variable (jsonMessage : List Char → String) (file : String)

/-- **One comment**: its contract is read, and then the rest of the file. -/
theorem extractContracts_comment {before skip rest : List Char} (lines : SourceLines)
    (hskip : '@' ∉ skip) (hbefore : before ++ skip = [] ∨ (before ++ skip).getLast? = some '\n')
    (hrest : rest = [] ∨ rest.head? = some '\n') :
    extractContracts jsonMessage file before (skip ++ (lines.1 ++ comment.text ++ rest)) =
      match jsonParse comment.raw with
      | none =>
        .error (file ++ ":" ++ toString ((before ++ skip ++ lines.1).count '\n' + 1) ++
          " contains invalid Conductor JSON: " ++ jsonMessage comment.raw)
      | some value => do
        let others ← extractContracts jsonMessage file
          (before ++ skip ++ lines.1 ++ comment.opening ++ startMarker ++ comment.body ++ endMarker)
          (comment.ending ++ rest)
        return ((before ++ skip ++ lines.1).count '\n' + 1, value) :: others := by
  have hshape : skip ++ (lines.1 ++ comment.text ++ rest) =
      skip ++ (lines.1 ++ comment.opening) ++
        (startMarker ++ (comment.body ++ (endMarker ++ (comment.ending ++ rest)))) := by
    simp only [text, List.append_assoc]
  have hnot : ¬startMarker <:+: skip ++ (lines.1 ++ comment.opening) :=
    start_not_infix_append hskip
      (start_not_infix_append_right at_not_mem_opening lines.2.2 lines.2.1)
  have hstart : splitAtWord startMarker (skip ++ (lines.1 ++ comment.text ++ rest)) =
      some (skip ++ (lines.1 ++ comment.opening),
        comment.body ++ (endMarker ++ (comment.ending ++ rest))) := by
    rw [hshape, splitAtWord_start hnot]
  have hline : before ++ skip ++ lines.1 = [] ∨ (before ++ skip ++ lines.1).getLast? = some '\n' := by
    rcases lines.2.2 with hnil | hlast
    · rwa [hnil, List.append_nil]
    · right
      rw [List.getLast?_append, hlast]
      rfl
  have hwhere : before ++ (skip ++ (lines.1 ++ comment.opening)) =
      before ++ skip ++ lines.1 ++ comment.opening := by simp only [List.append_assoc]
  have hcomment : isCommentStartMarker (before ++ (skip ++ (lines.1 ++ comment.opening)))
      (comment.body ++ (endMarker ++ (comment.ending ++ rest))) = true := by
    rw [hwhere, body, List.append_assoc _ comment.lead, List.append_assoc _ _ (comment.lead ++ _)]
    exact isCommentStartMarker_opening hline _
  have hcount : (splitLines (before ++ (skip ++ (lines.1 ++ comment.opening)))).length =
      (before ++ skip ++ lines.1).count '\n' + 1 := by
    rw [hwhere, length_splitLines, List.count_append, List.count_eq_zero.2 newline_not_mem_opening,
      Nat.add_zero]
  rw [extractContracts_some jsonMessage file hstart hcomment (findCommentEndMarker_body _ hrest),
    hcount, hwhere]
  rfl

end ContractComment

/-! ### Files -/

section Files

variable (jsonMessage : List Char → String) (file : String)

/-- A first contract, and the others. -/
theorem bind_cons_eq_ok {α : Type} (first : α) (others : Except String (List α)) (rest : List α) :
    (do let others ← others; return first :: others) = (.ok (first :: rest) : Except String (List α)) ↔
      others = .ok rest := by
  cases others with
  | error message => exact ⟨nofun, nofun⟩
  | ok others =>
    show (Except.ok (first :: others) : Except String (List α)) = .ok (first :: rest) ↔ _
    rw [Except.ok.injEq, Except.ok.injEq, List.cons.injEq]
    exact and_iff_right rfl

/-- A comment is followed by the end of its line or of the file. -/
theorem exists_piecesText {rest : List Char} (hrest : rest = [] ∨ rest.head? = some '\n')
    (piece : SourceLines × ContractComment) (pieces : List (SourceLines × ContractComment)) :
    ∃ tail, piecesText rest (piece :: pieces) = piece.1.1 ++ piece.2.text ++ tail ∧
      (tail = [] ∨ tail.head? = some '\n') := by
  cases pieces with
  | nil => exact ⟨rest, rfl, hrest⟩
  | cons next pieces => exact ⟨_, rfl, .inr rfl⟩

/-- **Every contract is extracted exactly when every leader comes off**, from a position at the
beginning of a line or before what ends one. -/
theorem extractContracts_pieces {rest : List Char} (hnot : ¬startMarker <:+: rest)
    (hrest : rest = [] ∨ rest.head? = some '\n') (pieces : List (SourceLines × ContractComment))
    {before skip : List Char} (hskip : '@' ∉ skip)
    (hbefore : before ++ skip = [] ∨ (before ++ skip).getLast? = some '\n') :
    extractContracts jsonMessage file before (skip ++ piecesText rest pieces) =
        .ok (piecesContracts (before ++ skip) pieces) ↔
      ∀ piece ∈ pieces, piece.2.LeaderComesOff := by
  have hend {before skip : List Char} (hskip : '@' ∉ skip) :
      extractContracts jsonMessage file before (skip ++ rest) = .ok [] :=
    extractContracts_none jsonMessage file
      (splitAtWord_start_eq_none (start_not_infix_append hskip hnot))
  induction pieces generalizing before skip with
  | nil => exact ⟨fun _ ↦ nofun, fun _ ↦ hend hskip⟩
  | cons piece pieces ih =>
    obtain ⟨lines, comment⟩ := piece
    have hending : '@' ∉ comment.ending := ContractComment.at_not_mem_ending
    rw [List.forall_mem_cons]
    by_cases hcomes : comment.LeaderComesOff
    · rw [and_iff_right hcomes]
      cases pieces with
      | nil =>
        rw [piecesText, comment.extractContracts_comment jsonMessage file lines hskip hbefore hrest,
          ContractComment.jsonParse_raw hcomes]
        refine (bind_cons_eq_ok _ _ _).trans ?_
        exact ⟨fun _ ↦ nofun, fun _ ↦ hend hending⟩
      | cons next pieces =>
        -- what is left of the line of the end marker is skipped with its line break
        have hskip' : '@' ∉ comment.ending ++ ['\n'] := by
          rw [List.mem_append, not_or]
          exact ⟨hending, by decide⟩
        have hshape : comment.ending ++ '\n' :: piecesText rest (next :: pieces) =
            comment.ending ++ ['\n'] ++ piecesText rest (next :: pieces) := by
          rw [List.append_assoc]
          rfl
        have hposition : before ++ skip ++ lines.1 ++ comment.opening ++ startMarker ++ comment.body ++
            endMarker ++ (comment.ending ++ ['\n']) =
              before ++ skip ++ lines.1 ++ comment.text ++ ['\n'] := by
          simp only [ContractComment.text, List.append_assoc]
        have hline : (before ++ skip ++ lines.1 ++ comment.opening ++ startMarker ++ comment.body ++
            endMarker ++ (comment.ending ++ ['\n'])).getLast? = some '\n' := by
          rw [hposition]
          exact List.getLast?_concat
        have hmore := ih hskip' (.inr hline)
        rw [hposition] at hmore
        rw [piecesText, comment.extractContracts_comment jsonMessage file lines hskip hbefore (.inr rfl),
          ContractComment.jsonParse_raw hcomes, hshape]
        exact (bind_cons_eq_ok _ _ _).trans hmore
        exact nofun
    · refine ⟨fun h ↦ ?_, fun h ↦ absurd h.1 hcomes⟩
      obtain ⟨tail, htext, htail⟩ := exists_piecesText hrest (lines, comment) pieces
      rw [htext, comment.extractContracts_comment jsonMessage file lines hskip hbefore htail,
        ContractComment.jsonParse_raw_eq_none hcomes] at h
      exact nomatch h

end Files

/-- **The contracts of a file come back exactly when no comment keeps a part of its leaders.** -/
theorem extractsAll_iff (jsonMessage : List Char → String) (file : String) (source : SourceFile) :
    ExtractsAll jsonMessage file source ↔ ∀ piece ∈ source.pieces, piece.2.LeaderComesOff := by
  obtain ⟨pieces, rest⟩ := source
  have hrest : (rest.elim [] fun text ↦ '\n' :: text.1 : List Char) = [] ∨
      (rest.elim [] fun text ↦ '\n' :: text.1 : List Char).head? = some '\n' := by
    cases rest with
    | none => exact .inl rfl
    | some text => exact .inr rfl
  have hnot : ¬startMarker <:+: (rest.elim [] fun text ↦ '\n' :: text.1 : List Char) := by
    cases rest with
    | none => decide
    | some text =>
      have hnewline : '@' ∉ ['\n'] := by decide
      exact start_not_infix_append hnewline text.2
  have hbegin : '@' ∉ ([] : List Char) := nofun
  exact extractContracts_pieces jsonMessage file hnot hrest pieces hbegin (.inl rfl)

/-- A number in a comment of three slashes. -/
def threeSlashes : SourceFile where
  pieces :=
    [(⟨[], by decide, .inl rfl⟩,
      { form := ⟨['/', '/', '/'], ['/', '/', '/'], .inl ⟨by decide, rfl⟩⟩
        openIndent := ⟨[], rfl, nofun⟩
        openGap := ⟨[' '], by decide, by decide⟩
        openTail := ⟨[], rfl, nofun⟩
        indent := ⟨[], rfl, nofun⟩
        gap := ⟨[' '], by decide, by decide⟩
        crlf := false
        value := ⟨.number ⟨['5'], by decide, List.all_eq_true.1 rfl⟩, by decide⟩
        closeGap := ⟨[], rfl, nofun⟩
        closing := []
        isClosing := by decide
        closeTail := ⟨[], rfl, nofun⟩ })]
  rest := none

example : String.ofList threeSlashes.text =
    "/// @conductor-contract\n/// 5\n/// @end-conductor-contract" := by decide +kernel

/-- The leader has one slash too many. -/
theorem not_extractsAll_threeSlashes :
    ¬ExtractsAll (fun _ ↦ "JSON Parse error: Unrecognized token") "contracts.ts" threeSlashes := by
  intro h
  have hbegin : '@' ∉ ([] : List Char) := nofun
  have hnot : ¬startMarker <:+: ([] : List Char) := by decide
  have hcomes := (extractContracts_pieces _ _ hnot (.inl rfl) threeSlashes.pieces hbegin
    (.inl rfl)).1 h
  have hleader := (hcomes _ (List.mem_singleton_self _)).1
  exact absurd hleader (by decide)

end CodeConductor
