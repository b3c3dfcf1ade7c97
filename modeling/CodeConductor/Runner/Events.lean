import CodeConductor.Json.Parse

/-!
# The events a process guardian reports

A guardian reports on its standard output, one line an event, each behind a prefix that begins with
a control character; every other line is a diagnostic and goes to the log. `readGuardianEvents` gets
the output in chunks that end anywhere. An event that is no JSON throws.

What a reader has received depends on the text alone, not on the chunks it came in (`foldlM_data`):
the events in their order, and the other lines, unchanged, in the log. A line the guardian did not
finish is no event.
-/

namespace CodeConductor.Runner

/-- `"\u001eCONDUCTOR_EVENT "`. -/
def eventPrefix : List Char := '\x1e' :: "CONDUCTOR_EVENT ".toList

/-- The variable `buffer` of `readGuardianEvents`, and what it has passed on: the events to
`receive`, and what was written to `output`. -/
structure Reader where
  buffer : List Char := []
  received : List JsonValue := []
  output : List Char := []

namespace Reader

variable {r r' : Reader} {text rest chunk : List Char}

/-- What is done with a whole line. -/
def line (r : Reader) (text : List Char) : Option Reader :=
  if eventPrefix <+: text then
    (jsonParse (text.drop eventPrefix.length)).map fun event ↦
      { r with received := r.received ++ [event] }
  else some { r with output := r.output ++ (text ++ ['\n']) }

theorem line_buffer (h : r.line text = some r') : r'.buffer = r.buffer := by
  rw [line] at h
  split at h
  · obtain ⟨event, -, rfl⟩ := Option.map_eq_some_iff.1 h
    rfl
  · obtain rfl := Option.some.inj h
    rfl

/-- The loop of the `data` listener: whole lines leave the buffer. -/
def drain (r : Reader) : Option Reader :=
  match _h : r.buffer.dropWhile (· ≠ '\n') with
  | [] => some r
  | _ :: rest =>
    match _hline : { r with buffer := rest }.line (r.buffer.takeWhile (· ≠ '\n')) with
    | none => none
    | some r' => r'.drain
termination_by r.buffer.length
decreasing_by
  have hlength := congrArg List.length _h
  have hle := (List.dropWhile_suffix (l := r.buffer) (· ≠ '\n')).length_le
  simp only [List.length_cons] at hlength
  rw [line_buffer _hline]
  show rest.length < r.buffer.length
  omega

/-- The `data` listener. -/
def data (r : Reader) (chunk : List Char) : Option Reader :=
  { r with buffer := r.buffer ++ chunk }.drain

/-- The `end` listener: what is left of the buffer is written out. -/
def finish (r : Reader) : Reader := { r with output := r.output ++ r.buffer }

/-! ### Lines -/

/-- What is done with a line leaves the buffer alone. -/
theorem line_append : { r with buffer := rest ++ chunk }.line text =
    ({ r with buffer := rest }.line text).map fun (r' : Reader) ↦
      { r' with buffer := rest ++ chunk } := by
  rw [line, line]
  split
  · rw [Option.map_map]
    rfl
  · rfl

theorem drain_of_not_mem (h : '\n' ∉ r.buffer) : r.drain = some r := by
  have hnone : r.buffer.dropWhile (· ≠ '\n') = [] := by
    rw [List.dropWhile_eq_nil_iff]
    intro c hc
    exact decide_eq_true fun heq ↦ h (heq ▸ hc)
  rw [drain]
  split
  · rfl
  · rename_i hcons
    exact absurd (hnone.symm.trans hcons) (by simp)

theorem drain_of_dropWhile {c : Char} (h : r.buffer.dropWhile (· ≠ '\n') = c :: rest) :
    r.drain = ({ r with buffer := rest }.line (r.buffer.takeWhile (· ≠ '\n'))).bind drain := by
  rw [drain]
  split
  · rename_i hnil
    exact absurd (h.symm.trans hnil) (by simp)
  · rename_i hcons
    obtain ⟨-, rfl⟩ := List.cons.inj (h.symm.trans hcons)
    split
    · rename_i hline
      rw [hline, Option.bind_none]
    · rename_i hline
      rw [hline, Option.bind_some]

/-- The first line is taken off the buffer. -/
theorem drain_line (h : '\n' ∉ text) :
    { r with buffer := text ++ '\n' :: rest }.drain =
      ({ r with buffer := rest }.line text).bind drain := by
  have hall : ∀ c ∈ text, (decide (c ≠ '\n')) = true := fun c hc ↦
    decide_eq_true fun heq ↦ h (heq ▸ hc)
  have htake : (text ++ '\n' :: rest).takeWhile (· ≠ '\n') = text := by
    rw [List.takeWhile_append_of_pos hall]
    simp
  have hdrop : (text ++ '\n' :: rest).dropWhile (· ≠ '\n') = '\n' :: rest := by
    rw [List.dropWhile_append_of_pos hall]
    simp
  rw [drain_of_dropWhile hdrop]
  show (Reader.line _ ((text ++ '\n' :: rest).takeWhile (· ≠ '\n'))).bind drain = _
  rw [htake]

/-- A buffer has a first line, or no line break. -/
theorem exists_line (h : '\n' ∈ text) :
    ∃ first rest, '\n' ∉ first ∧ text = first ++ '\n' :: rest := by
  induction text with
  | nil => exact absurd h List.not_mem_nil
  | cons c more ih =>
    by_cases hc : c = '\n'
    · exact ⟨[], more, List.not_mem_nil, by rw [hc, List.nil_append]⟩
    · obtain ⟨first, rest, hfirst, heq⟩ := ih ((List.mem_cons.1 h).resolve_left (Ne.symm hc))
      refine ⟨c :: first, rest, ?_, by rw [heq, List.cons_append]⟩
      exact fun hmem ↦ hfirst ((List.mem_cons.1 hmem).resolve_left (Ne.symm hc))

/-- What is not yet a line waits for the rest of it. -/
theorem data_drain (r : Reader) (chunk : List Char) :
    (r.drain.bind fun r' ↦ r'.data chunk) = r.data chunk := by
  -- by induction on what is in the buffer, a line at a time
  induction hn : r.buffer.length using Nat.strong_induction_on generalizing r with
  | _ n ih =>
    by_cases hmem : '\n' ∈ r.buffer
    · obtain ⟨first, rest, hfirst, hbuffer⟩ := exists_line hmem
      have hr : r = { r with buffer := first ++ '\n' :: rest } := by rw [← hbuffer]
      have hless : rest.length < n := by
        rw [← hn, hbuffer, List.length_append, List.length_cons]
        omega
      have hdata : r.data chunk = ({ r with buffer := rest ++ chunk }.line first).bind drain := by
        rw [data, hbuffer, List.append_assoc, List.cons_append, drain_line hfirst]
      rw [hdata, line_append, hr, drain_line hfirst, Option.bind_assoc]
      cases hline : { r with buffer := rest }.line first with
      -- what throws on a line throws on it whatever is to come
      | none => rfl
      | some r' =>
        have hbuffer' : r'.buffer = rest := line_buffer hline
        show (r'.drain.bind fun r' ↦ r'.data chunk) = _
        rw [ih rest.length hless r' (by rw [hbuffer']), data, hbuffer']
        rfl
    · rw [drain_of_not_mem hmem, Option.bind_some]

/-! ### Chunks -/

/-- **Chunks do not matter**: a reader that has read chunks is one that has read their text. -/
theorem foldlM_data (chunks : List (List Char)) :
    chunks.foldlM data {} = data {} chunks.flatten := by
  induction chunks using List.reverseRecOn with
  | nil => exact (drain_of_not_mem List.not_mem_nil).symm
  | append_singleton chunks chunk ih =>
    rw [List.foldlM_append, ih, List.flatten_append, List.flatten_singleton]
    show ((Reader.drain { buffer := [] ++ chunks.flatten }).bind fun r ↦
      (r.data chunk).bind some) = Reader.drain { buffer := [] ++ (chunks.flatten ++ chunk) }
    simp only [Option.bind_fun_some]
    rw [data_drain, data, List.append_assoc]

end Reader

/-! ### What a guardian writes is what is received -/

/-- A line a guardian writes: an event in JSON, or a diagnostic that cannot be taken for one. -/
structure GuardianLine where
  event : Option JsonValue
  body : List Char
  unbroken : '\n' ∉ body
  reads : ∀ value ∈ event, jsonParse body = some value
  plain : event = none → ¬ eventPrefix <+: body

namespace GuardianLine

/-- The line without its end: `send` for an event. -/
def content (own : GuardianLine) : List Char :=
  if own.event.isSome then eventPrefix ++ own.body else own.body

/-- The line as it is written. -/
def text (own : GuardianLine) : List Char := own.content ++ ['\n']

/-- The events among the lines. -/
def events (lines : List GuardianLine) : List JsonValue := lines.filterMap event

/-- The diagnostics among the lines. -/
def diagnostics (lines : List GuardianLine) : List Char :=
  (lines.filter fun line ↦ line.event.isNone).flatMap text

theorem newline_not_mem_content (own : GuardianLine) : '\n' ∉ own.content := by
  rw [content]
  split
  · rw [List.mem_append]
    exact fun h ↦ h.elim (by decide) own.unbroken
  · exact own.unbroken

/-- A line is passed on as what it is. -/
theorem line_content (r : Reader) (own : GuardianLine) (rest : List GuardianLine) :
    ∃ r', r.line own.content = some r' ∧ r'.buffer = r.buffer ∧
      r'.received ++ events rest = r.received ++ events (own :: rest) ∧
      r'.output ++ diagnostics rest = r.output ++ diagnostics (own :: rest) := by
  cases hevent : own.event with
  | some value =>
    have hread : jsonParse own.body = some value := own.reads value hevent
    have hbegins : eventPrefix <+: eventPrefix ++ own.body := List.prefix_append ..
    refine ⟨{ r with received := r.received ++ [value] }, ?_, rfl, ?_, ?_⟩
    · simp [Reader.line, content, hevent, hbegins, hread]
    · simp [events, hevent]
    · simp [diagnostics, hevent]
  | none =>
    have hplain := own.plain hevent
    refine ⟨{ r with output := r.output ++ own.text }, ?_, rfl, ?_, ?_⟩
    · simp [Reader.line, content, text, hevent, hplain]
    · simp [events, hevent]
    · simp [diagnostics, hevent]

/-- Reading whole lines and the beginning of one more. -/
theorem drain_lines (lines : List GuardianLine) {tail : List Char} (htail : '\n' ∉ tail)
    (r : Reader) :
    { r with buffer := lines.flatMap text ++ tail }.drain =
      some { buffer := tail
             received := r.received ++ events lines
             output := r.output ++ diagnostics lines } := by
  induction lines generalizing r with
  | nil =>
    rw [Reader.drain_of_not_mem (by simpa using htail)]
    simp [events, diagnostics]
  | cons own rest ih =>
    obtain ⟨r', hline, hbuffer, hreceived, houtput⟩ :=
      line_content { r with buffer := rest.flatMap text ++ tail } own rest
    rw [List.flatMap_cons, text, List.append_assoc, List.append_assoc, List.singleton_append,
      Reader.drain_line own.newline_not_mem_content, hline, Option.bind_some]
    have hbuffer' : r'.buffer = rest.flatMap text ++ tail := hbuffer
    have hr' : r' = { r' with buffer := rest.flatMap text ++ tail } := by rw [← hbuffer']
    rw [hr', ih, hreceived, houtput]

end GuardianLine

/-- However the output of a guardian is cut into chunks, what the runner receives are the events the
guardian finished writing, in their order, and the log gets everything else. -/
def EventsReceived : Prop :=
  ∀ (lines : List GuardianLine) (tail : List Char) (chunks : List (List Char)), '\n' ∉ tail →
    chunks.flatten = lines.flatMap GuardianLine.text ++ tail →
      (chunks.foldlM Reader.data {}).map Reader.finish =
        some { buffer := tail
               received := GuardianLine.events lines
               output := GuardianLine.diagnostics lines ++ tail }

/-- **What a guardian writes is what is received.** -/
theorem eventsReceived : EventsReceived := by
  intro lines tail chunks htail hchunks
  have hdrained := GuardianLine.drain_lines lines htail {}
  rw [Reader.foldlM_data, hchunks, Reader.data]
  show Option.map Reader.finish
    (Reader.drain { buffer := [] ++ (lines.flatMap GuardianLine.text ++ tail) }) = _
  rw [List.nil_append, hdrained]
  rfl

end CodeConductor.Runner
