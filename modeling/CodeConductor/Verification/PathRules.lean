import CodeConductor.Verification.Scope
import Mathlib.Data.List.Perm.Basic

/-!
# What a scope evaluation says

`evaluatePathScope` says what the rules mean for exactly those change lists it reads as they are:
rules with an inner `//` make no difference to any path, and backslashes in names make none.
-/

namespace List

variable {α β γ : Type} [DecidableEq α] [DecidableEq γ]

/-! ### Grouped lists -/

omit [DecidableEq α] in
/-- The group of an element whose key no other element has. -/
theorem filter_flatMap_eq_of_mem {l : List α} {f : α → List β} (name : α → γ) {key : β → γ}
    (hkey : ∀ x ∈ l, ∀ e ∈ f x, key e = name x) (hname : ∀ x ∈ l, ∀ y ∈ l, name x = name y → x = y)
    (hl : l.Nodup) {x : α} (hx : x ∈ l) : ((l.flatMap f).filter fun e ↦ key e = name x) = f x := by
  induction l with
  | nil => exact nomatch hx
  | cons y l ih =>
    have hkey' : ∀ x ∈ l, ∀ e ∈ f x, key e = name x := fun x hx ↦ hkey x (mem_cons_of_mem y hx)
    have hname' : ∀ x ∈ l, ∀ y ∈ l, name x = name y → x = y := fun x hx z hz ↦
      hname x (mem_cons_of_mem y hx) z (mem_cons_of_mem y hz)
    rw [flatMap_cons, filter_append]
    rcases mem_cons.1 hx with rfl | hx'
    · have hrest : ((l.flatMap f).filter fun e ↦ key e = name x) = [] :=
        filter_eq_nil_iff.2 fun e he ↦ by
          obtain ⟨z, hz, hez⟩ := mem_flatMap.1 he
          have hne : name z ≠ name x := fun heq ↦
            (nodup_cons.1 hl).1 (hname z (mem_cons_of_mem x hz) x mem_cons_self heq ▸ hz)
          simpa [hkey' z hz e hez] using hne
      have hself : ((f x).filter fun e ↦ key e = name x) = f x :=
        filter_eq_self.2 fun e he ↦ by simpa using hkey x mem_cons_self e he
      rw [hrest, hself, append_nil]
    · have hne : name y ≠ name x := fun heq ↦
        (nodup_cons.1 hl).1 (hname y mem_cons_self x (mem_cons_of_mem y hx') heq ▸ hx')
      have hfirst : ((f y).filter fun e ↦ key e = name x) = [] :=
        filter_eq_nil_iff.2 fun e he ↦ by simpa [hkey y mem_cons_self e he] using hne
      rw [hfirst, nil_append]
      exact ih hkey' hname' (nodup_cons.1 hl).2 hx'

omit [DecidableEq α] in
/-- The group of a key no element has. -/
theorem filter_flatMap_eq_nil {l : List α} {f : α → List β} (name : α → γ) {key : β → γ}
    (hkey : ∀ x ∈ l, ∀ e ∈ f x, key e = name x) {k : γ} (hk : ∀ x ∈ l, name x ≠ k) :
    ((l.flatMap f).filter fun e ↦ key e = k) = [] :=
  filter_eq_nil_iff.2 fun e he ↦ by
    obtain ⟨x, hx, hex⟩ := mem_flatMap.1 he
    simpa [hkey x hx e hex] using hk x hx

omit [DecidableEq α] in
/-- Elements with empty groups do not count. -/
theorem flatMap_filter_of_nil {l : List α} {f : α → List β} {p : α → Bool}
    (h : ∀ x ∈ l, p x = false → f x = []) : (l.filter p).flatMap f = l.flatMap f := by
  induction l with
  | nil => rfl
  | cons x l ih =>
    have ih' := ih fun y hy ↦ h y (mem_cons_of_mem x hy)
    cases hp : p x with
    | true => rw [filter_cons_of_pos hp, flatMap_cons, flatMap_cons, ih']
    | false =>
      rw [filter_cons_of_neg (by simp [hp]), flatMap_cons, h x mem_cons_self hp, nil_append, ih']

/-- Erasing repetitions leaves none. -/
theorem nodup_eraseDups {l : List α} : l.eraseDups.Nodup := by
  generalize hn : l.length = n
  induction n using Nat.strong_induction_on generalizing l with
  | _ n ih =>
    cases l with
    | nil => exact nodup_nil
    | cons a l =>
      have hlt : (l.filter fun b ↦ !b == a).length < n := by
        have hle := length_filter_le (fun b ↦ !b == a) l
        rw [length_cons] at hn
        omega
      rw [eraseDups_cons, nodup_cons]
      refine ⟨fun h ↦ ?_, ih _ hlt rfl⟩
      have hself := (mem_filter.1 (mem_eraseDups.1 h)).2
      simp at hself

omit [DecidableEq α] in
/-- Two filters of a list of the same length, one stronger than the other, are the same. -/
theorem mem_imp_of_length_filter_eq {l : List α} {p q : α → Bool} (hpq : ∀ x ∈ l, p x → q x)
    (h : (l.filter p).length = (l.filter q).length) : ∀ x ∈ l, q x → p x := by
  have hsub : (l.filter p).Sublist (l.filter q) := by
    have heq : (l.filter q).filter p = l.filter p := by
      rw [filter_filter]
      exact filter_congr fun x hx ↦ by
        cases hp : p x with
        | false => rfl
        | true => simp [hpq x hx hp]
    rw [← heq]
    exact filter_sublist
  have heq := hsub.eq_of_length h
  intro x hx hq
  exact (mem_filter.1 (heq ▸ mem_filter.2 ⟨hx, hq⟩ : x ∈ l.filter p)).2

end List

namespace CodeConductor

variable {path : TreePath} {rule : RelativePath} {scope : JobScope} {changed : List TreePath}

/-! ### Rules and segments -/

theorem matchesRule_iff_splitOn {candidate rule : String} : matchesRule candidate rule = true ↔
    rule.toList.splitOn '/' <+: candidate.toList.splitOn '/' := by
  rw [List.splitOn_prefix_iff, String.toList_inj]
  simp [matchesRule]

theorem toList_normalizePath (value : String) : (normalizePath value).toList =
    ((if ['.', '/'] <+: portable value then (portable value).drop 2
      else portable value).rdropWhile (· = '/')) := by
  simp [normalizePath]

/-- The schema lets no rule begin with `./`. -/
theorem RelativePath.not_dot_prefix (rule : RelativePath) : ¬['.', '/'] <+: portable rule.text := by
  rintro ⟨rest, hrest⟩
  have hsafe := rule.safe
  unfold isSafeRelativePath at hsafe
  dsimp only at hsafe
  split at hsafe
  · exact nomatch hsafe
  · have hsegments : ['.'] ∈ List.segmentsOn '/' (portable rule.text) := by
      have hsplit : List.segmentsOn '/' (['.'] ++ '/' :: rest) = _ := List.segmentsOn_append_cons
      rw [← hrest]
      exact hsplit ▸ List.mem_append_left _ (by decide)
    simp only [Bool.and_eq_true, List.all_eq_true] at hsafe
    exact absurd (hsafe.2 _ hsegments) (by decide)

theorem RelativePath.segmentsOn_normalizeRule (rule : RelativePath) :
    List.segmentsOn '/' (normalizeRule rule).toList = rule.segments := by
  rw [normalizeRule, toList_normalizePath, if_neg rule.not_dot_prefix, List.segmentsOn_rdropWhile]
  rfl

theorem TreePath.nil_notMem_segments (path : TreePath) : [] ∉ path.segments :=
  fun h ↦ (path.segments_ne [] h).1 rfl

/-- **A rule without an inner `//` matches the paths within it**, another one none. -/
theorem matchesRule_iff : matchesRule path.text (normalizeRule rule) = true ↔
    path.Within rule ∧ ¬rule.Doubled := by
  rw [matchesRule_iff_splitOn]
  constructor
  · intro h
    have hsingle : ¬rule.Doubled := fun hd ↦ path.nil_notMem_segments (h.subset hd)
    refine ⟨?_, hsingle⟩
    rw [← List.segmentsOn_eq_splitOn hsingle, rule.segmentsOn_normalizeRule] at h
    exact h
  · rintro ⟨h, hsingle⟩
    rw [← List.segmentsOn_eq_splitOn hsingle, rule.segmentsOn_normalizeRule]
    exact h

/-- A name without a backslash is its own normal form. -/
theorem TreePath.normalizePath_text (h : '\\' ∉ path.text.toList) :
    normalizePath path.text = path.text := by
  have hportable : portable path.text = path.text.toList := by
    refine (List.map_congr_left fun c hc ↦ ?_).trans (List.map_id _)
    have hne : c ≠ '\\' := ne_of_mem_of_not_mem hc h
    exact if_neg hne
  have hdot : ¬['.', '/'] <+: portable path.text := by
    rintro ⟨rest, hrest⟩
    rw [hportable] at hrest
    have hsplit := List.splitOn_append_cons_self (a := '/') ['.'] rest
    have hmem : ['.'] ∈ path.text.toList.splitOn '/' := by
      rw [← hrest]
      exact hsplit ▸ List.mem_append_left _ (by decide)
    exact (path.segments_ne _ hmem).2.1 rfl
  have hlast : path.text.toList.rdropWhile (· = '/') = path.text.toList := by
    refine List.rdropWhile_eq_self_iff.2 fun hne hslash ↦ ?_
    have hlast : path.text.toList.getLast hne = '/' := by simpa using hslash
    have happ := List.dropLast_append_getLast hne
    have hsplit := List.splitOn_append_cons_self (a := '/') path.text.toList.dropLast []
    rw [hlast] at happ
    have hmem : [] ∈ path.text.toList.splitOn '/' := by
      rw [← happ, hsplit]
      exact List.mem_append_right _ (by decide)
    exact path.nil_notMem_segments hmem
  refine String.toList_injective ?_
  rw [toList_normalizePath, if_neg hdot, hportable, hlast]

/-- Normal forms have no backslash. -/
theorem notMem_normalizePath (value : String) : '\\' ∉ (normalizePath value).toList := by
  have hportable : '\\' ∉ portable value := by
    intro h
    obtain ⟨c, -, hc⟩ := List.mem_map.1 h
    split at hc
    · exact absurd hc (by decide)
    · exact absurd hc ‹_›
  rw [toList_normalizePath]
  intro h
  have h' := List.IsPrefix.subset (List.rdropWhile_prefix _ _) h
  split at h'
  · exact hportable (List.mem_of_mem_drop h')
  · exact hportable h'

/-! ### The violations of one path -/

theorem outside_iff (scope : JobScope) (text : String) :
    (scope.allowedPaths ≠ [] ∧
      ∀ rule ∈ scope.allowedPaths, matchesRule text (normalizeRule rule) = false) ↔
    ¬(scope.allowedPaths ≠ [] →
      ∃ rule ∈ scope.allowedPaths, matchesRule text (normalizeRule rule) = true) := by
  simp

theorem pathViolations_path {text : String} : ∀ e ∈ pathViolations scope text, e.path = text := by
  intro e he
  simp only [pathViolations, List.mem_append, List.mem_map] at he
  rcases he with (he | ⟨_, _, rfl⟩) | ⟨_, _, rfl⟩
  · split at he
    · rw [List.mem_singleton.1 he]
    · exact nomatch he
  · rfl
  · rfl

theorem JobScope.violations_path : ∀ e ∈ scope.violations path, e.path = path.text := by
  intro e he
  simp only [violations, List.mem_append, List.mem_map] at he
  rcases he with (he | ⟨_, _, rfl⟩) | ⟨_, _, rfl⟩
  · split at he
    · rw [List.mem_singleton.1 he]
    · exact nomatch he
  · rfl
  · rfl

theorem pathViolations_eq_nil {text : String} :
    pathViolations scope text = [] ↔ scope.Admits text := by
  simp only [pathViolations, List.append_eq_nil_iff, List.map_eq_nil_iff, List.filter_eq_nil_iff,
    JobScope.Admits, List.mem_append]
  constructor
  · rintro ⟨⟨houtside, hforbidden⟩, hprotected⟩
    refine ⟨?_, ?_⟩
    · rintro rule (hrule | hrule)
      · simpa using hforbidden rule hrule
      · simpa using hprotected rule hrule
    · by_contra hallowed
      rw [if_pos ((outside_iff scope text).2 hallowed)] at houtside
      exact nomatch houtside
  · rintro ⟨hrules, hallowed⟩
    refine ⟨⟨if_neg fun h ↦ (outside_iff scope text).1 h hallowed, fun rule hrule ↦ ?_⟩,
      fun rule hrule ↦ ?_⟩
    · rw [hrules rule (.inl hrule)]
      decide
    · rw [hrules rule (.inr hrule)]
      decide

theorem JobScope.violations_eq_nil : scope.violations path = [] ↔ ¬scope.Violates path := by
  simp only [violations, List.append_eq_nil_iff, List.map_eq_nil_iff, List.filter_eq_nil_iff,
    Violates, List.mem_append, decide_eq_true_eq, not_or]
  constructor
  · rintro ⟨⟨houtside, hforbidden⟩, hprotected⟩
    refine ⟨fun h ↦ ?_, ?_⟩
    · rw [if_pos h] at houtside
      exact nomatch houtside
    · rintro ⟨rule, hrule | hrule, hwithin⟩
      · exact hforbidden rule hrule hwithin
      · exact hprotected rule hrule hwithin
  · rintro ⟨houtside, hrules⟩
    exact ⟨⟨if_neg houtside, fun rule hrule hwithin ↦ hrules ⟨rule, .inl hrule, hwithin⟩⟩,
      fun rule hrule hwithin ↦ hrules ⟨rule, .inr hrule, hwithin⟩⟩

/-- The entries of a path that is outside or not, and violates the rules `forbidden` and
`protectedPaths`. -/
def violationEntries (text : String) (outside : Prop) [Decidable outside]
    (forbidden protectedPaths : List RelativePath) : List ScopeViolation :=
  (if outside then [⟨text, .outsideAllowed, "<allowedPaths>"⟩] else []) ++
  forbidden.map (fun rule ↦ ⟨text, .forbidden, normalizeRule rule⟩) ++
  protectedPaths.map (fun rule ↦ ⟨text, .protectedPath, normalizeRule rule⟩)

theorem countP_violationEntries (text : String) (outside : Prop) [Decidable outside]
    (forbidden protectedPaths : List RelativePath) (kind : ScopeViolationKind) :
    (violationEntries text outside forbidden protectedPaths).countP (fun e ↦ e.kind = kind) =
      match kind with
      | .outsideAllowed => if outside then 1 else 0
      | .forbidden => forbidden.length
      | .protectedPath => protectedPaths.length := by
  rw [violationEntries, List.countP_append, List.countP_append, List.countP_map, List.countP_map]
  cases kind <;> by_cases h : outside <;> simp [h, Function.comp_def]

theorem filter_matchesRule (rules : List RelativePath)
    (h : ∀ rule ∈ rules, path.Within rule → ¬rule.Doubled) :
    (rules.filter fun rule ↦ matchesRule path.text (normalizeRule rule)) =
      rules.filter fun rule ↦ path.Within rule :=
  List.filter_congr fun rule hrule ↦ by
    rw [Bool.eq_iff_iff, matchesRule_iff, decide_eq_true_eq]
    exact and_iff_left_of_imp (h rule hrule)

theorem not_doubled_of_length_eq (rules : List RelativePath)
    (h : (rules.filter fun rule ↦ matchesRule path.text (normalizeRule rule)).length =
      (rules.filter fun rule ↦ path.Within rule).length) :
    ∀ rule ∈ rules, path.Within rule → ¬rule.Doubled := by
  have hstronger : ∀ rule ∈ rules, matchesRule path.text (normalizeRule rule) = true →
      decide (path.Within rule) = true := fun rule _ hmatch ↦
    decide_eq_true (matchesRule_iff.1 hmatch).1
  intro rule hrule hwithin
  have hmatch := List.mem_imp_of_length_filter_eq hstronger h rule hrule (decide_eq_true hwithin)
  exact (matchesRule_iff.1 hmatch).2

theorem outside_iff_of_undoubled (h : (∃ rule ∈ scope.allowedPaths, path.Within rule) →
      ∃ rule ∈ scope.allowedPaths, path.Within rule ∧ ¬rule.Doubled) :
    (∀ rule ∈ scope.allowedPaths, matchesRule path.text (normalizeRule rule) = false) ↔
      ∀ rule ∈ scope.allowedPaths, ¬path.Within rule := by
  constructor
  · intro hno rule hrule hwithin
    obtain ⟨rule', hrule', hmatch⟩ := h ⟨rule, hrule, hwithin⟩
    exact Bool.false_ne_true ((hno rule' hrule').symm.trans (matchesRule_iff.2 hmatch))
  · intro hno rule hrule
    exact Bool.eq_false_iff.2 fun hmatch ↦ hno rule hrule (matchesRule_iff.1 hmatch).1

/-- **The code reports what the path violates**, up to order, just when rules with an inner `//` make
no difference to it. -/
theorem perm_violations_iff :
    (pathViolations scope path.text).Perm (scope.violations path) ↔ scope.Undoubled path := by
  constructor
  · intro hperm
    have hcount (kind : ScopeViolationKind) := hperm.countP_eq fun e ↦ e.kind = kind
    have hcode : pathViolations scope path.text = violationEntries path.text _ _ _ := rfl
    have hspec : scope.violations path = violationEntries path.text _ _ _ := rfl
    rw [hcode, hspec] at hcount
    simp only [countP_violationEntries] at hcount
    have houtside := hcount .outsideAllowed
    have hforbidden := not_doubled_of_length_eq _ (hcount .forbidden)
    have hprotected := not_doubled_of_length_eq _ (hcount .protectedPath)
    refine ⟨fun rule hrule ↦ ?_, fun ⟨rule, hrule, hwithin⟩ ↦ ?_⟩
    · rcases List.mem_append.1 hrule with hrule | hrule
      · exact hforbidden rule hrule
      · exact hprotected rule hrule
    · have hne : scope.allowedPaths ≠ [] := List.ne_nil_of_mem hrule
      have hin : ¬(scope.allowedPaths ≠ [] ∧ ∀ rule ∈ scope.allowedPaths, ¬path.Within rule) :=
        fun h ↦ h.2 rule hrule hwithin
      rw [if_neg hin] at houtside
      have hmatch : ¬(scope.allowedPaths ≠ [] ∧
          ∀ rule ∈ scope.allowedPaths, matchesRule path.text (normalizeRule rule) = false) :=
        fun h ↦ Nat.one_ne_zero ((if_pos h).symm.trans houtside)
      rw [outside_iff, not_not] at hmatch
      obtain ⟨rule', hrule', hm⟩ := hmatch hne
      exact ⟨rule', hrule', matchesRule_iff.1 hm⟩
  · rintro ⟨hrules, hallowed⟩
    have hforbidden := filter_matchesRule scope.forbiddenPaths fun rule hrule ↦
      hrules rule (List.mem_append_left _ hrule)
    have hprotected := filter_matchesRule scope.protectedPaths fun rule hrule ↦
      hrules rule (List.mem_append_right _ hrule)
    rw [pathViolations, JobScope.violations, hforbidden, hprotected]
    simp only [outside_iff_of_undoubled hallowed]
    exact .refl _

/-! ### The violations of all paths -/

theorem mem_normalizedPaths {texts : List String} {text : String} :
    text ∈ normalizedPaths texts ↔ ∃ t ∈ texts, normalizePath t = text := by
  rw [normalizedPaths, sortStrings, List.mem_mergeSort, List.mem_eraseDups, List.mem_map]

theorem nodup_normalizedPaths (texts : List String) : (normalizedPaths texts).Nodup :=
  (List.mergeSort_perm _ _).nodup_iff.2 List.nodup_eraseDups

/-- The entries of a normalized text. -/
theorem filter_reported {texts : List String} {text : String} (h : text ∈ normalizedPaths texts) :
    (((normalizedPaths texts).flatMap (pathViolations scope)).filter fun e ↦ e.path = text) =
      pathViolations scope text :=
  List.filter_flatMap_eq_of_mem id (fun _ _ ↦ pathViolations_path) (fun _ _ _ _ h ↦ h)
    (nodup_normalizedPaths texts) h

theorem filter_reported_eq_nil {texts : List String} {text : String}
    (h : text ∉ normalizedPaths texts) :
    (((normalizedPaths texts).flatMap (pathViolations scope)).filter fun e ↦ e.path = text) = [] :=
  List.filter_flatMap_eq_nil id (fun _ _ ↦ pathViolations_path)
    fun _ ht heq ↦ h (heq ▸ ht)

theorem TreePath.text_injective : Function.Injective TreePath.text := by
  rintro ⟨t, _, _⟩ ⟨_, _, _⟩ rfl
  rfl

/-- The entries of a changed path. -/
theorem filter_violations (h : path ∈ changed) :
    ((changed.dedup.flatMap scope.violations).filter fun e ↦ e.path = path.text) =
      scope.violations path :=
  List.filter_flatMap_eq_of_mem TreePath.text (fun _ _ ↦ JobScope.violations_path)
    (fun _ _ _ _ h ↦ TreePath.text_injective h) (List.nodup_dedup changed) (List.mem_dedup.2 h)

theorem filter_violations_eq_nil {text : String} (h : ∀ path ∈ changed, path.text ≠ text) :
    ((changed.dedup.flatMap scope.violations).filter fun e ↦ e.path = text) = [] :=
  List.filter_flatMap_eq_nil TreePath.text (fun _ _ ↦ JobScope.violations_path)
    fun path hpath ↦ h path (List.mem_dedup.1 hpath)

/-- The texts reported on are the normal forms of the changed paths. -/
theorem mem_normalizedPaths_text {text : String} :
    text ∈ normalizedPaths (changed.map TreePath.text) ↔
      ∃ path ∈ changed, normalizePath path.text = text := by
  simp [mem_normalizedPaths]

theorem readsAsGiven_of_perm
    (hperm : ((normalizedPaths (changed.map TreePath.text)).flatMap (pathViolations scope)).Perm
      (changed.dedup.flatMap scope.violations)) (hpath : path ∈ changed) :
    scope.ReadsAsGiven changed path := by
  have hgroup (text : String) := hperm.filter fun e ↦ e.path = text
  have hmem : normalizePath path.text ∈ normalizedPaths (changed.map TreePath.text) :=
    mem_normalizedPaths_text.2 ⟨path, hpath, rfl⟩
  rw [JobScope.ReadsAsGiven]
  split
  · rename_i hslash
    -- nothing is reported on the name itself, and what is on its normal form is another path's
    have hself := hgroup path.text
    rw [filter_violations hpath, filter_reported_eq_nil fun hm ↦ by
      obtain ⟨other, -, heq⟩ := mem_normalizedPaths_text.1 hm
      exact notMem_normalizePath _ (heq ▸ hslash)] at hself
    refine ⟨JobScope.violations_eq_nil.1 hself.nil_eq.symm, ?_⟩
    by_cases hother : ∃ other ∈ changed, other.text = normalizePath path.text
    · exact .inr hother
    · have hnormal := hgroup (normalizePath path.text)
      rw [filter_reported hmem, filter_violations_eq_nil fun other ho heq ↦
        hother ⟨other, ho, heq⟩] at hnormal
      exact .inl (pathViolations_eq_nil.1 hnormal.eq_nil)
  · rename_i hslash
    have hself := hgroup path.text
    rw [path.normalizePath_text hslash] at hmem
    rw [filter_violations hpath, filter_reported hmem] at hself
    exact perm_violations_iff.1 hself

/-- A changed path without a backslash in its name. -/
def TreePath.plain (path : TreePath) : Bool := '\\' ∉ path.text.toList

theorem perm_of_readsAsGiven (h : ∀ path ∈ changed, scope.ReadsAsGiven changed path) :
    ((normalizedPaths (changed.map TreePath.text)).flatMap (pathViolations scope)).Perm
      (changed.dedup.flatMap scope.violations) := by
  have hplain : ∀ path ∈ changed, path.plain = true → scope.Undoubled path := fun path hp hplain ↦ by
    have hread := h path hp
    rwa [JobScope.ReadsAsGiven, if_neg (of_decide_eq_true hplain)] at hread
  have hslash : ∀ path ∈ changed, path.plain = false → ¬scope.Violates path ∧
      (scope.Admits (normalizePath path.text) ∨
        ∃ other ∈ changed, other.text = normalizePath path.text) := fun path hp hplain ↦ by
    have hread := h path hp
    rwa [JobScope.ReadsAsGiven, if_pos (not_not.1 (of_decide_eq_false hplain))] at hread
  have hspec : ((changed.dedup.filter TreePath.plain).flatMap scope.violations) =
      changed.dedup.flatMap scope.violations :=
    List.flatMap_filter_of_nil fun path hp hplain ↦
      JobScope.violations_eq_nil.2 (hslash path (List.mem_dedup.1 hp) hplain).1
  -- the texts something is reported on are the names without a backslash something is reported on
  have htexts : ((normalizedPaths (changed.map TreePath.text)).filter
        fun text ↦ pathViolations scope text ≠ []).Perm
      (((changed.dedup.filter TreePath.plain).map TreePath.text).filter
        fun text ↦ pathViolations scope text ≠ []) := by
    refine (List.perm_ext_iff_of_nodup ((nodup_normalizedPaths _).filter _)
      ((((List.nodup_dedup changed).filter _).map TreePath.text_injective).filter _)).2
      fun text ↦ ?_
    simp only [List.mem_filter, mem_normalizedPaths_text, List.mem_map, List.mem_dedup,
      and_congr_left_iff, decide_eq_true_eq]
    intro hreported
    constructor
    · rintro ⟨path, hpath, rfl⟩
      cases hp : path.plain with
      | true => exact ⟨path, ⟨hpath, hp⟩, (path.normalizePath_text (of_decide_eq_true hp)).symm⟩
      | false =>
        rcases (hslash path hpath hp).2 with hadmits | ⟨other, hother, heq⟩
        · exact absurd (pathViolations_eq_nil.2 hadmits) hreported
        · refine ⟨other, ⟨hother, decide_eq_true ?_⟩, heq⟩
          rw [heq]
          exact notMem_normalizePath _
    · rintro ⟨path, ⟨hpath, hp⟩, rfl⟩
      exact ⟨path, hpath, path.normalizePath_text (of_decide_eq_true hp)⟩
  have hnil : ∀ texts : List String, (texts.filter fun text ↦
      pathViolations scope text ≠ []).flatMap (pathViolations scope) =
        texts.flatMap (pathViolations scope) := fun texts ↦
    List.flatMap_filter_of_nil fun text _ ht ↦ by simpa using ht
  rw [← hspec, ← hnil]
  refine (htexts.flatMap_right _).trans ?_
  rw [hnil, List.flatMap_map]
  refine List.Perm.flatMap_left _ fun path hp ↦ ?_
  obtain ⟨hpath, hp⟩ := List.mem_filter.1 hp
  exact perm_violations_iff.2 (hplain path (List.mem_dedup.1 hpath) hp)

/-! ### The status -/

theorem not_violates_of_not_configured (h : scope.configured = false) :
    ¬scope.Violates path := by
  have hlength : scope.allowedPaths.length + scope.forbiddenPaths.length +
      scope.protectedPaths.length = 0 := by
    have := of_decide_eq_false h
    omega
  have hallowed : scope.allowedPaths = [] := List.length_eq_zero_iff.1 (by omega)
  have hforbidden : scope.forbiddenPaths = [] := List.length_eq_zero_iff.1 (by omega)
  have hprotected : scope.protectedPaths = [] := List.length_eq_zero_iff.1 (by omega)
  rintro (⟨hne, -⟩ | ⟨rule, hrule, -⟩)
  · exact hne hallowed
  · rw [hforbidden, hprotected] at hrule
    exact nomatch hrule

/-- **A scope passes** when there is one and everything reported on is admitted. -/
theorem status_eq_passed {texts : List String} :
    (evaluatePathScope texts scope).status = .passed ↔
      scope.configured = true ∧ ∀ text ∈ texts, scope.Admits (normalizePath text) := by
  have hquiet : ((normalizedPaths texts).flatMap (pathViolations scope)) = [] ↔
      ∀ text ∈ texts, scope.Admits (normalizePath text) := by
    simp only [List.flatMap_eq_nil_iff, pathViolations_eq_nil, mem_normalizedPaths]
    exact ⟨fun h text ht ↦ h _ ⟨text, ht, rfl⟩, fun h _ ⟨text, ht, heq⟩ ↦ heq ▸ h text ht⟩
  have hstatus : (evaluatePathScope texts scope).status =
      if 0 < ((normalizedPaths texts).flatMap (pathViolations scope)).length then .failed
      else if scope.configured then .passed else .notConfigured := rfl
  rw [hstatus, ← hquiet]
  split
  · rename_i hpos
    exact iff_of_false (by decide) fun h ↦ List.length_pos_iff.1 hpos h.2
  · rename_i hpos
    have hnil := not_not.1 fun hne ↦ hpos (List.length_pos_iff.2 hne)
    split
    · exact iff_of_true rfl ⟨‹_›, hnil⟩
    · rename_i hconfigured
      exact iff_of_false (by decide) fun h ↦ hconfigured h.1

theorem scopeSemantics_of_perm
    (hperm : ((normalizedPaths (changed.map TreePath.text)).flatMap (pathViolations scope)).Perm
      (changed.dedup.flatMap scope.violations)) : ScopeSemantics changed scope := by
  have hviolated : 0 < ((normalizedPaths (changed.map TreePath.text)).flatMap
      (pathViolations scope)).length ↔ ∃ path ∈ changed, scope.Violates path := by
    rw [hperm.length_eq, List.length_pos_iff, ne_eq, List.flatMap_eq_nil_iff]
    simp only [List.mem_dedup, JobScope.violations_eq_nil, not_forall, not_not, exists_prop]
  have hstatus : (evaluatePathScope (changed.map TreePath.text) scope).status =
      if 0 < ((normalizedPaths (changed.map TreePath.text)).flatMap (pathViolations scope)).length
        then .failed
      else if scope.configured then .passed else .notConfigured := rfl
  by_cases hex : ∃ path ∈ changed, scope.Violates path
  · obtain ⟨path, hpath, hviolates⟩ := hex
    have hconfigured : scope.configured ≠ false := fun hf ↦
      not_violates_of_not_configured hf hviolates
    rw [if_pos (hviolated.2 ⟨path, hpath, hviolates⟩)] at hstatus
    refine ⟨?_, ?_, ?_, hperm⟩ <;> rw [hstatus]
    · exact iff_of_true rfl ⟨path, hpath, hviolates⟩
    · exact iff_of_false (by decide) fun h ↦ h.1 path hpath hviolates
    · exact iff_of_false (by decide) hconfigured
  · have hquiet : ∀ path ∈ changed, ¬scope.Violates path := fun path hpath hviolates ↦
      hex ⟨path, hpath, hviolates⟩
    rw [if_neg fun h ↦ hex (hviolated.1 h)] at hstatus
    cases hconfigured : scope.configured with
    | true =>
      rw [if_pos hconfigured] at hstatus
      refine ⟨?_, ?_, ?_, hperm⟩ <;> rw [hstatus]
      · exact iff_of_false (by decide) hex
      · exact iff_of_true rfl ⟨hquiet, hconfigured⟩
      · exact iff_of_false (by decide) (by rw [hconfigured]; decide)
    | false =>
      rw [if_neg (by rw [hconfigured]; decide)] at hstatus
      refine ⟨?_, ?_, ?_, hperm⟩ <;> rw [hstatus]
      · exact iff_of_false (by decide) hex
      · exact iff_of_false (by decide) fun h ↦ by
          rw [hconfigured] at h
          exact nomatch h.2
      · exact iff_of_true rfl hconfigured

/-- **The rules mean what they say** for exactly the change lists read as they are. -/
theorem scopeSemantics_iff (changed : List TreePath) (scope : JobScope) :
    ScopeSemantics changed scope ↔ ∀ path ∈ changed, scope.ReadsAsGiven changed path :=
  ⟨fun h _ ↦ readsAsGiven_of_perm h.violations,
    fun h ↦ scopeSemantics_of_perm (perm_of_readsAsGiven h)⟩

/-- The protected directory `src/secrets`, written with two slashes. -/
def doubledScope : JobScope where
  allowedPaths := []
  forbiddenPaths := []
  protectedPaths := [⟨"src//secrets", by decide +kernel⟩]

/-- **A rule with an inner `//` is inert**: a change in the protected directory passes. -/
theorem not_scopeSemantics_doubled :
    ¬ScopeSemantics [⟨"src/secrets/key", by decide +kernel, by decide +kernel⟩] doubledScope := by
  intro h
  have hpassed : (evaluatePathScope ["src/secrets/key"] doubledScope).status = .passed := by
    decide +kernel
  have hviolates : doubledScope.Violates ⟨"src/secrets/key", by decide +kernel, by decide +kernel⟩ :=
    .inr ⟨_, List.mem_singleton_self _, by decide +kernel⟩
  exact (h.passed.1 hpassed).1 _ (List.mem_singleton_self _) hviolates

end CodeConductor
