import Mathlib.Data.List.DropRight

/-!
# Words and their segments

A separator cuts a word into segments. Being a prefix up to a separator, which is what a test on the
letters can see, is being a prefix of segments; and the empty segments of a word come from separators
at its ends or next to each other.
-/

namespace List

variable {α : Type} [DecidableEq α] {a : α} {xs ys : List α}

omit [DecidableEq α] in
theorem intercalate_append_cons {sep : List α} {s t : List α} {ss ts : List (List α)} :
    sep.intercalate (s :: ss ++ t :: ts) =
      sep.intercalate (s :: ss) ++ sep ++ sep.intercalate (t :: ts) := by
  induction ss generalizing s with
  | nil => simp [intercalate]
  | cons s' ss ih =>
    have h := ih (s := s')
    simp only [intercalate, cons_append, intersperse_cons_cons, flatten_cons] at h ⊢
    rw [h]
    simp only [append_assoc]

/-- **A prefix of segments** is the word itself or what stands before a separator. -/
theorem splitOn_prefix_iff :
    xs.splitOn a <+: ys.splitOn a ↔ ys = xs ∨ xs ++ [a] <+: ys := by
  constructor
  · rintro ⟨rest, hrest⟩
    have hys : [a].intercalate (xs.splitOn a ++ rest) = ys := by
      rw [hrest, intercalate_splitOn]
    cases rest with
    | nil =>
      rw [append_nil, intercalate_splitOn] at hys
      exact .inl hys.symm
    | cons t ts =>
      right
      obtain ⟨s, ss, hs⟩ := exists_cons_of_ne_nil (splitOn_ne_nil a xs)
      have hxs : [a].intercalate (s :: ss) = xs := by rw [← hs, intercalate_splitOn]
      rw [hs, intercalate_append_cons, hxs] at hys
      exact ⟨_, hys⟩
  · rintro (rfl | ⟨zs, rfl⟩)
    · exact prefix_rfl
    · rw [append_assoc, singleton_append, splitOn_append_cons_self]
      exact prefix_append _ _

/-- The segments of a word without the empty ones. -/
def segmentsOn (a : α) (xs : List α) : List (List α) := (xs.splitOn a).filter (· ≠ [])

theorem segmentsOn_append_cons : segmentsOn a (xs ++ a :: ys) =
    segmentsOn a xs ++ segmentsOn a ys := by
  rw [segmentsOn, splitOn_append_cons_self, filter_append, segmentsOn, segmentsOn]

theorem segmentsOn_replicate (n : ℕ) : segmentsOn a (replicate n a) = [] := by
  induction n with
  | zero => simp [segmentsOn]
  | succ n ih =>
    have h : segmentsOn a ([] ++ a :: replicate n a) = _ := segmentsOn_append_cons
    rw [nil_append] at h
    rw [replicate_succ, h, ih]
    simp [segmentsOn]

/-- Separators at the end add no segment. -/
theorem segmentsOn_rdropWhile : segmentsOn a (xs.rdropWhile (· = a)) = segmentsOn a xs := by
  have hall : ∀ b ∈ xs.rtakeWhile (· = a), b = a := fun b hb ↦ by
    simpa using mem_rtakeWhile_imp hb
  have hrest := eq_replicate_of_mem hall
  conv_rhs => rw [← rdropWhile_append_rtakeWhile (p := (· = a)) (l := xs), hrest]
  cases (xs.rtakeWhile (· = a)).length with
  | zero => rw [replicate_zero, append_nil]
  | succ n => rw [replicate_succ, segmentsOn_append_cons, segmentsOn_replicate, append_nil]

theorem segmentsOn_eq_splitOn (h : [] ∉ xs.splitOn a) : segmentsOn a xs = xs.splitOn a :=
  filter_eq_self.2 fun s hs ↦ by
    have : s ≠ [] := fun heq ↦ h (heq ▸ hs)
    simpa using this

end List
