import Mathlib.Data.List.Nodup
import Mathlib.Data.List.Perm.Basic

/-!
# Stable sorting by keys that may tie

A merge sort under a total preorder keeps the order of entries whose keys **tie**. So two lists of
entries with distinct keys are sorted into one list exactly when they have the same entries, and
tied keys stand in the same order in both (`mergeSort_eq_iff`).
-/

namespace StableSort

open List

variable {α κ : Type}

/-! ### Pairs in a list without repetition -/

/-- Two members of a list stand in one order or the other. -/
theorem pair_sublist_or {a b : α} {l : List α} (ha : a ∈ l) (hb : b ∈ l) (hne : a ≠ b) :
    [a, b] <+ l ∨ [b, a] <+ l := by
  induction l with
  | nil => exact nomatch ha
  | cons c l ih =>
    rcases mem_cons.1 ha with rfl | ha'
    · have hb' : b ∈ l := (mem_cons.1 hb).resolve_left fun h ↦ hne h.symm
      exact .inl ((singleton_sublist.2 hb').cons_cons a)
    rcases mem_cons.1 hb with rfl | hb'
    · exact .inr ((singleton_sublist.2 ha').cons_cons b)
    · exact (ih ha' hb').imp (·.cons c) (·.cons c)

/-- ... and in one order only. -/
theorem not_pair_sublist_swap {a b : α} {l : List α} (hnodup : l.Nodup) (h : [a, b] <+ l) :
    ¬[b, a] <+ l := by
  induction l with
  | nil => exact fun hswap ↦ nomatch hswap
  | cons c l ih =>
    intro hswap
    obtain ⟨hc, hl⟩ := nodup_cons.1 hnodup
    cases h with
    | cons _ h =>
      cases hswap with
      | cons _ hswap => exact ih hl h hswap
      | cons_cons _ hswap => exact hc (h.subset (mem_cons_of_mem _ mem_cons_self))
    | cons_cons _ h =>
      cases hswap with
      | cons _ hswap => exact hc (hswap.subset (mem_cons_of_mem _ mem_cons_self))
      | cons_cons _ hswap => exact hc (singleton_sublist.1 h)

/-! ### Sorting entries by their keys -/

section

variable (key : α → κ) (le : κ → κ → Bool)

/-- Keys that tie stand in the same order in both lists. -/
def TiesAgree (l l' : List κ) : Prop :=
  ∀ a b, le a b = true → le b a = true → ([a, b] <+ l ↔ [a, b] <+ l')

/-- The entries sorted by their keys. -/
def sortBy (l : List α) : List α := l.mergeSort fun a b ↦ le (key a) (key b)

theorem sortBy_perm (l : List α) : sortBy key le l ~ l := mergeSort_perm l _

variable {key le} {l l' : List α}
  (htotal : ∀ a b, (le a b || le b a) = true)
  (htrans : ∀ a b c, le a b = true → le b c = true → le a c = true)

include htotal htrans

theorem pairwise_sortBy (l : List α) :
    (sortBy key le l).Pairwise fun a b ↦ le (key a) (key b) = true :=
  pairwise_mergeSort (fun a b c ↦ htrans (key a) (key b) (key c))
    (fun a b ↦ htotal (key a) (key b)) l

/-- Keys in order stay in order. -/
theorem pair_sublist_sortBy {a b : κ} (hle : le a b = true) (h : [a, b] <+ l.map key) :
    [a, b] <+ (sortBy key le l).map key := by
  obtain ⟨pair, hpair, heq⟩ := sublist_map_iff.1 h
  match pair, heq with
  | [x, y], heq =>
    obtain ⟨rfl, rfl⟩ : a = key x ∧ b = key y := by simpa using heq
    have hsorted : [x, y] <+ sortBy key le l :=
      pair_sublist_mergeSort (fun a b c ↦ htrans (key a) (key b) (key c))
        (fun a b ↦ htotal (key a) (key b)) hle hpair
    exact hsorted.map key

/-- Sorting keeps the order of tied keys. -/
theorem tiesAgree_sortBy (hnodup : (l.map key).Nodup) :
    TiesAgree le (l.map key) ((sortBy key le l).map key) := by
  intro a b hab hba
  refine ⟨pair_sublist_sortBy htotal htrans hab, fun hsorted ↦ ?_⟩
  have hperm : (sortBy key le l).map key ~ l.map key := (sortBy_perm key le l).map key
  have hnodup' : ((sortBy key le l).map key).Nodup := hperm.nodup_iff.2 hnodup
  have hne : a ≠ b := by
    have hpair := hnodup'.sublist hsorted
    exact fun h ↦ (nodup_cons.1 hpair).1 (h ▸ mem_singleton_self a)
  have ha : a ∈ l.map key := hperm.mem_iff.1 (hsorted.subset mem_cons_self)
  have hb : b ∈ l.map key :=
    hperm.mem_iff.1 (hsorted.subset (mem_cons_of_mem _ mem_cons_self))
  rcases pair_sublist_or ha hb hne with h | h
  · exact h
  -- the other order would have been kept too
  · exact absurd (pair_sublist_sortBy htotal htrans hba h) (not_pair_sublist_swap hnodup' hsorted)

/-- A list sorted so that ties stand as in `keys`. -/
theorem pairwise_of_tiesAgree {keys : List κ} (hnodup : (l.map key).Nodup)
    (hties : TiesAgree le (l.map key) keys) :
    (sortBy key le l).Pairwise fun a b ↦
      le (key a) (key b) = true ∧ (le (key b) (key a) = true → [key a, key b] <+ keys) := by
  refine pairwise_iff_forall_sublist.2 fun {a b} hpair ↦ ?_
  have hle : le (key a) (key b) = true :=
    pairwise_iff_forall_sublist.1 (pairwise_sortBy htotal htrans l) hpair
  refine ⟨hle, fun hle' ↦ ?_⟩
  have hsorted : [key a, key b] <+ (sortBy key le l).map key := hpair.map key
  exact (hties _ _ hle hle').1 ((tiesAgree_sortBy htotal htrans hnodup _ _ hle hle').2 hsorted)

/-- **One sorted list** comes of two lists of entries with distinct keys exactly when they have the
same entries, and tied keys stand in the same order in both. -/
theorem sortBy_eq_iff (hl : (l.map key).Nodup) (hl' : (l'.map key).Nodup) :
    sortBy key le l = sortBy key le l' ↔ l ~ l' ∧ TiesAgree le (l.map key) (l'.map key) := by
  constructor
  · intro heq
    have hperm : l ~ l' := (sortBy_perm key le l).symm.trans (heq ▸ sortBy_perm key le l')
    refine ⟨hperm, fun a b hab hba ↦ ?_⟩
    have hleft := tiesAgree_sortBy htotal htrans hl a b hab hba
    have hright := tiesAgree_sortBy htotal htrans hl' a b hab hba
    rw [hleft, hright, heq]
  · rintro ⟨hperm, hties⟩
    refine Perm.eq_of_pairwise ?_
      (pairwise_of_tiesAgree htotal htrans hl hties)
      (pairwise_of_tiesAgree htotal htrans hl' fun _ _ _ _ ↦ Iff.rfl)
      ((sortBy_perm key le l).trans (hperm.trans (sortBy_perm key le l').symm))
    rintro a b - - ⟨hab, hpair⟩ ⟨hba, hpair'⟩
    exact absurd (hpair' hab) (not_pair_sublist_swap hl' (hpair hba))

/-- A list that is sorted, with the ties of another one, is that one sorted. -/
theorem eq_sortBy (hl : (l.map key).Nodup) (hl' : (l'.map key).Nodup)
    (hsorted : l'.Pairwise fun a b ↦ le (key a) (key b) = true) (hperm : l' ~ l)
    (hties : TiesAgree le (l'.map key) (l.map key)) : l' = sortBy key le l := by
  have hself : sortBy key le l' = l' := mergeSort_of_pairwise hsorted
  rw [← hself]
  exact (sortBy_eq_iff htotal htrans hl' hl).2 ⟨hperm, hties⟩

omit htotal htrans in
/-- A pair among the entries whose keys pass a test. -/
theorem pair_sublist_filter {test : κ → Bool} {keys : List κ} {a b : κ} :
    [a, b] <+ keys.filter test ↔ [a, b] <+ keys ∧ test a = true ∧ test b = true := by
  constructor
  · intro h
    refine ⟨h.trans filter_sublist, ?_, ?_⟩
    · exact (mem_filter.1 (h.subset mem_cons_self)).2
    · exact (mem_filter.1 (h.subset (mem_cons_of_mem _ mem_cons_self))).2
  · rintro ⟨h, ha, hb⟩
    have hpair := h.filter test
    rwa [filter_cons_of_pos ha, filter_cons_of_pos hb, filter_nil] at hpair

/-- Sorting and selecting by keys commute. -/
theorem filter_sortBy (test : κ → Bool) (hl : (l.map key).Nodup) :
    (sortBy key le l).filter (fun a ↦ test (key a)) =
      sortBy key le (l.filter fun a ↦ test (key a)) := by
  have hmap (source : List α) : (source.filter fun a ↦ test (key a)).map key =
      (source.map key).filter test := by
    rw [filter_map]
    rfl
  have hsorted : ((sortBy key le l).map key).Nodup := ((sortBy_perm key le l).map key).nodup_iff.2 hl
  refine eq_sortBy htotal htrans ?_ ?_ ?_ ((sortBy_perm key le l).filter _) ?_
  · rw [hmap]
    exact hl.filter _
  · rw [hmap]
    exact hsorted.filter _
  · exact (pairwise_sortBy htotal htrans l).filter _
  · intro a b hab hba
    rw [hmap, hmap, pair_sublist_filter, pair_sublist_filter,
      tiesAgree_sortBy htotal htrans hl a b hab hba]

end

end StableSort
