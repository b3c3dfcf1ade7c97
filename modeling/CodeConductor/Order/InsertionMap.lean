import Mathlib.Data.List.Nodup
import Mathlib.Data.List.Induction

/-!
# Maps that keep the order of insertion

A map is the list of its entries. Setting a key that is there replaces its value in place; a new key
goes to the end. So after a list of settings the keys stand in the order in which they were first
set (`keys_setAll`), each with the value it was last set to (`mem_setAll`).
-/

namespace InsertionMap

variable {κ ν : Type} [DecidableEq κ]

/-- Set a key. -/
def set : List (κ × ν) → κ → ν → List (κ × ν)
  | [], key, value => [(key, value)]
  | entry :: rest, key, value =>
    if entry.1 = key then (key, value) :: rest else entry :: set rest key value

/-- The map after a list of settings. -/
def setAll (settings : List (κ × ν)) : List (κ × ν) :=
  settings.foldl (fun entries setting ↦ set entries setting.1 setting.2) []

/-- The value a key was last set to. -/
def lastSet (settings : List (κ × ν)) (key : κ) : Option ν :=
  (settings.reverse.find? fun setting ↦ setting.1 = key).map Prod.snd

theorem setAll_concat (settings : List (κ × ν)) (setting : κ × ν) :
    setAll (settings ++ [setting]) = set (setAll settings) setting.1 setting.2 := by
  rw [setAll, List.foldl_append]
  rfl

theorem lastSet_concat (settings : List (κ × ν)) (setting : κ × ν) (key : κ) :
    lastSet (settings ++ [setting]) key =
      if setting.1 = key then some setting.2 else lastSet settings key := by
  rw [lastSet, List.reverse_append, List.reverse_singleton, List.singleton_append]
  by_cases h : setting.1 = key
  · rw [List.find?_cons_of_pos (by simpa using h), if_pos h]
    rfl
  · rw [List.find?_cons_of_neg (by simpa using h), if_neg h, lastSet]

/-- Later settings come first. -/
theorem lastSet_append (settings later : List (κ × ν)) (key : κ) :
    lastSet (settings ++ later) key = (lastSet later key).or (lastSet settings key) := by
  rw [lastSet, List.reverse_append, List.find?_append, Option.map_or]
  rfl

theorem lastSet_const (keys : List κ) (value : ν) (key : κ) :
    lastSet (keys.map (·, value)) key = if key ∈ keys then some value else none := by
  induction keys using List.reverseRec with
  | nil => rfl
  | append_singleton keys last ih =>
    rw [List.map_append, List.map_singleton, lastSet_concat, ih]
    by_cases h : last = key
    · rw [if_pos h, if_pos (List.mem_append_right _ (List.mem_singleton.2 h.symm))]
    · rw [if_neg h]
      refine if_congr ?_ rfl rfl
      rw [List.mem_append, List.mem_singleton]
      exact (or_iff_left fun hkey ↦ h hkey.symm).symm

theorem isSome_lastSet {settings : List (κ × ν)} {key : κ} :
    (lastSet settings key).isSome = true ↔ key ∈ settings.map Prod.fst := by
  rw [lastSet, Option.isSome_map, List.find?_isSome, List.mem_map]
  simp

theorem keys_set (entries : List (κ × ν)) (key : κ) (value : ν) :
    (set entries key value).map Prod.fst =
      if key ∈ entries.map Prod.fst then entries.map Prod.fst
      else entries.map Prod.fst ++ [key] := by
  induction entries with
  | nil => rfl
  | cons entry rest ih =>
    rw [set]
    by_cases h : entry.1 = key
    · rw [if_pos h, if_pos (by rw [List.map_cons, h]; exact List.mem_cons_self), List.map_cons,
        List.map_cons, h]
    · have hmem : key ∈ (entry :: rest).map Prod.fst ↔ key ∈ rest.map Prod.fst := by
        rw [List.map_cons, List.mem_cons]
        exact or_iff_right fun hkey ↦ h hkey.symm
      rw [if_neg h, List.map_cons, ih, if_congr hmem rfl rfl]
      split <;> rfl

/-- The keys stand in the order in which they were first set. -/
theorem keys_setAll (settings : List (κ × ν)) :
    (setAll settings).map Prod.fst = (settings.map Prod.fst).eraseDups := by
  induction settings using List.reverseRec with
  | nil => rfl
  | append_singleton settings setting ih =>
    rw [setAll_concat, keys_set, ih, List.map_append, List.eraseDups_append, List.map_singleton]
    by_cases h : setting.1 ∈ settings.map Prod.fst
    · rw [if_pos (List.mem_eraseDups.2 h)]
      simp [List.removeAll, h]
    · rw [if_neg fun hmem ↦ h (List.mem_eraseDups.1 hmem)]
      simp [List.removeAll, h, List.eraseDups_cons]

theorem nodup_keys_setAll (settings : List (κ × ν)) : ((setAll settings).map Prod.fst).Nodup := by
  induction settings using List.reverseRec with
  | nil => exact List.nodup_nil
  | append_singleton settings setting ih =>
    rw [setAll_concat, keys_set]
    split
    · exact ih
    · rename_i hnew
      exact List.nodup_append.2 ⟨ih, List.nodup_singleton _, fun key hkey key' hkey' ↦ by
        rintro rfl
        exact hnew (List.mem_singleton.1 hkey' ▸ hkey)⟩

theorem mem_set {entries : List (κ × ν)} (hnodup : (entries.map Prod.fst).Nodup) {key key' : κ}
    {value value' : ν} :
    (key', value') ∈ set entries key value ↔
      if key = key' then value' = value else (key', value') ∈ entries := by
  induction entries with
  | nil =>
    rw [set, List.mem_singleton, Prod.mk.injEq]
    split
    · rename_i h
      exact and_iff_right h.symm
    · rename_i h
      exact iff_of_false (fun heq ↦ h heq.1.symm) (nomatch ·)
  | cons entry rest ih =>
    obtain ⟨hentry, hrest⟩ := List.nodup_cons.1 hnodup
    rw [set]
    by_cases h : entry.1 = key
    · subst h
      rw [if_pos rfl, List.mem_cons, List.mem_cons, Prod.mk.injEq]
      split
      · rename_i heq
        subst heq
        refine ⟨fun hmem ↦ hmem.elim And.right fun hmem ↦ ?_, fun hvalue ↦ .inl ⟨rfl, hvalue⟩⟩
        exact absurd (List.mem_map_of_mem hmem) hentry
      · rename_i hne
        refine ⟨fun hmem ↦ hmem.elim (fun heq ↦ absurd heq.1.symm hne) .inr, fun hmem ↦ ?_⟩
        exact hmem.elim (fun heq ↦ absurd (congrArg Prod.fst heq).symm hne) .inr
    · rw [if_neg h, List.mem_cons, ih hrest]
      split
      · rename_i heq
        subst heq
        exact or_iff_right fun hmem ↦ h (congrArg Prod.fst hmem).symm
      · exact List.mem_cons.symm

/-- Each key has the value it was last set to. -/
theorem mem_setAll {settings : List (κ × ν)} {key : κ} {value : ν} :
    (key, value) ∈ setAll settings ↔ lastSet settings key = some value := by
  induction settings using List.reverseRec with
  | nil => exact iff_of_false (nomatch ·) (nomatch ·)
  | append_singleton settings setting ih =>
    rw [setAll_concat, mem_set (nodup_keys_setAll settings), lastSet_concat, ih]
    split
    · rw [Option.some.injEq]
      exact eq_comm
    · rfl

end InsertionMap
