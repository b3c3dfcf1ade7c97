import CodeConductor.Contracts.Errors

/-!
# Checks

The checks schemas share, and when a sequence of calls that may fail succeeds: each call does, in
order.
-/

namespace CodeConductor

/-- `/^[a-zA-Z0-9_.-]+$/`. -/
def isIdentifier (text : String) : Bool :=
  text ≠ "" && text.toList.all fun c ↦ c.isAlphanum || c = '_' || c = '.' || c = '-'

/-- `if (!condition) throw error`. -/
def throwUnless {ε : Type} (condition : Bool) (error : ε) : Except ε Unit :=
  if condition then .ok () else .error error

theorem throwUnless_eq_ok {ε : Type} {condition : Prop} [Decidable condition] {error : ε} :
    throwUnless condition error = .ok () ↔ condition := by
  rw [throwUnless]
  split
  · rename_i h
    exact iff_of_true rfl (decide_eq_true_iff.1 h)
  · rename_i h
    exact iff_of_false nofun fun hcondition ↦ h (decide_eq_true hcondition)

theorem throwUnless_bool_eq_ok {ε : Type} {condition : Bool} {error : ε} :
    throwUnless condition error = .ok () ↔ condition = true := by
  cases condition <;> simp [throwUnless]

theorem bind_eq_ok {ε α β : Type} {x : Except ε α} {f : α → Except ε β} {result : β} :
    (x >>= f) = .ok result ↔ ∃ value, x = .ok value ∧ f value = .ok result := by
  constructor
  · exact Except.exists_of_bind_eq_ok
  · rintro ⟨value, rfl, hf⟩
    exact hf

/-- A check, and the rest. -/
theorem check_eq_ok {ε β : Type} {x : Except ε Unit} {rest : Except ε β} {result : β} :
    (x >>= fun _ ↦ rest) = .ok result ↔ x = .ok () ∧ rest = .ok result := by
  rw [bind_eq_ok]
  exact ⟨fun ⟨_, h⟩ ↦ h, fun h ↦ ⟨(), h⟩⟩

theorem mapError_eq_ok {ε ε' : Type} {x : Except ε Unit} {f : ε → ε'} :
    x.mapError f = .ok () ↔ x = .ok () := by
  cases x <;> simp [Except.mapError]

theorem forM_eq_ok {ε α : Type} {check : α → Except ε Unit} {values : List α} :
    values.forM check = .ok () ↔ ∀ value ∈ values, check value = .ok () := by
  induction values with
  | nil => exact iff_of_true rfl nofun
  | cons value rest ih =>
    change (check value >>= fun _ ↦ rest.forM check) = .ok () ↔ _
    rw [check_eq_ok, ih, List.forall_mem_cons]

/-- The results of a list of calls that all succeed. -/
theorem mapM_eq_ok {ε α β : Type} {call : α → Except ε β} {values : List α} {results : List β}
    (h : values.mapM call = .ok results) :
    (∀ value ∈ values, ∃ result ∈ results, call value = .ok result) ∧
      ∀ result ∈ results, ∃ value ∈ values, call value = .ok result := by
  induction values generalizing results with
  | nil =>
    obtain rfl := Except.ok.inj h
    exact ⟨nofun, nofun⟩
  | cons value rest ih =>
    rw [List.mapM_cons, bind_eq_ok] at h
    obtain ⟨first, hfirst, h⟩ := h
    obtain ⟨others, hothers, h⟩ := bind_eq_ok.1 h
    obtain rfl := Except.ok.inj h
    obtain ⟨hvalues, hresults⟩ := ih hothers
    refine ⟨List.forall_mem_cons.2 ⟨⟨first, List.mem_cons_self, hfirst⟩, fun other hother ↦ ?_⟩,
      List.forall_mem_cons.2 ⟨⟨value, List.mem_cons_self, hfirst⟩, fun other hother ↦ ?_⟩⟩
    · obtain ⟨result, hmem, hresult⟩ := hvalues other hother
      exact ⟨result, List.mem_cons_of_mem _ hmem, hresult⟩
    · obtain ⟨source, hmem, hresult⟩ := hresults other hother
      exact ⟨source, List.mem_cons_of_mem _ hmem, hresult⟩

/-- What is read off the results is read off the values, in order. -/
theorem map_of_mapM {ε α β γ : Type} {call : α → Except ε β} {values : List α} {results : List β}
    (h : values.mapM call = .ok results) {f : β → γ} {g : α → γ}
    (hcall : ∀ value ∈ values, ∀ result, call value = .ok result → f result = g value) :
    results.map f = values.map g := by
  induction values generalizing results with
  | nil =>
    obtain rfl := Except.ok.inj h
    rfl
  | cons value rest ih =>
    rw [List.mapM_cons, bind_eq_ok] at h
    obtain ⟨first, hfirst, h⟩ := h
    obtain ⟨others, hothers, h⟩ := bind_eq_ok.1 h
    obtain rfl := Except.ok.inj h
    rw [List.map_cons, List.map_cons, hcall value List.mem_cons_self first hfirst,
      ih hothers fun other hother ↦ hcall other (List.mem_cons_of_mem _ hother)]

theorem mapM_congr_left {ε α β : Type} {call call' : α → Except ε β} {values : List α}
    (h : ∀ value ∈ values, call value = call' value) : values.mapM call = values.mapM call' := by
  induction values with
  | nil => rfl
  | cons value rest ih =>
    rw [List.mapM_cons, List.mapM_cons, h value List.mem_cons_self,
      ih fun other hother ↦ h other (List.mem_cons_of_mem _ hother)]

/-- Calls that each succeed succeed in sequence. -/
theorem exists_mapM_eq_ok {ε α β : Type} {call : α → Except ε β} {values : List α}
    (h : ∀ value ∈ values, ∃ result, call value = .ok result) :
    ∃ results, values.mapM call = .ok results := by
  induction values with
  | nil => exact ⟨[], rfl⟩
  | cons value rest ih =>
    obtain ⟨first, hfirst⟩ := h value List.mem_cons_self
    obtain ⟨others, hothers⟩ := ih fun other hother ↦ h other (List.mem_cons_of_mem _ hother)
    exact ⟨first :: others, by rw [List.mapM_cons, hfirst, hothers]; rfl⟩

end CodeConductor
