import Mathlib.Data.List.Nodup
import Mathlib.Data.List.Perm.Subperm
import Mathlib.Logic.Relation

/-!
# Depth-first search for cycles

A graph is given by the successors of each node. The search carries two lists: the nodes it is
**visiting**, from the newest back to the root it started at, and the nodes it has **visited**, the
newest first. It stops at a node it is visiting, and otherwise visits what a node leads to before
the node itself.

## What the lists say

* The nodes being visited are a path, so the node the search stops at lies on a cycle
  (`findCycle_error`).
* The visited nodes are `Ordered`: each leads to older ones only, so none of them lies on a cycle
  (`Ordered.acyclic`).

A search is run with fuel, one unit a level. `findCycle_ne_none` says how much is enough: the nodes
being visited are distinct, so no level is deeper than the number of nodes.
-/

namespace DepthFirst

variable {α S E : Type}

/-- Visit each node of a list in turn, from the state the one before left. -/
def visitAll (visit : α → S → Option (Except E S)) : List α → S → Option (Except E S)
  | [], s => some (.ok s)
  | a :: rest, s =>
    match visit a s with
    | some (.ok s') => visitAll visit rest s'
    | some (.error e) => some (.error e)
    | none => none

attribute [grind =] visitAll

/-- One after the other: a relation kept by each visit is kept by all. -/
theorem visitAll_ok {visit : α → S → Option (Except E S)} {R : S → S → Prop} (hrefl : ∀ s, R s s)
    (htrans : ∀ {s s' s''}, R s s' → R s' s'' → R s s'') {nodes : List α}
    (hvisit : ∀ a ∈ nodes, ∀ s s', visit a s = some (.ok s') → R s s') {s s' : S}
    (h : visitAll visit nodes s = some (.ok s')) : R s s' := by
  induction nodes generalizing s with
  | nil =>
    obtain rfl : s = s' := Except.ok.inj (Option.some.inj h)
    exact hrefl s
  | cons a rest ih =>
    rw [visitAll] at h
    split at h
    · rename_i s₁ hstep
      have hrest := ih (fun b hb ↦ hvisit b (List.mem_cons_of_mem _ hb)) h
      exact htrans (hvisit a (List.mem_cons_self ..) s s₁ hstep) hrest
    · exact nomatch Option.some.inj h
    · exact nomatch h

/-- What the visit of a node establishes, and later visits keep, holds of each node at the end. -/
theorem visitAll_each {visit : α → S → Option (Except E S)} {R : S → S → Prop} {Q : α → S → Prop}
    (hrefl : ∀ s, R s s) (htrans : ∀ {s s' s''}, R s s' → R s' s'' → R s s'') {nodes : List α}
    (hvisit : ∀ a ∈ nodes, ∀ s s', visit a s = some (.ok s') → R s s')
    (hpost : ∀ a ∈ nodes, ∀ s s', visit a s = some (.ok s') → Q a s')
    (hkeep : ∀ {a s s'}, R s s' → Q a s → Q a s') {s s' : S}
    (h : visitAll visit nodes s = some (.ok s')) : ∀ a ∈ nodes, Q a s' := by
  induction nodes generalizing s with
  | nil => exact fun a ha ↦ absurd ha List.not_mem_nil
  | cons a rest ih =>
    rw [visitAll] at h
    split at h
    · rename_i s₁ hstep
      have hlater := fun b (hb : b ∈ rest) ↦ hvisit b (List.mem_cons_of_mem _ hb)
      have hrest := ih hlater (fun b hb ↦ hpost b (List.mem_cons_of_mem _ hb)) h
      have hfirst : Q a s' := by
        refine hkeep ?_ (hpost a (List.mem_cons_self ..) s s₁ hstep)
        exact visitAll_ok hrefl htrans hlater h
      intro b hb
      rcases List.mem_cons.1 hb with rfl | hb
      · exact hfirst
      · exact hrest b hb
    · exact nomatch Option.some.inj h
    · exact nomatch h

/-- Where the visits stop, one of them did, in a state the ones before left. -/
theorem visitAll_error {visit : α → S → Option (Except E S)} {R : S → S → Prop}
    (hrefl : ∀ s, R s s) (htrans : ∀ {s s' s''}, R s s' → R s' s'' → R s s'') {nodes : List α}
    (hvisit : ∀ a ∈ nodes, ∀ s s', visit a s = some (.ok s') → R s s') {s : S} {e : E}
    (h : visitAll visit nodes s = some (.error e)) :
    ∃ a ∈ nodes, ∃ s', R s s' ∧ visit a s' = some (.error e) := by
  induction nodes generalizing s with
  | nil => exact nomatch Option.some.inj h
  | cons a rest ih =>
    rw [visitAll] at h
    split at h
    · rename_i s₁ hstep
      obtain ⟨b, hb, s', hR, herr⟩ := ih (fun b hb ↦ hvisit b (List.mem_cons_of_mem _ hb)) h
      exact ⟨b, List.mem_cons_of_mem _ hb, s',
        htrans (hvisit a (List.mem_cons_self ..) s s₁ hstep) hR, herr⟩
    · rename_i e' hstep
      obtain rfl := Except.error.inj (Option.some.inj h)
      exact ⟨a, List.mem_cons_self .., s, hrefl s, hstep⟩
    · exact nomatch h

/-- The visits end if each of them does, in whatever state the ones before left. -/
theorem visitAll_ne_none {visit : α → S → Option (Except E S)} {R : S → S → Prop}
    (htrans : ∀ {s s' s''}, R s s' → R s' s'' → R s s'') {nodes : List α}
    (hvisit : ∀ a ∈ nodes, ∀ s s', visit a s = some (.ok s') → R s s') {s : S} (hs : R s s)
    (hends : ∀ a ∈ nodes, ∀ s', R s s' → visit a s' ≠ none) : visitAll visit nodes s ≠ none := by
  have key : ∀ (rest : List α) (s' : S), rest ⊆ nodes → R s s' → visitAll visit rest s' ≠ none := by
    intro rest
    induction rest with
    | nil => exact fun _ _ _ ↦ nofun
    | cons a rest ih =>
      intro s' hsub hR
      have ha : a ∈ nodes := hsub (List.mem_cons_self ..)
      rw [visitAll]
      split
      · rename_i s₁ hstep
        refine ih s₁ (fun b hb ↦ hsub (List.mem_cons_of_mem _ hb)) ?_
        exact htrans hR (hvisit a ha s' s₁ hstep)
      · exact nofun
      · rename_i hstep
        exact absurd hstep (hends a ha s' hR)
  exact key nodes s (List.Subset.refl _) hs

/-- Visits that give the same results, list by list. -/
theorem visitAll_congr {visit visit' : α → S → Option (Except E S)} {nodes : List α}
    (h : ∀ a ∈ nodes, ∀ s, visit a s = visit' a s) (s : S) :
    visitAll visit nodes s = visitAll visit' nodes s := by
  induction nodes generalizing s with
  | nil => rfl
  | cons a rest ih =>
    rw [visitAll, visitAll, h a (List.mem_cons_self ..) s]
    simp only [fun s' ↦ ih (fun b hb ↦ h b (List.mem_cons_of_mem _ hb)) s']

theorem visitAll_map {β : Type} (visit : α → S → Option (Except E S)) (f : β → α)
    (nodes : List β) (s : S) :
    visitAll visit (nodes.map f) s = visitAll (fun b ↦ visit (f b)) nodes s := by
  induction nodes generalizing s with
  | nil => rfl
  | cons b rest ih =>
    rw [List.map_cons, visitAll, visitAll]
    simp only [ih]

/-- An error may be reported under another name. -/
theorem visitAll_mapError {E' : Type} (visit : α → S → Option (Except E S)) (f : E → E')
    (nodes : List α) (s : S) :
    visitAll (fun a s' ↦ (visit a s').map (Except.mapError f)) nodes s =
      (visitAll visit nodes s).map (Except.mapError f) := by
  induction nodes generalizing s with
  | nil => rfl
  | cons a rest ih =>
    rw [visitAll, visitAll]
    rcases hstep : visit a s with - | e | s'
    · rfl
    · rfl
    · exact ih s'

/-- A visit that follows another one does so through a whole list. -/
theorem visitAll_simulates {S' E' : Type} {visit : α → S → Option (Except E S)}
    {visit' : α → S' → Option (Except E' S')} {Sim : S → S' → Prop} {nodes : List α}
    (hvisit : ∀ a ∈ nodes, ∀ s s₁ t, visit a s = some (.ok s₁) → Sim s t →
      ∃ t₁, visit' a t = some (.ok t₁) ∧ Sim s₁ t₁) {s s₁ : S} {t : S'}
    (h : visitAll visit nodes s = some (.ok s₁)) (hsim : Sim s t) :
    ∃ t₁, visitAll visit' nodes t = some (.ok t₁) ∧ Sim s₁ t₁ := by
  induction nodes generalizing s t with
  | nil =>
    obtain rfl : s = s₁ := Except.ok.inj (Option.some.inj h)
    exact ⟨t, rfl, hsim⟩
  | cons a rest ih =>
    rw [visitAll] at h
    split at h
    · rename_i s₂ hstep
      obtain ⟨t₂, hstep', hsim₂⟩ := hvisit a (List.mem_cons_self ..) s s₂ t hstep hsim
      obtain ⟨t₁, hrest, hsim₁⟩ := ih (fun b hb ↦ hvisit b (List.mem_cons_of_mem _ hb)) h hsim₂
      refine ⟨t₁, ?_, hsim₁⟩
      rw [visitAll, hstep']
      exact hrest
    · exact nomatch Option.some.inj h
    · exact nomatch h

/-- More fuel for each visit is more fuel for all. -/
theorem visitAll_mono {visit visit' : α → S → Option (Except E S)}
    (hvisit : ∀ a s r, visit a s = some r → visit' a s = some r) {nodes : List α} {s : S}
    {r : Except E S} (h : visitAll visit nodes s = some r) : visitAll visit' nodes s = some r := by
  induction nodes generalizing s with
  | nil => exact h
  | cons a rest ih =>
    rw [visitAll] at h
    split at h
    · rename_i s₁ hstep
      rw [visitAll, hvisit a s _ hstep]
      exact ih h
    · rename_i e hstep
      rw [visitAll, hvisit a s _ hstep]
      exact h
    · exact nomatch h

/-! ### Orders -/

/-- `a` leads to `b`. -/
def Edge (next : α → List α) (a b : α) : Prop := b ∈ next a

/-- No node of the list lies on a cycle. -/
def Acyclic (next : α → List α) (nodes : List α) : Prop :=
  ∀ a ∈ nodes, ¬ Relation.TransGen (Edge next) a a

/-- Each node of the list leads to later ones only. -/
def Ordered (next : α → List α) : List α → Prop
  | [] => True
  | a :: rest => a ∉ rest ∧ (∀ b ∈ next a, b ∈ rest) ∧ Ordered next rest

namespace Ordered

variable {next : α → List α} {nodes : List α}

theorem nodup (h : Ordered next nodes) : nodes.Nodup := by
  induction nodes with
  | nil => exact .nil
  | cons a rest ih => exact List.nodup_cons.2 ⟨h.1, ih h.2.2⟩

theorem mem_of_edge (h : Ordered next nodes) {a b : α} (ha : a ∈ nodes) (hab : Edge next a b) :
    b ∈ nodes := by
  induction nodes with
  | nil => exact absurd ha List.not_mem_nil
  | cons c rest ih =>
    rcases List.mem_cons.1 ha with rfl | ha
    · exact List.mem_cons_of_mem _ (h.2.1 b hab)
    · exact List.mem_cons_of_mem _ (ih h.2.2 ha)

/-- An ordered list is closed. -/
theorem closed (h : Ordered next nodes) {a b : α} (ha : a ∈ nodes)
    (hab : Relation.TransGen (Edge next) a b) : b ∈ nodes := by
  induction hab with
  | single hab => exact h.mem_of_edge ha hab
  | tail _ hbc ih => exact h.mem_of_edge ih hbc

/-- An ordered list has no cycle. -/
theorem acyclic (h : Ordered next nodes) : Acyclic next nodes := by
  induction nodes with
  | nil => exact fun a ha ↦ absurd ha List.not_mem_nil
  | cons c rest ih =>
    intro a ha hcycle
    rcases List.mem_cons.1 ha with rfl | ha
    · -- the first step of the cycle leads into the rest, which it does not leave
      obtain ⟨b, hab, hba⟩ := Relation.TransGen.head'_iff.1 hcycle
      have hb : b ∈ rest := h.2.1 b hab
      rcases Relation.reflTransGen_iff_eq_or_transGen.1 hba with rfl | hba
      · exact h.1 hb
      · exact h.1 (h.2.2.closed hb hba)
    · exact ih h.2.2 a ha hcycle

end Ordered

/-! ### The search -/

/-- The nodes being visited and the nodes visited, the newest first. -/
structure Search (α : Type) where
  visiting : List α := []
  visited : List α := []

/-- Visit a node; stop at a node that is being visited. -/
def findCycle [DecidableEq α] (next : α → List α) :
    ℕ → α → Search α → Option (Except α (Search α))
  | 0, _, _ => none
  | fuel + 1, a, s =>
    if a ∈ s.visited then some (.ok s)
    else if a ∈ s.visiting then some (.error a)
    else
      match visitAll (findCycle next fuel) (next a) { s with visiting := a :: s.visiting } with
      | some (.ok s') => some (.ok ⟨s'.visiting.filter (· ≠ a), a :: s'.visited⟩)
      | some (.error c) => some (.error c)
      | none => none

attribute [grind =] findCycle

variable {next : α → List α}

/-- What a search that goes through leaves. -/
structure Progress (next : α → List α) (s s' : Search α) : Prop where
  visiting : s'.visiting = s.visiting
  visited : s.visited ⊆ s'.visited
  /-- What is being visited is not visited. -/
  apart : ∀ v ∈ s.visiting, v ∉ s.visited → v ∉ s'.visited
  ordered : Ordered next s.visited → Ordered next s'.visited

namespace Progress

theorem refl (s : Search α) : Progress next s s where
  visiting := rfl
  visited := List.Subset.refl _
  apart _ _ h := h
  ordered h := h

theorem trans {s s' s'' : Search α} (h : Progress next s s') (h' : Progress next s' s'') :
    Progress next s s'' where
  visiting := h'.visiting.trans h.visiting
  visited := List.Subset.trans h.visited h'.visited
  apart v hv hnot := h'.apart v (h.visiting ▸ hv) (h.apart v hv hnot)
  ordered hs := h'.ordered (h.ordered hs)

end Progress

variable [DecidableEq α]

/-- A search that goes through has visited its node and keeps the order. -/
theorem findCycle_ok {fuel : ℕ} {a : α} {s s' : Search α}
    (h : findCycle next fuel a s = some (.ok s')) : Progress next s s' ∧ a ∈ s'.visited := by
  induction fuel generalizing a s s' with
  | zero => exact nomatch h
  | succ fuel ih =>
    rw [findCycle] at h
    split at h
    · rename_i hvisited
      obtain rfl := Except.ok.inj (Option.some.inj h)
      exact ⟨.refl s, hvisited⟩
    · rename_i hvisited
      split at h
      · exact nomatch Option.some.inj h
      · rename_i hvisiting
        split at h
        · rename_i s₁ hnext
          obtain rfl := Except.ok.inj (Option.some.inj h)
          have hall : Progress next { s with visiting := a :: s.visiting } s₁ ∧
              ∀ b ∈ next a, b ∈ s₁.visited := by
            constructor
            · exact visitAll_ok Progress.refl Progress.trans (fun b _ _ _ hb ↦ (ih hb).1) hnext
            · exact visitAll_each (Q := fun b t ↦ b ∈ t.visited) Progress.refl Progress.trans (fun b _ _ _ hb ↦ (ih hb).1)
                (fun b _ _ _ hb ↦ (ih hb).2) (fun hR hb ↦ hR.visited hb) hnext
          obtain ⟨hprogress, hchildren⟩ := hall
          have hnew : a ∉ s₁.visited := hprogress.apart a (List.mem_cons_self ..) hvisited
          refine ⟨⟨?_, ?_, ?_, ?_⟩, List.mem_cons_self ..⟩
          · rw [hprogress.visiting, List.filter_cons_of_neg (by simp)]
            refine List.filter_eq_self.2 fun v hv ↦ ?_
            have hne : v ≠ a := fun heq ↦ hvisiting (heq ▸ hv)
            simpa using hne
          · exact fun v hv ↦ List.mem_cons_of_mem _ (hprogress.visited hv)
          · intro v hv hnot hmem
            rcases List.mem_cons.1 hmem with rfl | hmem
            · exact hvisiting hv
            · exact hprogress.apart v (List.mem_cons_of_mem _ hv) hnot hmem
          · exact fun hs ↦ ⟨hnew, hchildren, hprogress.ordered hs⟩
        · exact nomatch Option.some.inj h
        · exact nomatch h

/-- A search leaves a closed set of nodes only if it starts outside. -/
theorem findCycle_visited_subset {nodes : List α} (hclosed : ∀ a ∈ nodes, next a ⊆ nodes)
    {fuel : ℕ} {a : α} (ha : a ∈ nodes) {s s' : Search α}
    (h : findCycle next fuel a s = some (.ok s')) (hs : s.visited ⊆ nodes) :
    s'.visited ⊆ nodes := by
  induction fuel generalizing a s s' with
  | zero => exact nomatch h
  | succ fuel ih =>
    rw [findCycle] at h
    split at h
    · obtain rfl := Except.ok.inj (Option.some.inj h)
      exact hs
    · split at h
      · exact nomatch Option.some.inj h
      · split at h
        · rename_i s₁ hnext
          obtain rfl := Except.ok.inj (Option.some.inj h)
          have hrest : s.visited ⊆ nodes → s₁.visited ⊆ nodes :=
            visitAll_ok (R := fun t t' ↦ t.visited ⊆ nodes → t'.visited ⊆ nodes) (fun _ ↦ id)
              (fun h₁ h₂ ↦ h₂ ∘ h₁) (fun b hb _ _ hvisit ↦ ih (hclosed a ha hb) hvisit) hnext
          exact List.cons_subset.2 ⟨ha, hrest hs⟩
        · exact nomatch Option.some.inj h
        · exact nomatch h

/-- A search that stops has come back to a node on a cycle. -/
theorem findCycle_error {fuel : ℕ} {a c : α} {s : Search α}
    (hpath : ∀ v ∈ s.visiting, Relation.TransGen (Edge next) v a)
    (h : findCycle next fuel a s = some (.error c)) :
    Relation.ReflTransGen (Edge next) a c ∧ Relation.TransGen (Edge next) c c := by
  induction fuel generalizing a s with
  | zero => exact nomatch h
  | succ fuel ih =>
    rw [findCycle] at h
    split at h
    · exact nomatch Option.some.inj h
    · split at h
      · rename_i hvisiting
        obtain rfl := Except.error.inj (Option.some.inj h)
        exact ⟨.refl, hpath a hvisiting⟩
      · split at h
        · exact nomatch Option.some.inj h
        · rename_i hnext
          obtain rfl := Except.error.inj (Option.some.inj h)
          obtain ⟨b, hb, s', hprogress, herr⟩ := visitAll_error Progress.refl Progress.trans
            (fun b _ _ _ hok ↦ (findCycle_ok hok).1) hnext
          -- what is being visited still leads to `a`, and so to the child
          have hpath' : ∀ v ∈ s'.visiting, Relation.TransGen (Edge next) v b := by
            intro v hv
            rw [hprogress.visiting] at hv
            rcases List.mem_cons.1 hv with rfl | hv
            · exact .single hb
            · exact (hpath v hv).tail hb
          obtain ⟨hreach, hcycle⟩ := ih hpath' herr
          exact ⟨hreach.head hb, hcycle⟩
        · exact nomatch h

/-- Enough fuel for the nodes that are not being visited is enough. -/
theorem findCycle_ne_none {nodes : List α} (hclosed : ∀ a ∈ nodes, next a ⊆ nodes) {fuel : ℕ}
    {a : α} (ha : a ∈ nodes) {s : Search α} (hnodup : s.visiting.Nodup)
    (hsub : s.visiting ⊆ nodes) (hfuel : nodes.length < fuel + s.visiting.length) :
    findCycle next fuel a s ≠ none := by
  induction fuel generalizing a s with
  | zero =>
    have hle : s.visiting.length ≤ nodes.length := (hnodup.subperm hsub).length_le
    omega
  | succ fuel ih =>
    rw [findCycle]
    split
    · exact nofun
    · split
      · exact nofun
      · rename_i hvisiting
        have hends : visitAll (findCycle next fuel) (next a)
            { s with visiting := a :: s.visiting } ≠ none := by
          refine visitAll_ne_none (R := Progress next) Progress.trans
            (fun b _ _ _ hok ↦ (findCycle_ok hok).1) (Progress.refl _) fun b hb s' hprogress ↦ ?_
          have hvis : s'.visiting = a :: s.visiting := hprogress.visiting
          refine ih (hclosed a ha hb) ?_ ?_ ?_
          · rw [hvis]
            exact List.nodup_cons.2 ⟨hvisiting, hnodup⟩
          · rw [hvis]
            exact List.cons_subset.2 ⟨ha, hsub⟩
          · rw [hvis, List.length_cons]
            omega
        split
        · exact nofun
        · exact nofun
        · rename_i hnone
          exact absurd hnone hends

/-- More fuel changes no answer. -/
theorem findCycle_mono {fuel more : ℕ} (hle : fuel ≤ more) {a : α} {s : Search α}
    {r : Except α (Search α)} (h : findCycle next fuel a s = some r) :
    findCycle next more a s = some r := by
  induction fuel generalizing more a s r with
  | zero => exact nomatch h
  | succ fuel ih =>
    obtain ⟨more, rfl⟩ : ∃ n, more = n + 1 := ⟨more - 1, by omega⟩
    rw [findCycle] at h ⊢
    split at h
    · rename_i hvisited
      rw [if_pos hvisited]
      exact h
    · rename_i hvisited
      rw [if_neg hvisited]
      split at h
      · rename_i hvisiting
        rw [if_pos hvisiting]
        exact h
      · rename_i hvisiting
        rw [if_neg hvisiting]
        have hmono {nodes : List α} {t : Search α} {r : Except α (Search α)}
            (hall : visitAll (findCycle next fuel) nodes t = some r) :
            visitAll (findCycle next more) nodes t = some r :=
          visitAll_mono (fun b t' r' hb ↦ ih (by omega) hb) hall
        split at h
        · rename_i hnext
          rw [hmono hnext]
          exact h
        · rename_i hnext
          rw [hmono hnext]
          exact h
        · exact nomatch h

/-- The search of a closed graph ends: it has found a cycle, or visited every node in order. -/
theorem searchAll {nodes : List α} (hclosed : ∀ a ∈ nodes, next a ⊆ nodes) {fuel : ℕ}
    (hfuel : nodes.length < fuel) :
    (∃ c ∈ nodes, visitAll (findCycle next fuel) nodes {} = some (.error c) ∧
        Relation.TransGen (Edge next) c c) ∨
      ∃ s, visitAll (findCycle next fuel) nodes {} = some (.ok s) ∧ Ordered next s.visited ∧
        nodes ⊆ s.visited ∧ s.visited ⊆ nodes := by
  have hprogress : ∀ a ∈ nodes, ∀ s s', findCycle next fuel a s = some (.ok s') →
      Progress next s s' := fun a _ _ _ hok ↦ (findCycle_ok hok).1
  have hends : visitAll (findCycle next fuel) nodes {} ≠ none := by
    refine visitAll_ne_none Progress.trans hprogress (Progress.refl _) fun a ha s hs ↦ ?_
    have hvis : s.visiting = [] := hs.visiting
    refine findCycle_ne_none hclosed ha ?_ ?_ ?_
    · exact hvis ▸ .nil
    · exact hvis ▸ List.nil_subset _
    · omega
  rcases hrun : visitAll (findCycle next fuel) nodes {} with - | c | s
  · exact absurd hrun hends
  · left
    obtain ⟨a, ha, s, hs, herr⟩ := visitAll_error Progress.refl Progress.trans hprogress hrun
    have hpath : ∀ v ∈ s.visiting, Relation.TransGen (Edge next) v a := by
      rw [hs.visiting]
      exact fun v hv ↦ absurd hv List.not_mem_nil
    obtain ⟨hreach, hcycle⟩ := findCycle_error hpath herr
    have hc : c ∈ nodes := by
      clear hcycle herr hrun
      induction hreach with
      | refl => exact ha
      | tail _ hedge ih => exact hclosed _ ih hedge
    exact ⟨c, hc, rfl, hcycle⟩
  · right
    refine ⟨s, rfl, ?_, ?_, ?_⟩
    · exact (visitAll_ok Progress.refl Progress.trans hprogress hrun).ordered trivial
    · exact visitAll_each (Q := fun b t ↦ b ∈ t.visited) Progress.refl Progress.trans hprogress
        (fun a _ _ _ hok ↦ (findCycle_ok hok).2) (fun hR hb ↦ hR.visited hb) hrun
    · exact visitAll_ok (R := fun t t' ↦ t.visited ⊆ nodes → t'.visited ⊆ nodes) (fun _ ↦ id)
        (fun h₁ h₂ ↦ h₂ ∘ h₁) (fun a ha _ _ hok ↦ findCycle_visited_subset hclosed ha hok) hrun
        (List.nil_subset _)

end DepthFirst
