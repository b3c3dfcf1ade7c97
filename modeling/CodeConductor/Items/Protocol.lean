import CodeConductor.Gate.Protocol
import CodeConductor.Items.History

/-!
# The agreement on queue items

`itemProtocol` is the agreement that every journal of an item is a history of moves. What a thread may
rely on is that nothing is taken from a journal; a fact of that kind, such as that a manifest is in the
journal of its attempt, is `Lasting`, and whoever has read it may commit a move that rests on it later.

A commit reads the item again and pushes over exactly the snapshot it was given, so the move is one
over that snapshot whatever happened in between.
-/

namespace CodeConductor

open Async Async.Prog Async.Protocol

variable {p t n : ℕ} {w w' s : World} {A : Type}

/-! ### The agreement -/

/-- Every journal of an item is a history of moves. -/
def ItemInv (w : World) : Prop := ∀ jobId, ItemHistory w jobId (w.items jobId)

/-- Nothing is taken from a journal, and no contract is withdrawn. -/
structure World.Grows (w w' : World) : Prop where
  gains : w.Gains w'
  items : ∀ jobId, w.items jobId <:+ w'.items jobId

theorem World.Grows.refl (w : World) : w.Grows w := ⟨.refl w, fun _ ↦ List.suffix_rfl⟩

theorem World.Grows.trans {w₁ w₂ w₃ : World} (h : w₁.Grows w₂) (h' : w₂.Grows w₃) : w₁.Grows w₃ :=
  ⟨h.gains.trans h'.gains, fun jobId ↦ (h.items jobId).trans (h'.items jobId)⟩

/-- The agreement. -/
def itemProtocol : Protocol RuntimeStep World RuntimeCall ℕ where
  inv n w := AttemptInv n w ∧ ItemInv w
  rely p t w w' := AttemptRely p t w w' ∧ w.Grows w'
  guar p t n w w' := AttemptGuar .all p t n w w' ∧ w.Grows w'
  ok := System.unrestricted
  pre := GatePre

theorem itemProtocol_refl (n : ℕ) (w : World) : itemProtocol.guar p t n w w :=
  ⟨.refl .all p t n w, .refl w⟩

/-- A fact that stays when journals grow. -/
def Lasting (J : World → Prop) : Prop := ∀ w w', w.Grows w' → J w → J w'

theorem lasting_of {m : AttemptManifest} {jobId : JobId} : Lasting (m.Of jobId) :=
  fun _ _ h hm ↦ hm.gains h.gains

theorem lasting_accounted {item : QueueItem} : Lasting fun w ↦ item.Accounted w :=
  fun _ _ h hitem ↦ hitem.gains h.gains

theorem lasting_ended {id : AttemptId} : Lasting fun w ↦ w.Ended id :=
  fun _ _ h hended ↦ hended.gains h.gains

theorem lasting_contract {jobId : JobId} {contract : JobContract} :
    Lasting fun w ↦ w.contract? jobId = some contract :=
  fun _ _ h hc ↦ h.gains.contracts jobId contract hc

theorem lasting_pure {P : Prop} : Lasting fun _ ↦ P := fun _ _ _ h ↦ h

theorem Lasting.and {J K : World → Prop} (hJ : Lasting J) (hK : Lasting K) :
    Lasting fun w ↦ J w ∧ K w :=
  fun w w' h hw ↦ ⟨hJ w w' h hw.1, hK w w' h hw.2⟩

/-- A computation that keeps the agreement keeps what lasts. -/
theorem Lasting.returns {J : World → Prop} (hJ : Lasting J) {Q : A → World → Prop}
    {prog : Runtime A} (h : itemProtocol.Safe p t (Returns Q) prog s) (hs : J s) :
    itemProtocol.Safe p t (Returns fun a w ↦ Q a w ∧ J w) prog s :=
  h.keeping (fun w w' hr ↦ hJ w w' hr.2) (fun _ w w' hg ↦ hJ w w' hg.2) hs

/-- `Lasting.returns` when nothing else is known of the result. -/
theorem Lasting.after {J : World → Prop} (hJ : Lasting J) {prog : Runtime A}
    (h : itemProtocol.Keeps p t prog) (hs : J s) :
    itemProtocol.Safe p t (Returns fun _ w ↦ J w) prog s :=
  (hJ.returns (h.returns s) hs).weaken fun _ _ hr ↦ hr.2

/-! ### Steps -/

theorem ItemInv.grows (hinv : ItemInv w) (h : w.Grows w') (hitems : w'.items = w.items) :
    ItemInv w' := by
  intro jobId
  rw [hitems]
  exact (hinv jobId).gains h.gains

/-- Neither items nor contracts have changed. -/
structure SameItems (w w' : World) : Prop where
  items : w'.items = w.items
  contracts : w'.contracts = w.contracts

theorem SameItems.refl (w : World) : SameItems w w := ⟨rfl, rfl⟩

theorem World.Grows.of_same (hattempts : ∀ id, w.attempts id <:+ w'.attempts id)
    (h : SameItems w w') : w.Grows w' where
  gains := ⟨fun id _ hm ↦ (hattempts id).subset hm,
    fun jobId contract hc ↦ by rwa [World.contract?, h.contracts]⟩
  items jobId := by simp only [h.items, List.suffix_rfl]

/-- A step that touches neither attempts nor items. -/
theorem item_same (hinv : itemProtocol.inv n w) (hsame : SameAttempts w w')
    (h : SameItems w w') : itemProtocol.inv n w' ∧ itemProtocol.guar p t n w w' := by
  have hgrows : w.Grows w' := .of_same (fun id ↦ by simp only [hsame.attempts, List.suffix_rfl]) h
  exact ⟨⟨hsame.inv hinv.1, hinv.2.grows hgrows h.items⟩, hsame.guar .all p t n, hgrows⟩

/-- The programs of a conductor keep the agreement, and what lasts. -/
theorem conductorProtocol_under_items {L : License} {J : World → Prop} (hJ : Lasting J) :
    (conductorProtocol L).Under itemProtocol p t J where
  inv hinv := hinv.1
  rely hrely := hrely.1
  ok _ := trivial
  keep _ hrely hs := hJ _ _ hrely.2 hs
  step {n m l s s'} _ _ hinv _ hs hinv' hg := by
    have hgrows : s.Grows s' := .of_same (fun id ↦ (hg.1.attempts id).suffix)
      ⟨hg.2.items, hg.2.contracts⟩
    exact ⟨⟨hinv', hinv.2.grows hgrows hg.2.items⟩,
      ⟨hg.1.mono (License.all_includes L), hgrows⟩, hJ _ _ hgrows hs⟩
  pre {_ _ k _} _ _ _ hpre := by
    cases k <;> first | exact hpre | exact absurd hpre fun h ↦ h

/-- Committing a move over the newest snapshot. -/
theorem ItemInv.pushItem (hinv : ItemInv w) {item : QueueItem} {patch : QueuePatch}
    {now : Timestamp} (hnewest : w.item? item.jobId = some item) (hmove : QueueMove w item patch) :
    ItemInv (w.pushItem (item.merge patch now)) := by
  obtain ⟨older, hjournal⟩ := List.head?_eq_some_iff.1 hnewest
  intro jobId
  have hhistory : ItemHistory w jobId ((w.pushItem (item.merge patch now)).items jobId) := by
    show ItemHistory w jobId (Function.update w.items item.jobId
      (item.merge patch now :: w.items item.jobId) jobId)
    by_cases hj : jobId = item.jobId
    · subst hj
      rw [Function.update_self, hjournal]
      exact .move item patch now older (hjournal ▸ hinv item.jobId) hmove
    · rw [Function.update_of_ne hj]
      exact hinv jobId
  exact hhistory.gains ⟨fun _ _ h ↦ h, fun _ _ h ↦ h⟩

theorem World.Grows.pushItem {item : QueueItem} : w.Grows (w.pushItem item) where
  gains := ⟨fun _ _ h ↦ h, fun _ _ h ↦ h⟩
  items jobId := by
    show _ <:+ Function.update w.items item.jobId (item :: w.items item.jobId) jobId
    by_cases hj : jobId = item.jobId
    · subst hj
      rw [Function.update_self]
      exact List.suffix_cons item _
    · simp only [Function.update_of_ne hj, List.suffix_rfl]

/-- Publishing a new item. -/
theorem ItemInv.createItem (hinv : ItemInv w) {jobId : JobId} {options : QueueOptions}
    {now : Timestamp} : ItemInv (w.createItem (createQueueItem jobId options now)) := by
  intro j
  have hhistory : ItemHistory w j ((w.createItem (createQueueItem jobId options now)).items j) := by
    show ItemHistory w j (Function.update w.items jobId [createQueueItem jobId options now] j)
    by_cases hj : j = jobId
    · subst hj
      rw [Function.update_self]
      exact .created options now
    · rw [Function.update_of_ne hj]
      exact hinv j
  exact hhistory.gains ⟨fun _ _ h ↦ h, fun _ _ h ↦ h⟩

theorem World.Grows.createItem {item : QueueItem} (hnew : w.items item.jobId = []) :
    w.Grows (w.createItem item) where
  gains := ⟨fun _ _ h ↦ h, fun _ _ h ↦ h⟩
  items jobId := by
    show _ <:+ Function.update w.items item.jobId [item] jobId
    by_cases hj : jobId = item.jobId
    · subst hj
      rw [hnew]
      exact List.nil_suffix
    · simp only [Function.update_of_ne hj, List.suffix_rfl]

/-- A contract that is added takes the place of none. -/
theorem World.Grows.addContract {contract : JobContract} :
    w.Grows { w with contracts := w.contracts ++ [contract] } where
  gains := by
    refine ⟨fun _ _ h ↦ h, fun jobId found hfound ↦ ?_⟩
    show (w.contracts ++ [contract]).find? _ = some found
    rw [List.find?_append, show w.contracts.find? _ = some found from hfound]
    rfl
  items _ := List.suffix_rfl

/-! ### Rules -/

section Rules

variable {label : RuntimeStep}

theorem moves_storeRead {f : World → Except RuntimeError A} :
    itemProtocol.Keeps p t (storeRead label f) :=
  Safe.keeps fun _ ↦ safe_storeRead itemProtocol_refl (Q := fun _ _ ↦ True)
    fun _ _ _ _ _ _ _ _ ↦ trivial

theorem moves_read {f : World → Except RuntimeError A} :
    itemProtocol.Keeps p t (.read label f : Runtime A) :=
  keeps_read itemProtocol_refl

theorem moves_askOutside {answer : Outside → Except RuntimeError A} :
    itemProtocol.Keeps p t (askOutside answer) := moves_read

theorem moves_currentDate : itemProtocol.Keeps p t currentDate := moves_askOutside

/-- A step that touches neither items nor attempts. -/
theorem moves_atomic {f : World → Except RuntimeError A × World}
    (h : ∀ w, SameAttempts w (f w).2 ∧ SameItems w (f w).2) :
    itemProtocol.Keeps p t (.atomic label f : Runtime A) :=
  Safe.keeps fun _ ↦ safe_atomic_returns (Q := fun _ _ ↦ True) fun w _ _ hinv _ _ ↦
    have hstep := item_same (p := p) (t := t) hinv (h w).1 (h w).2
    ⟨hstep.1, hstep.2, fun _ _ ↦ trivial⟩

theorem moves_await {guard : World → Bool} {f : World → Except RuntimeError A} :
    itemProtocol.Keeps p t (.await label guard fun w ↦ (f w, w) : Runtime A) :=
  Safe.keeps fun _ ↦ safe_await_returns (Q := fun _ _ ↦ True) fun w n _ hinv _ _ _ ↦
    ⟨hinv, itemProtocol_refl n w, fun _ _ ↦ trivial⟩

/-- A step that starts one background call. -/
theorem moves_fork {l : RuntimeStep} {k : World → ℕ → RuntimeCall} {f : World → ℕ → World}
    (hpre : ∀ w n i, GatePre p i (k w n) (f w n))
    (h : ∀ w n, SameAttempts w (f w n) ∧ SameItems w (f w n)) :
    itemProtocol.Keeps p t (.fork l k f : Runtime Unit) := by
  intro s w n _ hinv _ _ _
  obtain ⟨h1, h2⟩ := item_same hinv (h w n).1 (h w n).2
  refine ⟨⟨h1.1.mono (Nat.le_succ n), h1.2⟩, h2, fun i call hcall ↦ ?_, trivial⟩
  have hi : i = 0 := by
    have hlt := (List.getElem?_eq_some_iff.1 hcall).1
    simpa using hlt
  subst hi
  obtain rfl := Option.some.inj hcall
  exact hpre w n _

theorem moves_storeWrite {f : World → Except RuntimeError A × World}
    (h : ∀ w, SameAttempts w (f w).2 ∧ SameItems w (f w).2) :
    itemProtocol.Keeps p t (storeWrite label f) :=
  moves_atomic fun w ↦ by
    split
    · exact ⟨.refl w, .refl w⟩
    · exact h w

/-- A program of a conductor. -/
theorem moves_conductor {L : License} {prog : Runtime A}
    (h : (conductorProtocol L).Keeps p t prog) : itemProtocol.Keeps p t prog :=
  h.under (conductorProtocol_under_items lasting_pure)

/-- What a program of a conductor returns. -/
theorem moves_conductor_returns {L : License} {Q : A → World → Prop} {prog : Runtime A}
    (h : (conductorProtocol L).Safe p t (Returns Q) prog s) :
    itemProtocol.Safe p t (Returns Q) prog s :=
  h.under (conductorProtocol_under_items lasting_pure)

/-- A program of a conductor without a license. -/
theorem moves_plain {prog : Runtime A} (h : (conductorProtocol {}).Keeps p t prog) :
    itemProtocol.Keeps p t prog := moves_conductor h

end Rules

end CodeConductor
