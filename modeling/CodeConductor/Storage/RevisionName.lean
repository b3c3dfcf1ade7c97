import CodeConductor.Contracts.Attempt
import Mathlib.Data.String.Basic

/-!
# The names of revision directories

A committed revision is a directory named by the revision, padded with zeros on the left to twelve
digits. The reader keeps the names that consist of exactly twelve digits, sorts them as text, takes
the last, and reads it back as a number. Up to `lastNamedRevision` this is the order of the
revisions themselves (`revisionName_le_iff`, `revisionNumber_revisionName`); one revision later the
name has thirteen digits and no reader keeps it (`isRevisionName_revisionName`).
-/

namespace CodeConductor

/-- The greatest revision whose name has twelve digits. -/
def lastNamedRevision : ℕ := 999999999999

/-- `revision.toString().padStart(12, "0")`. -/
def revisionName (revision : ℕ) : String := padStart 12 revision

/-- `/^\d{12}$/.test(name)`. -/
def isRevisionName (name : String) : Bool :=
  name.toList.length = 12 && name.toList.all Char.isDigit

/-- `Number(name)` for a name of digits. -/
def revisionNumber (name : String) : ℕ := Nat.ofDigitChars 10 name.toList 0

/-- `.filter(…).map((entry) => entry.name).sort().at(-1)`: the greatest of the kept names. -/
def latestName (names : List String) : Option String := (names.filter isRevisionName).max?

theorem toList_padStart (width n : ℕ) : (padStart width n).toList =
    List.replicate (width - (Nat.toDigits 10 n).length) '0' ++ Nat.toDigits 10 n :=
  String.toList_ofList

theorem length_toDigits_le_twelve {n : ℕ} :
    (Nat.toDigits 10 n).length ≤ 12 ↔ n ≤ lastNamedRevision := by
  rw [Nat.length_toDigits_le_iff (by decide) (by decide)]
  exact Nat.lt_succ_iff

theorem isDigit_of_mem_revisionName {n : ℕ} {c : Char} (h : c ∈ (revisionName n).toList) :
    c.isDigit = true := by
  rw [revisionName, toList_padStart] at h
  obtain hzero | hdigit := List.mem_append.1 h
  · rw [List.eq_of_mem_replicate hzero]
    rfl
  · exact Nat.isDigit_of_mem_toDigits (by decide) (by decide) hdigit

/-- A revision's name is kept by the reader exactly up to `lastNamedRevision`. -/
theorem isRevisionName_revisionName {n : ℕ} :
    isRevisionName (revisionName n) = true ↔ n ≤ lastNamedRevision := by
  have hall : (revisionName n).toList.all Char.isDigit = true :=
    List.all_eq_true.2 fun c hc ↦ isDigit_of_mem_revisionName hc
  have hlen : (revisionName n).toList.length = 12 ↔ n ≤ lastNamedRevision := by
    rw [revisionName, toList_padStart, List.length_append, List.length_replicate,
      ← length_toDigits_le_twelve]
    omega
  rw [isRevisionName, hall, Bool.and_true, decide_eq_true_iff, hlen]

/-- A name reads back as the revision it was made from. -/
@[simp] theorem revisionNumber_revisionName (n : ℕ) : revisionNumber (revisionName n) = n := by
  rw [revisionNumber, revisionName, toList_padStart, Nat.ofDigitChars_append,
    Nat.ofDigitChars_replicate_zero, Nat.mul_zero, Nat.ofDigitChars_ten_toDigits]

theorem revisionName_injective : Function.Injective revisionName :=
  Function.LeftInverse.injective revisionNumber_revisionName

/-! ### Order -/

theorem digit_value_lt {c d : Char} (hc : c.isDigit = true) (hd : d.isDigit = true) (h : c < d) :
    c.toNat - '0'.toNat + 1 ≤ d.toNat - '0'.toNat ∧ c.toNat - '0'.toNat < 10 ∧
      d.toNat - '0'.toNat < 10 := by
  rw [Char.isDigit, Bool.and_eq_true, decide_eq_true_iff, decide_eq_true_iff] at hc hd
  have h1 : c.val.toNat < d.val.toNat := h
  have h2 : (48 : ℕ) ≤ c.val.toNat := hc.1
  have h3 : d.val.toNat ≤ 57 := hd.2
  show c.val.toNat - 48 + 1 ≤ d.val.toNat - 48 ∧ c.val.toNat - 48 < 10 ∧ d.val.toNat - 48 < 10
  omega

theorem ofDigitChars_cons_eq (c : Char) (l : List Char) : Nat.ofDigitChars 10 (c :: l) 0 =
    10 ^ l.length * (c.toNat - '0'.toNat) + Nat.ofDigitChars 10 l 0 := by
  rw [Nat.ofDigitChars_cons, Nat.ofDigitChars_eq_ofDigitChars_zero, Nat.mul_zero, Nat.zero_add]

theorem ofDigitChars_lt_pow {l : List Char} (h : ∀ c ∈ l, c.isDigit = true) :
    Nat.ofDigitChars 10 l 0 < 10 ^ l.length := by
  induction l with
  | nil => simp
  | cons c l ih =>
    have hl := ih fun d hd ↦ h d (List.mem_cons_of_mem _ hd)
    have hc := h c List.mem_cons_self
    rw [Char.isDigit, Bool.and_eq_true, decide_eq_true_iff, decide_eq_true_iff] at hc
    have hval : c.toNat - '0'.toNat ≤ 9 := by
      have : c.val.toNat ≤ 57 := hc.2
      show c.val.toNat - 48 ≤ 9
      omega
    rw [ofDigitChars_cons_eq, List.length_cons, pow_succ]
    have := Nat.mul_le_mul_left (10 ^ l.length) hval
    omega

/-- Texts of digits of one length are ordered as the numbers they denote. -/
theorem ofDigitChars_lt_of_lt {l m : List Char} (hl : ∀ c ∈ l, c.isDigit = true)
    (hm : ∀ c ∈ m, c.isDigit = true) (hlen : l.length = m.length) (h : l < m) :
    Nat.ofDigitChars 10 l 0 < Nat.ofDigitChars 10 m 0 := by
  induction l generalizing m with
  | nil =>
    obtain rfl := List.eq_nil_of_length_eq_zero hlen.symm
    exact absurd h (lt_irrefl _)
  | cons c l ih =>
    match m, hlen with
    | d :: m, hlen =>
      have hl' : ∀ x ∈ l, x.isDigit = true := fun x hx ↦ hl x (List.mem_cons_of_mem _ hx)
      have hm' : ∀ x ∈ m, x.isDigit = true := fun x hx ↦ hm x (List.mem_cons_of_mem _ hx)
      have hlen' : l.length = m.length := Nat.succ.inj hlen
      rw [ofDigitChars_cons_eq, ofDigitChars_cons_eq, hlen']
      obtain hcd | ⟨rfl, hlm⟩ := List.cons_lt_cons_iff.1 h
      · -- the first digit decides: the rest is below one unit of its place
        obtain ⟨hval, -, -⟩ := digit_value_lt (hl c List.mem_cons_self) (hm d List.mem_cons_self) hcd
        have hrest := ofDigitChars_lt_pow hl'
        rw [hlen'] at hrest
        have := Nat.mul_le_mul_left (10 ^ m.length) hval
        rw [Nat.mul_add, Nat.mul_one] at this
        omega
      · have := ih hl' hm' hlen' hlm
        omega

/-- Names kept by the reader are ordered as the revisions. -/
theorem revisionName_le_iff {m n : ℕ} (hm : m ≤ lastNamedRevision) (hn : n ≤ lastNamedRevision) :
    revisionName m ≤ revisionName n ↔ m ≤ n := by
  have hlen : ∀ {k : ℕ}, k ≤ lastNamedRevision → (revisionName k).toList.length = 12 := by
    intro k hk
    have := isRevisionName_revisionName.2 hk
    rw [isRevisionName, Bool.and_eq_true, decide_eq_true_iff] at this
    exact this.1
  have hlt : ∀ {a b : ℕ}, a ≤ lastNamedRevision → b ≤ lastNamedRevision →
      revisionName a < revisionName b → a < b := by
    intro a b ha hb hab
    have := ofDigitChars_lt_of_lt (fun c hc ↦ isDigit_of_mem_revisionName hc)
      (fun c hc ↦ isDigit_of_mem_revisionName hc) ((hlen ha).trans (hlen hb).symm)
      (String.lt_iff_toList_lt.1 hab)
    have hval : ∀ k, Nat.ofDigitChars 10 (revisionName k).toList 0 = k := revisionNumber_revisionName
    rwa [hval, hval] at this
  refine ⟨fun h ↦ ?_, fun h ↦ ?_⟩
  · obtain heq | hne := eq_or_lt_of_le h
    · exact le_of_eq (revisionName_injective heq)
    · exact le_of_lt (hlt hm hn hne)
  · by_contra hcon
    exact absurd (hlt hn hm (not_le.1 hcon)) (not_lt.2 h)

/-- The latest name of a directory is the name of its greatest revision, when every kept name is a
revision's. -/
theorem latestName_eq_some {names : List String} {n : ℕ} (hn : n ≤ lastNamedRevision)
    (hmem : revisionName n ∈ names)
    (hle : ∀ name ∈ names, isRevisionName name = true → ∃ m ≤ n, name = revisionName m) :
    latestName names = some (revisionName n) := by
  rw [latestName, List.max?_eq_some_iff]
  refine ⟨List.mem_filter.2 ⟨hmem, isRevisionName_revisionName.2 hn⟩, fun name hname ↦ ?_⟩
  obtain ⟨hin, hkept⟩ := List.mem_filter.1 hname
  obtain ⟨m, hm, rfl⟩ := hle name hin hkept
  exact (revisionName_le_iff (hm.trans hn) hn).2 hm

theorem latestName_eq_none {names : List String}
    (h : ∀ name ∈ names, isRevisionName name = false) : latestName names = none := by
  rw [latestName, List.filter_eq_nil_iff.2 fun name hname ↦ by rw [h name hname]; simp]
  rfl

end CodeConductor
