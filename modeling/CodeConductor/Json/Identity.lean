import CodeConductor.Json.Canonical
import CodeConductor.Order.StableSort
import Mathlib.Data.List.Lex

/-!
# What canonical JSON identifies

`fingerprint` hashes the canonical text of a value that may still be in memory, where an optional key
can be present with the value `undefined`. A JSON round trip drops such a key. The canonical form
writes it out, as the word `undefined`.

The keys of an object are sorted by `localeCompare`, which is taken to be a total preorder. Where it
does not tell two keys apart, their order is that of their insertion.

So two values that a JSON round trip makes equal have one canonical text exactly when they are
`Aligned`: at every object, `undefined` stands under the same keys, and tied keys stand in the same
order (`canonicalJson_eq_iff`).
-/

namespace CodeConductor

open StableSort

/-- A finite number, by its decimal text. -/
structure FiniteNumber extends JsonNumber where
  /-- It begins with a digit or a sign. -/
  opens : ∀ c ∈ text.head?, c.isDigit = true ∨ c = '-'
  deriving DecidableEq

/-- A value in memory. -/
inductive JsValue where
  | undefined
  | null
  | bool (value : Bool)
  | number (value : FiniteNumber)
  | string (value : String)
  | array (items : List JsValue)
  | object (members : List (String × JsValue))

/-- The order of keys by `localeCompare`; distinct keys may tie. -/
structure KeyOrder where
  le : String → String → Bool
  total : ∀ a b, (le a b || le b a) = true
  trans : ∀ a b c, le a b = true → le b c = true → le a c = true

/-- What a template literal writes for `undefined`. -/
def undefinedWord : JsonNumber where
  text := ['u', 'n', 'd', 'e', 'f', 'i', 'n', 'e', 'd']
  ne_nil := nofun
  isAtomChar_of_mem := List.all_eq_true.1 rfl

namespace JsValue

mutual

/-- A value made of null, booleans, finite numbers, strings, arrays and plain objects; only the
members of an object may be `undefined`. -/
def IsPlain : JsValue → Prop
  | undefined => False
  | null | bool _ | number _ | string _ => True
  | array items => ItemsPlain items
  | object members => (members.map Prod.fst).Nodup ∧ MembersPlain members

def ItemsPlain : List JsValue → Prop
  | [] => True
  | item :: rest => item.IsPlain ∧ ItemsPlain rest

def MembersPlain : List (String × JsValue) → Prop
  | [] => True
  | (_, value) :: rest => (value = undefined ∨ value.IsPlain) ∧ MembersPlain rest

end

mutual

/-- `canonicalJson`. -/
def canonicalJson (order : KeyOrder) : JsValue → List Char
  | undefined => undefinedWord.text
  | null => ['n', 'u', 'l', 'l']
  | bool true => ['t', 'r', 'u', 'e']
  | bool false => ['f', 'a', 'l', 's', 'e']
  | number value => value.text
  | string value => quoted value
  | array items => '[' :: commaJoin (canonicalItems order items) ++ [']']
  | object members =>
    '{' :: commaJoin ((sortBy Prod.fst order.le (canonicalMembers order members)).map memberText) ++
      ['}']

def canonicalItems (order : KeyOrder) : List JsValue → List (List Char)
  | [] => []
  | item :: rest => item.canonicalJson order :: canonicalItems order rest

def canonicalMembers (order : KeyOrder) : List (String × JsValue) → List (String × List Char)
  | [] => []
  | (key, value) :: rest => (key, value.canonicalJson order) :: canonicalMembers order rest

end

mutual

/-- `JSON.parse(JSON.stringify(value))`. -/
def roundTrip : JsValue → JsValue
  | undefined => undefined
  | null => null
  | bool value => bool value
  | number value => number value
  | string value => string value
  | array items => array (roundTripItems items)
  | object members => object (roundTripMembers members)

def roundTripItems : List JsValue → List JsValue
  | [] => []
  | undefined :: rest => null :: roundTripItems rest
  | item :: rest => item.roundTrip :: roundTripItems rest

def roundTripMembers : List (String × JsValue) → List (String × JsValue)
  | [] => []
  | (_, undefined) :: rest => roundTripMembers rest
  | (key, value) :: rest => (key, value.roundTrip) :: roundTripMembers rest

end

mutual

/-- The values are equal up to the order of object keys. -/
def Same : JsValue → JsValue → Prop
  | undefined, undefined => True
  | null, null => True
  | bool value, bool value' => value = value'
  | number value, number value' => value = value'
  | string value, string value' => value = value'
  | array items, array items' => SameItems items items'
  | object members, object members' =>
    (∀ key, key ∈ members.map Prod.fst ↔ key ∈ members'.map Prod.fst) ∧
      SameMembers members members'
  | _, _ => False

def SameItems : List JsValue → List JsValue → Prop
  | [], [] => True
  | item :: rest, item' :: rest' => item.Same item' ∧ SameItems rest rest'
  | _, _ => False

def SameMembers : List (String × JsValue) → List (String × JsValue) → Prop
  | [], _ => True
  | (key, value) :: rest, members' =>
    (∀ value', (key, value') ∈ members' → value.Same value') ∧ SameMembers rest members'

end

mutual

/-- At every object, `undefined` stands under the same keys of both values, and tied keys stand in
the same order. -/
def Aligned (order : KeyOrder) : JsValue → JsValue → Prop
  | array items, array items' => ItemsAligned order items items'
  | object members, object members' =>
    (∀ key, (key, undefined) ∈ members ↔ (key, undefined) ∈ members') ∧
      TiesAgree order.le (members.map Prod.fst) (members'.map Prod.fst) ∧
      MembersAligned order members members'
  | _, _ => True

def ItemsAligned (order : KeyOrder) : List JsValue → List JsValue → Prop
  | item :: rest, item' :: rest' => item.Aligned order item' ∧ ItemsAligned order rest rest'
  | _, _ => True

def MembersAligned (order : KeyOrder) : List (String × JsValue) → List (String × JsValue) → Prop
  | [], _ => True
  | (key, value) :: rest, members' =>
    (∀ value', (key, value') ∈ members' → value.Aligned order value') ∧
      MembersAligned order rest members'

end

/-! ### The members of lists -/

theorem itemsPlain_iff {items : List JsValue} :
    ItemsPlain items ↔ ∀ item ∈ items, item.IsPlain := by
  induction items with
  | nil => simp [ItemsPlain]
  | cons item rest ih => rw [ItemsPlain, ih, List.forall_mem_cons]

theorem membersPlain_iff {members : List (String × JsValue)} :
    MembersPlain members ↔ ∀ key value, (key, value) ∈ members →
      value = undefined ∨ value.IsPlain := by
  induction members with
  | nil => simp [MembersPlain]
  | cons member rest ih =>
    obtain ⟨key, value⟩ := member
    rw [MembersPlain, ih]
    constructor
    · rintro ⟨hvalue, hrest⟩ key' value' hmem
      rcases List.mem_cons.1 hmem with heq | hmem
      · obtain ⟨-, rfl⟩ := Prod.mk.inj heq
        exact hvalue
      · exact hrest key' value' hmem
    · intro h
      exact ⟨h key value List.mem_cons_self,
        fun key' value' hmem ↦ h key' value' (List.mem_cons_of_mem _ hmem)⟩

theorem sameMembers_iff {members members' : List (String × JsValue)} :
    SameMembers members members' ↔ ∀ key value value', (key, value) ∈ members →
      (key, value') ∈ members' → value.Same value' := by
  induction members with
  | nil => simp [SameMembers]
  | cons member rest ih =>
    obtain ⟨key, value⟩ := member
    rw [SameMembers, ih]
    constructor
    · rintro ⟨hvalue, hrest⟩ key' w w' hmem hmem'
      rcases List.mem_cons.1 hmem with heq | hmem
      · obtain ⟨rfl, rfl⟩ := Prod.mk.inj heq
        exact hvalue w' hmem'
      · exact hrest key' w w' hmem hmem'
    · intro h
      exact ⟨fun w' ↦ h key value w' List.mem_cons_self,
        fun key' w w' hmem ↦ h key' w w' (List.mem_cons_of_mem _ hmem)⟩

theorem membersAligned_iff {order : KeyOrder} {members members' : List (String × JsValue)} :
    MembersAligned order members members' ↔ ∀ key value value', (key, value) ∈ members →
      (key, value') ∈ members' → value.Aligned order value' := by
  induction members with
  | nil => simp [MembersAligned]
  | cons member rest ih =>
    obtain ⟨key, value⟩ := member
    rw [MembersAligned, ih]
    constructor
    · rintro ⟨hvalue, hrest⟩ key' w w' hmem hmem'
      rcases List.mem_cons.1 hmem with heq | hmem
      · obtain ⟨rfl, rfl⟩ := Prod.mk.inj heq
        exact hvalue w' hmem'
      · exact hrest key' w w' hmem hmem'
    · intro h
      exact ⟨fun w' ↦ h key value w' List.mem_cons_self,
        fun key' w w' hmem ↦ h key' w w' (List.mem_cons_of_mem _ hmem)⟩

/-- A round trip keeps the members that are defined. -/
theorem mem_roundTripMembers {members : List (String × JsValue)} {key : String} {value : JsValue} :
    (key, value) ∈ roundTripMembers members ↔
      ∃ source, (key, source) ∈ members ∧ source ≠ undefined ∧ value = source.roundTrip := by
  induction members with
  | nil => simp [roundTripMembers]
  | cons member rest ih =>
    obtain ⟨key', source⟩ := member
    by_cases hundefined : source = undefined
    · subst hundefined
      rw [roundTripMembers, ih]
      constructor
      · rintro ⟨w, hmem, h⟩
        exact ⟨w, List.mem_cons_of_mem _ hmem, h⟩
      · rintro ⟨w, hmem, hdefined, h⟩
        rcases List.mem_cons.1 hmem with heq | hmem
        · exact absurd (Prod.mk.inj heq).2 hdefined
        · exact ⟨w, hmem, hdefined, h⟩
    · have hcons : roundTripMembers ((key', source) :: rest) =
          (key', source.roundTrip) :: roundTripMembers rest := by
        cases source <;> first | exact absurd rfl hundefined | rfl
      rw [hcons, List.mem_cons, ih]
      constructor
      · rintro (heq | ⟨w, hmem, h⟩)
        · obtain ⟨rfl, rfl⟩ := Prod.mk.inj heq
          exact ⟨source, List.mem_cons_self, hundefined, rfl⟩
        · exact ⟨w, List.mem_cons_of_mem _ hmem, h⟩
      · rintro ⟨w, hmem, hdefined, rfl⟩
        rcases List.mem_cons.1 hmem with heq | hmem
        · obtain ⟨rfl, rfl⟩ := Prod.mk.inj heq
          exact .inl rfl
        · exact .inr ⟨w, hmem, hdefined, rfl⟩

theorem mem_keys_roundTripMembers {members : List (String × JsValue)} {key : String} :
    key ∈ (roundTripMembers members).map Prod.fst ↔
      ∃ source, (key, source) ∈ members ∧ source ≠ undefined := by
  constructor
  · intro hmem
    obtain ⟨⟨key', value⟩, hmember, rfl⟩ := List.mem_map.1 hmem
    obtain ⟨source, hsource, hdefined, -⟩ := mem_roundTripMembers.1 hmember
    exact ⟨source, hsource, hdefined⟩
  · rintro ⟨source, hsource, hdefined⟩
    exact List.mem_map.2 ⟨(key, source.roundTrip),
      mem_roundTripMembers.2 ⟨source, hsource, hdefined, rfl⟩, rfl⟩

/-! ### The texts of values -/

variable (order : KeyOrder)

theorem canonicalItems_eq (items : List JsValue) :
    canonicalItems order items = items.map (canonicalJson order) := by
  induction items with
  | nil => rfl
  | cons item rest ih => rw [canonicalItems, ih, List.map_cons]

theorem canonicalMembers_eq (members : List (String × JsValue)) :
    canonicalMembers order members =
      members.map fun member ↦ (member.1, member.2.canonicalJson order) := by
  induction members with
  | nil => rfl
  | cons member rest ih => rw [canonicalMembers, ih, List.map_cons]

mutual

/-- The value with `undefined` replaced by the word that is written for it. -/
private def printed : JsValue → JsonValue
  | undefined => .number undefinedWord
  | null => .null
  | bool value => .bool value
  | number value => .number value.toJsonNumber
  | string value => .string value
  | array items => .array (printedItems items)
  | object members => .object (printedMembers members)

private def printedItems : List JsValue → List JsonValue
  | [] => []
  | item :: rest => printed item :: printedItems rest

private def printedMembers : List (String × JsValue) → List (String × JsonValue)
  | [] => []
  | (key, value) :: rest => (key, printed value) :: printedMembers rest

end

mutual

private theorem canonicalJson_printed : ∀ value : JsValue,
    CodeConductor.canonicalJson order.le (printed value) = value.canonicalJson order
  | undefined | null | bool true | bool false | number _ | string _ => by
    simp only [printed, CodeConductor.canonicalJson, canonicalJson]
  | array items => by
    rw [printed, CodeConductor.canonicalJson, canonicalJson, canonicalItems_printed items]
  | object members => by
    rw [printed, CodeConductor.canonicalJson, canonicalJson, canonicalMembers_printed members]
    rfl

private theorem canonicalItems_printed : ∀ items : List JsValue,
    CodeConductor.canonicalItems order.le (printedItems items) = canonicalItems order items
  | [] => rfl
  | item :: rest => by
    rw [printedItems, CodeConductor.canonicalItems, canonicalItems, canonicalJson_printed item,
      canonicalItems_printed rest]

private theorem canonicalMembers_printed : ∀ members : List (String × JsValue),
    CodeConductor.canonicalMembers order.le (printedMembers members) =
      canonicalMembers order members
  | [] => rfl
  | (key, value) :: rest => by
    rw [printedMembers, CodeConductor.canonicalMembers, canonicalMembers,
      canonicalJson_printed value, canonicalMembers_printed rest]

end

/-- Arrays have one text exactly when their items do. -/
theorem canonicalJson_array_inj {items items' : List JsValue} :
    (array items).canonicalJson order = (array items').canonicalJson order ↔
      items.map (canonicalJson order) = items'.map (canonicalJson order) := by
  constructor
  · intro h
    rw [← canonicalJson_printed, ← canonicalJson_printed, printed, printed] at h
    have hitems := items_of_canonicalJson_eq order.le h
    rwa [← CodeConductor.canonicalItems_eq, ← CodeConductor.canonicalItems_eq,
      canonicalItems_printed, canonicalItems_printed, canonicalItems_eq, canonicalItems_eq] at hitems
  · intro h
    rw [canonicalJson, canonicalJson, canonicalItems_eq, canonicalItems_eq, h]

/-- The keys of an object with the texts of their values. -/
def texts (members : List (String × JsValue)) : List (String × List Char) :=
  members.map fun member ↦ (member.1, member.2.canonicalJson order)

theorem keys_texts (members : List (String × JsValue)) :
    (texts order members).map Prod.fst = members.map Prod.fst := by
  rw [texts, List.map_map]
  rfl

/-- Objects have one text exactly when they have the same members, as texts, and their tied keys
stand in the same order. -/
theorem canonicalJson_object_inj {members members' : List (String × JsValue)}
    (hnodup : (members.map Prod.fst).Nodup) (hnodup' : (members'.map Prod.fst).Nodup) :
    (object members).canonicalJson order = (object members').canonicalJson order ↔
      (texts order members).Perm (texts order members') ∧
        TiesAgree order.le (members.map Prod.fst) (members'.map Prod.fst) := by
  have hsort := @sortBy_eq_iff _ _ Prod.fst order.le (texts order members) (texts order members')
    order.total order.trans ((keys_texts order members).symm ▸ hnodup)
    ((keys_texts order members').symm ▸ hnodup')
  rw [keys_texts, keys_texts] at hsort
  rw [← hsort]
  constructor
  · intro h
    rw [← canonicalJson_printed, ← canonicalJson_printed, printed, printed] at h
    have hsorted := sorted_of_canonicalJson_eq order.le h
    rwa [← CodeConductor.canonicalMembers_eq, ← CodeConductor.canonicalMembers_eq,
      canonicalMembers_printed, canonicalMembers_printed, canonicalMembers_eq,
      canonicalMembers_eq] at hsorted
  · intro h
    rw [canonicalJson, canonicalJson, canonicalMembers_eq, canonicalMembers_eq]
    exact congrArg (fun sorted ↦ '{' :: commaJoin (sorted.map memberText) ++ ['}']) h

/-! ### Values of one text -/

/-- What the text of a value begins with, by kind. -/
private def kindOfChar (c : Char) : ℕ :=
  if c = 'u' then 0 else if c = 'n' then 1 else if c = 't' ∨ c = 'f' then 2
  else if c = '"' then 4 else if c = '[' then 5 else if c = '{' then 6 else 3

private def kind : JsValue → ℕ
  | undefined => 0
  | null => 1
  | bool _ => 2
  | number _ => 3
  | string _ => 4
  | array _ => 5
  | object _ => 6

private theorem head_canonicalJson (value : JsValue) :
    ∃ c rest, value.canonicalJson order = c :: rest ∧ kindOfChar c = value.kind := by
  cases value with
  | undefined => exact ⟨_, _, by rw [canonicalJson]; rfl, rfl⟩
  | null => exact ⟨_, _, by rw [canonicalJson], rfl⟩
  | bool value => cases value <;> exact ⟨_, _, by rw [canonicalJson], rfl⟩
  | number value =>
    obtain ⟨c, rest, htext⟩ := List.exists_cons_of_ne_nil value.ne_nil
    refine ⟨c, rest, by rw [canonicalJson, htext], ?_⟩
    have hopens : c.isDigit = true ∨ c = '-' := value.opens c (by rw [htext]; rfl)
    show kindOfChar c = 3
    have hne : ∀ d ∈ ['u', 'n', 't', 'f', '"', '[', '{'], c ≠ d := by
      rintro d hd rfl
      revert hopens
      simp only [List.mem_cons, List.not_mem_nil, or_false] at hd
      rcases hd with rfl | rfl | rfl | rfl | rfl | rfl | rfl <;> decide
    simp [kindOfChar, hne]
  | string value => exact ⟨_, _, by rw [canonicalJson, quoted]; rfl, rfl⟩
  | array items => exact ⟨_, _, by rw [canonicalJson]; rfl, rfl⟩
  | object members => exact ⟨_, _, by rw [canonicalJson]; rfl, rfl⟩

private theorem kind_eq {value value' : JsValue}
    (h : value.canonicalJson order = value'.canonicalJson order) : value.kind = value'.kind := by
  obtain ⟨c, rest, htext, hkind⟩ := head_canonicalJson order value
  obtain ⟨c', rest', htext', hkind'⟩ := head_canonicalJson order value'
  rw [htext, htext'] at h
  rw [← hkind, ← hkind', (List.cons.inj h).1]

/-- Nothing else is written as `undefined`. -/
theorem eq_undefined_of_text {value : JsValue}
    (h : value.canonicalJson order = undefined.canonicalJson order) : value = undefined := by
  have hkind := kind_eq order h
  cases value <;> first | rfl | exact nomatch hkind

/-- Distinct keys have one value each. -/
theorem value_unique {members : List (String × JsValue)} (hnodup : (members.map Prod.fst).Nodup)
    {key : String} {value value' : JsValue} (h : (key, value) ∈ members)
    (h' : (key, value') ∈ members) : value = value' :=
  (Prod.mk.inj (List.inj_on_of_nodup_map hnodup h h' rfl)).2

theorem mem_texts {members : List (String × JsValue)} {key : String} {text : List Char} :
    (key, text) ∈ texts order members ↔
      ∃ value, (key, value) ∈ members ∧ value.canonicalJson order = text := by
  constructor
  · intro hmem
    obtain ⟨⟨key', value⟩, hvalue, heq⟩ := List.mem_map.1 hmem
    obtain ⟨rfl, rfl⟩ := Prod.mk.inj heq
    exact ⟨value, hvalue, rfl⟩
  · rintro ⟨value, hvalue, rfl⟩
    exact List.mem_map.2 ⟨(key, value), hvalue, rfl⟩

section Members

variable {order} {members members' : List (String × JsValue)}

/-- Values under one key have one text exactly when they are the same and aligned. -/
def TextsDecided (order : KeyOrder) (members members' : List (String × JsValue)) : Prop :=
  ∀ key value value', (key, value) ∈ members → (key, value') ∈ members' → value ≠ undefined →
    value' ≠ undefined → (value.canonicalJson order = value'.canonicalJson order ↔
      value.roundTrip.Same value'.roundTrip ∧ value.Aligned order value')

/-- Members that are the same as texts are the same and aligned. -/
theorem same_of_texts (hnodup' : (members'.map Prod.fst).Nodup)
    (hdecided : TextsDecided order members members')
    (hmem : ∀ entry, entry ∈ texts order members ↔ entry ∈ texts order members') :
    (∀ key, key ∈ (roundTripMembers members).map Prod.fst ↔
        key ∈ (roundTripMembers members').map Prod.fst) ∧
      SameMembers (roundTripMembers members) (roundTripMembers members') ∧
      (∀ key, (key, undefined) ∈ members ↔ (key, undefined) ∈ members') ∧
      MembersAligned order members members' := by
  -- what is found under a key on one side is found there on the other
  have hfind (source target : List (String × JsValue))
      (hsub : ∀ entry, entry ∈ texts order source → entry ∈ texts order target) {key : String}
      {value : JsValue} (h : (key, value) ∈ source) : ∃ value', (key, value') ∈ target ∧
        value'.canonicalJson order = value.canonicalJson order :=
    (mem_texts order).1 (hsub _ ((mem_texts order).2 ⟨value, h, rfl⟩))
  have hundefined (source target : List (String × JsValue))
      (hsub : ∀ entry, entry ∈ texts order source → entry ∈ texts order target) {key : String}
      (h : (key, undefined) ∈ source) : (key, undefined) ∈ target := by
    obtain ⟨value', hvalue', htext⟩ := hfind source target hsub h
    exact eq_undefined_of_text order htext ▸ hvalue'
  have hkeys (source target : List (String × JsValue))
      (hsub : ∀ entry, entry ∈ texts order source → entry ∈ texts order target) {key : String}
      (h : key ∈ (roundTripMembers source).map Prod.fst) :
      key ∈ (roundTripMembers target).map Prod.fst := by
    obtain ⟨value, hvalue, hdefined⟩ := mem_keys_roundTripMembers.1 h
    obtain ⟨value', hvalue', htext⟩ := hfind source target hsub hvalue
    refine mem_keys_roundTripMembers.2 ⟨value', hvalue', ?_⟩
    rintro rfl
    exact hdefined (eq_undefined_of_text order htext.symm)
  have htext : ∀ key value value', (key, value) ∈ members → (key, value') ∈ members' →
      value.canonicalJson order = value'.canonicalJson order := by
    intro key value value' hvalue hvalue'
    obtain ⟨other, hother, htext⟩ := hfind members members' (fun _ ↦ (hmem _).1) hvalue
    rw [← htext, value_unique hnodup' hother hvalue']
  refine ⟨fun key ↦ ⟨hkeys members members' fun _ ↦ (hmem _).1,
      hkeys members' members fun _ ↦ (hmem _).2⟩, sameMembers_iff.2 ?_,
    fun key ↦ ⟨hundefined members members' fun _ ↦ (hmem _).1,
      hundefined members' members fun _ ↦ (hmem _).2⟩, membersAligned_iff.2 ?_⟩
  · intro key value value' hvalue hvalue'
    obtain ⟨source, hsource, hdefined, rfl⟩ := mem_roundTripMembers.1 hvalue
    obtain ⟨source', hsource', hdefined', rfl⟩ := mem_roundTripMembers.1 hvalue'
    exact ((hdecided key source source' hsource hsource' hdefined hdefined').1
      (htext key source source' hsource hsource')).1
  · intro key value value' hvalue hvalue'
    have hsame := htext key value value' hvalue hvalue'
    by_cases hdefined : value = undefined
    · subst hdefined
      simp [Aligned]
    by_cases hdefined' : value' = undefined
    · subst hdefined'
      exact absurd (eq_undefined_of_text order hsame) hdefined
    exact ((hdecided key value value' hvalue hvalue' hdefined hdefined').1 hsame).2

/-- Members that are the same and aligned are the same as texts. -/
theorem texts_of_same (hdecided : TextsDecided order members members')
    (hkeys : ∀ key, key ∈ (roundTripMembers members).map Prod.fst ↔
      key ∈ (roundTripMembers members').map Prod.fst)
    (hsame : SameMembers (roundTripMembers members) (roundTripMembers members'))
    (hundefined : ∀ key, (key, undefined) ∈ members ↔ (key, undefined) ∈ members')
    (haligned : MembersAligned order members members') :
    ∀ entry, entry ∈ texts order members ↔ entry ∈ texts order members' := by
  have htext : ∀ key value value', (key, value) ∈ members → (key, value') ∈ members' →
      value ≠ undefined → value' ≠ undefined →
      value.canonicalJson order = value'.canonicalJson order := by
    intro key value value' hvalue hvalue' hdefined hdefined'
    refine (hdecided key value value' hvalue hvalue' hdefined hdefined').2 ⟨?_,
      membersAligned_iff.1 haligned key value value' hvalue hvalue'⟩
    exact sameMembers_iff.1 hsame key _ _ (mem_roundTripMembers.2 ⟨value, hvalue, hdefined, rfl⟩)
      (mem_roundTripMembers.2 ⟨value', hvalue', hdefined', rfl⟩)
  rintro ⟨key, text⟩
  rw [mem_texts, mem_texts]
  constructor
  · rintro ⟨value, hvalue, rfl⟩
    by_cases hdefined : value = undefined
    · subst hdefined
      exact ⟨undefined, (hundefined key).1 hvalue, rfl⟩
    · obtain ⟨value', hvalue', hdefined'⟩ := mem_keys_roundTripMembers.1
        ((hkeys key).1 (mem_keys_roundTripMembers.2 ⟨value, hvalue, hdefined⟩))
      exact ⟨value', hvalue', (htext key value value' hvalue hvalue' hdefined hdefined').symm⟩
  · rintro ⟨value', hvalue', rfl⟩
    by_cases hdefined' : value' = undefined
    · subst hdefined'
      exact ⟨undefined, (hundefined key).2 hvalue', rfl⟩
    · obtain ⟨value, hvalue, hdefined⟩ := mem_keys_roundTripMembers.1
        ((hkeys key).2 (mem_keys_roundTripMembers.2 ⟨value', hvalue', hdefined'⟩))
      exact ⟨value, hvalue, htext key value value' hvalue hvalue' hdefined hdefined'⟩

end Members

private theorem kind_of_same {value value' : JsValue} (h : value.Same value') :
    value.kind = value'.kind := by
  cases value <;> cases value' <;> first | rfl | simp [Same] at h

private theorem kind_roundTrip (value : JsValue) : value.roundTrip.kind = value.kind := by
  cases value <;> simp [roundTrip, kind]

theorem roundTripItems_cons {item : JsValue} (hplain : item.IsPlain) (rest : List JsValue) :
    roundTripItems (item :: rest) = item.roundTrip :: roundTripItems rest := by
  cases item with
  | undefined => simp [IsPlain] at hplain
  | _ =>
    rw [roundTripItems]
    simp

mutual

/-- **Values have one canonical text** exactly when a round trip makes them the same and they are
aligned. -/
theorem canonicalJson_eq_iff : ∀ value value' : JsValue, value.IsPlain → value'.IsPlain →
    (value.canonicalJson order = value'.canonicalJson order ↔
      value.roundTrip.Same value'.roundTrip ∧ value.Aligned order value')
  | value, value', hplain, hplain' => by
    by_cases hkind : value.kind = value'.kind
    · cases value with
      | undefined => simp [IsPlain] at hplain
      | null =>
        cases value' with
        | null => simp [roundTrip, Same, Aligned]
        | _ => exact nomatch hkind
      | bool b =>
        cases value' with
        | bool b' => cases b <;> cases b' <;> simp [canonicalJson, roundTrip, Same, Aligned]
        | _ => exact nomatch hkind
      | number n =>
        cases value' with
        | number n' =>
          have htext : n.text = n'.text ↔ n = n' := by
            obtain ⟨⟨text, _, _⟩, _⟩ := n
            obtain ⟨⟨text', _, _⟩, _⟩ := n'
            simp
          simpa [canonicalJson, roundTrip, Same, Aligned] using htext
        | _ => exact nomatch hkind
      | string text =>
        cases value' with
        | string text' =>
          have htext : quoted text = quoted text' ↔ text = text' :=
            ⟨fun h ↦ (quoted_splits (congrArg (· ++ []) h)).1, fun h ↦ congrArg quoted h⟩
          simpa [canonicalJson, roundTrip, Same, Aligned] using htext
        | _ => exact nomatch hkind
      | array items =>
        cases value' with
        | array items' =>
          rw [IsPlain] at hplain hplain'
          rw [canonicalJson_array_inj, roundTrip, roundTrip, Same, Aligned]
          exact items_eq_iff items items' hplain hplain'
        | _ => exact nomatch hkind
      | object members =>
        cases value' with
        | object members' =>
          rw [IsPlain] at hplain hplain'
          have hdecided : TextsDecided order members members' :=
            members_decided members members' hplain.2 hplain'.2
          have hperm : (texts order members).Perm (texts order members') ↔
              ∀ entry, entry ∈ texts order members ↔ entry ∈ texts order members' :=
            List.perm_ext_iff_of_nodup
              (List.Nodup.of_map Prod.fst ((keys_texts order members).symm ▸ hplain.1))
              (List.Nodup.of_map Prod.fst ((keys_texts order members').symm ▸ hplain'.1))
          rw [canonicalJson_object_inj order hplain.1 hplain'.1, roundTrip, roundTrip, Same, Aligned,
            hperm]
          constructor
          · rintro ⟨hmem, hties⟩
            obtain ⟨hkeys, hsame, hundefined, haligned⟩ := same_of_texts hplain'.1 hdecided hmem
            exact ⟨⟨hkeys, hsame⟩, hundefined, hties, haligned⟩
          · rintro ⟨⟨hkeys, hsame⟩, hundefined, hties, haligned⟩
            exact ⟨texts_of_same hdecided hkeys hsame hundefined haligned, hties⟩
        | _ => exact nomatch hkind
    · refine iff_of_false (fun h ↦ hkind (kind_eq order h)) fun h ↦ hkind ?_
      rw [← kind_roundTrip value, ← kind_roundTrip value']
      exact kind_of_same h.1

theorem items_eq_iff : ∀ items items' : List JsValue, ItemsPlain items → ItemsPlain items' →
    (items.map (canonicalJson order) = items'.map (canonicalJson order) ↔
      SameItems (roundTripItems items) (roundTripItems items') ∧ ItemsAligned order items items')
  | [], [], _, _ => by simp [roundTripItems, SameItems, ItemsAligned]
  | [], item' :: rest', _, hplain' => by
    simp [roundTripItems_cons hplain'.1, roundTripItems, SameItems]
  | item :: rest, [], hplain, _ => by
    simp [roundTripItems_cons hplain.1, roundTripItems, SameItems]
  | item :: rest, item' :: rest', hplain, hplain' => by
    rw [List.map_cons, List.map_cons, List.cons.injEq, roundTripItems_cons hplain.1,
      roundTripItems_cons hplain'.1, SameItems, ItemsAligned,
      canonicalJson_eq_iff item item' hplain.1 hplain'.1,
      items_eq_iff rest rest' hplain.2 hplain'.2]
    exact ⟨fun h ↦ ⟨⟨h.1.1, h.2.1⟩, h.1.2, h.2.2⟩, fun h ↦ ⟨⟨h.1.1, h.2.1⟩, h.1.2, h.2.2⟩⟩

theorem members_decided : ∀ members members' : List (String × JsValue), MembersPlain members →
    MembersPlain members' → TextsDecided order members members'
  | [], _, _, _ => fun _ _ _ h ↦ nomatch h
  | (key, value) :: rest, members', hplain, hplain' => by
    intro key' w w' hmem hmem' hdefined hdefined'
    rcases List.mem_cons.1 hmem with heq | hmem
    · obtain ⟨-, rfl⟩ := Prod.mk.inj heq
      exact canonicalJson_eq_iff w w' (hplain.1.resolve_left hdefined)
        ((membersPlain_iff.1 hplain' key' w' hmem').resolve_left hdefined')
    · exact members_decided rest members' hplain.2 hplain' key' w w' hmem hmem' hdefined hdefined'

end

/-! ### Values that are their own round trip -/

mutual

/-- No member of an object in the value is `undefined`. -/
def AllDefined : JsValue → Prop
  | undefined => False
  | null | bool _ | number _ | string _ => True
  | array items => ItemsDefined items
  | object members => MembersDefined members

def ItemsDefined : List JsValue → Prop
  | [] => True
  | item :: rest => item.AllDefined ∧ ItemsDefined rest

def MembersDefined : List (String × JsValue) → Prop
  | [] => True
  | (_, value) :: rest => value.AllDefined ∧ MembersDefined rest

end

theorem roundTrip_ne_undefined {value : JsValue} (hplain : value.IsPlain) :
    value.roundTrip ≠ undefined := by
  intro h
  have hkind : value.kind = undefined.kind := by rw [← kind_roundTrip, h]
  cases value with
  | undefined => simp [IsPlain] at hplain
  | _ => exact nomatch hkind

theorem keys_roundTripMembers : ∀ members : List (String × JsValue),
    ((roundTripMembers members).map Prod.fst).Sublist (members.map Prod.fst)
  | [] => .slnil
  | (key, value) :: rest => by
    by_cases hundefined : value = undefined
    · subst hundefined
      rw [roundTripMembers]
      exact (keys_roundTripMembers rest).cons key
    · rw [roundTripMembers]
      · exact (keys_roundTripMembers rest).cons_cons key
      · exact hundefined

mutual

/-- A round trip gives a plain value. -/
theorem isPlain_roundTrip : ∀ value : JsValue, value.IsPlain → value.roundTrip.IsPlain
  | undefined, h => by simp [IsPlain] at h
  | null, _ | bool _, _ | number _, _ | string _, _ => by simp [roundTrip, IsPlain]
  | array items, h => by
    rw [IsPlain] at h
    rw [roundTrip, IsPlain]
    exact itemsPlain_roundTrip items h
  | object members, h => by
    rw [IsPlain] at h
    rw [roundTrip, IsPlain]
    refine ⟨h.1.sublist (keys_roundTripMembers members), membersPlain_iff.2 fun key value hmem ↦ ?_⟩
    obtain ⟨source, hsource, hdefined, rfl⟩ := mem_roundTripMembers.1 hmem
    exact .inr (valuesPlain_roundTrip members h.2 key source hsource hdefined)

theorem itemsPlain_roundTrip : ∀ items : List JsValue, ItemsPlain items →
    ItemsPlain (roundTripItems items)
  | [], _ => trivial
  | item :: rest, h => by
    rw [roundTripItems_cons h.1]
    exact ⟨isPlain_roundTrip item h.1, itemsPlain_roundTrip rest h.2⟩

theorem valuesPlain_roundTrip : ∀ members : List (String × JsValue), MembersPlain members →
    ∀ key value, (key, value) ∈ members → value ≠ undefined → value.roundTrip.IsPlain
  | [], _, _, _, hmem, _ => nomatch hmem
  | (key, value) :: rest, h, key', value', hmem, hdefined => by
    rcases List.mem_cons.1 hmem with heq | hmem
    · obtain ⟨-, rfl⟩ := Prod.mk.inj heq
      exact isPlain_roundTrip value' (h.1.resolve_left hdefined)
    · exact valuesPlain_roundTrip rest h.2 key' value' hmem hdefined

end

mutual

/-- A value without `undefined` is its own round trip. -/
theorem roundTrip_eq : ∀ value : JsValue, value.AllDefined → value.roundTrip = value
  | undefined, h => by simp [AllDefined] at h
  | null, _ | bool _, _ | number _, _ | string _, _ => by rw [roundTrip]
  | array items, h => by
    rw [AllDefined] at h
    rw [roundTrip, roundTripItems_eq items h]
  | object members, h => by
    rw [AllDefined] at h
    rw [roundTrip, roundTripMembers_eq members h]

theorem roundTripItems_eq : ∀ items : List JsValue, ItemsDefined items →
    roundTripItems items = items
  | [], _ => rfl
  | item :: rest, h => by
    have hdefined : item ≠ undefined := by
      rintro rfl
      simp [ItemsDefined, AllDefined] at h
    rw [roundTripItems, roundTrip_eq item h.1, roundTripItems_eq rest h.2]
    exact hdefined

theorem roundTripMembers_eq : ∀ members : List (String × JsValue), MembersDefined members →
    roundTripMembers members = members
  | [], _ => rfl
  | (key, value) :: rest, h => by
    have hdefined : value ≠ undefined := by
      rintro rfl
      simp [MembersDefined, AllDefined] at h
    rw [roundTripMembers, roundTrip_eq value h.1, roundTripMembers_eq rest h.2]
    exact hdefined

end

mutual

/-- A value that is aligned with its round trip has no `undefined`. -/
theorem allDefined_of_aligned : ∀ value : JsValue, value.IsPlain →
    value.roundTrip.Aligned order value → value.AllDefined
  | undefined, h, _ => by simp [IsPlain] at h
  | null, _, _ | bool _, _, _ | number _, _, _ | string _, _, _ => by simp [AllDefined]
  | array items, h, haligned => by
    rw [IsPlain] at h
    rw [roundTrip, Aligned] at haligned
    rw [AllDefined]
    exact itemsDefined_of_aligned items h haligned
  | object members, h, haligned => by
    rw [IsPlain] at h
    rw [roundTrip, Aligned] at haligned
    obtain ⟨hundefined, -, hmembers⟩ := haligned
    rw [AllDefined]
    refine membersDefined_of_aligned members h.2 (fun key hmem ↦ ?_) fun key value hmem hdefined ↦ ?_
    · obtain ⟨source, hsource, hdefined, heq⟩ := mem_roundTripMembers.1 ((hundefined key).2 hmem)
      exact roundTrip_ne_undefined
        ((membersPlain_iff.1 h.2 key source hsource).resolve_left hdefined) heq.symm
    · exact membersAligned_iff.1 hmembers key _ value
        (mem_roundTripMembers.2 ⟨value, hmem, hdefined, rfl⟩) hmem

theorem itemsDefined_of_aligned : ∀ items : List JsValue, ItemsPlain items →
    ItemsAligned order (roundTripItems items) items → ItemsDefined items
  | [], _, _ => trivial
  | item :: rest, h, haligned => by
    rw [roundTripItems_cons h.1, ItemsAligned] at haligned
    exact ⟨allDefined_of_aligned item h.1 haligned.1,
      itemsDefined_of_aligned rest h.2 haligned.2⟩

theorem membersDefined_of_aligned : ∀ members : List (String × JsValue), MembersPlain members →
    (∀ key, (key, undefined) ∉ members) →
    (∀ key value, (key, value) ∈ members → value ≠ undefined →
      value.roundTrip.Aligned order value) → MembersDefined members
  | [], _, _, _ => trivial
  | (key, value) :: rest, h, hundefined, haligned => by
    have hdefined : value ≠ undefined := by
      rintro rfl
      exact hundefined key List.mem_cons_self
    exact ⟨allDefined_of_aligned value (h.1.resolve_left hdefined)
        (haligned key value List.mem_cons_self hdefined),
      membersDefined_of_aligned rest h.2 (fun key' hmem ↦ hundefined key' (List.mem_cons_of_mem _ hmem))
        fun key' value' hmem ↦ haligned key' value' (List.mem_cons_of_mem _ hmem)⟩

end

end JsValue

/-! ### The identity of canonical JSON -/

/-- A value made of null, booleans, finite numbers, strings, arrays and plain objects. -/
abbrev PlainValue := {value : JsValue // value.IsPlain}

/-- **Canonical JSON identifies** two values exactly when a JSON round trip makes them equal up to
the order of object keys. -/
def CanonicalIdentity (order : KeyOrder) (value value' : PlainValue) : Prop :=
  value.1.canonicalJson order = value'.1.canonicalJson order ↔
    value.1.roundTrip.Same value'.1.roundTrip

/-- Canonical JSON identifies two values as it should exactly when, if a round trip makes them equal,
they are aligned; and it is unchanged by a round trip exactly when no key is present with the value
`undefined`. -/
theorem canonicalIdentity_iff (order : KeyOrder) (value value' : PlainValue) :
    (CanonicalIdentity order value value' ↔
        (value.1.roundTrip.Same value'.1.roundTrip → value.1.Aligned order value'.1)) ∧
      (value.1.roundTrip.canonicalJson order = value.1.canonicalJson order ↔
        value.1.AllDefined) := by
  have htext := JsValue.canonicalJson_eq_iff order value.1 value'.1 value.2 value'.2
  refine ⟨?_, fun h ↦ ?_, fun h ↦ by rw [JsValue.roundTrip_eq value.1 h]⟩
  · rw [CanonicalIdentity, htext]
    exact ⟨fun h hsame ↦ (h.2 hsame).2, fun h ↦ ⟨And.left, fun hsame ↦ ⟨hsame, h hsame⟩⟩⟩
  · have hplain := JsValue.isPlain_roundTrip value.1 value.2
    exact JsValue.allDefined_of_aligned order value.1 value.2
      ((JsValue.canonicalJson_eq_iff order _ _ hplain value.2).1 h).2

/-- A request that gives no idempotency key, and one that gives it as `undefined`. -/
def withoutKey : PlainValue := ⟨.object [], by simp [JsValue.IsPlain, JsValue.MembersPlain]⟩

def withUndefinedKey : PlainValue :=
  ⟨.object [("idempotencyKey", .undefined)], by simp [JsValue.IsPlain, JsValue.MembersPlain]⟩

/-- An order that does not see zero-width joiners. -/
def joinerBlind : KeyOrder where
  le a b := (a.toList.filter (· ≠ '\u200d')).map Char.toNat ≤
    (b.toList.filter (· ≠ '\u200d')).map Char.toNat
  total a b := by
    rw [Bool.or_eq_true, decide_eq_true_eq, decide_eq_true_eq]
    exact le_total _ _
  trans a b c := by
    rw [decide_eq_true_eq, decide_eq_true_eq, decide_eq_true_eq]
    exact le_trans

/-- An object with a key with and without a joiner, and the same one with the keys the other way
round. -/
def tiedKeys : PlainValue :=
  ⟨.object [("k", .null), ("k\u200d", .null)],
    by
      simp only [JsValue.IsPlain, JsValue.MembersPlain, or_true, and_true]
      decide⟩

def tiedKeysSwapped : PlainValue :=
  ⟨.object [("k\u200d", .null), ("k", .null)],
    by
      simp only [JsValue.IsPlain, JsValue.MembersPlain, or_true, and_true]
      decide⟩

/-- A key with the value `undefined` is written out whatever the order is, and tied keys are written
in the order they were inserted in. -/
theorem not_canonicalIdentity :
    (∀ order, ¬CanonicalIdentity order withUndefinedKey withoutKey) ∧
      ¬CanonicalIdentity joinerBlind tiedKeys tiedKeysSwapped := by
  constructor
  · intro order h
    have htext := h.2 (by
      simp [withUndefinedKey, withoutKey, JsValue.roundTrip, JsValue.roundTripMembers, JsValue.Same,
        JsValue.SameMembers])
    simp [withUndefinedKey, withoutKey, JsValue.canonicalJson, JsValue.canonicalMembers, sortBy,
      commaJoin, memberText, quoted] at htext
  · intro h
    have hsame : tiedKeys.1.roundTrip.Same tiedKeysSwapped.1.roundTrip := by
      refine ⟨fun key ↦ ?_, JsValue.sameMembers_iff.2 fun key value value' hmem hmem' ↦ ?_⟩
      · show key ∈ ["k", "k\u200d"] ↔ key ∈ ["k\u200d", "k"]
        rw [List.mem_pair, List.mem_pair, or_comm]
      · have hnull : ∀ members : List String, ∀ value, (key, value) ∈ members.map (·, JsValue.null) →
            value = .null := by
          intro members value hmem
          obtain ⟨_, -, heq⟩ := List.mem_map.1 hmem
          exact (Prod.mk.inj heq).2.symm
        rw [hnull ["k", "k\u200d"] value hmem, hnull ["k\u200d", "k"] value' hmem']
        trivial
    have hsorted : ∀ members : List (String × JsValue),
        (JsValue.texts joinerBlind members).Pairwise
          (fun left right ↦ joinerBlind.le left.1 right.1 = true) →
        sortBy Prod.fst joinerBlind.le (JsValue.canonicalMembers joinerBlind members) =
          JsValue.texts joinerBlind members := by
      intro members hpairwise
      rw [JsValue.canonicalMembers_eq]
      exact List.mergeSort_of_pairwise hpairwise
    have htext := h.2 hsame
    rw [tiedKeys, tiedKeysSwapped, JsValue.canonicalJson, JsValue.canonicalJson,
      hsorted _ (by decide +kernel), hsorted _ (by decide +kernel)] at htext
    exact absurd htext (by decide +kernel)

end CodeConductor
