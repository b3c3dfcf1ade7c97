import Mathlib.Data.List.Basic

/-!
# Reading bytes as UTF-8 text

The decoder of the Encoding standard, byte by byte: a byte that cannot continue the character begun
so far ends it with U+FFFD and is read again as a first byte. Writing back what was read gives at least as
many bytes, and the same bytes exactly when they are UTF-8.
-/

namespace Utf8

/-- What has been read of a character. -/
inductive State where
  | start
  | two (a : ℕ)
  | three (a : ℕ)
  | threeTail (a b : ℕ)
  | four (a : ℕ)
  | fourTail (a b : ℕ)
  | fourLast (a b c : ℕ)
  deriving DecidableEq, Repr

/-- U+FFFD. -/
def replacement : Char := Char.ofNat 0xFFFD

/-- The bytes of a begun character. -/
def State.weight : State → ℕ
  | start => 0
  | two _ | three _ | four _ => 1
  | threeTail .. | fourTail .. => 2
  | fourLast .. => 3

/-- A byte that continues a character. -/
def isTail (b : ℕ) : Bool := 0x80 ≤ b && b ≤ 0xBF

/-- The second byte of a character of three bytes. -/
def isSecondOfThree (a b : ℕ) : Bool :=
  (if a = 0xE0 then 0xA0 else 0x80) ≤ b && b ≤ (if a = 0xED then 0x9F else 0xBF)

/-- The second byte of a character of four bytes. -/
def isSecondOfFour (a b : ℕ) : Bool :=
  (if a = 0xF0 then 0x90 else 0x80) ≤ b && b ≤ (if a = 0xF4 then 0x8F else 0xBF)

/-- Read a first byte. -/
def first (b : ℕ) : List Char × State :=
  if b ≤ 0x7F then ([Char.ofNat b], .start)
  else if 0xC2 ≤ b ∧ b ≤ 0xDF then ([], .two b)
  else if 0xE0 ≤ b ∧ b ≤ 0xEF then ([], .three b)
  else if 0xF0 ≤ b ∧ b ≤ 0xF4 then ([], .four b)
  else ([replacement], .start)

/-- Give up the character begun and read the byte as a first one. -/
def restart (b : ℕ) : List Char × State := (replacement :: (first b).1, (first b).2)

/-- Read a byte. -/
def step : State → ℕ → List Char × State
  | .start, b => first b
  | .two a, b =>
    if isTail b then ([Char.ofNat ((a - 0xC0) * 64 + (b - 0x80))], .start) else restart b
  | .three a, b => if isSecondOfThree a b then ([], .threeTail a b) else restart b
  | .threeTail a b, c =>
    if isTail c then ([Char.ofNat (((a - 0xE0) * 64 + (b - 0x80)) * 64 + (c - 0x80))], .start)
    else restart c
  | .four a, b => if isSecondOfFour a b then ([], .fourTail a b) else restart b
  | .fourTail a b, c => if isTail c then ([], .fourLast a b c) else restart c
  | .fourLast a b c, d =>
    if isTail d then
      ([Char.ofNat ((((a - 0xF0) * 64 + (b - 0x80)) * 64 + (c - 0x80)) * 64 + (d - 0x80))], .start)
    else restart d

/-- Read bytes from a state to their end. -/
def decodeFrom : State → List UInt8 → List Char
  | .start, [] => []
  | _, [] => [replacement]
  | s, b :: rest => (step s b.toNat).1 ++ decodeFrom (step s b.toNat).2 rest

/-- Read bytes. -/
def decode (bytes : List UInt8) : List Char := decodeFrom .start bytes

/-- Write characters. -/
def encode (chars : List Char) : List UInt8 := chars.flatMap String.utf8EncodeChar

/-- The bytes are UTF-8. -/
def WellFormed (bytes : List UInt8) : Prop := ∃ chars, bytes = encode chars

@[simp] theorem encode_nil : encode [] = [] := rfl

@[simp] theorem encode_cons (c : Char) (chars : List Char) :
    encode (c :: chars) = String.utf8EncodeChar c ++ encode chars := rfl

@[simp] theorem encode_append (cs ds : List Char) : encode (cs ++ ds) = encode cs ++ encode ds :=
  List.flatMap_append

/-! ### Nothing gets shorter -/

/-- The states reading leads to. -/
def State.Begun : State → Prop
  | start => True
  | two a => 0xC2 ≤ a ∧ a ≤ 0xDF
  | three a => 0xE0 ≤ a ∧ a ≤ 0xEF
  | threeTail a b => (0xE0 ≤ a ∧ a ≤ 0xEF) ∧ isSecondOfThree a b = true
  | four a => 0xF0 ≤ a ∧ a ≤ 0xF4
  | fourTail a b => (0xF0 ≤ a ∧ a ≤ 0xF4) ∧ isSecondOfFour a b = true
  | fourLast a b c => ((0xF0 ≤ a ∧ a ≤ 0xF4) ∧ isSecondOfFour a b = true) ∧ isTail c = true

theorem toNat_val_ofNat {n : ℕ} (h : n.isValidChar) : (Char.ofNat n).val.toNat = n := by
  rw [Char.ofNat, dif_pos h]
  rfl

theorem ofNat_toNat_val (c : Char) : Char.ofNat c.val.toNat = c :=
  Char.ext (UInt32.toNat_inj.1 (toNat_val_ofNat c.valid))

theorem length_utf8EncodeChar (c : Char) : (String.utf8EncodeChar c).length =
    if c.val.toNat ≤ 0x7F then 1 else if c.val.toNat ≤ 0x7FF then 2
    else if c.val.toNat ≤ 0xFFFF then 3 else 4 := by
  unfold String.utf8EncodeChar
  dsimp only
  split
  · rfl
  · split
    · rfl
    · split <;> rfl

theorem length_encode_replacement : (String.utf8EncodeChar replacement).length = 3 := by
  decide

theorem length_first (b : ℕ) :
    1 ≤ (encode (first b).1).length + (first b).2.weight ∧ (first b).2.Begun := by
  unfold first
  split_ifs with h₁ h₂ h₃ h₄
  · have hone := length_utf8EncodeChar (Char.ofNat b)
    refine ⟨?_, trivial⟩
    simp only [encode_cons, encode_nil, List.append_nil, State.weight]
    split_ifs at hone <;> omega
  · exact ⟨by simp [State.weight], h₂⟩
  · exact ⟨by simp [State.weight], h₃⟩
  · exact ⟨by simp [State.weight], h₄⟩
  · refine ⟨?_, trivial⟩
    simp only [encode_cons, encode_nil, List.append_nil, State.weight, length_encode_replacement]
    omega

theorem length_restart (b : ℕ) {n : ℕ} (hn : n ≤ 3) :
    n + 1 ≤ (encode (restart b).1).length + (restart b).2.weight ∧ (restart b).2.Begun := by
  obtain ⟨hlength, hbegun⟩ := length_first b
  refine ⟨?_, hbegun⟩
  simp only [restart, encode_cons, List.length_append, length_encode_replacement]
  omega

/-- A finished character is written in as many bytes as it was read from. -/
theorem length_finished {n m : ℕ} (hvalid : n.isValidChar)
    (h : m = 2 ∧ 0x80 ≤ n ∨ m = 3 ∧ 0x800 ≤ n ∨ m = 4 ∧ 0x10000 ≤ n) :
    m ≤ (encode [Char.ofNat n]).length := by
  have hlength := length_utf8EncodeChar (Char.ofNat n)
  rw [toNat_val_ofNat hvalid] at hlength
  rw [encode_cons, encode_nil, List.append_nil, hlength]
  split_ifs <;> omega

/-- **One byte in, at least one byte out**, counting the bytes of the character begun. -/
theorem length_step {s : State} (hs : s.Begun) (b : ℕ) :
    s.weight + 1 ≤ (encode (step s b).1).length + (step s b).2.weight ∧ (step s b).2.Begun := by
  cases s with
  | start =>
    obtain ⟨hlength, hbegun⟩ := length_first b
    exact ⟨by rwa [State.weight, Nat.zero_add, step], hbegun⟩
  | two a =>
    rw [step]
    split_ifs with htail
    · simp only [isTail, Bool.and_eq_true, decide_eq_true_eq] at htail
      simp only [State.Begun] at hs
      have hvalid : ((a - 0xC0) * 64 + (b - 0x80)).isValidChar := .inl (by omega)
      have hlength := length_finished (m := 2) hvalid (.inl ⟨rfl, by omega⟩)
      refine ⟨?_, trivial⟩
      simp only [State.weight]
      omega
    · exact length_restart (n := 1) b (by decide)
  | three a =>
    rw [step]
    split_ifs with hsecond
    · exact ⟨by simp [State.weight], hs, hsecond⟩
    · exact length_restart (n := 1) b (by decide)
  | threeTail a b' =>
    rw [step]
    split_ifs with htail
    · obtain ⟨ha, hb'⟩ := hs
      simp only [isTail, Bool.and_eq_true, decide_eq_true_eq] at htail
      simp only [isSecondOfThree, Bool.and_eq_true, decide_eq_true_eq] at hb'
      have hvalid : (((a - 0xE0) * 64 + (b' - 0x80)) * 64 + (b - 0x80)).isValidChar := by
        rw [Nat.isValidChar]
        split_ifs at hb' <;> omega
      have hlength := length_finished (m := 3) hvalid
        (.inr (.inl ⟨rfl, by split_ifs at hb' <;> omega⟩))
      refine ⟨?_, trivial⟩
      simp only [State.weight]
      omega
    · exact length_restart (n := 2) b (by decide)
  | four a =>
    rw [step]
    split_ifs with hsecond
    · exact ⟨by simp [State.weight], hs, hsecond⟩
    · exact length_restart (n := 1) b (by decide)
  | fourTail a b' =>
    rw [step]
    split_ifs with htail
    · exact ⟨by simp [State.weight], hs, htail⟩
    · exact length_restart (n := 2) b (by decide)
  | fourLast a b' c =>
    rw [step]
    split_ifs with htail
    · obtain ⟨⟨ha, hb'⟩, hc⟩ := hs
      simp only [isTail, Bool.and_eq_true, decide_eq_true_eq] at htail hc
      simp only [isSecondOfFour, Bool.and_eq_true, decide_eq_true_eq] at hb'
      have hvalid : ((((a - 0xF0) * 64 + (b' - 0x80)) * 64 + (c - 0x80)) * 64 +
          (b - 0x80)).isValidChar := by
        rw [Nat.isValidChar]
        split_ifs at hb' <;> omega
      have hlength := length_finished (m := 4) hvalid
        (.inr (.inr ⟨rfl, by split_ifs at hb' <;> omega⟩))
      refine ⟨?_, trivial⟩
      simp only [State.weight]
      omega
    · exact length_restart (n := 3) b (by decide)

theorem decodeFrom_cons (s : State) (b : UInt8) (rest : List UInt8) :
    decodeFrom s (b :: rest) = (step s b.toNat).1 ++ decodeFrom (step s b.toNat).2 rest := by
  cases s <;> rfl

theorem length_decodeFrom {s : State} (hs : s.Begun) (bytes : List UInt8) :
    bytes.length + s.weight ≤ (encode (decodeFrom s bytes)).length := by
  induction bytes generalizing s with
  | nil =>
    cases s with
    | start => exact Nat.zero_le _
    | two | three | threeTail | four | fourTail | fourLast =>
      have hlength := length_encode_replacement
      simp only [decodeFrom, encode_cons, encode_nil, List.append_nil, List.length_nil,
        State.weight]
      omega
  | cons b rest ih =>
    obtain ⟨hlength, hbegun⟩ := length_step hs b.toNat
    have hrest := ih hbegun
    rw [decodeFrom_cons, encode_append, List.length_append, List.length_cons]
    omega

/-- **Reading and writing back never loses bytes.** -/
theorem length_le_length_encode_decode (bytes : List UInt8) :
    bytes.length ≤ (encode (decode bytes)).length :=
  length_decodeFrom (s := .start) trivial bytes

/-! ### UTF-8 is read as it was written -/

theorem toNat_ofNat_of_lt {n : ℕ} (h : n < 256) : (UInt8.ofNat n).toNat = n := by
  rw [UInt8.toNat_ofNat']
  exact Nat.mod_eq_of_lt h

/-- A character is read from its bytes. -/
theorem decodeFrom_utf8EncodeChar (c : Char) (rest : List UInt8) :
    decodeFrom .start (String.utf8EncodeChar c ++ rest) = c :: decodeFrom .start rest := by
  have hc := ofNat_toNat_val c
  have hvalid : c.val.toNat.isValidChar := c.valid
  generalize c.val.toNat = v at hc hvalid
  subst hc
  have hv := toNat_val_ofNat hvalid
  rw [Nat.isValidChar] at hvalid
  unfold String.utf8EncodeChar
  dsimp only
  rw [hv]
  split
  · rename_i h₁
    have hfirst : first v = ([Char.ofNat v], .start) := if_pos h₁
    rw [List.singleton_append, decodeFrom_cons, toNat_ofNat_of_lt (by omega), step, hfirst]
    rfl
  · rename_i h₁
    split
    · rename_i h₂
      have ha : v / 64 % 32 = v / 64 := by omega
      have hfirst : first (v / 64 + 0xC0) = ([], .two (v / 64 + 0xC0)) := by
        rw [first, if_neg (by omega), if_pos (by omega)]
      have hsecond : step (.two (v / 64 + 0xC0)) (v % 64 + 0x80) = ([Char.ofNat v], .start) := by
        have hvalue : (v / 64 + 0xC0 - 0xC0) * 64 + (v % 64 + 0x80 - 0x80) = v := by omega
        have htail : isTail (v % 64 + 0x80) = true := by simp [isTail]; omega
        rw [step, if_pos htail, hvalue]
      rw [ha, List.cons_append, List.singleton_append, decodeFrom_cons,
        toNat_ofNat_of_lt (by omega), step, hfirst, List.nil_append, decodeFrom_cons,
        toNat_ofNat_of_lt (by omega), hsecond]
      rfl
    · rename_i h₂
      split
      · rename_i h₃
        have ha : v / 4096 % 16 = v / 4096 := by omega
        have hfirst : first (v / 4096 + 0xE0) = ([], .three (v / 4096 + 0xE0)) := by
          rw [first, if_neg (by omega), if_neg (by omega), if_pos (by omega)]
        have hsecond : step (.three (v / 4096 + 0xE0)) (v / 64 % 64 + 0x80) =
            ([], .threeTail (v / 4096 + 0xE0) (v / 64 % 64 + 0x80)) := by
          have hb : isSecondOfThree (v / 4096 + 0xE0) (v / 64 % 64 + 0x80) = true := by
            simp only [isSecondOfThree, Bool.and_eq_true, decide_eq_true_eq]
            split_ifs <;> omega
          rw [step, if_pos hb]
        have hthird : step (.threeTail (v / 4096 + 0xE0) (v / 64 % 64 + 0x80)) (v % 64 + 0x80) =
            ([Char.ofNat v], .start) := by
          have hvalue : ((v / 4096 + 0xE0 - 0xE0) * 64 + (v / 64 % 64 + 0x80 - 0x80)) * 64 +
              (v % 64 + 0x80 - 0x80) = v := by omega
          have htail : isTail (v % 64 + 0x80) = true := by simp [isTail]; omega
          rw [step, if_pos htail, hvalue]
        rw [ha, List.cons_append, List.cons_append, List.singleton_append, decodeFrom_cons,
          toNat_ofNat_of_lt (by omega), step, hfirst, List.nil_append, decodeFrom_cons,
          toNat_ofNat_of_lt (by omega), hsecond, List.nil_append, decodeFrom_cons,
          toNat_ofNat_of_lt (by omega), hthird]
        rfl
      · rename_i h₃
        have ha : v / 262144 % 8 = v / 262144 := by omega
        have hfirst : first (v / 262144 + 0xF0) = ([], .four (v / 262144 + 0xF0)) := by
          rw [first, if_neg (by omega), if_neg (by omega), if_neg (by omega), if_pos (by omega)]
        have hsecond : step (.four (v / 262144 + 0xF0)) (v / 4096 % 64 + 0x80) =
            ([], .fourTail (v / 262144 + 0xF0) (v / 4096 % 64 + 0x80)) := by
          have hb : isSecondOfFour (v / 262144 + 0xF0) (v / 4096 % 64 + 0x80) = true := by
            simp only [isSecondOfFour, Bool.and_eq_true, decide_eq_true_eq]
            split_ifs <;> omega
          rw [step, if_pos hb]
        have hthird : step (.fourTail (v / 262144 + 0xF0) (v / 4096 % 64 + 0x80))
            (v / 64 % 64 + 0x80) = ([], .fourLast (v / 262144 + 0xF0) (v / 4096 % 64 + 0x80)
              (v / 64 % 64 + 0x80)) := by
          have htail : isTail (v / 64 % 64 + 0x80) = true := by simp [isTail]; omega
          rw [step, if_pos htail]
        have hfourth : step (.fourLast (v / 262144 + 0xF0) (v / 4096 % 64 + 0x80)
            (v / 64 % 64 + 0x80)) (v % 64 + 0x80) = ([Char.ofNat v], .start) := by
          have hvalue : (((v / 262144 + 0xF0 - 0xF0) * 64 + (v / 4096 % 64 + 0x80 - 0x80)) * 64 +
              (v / 64 % 64 + 0x80 - 0x80)) * 64 + (v % 64 + 0x80 - 0x80) = v := by omega
          have htail : isTail (v % 64 + 0x80) = true := by simp [isTail]; omega
          rw [step, if_pos htail, hvalue]
        rw [ha, List.cons_append, List.cons_append, List.cons_append, List.singleton_append,
          decodeFrom_cons, toNat_ofNat_of_lt (by omega), step, hfirst, List.nil_append,
          decodeFrom_cons, toNat_ofNat_of_lt (by omega), hsecond, List.nil_append,
          decodeFrom_cons, toNat_ofNat_of_lt (by omega), hthird, List.nil_append,
          decodeFrom_cons, toNat_ofNat_of_lt (by omega), hfourth]
        rfl

/-- **What was written is read back.** -/
theorem decode_encode (chars : List Char) : decode (encode chars) = chars := by
  induction chars with
  | nil => rfl
  | cons c chars ih =>
    rw [decode, encode_cons, decodeFrom_utf8EncodeChar]
    exact congrArg _ ih

theorem encode_injective : Function.Injective encode :=
  Function.LeftInverse.injective decode_encode

/-- **Bytes survive exactly if they are UTF-8.** -/
theorem encode_decode_iff {bytes : List UInt8} :
    encode (decode bytes) = bytes ↔ WellFormed bytes := by
  constructor
  · intro h
    exact ⟨decode bytes, h.symm⟩
  · rintro ⟨chars, rfl⟩
    rw [decode_encode]

/-- Pieces read one by one survive exactly if each is UTF-8. -/
theorem encode_flatMap_decode_iff {chunks : List (List UInt8)} :
    encode (chunks.flatMap decode) = chunks.flatten ↔ ∀ chunk ∈ chunks, WellFormed chunk := by
  have hlength (chunks : List (List UInt8)) :
      chunks.flatten.length ≤ (encode (chunks.flatMap decode)).length := by
    induction chunks with
    | nil => exact Nat.zero_le _
    | cons chunk chunks ih =>
      have hchunk := length_le_length_encode_decode chunk
      rw [List.flatMap_cons, encode_append, List.flatten_cons, List.length_append,
        List.length_append]
      omega
  induction chunks with
  | nil => simp
  | cons chunk chunks ih =>
    rw [List.flatMap_cons, encode_append, List.flatten_cons, List.forall_mem_cons]
    constructor
    · intro h
      have hchunk := length_le_length_encode_decode chunk
      have hrest := hlength chunks
      have htotal := congrArg List.length h
      rw [List.length_append, List.length_append] at htotal
      obtain ⟨hfirst, hlater⟩ := List.append_inj h (by omega)
      exact ⟨encode_decode_iff.1 hfirst, ih.1 hlater⟩
    · rintro ⟨hchunk, hrest⟩
      rw [encode_decode_iff.2 hchunk, ih.2 hrest]

end Utf8
