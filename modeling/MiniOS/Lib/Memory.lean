import Mathlib.Tactic.Ring

/-!
# Byte-addressed memory

A memory is a total function from addresses to bytes.  Words of four bytes are
stored little-endian at any address, aligned or not.  Two facts about a store
carry everything later: what it puts at its own address, and that every range
disjoint from it is unchanged.
-/

namespace ByteMemory

/-- A memory: one byte for every address. -/
abbrev Mem := Nat → UInt8

/-- The 32-bit word made of four bytes, least significant first. -/
def word (b₀ b₁ b₂ b₃ : UInt8) : Nat :=
  b₀.toNat + 256 * b₁.toNat + 65536 * b₂.toNat + 16777216 * b₃.toNat

/-- Byte `index` of a word, least significant first. -/
def byteOf (value index : Nat) : UInt8 :=
  UInt8.ofNat (value / 256 ^ index)

def store8 (mem : Mem) (address : Nat) (byte : UInt8) : Mem :=
  fun x => if x = address then byte else mem x

def load32 (mem : Mem) (address : Nat) : Nat :=
  word (mem address) (mem (address + 1)) (mem (address + 2)) (mem (address + 3))

def store32 (mem : Mem) (address value : Nat) : Mem :=
  store8 (store8 (store8 (store8 mem address (byteOf value 0))
    (address + 1) (byteOf value 1)) (address + 2) (byteOf value 2))
    (address + 3) (byteOf value 3)

/-- `count` bytes from `address` on become `byte`. -/
def fill (mem : Mem) (address : Nat) (byte : UInt8) : Nat → Mem
  | 0 => mem
  | count + 1 => fill (store8 mem address byte) (address + 1) byte count

/-- The words `values i` for `first ≤ i < first + count`, stored in ascending
order in the array of words at `base`. -/
def storeRange (mem : Mem) (base : Nat) (values : Nat → Nat)
    (first count : Nat) : Mem :=
  (List.range' first count).foldl
    (fun mem i => store32 mem (base + 4 * i) (values i)) mem

@[simp] theorem store8_same (mem : Mem) (address : Nat) (byte : UInt8) :
    store8 mem address byte address = byte := by
  simp [store8]

theorem store8_other {address x : Nat} (mem : Mem) (byte : UInt8)
    (different : x ≠ address) : store8 mem address byte x = mem x := by
  simp [store8, different]

theorem word_lt (b₀ b₁ b₂ b₃ : UInt8) : word b₀ b₁ b₂ b₃ < 4294967296 := by
  have h₀ := b₀.toNat_lt
  have h₁ := b₁.toNat_lt
  have h₂ := b₂.toNat_lt
  have h₃ := b₃.toNat_lt
  unfold word
  omega

/-- The four bytes of a value put together again are its low 32 bits. -/
theorem word_byteOf (value : Nat) :
    word (byteOf value 0) (byteOf value 1) (byteOf value 2) (byteOf value 3) =
      value % 4294967296 := by
  simp only [word, byteOf, UInt8.toNat_ofNat', Nat.reducePow]
  omega

theorem load32_lt (mem : Mem) (address : Nat) :
    load32 mem address < 4294967296 :=
  word_lt ..

theorem load32_congr {left right : Mem} {address : Nat}
    (same : ∀ x, address ≤ x → x < address + 4 → left x = right x) :
    load32 left address = load32 right address := by
  unfold load32
  rw [same address (by omega) (by omega),
    same (address + 1) (by omega) (by omega),
    same (address + 2) (by omega) (by omega),
    same (address + 3) (by omega) (by omega)]

theorem store32_outside {address x : Nat} (mem : Mem) (value : Nat)
    (outside : x < address ∨ address + 4 ≤ x) :
    store32 mem address value x = mem x := by
  unfold store32
  rw [store8_other _ _ (by omega), store8_other _ _ (by omega),
    store8_other _ _ (by omega), store8_other _ _ (by omega)]

@[simp] theorem load32_store32_same (mem : Mem) (address value : Nat) :
    load32 (store32 mem address value) address = value % 4294967296 := by
  simp [load32, store32, store8, word_byteOf]

theorem load32_store32_disjoint {address other : Nat} (mem : Mem)
    (value : Nat) (disjoint : other + 4 ≤ address ∨ address + 4 ≤ other) :
    load32 (store32 mem address value) other = load32 mem other :=
  load32_congr fun _ _ _ => store32_outside mem value (by omega)

theorem fill_apply (mem : Mem) (address : Nat) (byte : UInt8) (count x : Nat) :
    fill mem address byte count x =
      if address ≤ x ∧ x < address + count then byte else mem x := by
  induction count generalizing mem address with
  | zero =>
      have outside : ¬(address ≤ x ∧ x < address + 0) := by omega
      simp only [fill, outside, if_false]
  | succ count induction =>
      rw [fill, induction]
      by_cases first : x = address
      · subst x
        simp
      · rw [store8_other _ _ first]
        congr 1
        simp only [eq_iff_iff]
        omega

theorem fill_inside {address count x : Nat} (mem : Mem) (byte : UInt8)
    (lower : address ≤ x) (upper : x < address + count) :
    fill mem address byte count x = byte := by
  rw [fill_apply, if_pos ⟨lower, upper⟩]

theorem fill_outside {address count x : Nat} (mem : Mem) (byte : UInt8)
    (outside : x < address ∨ address + count ≤ x) :
    fill mem address byte count x = mem x := by
  rw [fill_apply, if_neg (by omega)]

theorem load32_fill_zero {address count other : Nat} (mem : Mem)
    (lower : address ≤ other) (upper : other + 4 ≤ address + count) :
    load32 (fill mem address 0 count) other = 0 := by
  unfold load32
  rw [fill_inside _ _ (by omega) (by omega),
    fill_inside _ _ (by omega) (by omega),
    fill_inside _ _ (by omega) (by omega),
    fill_inside _ _ (by omega) (by omega)]
  rfl

theorem load32_fill_disjoint {address count other : Nat} (mem : Mem)
    (byte : UInt8)
    (disjoint : other + 4 ≤ address ∨ address + count ≤ other) :
    load32 (fill mem address byte count) other = load32 mem other :=
  load32_congr fun _ _ _ => fill_outside mem byte (by omega)

theorem storeRange_succ (mem : Mem) (base : Nat) (values : Nat → Nat)
    (first count : Nat) :
    storeRange mem base values first (count + 1) =
      store32 (storeRange mem base values first count)
        (base + 4 * (first + count)) (values (first + count)) := by
  simp [storeRange, List.range'_concat]

theorem storeRange_outside {base first count x : Nat} (mem : Mem)
    (values : Nat → Nat)
    (outside : x < base + 4 * first ∨ base + 4 * (first + count) ≤ x) :
    storeRange mem base values first count x = mem x := by
  induction count with
  | zero => rfl
  | succ count induction =>
      rw [storeRange_succ, store32_outside _ _ (by omega),
        induction (by omega)]

theorem load32_storeRange_inside {base first count i : Nat} (mem : Mem)
    (values : Nat → Nat) (lower : first ≤ i) (upper : i < first + count) :
    load32 (storeRange mem base values first count) (base + 4 * i) =
      values i % 4294967296 := by
  induction count with
  | zero => omega
  | succ count induction =>
      rw [storeRange_succ]
      by_cases last : i = first + count
      · subst i
        exact load32_store32_same ..
      · rw [load32_store32_disjoint _ _ (by omega), induction (by omega)]

theorem load32_storeRange_disjoint {base first count other : Nat}
    (mem : Mem) (values : Nat → Nat)
    (disjoint : other + 4 ≤ base + 4 * first ∨
      base + 4 * (first + count) ≤ other) :
    load32 (storeRange mem base values first count) other =
      load32 mem other :=
  load32_congr fun _ _ _ => storeRange_outside mem values (by omega)

-- From here on the two loops are known by what they store.
attribute [irreducible] fill storeRange

end ByteMemory
