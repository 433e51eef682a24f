import MiniOS.Lib.Memory
import MiniOS.Lib.Outcome

/-!
# Machine state of the memory manager

Machine integers are natural numbers; `uint32` is the conversion to `uint32_t`
and stands wherever the source's 32-bit arithmetic can wrap.  A kernel routine
is a state transformer that either returns or stops: the kernel has no
recovery, so `panic`, `page_fault` and a loop that never ends all keep the
processor for good.  The state at that point is kept.
-/

namespace MiniOS

open ByteMemory

def uint32 (value : Nat) : Nat := value % 4294967296

/-- `ROUNDDOWN` of `types.h`. -/
def roundDown (a n : Nat) : Nat := a - a % n

/-- `ROUNDUP` of `types.h`: the sum is taken in `size_t`. -/
def roundUp (a n : Nat) : Nat := roundDown (uint32 (a + n - 1)) n

def literal (text : String) : List UInt8 :=
  text.toList.map fun char => UInt8.ofNat char.toNat

abbrev pageSize : Nat := 4096
abbrev pageOffset : Nat := 0xC0000000
abbrev heapStart : Nat := 0xE0000000

/-- `PMM_MAX_SIZE`: 512 MB of usable memory. -/
abbrev pmmMaxSize : Nat := 0x20000000
abbrev pmmPageSize : Nat := 0x1000
abbrev pageMaxSize : Nat := pmmMaxSize / pmmPageSize

/-- Why control does not come back to the caller. -/
inductive Stop where
  /-- `panic` printed its message and spins. -/
  | panic (msg : String)
  /-- The handler of interrupt 14 spins. -/
  | pageFault (va : Nat)
  /-- A loop of the routine itself never ends. -/
  | spin
  /-- A local variable is used that nothing has written. -/
  | uninitialised
  deriving DecidableEq, Repr

/-- Physical memory and the static variables of `pmm.c` and `heap.c`.
The page stack is listed from its top. -/
structure Kernel where
  mem : Mem
  pmmStack : List Nat
  phyPageCount : Nat
  heapFirst : Nat
  heapMax : Nat

abbrev KernelM := EStateM Stop Kernel

/-- The `assert` macro of `debug.h`. -/
def assert (x : Bool) (info : String) : KernelM Unit :=
  if x then pure () else throw (.panic info)

namespace KernelM

variable {α β : Type} {k : Kernel}

@[simp] theorem pure_apply (a : α) : (pure a : KernelM α) k = .ok a k := rfl

@[simp] theorem throw_apply (stop : Stop) :
    (throw stop : KernelM α) k = .error stop k := rfl

@[simp] theorem get_bind (f : Kernel → KernelM β) :
    (get >>= f) k = f k k := rfl

@[simp] theorem set_apply (k' : Kernel) :
    (set k' : KernelM PUnit) k = .ok () k' := rfl

@[simp] theorem set_bind (k' : Kernel) (f : PUnit → KernelM β) :
    (set k' >>= f) k = f () k' := rfl

@[simp] theorem modify_bind (f : Kernel → Kernel) (g : PUnit → KernelM β) :
    (modify f >>= g) k = g () (f k) := rfl

@[simp] theorem map_set (f : PUnit → β) (k' : Kernel) :
    (f <$> set k' : KernelM β) k = .ok (f ()) k' := rfl

@[simp] theorem throw_bind (stop : Stop) (f : α → KernelM β) :
    ((throw stop : KernelM α) >>= f) k = .error stop k := rfl

end KernelM

theorem uint32_of_lt {value : Nat} (small : value < 4294967296) :
    uint32 value = value :=
  Nat.mod_eq_of_lt small

theorem uint32_lt (value : Nat) : uint32 value < 4294967296 :=
  Nat.mod_lt _ (by decide)

theorem roundDown_add_mod (a n : Nat) : roundDown a n + a % n = a :=
  Nat.sub_add_cancel (Nat.mod_le a n)

theorem roundDown_mod (a n : Nat) : roundDown a n % n = 0 := by
  unfold roundDown
  exact Nat.sub_mod_eq_zero_of_mod_eq (by simp)

theorem roundDown_le (a n : Nat) : roundDown a n ≤ a :=
  Nat.sub_le a _

theorem roundDown_of_aligned {a n : Nat} (aligned : a % n = 0) :
    roundDown a n = a := by
  simp [roundDown, aligned]

/-- Flags below the page size occupy the bits that `ROUNDDOWN` leaves free. -/
theorem or_flags {frame flags : Nat} (aligned : frame % pageSize = 0)
    (small : flags < pageSize) : frame ||| flags = frame + flags := by
  have split : frame = 2 ^ 12 * (frame / pageSize) := by
    simp only [pageSize] at aligned ⊢
    omega
  rw [split, ← Nat.two_pow_add_eq_or_of_lt (by simpa using small)]

theorem roundDown_add_flags {frame flags : Nat}
    (aligned : frame % pageSize = 0) (small : flags < pageSize) :
    roundDown (frame + flags) pageSize = frame := by
  simp only [roundDown, pageSize] at aligned small ⊢
  omega

end MiniOS
