import MiniOS.Mm.HeapLoops

/-!
# Chunk headers

A header has three words.  Stores to the fields of headers that have no byte
in common behave like updates of a function of field and header, `Headers`;
every accessor of the heap code reads or updates this function.
-/

namespace MiniOS

open ByteMemory

inductive HeaderField where
  | prev
  | next
  | bits
  deriving DecidableEq

def HeaderField.offset : HeaderField → Nat
  | .prev => 0
  | .next => 4
  | .bits => 8

/-- What the fields of the headers hold. -/
abbrev Headers := HeaderField → Nat → Nat

def Headers.set (headers : Headers) (field : HeaderField)
    (header value : Nat) : Headers :=
  fun other node =>
    if other = field ∧ node = header then value else headers other node

def fieldOf (view : Mem) : Headers := fun field header =>
  load32 view (header + field.offset)

def withField (view : Mem) (field : HeaderField) (header value : Nat) : Mem :=
  store32 view (header + field.offset) value

def HeadersApart (left right : Nat) : Prop :=
  left + headerSize ≤ right ∨ right + headerSize ≤ left

theorem fieldOf_withField {view : Mem} {field other : HeaderField}
    {header node value : Nat}
    (apart : node = header ∨ HeadersApart header node)
    (small : value < 4294967296) :
    fieldOf (withField view field header value) other node =
      (fieldOf view).set field header value other node := by
  unfold Headers.set fieldOf withField
  by_cases same : other = field ∧ node = header
  · rw [if_pos same, same.1, same.2, load32_store32_same,
      Nat.mod_eq_of_lt small]
  · rw [if_neg same]
    apply load32_store32_disjoint
    simp only [HeadersApart, headerSize] at apart
    cases field <;> cases other <;> simp [HeaderField.offset] at same ⊢ <;>
      omega

/-- The two memories differ in the headers only. -/
def AgreeOutside (headers : List Nat) (view view' : Mem) : Prop :=
  ∀ va, (∀ header ∈ headers, va < header ∨ header + headerSize ≤ va) →
    view' va = view va

theorem AgreeOutside.refl (headers : List Nat) (view : Mem) :
    AgreeOutside headers view view :=
  fun _ _ => rfl

theorem AgreeOutside.trans {headers : List Nat} {view view' view'' : Mem}
    (one : AgreeOutside headers view view')
    (two : AgreeOutside headers view' view'') :
    AgreeOutside headers view view'' :=
  fun va outside => (two va outside).trans (one va outside)

theorem agreeOutside_withField {headers : List Nat} {header : Nat}
    (view : Mem) (field : HeaderField) (value : Nat)
    (member : header ∈ headers) :
    AgreeOutside headers view (withField view field header value) := by
  intro va outside
  have away := outside header member
  apply store32_outside
  simp only [headerSize] at away
  cases field <;> simp only [HeaderField.offset] <;> omega

/-- The header of a chunk lies on mapped pages of the heap. -/
def HeaderInside (k : Kernel) (header : Nat) : Prop :=
  heapStart ≤ header ∧ header + headerSize ≤ k.heapMax

/-- Headers on mapped pages, no two of them with a byte in common. -/
structure HeaderNodes (k : Kernel) (nodes : List Nat) : Prop where
  inside : ∀ header ∈ nodes, HeaderInside k header
  apart : ∀ left ∈ nodes, ∀ right ∈ nodes, right = left ∨
    HeadersApart left right

/-- `k` is `k₀` after stores to the headers `nodes`, which now hold
`headers`. -/
structure HoldsHeaders (img : KernelImage) (frames : List Nat) (k₀ : Kernel)
    (nodes : List Nat) (k : Kernel) (headers : Headers) : Prop where
  wrote : Wrote img frames k₀ k (heapView img k)
  reads : ∀ field, ∀ header ∈ nodes,
    fieldOf (heapView img k) field header = headers field header
  agree : AgreeOutside nodes (heapView img k₀) (heapView img k)

section Accessors

variable {img : KernelImage} {frames : List Nat} {k₀ k : Kernel} {view : Mem}
variable {header : Nat}

theorem HeapPaging.holdsHeaders (paging : HeapPaging img frames k)
    (nodes : List Nat) :
    HoldsHeaders img frames k nodes k (fieldOf (heapView img k)) :=
  ⟨⟨paging, .refl img k, rfl, rfl⟩, fun _ _ _ => rfl, .refl _ _⟩

namespace Wrote

theorem read_field (wrote : Wrote img frames k₀ k view)
    (inside : HeaderInside k₀ header) (field : HeaderField) :
    read32 img.pgdKern (header + field.offset) k =
      .ok (fieldOf view field header) k := by
  obtain ⟨lower, upper⟩ := inside
  have max := wrote.same.heapMax
  simp only [headerSize] at upper
  rw [wrote.paging.read32_ok _ (by omega), wrote.view_eq]
  · rfl
  · cases field <;> simp only [HeaderField.offset] <;> omega

theorem write_field (wrote : Wrote img frames k₀ k view)
    (inside : HeaderInside k₀ header) (field : HeaderField) (value : Nat) :
    ∃ k', write32 img.pgdKern (header + field.offset) value k = .ok () k' ∧
      Wrote img frames k₀ k' (withField view field header value) := by
  obtain ⟨lower, upper⟩ := inside
  have max := wrote.same.heapMax
  simp only [headerSize] at upper
  obtain ⟨k', returned, wrote'⟩ := wrote.paging.write32_ok
    (header + field.offset) value (by omega) (by
      cases field <;> simp only [HeaderField.offset] <;> omega)
  rw [wrote.view_eq] at wrote'
  exact ⟨k', returned, wrote.trans wrote'⟩

end Wrote

namespace HoldsHeaders

variable {nodes : List Nat} {headers : Headers}

theorem read_field (holds : HoldsHeaders img frames k₀ nodes k headers)
    (place : HeaderNodes k₀ nodes) (member : header ∈ nodes)
    (field : HeaderField) :
    read32 img.pgdKern (header + field.offset) k =
      .ok (headers field header) k := by
  rw [holds.wrote.read_field (place.inside header member),
    holds.reads field header member]

theorem write_field (holds : HoldsHeaders img frames k₀ nodes k headers)
    (place : HeaderNodes k₀ nodes) (member : header ∈ nodes)
    (field : HeaderField) {value : Nat} (small : value < 4294967296) :
    ∃ k', write32 img.pgdKern (header + field.offset) value k = .ok () k' ∧
      HoldsHeaders img frames k₀ nodes k'
        (headers.set field header value) := by
  obtain ⟨k', returned, wrote⟩ :=
    holds.wrote.write_field (place.inside header member) field value
  have viewEq := wrote.view_eq
  refine ⟨k', returned, ⟨viewEq ▸ wrote, ?_, ?_⟩⟩
  · intro other node nodeMember
    rw [viewEq, fieldOf_withField (place.apart header member node nodeMember)
      small]
    unfold Headers.set
    rw [holds.reads other node nodeMember]
  · rw [viewEq]
    exact holds.agree.trans (agreeOutside_withField _ field value member)

theorem getPrev (holds : HoldsHeaders img frames k₀ nodes k headers)
    (place : HeaderNodes k₀ nodes) (member : header ∈ nodes) :
    getPrev img.pgdKern header k = .ok (headers .prev header) k :=
  holds.read_field place member .prev

theorem getNext (holds : HoldsHeaders img frames k₀ nodes k headers)
    (place : HeaderNodes k₀ nodes) (member : header ∈ nodes) :
    getNext img.pgdKern header k = .ok (headers .next header) k :=
  holds.read_field place member .next

theorem read_bits (holds : HoldsHeaders img frames k₀ nodes k headers)
    (place : HeaderNodes k₀ nodes) (member : header ∈ nodes) :
    read32 img.pgdKern (header + 8) k = .ok (headers .bits header) k :=
  holds.read_field place member .bits

theorem getAllocated (holds : HoldsHeaders img frames k₀ nodes k headers)
    (place : HeaderNodes k₀ nodes) (member : header ∈ nodes) :
    getAllocated img.pgdKern header k =
      .ok (headers .bits header % 2) k := by
  unfold MiniOS.getAllocated
  rw [Outcome.bind_of_ok (holds.read_bits place member)]
  rfl

theorem getLength (holds : HoldsHeaders img frames k₀ nodes k headers)
    (place : HeaderNodes k₀ nodes) (member : header ∈ nodes) :
    getLength img.pgdKern header k = .ok (headers .bits header / 2) k := by
  unfold MiniOS.getLength
  rw [Outcome.bind_of_ok (holds.read_bits place member)]
  rfl

theorem setPrev (holds : HoldsHeaders img frames k₀ nodes k headers)
    (place : HeaderNodes k₀ nodes) (member : header ∈ nodes) {value : Nat}
    (small : value < 4294967296) :
    ∃ k', setPrev img.pgdKern header value k = .ok () k' ∧
      HoldsHeaders img frames k₀ nodes k' (headers.set .prev header value) :=
  holds.write_field place member .prev small

theorem setNext (holds : HoldsHeaders img frames k₀ nodes k headers)
    (place : HeaderNodes k₀ nodes) (member : header ∈ nodes) {value : Nat}
    (small : value < 4294967296) :
    ∃ k', setNext img.pgdKern header value k = .ok () k' ∧
      HoldsHeaders img frames k₀ nodes k' (headers.set .next header value) :=
  holds.write_field place member .next small

theorem field_lt (holds : HoldsHeaders img frames k₀ nodes k headers)
    (member : header ∈ nodes) (field : HeaderField) :
    headers field header < 4294967296 := by
  rw [← holds.reads field header member]
  exact load32_lt _ _

theorem setAllocated (holds : HoldsHeaders img frames k₀ nodes k headers)
    (place : HeaderNodes k₀ nodes) (member : header ∈ nodes) (value : Nat) :
    ∃ k', setAllocated img.pgdKern header value k = .ok () k' ∧
      HoldsHeaders img frames k₀ nodes k' (headers.set .bits header
        (headers .bits header / 2 * 2 + value % 2)) := by
  have bound := holds.field_lt member .bits
  unfold MiniOS.setAllocated
  rw [Outcome.bind_of_ok (holds.read_bits place member)]
  exact holds.write_field place member .bits (by omega)

theorem setLength (holds : HoldsHeaders img frames k₀ nodes k headers)
    (place : HeaderNodes k₀ nodes) (member : header ∈ nodes) (value : Nat) :
    ∃ k', setLength img.pgdKern header value k = .ok () k' ∧
      HoldsHeaders img frames k₀ nodes k' (headers.set .bits header
        (value % 2147483648 * 2 + headers .bits header % 2)) := by
  unfold MiniOS.setLength
  rw [Outcome.bind_of_ok (holds.read_bits place member)]
  exact holds.write_field place member .bits (by omega)

end HoldsHeaders

end Accessors

end MiniOS
