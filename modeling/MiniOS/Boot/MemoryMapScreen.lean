import MiniOS.Boot.KernInit
import MiniOS.Driver.Printing
import MiniOS.Mm.MemoryMapWalk

/-!
# The memory map on the screen (`pmm.c`)

`show_memory_map` reads the records through the page tables that are loaded and
prints a line for each.
-/

namespace MiniOS

open ByteMemory

/-! ## `%08X` -/

def paddedHex (value : BitVec 32) : List Char :=
  List.replicate (8 - (upperHexText value).length) '0' ++ upperHexText value

theorem eight_lt : 8 < 10 := by decide

def eight : List (Fin 10) := [.mk 8 eight_lt]

theorem eight_small : decimalFrom 0 eight ≤ 2147483599 := by decide

theorem eight_leading (count : Count)
    (width : some (Amount.count ⟨eight, eight_small⟩) = some (.count count)) :
    ∃ digit rest, count.digits = digit :: rest ∧ digit ≠ 0 := by
  obtain rfl := Amount.count.inj (Option.some.inj width)
  exact ⟨8, [], rfl, by decide⟩

def paddedDirective : Directive where
  flags := [.zero]
  width := some (.count ⟨eight, eight_small⟩)
  precision := none
  qualifier := none
  conversion := .number .upperX
  leading := eight_leading

theorem renderNumber_padded (value : BitVec 32) :
    renderNumber value 16 8 0 { zeropad := true } = paddedHex value := by
  simp [renderNumber, signText, isNegative, markText, digitsText, paddedHex,
    upperHexText]

theorem Prints.padded {format : Format} {args : List Arg} {text : List Char}
    (value : BitVec 32) (later : Prints format args text) :
    Prints ('%' :: '0' :: '8' :: 'X' :: format) (.word value :: args)
      (paddedHex value ++ text) := by
  apply Prints.directive (d := paddedDirective) _ _ _ later
  · simp [paddedDirective]
  · simp [paddedDirective]
  · intro rest p same
    rw [← renderNumber_padded]
    simp [Directive.render, paddedDirective, Printer.take, Conversion.render,
      Printer.vaWord, same, Flag.set, Count.value, eight, decimalFrom,
      NumberConversion.adjust, NumberConversion.base]

theorem paddedHex_length (value : BitVec 32) :
    (paddedHex value).length ≤ 32 := by
  have digits : (upperHexText value).length ≤ 32 :=
    numeral_length (by decide) false value
  rw [paddedHex, List.length_append, List.length_replicate]
  omega

theorem paddedHex_noNul (value : BitVec 32) : NoNul (paddedHex value) := by
  have zeros (count : Nat) : NoNul (List.replicate count '0') := by
    intro c member
    obtain rfl := List.eq_of_mem_replicate member
    decide
  exact (zeros _).append (numeral_noNul (by decide) (by decide) false value)

theorem Renders.padded {format : Format} {args : List Arg} {text : List Char}
    {most : Nat} (value : BitVec 32) (later : Renders format args text most) :
    Renders ('%' :: '0' :: '8' :: 'X' :: format) (.word value :: args)
      (paddedHex value ++ text) (32 + most) where
  prints := later.prints.padded value
  length := by
    rw [List.length_append]
    exact Nat.add_le_add (paddedHex_length value) later.length
  noNul := (paddedHex_noNul value).append later.noNul

/-! ## The lines -/

def PrintkCall.onScreen (call : PrintkCall) : PrintCall where
  back := .black
  fore := .white
  format := call.format
  args := call.args.map fun value => .word (BitVec.ofNat 32 value)

def mmapEntryLine (entry : MmapEntry) : List Char :=
  "base_addr = 0x".toList ++ (paddedHex (BitVec.ofNat 32 entry.baseAddrLow) ++
    (", length = 0x".toList ++ (paddedHex (BitVec.ofNat 32 entry.lengthLow) ++
      (", type = 0x".toList ++ (upperHexText (BitVec.ofNat 32 entry.type) ++
        "\n".toList)))))

def memoryMapText (entries : List MmapEntry) : List Char :=
  "\nMemory map:\n".toList ++ entries.flatMap mmapEntryLine

theorem showMmapEntry_reports (entry : MmapEntry) :
    Reports [(showMmapEntry entry).onScreen]
      (colored .black .white (mmapEntryLine entry)) := by
  have format : "base_addr = 0x%08X, length = 0x%08X, type = 0x%X\n".toList =
      "base_addr = 0x".toList ++ '%' :: '0' :: '8' :: 'X' ::
        (", length = 0x".toList ++ '%' :: '0' :: '8' :: 'X' ::
          (", type = 0x".toList ++ '%' :: 'X' :: "\n".toList)) := by
    decide
  have last := Renders.constant (show Literal "\n".toList by decide)
  have type := (last.upperHex (BitVec.ofNat 32 entry.type)).literal
    (show Literal ", type = 0x".toList by decide)
  have length := (type.padded (BitVec.ofNat 32 entry.lengthLow)).literal
    (show Literal ", length = 0x".toList by decide)
  have base := (length.padded (BitVec.ofNat 32 entry.baseAddrLow)).literal
    (show Literal "base_addr = 0x".toList by decide)
  rw [← format] at base
  exact base.reports (by decide) .black .white

theorem mmapLines_reports (entries : List MmapEntry) :
    Reports ((entries.map showMmapEntry).map PrintkCall.onScreen)
      (colored .black .white (entries.flatMap mmapEntryLine)) := by
  induction entries with
  | nil => exact .nil
  | cons entry entries induction =>
      rw [List.flatMap_cons, colored_append]
      exact (showMmapEntry_reports entry).append induction

theorem mmapHeading_reports :
    Reports [PrintkCall.onScreen ⟨"\nMemory map:\n".toList, []⟩]
      (colored .black .white "\nMemory map:\n".toList) := by
  have plain : Literal "\nMemory map:\n".toList := by decide
  rw [PrintkCall.onScreen]
  exact (Renders.constant plain).reports (by decide) .black .white

theorem memoryMap_reports (entries : List MmapEntry) :
    Reports ((⟨"\nMemory map:\n".toList, []⟩ ::
        entries.map showMmapEntry).map PrintkCall.onScreen)
      (colored .black .white (memoryMapText entries)) := by
  have reports := mmapHeading_reports.append (mmapLines_reports entries)
  rw [← colored_append] at reports
  exact reports

/-! ## Reading through the page tables -/

/-- Memory by the virtual addresses that the directory at `cr3` maps. -/
def mappedView (mem : Mem) (cr3 : Nat) : Mem := fun va =>
  match mmuWalk mem cr3 va with
  | some pa => mem pa
  | none => 0

theorem readMmapEntry_moved {left right : Mem} {mmap mmap' : Nat}
    (same : ∀ offset < mmapEntrySize,
      left (mmap + offset) = right (mmap' + offset)) :
    readMmapEntry left mmap = readMmapEntry right mmap' := by
  have field (offset : Nat) (inside : offset + 4 ≤ mmapEntrySize) :
      load32 left (mmap + offset) = load32 right (mmap' + offset) := by
    unfold load32
    rw [same offset (by omega), Nat.add_assoc, same (offset + 1) (by omega),
      Nat.add_assoc, same (offset + 2) (by omega), Nat.add_assoc,
      same (offset + 3) (by omega)]
    rfl
  have size := field 0 (by decide)
  rw [Nat.add_zero, Nat.add_zero] at size
  simp only [readMmapEntry, size, field 4 (by decide), field 8 (by decide),
    field 12 (by decide), field 16 (by decide), field 20 (by decide)]

section Screen

variable {mem : Mem} {cr3 : Nat} {glbMbootPtr : Multiboot}
  {records : List Nat} {screen : Console} {t : Terminal}

/-- Where the direct map has the buffer, `show_memory_map` prints a line for
each record of the map, in order, and nothing else. -/
theorem memoryMap_shown (map : FormattedMap mem glbMbootPtr records)
    (sizes : ∀ record ∈ records, load32 mem record = 20)
    (space : glbMbootPtr.mmapAddr + glbMbootPtr.mmapLength + pageOffset <
      4294967296)
    (direct : ∀ pa, glbMbootPtr.mmapAddr ≤ pa →
      pa < glbMbootPtr.mmapAddr + glbMbootPtr.mmapLength →
        mmuWalk mem cr3 (pa + pageOffset) = some pa)
    (shows : Shows screen t) :
    ∃ calls screen',
      showMemoryMap (mappedView mem cr3) glbMbootPtr = some calls ∧
      runCalls (calls.map PrintkCall.onScreen) screen = some screen' ∧
      Shows screen' (t.type (colored .black .white
        (memoryMapText (records.map (readMmapEntry mem))))) := by
  have visits := map.showMemoryMap_follows sizes space
  -- through its pointer the loop reads what lies at the record
  have read : (records.map (· + pageOffset)).map
      (fun mmap => showMmapEntry (readMmapEntry (mappedView mem cr3) mmap)) =
        (records.map (readMmapEntry mem)).map showMmapEntry := by
    rw [List.map_map, List.map_map]
    apply List.map_congr_left
    intro record member
    have inside := map.run.inside.2 record member
    have same : readMmapEntry (mappedView mem cr3) (record + pageOffset) =
        readMmapEntry mem record := by
      apply readMmapEntry_moved
      intro offset small
      have walk := direct (record + offset) (by omega) (by omega)
      rw [Nat.add_right_comm, mappedView, walk]
    exact congrArg showMmapEntry same
  obtain ⟨screen', printed, shows'⟩ :=
    memoryMap_reports (records.map (readMmapEntry mem)) shows
  refine ⟨_, screen', ?_, printed, shows'⟩
  rw [showMemoryMap, visits, ← read]
  rfl

end Screen

/-- A map of one record, through the tables of `kern_entry`. -/
theorem memoryMap_shown_bootEntry :
    ∃ calls screen',
      showMemoryMap (mappedView kernInitStart.kernel.mem pgdTmp)
        ⟨24, 0x9500⟩ = some calls ∧
      runCalls (calls.map PrintkCall.onScreen)
        (consoleClear ⟨⟨fun _ => 0, []⟩, 0, 0, []⟩) = some screen' ∧
      Shows screen' (Terminal.clear.type (colored .black .white
        (memoryMapText [bootEntry]))) := by
  have record : readMmapEntry kernInitStart.kernel.mem 0x9500 = bootEntry :=
    List.head_eq_of_cons_eq kernInitStart_records
  have size : load32 kernInitStart.kernel.mem 0x9500 = 20 :=
    congrArg MmapEntry.size record
  have map : FormattedMap kernInitStart.kernel.mem ⟨24, 0x9500⟩ [0x9500] := by
    refine ⟨.record (by rw [size]) ?_, by decide⟩
    rw [size]
    exact .done _
  have direct : ∀ pa, 0x9500 ≤ pa → pa < 0x9500 + 24 →
      mmuWalk kernInitStart.kernel.mem pgdTmp (pa + pageOffset) =
        some pa := by
    intro pa lower upper
    have walk := kernInitStart_entry.tables.walk_high (pa + pageOffset)
      (Nat.le_add_left ..) (by simp only [pageOffset]; omega)
    rwa [Nat.add_sub_cancel] at walk
  have start : Shows (consoleClear ⟨⟨fun _ => 0, []⟩, 0, 0, []⟩) .clear :=
    consoleClear_shows rfl
  obtain ⟨calls, screen', made, printed, shows⟩ :=
    memoryMap_shown map (by simpa using size) (by decide) direct start
  refine ⟨calls, screen', made, printed, ?_⟩
  rw [List.map_cons, List.map_nil, record] at shows
  exact shows

end MiniOS
