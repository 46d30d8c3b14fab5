import Chip8.Machine.Report
import Chip8.Proofs.Counter
import Chip8.Proofs.Text.Radix
import Mathlib.Algebra.Order.Floor.Div

/-!
# Dumps without loss

A dump cuts bytes into rows without loss (`getElem?_hexDump`, `flatten_chunks`), and the text of a
row tells its address and its bytes: `RowText` says what it has to be, `dumpRow` writes this and
nothing else (`rowText_iff`), and `readRow?` reads it back (`RowText.readRow?`). So a dump gives its
bytes back (`hexDump_lossless`). Addresses are exact as far as a counter is, and past that they are
not (`hexDump_address_past_limit`).
-/

namespace Chip8

namespace Report

open Text

/-! ## Rows of bytes -/

section Chunks

variable (width : Nat) (bytes : List UInt8)

/-- The rows, each by its place among the bytes. -/
theorem getElem?_chunks (i : Nat) :
    (chunks width bytes)[i]? =
      if i * (width + 1) < bytes.length then some ((bytes.drop (i * (width + 1))).take (width + 1))
        else none := by
  fun_induction chunks width bytes generalizing i with
  | case1 => rfl
  | case2 b rest ih =>
    cases i with
    | zero => simp
    | succ i =>
      have next : (i + 1) * (width + 1) = i * (width + 1) + width + 1 := by
        rw [Nat.succ_mul, Nat.add_assoc]
      have inside : i * (width + 1) < (rest.drop width).length ↔
          (i + 1) * (width + 1) < (b :: rest).length := by
        rw [next, List.length_drop, List.length_cons]
        omega
      have place : (rest.drop width).drop (i * (width + 1)) =
          (b :: rest).drop ((i + 1) * (width + 1)) := by
        rw [next, List.drop_succ_cons, List.drop_drop, Nat.add_comm width]
      rw [List.getElem?_cons_succ, ih]
      simp only [inside, place]

theorem flatten_chunks : (chunks width bytes).flatten = bytes := by
  fun_induction chunks width bytes with
  | case1 => rfl
  | case2 b rest ih => rw [List.flatten_cons, ih, List.cons_append, List.take_append_drop]

theorem ne_nil_of_mem_chunks : ∀ row ∈ chunks width bytes, row ≠ [] := by
  fun_induction chunks width bytes with
  | case1 => exact nofun
  | case2 b rest ih =>
    intro row member
    rcases List.mem_cons.1 member with rfl | behind
    · exact List.cons_ne_nil _ _
    · exact ih row behind

end Chunks

/-! ## The text of a row -/

/-- The text of a byte: a numeral of two digits. -/
structure ByteText (b : UInt8) (cell : List Char) : Prop where
  numeral : Hexadecimal 2 b.toNat cell
  two : cell.length = 2

/-- The text of a row: the numeral of its address, a colon and a blank, and the texts of its bytes
with one blank between neighbours. -/
def RowText (address : Nat) (bytes : List UInt8) (row : String) : Prop :=
  ∃ digits cells, row.toList = digits ++ ':' :: ' ' :: [' '].intercalate cells ∧
    Hexadecimal 3 address digits ∧ List.Forall₂ ByteText bytes cells

theorem byteText_iff {b : UInt8} {cell : List Char} :
    ByteText b cell ↔ cell = (byteText b).toList := by
  refine ⟨fun h => (hexadecimal_iff (by decide)).1 h.numeral, ?_⟩
  rintro rfl
  exact ⟨(hexadecimal_iff (by decide)).2 rfl, length_hexUpper (by decide) b.toNat_lt⟩

theorem forall₂_byteText_iff {bytes : List UInt8} {cells : List (List Char)} :
    List.Forall₂ ByteText bytes cells ↔ cells = bytes.map fun b => (byteText b).toList := by
  constructor
  · intro shown
    induction shown with
    | nil => rfl
    | cons first _ ih => rw [List.map_cons, ih, ← byteText_iff.1 first]
  · rintro rfl
    rw [List.forall₂_map_right_iff, List.forall₂_same]
    exact fun b _ => byteText_iff.2 rfl

theorem toList_dumpRow (address : Int) (bytes : List UInt8) :
    (dumpRow address bytes).toList =
      (hexUpper 3 address).toList ++ ':' :: ' ' ::
        [' '].intercalate (bytes.map fun b => (byteText b).toList) := by
  rw [dumpRow, joinBlank, String.toList_append, String.toList_append, String.toList_intercalate,
    List.map_map, List.append_assoc]
  rfl

/-- What is written for an address and bytes is the text of their row, and nothing else is. -/
theorem rowText_iff {address : Nat} {bytes : List UInt8} {row : String} :
    RowText address bytes row ↔ row = dumpRow address bytes := by
  rw [← String.toList_inj, toList_dumpRow]
  constructor
  · rintro ⟨digits, cells, text, numeral, shown⟩
    rw [text, (hexadecimal_iff (by decide)).1 numeral, forall₂_byteText_iff.1 shown]
  · intro text
    exact ⟨_, _, text, (hexadecimal_iff (by decide)).2 rfl, forall₂_byteText_iff.2 rfl⟩

/-! ## Reading rows -/

/-- Reads two digits. -/
def readByte? (cell : List Char) : Option UInt8 :=
  if cell.length = 2 then (ofDigitsIn? 16 cell).map UInt8.ofNat else none

/-- Reads a row: the address before the colon, and the bytes behind the blank. -/
def readRow? (row : String) : Option (Nat × List UInt8) := do
  let address ← ofDigitsIn? 16 (row.toList.takeWhile (· ≠ ':'))
  let bytes ← (((row.toList.dropWhile (· ≠ ':')).drop 2).splitOn ' ').mapM readByte?
  pure (address, bytes)

/-- Reads the bytes of all rows, one row after another. -/
def readDump? (rows : List String) : Option (List UInt8) := do
  let rows ← rows.mapM readRow?
  pure (rows.flatMap Prod.snd)

theorem mapM_eq_some_of_forall₂ {α β : Type} {f : α → Option β} {as : List α} {bs : List β}
    (read : List.Forall₂ (fun a b => f a = some b) as bs) : as.mapM f = some bs := by
  induction read with
  | nil => rfl
  | cons first _ ih =>
    rw [List.mapM_cons, first, ih]
    rfl

theorem colon_not_mem_upperDigits : ':' ∉ upperDigits := by decide

theorem blank_not_mem_upperDigits : ' ' ∉ upperDigits := by decide

theorem ByteText.readByte? {b : UInt8} {cell : List Char} (h : ByteText b cell) :
    readByte? cell = some b := by
  rw [Report.readByte?, if_pos h.two, h.numeral.value, Option.map_some, UInt8.ofNat_toNat]

theorem ByteText.blank_not_mem {b : UInt8} {cell : List Char} (h : ByteText b cell) : ' ' ∉ cell :=
  fun blank => blank_not_mem_upperDigits (h.numeral.digits ' ' blank)

section RowText

variable {address : Nat} {bytes : List UInt8} {cells : List (List Char)} {digits : List Char}
  {row : String}

theorem mapM_readByte? (shown : List.Forall₂ ByteText bytes cells) :
    cells.mapM readByte? = some bytes :=
  mapM_eq_some_of_forall₂ (shown.imp fun _ _ => ByteText.readByte?).flip

theorem splitOn_intercalate_cells (shown : List.Forall₂ ByteText bytes cells)
    (nonempty : bytes ≠ []) :
    ([' '].intercalate cells).splitOn ' ' = cells := by
  have apart : ∀ cell ∈ cells, ' ' ∉ cell := by
    rw [forall₂_byteText_iff.1 shown]
    intro cell member
    obtain ⟨b, -, rfl⟩ := List.mem_map.1 member
    exact (byteText_iff.2 rfl).blank_not_mem
  refine List.splitOn_intercalate ' ' apart ?_
  rintro rfl
  cases shown
  exact nonempty rfl

theorem before_colon (numeral : Hexadecimal 3 address digits) :
    ∀ c ∈ digits, decide (c ≠ ':') = true := by
  intro c digit
  refine decide_eq_true fun colon => colon_not_mem_upperDigits ?_
  exact colon ▸ numeral.digits c digit

/-- The address of a row is read back. -/
theorem RowText.readAddress (h : RowText address bytes row) :
    ofDigitsIn? 16 (row.toList.takeWhile (· ≠ ':')) = some address := by
  obtain ⟨digits, cells, text, numeral, -⟩ := h
  rw [text, List.takeWhile_append_of_pos (before_colon numeral),
    List.takeWhile_cons_of_neg (by decide), List.append_nil]
  exact numeral.value

/-- The text of a row is read back. -/
theorem RowText.readRow? (h : RowText address bytes row) (nonempty : bytes ≠ []) :
    readRow? row = some (address, bytes) := by
  have value := h.readAddress
  obtain ⟨digits, cells, text, numeral, shown⟩ := h
  have behind : (row.toList.dropWhile (· ≠ ':')).drop 2 = [' '].intercalate cells := by
    rw [text, List.dropWhile_append_of_pos (before_colon numeral),
      List.dropWhile_cons_of_neg (by decide)]
    rfl
  rw [Report.readRow?, value, behind, splitOn_intercalate_cells shown nonempty,
    mapM_readByte? shown]
  rfl

end RowText

/-! ## Dumps -/

section Dump

variable (bytes : List UInt8) (origin : Nat)

/-- A dump is read back. -/
theorem readDump?_hexDump (width : Nat) : readDump? (hexDump bytes origin width) = some bytes := by
  -- The reader takes addresses for numbers without a sign, and they have none.
  choose address sum using fun i => Counter.exists_natCast_eq_add origin (i * width)
  let rows := (chunks (width - 1) bytes).zipIdx
  have text : hexDump bytes origin width = rows.map fun p => dumpRow (address p.2) p.1 :=
    List.map_congr_left fun p _ => congrArg (dumpRow · p.1) (sum p.2).symm
  have read : (hexDump bytes origin width).mapM readRow? =
      some (rows.map fun p => (address p.2, p.1)) := by
    rw [text]
    refine mapM_eq_some_of_forall₂ ?_
    rw [List.forall₂_map_left_iff, List.forall₂_map_right_iff, List.forall₂_same]
    intro p member
    have filled := ne_nil_of_mem_chunks _ bytes p.1 (List.fst_mem_of_mem_zipIdx member)
    exact (rowText_iff.2 rfl).readRow? filled
  have back : (rows.map fun p => (address p.2, p.1)).flatMap Prod.snd = bytes := by
    rw [List.flatMap_map]
    change rows.flatMap Prod.fst = bytes
    rw [List.flatMap_def, List.zipIdx_map_fst, flatten_chunks]
  rw [readDump?, read]
  exact congrArg some back

variable {width : Nat} (positive : 0 < width)

include positive

/-- The rows of a dump, one by one. -/
theorem getElem?_hexDump (i : Nat) :
    (hexDump bytes origin width)[i]? =
      if i * width < bytes.length then
        some (dumpRow (Counter.add origin (i * width : Nat)) ((bytes.drop (i * width)).take width))
      else none := by
  rw [hexDump, List.getElem?_map, List.getElem?_zipIdx, getElem?_chunks,
    Nat.sub_add_cancel positive]
  split <;> simp

theorem lt_length_hexDump_iff (i : Nat) :
    i < (hexDump bytes origin width).length ↔ i * width < bytes.length := by
  rw [← not_iff_not, Nat.not_lt, ← List.getElem?_eq_none_iff,
    getElem?_hexDump bytes origin positive]
  split
  · next inside => exact iff_of_false nofun (not_not_intro inside)
  · next outside => exact iff_of_true rfl outside

theorem length_hexDump : (hexDump bytes origin width).length = bytes.length ⌈/⌉ width := by
  -- There are as many rows as places of a first byte.
  refine eq_of_forall_lt_iff fun i => ?_
  rw [lt_length_hexDump_iff bytes origin positive, ← not_iff_not, not_lt, not_lt,
    ceilDiv_le_iff_le_mul positive, Nat.mul_comm]

/-- What a row of a dump shows, and how many bytes of it. -/
theorem row_hexDump {i : Nat} {row : String}
    (inside : (hexDump bytes origin width)[i]? = some row) :
    ∃ address shown, RowText address shown row ∧ readRow? row = some (address, shown) ∧
      address = Counter.add origin (i * width : Nat) ∧
      (i + 1 < (hexDump bytes origin width).length → shown.length = width) ∧
      (i + 1 = (hexDump bytes origin width).length → 1 ≤ shown.length ∧ shown.length ≤ width) := by
  have place : i * width < bytes.length := by
    rw [← lt_length_hexDump_iff bytes origin positive]
    exact (List.getElem?_eq_some_iff.1 inside).1
  rw [getElem?_hexDump bytes origin positive, if_pos place] at inside
  obtain ⟨address, sum⟩ := Counter.exists_natCast_eq_add origin (i * width)
  have length : ((bytes.drop (i * width)).take width).length =
      min width (bytes.length - i * width) := by
    rw [List.length_take, List.length_drop]
  have text : RowText address ((bytes.drop (i * width)).take width) row := by
    rw [rowText_iff, sum]
    exact (Option.some.inj inside).symm
  have filled : (bytes.drop (i * width)).take width ≠ [] := List.ne_nil_of_length_pos (by omega)
  refine ⟨address, _, text, text.readRow? filled, sum, fun more => ?_, fun _ => ?_⟩
  · rw [lt_length_hexDump_iff bytes origin positive, Nat.succ_mul] at more
    omega
  · omega

end Dump

/-- A dump loses nothing. It has a row for every `width` bytes and one for what is left; a row shows
its address and its bytes, and all rows together are read back as the bytes. The address is the sum
of the origin and the bytes before, as far as that can be counted; past the limit it is off by at
most one part in `2 ^ 53`. -/
theorem hexDump_lossless (bytes : List UInt8) (origin : Nat) {width : Nat} (positive : 0 < width) :
    let rows := hexDump bytes origin width
    rows.length = bytes.length ⌈/⌉ width ∧
    (∀ i row, rows[i]? = some row → ∃ address shown,
      RowText address shown row ∧ readRow? row = some (address, shown) ∧
      address = Counter.add origin (i * width : Nat) ∧
      (origin + i * width ≤ Counter.exactLimit → address = origin + i * width) ∧
      2 ^ 53 * |(address : Int) - (origin + i * width : Nat)| ≤ (origin + i * width : Nat) ∧
      (i + 1 < rows.length → shown.length = width) ∧
      (i + 1 = rows.length → 1 ≤ shown.length ∧ shown.length ≤ width)) ∧
    readDump? rows = some bytes := by
  intro rows
  refine ⟨length_hexDump bytes origin positive, fun i row inside => ?_,
    readDump?_hexDump bytes origin width⟩
  obtain ⟨address, shown, text, read, sum, full, last⟩ := row_hexDump bytes origin positive inside
  refine ⟨address, shown, text, read, sum, fun exact => ?_, ?_, full, last⟩
  · have kept := sum.trans (Counter.add_eq exact)
    omega
  · rw [sum]
    exact_mod_cast Counter.abs_add_natCast_sub_le origin (i * width)

/-- A last row of one byte, at an address past the limit. -/
theorem hexDump_lossless_short_row :
    let rows := hexDump [0x60, 0x05, 0x12] 9007199254740991 2
    0 < 2 ∧ rows = ["1FFFFFFFFFFFFF: 60 05", "20000000000000: 12"] ∧ rows.length = 2 ∧
    RowText 9007199254740992 [0x12] "20000000000000: 12" ∧
    readDump? rows = some [0x60, 0x05, 0x12] := by
  intro rows
  have lines : rows = ["1FFFFFFFFFFFFF: 60 05", "20000000000000: 12"] := by decide +kernel
  obtain ⟨length, shows, read⟩ :=
    hexDump_lossless [0x60, 0x05, 0x12] 9007199254740991 (show 0 < 2 by decide)
  obtain ⟨address, shown, text, last, -⟩ := shows 1 "20000000000000: 12" (congrArg (·[1]?) lines)
  have known : readRow? "20000000000000: 12" = some (9007199254740992, [0x12]) := by decide +kernel
  rw [known] at last
  cases last
  exact ⟨by decide, lines, length, text, read⟩

/-- Past the limit of counters a dump misses addresses. -/
theorem hexDump_address_past_limit :
    ∃ row, (hexDump [0, 1, 2] 9007199254740991 1)[2]? = some row ∧
    readRow? row = some (9007199254740992, [2]) ∧
      ¬ ∃ shown, RowText (9007199254740991 + 2 * 1) shown row := by
  refine ⟨"20000000000000: 02", by decide +kernel, by decide +kernel, ?_⟩
  rintro ⟨shown, text⟩
  have other : ofDigitsIn? 16 ("20000000000000: 02".toList.takeWhile (· ≠ ':')) ≠ some
      (9007199254740991 + 2 * 1) := by
    decide +kernel
  exact other text.readAddress

end Report

end Chip8
