import Chip8.Instr.Assembly
import Chip8.Processor
import Chip8.Proofs.Memory

/-!
# Complete listings

A listing has a line for every two bytes of a program, and one for a byte left over at its end
(`getElem?_listing`). Its codes give back the program byte for byte (`listedBytes_listing`), and
where a program is loaded they are the words that the machine fetches (`listing_complete`).
Addresses are exact as far as a counter is, and past that they are not
(`listing_address_past_limit`).
-/

namespace Chip8

/-- The high byte of a word. -/
def Word.high (w : UInt16) : UInt8 := UInt8.ofNat (w.toNat / 256)

/-- The big-endian word of two bytes. -/
def Word.ofBytes (high low : UInt8) : UInt16 := UInt16.ofNat (high.toNat * 256 + low.toNat)

theorem Word.toNat_ofBytes (high low : UInt8) :
    (ofBytes high low).toNat = high.toNat * 256 + low.toNat := by
  have := high.toNat_lt
  have := low.toNat_lt
  rw [ofBytes, UInt16.toNat_ofNat', Nat.mod_eq_of_lt (by omega)]

@[simp] theorem Word.high_ofBytes (high low : UInt8) : Word.high (ofBytes high low) = high := by
  have := low.toNat_lt
  rw [Word.high, toNat_ofBytes, Nat.add_comm, Nat.add_mul_div_right _ _ (by decide),
    Nat.div_eq_of_lt this, Nat.zero_add, UInt8.ofNat_toNat]

@[simp] theorem Word.byte_ofBytes (high low : UInt8) : Word.byte (ofBytes high low) = low := by
  rw [Word.byte, toNat_ofBytes]
  apply UInt8.toNat_inj.1
  rw [UInt8.toNat_ofNat']
  have := low.toNat_lt
  omega

theorem Memory.read16_eq (m : Memory) (a : Int) :
    m.read16 a = Word.ofBytes (m.read8 a) (m.read8 (Counter.add a 1)) := rfl

/-! ## Lines -/

/-- The line of a program at an offset from its origin. -/
def lineAt (origin : Int) (offset : Nat) : UInt8 → Option UInt8 → ListingLine
  | high, some low =>
    ⟨Counter.add origin offset, Word.ofBytes high low, Word.assembly (Word.ofBytes high low)⟩
  | last, none => ⟨Counter.add origin offset, last.toUInt16, "DB 0x" ++ Text.hexUpper 2 last.toNat⟩

section Listing

variable (origin : Int) (program : List UInt8)

theorem getElem?_listingFrom (offset k : Nat) :
    (listingFrom origin offset program)[k]? =
      program[2 * k]?.map fun byte => lineAt origin (offset + 2 * k) byte program[2 * k + 1]? := by
  fun_induction listingFrom origin offset program generalizing k with
  | case1 => rfl
  | case2 offset last =>
    cases k with
    | zero => rfl
    | succ k => rfl
  | case3 offset high low rest w ih =>
    cases k with
    | zero => rfl
    | succ k =>
      have next : offset + 2 + 2 * k = offset + 2 * (k + 1) := by omega
      rw [List.getElem?_cons_succ, ih, next]
      rfl

/-- The lines of a listing, one by one. -/
theorem getElem?_listing (k : Nat) :
    (listing origin program)[k]? =
      program[2 * k]?.map fun byte => lineAt origin (2 * k) byte program[2 * k + 1]? := by
  rw [listing, getElem?_listingFrom, Nat.zero_add]

theorem length_listingFrom (offset : Nat) :
    (listingFrom origin offset program).length = (program.length + 1) / 2 := by
  fun_induction listingFrom origin offset program with
  | case1 => rfl
  | case2 offset last => simp
  | case3 offset high low rest w ih =>
    rw [List.length_cons, ih, List.length_cons, List.length_cons]
    omega

/-- The bytes that lines stand for, in a listing of so many bytes: two for a line, high first, and
one for a line left over at the end. -/
def listedBytes (size : Nat) (lines : List ListingLine) : List UInt8 :=
  (lines.take (size / 2)).flatMap (fun line => [Word.high line.code, Word.byte line.code]) ++
    (lines.drop (size / 2)).map fun line => Word.byte line.code

theorem listedBytes_listingFrom (offset : Nat) :
    listedBytes program.length (listingFrom origin offset program) = program := by
  fun_induction listingFrom origin offset program with
  | case1 => rfl
  | case2 offset last => simp [listedBytes, Word.byte]
  | case3 offset high low rest w ih =>
    have half : (rest.length + 1 + 1) / 2 = rest.length / 2 + 1 := by omega
    have word : [Word.high w, Word.byte w] = [high, low] := by
      rw [show w = Word.ofBytes high low from rfl, Word.high_ofBytes, Word.byte_ofBytes]
    rw [listedBytes, List.length_cons, List.length_cons, half, List.take_succ_cons,
      List.drop_succ_cons, List.flatMap_cons, word, List.append_assoc]
    exact congrArg (fun bytes => high :: low :: bytes) ih

/-- A line is at its origin and its offset, as far as that can be counted. -/
theorem address_lineAt {offset : Nat} (exact : (origin + offset).natAbs ≤ Counter.exactLimit)
    (byte : UInt8) (next : Option UInt8) :
    (lineAt origin offset byte next).address = origin + offset := by
  cases next <;> exact Counter.add_eq exact

end Listing

/-! ## Loaded programs -/

section Loaded

variable {program : List UInt8}

/-- A program that was loaded is read byte for byte. -/
theorem Machine.read8_startWith (fits : program.length ≤ maxProgramSize) {k : Nat} {byte : UInt8}
    (inside : program[k]? = some byte) :
    (startWith program).memory.read8 (programStart + k) = byte := by
  obtain ⟨bound, rfl⟩ := List.getElem?_eq_some_iff.1 inside
  refine Memory.read8_writeFrom program ?_ bound
  unfold maxProgramSize memorySize programStart at *
  omega

/-- The word of a line that is fetched where the program was loaded. -/
theorem Machine.read16_startWith (fits : program.length ≤ maxProgramSize) {k : Nat} {byte : UInt8}
    (inside : program[k]? = some byte) :
    (startWith program).memory.read16 (programStart + k) =
      Word.ofBytes byte ((startWith program).memory.read8 (programStart + (k + 1 : Nat))) := by
  obtain ⟨bound, -⟩ := List.getElem?_eq_some_iff.1 inside
  have next : Counter.add (programStart + k) 1 = programStart + (k + 1 : Nat) := by
    unfold maxProgramSize memorySize programStart at *
    rw [Counter.add_word (by omega) (by omega)]
    omega
  rw [Memory.read16_eq, read8_startWith fits inside, next]

/-- A listing is complete: it has a line for every two bytes, at its place, and gives the program
back. Where the program is loaded a line shows what is fetched. Addresses are sums of counters, so
they are exact up to the limit of these. -/
theorem listing_complete (origin : Int) (program : List UInt8) :
    let lines := listing origin program
    let size := program.length
    lines.length = (size + 1) / 2 ∧
    (∀ k line, lines[k]? = some line →
      line.address = Counter.add origin (2 * k : Nat) ∧
      ((origin + (2 * k : Nat)).natAbs ≤ Counter.exactLimit → line.address = origin + 2 * k)) ∧
    listedBytes size lines = program ∧
    (size ≤ maxProgramSize → origin = programStart →
      ∃ m, Machine.start.loadProgram program = .ok m ∧ ∀ d k line, lines[k]? = some line →
        let fetched := (Processor.new m d).fetch line.address
        (2 * k + 1 < size → line.code = fetched ∧ line.text = Word.assembly fetched) ∧
        (2 * k + 1 = size → line.code.toNat = fetched.toNat / 256)) := by
  intro lines size
  refine ⟨length_listingFrom origin program 0, fun k line shown => ?_,
    listedBytes_listingFrom origin program 0, ?_⟩
  · rw [getElem?_listing, Option.map_eq_some_iff] at shown
    obtain ⟨byte, -, rfl⟩ := shown
    refine ⟨by cases program[2 * k + 1]? <;> rfl, fun exact => ?_⟩
    rw [address_lineAt origin exact]
    push_cast
    rfl
  · rintro fits rfl
    refine ⟨Machine.startWith program, ?_, fun d k line shown => ?_⟩
    · rw [Machine.loadProgram_start, if_neg (Nat.not_lt.2 fits)]
    · rw [getElem?_listing, Option.map_eq_some_iff] at shown
      obtain ⟨byte, inside, rfl⟩ := shown
      have bound := (List.getElem?_eq_some_iff.1 inside).1
      have place : (lineAt programStart (2 * k) byte program[2 * k + 1]?).address =
          programStart + (2 * k : Nat) := by
        refine address_lineAt programStart ?_ byte _
        unfold maxProgramSize memorySize programStart at *
        unfold Counter.exactLimit
        omega
      have fetched : (Processor.new (Machine.startWith program) d).fetch
          (programStart + (2 * k : Nat)) = _ :=
        Machine.read16_startWith fits inside
      rw [place, fetched]
      constructor
      · intro more
        have low := List.getElem?_eq_getElem more
        rw [low, Machine.read8_startWith fits low]
        exact ⟨rfl, rfl⟩
      · intro last
        have low : program[2 * k + 1]? = none := List.getElem?_eq_none (Nat.le_of_eq last.symm)
        rw [low, Word.toNat_ofBytes]
        have := ((Machine.startWith program).memory.read8
          (programStart + (2 * k + 1 : Nat))).toNat_lt
        change byte.toNat = _
        omega

/-- A word that is fetched, and a byte left over that is the high one of what is fetched. -/
theorem listing_complete_odd :
    let lines := listing programStart [0x60, 0x05, 0x12]
    listedBytes 3 lines = [0x60, 0x05, 0x12] ∧
    ∃ word byte m, lines[0]? = some word ∧ lines[1]? = some byte ∧
      Machine.start.loadProgram [0x60, 0x05, 0x12] = .ok m ∧
      word.address = 0x200 ∧ word.code = (Processor.new m .standard).fetch word.address ∧
      word.text = "LD V0, 0x05" ∧
      byte.address = 0x202 ∧
      byte.code.toNat = ((Processor.new m .standard).fetch byte.address).toNat / 256 := by
  intro lines
  obtain ⟨-, addresses, bytes, loaded⟩ := listing_complete programStart [0x60, 0x05, 0x12]
  obtain ⟨m, load, fetched⟩ := loaded (by decide) rfl
  have word : lines[0]? = some ⟨0x200, 0x6005, "LD V0, 0x05"⟩ := by decide +kernel
  have byte : lines[1]? = some ⟨0x202, 0x12, "DB 0x12"⟩ := by decide +kernel
  exact ⟨bytes, _, _, m, word, byte, load, rfl, ((fetched .standard 0 _ word).1 (by decide)).1, rfl,
    rfl, (fetched .standard 1 _ byte).2 rfl⟩

/-- Past the limit of counters a listing misses addresses. -/
theorem listing_address_past_limit :
    ∃ line, (listing 9007199254740991 [0x00, 0xE0, 0x00, 0xE0])[1]? = some line ∧
      line.address = 9007199254740992 ∧ line.address ≠ 9007199254740991 + 2 * 1 := by
  decide +kernel

end Loaded

end Chip8
