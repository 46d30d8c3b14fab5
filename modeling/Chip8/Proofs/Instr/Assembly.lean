import Chip8.Instr.Assembly
import Chip8.Proofs.Processor.Step
import Chip8.Proofs.Text.Radix

/-!
# Reading assembly text back

The text of a word says all that it does. `Instr.ofText?` reads assembly text, and from the text of
a word it gets the instruction of the word, less what the text does not show: the second register of
a shift (`Word.ofText?_assembly`). No instruction uses what is not shown, so words with the same
text do the same (`Word.execute_of_assembly_eq`).
-/

namespace Chip8

/-! ## Operands -/

namespace Operand

/-- The places that have names. -/
def places : List String := ["I", "DT", "ST", "K", "F", "B", "[I]"]

/-- A name stands for a place. No other name can be told from a register or a number. -/
def Ordinary : Operand → Prop
  | named name => name ∈ places
  | _ => True

/-- The word that hexadecimal digits write. -/
def wordOf (digits : List Char) : UInt16 := UInt16.ofNat ((Text.ofDigitsIn? 16 digits).getD 0)

/-- The operand that a text writes. -/
def ofText : List Char → Operand
  | 'V' :: digits => reg (Word.nibble (wordOf digits))
  | '0' :: 'x' :: digits =>
    if digits.length = 2 then byte (Word.byte (wordOf digits)) else addr (Word.addr (wordOf digits))
  | cs => if cs.all Text.isDigit then count (Word.nibble (UInt16.ofNat (Text.ofDigits cs)))
      else named (String.ofList cs)

theorem toNat_wordOf_hexUpper (width : Nat) {n : Nat} (small : n < 0x10000) :
    (wordOf (Text.hexUpper width n).toList).toNat = n := by
  rw [wordOf, Text.ofDigitsIn?_hexUpper, Option.getD_some, UInt16.toNat_ofNat',
    Nat.mod_eq_of_lt small]

theorem toList_text_reg (x : Reg) : (reg x).text.toList = 'V' :: (Text.hexUpper 1 x).toList :=
  String.toList_append

theorem toList_text_byte (b : UInt8) :
    (byte b).text.toList = '0' :: 'x' :: (Text.hexUpper 2 b.toNat).toList :=
  String.toList_append

theorem toList_text_addr (a : Addr) :
    (addr a).text.toList = '0' :: 'x' :: (Text.hexUpper 3 a).toList :=
  String.toList_append

theorem ofText_text {o : Operand} (ordinary : o.Ordinary) : ofText o.text.toList = o := by
  cases o with
  | reg x =>
    have value := toNat_wordOf_hexUpper 1 (Nat.lt_trans x.isLt (by decide))
    rw [toList_text_reg, ofText, Word.nibble]
    simp only [value, Nat.mod_eq_of_lt x.isLt]
  | byte b =>
    have two : (Text.hexUpper 2 b.toNat).toList.length = 2 :=
      Text.length_hexUpper (by decide) b.toNat_lt
    rw [toList_text_byte, ofText, if_pos two, Word.byte,
      toNat_wordOf_hexUpper 2 (Nat.lt_trans b.toNat_lt (by decide)), UInt8.ofNat_toNat]
  | addr a =>
    have three : (Text.hexUpper 3 a).toList.length = 3 := Text.length_hexUpper (by decide) a.isLt
    have value := toNat_wordOf_hexUpper 3 (Nat.lt_trans a.isLt (by decide))
    rw [toList_text_addr, ofText, if_neg (by rw [three]; decide), Word.addr]
    simp only [value, Nat.mod_eq_of_lt a.isLt]
  | count n =>
    have all : ∀ n, ofText (count n).text.toList = count n := by decide +kernel
    exact all n
  | named name =>
    have all : ∀ name ∈ places, ofText (named name).text.toList = named name := by decide +kernel
    exact all name ordinary

theorem comma_not_mem_text {o : Operand} (ordinary : o.Ordinary) : ',' ∉ o.text.toList := by
  have digits {width n : Nat} : ',' ∉ (Text.hexUpper width n).toList := by
    intro comma
    obtain ⟨d, small, digit⟩ := Text.mem_hexUpper comma
    have other : ∀ d : Fin 16, ',' ≠ (Nat.digitChar d).toUpper := by decide
    exact other ⟨d, small⟩ digit
  cases o with
  | reg x =>
    rw [toList_text_reg]
    simpa using digits
  | byte b =>
    rw [toList_text_byte]
    simpa using digits
  | addr a =>
    rw [toList_text_addr]
    simpa using digits
  | count n =>
    have all : ∀ n, ',' ∉ (count n).text.toList := by decide +kernel
    exact all n
  | named name =>
    have all : ∀ name ∈ places, ',' ∉ (named name).text.toList := by decide +kernel
    exact all name ordinary

end Operand

/-! ## Instructions -/

namespace Instr

open Operand

/-- What the text of an instruction shows of it: of a shift, one register. -/
def shown : Instr → Instr
  | shiftRight x _ => shiftRight x x
  | shiftLeft x _ => shiftLeft x x
  | i => i

/-- The instruction with a mnemonic and operands. Every mnemonic has one form for operands of given
sorts. -/
def ofParts? (mnemonic : String) : List Operand → Option Instr
  | [] =>
    match mnemonic with
    | "CLS" => some clear
    | "RET" => some ret
    | _ => none
  | [addr target] =>
    match mnemonic with
    | "JP" => some (jump target)
    | "CALL" => some (call target)
    | _ => none
  | [reg x] =>
    match mnemonic with
    | "SHR" => some (shiftRight x x)
    | "SHL" => some (shiftLeft x x)
    | "SKP" => some (skipIfKey x)
    | "SKNP" => some (skipUnlessKey x)
    | _ => none
  | [reg x, byte b] =>
    match mnemonic with
    | "SE" => some (skipIfByte x b)
    | "SNE" => some (skipUnlessByte x b)
    | "LD" => some (setByte x b)
    | "ADD" => some (addByte x b)
    | "RND" => some (random x b)
    | _ => none
  | [reg x, reg y] =>
    match mnemonic with
    | "SE" => some (skipIfSame x y)
    | "SNE" => some (skipUnlessSame x y)
    | "LD" => some (copy x y)
    | "OR" => some (or x y)
    | "AND" => some (and x y)
    | "XOR" => some (xor x y)
    | "ADD" => some (add x y)
    | "SUB" => some (sub x y)
    | "SUBN" => some (subFrom x y)
    | _ => none
  | [reg x, reg y, count height] => if mnemonic = "DRW" then some (draw x y height) else none
  | [reg _, addr base] => if mnemonic = "JP" then some (jumpOffset base) else none
  | [named place, addr target] =>
    if mnemonic = "LD" ∧ place = "I" then some (setIndex target) else none
  | [reg x, named place] =>
    match mnemonic, place with
    | "LD", "DT" => some (getDelay x)
    | "LD", "K" => some (waitKey x)
    | "LD", "[I]" => some (loadRegs x)
    | _, _ => none
  | [named place, reg x] =>
    match mnemonic, place with
    | "LD", "DT" => some (setDelay x)
    | "LD", "ST" => some (setSound x)
    | "LD", "F" => some (glyph x)
    | "LD", "B" => some (storeDigits x)
    | "LD", "[I]" => some (saveRegs x)
    | "ADD", "I" => some (addIndex x)
    | _, _ => none
  | _ => none

/-- The instruction that assembly text writes: a mnemonic, and operands with commas between them and
a blank in front of each. -/
def ofText? (cs : List Char) : Option Instr :=
  let operands := cs.dropWhile (· ≠ ' ')
  ofParts? (String.ofList (cs.takeWhile (· ≠ ' ')))
    (if operands = [] then [] else (operands.splitOn ',').map fun cs => Operand.ofText (cs.drop 1))

theorem ofParts?_parts (i : Instr) : ofParts? i.parts.1 i.parts.2 = some i.shown := by
  cases i <;> rfl

def mnemonics : List String :=
  ["CLS", "RET", "JP", "CALL", "SE", "SNE", "LD", "ADD", "OR", "AND", "XOR", "SUB", "SHR", "SUBN",
    "SHL", "RND", "DRW", "SKP", "SKNP"]

theorem mem_mnemonics (i : Instr) : i.parts.1 ∈ mnemonics := by
  cases i <;> simp [parts, mnemonics]

theorem blank_not_mem_mnemonic (i : Instr) : ' ' ∉ i.parts.1.toList := by
  have all : ∀ mnemonic ∈ mnemonics, ' ' ∉ mnemonic.toList := by decide +kernel
  exact all _ i.mem_mnemonics

theorem ordinary_of_mem_parts (i : Instr) : ∀ o ∈ i.parts.2, o.Ordinary := by
  cases i <;> simp [parts, Ordinary, places]

/-- The blank behind a comma can be counted to the next operand. -/
theorem intercalate_comma_blank (cs : List Char) (rest : List (List Char)) :
    [',', ' '].intercalate (cs :: rest) = [','].intercalate (cs :: rest.map (' ' :: ·)) := by
  induction rest generalizing cs with
  | nil => rfl
  | cons next rest ih =>
    rw [List.intercalate_cons_cons, ih, List.map_cons, List.intercalate_cons_cons,
      List.intercalate_cons_cons_left]
    simp

/-- The operands of a line, each with a blank in front. -/
def operandText (operands : List Operand) : List Char :=
  [','].intercalate (operands.map fun o => ' ' :: o.text.toList)

theorem operandText_cons (o : Operand) (operands : List Operand) :
    operandText (o :: operands) =
      ' ' :: [',', ' '].intercalate ((o :: operands).map fun o => o.text.toList) := by
  rw [operandText, List.map_cons, List.intercalate_cons_cons_left, List.map_cons,
    intercalate_comma_blank, List.map_map]
  rfl

theorem toList_text (i : Instr) : i.text.toList = i.parts.1.toList ++ operandText i.parts.2 := by
  rcases parts : i.parts with ⟨mnemonic, operands⟩
  cases operands with
  | nil => simp [text, parts, operandText]
  | cons o operands =>
    rw [operandText_cons]
    simp only [text, parts, String.toList_append, String.toList_intercalate, List.map_map]
    exact List.append_assoc ..

/-- The operands are read back, if none is mistaken for another. -/
theorem map_ofText_splitOn {operands : List Operand} (ordinary : ∀ o ∈ operands, o.Ordinary)
    (nonempty : operands ≠ []) :
    ((operandText operands).splitOn ',').map (fun cs => Operand.ofText (cs.drop 1)) = operands := by
  have apart : ∀ cs ∈ operands.map fun o => ' ' :: o.text.toList, ',' ∉ cs := by
    intro cs written
    obtain ⟨o, member, rfl⟩ := List.mem_map.1 written
    simpa using comma_not_mem_text (ordinary o member)
  rw [operandText, List.splitOn_intercalate ',' apart (mt List.map_eq_nil_iff.1 nonempty),
    List.map_map]
  refine (List.map_congr_left fun o member => ?_).trans (List.map_id operands)
  exact ofText_text (ordinary o member)

/-- Assembly text is read back as what it shows of its instruction. -/
theorem ofText?_text (i : Instr) : ofText? i.text.toList = some i.shown := by
  have before : ∀ c ∈ i.parts.1.toList, decide (c ≠ ' ') = true := by
    intro c member
    exact decide_eq_true fun blank => i.blank_not_mem_mnemonic (blank ▸ member)
  have mnemonic : i.text.toList.takeWhile (· ≠ ' ') = i.parts.1.toList := by
    rw [toList_text, List.takeWhile_append_of_pos before]
    cases i.parts.2 with
    | nil => simp [operandText]
    | cons o operands => simp [operandText_cons]
  have operands : i.text.toList.dropWhile (· ≠ ' ') = operandText i.parts.2 := by
    rw [toList_text, List.dropWhile_append_of_pos before]
    cases i.parts.2 with
    | nil => rfl
    | cons o operands => simp [operandText_cons]
  have read : (if operandText i.parts.2 = [] then []
      else ((operandText i.parts.2).splitOn ',').map fun cs =>
          Operand.ofText (cs.drop 1)) = i.parts.2 := by
    cases parts : i.parts.2 with
    | nil => rfl
    | cons o rest =>
      rw [if_neg (by simp [operandText_cons]), ← parts]
      exact map_ofText_splitOn i.ordinary_of_mem_parts (by simp [parts])
  rw [ofText?, mnemonic, operands, String.ofList_toList, read, ← ofParts?_parts]

/-- Data is no instruction. -/
theorem ofText?_data (cs : List Char) : ofText? ('D' :: 'W' :: ' ' :: cs) = none := by
  have mnemonic : ('D' :: 'W' :: ' ' :: cs).takeWhile (· ≠ ' ') = "DW".toList := by simp
  have unread (operands : List Operand) : ofParts? "DW" operands = none := by
    unfold ofParts?
    split <;> rfl
  rw [ofText?, mnemonic, String.ofList_toList, unread]

variable (d : Dialect) (e : UInt8) (m : Machine)

theorem execute_shown (i : Instr) : i.shown.execute d e m = i.execute d e m := by
  cases i <;> rfl

theorem drawsRandom_shown (i : Instr) : i.shown.drawsRandom = i.drawsRandom := by
  cases i <;> rfl

end Instr

/-! ## Words -/

namespace Word

/-- The text of a word is read back as what it shows of its instruction, and as nothing if the word
is none. -/
theorem ofText?_assembly (w : UInt16) :
    Instr.ofText? (assembly w).toList = (Instr.ofWord? w).map Instr.shown := by
  unfold assembly
  cases Instr.ofWord? w with
  | some i => exact i.ofText?_text
  | none =>
    rw [String.toList_append]
    exact Instr.ofText?_data _

/-- Words whose instructions are shown alike do the same. -/
theorem execute_of_shown_eq {w w' : UInt16}
    (same : (Instr.ofWord? w).map Instr.shown = (Instr.ofWord? w').map Instr.shown) (d : Dialect)
    (e : UInt8) (m : Machine) : execute d e m w = execute d e m w' := by
  cases word : Instr.ofWord? w with
  | none =>
    rw [word, Option.map_none, eq_comm, Option.map_eq_none_iff] at same
    rw [execute_of_none d e m word, execute_of_none d e m same]
  | some i =>
    rw [word, Option.map_some, eq_comm, Option.map_eq_some_iff] at same
    obtain ⟨j, word', shown⟩ := same
    rw [execute_of_some d e m word, execute_of_some d e m word', ← Instr.execute_shown d e m j,
      shown, Instr.execute_shown]

theorem drawsRandom_eq (w : UInt16) :
    (Instr.ofWord? w).any Instr.drawsRandom =
      ((Instr.ofWord? w).map Instr.shown).any Instr.drawsRandom := by
  cases Instr.ofWord? w with
  | none => rfl
  | some i => exact i.drawsRandom_shown.symm

/-- Words with the same text do the same to every machine, in every dialect, whatever the random
source gives, and both ask it or neither does. -/
theorem execute_of_assembly_eq {w w' : UInt16} (same : assembly w = assembly w') :
    (∀ d e m, execute d e m w = execute d e m w') ∧
      (Instr.ofWord? w).any Instr.drawsRandom = (Instr.ofWord? w').any Instr.drawsRandom := by
  have shown : (Instr.ofWord? w).map Instr.shown = (Instr.ofWord? w').map Instr.shown := by
    rw [← ofText?_assembly, ← ofText?_assembly, same]
  refine ⟨execute_of_shown_eq shown, ?_⟩
  rw [drawsRandom_eq, shown, ← drawsRandom_eq]

/-- The text of a shift does not show its second register. -/
theorem execute_of_assembly_eq_shift :
    assembly 0x8126 = assembly 0x8136 ∧ assembly 0x8126 = "SHR V1" ∧
    ∀ d e m, execute d e m 0x8126 = execute d e m 0x8136 := by
  have same : assembly 0x8126 = assembly 0x8136 := by decide +kernel
  exact ⟨same, by decide +kernel, (execute_of_assembly_eq same).1⟩

end Word

end Chip8
