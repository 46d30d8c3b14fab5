import Chip8.Instr

/-!
# Kinds of instructions

The short names by which tools tell the kinds of instructions apart: the mnemonic, followed by what
its operands are where one mnemonic has several forms.
-/

namespace Chip8

/-- The name of an instruction's kind. -/
def Instr.kindName : Instr → String
  | .clear => "CLS"
  | .ret => "RET"
  | .jump .. => "JP"
  | .call .. => "CALL"
  | .skipIfByte .. => "SE_VX_KK"
  | .skipUnlessByte .. => "SNE_VX_KK"
  | .skipIfSame .. => "SE_VX_VY"
  | .setByte .. => "LD_VX_KK"
  | .addByte .. => "ADD_VX_KK"
  | .copy .. => "LD_VX_VY"
  | .or .. => "OR"
  | .and .. => "AND"
  | .xor .. => "XOR"
  | .add .. => "ADD_VX_VY"
  | .sub .. => "SUB"
  | .shiftRight .. => "SHR"
  | .subFrom .. => "SUBN"
  | .shiftLeft .. => "SHL"
  | .skipUnlessSame .. => "SNE_VX_VY"
  | .setIndex .. => "LD_I"
  | .jumpOffset .. => "JP_V0"
  | .random .. => "RND"
  | .draw .. => "DRW"
  | .skipIfKey .. => "SKP"
  | .skipUnlessKey .. => "SKNP"
  | .getDelay .. => "LD_VX_DT"
  | .waitKey .. => "LD_VX_K"
  | .setDelay .. => "LD_DT_VX"
  | .setSound .. => "LD_ST_VX"
  | .addIndex .. => "ADD_I_VX"
  | .glyph .. => "LD_F_VX"
  | .storeDigits .. => "LD_B_VX"
  | .saveRegs .. => "LD_MEM_VX"
  | .loadRegs .. => "LD_VX_MEM"

/-- The name of a word's kind. -/
def Word.kindName (w : UInt16) : String :=
  match Instr.ofWord? w with
  | some i => i.kindName
  | none => "UNKNOWN"

end Chip8
