import Assembly8085.Bisection

/-!
# Names of the 8085 instruction set

Only names are kept: operands are never checked against the opcode they follow. The opcodes
stand in ascending order, which the search for a name relies on.
-/
namespace Assembly8085.InstructionSet

/-- Every mnemonic in capital letters, in ascending order. -/
def opcodes : Array String := #[
  "ACI", "ADC", "ADD", "ADI", "ANA", "ANI", "CALL", "CC",
  "CM", "CMA", "CMC", "CMP", "CNC", "CNZ", "CP", "CPE",
  "CPI", "CPO", "CZ", "DAA", "DAD", "DCR", "DCX", "DI",
  "EI", "HLT", "IN", "INR", "INX", "JC", "JM", "JMP",
  "JNC", "JNZ", "JP", "JPE", "JPO", "JZ", "LDA", "LDAX",
  "LHLD", "LXI", "MOV", "MVI", "NOP", "ORA", "ORI", "OUT",
  "PCHL", "POP", "PUSH", "RAL", "RAR", "RC", "RET", "RIM",
  "RLC", "RM", "RNC", "RNZ", "RP", "RPE", "RPO", "RRC",
  "RST", "RZ", "SBB", "SBI", "SHLD", "SIM", "SPHL", "STA",
  "STAX", "STC", "SUB", "SUI", "XCHG", "XRA", "XRI", "XTHL"]

/-- The registers, the stack pointer and the program status word, in capital letters. -/
def registers : List String := ["A", "B", "C", "D", "E", "H", "L", "M", "SP", "PSW"]

/-- Whether a name in capital letters is an opcode. The only place where it can stand is behind
the opcodes that come before it in order. -/
def isOpcode (name : String) : Bool :=
  opcodes[Bisection.border opcodes fun opcode => decide (opcode < name)]? == some name

/-- Whether a name in capital letters is a register. -/
def isRegister (name : String) : Bool :=
  registers.contains name

/-- Whether a name in capital letters is an opcode or a register. -/
def isKnown (name : String) : Bool :=
  isOpcode name || isRegister name

end Assembly8085.InstructionSet
