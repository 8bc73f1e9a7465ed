import Assembly8085.Proofs.Bisection
import Assembly8085.Proofs.Collation
import Assembly8085.Proofs.Letters
import Assembly8085.Token
import Mathlib.Data.List.Chain
import Mathlib.Data.List.Forall2

/-!
# Classes of identifiers

The opcodes stand in the order of their bytes, and a name is searched for by comparing bytes. So it
is found exactly if it is an opcode, whatever it is made of. The class of an identifier says which
table its capitals are in, and texts have the same capitals exactly if they differ at most in the
case of ASCII letters. All names consist of letters, so a text that holds anything else is plain.
-/
namespace Assembly8085

namespace Text

/-- A text with its ASCII letters in capitals. -/
def capitals (text : List Char) : String := String.ofList (text.map Char.toUpper)

/-- Texts have the same capitals exactly if they differ at most in the case of letters. -/
theorem capitals_eq_capitals_iff {first second : List Char} :
    capitals first = capitals second ↔ List.Forall₂ SameLetter first second := by
  rw [capitals, capitals, String.ofList_inj, ← List.forall₂_eq_eq_eq, List.forall₂_map_left_iff,
    List.forall₂_map_right_iff]
  simp only [toUpper_eq_toUpper_iff]

end Text

namespace InstructionSet

variable {name : String}

/-- The opcodes ascend. -/
theorem pairwise_opcodes : opcodes.toList.Pairwise (· < ·) :=
  List.isChain_iff_pairwise.mp (by decide +kernel)

/-- The search for an opcode compares bytes. -/
theorem isOpcode_eq (name : String) :
    isOpcode name = (opcodes[Bisection.border opcodes fun opcode =>
      decide (Text.bytes opcode.toList < Text.bytes name.toList)]? == some name) := by
  simp only [isOpcode, Text.bytes_lt_bytes_iff, String.lt_iff]

/-- The search finds the opcodes and no other name. -/
theorem isOpcode_iff : isOpcode name = true ↔ name ∈ opcodes := by
  rw [isOpcode, beq_iff_eq]
  exact Bisection.getElem?_border_eq_some_iff pairwise_opcodes

/-- Registers are looked for one by one. -/
theorem isRegister_iff : isRegister name = true ↔ name ∈ registers := List.contains_iff_mem

/-- A known name is in one of the tables. -/
theorem isKnown_iff : isKnown name = true ↔ name ∈ opcodes ∨ name ∈ registers := by
  rw [isKnown, Bool.or_eq_true, isOpcode_iff, isRegister_iff]

/-- No opcode is a register. -/
theorem not_mem_registers : ∀ name ∈ opcodes, name ∉ registers := by decide +kernel

/-- Known names consist of capital letters. -/
theorem isUpper_of_isKnown (known : isKnown name = true) {c : Char} (member : c ∈ name.toList) :
    c.isUpper = true := by
  have capital : ((opcodes.toList ++ registers).all fun name => name.toList.all Char.isUpper) := by
    decide
  have listed : name ∈ opcodes.toList ++ registers := by
    rwa [List.mem_append, Array.mem_toList_iff, ← isKnown_iff]
  exact List.all_eq_true.mp (List.all_eq_true.mp capital name listed) c member

end InstructionSet

namespace IdentifierClass

open InstructionSet Text

variable {text : List Char}

/-- The class of a text goes by its capitals. -/
theorem ofText_eq (text : List Char) :
    ofText text = if isOpcode (capitals text) then .opcode
      else if isRegister (capitals text) then .register else .plain := rfl

/-- Opcodes are the texts whose capitals are among the opcodes. -/
theorem ofText_eq_opcode_iff : ofText text = .opcode ↔ capitals text ∈ opcodes := by
  rw [ofText_eq, ← isOpcode_iff]
  split_ifs <;> simp [*]

/-- Registers are the texts whose capitals are among the registers: no opcode hides one. -/
theorem ofText_eq_register_iff : ofText text = .register ↔ capitals text ∈ registers := by
  rw [ofText_eq]
  split_ifs with opcode register
  · exact iff_of_false nofun (not_mem_registers _ (isOpcode_iff.mp opcode))
  · exact iff_of_true rfl (isRegister_iff.mp register)
  · exact iff_of_false nofun (register ∘ isRegister_iff.mpr)

/-- Plain are the texts whose capitals are unknown. -/
theorem ofText_eq_plain_iff : ofText text = .plain ↔ isKnown (capitals text) = false := by
  rw [ofText_eq, isKnown]
  split_ifs <;> simp [*]

/-- A text that is not plain consists of letters. -/
theorem isAlpha_of_ofText_ne_plain (named : ofText text ≠ .plain) {c : Char} (member : c ∈ text) :
    c.isAlpha = true := by
  rw [Ne, ofText_eq_plain_iff, Bool.not_eq_false] at named
  rw [← isUpper_toUpper]
  refine isUpper_of_isKnown named ?_
  rw [capitals, String.toList_ofList]
  exact List.mem_map_of_mem member

/-- A name is searched for among the opcodes by comparing bytes, and found exactly if it is one of
them. The class of a text says which table holds its capitals; no name is in both. Texts that differ
at most in the case of ASCII letters have the same class, and one with a character that is not in
ASCII, a dot, an underscore or a digit is plain. -/
theorem ofText_iff_mem_tables :
    (∀ name, isOpcode name = (opcodes[Bisection.border opcodes fun opcode =>
        decide (bytes opcode.toList < bytes name.toList)]? == some name)) ∧
      (∀ name, isOpcode name = true ↔ name ∈ opcodes) ∧
      (∀ name ∈ opcodes, name ∉ registers) ∧
      (∀ text, (ofText text = .opcode ↔ capitals text ∈ opcodes) ∧
        (ofText text = .register ↔ capitals text ∈ registers) ∧
        (ofText text = .plain ↔ capitals text ∉ opcodes ∧ capitals text ∉ registers)) ∧
      (∀ first second, List.Forall₂ SameLetter first second → ofText first = ofText second) ∧
      ∀ text, ∀ c ∈ text, (128 ≤ c.toNat ∨ c = '.' ∨ c = '_' ∨ c.isDigit = true) →
        ofText text = .plain := by
  refine ⟨isOpcode_eq, fun _ => isOpcode_iff, not_mem_registers, ?_, ?_, ?_⟩
  · intro text
    refine ⟨ofText_eq_opcode_iff, ofText_eq_register_iff, ?_⟩
    rw [ofText_eq_plain_iff, ← Bool.not_eq_true, isKnown_iff, not_or]
  · intro first second same
    rw [ofText_eq, ofText_eq, capitals_eq_capitals_iff.mpr same]
  · intro text c member other
    by_contra named
    have letter := isAlpha_of_ofText_ne_plain named member
    rw [isAlpha_eq_false other] at letter
    contradiction

/-- A mnemonic that starts like a shorter one is found, and has its class in any case; with a dot
behind it, it is plain. -/
theorem ofText_iff_mem_tables_cmp :
    "CMP" ∈ opcodes ∧ isOpcode "CMP" = true ∧ "CMP" ∉ registers ∧
      ofText ['c', 'M', 'p'] = .opcode ∧
      List.Forall₂ SameLetter ['c', 'M', 'p'] ['C', 'm', 'p'] ∧
      ofText ['c', 'M', 'p'] = ofText ['C', 'm', 'p'] ∧
      '.' ∈ ['c', 'm', 'p', '.'] ∧ ofText ['c', 'm', 'p', '.'] = .plain := by
  obtain ⟨_, found, disjoint, classes, cased, plain⟩ := ofText_iff_mem_tables
  have opcode : "CMP" ∈ opcodes := Array.mem_toList_iff.mp (by decide)
  have same : List.Forall₂ SameLetter ['c', 'M', 'p'] ['C', 'm', 'p'] :=
    .cons (.inr (.inr (by decide))) (.cons (.inr (.inl (by decide))) (.cons (.inl rfl) .nil))
  have dot : '.' ∈ ['c', 'm', 'p', '.'] := by decide
  exact ⟨opcode, (found _).mpr opcode, disjoint _ opcode, (classes _).1.mpr opcode, same,
    cased _ _ same, dot, plain _ '.' dot (.inr (.inl rfl))⟩

end IdentifierClass

end Assembly8085
