import Chip8.Instruction.Decode
import Chip8.Instruction.Mnemonic
import Mathlib.Data.List.Basic
import Mathlib.Data.Nat.Digits.Defs

/-! Assembler lines read backwards. The digits of a numeral give its number back, the text of an
operand gives the operand back, and the parts of a line are what stands between its blanks.
Instructions that are written with the same operands have operations of different names, so a line
is the line of one instruction only. -/
namespace Chip8

/-- The value of a digit as numerals write it, in upper case. -/
def hexDigitValue (c : Char) : Nat :=
  if c.isDigit then c.toNat - '0'.toNat else c.toNat - 'A'.toNat + 10

/-- The number that hexadecimal digits stand for. -/
def ofHexDigits (cs : List Char) : Nat := cs.foldl (fun n c => 16*n + hexDigitValue c) 0

theorem hexDigitValue_digitChar : ∀ d < 16, hexDigitValue d.digitChar.toUpper = d := by decide

theorem ofHexDigits_concat (cs : List Char) (c : Char) :
    ofHexDigits (cs ++ [c]) = 16*ofHexDigits cs + hexDigitValue c := by
  simp [ofHexDigits]

theorem ofHexDigits_toDigits (n : Nat) :
    ofHexDigits ((Nat.toDigits 16 n).map Char.toUpper) = n := by
  induction n using Nat.strongRecOn with
  | ind n ih =>
    by_cases h : n < 16
    · rw [Nat.toDigits_of_lt_base h]
      simp [ofHexDigits, hexDigitValue_digitChar n h]
    · rw [Nat.toDigits_of_base_le (by decide) (by omega), List.map_append, List.map_singleton,
        ofHexDigits_concat, ih (n/16) (by omega), hexDigitValue_digitChar _ (by omega)]
      omega

theorem ofHexDigits_hexDigits (width n : Nat) : ofHexDigits (hexDigits width n) = n := by
  have hzero : ∀ k, (List.replicate k '0').foldl (fun n c => 16*n + hexDigitValue c) 0 = 0 := by
    intro k
    induction k with
    | zero => rfl
    | succ k ih => exact ih
  rw [hexDigits, List.leftpad, ofHexDigits, List.foldl_append, hzero]
  exact ofHexDigits_toDigits n

theorem mem_toDigits {n : Nat} {c : Char} (h : c ∈ Nat.toDigits 16 n) :
    ∃ d < 16, c = d.digitChar := by
  induction n using Nat.strongRecOn with
  | ind n ih =>
    by_cases hn : n < 16
    · rw [Nat.toDigits_of_lt_base hn, List.mem_singleton] at h
      exact ⟨n,hn,h⟩
    · rw [Nat.toDigits_of_base_le (by decide) (by omega), List.mem_append,
        List.mem_singleton] at h
      obtain h | h := h
      · exact ih (n/16) (by omega) h
      · exact ⟨n % 16,by omega,h⟩

theorem mem_hexDigits {width n : Nat} {c : Char} (h : c ∈ hexDigits width n) :
    ∃ d < 16, c = d.digitChar.toUpper := by
  rw [hexDigits, List.leftpad, List.mem_append, List.mem_map] at h
  obtain h | ⟨c',h,rfl⟩ := h
  · exact ⟨0,by decide,List.eq_of_mem_replicate h⟩
  · obtain ⟨d,hd,rfl⟩ := mem_toDigits h
    exact ⟨d,hd,rfl⟩

theorem length_hexDigits_of_lt {width n : Nat} (hwidth : 0 < width) (h : n < 16^width) :
    (hexDigits width n).length = width := by
  have := (Nat.length_toDigits_le_iff (by decide) hwidth).mpr h
  simp only [hexDigits, List.leftpad, List.length_append, List.length_replicate, List.length_map]
  omega

namespace Operand

/-- What is left of an operand once it is written down: a whole word looks like the address that it
makes. -/
def asWritten : Operand → Operand
  | .word w => .address w
  | o => o

/-- The operand with the given text. Two digits after the mark of hexadecimal numerals are a byte,
more are an address; what has none of the other forms is a count. -/
def ofText : List Char → Operand
  | 'V' :: ds => .register (.ofNat (ofHexDigits ds))
  | '0' :: 'x' :: ds =>
    if ds.length = 2 then .byte (.ofNat (ofHexDigits ds)) else .address (.ofNat (ofHexDigits ds))
  | ['I'] => .index
  | ['[','I',']'] => .atIndex
  | ['D','T'] => .delay
  | ['S','T'] => .sound
  | ['K'] => .key
  | ['F'] => .font
  | ['B'] => .decimal
  | ds => .count (.ofNat (Nat.ofDigitChars 10 ds 0))

theorem ofText_register (r : UInt8) : ofText (register r).text.toList = .register r := by
  have htext : (register r).text.toList = 'V' :: hexDigits 1 r.toNat := by simp [text]
  rw [htext, ofText, ofHexDigits_hexDigits, UInt8.ofNat_toNat]

theorem ofText_byte (n : UInt8) : ofText (byte n).text.toList = .byte n := by
  have htext : (byte n).text.toList = '0' :: 'x' :: hexDigits 2 n.toNat := by simp [text]
  rw [htext, ofText, if_pos (length_hexDigits_of_lt (by decide) n.toNat_lt),
    ofHexDigits_hexDigits, UInt8.ofNat_toNat]

theorem ofText_hex (a : Address) (width : Nat) (hwidth : 2 < width) :
    ofText ("0x" ++ hex width a.toNat).toList = .address a := by
  have htext : ("0x" ++ hex width a.toNat).toList = '0' :: 'x' :: hexDigits width a.toNat := by simp
  have := width_le_length_hexDigits width a.toNat
  rw [htext, ofText, if_neg (by omega), ofHexDigits_hexDigits, UInt16.ofNat_toNat]

theorem ofText_count (n : UInt8) : ofText (count n).text.toList = .count n := by
  have hdigit : ∀ c ∈ Nat.toDigits 10 n.toNat, c.isDigit := fun _ =>
    Nat.isDigit_of_mem_toDigits (by decide) (by decide)
  rw [text, Nat.toList_repr]
  unfold ofText
  split
  -- a decimal numeral has none of the letters of the other forms
  case h_10 => rw [Nat.ofDigitChars_ten_toDigits, UInt8.ofNat_toNat]
  all_goals simp_all

theorem ofText_text (o : Operand) : ofText o.text.toList = o.asWritten := by
  cases o with
  | register r => exact ofText_register r
  | byte n => exact ofText_byte n
  | count n => exact ofText_count n
  | address a => exact ofText_hex a 3 (by decide)
  | word w => exact ofText_hex w 4 (by decide)
  | index | atIndex | delay | sound | key | font | decimal => rfl

/-- The characters that hold the parts of a line apart are in no operand. -/
theorem not_separator_of_mem_text (o : Operand) : ∀ c ∈ o.text.toList, c ≠ ',' ∧ c ≠ ' ' := by
  have hhex : ∀ width n, ∀ c ∈ hexDigits width n, c ≠ ',' ∧ c ≠ ' ' := by
    intro width n c h
    obtain ⟨d,hd,rfl⟩ := mem_hexDigits h
    exact (by decide : ∀ d < 16, d.digitChar.toUpper ≠ ',' ∧ d.digitChar.toUpper ≠ ' ') d hd
  have hdec : ∀ n, ∀ c ∈ Nat.toDigits 10 n, c ≠ ',' ∧ c ≠ ' ' := by
    intro n c h
    have := Nat.isDigit_of_mem_toDigits (by decide) (by decide) h
    constructor <;> rintro rfl <;> contradiction
  cases o with
  | register r => simpa [text] using hhex 1 r.toNat
  | byte n => simpa [text] using hhex 2 n.toNat
  | address a => simpa [text] using hhex 3 a.toNat
  | word w => simpa [text] using hhex 4 w.toNat
  | count n => simpa [text] using hdec n.toNat
  | index | atIndex | delay | sound | key | font | decimal => simp [text]

end Operand

/-- The parts of a line are what stands between its blanks; commas only make it easier to read. -/
def lineParts (line : String) : List (List Char) := (line.toList.filter (· ≠ ',')).splitOn ' '

theorem filter_part {p : List Char} (h : ',' ∉ p) : p.filter (· ≠ ',') = p := by
  rw [List.filter_eq_self]
  exact fun c hc => decide_eq_true (ne_of_mem_of_not_mem hc h)

theorem filter_intercalate {parts : List (List Char)} (h : ∀ p ∈ parts, ',' ∉ p) :
    ([',',' '].intercalate parts).filter (· ≠ ',') = [' '].intercalate parts := by
  induction parts with
  | nil => rfl
  | cons p parts ih =>
    cases parts with
    | nil => simpa using filter_part (h p (.head _))
    | cons q parts =>
      rw [List.intercalate_cons_cons, List.intercalate_cons_cons, List.filter_append,
        List.filter_append, filter_part (h p (.head _)), ih fun r hr => h r (.tail p hr)]
      rfl

namespace Instruction

theorem not_separator_of_mem_operation (i : Instruction) :
    ∀ c ∈ i.operation.toList, c ≠ ',' ∧ c ≠ ' ' := by
  cases i <;> simp [operation]

theorem filter_mnemonic (i : Instruction) :
    i.mnemonic.toList.filter (· ≠ ',') =
      [' '].intercalate (i.operation.toList :: i.operands.map (·.text.toList)) := by
  have hoperation : i.operation.toList.filter (· ≠ ',') = i.operation.toList :=
    filter_part fun h => (i.not_separator_of_mem_operation ',' h).1 rfl
  have hoperands : ∀ p ∈ i.operands.map (·.text.toList), ',' ∉ p := by
    simp only [List.forall_mem_map]
    exact fun o _ h => (o.not_separator_of_mem_text ',' h).1 rfl
  unfold mnemonic
  split
  · rename_i hnone
    rw [hnone, hoperation]
    exact List.intercalate_singleton.symm
  · rename_i hsome
    obtain ⟨o,os,h⟩ := List.exists_cons_of_ne_nil hsome
    have hline : (i.operation ++ " " ++ ", ".intercalate (i.operands.map Operand.text)).toList =
        i.operation.toList ++ [' '] ++ [',',' '].intercalate (i.operands.map (·.text.toList)) := by
      simp [String.toList_intercalate, Function.comp_def]
    rw [hline, List.filter_append, List.filter_append, hoperation, filter_intercalate hoperands,
      h, List.map_cons, List.intercalate_cons_cons]
    rfl

theorem lineParts_mnemonic (i : Instruction) :
    lineParts i.mnemonic = i.operation.toList :: i.operands.map (·.text.toList) := by
  rw [lineParts, filter_mnemonic, List.splitOn_intercalate _ _ (List.cons_ne_nil _ _)]
  simp only [List.forall_mem_cons, List.forall_mem_map]
  exact ⟨fun h => (i.not_separator_of_mem_operation ' ' h).2 rfl,
    fun o _ h => (o.not_separator_of_mem_text ' ' h).2 rfl⟩

/-- The instructions that are written with the given operands. -/
def writtenWith : List Operand → List Instruction
  | [] => [.clear,.ret]
  | [.address a] => [.native a,.jump a,.call a,.unknown a]
  | [.register x] => [.skipKey x,.skipNoKey x]
  | [.register x,.byte n] => [.skipEq x n,.skipNe x n,.set x n,.addConst x n,.random x n]
  | [.register x,.register y] =>
    [.skipEqReg x y,.skipNeReg x y,.copy x y,.or x y,.and x y,.xor x y,.add x y,.sub x y,
      .shiftRight x y,.subFrom x y,.shiftLeft x y]
  | [.register x,.register y,.count n] => [.draw x y n]
  | [.register _,.address a] => [.jumpOffset a]
  | [.register x,.delay] => [.readDelay x]
  | [.register x,.key] => [.waitKey x]
  | [.register x,.atIndex] => [.restore x]
  | [.index,.address a] => [.setIndex a]
  | [.index,.register x] => [.addIndex x]
  | [.delay,.register x] => [.setDelay x]
  | [.sound,.register x] => [.setSound x]
  | [.font,.register x] => [.glyph x]
  | [.decimal,.register x] => [.decimal x]
  | [.atIndex,.register x] => [.save x]
  | _ => []

/-- The name of the operation decides between the instructions with the same operands. -/
theorem find?_writtenWith (i : Instruction) :
    (writtenWith (i.operands.map Operand.asWritten)).find? (·.operation == i.operation) =
      some i := by
  cases i <;> simp [writtenWith, operands, operation, Operand.asWritten]

/-- The instruction with the given line. -/
def assemble? (line : String) : Option Instruction :=
  match lineParts line with
  | [] => none
  | name :: texts =>
    (writtenWith (texts.map Operand.ofText)).find? (·.operation == String.ofList name)

theorem assemble?_mnemonic (i : Instruction) : assemble? i.mnemonic = some i := by
  have hoperands : (i.operands.map (·.text.toList)).map Operand.ofText =
      i.operands.map Operand.asWritten := by
    simp [Operand.ofText_text]
  rw [assemble?, lineParts_mnemonic]
  simp only [hoperands, String.ofList_toList]
  exact i.find?_writtenWith

example : assemble? "LD V0, 0x0A" = some (.set 0 10) := by decide
example : assemble? "LD I, 0x00A" = some (.setIndex 10) := by decide

/-- A line is the line of one instruction only, whatever its operands, and the lines of two words
differ unless the words decode alike. -/
theorem mnemonic_eq_iff :
    (∀ i j : Instruction, i.mnemonic = j.mnemonic ↔ i = j) ∧
    ∀ v w : Word, (decode v).mnemonic = (decode w).mnemonic → decode v = decode w := by
  have hinj : ∀ i j : Instruction, i.mnemonic = j.mnemonic → i = j := by
    intro i j h
    have := j.assemble?_mnemonic
    rw [← h, i.assemble?_mnemonic] at this
    exact Option.some.inj this
  exact ⟨fun i j => ⟨hinj i j,congrArg mnemonic⟩,fun v w => hinj (decode v) (decode w)⟩

end Instruction
end Chip8
