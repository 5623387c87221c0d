import Chip8.Instruction.Decode

/-! Decoding read backwards: the digits that an instruction is written with. Every word is written
with the digits of the instruction it decodes to. An instruction leaves none of its digits open, but
for the last one of a register comparison, so decoding confuses no other words. -/
namespace Chip8

namespace Word

/-- The word is the digit `g` followed by the three digits of an address. -/
def ReadsNNN (w : Word) (g : Nat) (a : Address) : Prop :=
  a.toNat < 0x1000 ∧ w.toNat = 0x1000*g + a.toNat

/-- The word is the digit `g`, the digit that names a register, and the two digits of a byte. -/
def ReadsXNN (w : Word) (g : Nat) (x : UInt8) (b : Nat) : Prop :=
  x.toNat < 0x10 ∧ b < 0x100 ∧ w.toNat = 0x1000*g + 0x100*x.toNat + b

/-- The word is the digit `g`, the digits that name two registers, and one more digit. -/
def ReadsXYN (w : Word) (g : Nat) (x y : UInt8) (d : Nat) : Prop :=
  x.toNat < 0x10 ∧ y.toNat < 0x10 ∧ d < 0x10 ∧
    w.toNat = 0x1000*g + 0x100*x.toNat + 0x10*y.toNat + d

/-- Three groups have digits to spare, and the words with those digits encode no instruction. -/
def EncodesNothing (w : Word) : Prop :=
  (w.group = 0x8 ∧ w.toNat % 0x10 ∉ [0x0,0x1,0x2,0x3,0x4,0x5,0x6,0x7,0xE]) ∨
  (w.group = 0xE ∧ w.toNat % 0x100 ∉ [0x9E,0xA1]) ∨
  (w.group = 0xF ∧ w.toNat % 0x100 ∉ [0x07,0x0A,0x15,0x18,0x1E,0x29,0x33,0x55,0x65])

/-- The word has the digits that the instruction and its operands are written with. The comparisons
of two registers do not say what their last digit is. -/
def Encodes (w : Word) : Instruction → Prop
  | .clear => w.toNat = 0x00E0
  | .ret => w.toNat = 0x00EE
  | .native a => w.ReadsNNN 0x0 a ∧ w.toNat ≠ 0x00E0 ∧ w.toNat ≠ 0x00EE
  | .jump a => w.ReadsNNN 0x1 a
  | .call a => w.ReadsNNN 0x2 a
  | .skipEq x n => w.ReadsXNN 0x3 x n.toNat
  | .skipNe x n => w.ReadsXNN 0x4 x n.toNat
  | .skipEqReg x y => ∃ d, w.ReadsXYN 0x5 x y d
  | .set x n => w.ReadsXNN 0x6 x n.toNat
  | .addConst x n => w.ReadsXNN 0x7 x n.toNat
  | .copy x y => w.ReadsXYN 0x8 x y 0x0
  | .or x y => w.ReadsXYN 0x8 x y 0x1
  | .and x y => w.ReadsXYN 0x8 x y 0x2
  | .xor x y => w.ReadsXYN 0x8 x y 0x3
  | .add x y => w.ReadsXYN 0x8 x y 0x4
  | .sub x y => w.ReadsXYN 0x8 x y 0x5
  | .shiftRight x y => w.ReadsXYN 0x8 x y 0x6
  | .subFrom x y => w.ReadsXYN 0x8 x y 0x7
  | .shiftLeft x y => w.ReadsXYN 0x8 x y 0xE
  | .skipNeReg x y => ∃ d, w.ReadsXYN 0x9 x y d
  | .setIndex a => w.ReadsNNN 0xA a
  | .jumpOffset a => w.ReadsNNN 0xB a
  | .random x n => w.ReadsXNN 0xC x n.toNat
  | .draw x y n => w.ReadsXYN 0xD x y n.toNat
  | .skipKey x => w.ReadsXNN 0xE x 0x9E
  | .skipNoKey x => w.ReadsXNN 0xE x 0xA1
  | .readDelay x => w.ReadsXNN 0xF x 0x07
  | .waitKey x => w.ReadsXNN 0xF x 0x0A
  | .setDelay x => w.ReadsXNN 0xF x 0x15
  | .setSound x => w.ReadsXNN 0xF x 0x18
  | .addIndex x => w.ReadsXNN 0xF x 0x1E
  | .glyph x => w.ReadsXNN 0xF x 0x29
  | .decimal x => w.ReadsXNN 0xF x 0x33
  | .save x => w.ReadsXNN 0xF x 0x55
  | .restore x => w.ReadsXNN 0xF x 0x65
  | .unknown u => u = w ∧ w.EncodesNothing

section Group
variable {w : Word} {g : Nat} (h : w.group = g)
include h

theorem readsNNN_of_group : w.ReadsNNN g w.address := by
  rw [group_eq] at h
  rw [ReadsNNN, toNat_address]
  omega

theorem readsXNN_of_group : w.ReadsXNN g w.x w.byte.toNat := by
  rw [group_eq] at h
  rw [ReadsXNN, toNat_x, toNat_byte]
  omega

theorem readsXYN_of_group : w.ReadsXYN g w.x w.y w.nibble.toNat := by
  rw [group_eq] at h
  rw [ReadsXYN, toNat_x, toNat_y, toNat_nibble]
  omega

end Group

section Reads
variable {v w : Word} {g d b : Nat} {a : Address} {x y : UInt8}

theorem ReadsNNN.group_eq (h : w.ReadsNNN g a) : w.group = g := by
  obtain ⟨ha,hw⟩ := h
  rw [Word.group_eq]
  omega

theorem ReadsXNN.group_eq (h : w.ReadsXNN g x b) : w.group = g ∧ w.toNat % 0x100 = b := by
  obtain ⟨hx,hb,hw⟩ := h
  rw [Word.group_eq]
  omega

theorem ReadsXYN.group_eq (h : w.ReadsXYN g x y d) : w.group = g ∧ w.toNat % 0x10 = d := by
  obtain ⟨hx,hy,hd,hw⟩ := h
  rw [Word.group_eq]
  omega

theorem ReadsNNN.unique (hv : v.ReadsNNN g a) (hw : w.ReadsNNN g a) : v = w :=
  UInt16.toNat_inj.mp (hv.2.trans hw.2.symm)

theorem ReadsXNN.unique (hv : v.ReadsXNN g x b) (hw : w.ReadsXNN g x b) : v = w :=
  UInt16.toNat_inj.mp (hv.2.2.trans hw.2.2.symm)

theorem ReadsXYN.unique (hv : v.ReadsXYN g x y d) (hw : w.ReadsXYN g x y d) : v = w :=
  UInt16.toNat_inj.mp (hv.2.2.2.trans hw.2.2.2.symm)

end Reads

/-- Two words that are written with the digits of one instruction differ at most in a digit that the
instruction leaves open. -/
theorem Encodes.unique {v w : Word} {i : Instruction} (hv : v.Encodes i) (hw : w.Encodes i) :
    v = w ∨ ((v.group = 5 ∧ w.group = 5 ∨ v.group = 9 ∧ w.group = 9) ∧
      v.toNat / 16 = w.toNat / 16) := by
  cases i with
  | clear | ret => exact .inl (UInt16.toNat_inj.mp (Eq.trans hv hw.symm))
  | native a => exact .inl (hv.1.unique hw.1)
  | jump a | call a | setIndex a | jumpOffset a => exact .inl (ReadsNNN.unique hv hw)
  | copy x y | or x y | and x y | xor x y | add x y | sub x y | shiftRight x y | subFrom x y
  | shiftLeft x y | draw x y n => exact .inl (ReadsXYN.unique hv hw)
  | skipEqReg x y | skipNeReg x y =>
    obtain ⟨c,hc⟩ := hv
    obtain ⟨d,hd⟩ := hw
    right
    refine ⟨by simp [hc.group_eq, hd.group_eq],?_⟩
    obtain ⟨-,-,hlt,hv⟩ := hc
    obtain ⟨-,-,hlt',hw⟩ := hd
    omega
  | unknown u => exact .inl (hv.1.symm.trans hw.1)
  | _ => exact .inl (ReadsXNN.unique hv hw)

/-- A word with the digits of an instruction is none of those that encode nothing. -/
theorem Encodes.not_encodesNothing {w : Word} {i : Instruction} (h : w.Encodes i)
    (hi : ∀ u, i ≠ .unknown u) : ¬ w.EncodesNothing := by
  cases i with
  | clear | ret =>
    have hg := group_eq w
    rw [h] at hg
    simp [EncodesNothing, hg]
  | native a => simp [EncodesNothing, h.1.group_eq]
  | jump a | call a | setIndex a | jumpOffset a => simp [EncodesNothing, ReadsNNN.group_eq h]
  | copy x y | or x y | and x y | xor x y | add x y | sub x y | shiftRight x y | subFrom x y
  | shiftLeft x y | draw x y n => simp [EncodesNothing, ReadsXYN.group_eq h]
  | skipEqReg x y | skipNeReg x y =>
    obtain ⟨d,h⟩ := h
    simp [EncodesNothing, h.group_eq]
  | unknown u => exact absurd rfl (hi u)
  | _ => simp [EncodesNothing, ReadsXNN.group_eq h]

end Word

namespace Instruction

theorem encodes_decodeArithmetic {w : Word} (h : w.group = 0x8) :
    w.Encodes (decodeArithmetic w) := by
  have hw := Word.readsXYN_of_group h
  unfold decodeArithmetic
  split
  case h_10 =>
    refine ⟨rfl,.inl ⟨h,?_⟩⟩
    simp_all [← Word.toNat_nibble]
  all_goals
    rename_i hn
    rw [hn] at hw
    exact hw

theorem encodes_decodeRegister {w : Word} (h : w.group = 0xF) : w.Encodes (decodeRegister w) := by
  have hw := Word.readsXNN_of_group h
  unfold decodeRegister
  split
  case h_10 =>
    refine ⟨rfl,.inr (.inr ⟨h,?_⟩)⟩
    simp_all [← Word.toNat_byte]
  all_goals
    rename_i hb
    rw [hb] at hw
    exact hw

/-- Every word is written with the digits of the instruction it decodes to. -/
theorem encodes_decode (w : Word) : w.Encodes (decode w) := by
  unfold decode
  split
  case h_1 h =>
    by_cases hc : w = 0x00E0
    · rw [if_pos hc, hc]
      rfl
    · by_cases hr : w = 0x00EE
      · rw [if_neg hc, if_pos hr, hr]
        rfl
      · rw [if_neg hc, if_neg hr]
        rw [← UInt16.toNat_inj] at hc hr
        exact ⟨Word.readsNNN_of_group h,hc,hr⟩
  case h_2 h | h_3 h | h_11 h | h_12 h => exact Word.readsNNN_of_group h
  case h_4 h | h_5 h | h_7 h | h_8 h | h_13 h => exact Word.readsXNN_of_group h
  case h_6 h | h_10 h => exact ⟨_,Word.readsXYN_of_group h⟩
  case h_14 h => exact Word.readsXYN_of_group h
  case h_9 h => exact encodes_decodeArithmetic h
  case h_15 h =>
    have hw := Word.readsXNN_of_group h
    by_cases hk : w.byte = 0x9E
    · rw [if_pos hk]
      rwa [hk] at hw
    · by_cases hn : w.byte = 0xA1
      · rw [if_neg hk, if_pos hn]
        rwa [hn] at hw
      · rw [if_neg hk, if_neg hn]
        refine ⟨rfl,.inr (.inl ⟨h,?_⟩)⟩
        simp_all [← Word.toNat_byte, ← UInt8.toNat_inj]
  case h_16 =>
    -- no group is above fifteen
    have := w.toNat_lt
    have := w.group_eq
    simp only [imp_false] at *
    exact encodes_decodeRegister (by omega)

theorem decode_of_group_five {w : Word} (h : w.group = 5) : decode w = .skipEqReg w.x w.y := by
  simp only [decode, h]

theorem decode_of_group_nine {w : Word} (h : w.group = 9) : decode w = .skipNeReg w.x w.y := by
  simp only [decode, h]

/-- Decoding keeps every digit of a word but the last one of a register comparison: two words decode
to the same instruction only if they are equal or differ in that digit alone. A word decodes to
nothing known, and is then kept whole, exactly if it encodes no instruction. Every other word is
written with the digits of the instruction it decodes to: registers below sixteen, addresses below
4096, constants of one digit or two, each operand at its place. -/
theorem decode_keeps_digits (v w : Word) :
    (decode v = decode w ↔ v = w ∨
      ((v.group = 5 ∧ w.group = 5 ∨ v.group = 9 ∧ w.group = 9) ∧
        v.toNat / 16 = w.toNat / 16)) ∧
    (∀ u, decode w = .unknown u ↔ u = w ∧ w.EncodesNothing) ∧
    w.Encodes (decode w) := by
  have hw := encodes_decode w
  refine ⟨⟨?_,?_⟩,?_,hw⟩
  · intro h
    have hv := encodes_decode v
    rw [h] at hv
    exact hv.unique hw
  · rintro (rfl | ⟨hg,hd⟩)
    · rfl
    · have hx : v.x = w.x := by
        rw [← UInt8.toNat_inj, Word.toNat_x, Word.toNat_x]
        omega
      have hy : v.y = w.y := by
        rw [← UInt8.toNat_inj, Word.toNat_y, Word.toNat_y]
        omega
      obtain ⟨h,h'⟩ | ⟨h,h'⟩ := hg
      · rw [decode_of_group_five h, decode_of_group_five h', hx, hy]
      · rw [decode_of_group_nine h, decode_of_group_nine h', hx, hy]
  · intro u
    constructor
    · intro h
      rwa [h] at hw
    · rintro ⟨rfl,hn⟩
      by_cases hu : ∃ u', decode u = .unknown u'
      · obtain ⟨u',h⟩ := hu
        rw [h] at hw
        rw [h, hw.1]
      · exact absurd hn (hw.not_encodesNothing fun u' h => hu ⟨u',h⟩)

example : decode 0x5120 = decode 0x512F := by decide
example : decode 0x8120 ≠ decode 0x812F := by decide

end Instruction
end Chip8
