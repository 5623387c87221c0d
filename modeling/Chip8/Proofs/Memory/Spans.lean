import Chip8.Memory.Font

/-! Reading around the memory. Its end joins its start, so from any address there are as many bytes to
be read as one likes, the same 4096 over and over. A span counts its length as addresses count, in
sixteen bits: shorter lengths give all the bytes, and a longer one only those that are left once every
whole multiple of 65536 is taken off. -/
namespace Chip8.Memory

/-- The bytes that `len` steps around the memory meet, the first of them at `a`. -/
def Spans (m : Memory) (a : Address) (len : Nat) (bs : List UInt8) : Prop :=
  bs.length = len ∧ ∀ k < len, bs[k]? = m.cells[(a.toNat + k) % 4096]?

variable {m : Memory} {a : Address}

theorem Spans.unique {len : Nat} {bs cs : List UInt8} (hb : m.Spans a len bs)
    (hc : m.Spans a len cs) : bs = cs := by
  refine List.ext_getElem? fun k => ?_
  by_cases hk : k < len
  · rw [hb.2 k hk, hc.2 k hk]
  · have hk := Nat.le_of_not_lt hk
    rw [List.getElem?_eq_none (hb.1 ▸ hk), List.getElem?_eq_none (hc.1 ▸ hk)]

/-- The way around begins alike, however far it goes. -/
theorem Spans.take {len : Nat} {bs : List UInt8} (h : m.Spans a len bs) {n : Nat} (hn : n ≤ len) :
    m.Spans a n (bs.take n) := by
  constructor
  · rw [List.length_take, h.1, Nat.min_eq_left hn]
  · intro k hk
    rw [List.getElem?_take_of_lt hk]
    exact h.2 k (Nat.lt_of_lt_of_le hk hn)

theorem getElem?_cells (m : Memory) (a : Address) (k : Nat) :
    m.cells[(a.toNat + k) % 4096]? = some (m.read (a + UInt16.ofNat k)) := by
  rw [read_add]
  exact Vector.getElem?_eq_getElem _

theorem exists_spans (m : Memory) (a : Address) (len : Nat) : ∃ bs, m.Spans a len bs := by
  refine ⟨List.ofFn fun k : Fin len => m.read (a + UInt16.ofNat k),List.length_ofFn,?_⟩
  intro k hk
  rw [List.getElem?_ofFn, dif_pos hk, getElem?_cells]

theorem spans_span (m : Memory) (a : Address) (len : Nat) :
    m.Spans a (len % 65536) (m.span a len) := by
  refine ⟨m.length_span a len,?_⟩
  intro k hk
  rw [getElem?_span, if_pos hk, getElem?_cells, read_add]

/-- A span holds the bytes around the memory that it should if and only if its length fits into sixteen
bits. It always holds the bytes that the low sixteen bits of the length ask for, so of a length that does
not fit it gives the first of the bytes that it should and leaves out the others, whole turns around the
memory among them. -/
theorem spans_span_iff (m : Memory) (a : Address) (len : Nat) :
    (m.Spans a len (m.span a len) ↔ len < 65536) ∧
    m.Spans a (len % 65536) (m.span a len) ∧
    ∃ bs, m.Spans a len bs ∧ m.span a len = bs.take (len % 65536) := by
  have hspan := m.spans_span a len
  refine ⟨⟨?_,?_⟩,hspan,?_⟩
  · intro h
    have hlen : len % 65536 = len := hspan.1.symm.trans h.1
    rw [← hlen]
    exact Nat.mod_lt _ (by decide)
  · intro h
    rwa [Nat.mod_eq_of_lt h] at hspan
  · obtain ⟨bs,hbs⟩ := m.exists_spans a len
    exact ⟨bs,hbs,hspan.unique (hbs.take (Nat.mod_le _ _))⟩

/-- Sixteen turns around the memory are nothing at all, and one byte more is a single byte. -/
theorem not_spans_span_of_sixteen_turns :
    ¬ initial.Spans 0 65536 (initial.span 0 65536) ∧
    initial.span 0 65536 = [] ∧ initial.span 0 65537 = [0] := by
  have hempty : initial.span 0 65536 = [] := rfl
  refine ⟨?_,hempty,by decide +kernel⟩
  intro h
  have hlen := h.1
  rw [hempty] at hlen
  cases hlen

end Chip8.Memory
