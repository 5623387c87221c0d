import Chip8.Duration

/-! A length of time in machine words: whole seconds in 64 bits, and the nanoseconds over them in 32.
Sums carry from one to the other and differences borrow; both are those of the nanoseconds all told,
as long as the words can hold them. -/
namespace Chip8
namespace Duration

@[ext] structure Parts where
  secs : UInt64
  nanos : UInt32
  nanos_lt : nanos.toNat < nanosPerSecond
  deriving DecidableEq

/-- The machine words of a length of time. -/
def parts (d : Duration) : Parts where
  secs := UInt64.ofNat d.secs
  nanos := UInt32.ofNat d.subsecNanos
  nanos_lt := by
    rw [UInt32.toNat_ofNat_of_lt' (Nat.lt_trans d.subsecNanos_lt (by decide))]
    exact d.subsecNanos_lt

namespace Parts

def total (p : Parts) : Nat := p.secs.toNat * nanosPerSecond + p.nanos.toNat

theorem total_lt (p : Parts) : p.total < nanosLimit :=
  calc
    p.total < p.secs.toNat * nanosPerSecond + nanosPerSecond := Nat.add_lt_add_left p.nanos_lt _
    _ = (p.secs.toNat + 1) * nanosPerSecond := (Nat.succ_mul _ _).symm
    _ ≤ nanosLimit := Nat.mul_le_mul_right _ p.secs.toNat_lt

/-- The seconds and the nanoseconds are determined by what they come to. -/
theorem eq_of_total {p : Parts} {s n : Nat} (hn : n < nanosPerSecond)
    (h : p.total = s * nanosPerSecond + n) : p.secs.toNat = s ∧ p.nanos.toNat = n := by
  have hp := p.nanos_lt
  simp only [total, nanosPerSecond] at h hp hn
  omega

theorem ext_total {p q : Parts} (h : p.total = q.total) : p = q := by
  obtain ⟨hs,hn⟩ := eq_of_total q.nanos_lt h
  exact Parts.ext (UInt64.toNat_inj.mp hs) (UInt32.toNat_inj.mp hn)

def addSecs? (s t : UInt64) : Option UInt64 :=
  if s.toNat + t.toNat < UInt64.size then some (s+t) else none

def subSecs? (s t : UInt64) : Option UInt64 := if t ≤ s then some (s-t) else none

theorem addSecs?_eq_some_iff {s t u : UInt64} :
    addSecs? s t = some u ↔ u.toNat = s.toNat + t.toNat := by
  unfold addSecs?
  split
  · rename_i h
    rw [Option.some_inj, ← UInt64.toNat_inj, UInt64.toNat_add, Nat.mod_eq_of_lt h, eq_comm]
  · rename_i h
    have hu := u.toNat_lt
    simp only [reduceCtorEq, false_iff]
    exact fun hs => h (hs ▸ hu)

theorem subSecs?_eq_some_iff {s t u : UInt64} :
    subSecs? s t = some u ↔ u.toNat + t.toNat = s.toNat := by
  unfold subSecs?
  split
  · rename_i h
    have hle := UInt64.le_iff_toNat_le.mp h
    rw [Option.some_inj, ← UInt64.toNat_inj, UInt64.toNat_sub_of_le _ _ h]
    omega
  · rename_i h
    rw [UInt64.le_iff_toNat_le] at h
    simp only [reduceCtorEq, false_iff]
    omega

theorem le_of_addSecs?_eq_none {s t : UInt64} (h : addSecs? s t = none) :
    UInt64.size ≤ s.toNat + t.toNat := by simpa [addSecs?] using h

theorem lt_of_subSecs?_eq_none {s t : UInt64} (h : subSecs? s t = none) :
    s.toNat < t.toNat := by simpa [subSecs?, UInt64.lt_iff_toNat_lt] using h

/-- The nanoseconds of a whole second. -/
def second : UInt32 := UInt32.ofNat nanosPerSecond

theorem toNat_second : second.toNat = nanosPerSecond := by decide

theorem toNat_add_nanos (p q : Parts) :
    (p.nanos + q.nanos).toNat = p.nanos.toNat + q.nanos.toNat := by
  have hp := p.nanos_lt
  have hq := q.nanos_lt
  simp only [UInt32.toNat_add, nanosPerSecond] at hp hq ⊢
  omega

theorem toNat_carry {p q : Parts} (h : ¬ (p.nanos + q.nanos).toNat < nanosPerSecond) :
    (p.nanos + q.nanos - second).toNat + nanosPerSecond = p.nanos.toNat + q.nanos.toNat := by
  have hle := Nat.le_of_not_lt h
  rw [UInt32.toNat_sub_of_le _ _ (UInt32.le_iff_toNat_le.mpr (toNat_second ▸ hle)), toNat_second,
    Nat.sub_add_cancel hle, toNat_add_nanos]

theorem toNat_borrow (p q : Parts) :
    (p.nanos + second - q.nanos).toNat + q.nanos.toNat = p.nanos.toNat + nanosPerSecond := by
  have hp := p.nanos_lt
  have hq := q.nanos_lt
  have hs : (p.nanos + second).toNat = p.nanos.toNat + nanosPerSecond := by
    rw [UInt32.toNat_add, toNat_second]
    simp only [nanosPerSecond] at hp ⊢
    omega
  have hle : q.nanos ≤ p.nanos + second := by
    rw [UInt32.le_iff_toNat_le, hs]
    omega
  rw [UInt32.toNat_sub_of_le _ _ hle, hs]
  omega

/-- Adds the words, and carries a second if the nanoseconds fill one. -/
def add? (p q : Parts) : Option Parts :=
  let secs := addSecs? p.secs q.secs
  if h : (p.nanos + q.nanos).toNat < nanosPerSecond then
    secs.map fun s => ⟨s,p.nanos + q.nanos,h⟩
  else
    (secs.bind (addSecs? · 1)).map fun s => ⟨s,p.nanos + q.nanos - second,by
      have := toNat_carry h
      have := p.nanos_lt
      have := q.nanos_lt
      omega⟩

/-- Subtracts the words, and borrows a second if there are too few nanoseconds. -/
def sub? (p q : Parts) : Option Parts :=
  let secs := subSecs? p.secs q.secs
  if h : q.nanos ≤ p.nanos then
    secs.map fun s => ⟨s,p.nanos - q.nanos,by
      have := p.nanos_lt
      rw [UInt32.toNat_sub_of_le _ _ h]
      omega⟩
  else
    (secs.bind (subSecs? · 1)).map fun s => ⟨s,p.nanos + second - q.nanos,by
      have := toNat_borrow p q
      rw [UInt32.le_iff_toNat_le] at h
      omega⟩

theorem total_add? {p q r : Parts} (h : p.add? q = some r) : r.total = p.total + q.total := by
  unfold add? at h
  dsimp only at h
  split at h
  · simp only [Option.map_eq_some_iff, addSecs?_eq_some_iff] at h
    obtain ⟨s,hs,rfl⟩ := h
    simp only [total, hs, toNat_add_nanos, Nat.add_mul]
    omega
  · rename_i hc
    have hn := toNat_carry hc
    simp only [Option.map_eq_some_iff, Option.bind_eq_some_iff, addSecs?_eq_some_iff] at h
    obtain ⟨s,⟨t,ht,hs⟩,rfl⟩ := h
    simp only [total, hs, ht, Nat.add_mul, UInt64.toNat_one]
    omega

theorem total_sub? {p q r : Parts} (h : p.sub? q = some r) : r.total + q.total = p.total := by
  unfold sub? at h
  dsimp only at h
  split at h
  · rename_i hle
    have hn := UInt32.toNat_sub_of_le _ _ hle
    rw [UInt32.le_iff_toNat_le] at hle
    simp only [Option.map_eq_some_iff, subSecs?_eq_some_iff] at h
    obtain ⟨s,hs,rfl⟩ := h
    simp only [total, ← hs, Nat.add_mul]
    omega
  · have hn := toNat_borrow p q
    simp only [Option.map_eq_some_iff, Option.bind_eq_some_iff, subSecs?_eq_some_iff] at h
    obtain ⟨s,⟨t,ht,hs⟩,rfl⟩ := h
    simp only [total, ← ht, ← hs, Nat.add_mul, UInt64.toNat_one]
    omega

theorem limit_le_of_add?_eq_none {p q : Parts} (h : p.add? q = none) :
    nanosLimit ≤ p.total + q.total := by
  simp only [total, nanosLimit]
  unfold add? at h
  dsimp only at h
  split at h
  · have hs := le_of_addSecs?_eq_none (Option.map_eq_none_iff.mp h)
    have hm := Nat.mul_le_mul_right nanosPerSecond hs
    rw [Nat.add_mul] at hm
    omega
  · rename_i hc
    rw [toNat_add_nanos] at hc
    rw [Option.map_eq_none_iff] at h
    simp only [nanosPerSecond] at hc ⊢
    cases hs : addSecs? p.secs q.secs with
    | none =>
      have hle := le_of_addSecs?_eq_none hs
      omega
    | some s =>
      rw [hs] at h
      have hle := le_of_addSecs?_eq_none h
      rw [addSecs?_eq_some_iff.mp hs, UInt64.toNat_one] at hle
      omega

theorem lt_of_sub?_eq_none {p q : Parts} (h : p.sub? q = none) : p.total < q.total := by
  have hp := p.nanos_lt
  simp only [total, nanosPerSecond] at hp ⊢
  unfold sub? at h
  dsimp only at h
  split at h
  · have hs := lt_of_subSecs?_eq_none (Option.map_eq_none_iff.mp h)
    omega
  · rename_i hc
    rw [UInt32.le_iff_toNat_le] at hc
    rw [Option.map_eq_none_iff] at h
    cases hs : subSecs? p.secs q.secs with
    | none =>
      have hlt := lt_of_subSecs?_eq_none hs
      omega
    | some s =>
      rw [hs] at h
      have hlt := lt_of_subSecs?_eq_none h
      have ht := subSecs?_eq_some_iff.mp hs
      rw [UInt64.toNat_one] at hlt
      omega

end Parts

theorem total_parts (d : Duration) : d.parts.total = d.nanos := by
  have hs : (UInt64.ofNat d.secs).toNat = d.secs := UInt64.toNat_ofNat_of_lt' d.secs_lt
  have hn : (UInt32.ofNat d.subsecNanos).toNat = d.subsecNanos :=
    UInt32.toNat_ofNat_of_lt' (Nat.lt_trans d.subsecNanos_lt (by decide))
  simp only [Parts.total, parts, hs, hn]
  exact Nat.div_add_mod' d.nanos nanosPerSecond

theorem parts_add? (d e : Duration) : (d.add? e).map parts = d.parts.add? e.parts := by
  unfold add?
  split
  · rename_i hlt
    cases hr : d.parts.add? e.parts with
    | none =>
      have hle := Parts.limit_le_of_add?_eq_none hr
      rw [total_parts, total_parts] at hle
      omega
    | some r =>
      have ht := Parts.total_add? hr
      rw [total_parts, total_parts] at ht
      exact congrArg some (Parts.ext_total ((total_parts _).trans ht.symm))
  · rename_i hge
    cases hr : d.parts.add? e.parts with
    | none => rfl
    | some r =>
      have ht := Parts.total_add? hr
      rw [total_parts, total_parts] at ht
      exact absurd (ht ▸ r.total_lt) hge

theorem parts_sub? (d e : Duration) : (d.sub? e).map parts = d.parts.sub? e.parts := by
  unfold sub?
  split
  · rename_i hle
    cases hr : d.parts.sub? e.parts with
    | none =>
      have hlt := Parts.lt_of_sub?_eq_none hr
      rw [total_parts, total_parts] at hlt
      omega
    | some r =>
      have ht := Parts.total_sub? hr
      rw [total_parts, total_parts] at ht
      refine congrArg some (Parts.ext_total ((total_parts _).trans ?_))
      exact (Nat.eq_sub_of_add_eq ht).symm
  · rename_i hlt
    cases hr : d.parts.sub? e.parts with
    | none => rfl
    | some r =>
      have ht := Parts.total_sub? hr
      rw [total_parts, total_parts] at ht
      omega

end Duration
end Chip8
