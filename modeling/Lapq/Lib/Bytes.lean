import Mathlib.Data.List.Basic
import Mathlib.Tactic.Linarith

/-!
Byte lists as wire formats use them: big-endian integers of two and four
bytes, two's complement, strings ended by a NUL byte, and a read position that
moves over a list. The readers look at the head of a list; a position is used
by dropping that many bytes first, and `drop_add_of_drop_eq` moves it on.
-/

namespace Bytes

def be16 (n : Nat) : List UInt8 :=
  [UInt8.ofNat (n / 2 ^ 8), UInt8.ofNat n]

def be32 (n : Nat) : List UInt8 :=
  [UInt8.ofNat (n / 2 ^ 24), UInt8.ofNat (n / 2 ^ 16),
    UInt8.ofNat (n / 2 ^ 8), UInt8.ofNat n]

def read16 : List UInt8 → Option Nat
  | a :: b :: _ => some (a.toNat * 2 ^ 8 + b.toNat)
  | _ => none

def read32 : List UInt8 → Option Nat
  | a :: b :: c :: d :: _ =>
      some (a.toNat * 2 ^ 24 + b.toNat * 2 ^ 16 + c.toNat * 2 ^ 8 + d.toNat)
  | _ => none

/-- The bytes before the first NUL, if there is one. -/
def readCstr : List UInt8 → Option (List UInt8)
  | [] => none
  | b :: rest => if b = 0 then some [] else (readCstr rest).map (b :: ·)

def cstr (s : List UInt8) : List UInt8 := s ++ [0]

def NulFree (s : List UInt8) : Prop := ∀ b ∈ s, b ≠ 0

instance (s : List UInt8) : Decidable (NulFree s) :=
  List.decidableBAll (· ≠ 0) s

/-- Two's complement of width `w`: the bit pattern of an integer. -/
def pattern (w : Nat) (v : Int) : Nat := (v % 2 ^ w).toNat

/-- Two's complement of width 32: the integer of a bit pattern. -/
def signed32 (n : Nat) : Int := if n < 2 ^ 31 then n else n - 2 ^ 32

@[simp] theorem be16_length (n : Nat) : (be16 n).length = 2 := rfl

@[simp] theorem be32_length (n : Nat) : (be32 n).length = 4 := rfl

@[simp] theorem cstr_length (s : List UInt8) : (cstr s).length = s.length + 1 := by
  simp [cstr]

@[simp] theorem nulFree_nil : NulFree [] := by
  simp [NulFree]

@[simp] theorem nulFree_cons (b : UInt8) (s : List UInt8) :
    NulFree (b :: s) ↔ b ≠ 0 ∧ NulFree s := by
  simp [NulFree]

theorem read16_be16 (n : Nat) (rest : List UInt8) (hn : n < 2 ^ 16) :
    read16 (be16 n ++ rest) = some n := by
  simp only [be16, List.cons_append, List.nil_append, read16,
    UInt8.toNat_ofNat', Option.some.injEq]
  omega

theorem read32_be32 (n : Nat) (rest : List UInt8) (hn : n < 2 ^ 32) :
    read32 (be32 n ++ rest) = some n := by
  simp only [be32, List.cons_append, List.nil_append, read32,
    UInt8.toNat_ofNat', Option.some.injEq]
  omega

/-- Any four bytes are read as a number of which they are the form. -/
theorem read32_of_length {l : List UInt8} (hlength : l.length = 4) :
    ∃ n, n < 2 ^ 32 ∧ read32 l = some n ∧ be32 n = l := by
  obtain ⟨a, b, c, d, rfl⟩ : ∃ a b c d, l = [a, b, c, d] := by
    match l, hlength with
    | [a, b, c, d], _ => exact ⟨a, b, c, d, rfl⟩
  have ha := a.toNat_lt
  have hb := b.toNat_lt
  have hc := c.toNat_lt
  have hd := d.toNat_lt
  refine ⟨_, ?_, rfl, ?_⟩
  · omega
  · simp only [be32, List.cons.injEq, and_true, ← UInt8.toNat_inj, UInt8.toNat_ofNat']
    omega

/-- A number that is read is there in its form. -/
theorem read32_some {l : List UInt8} {n : Nat} (h : read32 l = some n) :
    n < 2 ^ 32 ∧ ∃ rest, l = be32 n ++ rest := by
  match l, h with
  | a :: b :: c :: d :: rest, h =>
      obtain ⟨m, hm, hread, hform⟩ := read32_of_length (l := [a, b, c, d]) rfl
      have hsame : m = n := Option.some.inj (hread.symm.trans h)
      subst hsame
      exact ⟨hm, rest, by rw [hform]; rfl⟩

theorem read16_some {l : List UInt8} {n : Nat} (h : read16 l = some n) :
    n < 2 ^ 16 ∧ ∃ rest, l = be16 n ++ rest := by
  match l, h with
  | a :: b :: rest, h =>
      cases h
      have ha := a.toNat_lt
      have hb := b.toNat_lt
      refine ⟨by omega, rest, ?_⟩
      simp only [be16, List.cons_append, List.nil_append, List.cons.injEq, and_true,
        ← UInt8.toNat_inj, UInt8.toNat_ofNat']
      omega

theorem readCstr_cstr (s rest : List UInt8) (hs : NulFree s) :
    readCstr (cstr s ++ rest) = some s := by
  induction s with
  | nil => simp [cstr, readCstr]
  | cons b s ih =>
      obtain ⟨hb, htail⟩ := (nulFree_cons b s).mp hs
      have hrest := ih htail
      simp only [cstr, List.cons_append, readCstr, hb, if_false] at hrest ⊢
      rw [hrest]
      rfl

theorem readCstr_some {l s : List UInt8} (h : readCstr l = some s) :
    NulFree s ∧ ∃ rest, l = cstr s ++ rest := by
  induction l generalizing s with
  | nil => cases h
  | cons b l ih =>
      rw [readCstr] at h
      split at h
      · rename_i hb
        cases h
        exact ⟨nulFree_nil, l, by rw [hb]; rfl⟩
      · rename_i hb
        obtain ⟨tail, htail, rfl⟩ := Option.map_eq_some_iff.mp h
        obtain ⟨hfree, rest, rfl⟩ := ih htail
        exact ⟨(nulFree_cons b tail).mpr ⟨hb, hfree⟩, rest, rfl⟩

theorem pattern_lt (w : Nat) (v : Int) : pattern w v < 2 ^ w := by
  have hpos : (0 : Int) < 2 ^ w := by positivity
  have hlt := Int.emod_lt_of_pos v hpos
  have hnonneg := Int.emod_nonneg v (ne_of_gt hpos)
  unfold pattern
  zify
  rw [Int.toNat_of_nonneg hnonneg]
  exact hlt

/-- A natural number below `2 ^ w` is its own bit pattern. -/
theorem pattern_natCast (w n : Nat) (hn : n < 2 ^ w) : pattern w (n : Int) = n := by
  unfold pattern
  have hmod : (n : Int) % 2 ^ w = n := by
    apply Int.emod_eq_of_lt (by omega)
    exact_mod_cast hn
  rw [hmod, Int.toNat_natCast]

theorem signed32_pattern (v : Int) (hlow : -2 ^ 31 ≤ v) (hhigh : v < 2 ^ 31) :
    signed32 (pattern 32 v) = v := by
  unfold signed32 pattern
  omega

theorem pattern_signed32 (n : Nat) (hn : n < 2 ^ 32) : pattern 32 (signed32 n) = n := by
  unfold signed32 pattern
  split
  · omega
  · omega

theorem signed32_bounds (n : Nat) (hn : n < 2 ^ 32) :
    -2 ^ 31 ≤ signed32 n ∧ signed32 n < 2 ^ 31 := by
  unfold signed32
  split
  · omega
  · omega

theorem signed32_of_lt (n : Nat) (hn : n < 2 ^ 31) : signed32 n = n := by
  unfold signed32
  rw [if_pos hn]

/-- Reading `x` at a position moves the position to what follows `x`. -/
theorem drop_add_of_drop_eq {α : Type} {buf x rest : List α} {pos : Nat}
    (h : buf.drop pos = x ++ rest) : buf.drop (pos + x.length) = rest := by
  rw [← List.drop_drop, h, List.drop_left]

end Bytes
