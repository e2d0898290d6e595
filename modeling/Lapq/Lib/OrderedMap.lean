import Mathlib.Order.Basic

/-!
Ordered maps with unique keys, as the list of entries in key order. Insertion
keeps an entry that is already there, which is the `emplace` of ordered
associative containers.
-/

variable {κ ν : Type}

/-- The entries stand in strictly increasing key order, so no key repeats. -/
structure OrderedMap (κ ν : Type) [LT κ] where
  entries : List (κ × ν)
  sorted : entries.Pairwise (fun a b => a.1 < b.1)

namespace OrderedMap

section Insert

variable [LT κ] [DecidableLT κ]

/-- Put an entry in front of the first larger key. -/
def insertEntry (k : κ) (v : ν) : List (κ × ν) → List (κ × ν)
  | [] => [(k, v)]
  | e :: rest => if k < e.1 then (k, v) :: e :: rest else e :: insertEntry k v rest

theorem mem_insertEntry (k : κ) (v : ν) (l : List (κ × ν)) (e : κ × ν) :
    e ∈ insertEntry k v l ↔ e = (k, v) ∨ e ∈ l := by
  induction l with
  | nil => simp [insertEntry]
  | cons head rest ih =>
      unfold insertEntry
      split
      · simp
      · rw [List.mem_cons, ih, List.mem_cons]
        exact or_left_comm

/-- Insertion of a new key finds that key and leaves the others alone. -/
theorem lookup_insertEntry [DecidableEq κ] (k k' : κ) (v : ν) (l : List (κ × ν))
    (hnew : l.lookup k = none) :
    (insertEntry k v l).lookup k' = if k' = k then some v else l.lookup k' := by
  induction l with
  | nil =>
      by_cases h : k' = k
      · simp [insertEntry, h]
      · have hbeq : (k' == k) = false := beq_eq_false_iff_ne.mpr h
        simp [insertEntry, List.lookup_cons, h, hbeq]
  | cons head rest ih =>
      obtain ⟨hk, hv⟩ := head
      rw [List.lookup_cons] at hnew
      split at hnew
      · cases hnew
      · rename_i hne
        have hrest := ih hnew
        unfold insertEntry
        split
        · by_cases h : k' = k
          · simp [h]
          · have hbeq : (k' == k) = false := beq_eq_false_iff_ne.mpr h
            rw [if_neg h, List.lookup_cons, hbeq]
        · rw [List.lookup_cons, List.lookup_cons, hrest]
          by_cases h : k' = k
          · subst h
            simp [hne]
          · simp [h]

theorem sorted_insertEntry [LE κ] [Std.IsLinearOrder κ] [Std.LawfulOrderLT κ]
    [DecidableEq κ] (k : κ) (v : ν)
    (l : List (κ × ν)) (hnew : l.lookup k = none)
    (hsorted : l.Pairwise (fun a b => a.1 < b.1)) :
    (insertEntry k v l).Pairwise (fun a b => a.1 < b.1) := by
  induction l with
  | nil => simp [insertEntry]
  | cons head rest ih =>
      obtain ⟨hhead, hrest⟩ := List.pairwise_cons.mp hsorted
      rw [List.lookup_cons] at hnew
      split at hnew
      · cases hnew
      · rename_i hne
        unfold insertEntry
        split
        · rename_i hlt
          refine List.pairwise_cons.mpr ⟨?_, hsorted⟩
          intro e he
          rcases List.mem_cons.mp he with rfl | hmem
          · exact hlt
          · exact Std.lt_trans hlt (hhead e hmem)
        · rename_i hnlt
          have hgt : head.1 < k := by
            rcases Std.lt_trichotomy k head.1 with h | h | h
            · exact absurd h hnlt
            · simp [h] at hne
            · exact h
          refine List.pairwise_cons.mpr ⟨?_, ih hnew hrest⟩
          intro e he
          rcases (mem_insertEntry k v rest e).mp he with rfl | hmem
          · exact hgt
          · exact hhead e hmem

end Insert

variable [LT κ]

def empty : OrderedMap κ ν := ⟨[], List.Pairwise.nil⟩

def find [DecidableEq κ] (m : OrderedMap κ ν) (k : κ) : Option ν := m.entries.lookup k

/-- Add an entry unless its key is already there. -/
def emplace [DecidableLT κ] [DecidableEq κ] [LE κ] [Std.IsLinearOrder κ]
    [Std.LawfulOrderLT κ] (m : OrderedMap κ ν) (k : κ) (v : ν) : OrderedMap κ ν :=
  if h : m.entries.lookup k = none then
    ⟨insertEntry k v m.entries, sorted_insertEntry k v m.entries h m.sorted⟩
  else m

variable [DecidableLT κ] [DecidableEq κ] [LE κ] [Std.IsLinearOrder κ] [Std.LawfulOrderLT κ]

/-- The first value given to a key is the one that stays. -/
theorem find_emplace (m : OrderedMap κ ν) (k k' : κ) (v : ν) :
    (m.emplace k v).find k' =
      if k' = k then some ((m.find k).getD v) else m.find k' := by
  unfold emplace find
  split
  · rename_i hnew
    rw [lookup_insertEntry k k' v m.entries hnew, hnew]
    rfl
  · rename_i hold
    obtain ⟨old, hfound⟩ := Option.ne_none_iff_exists'.mp hold
    by_cases h : k' = k
    · subst h
      simp [hfound]
    · simp [h]

theorem find_emplace_of_some (m : OrderedMap κ ν) (k k' : κ) (v old : ν)
    (hold : m.find k' = some old) : (m.emplace k v).find k' = some old := by
  rw [find_emplace]
  split
  · rename_i h
    rw [← h, hold]
    rfl
  · exact hold

omit [DecidableLT κ] [Std.IsLinearOrder κ] in
/-- A key is found with the value of its entry, since it has one entry only. -/
theorem find_eq_some_iff (m : OrderedMap κ ν) (k : κ) (v : ν) :
    m.find k = some v ↔ (k, v) ∈ m.entries := by
  obtain ⟨entries, hsorted⟩ := m
  change entries.lookup k = some v ↔ (k, v) ∈ entries
  induction entries with
  | nil => simp
  | cons head rest ih =>
      obtain ⟨hhead, hrest⟩ := List.pairwise_cons.mp hsorted
      obtain ⟨k', v'⟩ := head
      have hrec := ih hrest
      rw [List.lookup_cons, List.mem_cons, Prod.mk.injEq]
      by_cases h : k = k'
      · subst h
        have hnot : (k, v) ∉ rest := fun hmem => Std.lt_irrefl (hhead (k, v) hmem)
        simp [hnot, eq_comm]
      · have hbeq : (k == k') = false := beq_eq_false_iff_ne.mpr h
        rw [hbeq]
        simpa [h] using hrec

end OrderedMap
