import Lapq.Lib.Bytes

/-!
Readers that take a value off the front of a byte list, and the rules by which
a reader gives back what an encoding put there. `Reads r x a` says that `r`
takes exactly `x` and gives `a`, whatever follows; every rule builds it for one
way of composing readers from the same way of composing encodings. `Sized r size`
says how many bytes `r` has taken by the value that it gave.
-/

namespace Bytes

def Reader (α : Type) := List UInt8 → Option (α × List UInt8)

namespace Reader

variable {α β : Type}

instance : Monad Reader where
  pure a := fun bytes => some (a, bytes)
  bind r f := fun bytes =>
    match r bytes with
    | none => none
    | some (a, rest) => f a rest

def fail : Reader α := fun _ => none

/-- A value that may be missing, without a byte taken. -/
def ofOption : Option α → Reader α
  | some a => pure a
  | none => fail

def byte : Reader UInt8
  | [] => none
  | b :: rest => some (b, rest)

def u16 : Reader Nat := fun bytes => (read16 bytes).map fun n => (n, bytes.drop 2)

def u32 : Reader Nat := fun bytes => (read32 bytes).map fun n => (n, bytes.drop 4)

def cstring : Reader (List UInt8) := fun bytes =>
  (readCstr bytes).map fun s => (s, bytes.drop (s.length + 1))

def take (n : Nat) : Reader (List UInt8) := fun bytes =>
  if n ≤ bytes.length then some (bytes.take n, bytes.drop n) else none

def times (r : Reader α) : Nat → Reader (List α)
  | 0 => pure []
  | n + 1 => do
      let a ← r
      let l ← times r n
      pure (a :: l)

/-- An item and those that follow it, or the end. -/
def consOrEnd (more : Reader (List α)) : Option α → Reader (List α)
  | none => pure []
  | some a => do
      let l ← more
      pure (a :: l)

/-- Items up to the one that says it is the end, at most `n` of them. -/
def untilNone (r : Reader (Option α)) : Nat → Reader (List α)
  | 0 => fail
  | n + 1 => r >>= consOrEnd (untilNone r n)

/-- As many items as the input can hold. -/
def many (r : Reader (Option α)) : Reader (List α) := fun bytes =>
  untilNone r (bytes.length + 1) bytes

/-- The value of a reader that takes the whole input. -/
def whole (r : Reader α) (bytes : List UInt8) : Option α :=
  match r bytes with
  | some (a, []) => some a
  | _ => none

/-- Items up to the end of the input. The reader knows which item it is at. -/
def exhaust (r : Nat → Reader α) : Nat → Nat → List UInt8 → Option (List α)
  | 0, _, _ => none
  | _ + 1, _, [] => some []
  | n + 1, k, bytes => do
      let (a, rest) ← r k bytes
      let l ← exhaust r n (k + 1) rest
      pure (a :: l)

/-- Items as long as they have come in whole. The reader knows which item it is at. -/
def arrived (r : Nat → Reader α) : Nat → Nat → List UInt8 → List α
  | 0, _, _ => []
  | n + 1, k, bytes =>
      match r k bytes with
      | none => []
      | some (a, rest) => a :: arrived r n (k + 1) rest

end Reader

def Reads {α : Type} (r : Reader α) (x : List UInt8) (a : α) : Prop :=
  ∀ rest, r (x ++ rest) = some (a, rest)

namespace Reads

variable {α β : Type} {r : Reader α}

theorem pure (a : α) : Reads (Pure.pure a) [] a := by
  intro rest
  rfl

theorem bind {f : α → Reader β} {x y : List UInt8} {a : α} {b : β}
    (hr : Reads r x a) (hf : Reads (f a) y b) : Reads (r >>= f) (x ++ y) b := by
  intro rest
  have hfirst := hr (y ++ rest)
  have hsecond := hf rest
  rw [List.append_assoc]
  change (match r (x ++ (y ++ rest)) with
    | none => none
    | some (a, rest) => f a rest) = some (b, rest)
  rw [hfirst]
  exact hsecond

/-- The last reader of a chain, whose value is returned. -/
theorem map {x : List UInt8} {a : α} (hr : Reads r x a) (g : α → β) :
    Reads (r >>= fun a => Pure.pure (g a)) x (g a) := by
  have hbind := bind (f := fun a => Pure.pure (g a)) hr (pure (g a))
  rwa [List.append_nil] at hbind

theorem byte (b : UInt8) : Reads Reader.byte [b] b := by
  intro rest
  rfl

theorem u16 (n : Nat) (hn : n < 2 ^ 16) : Reads Reader.u16 (be16 n) n := by
  intro rest
  rw [Reader.u16, read16_be16 n rest hn]
  rfl

theorem u32 (n : Nat) (hn : n < 2 ^ 32) : Reads Reader.u32 (be32 n) n := by
  intro rest
  rw [Reader.u32, read32_be32 n rest hn]
  rfl

theorem cstring (s : List UInt8) (hs : NulFree s) : Reads Reader.cstring (cstr s) s := by
  intro rest
  rw [Reader.cstring, readCstr_cstr s rest hs, Option.map_some]
  rw [← cstr_length s, List.drop_left]

theorem take (x : List UInt8) : Reads (Reader.take x.length) x x := by
  intro rest
  rw [Reader.take, if_pos (by simp), List.take_left, List.drop_left]

theorem times {γ : Type} {encode : γ → List UInt8} (value : γ → α) (l : List γ)
    (hitem : ∀ c ∈ l, Reads r (encode c) (value c)) :
    Reads (Reader.times r l.length) (l.flatMap encode) (l.map value) := by
  induction l with
  | nil => exact pure []
  | cons c l ih =>
      have hfirst := hitem c List.mem_cons_self
      have hrest := ih fun c hc => hitem c (List.mem_cons_of_mem _ hc)
      exact bind hfirst (map hrest (value c :: ·))

theorem untilNone {γ : Type} {r : Reader (Option α)} {encode : γ → List UInt8}
    (value : γ → α) {stop : List UInt8} (l : List γ) (n : Nat) (hn : l.length < n)
    (hitem : ∀ c ∈ l, Reads r (encode c) (some (value c))) (hstop : Reads r stop none) :
    Reads (Reader.untilNone r n) (l.flatMap encode ++ stop) (l.map value) := by
  induction l generalizing n with
  | nil =>
      obtain ⟨m, rfl⟩ := Nat.exists_eq_succ_of_ne_zero (Nat.ne_of_gt hn)
      have hbind := bind (f := Reader.consOrEnd (Reader.untilNone r m)) hstop (pure [])
      rwa [List.append_nil] at hbind
  | cons c l ih =>
      obtain ⟨m, rfl⟩ := Nat.exists_eq_succ_of_ne_zero (Nat.ne_of_gt (Nat.zero_lt_of_lt hn))
      have hfirst := hitem c List.mem_cons_self
      have hrest := ih m (by simpa using hn) fun c hc => hitem c (List.mem_cons_of_mem _ hc)
      have hbind := bind (f := Reader.consOrEnd (Reader.untilNone r m)) hfirst
        (map hrest (value c :: ·))
      rwa [← List.append_assoc] at hbind

theorem many {γ : Type} {r : Reader (Option α)} {encode : γ → List UInt8}
    (value : γ → α) {stop : List UInt8} (l : List γ)
    (hitem : ∀ c ∈ l, Reads r (encode c) (some (value c))) (hstop : Reads r stop none)
    (hlength : ∀ c ∈ l, 0 < (encode c).length) :
    Reads (Reader.many r) (l.flatMap encode ++ stop) (l.map value) := by
  intro rest
  have hlen : l.length ≤ (l.flatMap encode).length := by
    induction l with
    | nil => simp
    | cons c l ih =>
        have hhead := hlength c List.mem_cons_self
        have htail := ih (fun c hc => hitem c (List.mem_cons_of_mem _ hc))
          (fun c hc => hlength c (List.mem_cons_of_mem _ hc))
        simp only [List.length_cons, List.flatMap_cons, List.length_append]
        omega
  apply untilNone value l _ ?_ hitem hstop
  simp only [List.length_append]
  omega

theorem whole {x : List UInt8} {a : α} (hr : Reads r x a) : Reader.whole r x = some a := by
  have hall := hr []
  rw [List.append_nil] at hall
  simp [Reader.whole, hall]

/-- A stream of encodings, each read by the reader for its place. -/
theorem exhaust {γ : Type} {r : Nat → Reader α} {encode : γ → List UInt8} {value : γ → α}
    (l : List γ) (n k : Nat) (hn : l.length < n)
    (hitem : ∀ i c, l[i]? = some c → Reads (r (k + i)) (encode c) (value c))
    (hlength : ∀ c ∈ l, encode c ≠ []) :
    Reader.exhaust r n k (l.flatMap encode) = some (l.map value) := by
  induction l generalizing n k with
  | nil =>
      obtain ⟨m, rfl⟩ := Nat.exists_eq_succ_of_ne_zero (Nat.ne_of_gt hn)
      rfl
  | cons c l ih =>
      obtain ⟨m, rfl⟩ := Nat.exists_eq_succ_of_ne_zero (Nat.ne_of_gt (Nat.zero_lt_of_lt hn))
      have hfirst := hitem 0 c rfl (l.flatMap encode)
      have hrest := ih m (k + 1) (by simpa using hn)
        (fun i c hc => by
          simpa [Nat.add_assoc, Nat.add_comm 1] using hitem (i + 1) c (by simpa using hc))
        (fun c hc => hlength c (List.mem_cons_of_mem _ hc))
      have hne := hlength c List.mem_cons_self
      rw [List.flatMap_cons]
      cases hbytes : encode c ++ l.flatMap encode with
      | nil => exact absurd (List.append_eq_nil_iff.mp hbytes).1 hne
      | cons b bytes =>
          rw [← hbytes, Reader.exhaust]
          · rw [Nat.add_zero] at hfirst
            simp [hfirst, hrest]
          · rw [hbytes]
            simp

end Reads

/-- The value that was read says how many bytes were taken for it. -/
def Sized {α : Type} (r : Reader α) (size : α → Nat) : Prop :=
  ∀ x a rest, r x = some (a, rest) → x.length = size a + rest.length

theorem Reader.bind_inv {α β : Type} {r : Reader α} {f : α → Reader β} {x rest : List UInt8}
    {b : β} (h : (r >>= f) x = some (b, rest)) :
    ∃ a mid, r x = some (a, mid) ∧ f a mid = some (b, rest) := by
  change (match r x with
    | none => none
    | some (a, mid) => f a mid) = some (b, rest) at h
  split at h
  · cases h
  · rename_i a mid hr
    exact ⟨a, mid, hr, h⟩

namespace Sized

variable {α β : Type} {r : Reader α} {size : α → Nat}

/-- The rest of a reader, after a value that was read, counts it in. -/
theorem bind {f : α → Reader β} {total : β → Nat} (hr : Sized r size)
    (hf : ∀ a x b rest, f a x = some (b, rest) → size a + x.length = total b + rest.length) :
    Sized (r >>= f) total := by
  intro x b rest h
  obtain ⟨a, mid, hfirst, hrest⟩ := Reader.bind_inv h
  rw [hr x a mid hfirst]
  exact hf a mid b rest hrest

theorem u16 : Sized Reader.u16 fun _ => 2 := by
  intro x n rest h
  obtain ⟨m, hread, hpair⟩ := Option.map_eq_some_iff.mp h
  cases hpair
  obtain ⟨_, tail, rfl⟩ := read16_some hread
  simp only [List.length_append, be16_length, List.length_drop]
  omega

theorem u32 : Sized Reader.u32 fun _ => 4 := by
  intro x n rest h
  obtain ⟨m, hread, hpair⟩ := Option.map_eq_some_iff.mp h
  cases hpair
  obtain ⟨_, tail, rfl⟩ := read32_some hread
  simp only [List.length_append, be32_length, List.length_drop]
  omega

theorem cstring : Sized Reader.cstring fun s => s.length + 1 := by
  intro x s rest h
  obtain ⟨t, hread, hpair⟩ := Option.map_eq_some_iff.mp h
  cases hpair
  obtain ⟨_, tail, rfl⟩ := readCstr_some hread
  simp only [List.length_append, cstr_length, List.length_drop]
  omega

theorem take (n : Nat) : Sized (Reader.take n) List.length := by
  intro x a rest h
  unfold Reader.take at h
  split at h
  · cases h
    rw [List.length_take, List.length_drop]
    omega
  · cases h

theorem times (hr : Sized r size) (n : Nat) :
    Sized (Reader.times r n) fun l => (l.map size).sum := by
  induction n with
  | zero =>
      intro x l rest h
      cases h
      simp
  | succ n ih =>
      apply bind hr
      intro a x l rest h
      obtain ⟨tail, mid, htail, hpure⟩ := Reader.bind_inv h
      cases hpure
      have hlength : x.length = (tail.map size).sum + rest.length := ih x tail _ htail
      simp only [List.map_cons, List.sum_cons]
      omega

/-- The value of a reader that takes the whole input says how long it is. -/
theorem whole (hr : Sized r size) {x : List UInt8} {a : α}
    (h : Reader.whole r x = some a) : x.length = size a := by
  unfold Reader.whole at h
  split at h
  · rename_i b hb
    cases h
    exact hr x a [] hb
  · cases h

end Sized

/-- What a reader makes of its input is not changed by what follows it. -/
def Local {α : Type} (r : Reader α) : Prop :=
  ∀ x a rest more, r x = some (a, rest) → r (x ++ more) = some (a, rest ++ more)

namespace Local

variable {α β : Type} {r : Reader α}

theorem pure (a : α) : Local (Pure.pure a) := by
  intro x b rest more h
  cases h
  rfl

theorem fail : Local (Reader.fail : Reader α) := by
  intro x a rest more h
  cases h

theorem bind {f : α → Reader β} (hr : Local r) (hf : ∀ a, Local (f a)) : Local (r >>= f) := by
  intro x b rest more h
  obtain ⟨a, mid, hfirst, hrest⟩ := Reader.bind_inv h
  change (match r (x ++ more) with
    | none => none
    | some (a, mid) => f a mid) = some (b, rest ++ more)
  rw [hr x a mid more hfirst]
  exact hf a mid b rest more hrest

theorem byte : Local Reader.byte := by
  intro x b rest more h
  cases x with
  | nil => cases h
  | cons c x =>
      cases h
      rfl

theorem u32 : Local Reader.u32 := by
  intro x n rest more h
  obtain ⟨m, hread, hpair⟩ := Option.map_eq_some_iff.mp h
  cases hpair
  obtain ⟨hm, tail, rfl⟩ := read32_some hread
  have hdrop (y : List UInt8) : (be32 n ++ y).drop 4 = y := List.drop_left' (be32_length n)
  rw [Reader.u32, List.append_assoc, read32_be32 n _ hm, Option.map_some, hdrop, hdrop]

theorem take (n : Nat) : Local (Reader.take n) := by
  intro x a rest more h
  unfold Reader.take at h ⊢
  split at h
  · rename_i hlength
    cases h
    rw [if_pos (by simp; omega), List.take_append_of_le_length hlength,
      List.drop_append_of_le_length hlength]
  · cases h

/-- An encoding that is cut short is not read. -/
theorem short (hlocal : Local r) {x y : List UInt8} {a : α} (hr : Reads r x a) (hcut : y <+: x)
    (hne : y ≠ x) : r y = none := by
  cases hread : r y with
  | none => rfl
  | some pair =>
      obtain ⟨b, rest⟩ := pair
      obtain ⟨z, rfl⟩ := hcut
      have hall := hlocal y b rest z hread
      have hwhole := hr []
      rw [List.append_nil, hall] at hwhole
      have hz : z = [] := by
        have hnil := congrArg (Option.map Prod.snd) hwhole
        simp at hnil
        exact hnil.2
      rw [hz, List.append_nil] at hne
      exact absurd rfl hne

end Local

/-- Of a stream of encodings that has come in up to any byte, the first items are
read, and all of them once it is complete. -/
theorem Reads.arrived {α γ : Type} {r : Nat → Reader α} {encode : γ → List UInt8} {value : γ → α}
    (hlocal : ∀ k, Local (r k)) (hempty : ∀ k, r k [] = none) (l : List γ) (n k : Nat)
    (hitem : ∀ i c, l[i]? = some c → Reads (r (k + i)) (encode c) (value c))
    {bytes : List UInt8} (hbytes : bytes <+: l.flatMap encode) (hn : bytes.length < n) :
    ∃ first, first <+: l ∧ Reader.arrived r n k bytes = first.map value ∧
      (bytes = l.flatMap encode → first = l) := by
  induction l generalizing n k bytes with
  | nil =>
      cases List.prefix_nil.mp hbytes
      obtain ⟨m, rfl⟩ := Nat.exists_eq_succ_of_ne_zero (Nat.ne_of_gt hn)
      exact ⟨[], List.prefix_refl _, by simp [Reader.arrived, hempty], fun _ => rfl⟩
  | cons c l ih =>
      obtain ⟨m, rfl⟩ := Nat.exists_eq_succ_of_ne_zero (Nat.ne_of_gt (Nat.zero_lt_of_lt hn))
      have hfirst := hitem 0 c rfl
      rw [Nat.add_zero] at hfirst
      rw [List.flatMap_cons] at hbytes ⊢
      by_cases hwhole : encode c <+: bytes
      · obtain ⟨rest, rfl⟩ := hwhole
        have hrest : rest <+: l.flatMap encode := (List.prefix_append_right_inj _).mp hbytes
        have htaken : 0 < (encode c).length := by
          apply List.length_pos_iff.mpr
          intro hnil
          have hread := hfirst []
          rw [hnil, List.append_nil, hempty] at hread
          cases hread
        rw [List.length_append] at hn
        obtain ⟨first, hinit, hread, hall⟩ := ih m (k + 1)
          (fun i c hc => by
            simpa [Nat.add_assoc, Nat.add_comm 1] using hitem (i + 1) c (by simpa using hc))
          hrest (by omega)
        refine ⟨c :: first, List.cons_prefix_cons.mpr ⟨rfl, hinit⟩, ?_, ?_⟩
        · rw [Reader.arrived, hfirst rest, List.map_cons]
          exact congrArg (value c :: ·) hread
        · intro heq
          rw [hall (List.append_cancel_left heq)]
      · have hcut : bytes <+: encode c :=
          (List.prefix_or_prefix_of_prefix hbytes (List.prefix_append _ _)).resolve_right hwhole
        have hne : bytes ≠ encode c := fun heq => hwhole (heq ▸ List.prefix_refl _)
        refine ⟨[], List.nil_prefix, ?_, ?_⟩
        · rw [Reader.arrived, (hlocal k).short hfirst hcut hne]
          rfl
        · intro heq
          exact absurd (heq ▸ List.prefix_append _ _) hwhole

end Bytes
