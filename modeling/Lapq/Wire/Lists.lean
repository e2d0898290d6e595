import Lapq.Wire.Bounds
import Lapq.Wire.Frontend

/-!
The two lists inside messages that end or start in their own way: the fields of
an error or a notice, which go on to a NUL byte in place of a field type, and
the type OIDs of a statement, which follow a count. For the first, where the
loop over it ends; for the second, what its decoder makes of its encoder.
-/

namespace Lapq

open Bytes Backend

/-! The fields of an error or a notice. -/

/-- Fields, each a type byte and a text that a NUL byte ends, and a NUL byte
after the last of them. -/
def Terminated (p : Buffer) : Prop :=
  ∃ fields : List (SQLErrorField × Str),
    (∀ f ∈ fields, ValidErrorField f) ∧ p = fields.flatMap errorField ++ [0]

/-- Past its checks, a decoder is the loop. -/
theorem sqlError_deserialize_eq {type : MessageType} {header : Header} {buf : Buffer}
    (hpass : ¬ Rejected type header buf) :
    SQLError.deserialize type header buf =
      (SQLError.fieldLoop buf (buf.length + 1)).map fun r => (.success, r.1) := by
  have hcheck := mt (check_isError_iff type header buf).mp hpass
  rw [sqlError_deserialize_checked, if_neg hcheck]
  cases SQLError.fieldLoop buf (buf.length + 1) <;> rfl

/-- No list of fields with its terminator continues another one. -/
theorem terminated_unique {p q b : Buffer} (hp : Terminated p) (hq : Terminated q)
    (hpb : p <+: b) (hqb : q <+: b) : p = q := by
  obtain ⟨fields, hfields, rfl⟩ := hp
  obtain ⟨others, hothers, rfl⟩ := hq
  -- Both are what the loop reads when it has rounds for either.
  have hfirst := fieldLoop_of_start hfields hpb (fields.length + others.length + 1) (by omega)
  have hsecond := fieldLoop_of_start hothers hqb (fields.length + others.length + 1) (by omega)
  have hsame := hfirst.symm.trans hsecond
  simp only [Except.ok.injEq, Prod.mk.injEq] at hsame
  exact (List.prefix_of_prefix_length_le hpb hqb hsame.2.le).eq_of_length hsame.2

/-- Two NUL bytes at the end are enough, whatever comes before: the first of them
ends a text at the latest, and a NUL byte is left in place of a type. -/
theorem terminated_of_two_nuls (before : Buffer) :
    ∃ p, p <+: before ++ [0, 0] ∧ Terminated p := by
  induction hlen : before.length using Nat.strong_induction_on generalizing before with
  | _ n ih =>
    cases before with
    | nil => exact ⟨[0], by simp, [], by simp, rfl⟩
    | cons c rest =>
        by_cases hc : c = 0
        · exact ⟨[0], by simp [hc], [], by simp, rfl⟩
        by_cases hfree : NulFree rest
        · refine ⟨c :: rest ++ [0, 0], List.prefix_refl _, [(c, rest)], ?_, ?_⟩
          · intro f hf
            rw [List.mem_singleton.mp hf]
            exact ⟨hc, hfree⟩
          · simp [errorField, cstr]
        · -- The text ends inside, and what follows it is a shorter body.
          have hnul : (0 : UInt8) ∈ rest := by
            by_contra hnone
            exact hfree fun b hb hzero => hnone (hzero ▸ hb)
          obtain ⟨s, later, rfl, hfirst⟩ := List.eq_append_cons_of_mem hnul
          have hs : NulFree s := fun b hb hzero => hfirst (hzero ▸ hb)
          obtain ⟨p, ⟨suffix, hsuffix⟩, fields, hfields, rfl⟩ := ih later.length
            (by rw [← hlen]; simp; omega) later rfl
          refine ⟨((c, s) :: fields).flatMap errorField ++ [0], ⟨suffix, ?_⟩, (c, s) :: fields,
            ?_, rfl⟩
          · simp only [List.flatMap_cons, errorField, cstr, List.append_assoc, List.cons_append,
              List.nil_append] at hsuffix ⊢
            rw [hsuffix]
          · intro f hf
            rcases List.mem_cons.mp hf with rfl | hmem
            · exact ⟨hc, hs⟩
            · exact hfields f hmem

/-- A body that starts with terminated fields has rounds for all of them. -/
theorem fieldLoop_length {b p : Buffer} (hp : Terminated p) (hstart : p <+: b) :
    ∃ error, SQLError.fieldLoop b (b.length + 1) = .ok (error, p.length) := by
  obtain ⟨fields, hfields, rfl⟩ := hp
  exact ⟨_, fieldLoop_of_start hfields hstart _ (errorFields_lt hstart)⟩

theorem fieldLoop_terminated {b : Buffer} {rounds last : Nat} {error : SQLError}
    (h : SQLError.fieldLoop b rounds = .ok (error, last)) :
    last ≤ b.length ∧ Terminated (b.take last) := by
  obtain ⟨fields, hfields, _, hstart, _, rfl⟩ := fieldLoop_inv h
  refine ⟨hstart.length_le, fields, hfields, ?_⟩
  exact (List.prefix_iff_eq_take.mp hstart).symm

theorem fieldLoop_iff (b : Buffer) :
    (∃ rounds error last, SQLError.fieldLoop b rounds = .ok (error, last)) ↔
      ∃ p, p <+: b ∧ Terminated p := by
  constructor
  · intro ⟨rounds, error, last, h⟩
    exact ⟨b.take last, List.take_prefix last b, (fieldLoop_terminated h).2⟩
  · intro ⟨p, hstart, hp⟩
    obtain ⟨error, h⟩ := fieldLoop_length hp hstart
    exact ⟨_, error, _, h⟩

/-- What follows the bytes that were read makes no difference. -/
theorem fieldLoop_frame {b b' : Buffer} {rounds last : Nat} {error : SQLError}
    (h : SQLError.fieldLoop b rounds = .ok (error, last)) (hsame : b.take last <+: b') :
    SQLError.fieldLoop b' rounds = .ok (error, last) := by
  obtain ⟨fields, hfields, hcount, hstart, rfl, rfl⟩ := fieldLoop_inv h
  rw [← List.prefix_iff_eq_take.mp hstart] at hsame
  exact fieldLoop_of_start hfields hsame rounds hcount

/-- Without the last of these bytes the loop does not end inside the body. -/
theorem fieldLoop_short {b : Buffer} {rounds last : Nat} {error : SQLError}
    (h : SQLError.fieldLoop b rounds = .ok (error, last)) {k : Nat} (hk : k < last) (n : Nat)
    (r : SQLError × Nat) : SQLError.fieldLoop (b.take k) n ≠ .ok r := by
  intro hcut
  obtain ⟨hinside, hwhole⟩ := fieldLoop_terminated h
  obtain ⟨hshort, hpart⟩ := fieldLoop_terminated hcut
  have hstart : (b.take k).take r.2 <+: b := (List.take_prefix _ _).trans (List.take_prefix k b)
  have hequal := terminated_unique hpart hwhole hstart (List.take_prefix last b)
  have hlength := congrArg List.length hequal
  simp only [List.length_take] at hlength hshort
  omega

/-- A decoder past its checks ends inside the body exactly if the loop does. -/
theorem sqlError_ends_iff {type : MessageType} {header : Header} {b : Buffer}
    (hpass : ¬ Rejected type header b) :
    (∃ error, SQLError.deserialize type header b = .ok (.success, error)) ↔
      ∃ p, p <+: b ∧ Terminated p := by
  rw [sqlError_deserialize_eq hpass]
  constructor
  · intro ⟨error, h⟩
    cases hloop : SQLError.fieldLoop b (b.length + 1) with
    | error e =>
        rw [hloop] at h
        cases h
    | ok r => exact (fieldLoop_iff b).mp ⟨_, r.1, r.2, hloop⟩
  · intro ⟨p, hstart, hp⟩
    obtain ⟨error, hloop⟩ := fieldLoop_length hp hstart
    exact ⟨error, by rw [hloop]; rfl⟩

/-- Where the loop over the fields of a message ends: inside the body exactly if
the body starts with terminated fields, and then behind the shortest such start.
It reads these bytes, since what follows them makes no difference and without
the last of them it does not end. A body that ends in two NUL bytes has such a
start. Both decoders are this loop behind their checks. -/
theorem fieldLoop_ends_iff (b : Buffer) :
    ((∃ rounds error last, SQLError.fieldLoop b rounds = .ok (error, last)) ↔
      ∃ p, p <+: b ∧ Terminated p) ∧
    (∀ rounds error last, SQLError.fieldLoop b rounds = .ok (error, last) →
      last ≤ b.length ∧ Terminated (b.take last) ∧
      (∀ q, q <+: b → Terminated q → last ≤ q.length) ∧
      (∀ b', b.take last <+: b' → SQLError.fieldLoop b' rounds = .ok (error, last)) ∧
      ∀ k < last, ∀ n r, SQLError.fieldLoop (b.take k) n ≠ .ok r) ∧
    (∀ before, b = before ++ [0, 0] → ∃ p, p <+: b ∧ Terminated p) ∧
    (∀ header, ¬ Rejected ErrorResponse.mtype header b →
      ((∃ error, ErrorResponse.deserialize header b = .ok (.success, error)) ↔
        ∃ p, p <+: b ∧ Terminated p)) ∧
    (∀ header, ¬ Rejected NoticeResponse.mtype header b →
      ((∃ error, NoticeResponse.deserialize header b = .ok (.success, error)) ↔
        ∃ p, p <+: b ∧ Terminated p)) := by
  refine ⟨fieldLoop_iff b, ?_, ?_, fun header => sqlError_ends_iff, fun header =>
    sqlError_ends_iff⟩
  · intro rounds error last h
    obtain ⟨hinside, hwhole⟩ := fieldLoop_terminated h
    refine ⟨hinside, hwhole, ?_, fun b' => fieldLoop_frame h, fun k hk => fieldLoop_short h hk⟩
    intro q hq hterminated
    have hequal := terminated_unique hwhole hterminated (List.take_prefix last b) hq
    rw [← hequal, List.length_take]
    omega
  · intro before hbefore
    rw [hbefore]
    exact terminated_of_two_nuls before

/-! The type OIDs of a statement. -/

/-- The number that the four bytes of `v` are in reverse. -/
def swapped (v : Int) : Int := signed32 ((read32 (int32 v).reverse).getD 0)

theorem swapped_spec (v : Int) : InInt32 (swapped v) ∧ int32 (swapped v) = (int32 v).reverse := by
  have hlength : (int32 v).reverse.length = 4 := by
    simp [int32]
  obtain ⟨n, hn, hread, hform⟩ := read32_of_length hlength
  unfold swapped
  rw [hread, Option.getD_some]
  refine ⟨signed32_bounds n hn, ?_⟩
  rw [int32, pattern_signed32 n hn, hform]

/-- The four bytes of a 32-bit number say which one it is. -/
theorem int32_injective {v u : Int} (hv : InInt32 v) (hu : InInt32 u)
    (hsame : int32 v = int32 u) : v = u := by
  have hpattern : pattern 32 v = pattern 32 u := by
    have hv' := read32_be32 (pattern 32 v) [] (pattern_lt 32 v)
    have hu' := read32_be32 (pattern 32 u) [] (pattern_lt 32 u)
    unfold int32 at hsame
    rw [hsame, hu'] at hv'
    exact (Option.some.inj hv').symm
  rw [← signed32_pattern v hv.1 hv.2, hpattern, signed32_pattern u hu.1 hu.2]

theorem swapped_eq_iff {v : Int} (hv : InInt32 v) :
    swapped v = v ↔ (int32 v).reverse = int32 v := by
  obtain ⟨hbounds, hform⟩ := swapped_spec v
  rw [← hform]
  exact ⟨fun h => by rw [h], int32_injective hbounds hv⟩

/-- The encoder writes the count in the order of the wire and the elements in
that of the host: what it writes is the body of the swapped OIDs. -/
theorem serializeOids_eq (oids : List Int) (hcount : oids.length ≤ 65535) :
    serializeOids oids [] = body (.parameterDescription (oids.map swapped)) := by
  have hpattern : pattern 16 (oids.length : Int) = oids.length :=
    pattern_natCast 16 oids.length (by omega)
  have hfold := foldl_serialize serializeRaw32 (fun v => (int32 v).reverse) (fun v buf => rfl) oids
    (be16 oids.length)
  have hitems : (oids.map swapped).flatMap int32 = oids.flatMap fun v => (int32 v).reverse := by
    rw [List.flatMap_map]
    congr 1
    funext v
    exact (swapped_spec v).2
  unfold serializeOids
  rw [serializeInt16, hpattern, List.nil_append, hfold, body, List.length_map, hitems]

theorem parameterDescription_swapped (oids : List Int) (hcount : oids.length ≤ 65535) :
    WellFormed (.parameterDescription (oids.map swapped)) := by
  refine ⟨⟨by rw [List.length_map]; omega, ?_⟩, ?_⟩
  · intro oid hoid
    obtain ⟨v, _, rfl⟩ := List.mem_map.mp hoid
    exact (swapped_spec v).1
  · have hitems : ((oids.map swapped).flatMap int32).length = 4 * oids.length := by
      induction oids with
      | nil => rfl
      | cons v oids ih =>
          rw [List.length_cons] at hcount
          have hrest := ih (by omega)
          simp only [List.map_cons, List.flatMap_cons, List.length_append, List.length_cons,
            hrest, int32, be32_length]
          omega
    simp only [body, List.length_append, be16_length, hitems]
    omega

/-- A parameter description with these bytes as its body is read as `oids`, with
the cursor at the end of the body. -/
def DecodesOids (bytes : Buffer) (oids : List Int) : Prop :=
  ParameterDescription.deserialize ⟨ParameterDescription.mtype, bytes.length⟩ bytes [] =
      .ok (.success, oids) ∧
    ∃ num pos, deserializeInt16 bytes 0 = .ok (num, pos) ∧
      ParameterDescription.readOids bytes num.toNat pos [] = .ok (oids, bytes.length)

/-- What the decoder makes of the encoder's bytes. -/
theorem decodesOids_swapped (oids : List Int) (hcount : oids.length ≤ 65535) :
    DecodesOids (serializeOids oids []) (oids.map swapped) := by
  have hmsg := parameterDescription_swapped oids hcount
  obtain ⟨hsize, hoids⟩ := hmsg.valid
  have hbytes := serializeOids_eq oids hcount
  have hnum := deserializeCount_at (oids.map swapped).length hsize
    (List.drop_zero : (body (.parameterDescription (oids.map swapped))).drop 0 = _)
  have hcursor : (body (.parameterDescription (oids.map swapped))).drop 2 =
      (oids.map swapped).flatMap int32 ++ [] := (List.append_nil _).symm
  have hread := readOids_at (oids.map swapped) hoids [] hcursor
  have hend : 2 + ((oids.map swapped).flatMap int32).length =
      (body (.parameterDescription (oids.map swapped))).length := by
    simp [body]
  rw [List.nil_append, hend] at hread
  rw [hbytes]
  exact ⟨parameterDescription_deserialize _ hmsg, _, _, hnum, hread⟩

/-- The OIDs that a statement is prepared with come back from a parameter
description of the same bytes exactly if the four bytes of each of them read the
same from either end. -/
theorem oids_agree_iff (oids : List Int) (hcount : oids.length ≤ 65535)
    (hoids : ∀ oid ∈ oids, InInt32 oid) :
    DecodesOids (serializeOids oids []) oids ↔
      ∀ oid ∈ oids, (int32 oid).reverse = int32 oid := by
  have hdecoded := decodesOids_swapped oids hcount
  have hself : oids.map swapped = oids ↔ ∀ oid ∈ oids, (int32 oid).reverse = int32 oid := by
    have hmap : oids.map swapped = oids.map id ↔ ∀ oid ∈ oids, swapped oid = oid :=
      List.map_inj_left
    rw [List.map_id] at hmap
    rw [hmap]
    exact forall₂_congr fun oid hoid => swapped_eq_iff (hoids oid hoid)
  rw [← hself]
  constructor
  · intro hsame
    have hboth := hdecoded.1.symm.trans hsame.1
    simpa using hboth
  · intro hsame
    rw [hsame] at hdecoded
    exact hdecoded

/-- No type, and a number whose four bytes are 00 17 17 00. -/
theorem oids_agree_unspecified :
    [0, 1513216].length ≤ 65535 ∧ DecodesOids (serializeOids [0, 1513216] []) [0, 1513216] := by
  refine ⟨by decide, (oids_agree_iff [0, 1513216] (by decide) ?_).mpr ?_⟩
  · intro oid hoid
    rcases List.mem_pair.mp hoid with rfl | rfl
    · exact ⟨by decide, by decide⟩
    · exact ⟨by decide, by decide⟩
  · decide

/-- The OID of `int4` comes back as another number. -/
theorem oids_int4_disagree :
    InInt32 23 ∧ DecodesOids (serializeOids [23] []) [385875968] ∧
      ¬ DecodesOids (serializeOids [23] []) [23] := by
  have hdecoded := decodesOids_swapped [23] (by decide)
  have hswapped : [23].map swapped = [385875968] := by decide
  rw [hswapped] at hdecoded
  refine ⟨⟨by decide, by decide⟩, hdecoded, ?_⟩
  intro hsame
  have hboth := hdecoded.1.symm.trans hsame.1
  simp at hboth

end Lapq
