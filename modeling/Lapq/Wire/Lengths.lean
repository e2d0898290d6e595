import Lapq.Steps.Machine
import Lapq.Wire.Lists

/-!
Lengths and counts in the fields that hold them. The client does not check any:
a length from the server is used as it comes, and a message that its fields
cannot hold is written all the same.
-/

namespace Lapq

open Bytes Backend

variable {ν ρ : Type}

/-! The length of a message from the server. -/

/-- The length field of a header: four bytes as a signed number. -/
def lengthField (a b c d : UInt8) : Int :=
  signed32 (a.toNat * 2 ^ 24 + b.toNat * 2 ^ 16 + c.toNat * 2 ^ 8 + d.toNat)

theorem lengthField_bounds (a b c d : UInt8) : InInt32 (lengthField a b c d) := by
  have ha := a.toNat_lt
  have hb := b.toNat_lt
  have hc := c.toNat_lt
  have hd := d.toNat_lt
  exact signed32_bounds _ (by omega)

theorem deserializeInt32_length (mtype a b c d : UInt8) :
    deserializeInt32 [mtype, a, b, c, d] 1 = .ok (lengthField a b c d, 4) := by
  unfold deserializeInt32
  have hread : read32 (List.drop 1 [mtype, a, b, c, d]) =
      some (a.toNat * 2 ^ 24 + b.toNat * 2 ^ 16 + c.toNat * 2 ^ 8 + d.toNat) := by
    simp only [List.drop_succ_cons, List.drop_zero, read32]
  rw [hread]
  simp only [lengthField]

/-- The subtraction of the header's own four bytes overflows, or it does not. -/
theorem header_five_bytes {mtype a b c d : UInt8} {len : Int}
    (hlen : deserializeInt32 [mtype, a, b, c, d] 1 = .ok (len, 4)) :
    Header.deserialize [mtype, a, b, c, d] =
      if len - 4 < -2 ^ 31 then .error .undefined else .ok (.success, ⟨mtype, len - 4⟩) := by
  have htype : deserializeByte1 [mtype, a, b, c, d] 0 = .ok (mtype, 1) := rfl
  unfold Header.deserialize
  rw [if_neg (by simp [Header.size]), htype, ok_bind]
  simp only [hlen, ok_bind, pure, Except.pure]

theorem header_run (ext : Externals ρ) (con : ConnectionBase ν ρ) (buf : Buffer) (w : World ν ρ) :
    RHandler.run ext con .header .success buf w = (do
      let (_, head) ← Act.lift (Header.deserialize buf)
      con.read (toSize head.bodyLen) (.body head) : Act ν ρ Unit) w := rfl

/-- After the five bytes of a header: the handler is told of an error and nothing
is read, or a body is read, of the length that the header leaves for it. -/
def ReadsBody (ext : Externals ρ) (con : ConnectionBase ν ρ) (w : World ν ρ)
    (mtype a b c d : UInt8) : Prop :=
  (∃ h ec, w.fsm.ehandler = some h ∧ ec.isError = true ∧
    RHandler.run ext con .header .success [mtype, a, b, c, d] w =
      ⟨.ok (), w, [.handler h ec w.fsm.state]⟩) ∨
  ∃ n : Nat, (n : Int) + 4 = lengthField a b c d ∧ n ≤ 2 ^ 31 - 5 ∧
    RHandler.run ext con .header .success [mtype, a, b, c, d] w =
      con.readInto n (.body ⟨mtype, n⟩) w

/-- A negative number of 32 bits is a size out of reach. -/
theorem negative_size (v : Int) (hlow : -2 ^ 31 ≤ v) (hneg : v < 0) : maxSize < toSize v := by
  unfold maxSize toSize pattern
  omega

/-- A length below 4 ends the callback: the difference overflows, or it is a size
that no buffer has. -/
theorem header_short (ext : Externals ρ) (con : ConnectionBase ν ρ) (w : World ν ρ)
    {mtype a b c d : UInt8} {len : Int}
    (hlen : deserializeInt32 [mtype, a, b, c, d] 1 = .ok (len, 4)) (hshort : len < 4) :
    ∃ e, RHandler.run ext con .header .success [mtype, a, b, c, d] w = ⟨.error e, w, []⟩ := by
  by_cases hoverflow : len - 4 < -2 ^ 31
  · have hdec : Header.deserialize [mtype, a, b, c, d] = .error .undefined := by
      rw [header_five_bytes hlen, if_pos hoverflow]
    refine ⟨.undefined, ?_⟩
    rw [header_run, hdec]
    simp [Act.bind_apply]
  · have hdec : Header.deserialize [mtype, a, b, c, d] = .ok (.success, ⟨mtype, len - 4⟩) := by
      rw [header_five_bytes hlen, if_neg hoverflow]
    have hwrapped := negative_size (len - 4) (by omega) (by omega)
    refine ⟨.lengthError, ?_⟩
    rw [header_run, hdec]
    simp [Act.bind_apply, ConnectionBase.read, hwrapped]

theorem header_long (ext : Externals ρ) (con : ConnectionBase ν ρ) (w : World ν ρ)
    {mtype a b c d : UInt8} {len : Int}
    (hlen : deserializeInt32 [mtype, a, b, c, d] 1 = .ok (len, 4)) (hbounds : InInt32 len)
    (hlong : 4 ≤ len) :
    ∃ n : Nat, (n : Int) + 4 = len ∧ n ≤ 2 ^ 31 - 5 ∧
      RHandler.run ext con .header .success [mtype, a, b, c, d] w =
        con.readInto n (.body ⟨mtype, n⟩) w := by
  obtain ⟨n, hn⟩ := Int.eq_ofNat_of_zero_le (show 0 ≤ len - 4 by omega)
  have hhigh := hbounds.2
  have hle : n ≤ 2 ^ 31 - 5 := by omega
  have hfits : ¬ maxSize < toSize (n : Int) := by
    rw [toSize_natCast n (by omega)]
    unfold maxSize
    omega
  refine ⟨n, by omega, hle, ?_⟩
  rw [header_run, header_five_bytes hlen, hn, if_neg (by omega)]
  simp only [Act.lift_ok, Act.bind_apply, Act.pure_apply, ConnectionBase.read, if_neg hfits]
  rw [toSize_natCast n (by omega)]
  simp

theorem ReadsBody.length {ext : Externals ρ} {con : ConnectionBase ν ρ} {w : World ν ρ}
    {mtype a b c d : UInt8} (hreads : ReadsBody ext con w mtype a b c d) :
    4 ≤ lengthField a b c d := by
  by_contra hshort
  obtain ⟨e, hrun⟩ := header_short ext con w (deserializeInt32_length mtype a b c d) (by omega)
  rcases hreads with ⟨h, ec, _, _, htold⟩ | ⟨n, hn, _, _⟩
  · rw [hrun] at htold
    cases htold
  · omega

/-- The length of a header is used as it should be exactly if it covers its own
four bytes. -/
theorem readsBody_iff (ext : Externals ρ) (con : ConnectionBase ν ρ) (w : World ν ρ)
    (mtype a b c d : UInt8) :
    ReadsBody ext con w mtype a b c d ↔ 4 ≤ lengthField a b c d := by
  constructor
  · exact ReadsBody.length
  · intro hlong
    exact Or.inr (header_long ext con w (deserializeInt32_length mtype a b c d)
      (lengthField_bounds a b c d) hlong)

/-- The start-up message was sent, and its answer is waited for. -/
def awaiting : World (List ConnCall) Unit := ⟨{ FSM.init with ehandler := some 0 }, fun _ => (), []⟩

/-- A header whose length is 3, and one with the smallest length there is: no
handler is told and nothing is read. -/
theorem not_readsBody :
    ¬ ReadsBody Externals.forgetful AsyncConnection.con awaiting 82 0 0 0 3 ∧
      ¬ ReadsBody Externals.forgetful AsyncConnection.con awaiting 82 128 0 0 0 := by
  constructor
  · intro hreads
    exact absurd hreads.length (by decide)
  · intro hreads
    exact absurd hreads.length (by decide)

/-! The fields of a message to the server. -/

namespace Message

/-- The strings have no NUL byte, the names of options are not empty, and counts
and lengths fit their fields. -/
def Fits : Message → Prop
  | .sslRequest | .close | .flush | .sync | .terminate => True
  | .startUp option => ∀ e ∈ option.entries, e.1 ≠ [] ∧ NulFree e.1 ∧ NulFree e.2
  | .bind name portal values =>
      NulFree name ∧ NulFree portal ∧ values.length ≤ 65535 ∧ ∀ v ∈ values, v.length < 2 ^ 31
  | .describe name portal => NulFree name ∧ NulFree portal
  | .execute portal => NulFree portal
  | .parse name text oid =>
      NulFree name ∧ NulFree text ∧ oid.length ≤ 65535 ∧ ∀ v ∈ oid, InInt32 v
  | .password text => NulFree text
  | .query text => NulFree text

/-- A message that the protocol can hold: the length of its body fits the signed
length field too. -/
structure Representable (msg : Message) : Prop where
  fits : msg.Fits
  length : msg.body.length + 4 < 2 ^ 31

/-- Serializing the message reports an error, and writing it hands nothing to the
socket and reports that error. -/
structure Refused (msg : Message) : Prop where
  reported : msg.serialize.1.isError = true
  silent : msg.wire = []
  told : ∀ r : Completion, r.written msg = msg.serialize.1

end Message

/-- Whatever its fields are, a message is serialized and written. -/
theorem serialize_success (msg : Message) : msg.serialize.1 = .success := by
  have hok := serializeBody_success msg []
  unfold Message.serialize
  rw [show msg.serializeBody [] = (.success, msg.body) from Prod.ext hok rfl]
  rfl

theorem not_refused (msg : Message) : ¬ msg.Refused := by
  intro hrefused
  have hreported := hrefused.reported
  rw [serialize_success] at hreported
  cases hreported

/-- The header alone has four bytes. -/
theorem wire_length (msg : Message) : msg.body.length + 4 ≤ msg.wire.length := by
  have hok := serializeBody_success msg []
  unfold Message.wire Message.serialize
  rw [show msg.serializeBody [] = (.success, msg.body) from Prod.ext hok rfl]
  simp only [ErrorCode.isError_success, Bool.false_eq_true, if_false, Header.serialize,
    serializeInt32, List.length_append, be32_length]
  omega

/-! What the bytes of a message that the protocol can hold say. -/

theorem body_of_wire {a b : Message} (ha : a.Representable) (hb : b.Representable)
    (hkind : a.untyped = b.untyped) (hwire : a.wire = b.wire) : a.body = b.body := by
  have hlength := ha.length
  have hlength' := hb.length
  rw [a.wire_eq (by omega), b.wire_eq (by omega), hkind] at hwire
  have htail : be32 (a.body.length + 4) ++ a.body = be32 (b.body.length + 4) ++ b.body := by
    cases huntyped : b.untyped with
    | true => simpa [huntyped] using hwire
    | false =>
        rw [huntyped] at hwire
        exact (List.append_inj hwire rfl).2
  exact (List.append_inj htail rfl).2

/-- A string ends at its NUL byte. -/
theorem cstr_append_inj {s t x y : Buffer} (hs : NulFree s) (ht : NulFree t)
    (hsame : cstr s ++ x = cstr t ++ y) : s = t ∧ x = y := by
  have hread := readCstr_cstr s x hs
  rw [hsame, readCstr_cstr t y ht] at hread
  obtain rfl : t = s := Option.some.inj hread
  exact ⟨rfl, List.append_cancel_left hsame⟩

theorem swapped_injective {v u : Int} (hv : InInt32 v) (hu : InInt32 u)
    (hsame : swapped v = swapped u) : v = u := by
  apply int32_injective hv hu
  have hbytes := (swapped_spec v).2
  rw [hsame, (swapped_spec u).2] at hbytes
  exact (List.reverse_injective hbytes).symm

theorem serializeOids_injective {oids others : List Int} (hcount : oids.length ≤ 65535)
    (hcount' : others.length ≤ 65535) (hoids : ∀ v ∈ oids, InInt32 v)
    (hothers : ∀ v ∈ others, InInt32 v)
    (hsame : serializeOids oids [] = serializeOids others []) : oids = others := by
  have hdecoded := (decodesOids_swapped oids hcount).1
  rw [hsame, (decodesOids_swapped others hcount').1] at hdecoded
  have hmap : oids.map swapped = others.map swapped := by
    simpa using hdecoded.symm
  clear hdecoded hsame hcount hcount'
  induction oids generalizing others with
  | nil => exact (List.map_eq_nil_iff.mp hmap.symm).symm
  | cons v oids ih =>
      cases others with
      | nil => cases hmap
      | cons u others =>
          simp only [List.map_cons, List.cons.injEq] at hmap
          have hfirst := swapped_injective (hoids v List.mem_cons_self)
            (hothers u List.mem_cons_self) hmap.1
          have hrest := ih (fun x hx => hoids x (List.mem_cons_of_mem _ hx))
            (fun x hx => hothers x (List.mem_cons_of_mem _ hx)) hmap.2
          rw [hfirst, hrest]

theorem parse_body (name query : Str) (oids : List Int) :
    Message.body (.parse name query oids) =
      cstr name ++ (cstr query ++ serializeOids oids []) := by
  have hfold (buf : Buffer) := foldl_serialize serializeRaw32 (fun v => (int32 v).reverse)
    (fun v buf => rfl) oids buf
  change Parse.serialize name query oids [] = _
  simp only [Parse.serialize, serializeOids, hfold, serializeString, serializeInt16, cstr,
    List.nil_append, List.append_assoc]

theorem Message.Representable.sendable {msg : Message} (hmsg : msg.Representable)
    (hvalid : msg.Valid) : msg.Sendable := by
  have hlength := hmsg.length
  exact ⟨hvalid, by omega⟩

/-- Messages of one kind with the same body have the same fields. -/
theorem fields_of_body {a b : Message} (ha : a.Sendable) (hb : b.Sendable)
    (htype : a.frame.mtype = b.frame.mtype) (hbody : a.body = b.body) : a.fields = b.fields := by
  have hread := (reads_body a ha).whole
  rw [hbody, htype, (reads_body b hb).whole] at hread
  exact (Option.some.inj hread).symm

theorem startUp_injective {option other : DBOption} (ha : (Message.startUp option).Representable)
    (hb : (Message.startUp other).Representable)
    (hbody : Message.body (.startUp option) = Message.body (.startUp other)) : option = other := by
  have hfields := fields_of_body (ha.sendable ha.fits) (hb.sendable hb.fits) rfl hbody
  simp only [Message.fields, Fields.startUp.injEq, true_and] at hfields
  obtain ⟨entries, hsorted⟩ := option
  obtain ⟨entries', hsorted'⟩ := other
  cases hfields
  rfl

theorem bind_injective {name name' portal portal' : Str} {values values' : List Str}
    (ha : (Message.bind name portal values).Representable)
    (hb : (Message.bind name' portal' values').Representable)
    (hbody : Message.body (.bind name portal values) = Message.body (.bind name' portal' values')) :
    name = name' ∧ portal = portal' ∧ values = values' := by
  obtain ⟨hname, hportal, hcount, _⟩ := ha.fits
  obtain ⟨hname', hportal', hcount', _⟩ := hb.fits
  have hfields := fields_of_body (ha.sendable ⟨hname, hportal, hcount⟩)
    (hb.sendable ⟨hname', hportal', hcount'⟩) rfl hbody
  simp only [Message.fields, Fields.bind.injEq, and_true, true_and] at hfields
  obtain ⟨rfl, rfl, hvalues⟩ := hfields
  exact ⟨rfl, rfl, List.map_injective_iff.mpr (Option.some_injective _) hvalues⟩

theorem parse_injective {name name' query query' : Str} {oids oids' : List Int}
    (ha : (Message.parse name query oids).Representable)
    (hb : (Message.parse name' query' oids').Representable)
    (hbody : Message.body (.parse name query oids) = Message.body (.parse name' query' oids')) :
    name = name' ∧ query = query' ∧ oids = oids' := by
  obtain ⟨hname, hquery, hcount, hoids⟩ := ha.fits
  obtain ⟨hname', hquery', hcount', hoids'⟩ := hb.fits
  rw [parse_body, parse_body] at hbody
  obtain ⟨rfl, hrest⟩ := cstr_append_inj hname hname' hbody
  obtain ⟨rfl, hlast⟩ := cstr_append_inj hquery hquery' hrest
  exact ⟨rfl, rfl, serializeOids_injective hcount hcount' hoids hoids' hlast⟩

/-- Two messages of a kind with several fields. -/
def Message.Alike : Message → Message → Prop
  | .startUp _, .startUp _ | .parse .., .parse .. | .bind .., .bind .. => True
  | _, _ => False

theorem wire_injective {msg other : Message} (ha : msg.Representable) (hb : other.Representable)
    (halike : msg.Alike other) (hwire : msg.wire = other.wire) : msg = other := by
  unfold Message.Alike at halike
  split at halike
  · rw [startUp_injective ha hb (body_of_wire ha hb rfl hwire)]
  · obtain ⟨rfl, rfl, rfl⟩ := parse_injective ha hb (body_of_wire ha hb rfl hwire)
    rfl
  · obtain ⟨rfl, rfl, rfl⟩ := bind_injective ha hb (body_of_wire ha hb rfl hwire)
    rfl
  · exact halike.elim

/-- No message that the protocol cannot hold is refused: it is serialized without
an error, its bytes go to the socket, and the write is reported as done. Of the
messages that it can hold, two of the same kind have different bytes. -/
theorem unrepresentable_sent (msg other : Message) :
    (¬ msg.Representable → ¬ msg.Refused ∧ msg.serialize.1 = .success ∧ msg.wire ≠ [] ∧
      (Completion.sent msg).written msg = .success) ∧
    (msg.Representable → other.Representable → msg.Alike other → msg.wire = other.wire →
      msg = other) := by
  refine ⟨?_, fun ha hb => wire_injective ha hb⟩
  intro _
  refine ⟨not_refused msg, serialize_success msg, ?_, written_sent msg⟩
  intro hempty
  have hlength := wire_length msg
  rw [hempty, List.length_nil] at hlength
  omega

/-- The options of a user and a zone, and a user whose name goes on behind a
NUL byte with the same. -/
def namedOptions : DBOption :=
  (OrderedMap.empty.emplace (ascii "user") (ascii "u")).emplace (ascii "zone") (ascii "z")

def forgedOptions : DBOption :=
  OrderedMap.empty.emplace (ascii "user") (ascii "u" ++ 0 :: ascii "zone" ++ 0 :: ascii "z")

theorem forged_not_representable : ¬ (Message.startUp forgedOptions).Representable := by
  intro hmsg
  have hnul : NulFree (ascii "u" ++ 0 :: ascii "zone" ++ 0 :: ascii "z") :=
    (hmsg.fits (ascii "user", _) List.mem_cons_self).2.2
  exact absurd hnul (by decide)

theorem unrepresentable_sent_forged :
    ¬ (Message.startUp forgedOptions).Representable ∧ ¬ (Message.startUp forgedOptions).Refused :=
  ⟨forged_not_representable, ((unrepresentable_sent _ .sync).1 forged_not_representable).1⟩

/-- One option with a NUL byte in its value is accepted and has the bytes of two. -/
theorem forged_options_accepted :
    ¬ (Message.startUp forgedOptions).Representable ∧ ¬ (Message.startUp forgedOptions).Refused ∧
      (Message.startUp forgedOptions).serialize.1 = .success ∧ forgedOptions ≠ namedOptions ∧
      Message.wire (.startUp forgedOptions) = Message.wire (.startUp namedOptions) := by
  refine ⟨forged_not_representable, not_refused _, serialize_success _, ?_, by decide⟩
  intro hsame
  have hentries := congrArg (fun option => option.entries.length) hsame
  exact absurd hentries (by decide)

end Lapq
