import Alpamayo.General.WireMessage
import Alpamayo.Proof.TransactionRecord
import Alpamayo.Storage.SfaIndex

/-!
This file shows that the rows of the address index are read back from both layouts.
-/

namespace Alpamayo

theorem Signature.length_toBytes (signature : Signature) : signature.toBytes.length = 64 :=
  Buf.length_bigEndian 64 signature.value

/-- The 64 bytes of a signature spell it. -/
theorem Signature.ofBytes_toBytes {signature : Signature} (fits : signature.value < 256 ^ 64) :
    ofBytes (toBytes signature) = signature := by
  unfold ofBytes toBytes
  rw [Buf.ofBigEndian_bigEndian fits]

namespace SfaIndexValue

variable {codec : ErrorCodec} {indexed : Bool} {sig : SignatureStatus}
  {signatures : List SignatureStatus}

/-- The parts of an entry have their machine types, and its error can be read. -/
structure Fits (codec : ErrorCodec) (sig : SignatureStatus) : Prop where
  signature : sig.signature.value < 256 ^ 64
  transactionIndex : sig.transactionIndex < 256 ^ 4
  errLength : ∀ err ∈ sig.err, (codec.serialize err).length < 2 ^ 64
  err : ∀ err ∈ sig.err, codec.deserialize (codec.serialize err) = .ok err
  memo : ∀ memo ∈ sig.memo, memo.utf8ByteSize < 2 ^ 64

/-- An entry of the older layout is read with the index zero. -/
def restored (indexed : Bool) (sig : SignatureStatus) : SignatureStatus :=
  { sig with transactionIndex := if indexed then sig.transactionIndex else 0 }

@[simp] theorem restored_true (sig : SignatureStatus) : restored true sig = sig := rfl

@[simp] theorem restored_false (sig : SignatureStatus) :
    restored false sig = { sig with transactionIndex := 0 } := rfl

/-- The flags of an entry are known, and each one tells about its own part. -/
theorem flags_spec (indexed : Bool) (sig : SignatureStatus) :
    Buf.fromBits SfaIndexValueFlags.all "invalid flags" (flags indexed sig) =
        .ok (flags indexed sig) ∧
      Buf.contains (flags indexed sig) SfaIndexValueFlags.transactionIndex = indexed ∧
      Buf.contains (flags indexed sig) SfaIndexValueFlags.err = sig.err.isSome ∧
      Buf.contains (flags indexed sig) SfaIndexValueFlags.memo = sig.memo.isSome ∧
      Buf.contains (flags indexed sig) SfaIndexValueFlags.tokenOwner = sig.isTokenOwner ∧
      Buf.contains (flags indexed sig) SfaIndexValueFlags.tokenBalanceChanged =
        sig.tokenBalanceChanged := by
  unfold flags
  generalize sig.err.isSome = hasErr
  generalize sig.memo.isSome = hasMemo
  generalize sig.isTokenOwner = owner
  generalize sig.tokenBalanceChanged = changed
  revert indexed hasErr hasMemo owner changed
  decide

/-- The index is read where the flags announce it. -/
theorem decodeIndex_encode (fits : sig.transactionIndex < 256 ^ 4) (rest : Bytes) :
    decodeIndex indexed ((if indexed then Buf.bigEndian 4 sig.transactionIndex else []) ++ rest) =
      .ok ((restored indexed sig).transactionIndex, rest) := by
  cases indexed with
  | true =>
      rw [decodeIndex, if_pos rfl, if_pos rfl,
        Buf.tryCopyToSlice_append (Buf.length_bigEndian 4 sig.transactionIndex)]
      change Except.ok (Buf.ofBigEndian (Buf.bigEndian 4 sig.transactionIndex), rest) = _
      rw [Buf.ofBigEndian_bigEndian fits]
      rfl
  | false => rfl

/-- Optional bytes are read back by their length. -/
theorem decodeSized_encode {A : Type} {value : Option A} {name : String}
    {read : Bytes → Except Buf.Fault A} {write : A → Bytes}
    (fits : ∀ part ∈ value, (write part).length < 2 ^ 64)
    (reads : ∀ part ∈ value, read (write part) = .ok part) (rest : Bytes) :
    decodeSized value.isSome name read (encodeSized (value.map write) ++ rest) =
      .ok (value, rest) := by
  cases value with
  | none => rfl
  | some part =>
      have enough : decide ((write part).length ≤ (write part ++ rest).length) = true := by
        rw [List.length_append]
        simp
      rw [decodeSized, Option.isSome_some, if_pos rfl, Option.map_some, encodeSized,
        Option.elim_some, List.append_assoc, Buf.decodeVarint_encode (fits part rfl)]
      change (Buf.ensure (decide ((write part).length ≤ (write part ++ rest).length)) _ >>= _) = _
      rw [enough]
      change (Buf.range 0 (write part).length _ >>= _) = _
      rw [Buf.range_append]
      change (read (write part) >>= _) = _
      rw [reads part rfl]
      change (Buf.advance (write part).length _ >>= _) = _
      rw [Buf.advance_append]
      rfl

theorem readErr_serialize {err : TransactionError}
    (reads : codec.deserialize (codec.serialize err) = .ok err) :
    readErr codec (codec.serialize err) = .ok err := by
  rw [readErr, reads]

/-- The bytes of a text are UTF-8. -/
theorem readMemo_memoBytes (memo : String) : readMemo (memoBytes memo) = .ok memo := by
  rw [readMemo, memoBytes, Wire.fromUTF8_utf8]

/-- The parts of an entry are read back, up to the bytes after it. -/
theorem decodeEntry_encode (indexed : Bool) (fits : Fits codec sig) (rest : Bytes) :
    decodeEntry codec (flags indexed sig) (sig.signature.toBytes ++
      ((if indexed then Buf.bigEndian 4 sig.transactionIndex else []) ++
        (encodeSized (sig.err.map codec.serialize) ++ (encodeSized (sig.memo.map memoBytes) ++ rest)))) =
      .ok (restored indexed sig, rest) := by
  obtain ⟨-, hasIndex, hasErr, hasMemo, owner, changed⟩ := flags_spec indexed sig
  have errors : ∀ err ∈ sig.err, readErr codec (codec.serialize err) = .ok err :=
    fun err known => readErr_serialize (fits.err err known)
  have memoLength : ∀ memo ∈ sig.memo, (memoBytes memo).length < 2 ^ 64 := by
    intro memo known
    rw [memoBytes, Wire.length_utf8]
    exact fits.memo memo known
  unfold decodeEntry
  rw [hasIndex, hasErr, hasMemo, owner, changed,
    Buf.tryCopyToSlice_append sig.signature.length_toBytes]
  change (decodeIndex indexed _ >>= _) = _
  rw [decodeIndex_encode fits.transactionIndex]
  change (decodeSized sig.err.isSome _ _ _ >>= _) = _
  rw [decodeSized_encode fits.errLength errors]
  change (decodeSized sig.memo.isSome _ _ _ >>= _) = _
  rw [decodeSized_encode memoLength fun memo _ => readMemo_memoBytes memo]
  change Except.ok _ = _
  rw [Signature.ofBytes_toBytes fits.signature]
  rfl

/-- The first entry of a row is read, and the bytes of the further ones are left. -/
theorem decode_encodeEntry (fits : Fits codec sig) (rest : Bytes) :
    decode codec (encodeEntry codec indexed sig ++ rest) =
      .ok (some (restored indexed sig), rest) := by
  have parts := decodeEntry_encode indexed fits rest
  have step (bits : UInt8) (slice : Bytes) : decode codec (bits :: slice) =
      (Buf.fromBits SfaIndexValueFlags.all "invalid flags" bits).bind fun flags =>
        (decodeEntry codec flags slice).map fun read => (some read.1, read.2) := rfl
  rw [encodeEntry, List.cons_append, List.append_assoc, List.append_assoc, List.append_assoc, step,
    (flags_spec indexed sig).1, Except.bind, parts]
  rfl

/-- A row is read to its end, and one round is needed to see that there is no further entry. -/
theorem decodeRow_flatMap (indexed : Bool) (fits : ∀ sig ∈ signatures, Fits codec sig)
    {rounds : Nat} (enough : signatures.length < rounds) :
    decodeRow codec rounds (signatures.flatMap (encodeEntry codec indexed)) =
      some (.ok (signatures.map (restored indexed), [])) := by
  induction signatures generalizing rounds with
  | nil =>
      obtain ⟨rounds, rfl⟩ := Nat.exists_eq_add_one.mpr enough
      rfl
  | cons sig signatures ih =>
      obtain ⟨rounds, rfl⟩ := Nat.exists_eq_add_one.mpr (Nat.zero_lt_of_lt enough)
      have others := ih (fun sig listed => fits sig (List.mem_cons_of_mem _ listed))
        (Nat.lt_of_succ_lt_succ enough)
      rw [decodeRow, List.flatMap_cons, decode_encodeEntry (fits sig List.mem_cons_self)]
      change (decodeRow codec rounds _).map _ = _
      rw [others]
      rfl

/-- Both layouts of a row are read to their ends and give its entries, those of the older one with
the index zero. -/
theorem rows_readBack (codec : ErrorCodec) (signatures : List SignatureStatus)
    (fits : ∀ sig ∈ signatures, Fits codec sig) (rounds : Nat) (enough : signatures.length < rounds) :
    decodeRow codec rounds (encode codec signatures) = some (.ok (signatures, [])) ∧
      decodeRow codec rounds (encodeOlder codec signatures) =
        some (.ok (signatures.map fun sig => { sig with transactionIndex := 0 }, [])) := by
  constructor
  · have row := decodeRow_flatMap true fits enough
    rw [funext restored_true, List.map_id'] at row
    exact row
  · exact decodeRow_flatMap false fits enough

/-- The first entry failed and has a memo, and the second one has neither. -/
theorem rows_readBack_failed :
    decodeRow TransactionIndexValue.plainErrors 3 (encode TransactionIndexValue.plainErrors
        [⟨⟨7⟩, some [8, 0, 0], some "paid", 300, true, false⟩, ⟨⟨9⟩, none, none, 2, false, true⟩]) =
      some (.ok ([⟨⟨7⟩, some [8, 0, 0], some "paid", 300, true, false⟩,
        ⟨⟨9⟩, none, none, 2, false, true⟩], [])) ∧
    decodeRow TransactionIndexValue.plainErrors 3 (encodeOlder TransactionIndexValue.plainErrors
        [⟨⟨7⟩, some [8, 0, 0], some "paid", 300, true, false⟩, ⟨⟨9⟩, none, none, 2, false, true⟩]) =
      some (.ok ([⟨⟨7⟩, some [8, 0, 0], some "paid", 0, true, false⟩,
        ⟨⟨9⟩, none, none, 0, false, true⟩], [])) := by
  refine rows_readBack _ [⟨⟨7⟩, some [8, 0, 0], some "paid", 300, true, false⟩,
    ⟨⟨9⟩, none, none, 2, false, true⟩] ?_ 3 (by decide)
  intro sig listed
  rcases List.mem_cons.mp listed with rfl | listed
  · refine ⟨by decide, by decide, ?_, ?_, ?_⟩
    · rintro _ ⟨⟩
      decide
    · rintro _ ⟨⟩
      rfl
    · rintro _ ⟨⟩
      decide
  · rw [List.mem_singleton] at listed
    subst listed
    exact ⟨by decide, by decide, by rintro _ ⟨⟩, by rintro _ ⟨⟩, by rintro _ ⟨⟩⟩

end SfaIndexValue

end Alpamayo
