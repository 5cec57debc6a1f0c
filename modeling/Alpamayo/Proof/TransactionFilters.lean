import Alpamayo.Proof.TransactionPages

/-!
This file shows which entries a call of `getTransactionsForAddress` may return and when they satisfy
its slot bounds.
-/

namespace Alpamayo

namespace GtfaEntry

variable {Encoded : Type}

def slot : GtfaEntry Encoded → Nat
  | .signature inner _ => inner.slot
  | .full entry => entry.slot

def blockTime : GtfaEntry Encoded → Option UnixTimestamp
  | .signature inner _ => inner.blockTime
  | .full entry => entry.blockTime

def transactionIndex : GtfaEntry Encoded → Option Nat
  | .signature _ index => index
  | .full entry => entry.transactionIndex

end GtfaEntry

namespace GtfaComparison

/-- Every slot between the bounds of the comparison matches it. -/
def Ranged (self : GtfaComparison) : Prop :=
  ∀ slot : Nat, (∀ bound ∈ self.lowerBound, slotBound bound ≤ slot) →
    (∀ bound ∈ self.upperBound, slot ≤ slotBound bound) → self.matchesValue slot = true

end GtfaComparison

namespace Reader

variable {reader : Reader} {db : Rocksdb} {keys : HashedKeys} {expired : Nat → Bool}
  {read : ReadRequestTransactionsForAddress} {entry raw : TfaEntry}
  {entries answered : List TfaEntry} {finished last : Bool}

/-- The entry as the last stage answers it, unless its block is not there. -/
def answeredEntry (reader : Reader) (entry : TfaEntry) : Option TfaEntry :=
  match reader.addBlockTime entry.signature with
  | .ok (some signature) => some { entry with signature }
  | _ => none

/-- The entries of the block in process that a read sees. -/
def entriesInProcess (reader : Reader) (read : ReadRequestTransactionsForAddress) : List TfaEntry :=
  (reader.tfaInProcess read (reader.scanRange read).1).elim [] fun (slot, block, statuses) =>
    statuses.map (TfaEntry.new (inProcessRecord slot block))

/-- The entries that a read may answer, however many of them it takes; those of the block in process
come without the last stage when they fill the page. -/
def candidates (reader : Reader) (db : Rocksdb) (keys : HashedKeys)
    (read : ReadRequestTransactionsForAddress) : List TfaEntry :=
  reader.entriesInProcess read ++
    (reader.entriesInProcess read ++ db.scanned (keys.addressHash read.address) read.desc
      (reader.scanRange read).1 (reader.scanRange read).2).filterMap reader.answeredEntry

/-- The reader has this time for the slot, from the block in process or from its ring. -/
inductive HasTime (reader : Reader) (slot : Nat) : Option UnixTimestamp → Prop
  | inProcess (block : BlockWithBinary) (known : reader.confirmedInProcess = some (slot, some block)) :
      HasTime reader slot block.blockTime
  | stored (cell : StoredBlock) (found : reader.blocks.getBlockLocation slot = .found cell) :
      HasTime reader slot cell.blockTime

/-- The block in process or the index lists the signature for the address under the slot. -/
inductive Lists (reader : Reader) (db : Rocksdb) (keys : HashedKeys) (address : Pubkey) :
    Nat → Signature → Prop
  | inProcess (slot : Nat) (block : BlockWithBinary) (sfa : SignaturesForAddress)
      (item : SignatureStatus) (known : reader.confirmedInProcess = some (slot, some block))
      (row : block.getSfa address = some sfa) (member : item ∈ sfa.signatures) :
      Lists reader db keys address slot item.signature
  | stored (row : SfaKey × List SignatureStatus) (item : SignatureStatus)
      (inside : row ∈ db.sfaIndex.entries)
      (same : (ofLex row.1).1 = (keys.addressHash address).toNat) (member : item ∈ row.2) :
      Lists reader db keys address (ofLex row.1).2 item.signature

end Reader

namespace RpcRequestTransactionsForAddress

variable {Decoded Encoded EncodeError : Type} {request : RpcRequestTransactionsForAddress}
  {positions : Option GtfaSignaturePositionFilter} {state : GtfaState} {reads : GtfaReads}
  {codec : TransactionCodec Decoded Encoded EncodeError} {signatureText : Signature → String}
  {reader : Reader} {db : Rocksdb} {keys : HashedKeys} {expired : Nat → Bool}
  {transaction : Signature → ReadResultTransaction} {entries : List TfaEntry}

/-- The item is made from an accepted entry of the list. -/
def BuiltFrom (request : RpcRequestTransactionsForAddress)
    (positions : Option GtfaSignaturePositionFilter) (reads : GtfaReads)
    (codec : TransactionCodec Decoded Encoded EncodeError) (signatureText : Signature → String)
    (entries : List TfaEntry) (item : GtfaEntry Encoded) : Prop :=
  ∃ entry ∈ entries, request.accepts positions entry = true ∧
    request.buildEntry reads codec signatureText entry = .ok item

/-- Every built item has its own entry. -/
theorem buildAll_sound {A : Type} {build : TfaEntry → Except (GtfaEntryError EncodeError) A}
    {built : List A} (done : buildAll (entries.map build) = .ok built) :
    ∀ item ∈ built, ∃ entry ∈ entries, build entry = .ok item := by
  induction entries generalizing built with
  | nil =>
      cases done
      intro item member
      cases member
  | cons entry rest ih =>
      rw [List.map_cons] at done
      cases first : build entry with
      | ok image =>
          rw [first, buildAll] at done
          cases others : buildAll (rest.map build) with
          | error error =>
              rw [others] at done
              cases done
          | ok images =>
              rw [others] at done
              cases done
              intro item member
              obtain rfl | later := List.mem_cons.mp member
              · exact ⟨entry, List.mem_cons_self, first⟩
              · obtain ⟨other, inside, same⟩ := ih others item later
                exact ⟨other, List.mem_cons_of_mem entry inside, same⟩
      | error error =>
          rw [first] at done
          cases error with
          | failed error => cases done
          | response error =>
              rw [buildAll] at done
              split at done
              · cases done
              · cases done

/-- The candidates of the next read. -/
def remaining (request : RpcRequestTransactionsForAddress) (reader : Reader) (db : Rocksdb)
    (keys : HashedKeys) (positions : Option GtfaSignaturePositionFilter)
    (cursor : Option (Nat × Nat)) : List TfaEntry :=
  reader.candidates db keys (request.readRequest positions cursor request.limit)

/-- The slot filter is a range of slots, the token and a block in process that the call reads lie in the
bounds of the request, and in the full mode the transactions have the times of their slots. -/
structure Bounded (request : RpcRequestTransactionsForAddress) (reader : Reader) (db : Rocksdb)
    (keys : HashedKeys) (transaction : Signature → ReadResultTransaction) : Prop where
  ranged : ∀ filters ∈ request.filters, ∀ filter ∈ filters.slot, filter.Ranged
  descToken : request.desc = true → ∀ token ∈ request.paginationToken,
    token.slot ≤ reader.commitmentSlot request.commitment ∧
      ∀ bound ∈ request.slotFilterUpper, token.slot ≤ bound
  ascToken : request.desc = false → ∀ token ∈ request.paginationToken,
    ∀ bound ∈ request.slotFilterLower, bound ≤ token.slot
  inProcess : request.desc = true → request.paginationToken = none → request.commitment = .confirmed →
    ∀ slot block sfa, reader.confirmedInProcess = some (slot, some block) →
      block.getSfa request.address = some sfa → slot ≤ reader.commitmentSlot request.commitment →
        (∀ bound ∈ request.slotFilterUpper, slot ≤ bound) →
          ∀ bound ∈ request.slotFilterLower, bound ≤ slot
  blockTime : request.transactionDetails = .full →
    (∃ filters ∈ request.filters, filters.blockTime ≠ none) →
      ∀ slot signature, reader.Lists db keys request.address slot signature →
        ∀ place time bytes index, transaction signature = .transaction place (some time) bytes index →
          ∀ known, reader.HasTime slot (some known) → known = time

section positions

variable {A B : Type}

/-- The step that stops a call answers no items. -/
def StopsEmpty (step : Except (GtfaResult Encoded EncodeError) A) : Prop :=
  ∀ data token, step = .error (.success data token) → data = []

theorem StopsEmpty.bind {first : Except (GtfaResult Encoded EncodeError) A}
    {next : A → Except (GtfaResult Encoded EncodeError) B} (start : StopsEmpty first)
    (goesOn : ∀ value, StopsEmpty (next value)) : StopsEmpty (first >>= next) := by
  intro data token stopped
  cases first with
  | error result =>
      cases stopped
      exact start data token rfl
  | ok value => exact goesOn value data token stopped

theorem StopsEmpty.mapM {step : A → Except (GtfaResult Encoded EncodeError) B}
    (stops : ∀ value, StopsEmpty (step value)) (value : Option A) : StopsEmpty (value.mapM step) := by
  cases value with
  | none =>
      intro data token stopped
      cases stopped
  | some value =>
      rw [Option.mapM_some]
      apply (stops value).bind
      intro result data token stopped
      cases stopped

theorem resolveSignaturePosition_stops (signature : Signature) :
    StopsEmpty (request.resolveSignaturePosition reads signature :
      Except (GtfaResult Encoded EncodeError) _) := by
  intro data token stopped
  rw [resolveSignaturePosition] at stopped
  split at stopped
  all_goals cases stopped
  rfl

/-- A signature that has no position ends the call without items. -/
theorem resolvePositions_stops : StopsEmpty (request.resolvePositions reads :
    Except (GtfaResult Encoded EncodeError) _) := by
  apply StopsEmpty.mapM
  intro filter
  have bound := StopsEmpty.mapM
    (resolveSignaturePosition_stops : ∀ signature, StopsEmpty (request.resolveSignaturePosition
      reads signature : Except (GtfaResult Encoded EncodeError) _))
  apply (bound filter.gte).bind
  intro gte
  apply (bound filter.gt).bind
  intro gt
  apply (bound filter.lte).bind
  intro lte
  apply (bound filter.lt).bind
  intro lt data token stopped
  cases stopped

end positions

section bounds

variable {address : String} {options : GtfaOptions}

/-- The accepted request has the bounds of the slot filter. -/
theorem parse_slotFilter (accepted : parse state address options = .ok request)
    {filters : GtfaFilters} (known : request.filters = some filters) {filter : GtfaComparison}
    (isSlot : filters.slot = some filter) :
    request.slotFilterLower = filter.lowerBound.map GtfaComparison.slotBound ∧
      request.slotFilterUpper = filter.upperBound.map GtfaComparison.slotBound := by
  simp only [parse, bind_eq_ok_iff] at accepted
  obtain ⟨_, -, _, -, _, -, _, -, _, -, _, -, same⟩ := accepted
  cases same
  simp only at known
  simp [known, isSlot]

end bounds

section slotFilter

/-- The options ask for confirmed transactions from the slot on. -/
def fromSlot (slot : Int) : GtfaOptions where
  limit := some 5
  commitment := some .confirmed
  filters := some { slot := some { gte := some slot } }

/-- The accepted request of these options. -/
def fromSlotRequest (slot : Int) : RpcRequestTransactionsForAddress :=
  ⟨⟨0⟩, .signatures, true, 5, none, .confirmed, some { slot := some { gte := some slot } }, .none,
    some (GtfaComparison.slotBound slot), none, none, none, none⟩

end slotFilter

end RpcRequestTransactionsForAddress

end Alpamayo
