import Alpamayo.Rpc.Transaction
import Alpamayo.Storage.ReadTransactionsForAddress

/-!
This file models the call `getTransactionsForAddress`.
-/

namespace Alpamayo

inductive GtfaTransactionDetails where
  | signatures
  | full
  deriving DecidableEq

inductive GtfaSortOrder where
  | desc
  | asc
  deriving DecidableEq

/-- The bounds of a comparison are 64-bit numbers; `eq` is a bound on both sides. -/
structure GtfaComparison where
  gte : Option Int := none
  gt : Option Int := none
  lte : Option Int := none
  lt : Option Int := none
  eq : Option Int := none
  deriving DecidableEq

namespace GtfaComparison

def matchesValue (self : GtfaComparison) (value : Int) : Bool :=
  self.gte.all (fun bound => bound ≤ value) && self.gt.all (fun bound => bound < value) &&
    self.lte.all (fun bound => value ≤ bound) && self.lt.all (fun bound => value < bound) &&
    self.eq.all (fun bound => value = bound)

/-- The next number, up to the largest one. -/
def saturatingNext (value : Int) : Int := min (value + 1) 9223372036854775807

/-- The number before, down to the smallest one. -/
def saturatingPrev (value : Int) : Int := max (value - 1) (-9223372036854775808)

def lowerBound (self : GtfaComparison) : Option Int :=
  match self.gte, self.gt, self.eq with
  | _, _, some eq => some eq
  | some gte, some gt, _ => some (max gte (saturatingNext gt))
  | some gte, none, _ => some gte
  | none, some gt, _ => some (saturatingNext gt)
  | none, none, _ => none

def upperBound (self : GtfaComparison) : Option Int :=
  match self.lte, self.lt, self.eq with
  | _, _, some eq => some eq
  | some lte, some lt, _ => some (min lte (saturatingPrev lt))
  | some lte, none, _ => some lte
  | none, some lt, _ => some (saturatingPrev lt)
  | none, none, _ => none

/-- A bound below zero counts as the slot zero. -/
def slotBound (bound : Int) : Nat := (max bound 0).toNat

end GtfaComparison

inductive GtfaStatusFilter where
  | any
  | succeeded
  | failed
  deriving DecidableEq

inductive GtfaTokenAccountsFilter where
  | none
  | balanceChanged
  | all
  deriving DecidableEq

/-- The four bounds may be texts, signatures or positions. -/
structure GtfaBounds (A : Type) where
  gte : Option A
  gt : Option A
  lte : Option A
  lt : Option A
  deriving DecidableEq

abbrev GtfaSignatureComparison := GtfaBounds String

abbrev GtfaSignatureFilter := GtfaBounds Signature

abbrev GtfaSignaturePositionFilter := GtfaBounds (Nat × Nat)

namespace GtfaSignaturePositionFilter

/-- Positions are compared by slot first. -/
def matchesPosition (self : GtfaSignaturePositionFilter) (position : Nat × Nat) : Bool :=
  self.gte.all (fun bound => toLex bound ≤ toLex position) &&
    self.gt.all (fun bound => toLex bound < toLex position) &&
    self.lte.all (fun bound => toLex position ≤ toLex bound) &&
    self.lt.all (fun bound => toLex position < toLex bound)

def lowerSlot (self : GtfaSignaturePositionFilter) : Option Nat :=
  match self.gte, self.gt with
  | some first, some second => some (max first.1 second.1)
  | some bound, none | none, some bound => some bound.1
  | none, none => none

def upperSlot (self : GtfaSignaturePositionFilter) : Option Nat :=
  match self.lte, self.lt with
  | some first, some second => some (min first.1 second.1)
  | some bound, none | none, some bound => some bound.1
  | none, none => none

end GtfaSignaturePositionFilter

/-- The filters of a request, all of them optional. -/
structure GtfaFilters where
  slot : Option GtfaComparison := none
  blockTime : Option GtfaComparison := none
  signature : Option GtfaSignatureComparison := none
  status : GtfaStatusFilter := .any
  tokenAccounts : GtfaTokenAccountsFilter := .none
  deriving DecidableEq

/-- The options of a request; those of the encoding belong to the codec. -/
structure GtfaOptions where
  transactionDetails : GtfaTransactionDetails := .signatures
  sortOrder : GtfaSortOrder := .desc
  limit : Option Nat := none
  paginationToken : Option String := none
  commitment : Option CommitmentLevel := none
  minContextSlot : Option Nat := none
  filters : Option GtfaFilters := none

/-- The request is not accepted. -/
inductive GtfaParseError where
  | invalidParams (message : String)
  | minContextSlotNotReached (contextSlot : Nat)
  deriving DecidableEq

structure GtfaCursor where
  slot : Nat
  transactionIndex : Nat
  deriving DecidableEq

/-- A number may have a plus sign, and it has 64 bits. -/
def parseUnsigned (text : List Char) : Option Nat :=
  let digits := match text with
    | '+' :: digits => digits
    | digits => digits
  if digits.isEmpty || !digits.all Char.isDigit then none
  else
    let value := Nat.ofDigitChars 10 digits 0
    if value ≤ maxSlot then some value else none

namespace GtfaCursor

def encode (self : GtfaCursor) : String := s!"{self.slot}:{self.transactionIndex}"

/-- The text is split at its first colon. -/
def decode (input : String) : Except GtfaParseError GtfaCursor :=
  let invalid := GtfaParseError.invalidParams "Invalid paginationToken"
  match input.toList.span fun char => char ≠ ':' with
  | (_, []) => .error invalid
  | (slot, _ :: transactionIndex) =>
      match parseUnsigned slot, parseUnsigned transactionIndex with
      | some slot, some transactionIndex => .ok ⟨slot, transactionIndex⟩
      | _, _ => .error invalid

end GtfaCursor

/-- The limits of the configuration, the loaded slots and the texts of addresses and signatures. -/
structure GtfaState where
  gtfaLimitSignatures : Nat
  gtfaLimitFull : Nat
  contextSlot : CommitmentLevel → Nat
  verifyPubkey : String → Except GtfaParseError Pubkey
  verifySignature : String → Except GtfaParseError Signature

/-- The accepted request. -/
structure RpcRequestTransactionsForAddress where
  address : Pubkey
  transactionDetails : GtfaTransactionDetails
  desc : Bool
  limit : Nat
  paginationToken : Option GtfaCursor
  commitment : CommitmentLevel
  filters : Option GtfaFilters
  tokenAccounts : GtfaTokenAccountsFilter
  slotFilterLower : Option Nat
  slotFilterUpper : Option Nat
  blockTimeFilterLower : Option UnixTimestamp
  blockTimeFilterUpper : Option UnixTimestamp
  signatureFilter : Option GtfaSignatureFilter

/-- The four texts are read one after another. -/
def GtfaSignatureComparison.parse (state : GtfaState) (raw : GtfaSignatureComparison) :
    Except GtfaParseError GtfaSignatureFilter := do
  let gte ← raw.gte.mapM state.verifySignature
  let gt ← raw.gt.mapM state.verifySignature
  let lte ← raw.lte.mapM state.verifySignature
  let lt ← raw.lt.mapM state.verifySignature
  .ok ⟨gte, gt, lte, lt⟩

namespace RpcRequestTransactionsForAddress

/-- The limits that are accepted. -/
def verifyLimit (state : GtfaState) (details : GtfaTransactionDetails) (limit : Option Nat) :
    Except GtfaParseError Nat :=
  let defaultLimit := match details with
    | .signatures => state.gtfaLimitSignatures
    | .full => state.gtfaLimitFull
  let limit := limit.getD defaultLimit
  if limit = 0 ∨ defaultLimit < limit then
    .error (.invalidParams s!"Invalid limit; max {defaultLimit}")
  else .ok limit

def checkIsAtLeastConfirmed (commitment : CommitmentLevel) : Except GtfaParseError Unit :=
  if commitment = .processed then
    .error (.invalidParams "Method does not support commitment below \x60confirmed\x60")
  else .ok ()

def minContextCheck (state : GtfaState) (minContextSlot : Option Nat)
    (commitment : CommitmentLevel) : Except GtfaParseError Unit :=
  match minContextSlot with
  | none => .ok ()
  | some slot =>
      if state.contextSlot commitment < slot then
        .error (.minContextSlotNotReached (state.contextSlot commitment))
      else .ok ()

/-- The checks come in the order of the source; without options every default is used. -/
def parse (state : GtfaState) (address : String) (options : GtfaOptions) :
    Except GtfaParseError RpcRequestTransactionsForAddress := do
  let address ← state.verifyPubkey address
  let limit ← verifyLimit state options.transactionDetails options.limit
  let paginationToken ← options.paginationToken.mapM GtfaCursor.decode
  let commitment := options.commitment.getD .finalized
  checkIsAtLeastConfirmed commitment
  minContextCheck state options.minContextSlot commitment
  let slot := options.filters.bind fun filters => filters.slot
  let blockTime := options.filters.bind fun filters => filters.blockTime
  let signatureFilter ← (options.filters.bind fun filters => filters.signature).mapM
    (GtfaSignatureComparison.parse state)
  .ok {
    address
    transactionDetails := options.transactionDetails
    desc := options.sortOrder = .desc
    limit
    paginationToken
    commitment
    filters := options.filters
    tokenAccounts := (options.filters.map fun filters => filters.tokenAccounts).getD .none
    slotFilterLower := (slot.bind GtfaComparison.lowerBound).map GtfaComparison.slotBound
    slotFilterUpper := (slot.bind GtfaComparison.upperBound).map GtfaComparison.slotBound
    blockTimeFilterLower := blockTime.bind GtfaComparison.lowerBound
    blockTimeFilterUpper := blockTime.bind GtfaComparison.upperBound
    signatureFilter }

end RpcRequestTransactionsForAddress

/-- A listed entry has the record of the index or the transaction itself. -/
inductive GtfaEntry (Encoded : Type) where
  | signature (inner : RpcConfirmedTransactionStatusWithSignature) (transactionIndex : Option Nat)
  | full (entry : GtfaFullEntry Encoded)
  deriving DecidableEq

/-- The call fails, answers with an error of the encoder, or lists entries with a token. -/
inductive GtfaResult (Encoded EncodeError : Type) where
  | failed (error : String)
  | response (error : EncodeError)
  | success (data : List (GtfaEntry Encoded)) (paginationToken : Option String)
  deriving DecidableEq

/-- The answers of the storage to the reads of one call. -/
structure GtfaReads where
  transactions : ReadRequestTransactionsForAddress → ReadResultTransactionsForAddress
  position : Pubkey → Signature → ReadResultSignaturePosition
  transaction : Signature → ReadResultTransaction

/-- One pass over a batch moves both cursors and keeps the accepted entries. -/
structure GtfaBatch where
  storageCursor : Option (Nat × Nat)
  pageCursor : Option GtfaCursor
  pending : List TfaEntry
  reachedLimit : Bool
  deriving DecidableEq

/-- The loop over the reads keeps these values. -/
structure GtfaLoop (Encoded : Type) where
  storageCursor : Option (Nat × Nat)
  pageCursor : Option GtfaCursor
  storageFinished : Bool
  data : List (GtfaEntry Encoded)
  reachedLimit : Bool

namespace RpcRequestTransactionsForAddress

variable {Decoded Encoded EncodeError : Type}

/-- A signature that is not in the history of the address ends the call with an empty answer. -/
def resolveSignaturePosition (self : RpcRequestTransactionsForAddress) (reads : GtfaReads)
    (signature : Signature) : Except (GtfaResult Encoded EncodeError) (Nat × Nat) :=
  match reads.position self.address signature with
  | .position (some position) => .ok position
  | .position none => .error (.success [] none)
  | .timeout => .error (.failed "timeout")
  | .readError error => .error (.failed s!"read error: {error}")

/-- The bounds are resolved one after another. -/
def resolvePositions (self : RpcRequestTransactionsForAddress) (reads : GtfaReads) :
    Except (GtfaResult Encoded EncodeError) (Option GtfaSignaturePositionFilter) :=
  self.signatureFilter.mapM fun filter => do
    let gte ← filter.gte.mapM (self.resolveSignaturePosition reads)
    let gt ← filter.gt.mapM (self.resolveSignaturePosition reads)
    let lte ← filter.lte.mapM (self.resolveSignaturePosition reads)
    let lt ← filter.lt.mapM (self.resolveSignaturePosition reads)
    .ok ⟨gte, gt, lte, lt⟩

/-- The positions of the signatures also bound the slots. -/
def slotLower (self : RpcRequestTransactionsForAddress)
    (positions : Option GtfaSignaturePositionFilter) : Option Nat :=
  match self.slotFilterLower, positions.bind GtfaSignaturePositionFilter.lowerSlot with
  | some first, some second => some (max first second)
  | some bound, none | none, some bound => some bound
  | none, none => none

def slotUpper (self : RpcRequestTransactionsForAddress)
    (positions : Option GtfaSignaturePositionFilter) : Option Nat :=
  match self.slotFilterUpper, positions.bind GtfaSignaturePositionFilter.upperSlot with
  | some first, some second => some (min first second)
  | some bound, none | none, some bound => some bound
  | none, none => none

/-- The flags of the entry decide about token owners. -/
def tokenOk (self : RpcRequestTransactionsForAddress) (flags : UInt8) : Bool :=
  let isTokenOwner := flags &&& 1 ≠ 0
  let balanceChanged := flags &&& 2 ≠ 0
  match self.tokenAccounts with
  | .none => !isTokenOwner
  | .all => true
  | .balanceChanged => !isTokenOwner || balanceChanged

/-- The block time is compared only when there is a filter for it. -/
def blockTimeOk (filters : GtfaFilters) (raw : RpcConfirmedTransactionStatusWithSignature) : Bool :=
  match filters.blockTime with
  | none => true
  | some filter => raw.blockTime.any filter.matchesValue

def statusOk (filters : GtfaFilters) (raw : RpcConfirmedTransactionStatusWithSignature) : Bool :=
  match filters.status with
  | .any => true
  | .succeeded => raw.err.isNone
  | .failed => raw.err.isSome

/-- The filters that are checked for each entry. -/
def accepts (self : RpcRequestTransactionsForAddress)
    (positions : Option GtfaSignaturePositionFilter) (entry : TfaEntry) : Bool :=
  self.tokenOk entry.tokenOwnerFlags &&
    self.filters.all (fun filters =>
      blockTimeOk filters entry.signature && statusOk filters entry.signature) &&
    positions.all fun filter =>
      filter.matchesPosition (entry.signature.slot, entry.transactionIndex)

/-- The loop over a batch stops when the page is full. -/
def takeBatch (self : RpcRequestTransactionsForAddress)
    (positions : Option GtfaSignaturePositionFilter) (collected : Nat) :
    List TfaEntry → GtfaBatch → GtfaBatch
  | [], batch => batch
  | entry :: rest, batch =>
      let batch := { batch with
        storageCursor := some (entry.signature.slot, entry.transactionIndex) }
      if self.accepts positions entry then
        let batch := { batch with
          pending := batch.pending ++ [entry]
          pageCursor := some ⟨entry.signature.slot, entry.transactionIndex⟩ }
        if collected + batch.pending.length = self.limit then { batch with reachedLimit := true }
        else takeBatch self positions collected rest batch
      else takeBatch self positions collected rest batch

/-- A request with filters reads more than it needs. -/
def requestLimit (self : RpcRequestTransactionsForAddress) (state : GtfaState) (remaining : Nat) :
    Nat :=
  if self.filters.isSome then
    max (min (min (remaining * 4) 18446744073709551615) state.gtfaLimitSignatures) remaining
  else remaining

/-- The next read of the storage. -/
def readRequest (self : RpcRequestTransactionsForAddress)
    (positions : Option GtfaSignaturePositionFilter) (cursor : Option (Nat × Nat)) (limit : Nat) :
    ReadRequestTransactionsForAddress where
  commitment := self.commitment
  address := self.address
  desc := self.desc
  cursor
  slotFilterLower := self.slotLower positions
  slotFilterUpper := self.slotUpper positions
  blockTimeFilterLower := self.blockTimeFilterLower
  blockTimeFilterUpper := self.blockTimeFilterUpper
  limit

/-- Only the full mode needs the transaction. -/
def buildEntry (self : RpcRequestTransactionsForAddress) (reads : GtfaReads)
    (codec : TransactionCodec Decoded Encoded EncodeError) (signatureText : Signature → String)
    (entry : TfaEntry) : Except (GtfaEntryError EncodeError) (GtfaEntry Encoded) :=
  match self.transactionDetails with
  | .signatures => .ok (.signature entry.signature (some entry.transactionIndex))
  | .full => (buildFullEntry codec (signatureText entry.signature.signature) entry.signature.slot
      entry.signature.blockTime (some entry.transactionIndex)
      (reads.transaction entry.signature.signature)).map .full

/-- An entry that cannot be built fails the call before any error of the encoder is answered. -/
def buildAll {A : Type} :
    List (Except (GtfaEntryError EncodeError) A) → Except (GtfaEntryError EncodeError) (List A)
  | [] => .ok []
  | .ok entry :: rest => (buildAll rest).map fun entries => entry :: entries
  | .error (.failed error) :: _ => .error (.failed error)
  | .error (.response error) :: rest =>
      match buildAll rest with
      | .error (.failed failed) => .error (.failed failed)
      | _ => .error (.response error)

/-- The token is withheld only when the storage has no more entries and the page is not full. -/
def finish (page : GtfaLoop Encoded) : GtfaResult Encoded EncodeError :=
  .success page.data
    (if page.storageFinished && !page.reachedLimit then none
    else page.pageCursor.map GtfaCursor.encode)

/-- The loop reads batches until the page is full or the storage has no more entries; every batch
takes one of the rounds. -/
def processLoop (self : RpcRequestTransactionsForAddress) (state : GtfaState) (reads : GtfaReads)
    (codec : TransactionCodec Decoded Encoded EncodeError) (signatureText : Signature → String)
    (positions : Option GtfaSignaturePositionFilter) :
    Nat → GtfaLoop Encoded → Option (GtfaResult Encoded EncodeError)
  | 0, _ => none
  | rounds + 1, page =>
      let remaining := self.limit - page.data.length
      if remaining = 0 then some (finish page)
      else
        match reads.transactions (self.readRequest positions page.storageCursor
            (self.requestLimit state remaining)) with
        | .timeout => some (.failed "timeout")
        | .readError error => some (.failed s!"read error: {error}")
        | .transactions entries finished =>
            let batch := self.takeBatch positions page.data.length entries
              ⟨page.storageCursor, page.pageCursor, [], false⟩
            match buildAll (batch.pending.map (self.buildEntry reads codec signatureText)) with
            | .error (.failed error) => some (.failed error)
            | .error (.response error) => some (.response error)
            | .ok built =>
                let page := ⟨batch.storageCursor, batch.pageCursor, finished, page.data ++ built,
                  batch.reachedLimit⟩
                if page.reachedLimit || finished || entries.isEmpty then some (finish page)
                else processLoop self state reads codec signatureText positions rounds page

/-- The index of the token loses its bits above the lowest 32. -/
def process (self : RpcRequestTransactionsForAddress) (state : GtfaState) (reads : GtfaReads)
    (codec : TransactionCodec Decoded Encoded EncodeError) (signatureText : Signature → String)
    (rounds : Nat) : Option (GtfaResult Encoded EncodeError) :=
  match self.resolvePositions reads with
  | .error result => some result
  | .ok positions => self.processLoop state reads codec signatureText positions rounds
      ⟨self.paginationToken.map fun cursor => (cursor.slot, cursor.transactionIndex % 4294967296),
        none, false, [], false⟩

end RpcRequestTransactionsForAddress

/-- The reads of a call on a storage that does not change. -/
def Reader.gtfaReads (self : Reader) (db : Rocksdb) (keys : HashedKeys) (expired : Nat → Bool)
    (transaction : Signature → ReadResultTransaction) : GtfaReads where
  transactions := self.processTransactionsForAddress db keys expired
  position := Reader.processSignaturePosition db keys expired
  transaction

end Alpamayo
