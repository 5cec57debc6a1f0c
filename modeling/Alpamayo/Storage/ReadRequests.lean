import Alpamayo.General.Service
import Alpamayo.Storage.InflationReward
import Alpamayo.Storage.ReadLatest
import Alpamayo.Storage.ReadStatuses
import Alpamayo.Storage.ReadTransaction
import Alpamayo.Storage.ReadTransactionsForAddress
import Alpamayo.Storage.RecentFees

/-!
This file models the loop of the readers, which take the requests of one queue and answer them in
stages between the messages of the writer.
-/

namespace Alpamayo

/-- The request for inflation rewards has these answers. -/
inductive ReadResultInflationReward where
  | timeout
  | reward (result : ReadRequestResultInflationReward)
  | readError (error : String)

/-- The check of a blockhash has these answers. -/
inductive ReadResultBlockhashValid where
  | timeout
  | blockhash (slot : Nat) (isValid : Bool)
  | readError (error : String)
  deriving DecidableEq

/-- The height that the commitment level has reached. -/
def Reader.reachedHeight (self : Reader) : CommitmentLevel → Nat
  | .processed => self.storageProcessed.processedHeight
  | .confirmed => self.storageProcessed.confirmedHeight
  | .finalized => self.storageProcessed.finalizedHeight

/-- The request `ReadRequest::BlockhashValid`. -/
def Reader.processBlockhashValid (self : Reader) (expired : Bool) (blockhash : String)
    (commitment : CommitmentLevel) : ReadResultBlockhashValid :=
  if expired then .timeout
  else
    match self.storageProcessed.blockHeights.get blockhash with
    | none => .readError "failed to get block height"
    | some blockHeight => .blockhash (self.reachedSlot commitment)
        (decide (self.reachedHeight commitment < blockHeight + maxProcessingAge))

/-- The requests of the clients, and those that a reader makes of them for the later stages. The
capacity of a list is part of the request. -/
inductive ReadRequest where
  | block (deadline slot : Nat)
  | blockHeight (deadline : Nat) (commitment : CommitmentLevel)
  | blocks (deadline startSlot : Nat) (stop : RpcRequestBlocksUntil) (commitment : CommitmentLevel)
  | blockTime (deadline slot : Nat)
  | inflationReward (deadline epoch : Nat) (addresses : List Pubkey)
  | latestBlockhash (deadline : Nat) (commitment : CommitmentLevel)
  | recentPrioritizationFees (deadline : Nat) (pubkeys : List Pubkey) (percentile : Option Nat)
  | signaturesForAddress (deadline : Nat) (commitment : CommitmentLevel) (address : Pubkey)
      (before last : Option Signature) (limit : Nat)
  | signaturesForAddress2 (deadline : Nat) (address : Pubkey) (slot : Nat) (before : Option Signature)
      (stop : Signature) (capacity : Nat) (signatures : List RpcConfirmedTransactionStatusWithSignature)
  | signaturesForAddress3 (deadline : Nat)
      (signatures : List RpcConfirmedTransactionStatusWithSignature) (finished : Bool)
  | transactionsForAddress (deadline : Nat) (request : ReadRequestTransactionsForAddress)
  | transactionsForAddress2 (deadline : Nat) (address : Pubkey) (desc : Bool) (slot : Nat)
      (cursorTransactionIndex stopSlot : Option Nat) (capacity : Nat) (entries : List TfaEntry)
  | transactionsForAddress3 (deadline : Nat) (entries : List TfaEntry) (finished : Bool)
  | signatureStatuses (deadline : Nat) (signatures : List Signature) (searchTransactionHistory : Bool)
  | transaction (deadline : Nat) (signature : Signature)
  | transaction2 (deadline : Nat) (index : TransactionIndexValue)
  | signaturePosition (deadline : Nat) (address : Pubkey) (signature : Signature)
  | signaturePosition2 (deadline : Nat) (address : Pubkey) (slot : Nat) (signature : Signature)
  | blockhashValid (deadline : Nat) (blockhash : String) (commitment : CommitmentLevel)

/-- The answer has the type of its request; a failed lookup of a transaction has its own text. -/
inductive ReadAnswer where
  | block (result : ReadResultBlock)
  | blockHeight (result : ReadResultBlockHeight)
  | blocks (result : ReadResultBlocks)
  | blockTime (result : ReadResultBlockTime)
  | inflationReward (result : ReadResultInflationReward)
  | latestBlockhash (result : ReadResultLatestBlockhash)
  | recentPrioritizationFees (result : ReadResultRecentPrioritizationFees)
  | signaturesForAddress (result : ReadResultSignaturesForAddress)
  | transactionsForAddress (result : ReadResultTransactionsForAddress)
  | signatureStatuses (result : ReadResultSignatureStatuses)
  | transaction (result : ReadResultTransaction)
  | transactionError (error : String)
  | signaturePosition (result : ReadResultSignaturePosition)
  | blockhashValid (result : ReadResultBlockhashValid)

/-- A future waits for a file or for the threads of the database, or it is ready with the next
request. -/
inductive ReadFuture where
  | ready (request : ReadRequest)
  | block (location : StoredBlock)
  | inflationReward (epoch : Nat) (addresses : List Pubkey)
  | signaturesIndex (deadline : Nat) (address : Pubkey) (highestSlot : Nat) (before stop : Signature)
      (capacity : Nat) (signatures : List RpcConfirmedTransactionStatusWithSignature)
  | signatures (deadline : Nat) (address : Pubkey) (slot : Nat) (before : Option Signature)
      (stop : Signature) (capacity : Nat) (signatures : List RpcConfirmedTransactionStatusWithSignature)
  | transactions (deadline : Nat) (address : Pubkey) (desc : Bool) (slot : Nat)
      (cursorTransactionIndex stopSlot : Option Nat) (capacity : Nat) (entries : List TfaEntry)
  | statuses (signatures history : List Signature) (found : HashMap Signature TransactionStatus)
      (finalizedSlot : Nat)
  | transactionIndex (deadline : Nat) (signature : Signature)
  | transactionFile (index : TransactionIndexValue) (location : StoredBlock)
  | positionIndex (deadline : Nat) (address : Pubkey) (signature : Signature)
  | position (address : Pubkey) (slot : Nat) (signature : Signature)

/-- A read has timed out, has failed, or has its value. -/
abbrev ReadOutput (A : Type) := Option (Except String A)

/-- Each future has its own output. -/
def ReadFuture.Output : ReadFuture → Type
  | ready _ => Unit
  | block _ | transactionFile _ _ => Option (Except ReadFileError Bytes)
  | inflationReward _ _ => ReadOutput ReadRequestResultInflationReward
  | signaturesIndex _ _ _ _ _ _ _ | transactionIndex _ _ | positionIndex _ _ _ =>
      ReadOutput (Option TransactionIndexValue)
  | signatures _ _ _ _ _ _ _ => ReadOutput (List RpcConfirmedTransactionStatusWithSignature × Bool)
  | transactions _ _ _ _ _ _ _ _ => ReadOutput (List TfaEntry × Bool)
  | statuses _ _ _ _ => ReadOutput (List (Signature × TransactionIndexValue))
  | position _ _ _ => ReadOutput (Option Nat)

/-- A reader with the fees of its recent blocks. -/
structure ReadState where
  reader : Reader
  fees : HashMap Nat TransactionsFees

/-- A request is taken at a time; the channel to the threads of the database may be closed. -/
structure ReadMoment where
  now : Nat
  dbClosed : Bool

namespace ReadState

def processedFees (self : ReadState) : StorageProcessedFees :=
  ⟨self.reader.storageProcessed, self.fees⟩

/-- The message of the writer comes with the fees of its block. -/
def update (self : ReadState) (message : ReadWriteSyncMessage)
    (transactions : List (Option TransactionFees)) : Except ReaderError ReadState :=
  (self.reader.update message).map fun reader =>
    { reader
      fees := match message with
        | .blockNew slot block | .blockConfirmed slot (some block) =>
            self.processedFees.addFees slot ⟨block, transactions⟩
        | _ => self.fees }

end ReadState

namespace ReadRequest

/-- The request of this name did not reach the threads of the database. -/
def sendError (name : String) : String := s!"failed to send ReadRequest::{name} request"

/-- A read of the database fails at once if the channel to its threads is closed. -/
def readDb (moment : ReadMoment) (name : String) (failed : String → ReadAnswer)
    (future : ReadFuture) : ReadAnswer ⊕ ReadFuture :=
  if moment.dbClosed then .inl (failed (sendError name)) else .inr future

/-- The first stage of `ReadRequest::SignaturesForAddress`. -/
def startSignatures (reader : Reader) (moment : ReadMoment) (deadline : Nat)
    (commitment : CommitmentLevel) (address : Pubkey) (before last : Option Signature)
    (limit : Nat) : ReadAnswer ⊕ ReadFuture :=
  let stop := last.getD Signature.default
  match reader.firstStage commitment address before stop limit with
  | .finished signatures => .inl (.signaturesForAddress (.signatures signatures true none))
  | .open highestSlot none signatures =>
      .inr (.ready (.signaturesForAddress2 deadline address highestSlot none stop limit signatures))
  | .open highestSlot (some before) signatures =>
      readDb moment "Transaction" (fun error => .signaturesForAddress (.readError error))
        (.signaturesIndex deadline address highestSlot before stop limit signatures)

/-- The first stage of `ReadRequest::TransactionsForAddress`. -/
def startTransactions (reader : Reader) (deadline : Nat)
    (request : ReadRequestTransactionsForAddress) : ReadAnswer ⊕ ReadFuture :=
  let (slot, stopSlot) := reader.scanRange request
  let next slot entries := ReadFuture.ready (.transactionsForAddress2 deadline request.address
    request.desc slot (request.cursor.map Prod.snd) stopSlot request.limit entries)
  match reader.tfaInProcess request slot with
  | some (inProcessSlot, inProcess, statuses) =>
      let scan := TfaScan.takeRow request.desc request.limit (inProcessRecord inProcessSlot inProcess)
        statuses ⟨none, [], true⟩
      if scan.finished then .inr (next (inProcessSlot - 1) scan.entries)
      else .inl (.transactionsForAddress (.transactions scan.entries false))
  | none => .inr (next slot [])

/-- The first stage of `ReadRequest::SignatureStatuses`. -/
def startStatuses (reader : Reader) (moment : ReadMoment) (signatures : List Signature)
    (searchTransactionHistory : Bool) : ReadAnswer ⊕ ReadFuture :=
  let found := reader.recentStatuses signatures
  let history := reader.historySignatures searchTransactionHistory signatures
  if history.isEmpty then .inl (.signatureStatuses (.signatures (createResult signatures found)))
  else readDb moment "SignatureStatuses" (fun error => .signatureStatuses (.readError error))
    (.statuses signatures history found reader.storageProcessed.finalizedSlot)

/-- The request with its stages; a height that is searched for ever has no outcome. -/
def process (self : ReadState) (moment : ReadMoment) : ReadRequest → Option (ReadAnswer ⊕ ReadFuture)
  | .block deadline slot => some (
      match self.reader.processBlock (deadline < moment.now) slot with
      | .answer result => .inl (.block result)
      | .read location => .inr (.block location))
  | .blockHeight deadline commitment =>
      (self.reader.processBlockHeight (deadline < moment.now) commitment).map fun result =>
        .inl (.blockHeight result)
  | .blocks deadline startSlot stop commitment => some (.inl (.blocks
      (self.reader.processBlocks (deadline < moment.now) startSlot stop commitment)))
  | .blockTime deadline slot => some (.inl (.blockTime
      (self.reader.processBlockTime (deadline < moment.now) slot)))
  | .inflationReward deadline epoch addresses => some (
      if deadline < moment.now then .inl (.inflationReward .timeout)
      else readDb moment "InflationReward" (fun error => .inflationReward (.readError error))
        (.inflationReward epoch addresses))
  | .latestBlockhash deadline commitment => some (.inl (.latestBlockhash
      (self.reader.processLatestBlockhash (deadline < moment.now) commitment)))
  | .recentPrioritizationFees deadline pubkeys percentile =>
      some (.inl (.recentPrioritizationFees (self.processedFees.processRecentPrioritizationFees
        (deadline < moment.now) pubkeys percentile)))
  | .signaturesForAddress deadline commitment address before last limit => some (
      if deadline < moment.now then .inl (.signaturesForAddress .timeout)
      else startSignatures self.reader moment deadline commitment address before last limit)
  | .signaturesForAddress2 deadline address slot before stop capacity signatures => some (
      if deadline < moment.now then .inl (.signaturesForAddress .timeout)
      else readDb moment "SignaturesForAddress"
        (fun error => .signaturesForAddress (.readError error))
        (.signatures deadline address slot before stop capacity signatures))
  | .signaturesForAddress3 deadline signatures finished => some (.inl (.signaturesForAddress
      (self.reader.thirdStage (deadline < moment.now) signatures finished)))
  | .transactionsForAddress deadline request => some (
      if deadline < moment.now then .inl (.transactionsForAddress .timeout)
      else startTransactions self.reader deadline request)
  | .transactionsForAddress2 deadline address desc slot cursorTransactionIndex stopSlot capacity
      entries => some (
      if deadline < moment.now then .inl (.transactionsForAddress .timeout)
      else readDb moment "TransactionsForAddress"
        (fun error => .transactionsForAddress (.readError error))
        (.transactions deadline address desc slot cursorTransactionIndex stopSlot capacity entries))
  | .transactionsForAddress3 deadline entries finished => some (.inl (.transactionsForAddress (
      if deadline < moment.now then .timeout
      else
        match self.reader.addTfaBlockTimes entries finished with
        | .ok (entries, finished) => .transactions entries finished
        | .error error => .readError error)))
  | .signatureStatuses deadline signatures searchTransactionHistory => some (
      if deadline < moment.now then .inl (.signatureStatuses .timeout)
      else startStatuses self.reader moment signatures searchTransactionHistory)
  | .transaction deadline signature => some (
      match self.reader.processTransaction (deadline < moment.now) signature with
      | some result => .inl (.transaction result)
      | none => readDb moment "Transaction" .transactionError (.transactionIndex deadline signature))
  | .transaction2 deadline index => some (
      match self.reader.processTransaction2 (deadline < moment.now) index with
      | .answer result => .inl (.transaction result)
      | .read location => .inr (.transactionFile index location))
  | .signaturePosition deadline address signature => some (
      if deadline < moment.now then .inl (.signaturePosition .timeout)
      else readDb moment "Transaction" (fun error => .signaturePosition (.readError error))
        (.positionIndex deadline address signature))
  | .signaturePosition2 deadline address slot signature => some (
      if deadline < moment.now then .inl (.signaturePosition .timeout)
      else readDb moment "SfaPosition" (fun error => .signaturePosition (.readError error))
        (.position address slot signature))
  | .blockhashValid deadline blockhash commitment => some (.inl (.blockhashValid
      (self.reader.processBlockhashValid (deadline < moment.now) blockhash commitment)))

/-- The number of stages that a request can still have. -/
def stages : ReadRequest → Nat
  | .signaturesForAddress _ _ _ _ _ _ | .transactionsForAddress _ _ => 3
  | .signaturesForAddress2 _ _ _ _ _ _ _ | .transactionsForAddress2 _ _ _ _ _ _ _ _
  | .transaction _ _ | .signaturePosition _ _ _ => 2
  | _ => 1

end ReadRequest

namespace ReadFuture

/-- The index of a signature to start from decides where the second stage starts. -/
def resumeSignaturesIndex (deadline : Nat) (address : Pubkey) (highestSlot : Nat)
    (before stop : Signature) (capacity : Nat)
    (signatures : List RpcConfirmedTransactionStatusWithSignature) :
    ReadOutput (Option TransactionIndexValue) → ReadAnswer ⊕ ReadRequest
  | some (.ok (some index)) =>
      if index.slot ≤ highestSlot then
        .inr (.signaturesForAddress2 deadline address index.slot (some before) stop capacity signatures)
      else .inl (.signaturesForAddress (.signatures [] true none))
  | some (.ok none) => .inl (.signaturesForAddress (.signatures [] false (some before)))
  | some (.error error) => .inl (.signaturesForAddress (.readError error))
  | none => .inl (.signaturesForAddress .timeout)

/-- Only finalized records of the history are added. -/
def finishStatuses (signatures : List Signature) (found : HashMap Signature TransactionStatus)
    (finalizedSlot : Nat) :
    ReadOutput (List (Signature × TransactionIndexValue)) → ReadResultSignatureStatuses
  | some (.ok history) => .signatures (createResult signatures (history.foldl (fun found entry =>
      if entry.2.slot ≤ finalizedSlot then found.insert entry.1 entry.2.toStatus else found) found))
  | some (.error error) => .readError error
  | none => .timeout

/-- A future with its output ends in an answer or in the request of the next stage. -/
def resume : (future : ReadFuture) → future.Output → ReadAnswer ⊕ ReadRequest
  | ready request, _ => .inr request
  | block _, result => .inl (.block (finishBlock result))
  | inflationReward _ _, result => .inl (.inflationReward (
      match result with
      | some (.ok result) => .reward result
      | some (.error error) => .readError error
      | none => .timeout))
  | signaturesIndex deadline address highestSlot before stop capacity records, result =>
      resumeSignaturesIndex deadline address highestSlot before stop capacity records result
  | signatures deadline _ _ _ _ _ _, result =>
      match result with
      | some (.ok (records, finished)) => .inr (.signaturesForAddress3 deadline records finished)
      | some (.error error) => .inl (.signaturesForAddress (.readError error))
      | none => .inl (.signaturesForAddress .timeout)
  | transactions deadline _ _ _ _ _ _ _, result =>
      match result with
      | some (.ok (entries, finished)) => .inr (.transactionsForAddress3 deadline entries finished)
      | some (.error error) => .inl (.transactionsForAddress (.readError error))
      | none => .inl (.transactionsForAddress .timeout)
  | statuses wanted _ found finalizedSlot, result =>
      .inl (.signatureStatuses (finishStatuses wanted found finalizedSlot result))
  | transactionIndex deadline _, result =>
      match result with
      | some (.ok (some index)) => .inr (.transaction2 deadline index)
      | some (.ok none) => .inl (.transaction .notFound)
      | some (.error error) => .inl (.transactionError error)
      | none => .inl (.transaction .timeout)
  | transactionFile index location, result =>
      .inl (.transaction (finishTransaction index location result))
  | positionIndex deadline address signature, result =>
      match result with
      | some (.ok (some index)) => .inr (.signaturePosition2 deadline address index.slot signature)
      | some (.ok none) => .inl (.signaturePosition (.position none))
      | some (.error error) => .inl (.signaturePosition (.readError error))
      | none => .inl (.signaturePosition .timeout)
  | position _ slot _, result => .inl (.signaturePosition (
      match result with
      | some (.ok found) => .position (found.map fun index => (slot, index))
      | some (.error error) => .readError error
      | none => .timeout))

/-- The number of stages after the future. -/
def stagesLeft : ReadFuture → Nat
  | ready request => request.stages
  | signaturesIndex _ _ _ _ _ _ _ => 2
  | signatures _ _ _ _ _ _ _ | transactions _ _ _ _ _ _ _ _ | transactionIndex _ _
  | positionIndex _ _ _ => 1
  | _ => 0

end ReadFuture

end Alpamayo
