import Alpamayo.Proof.ReadLoop

/-!
This file shows that the stages of a request give the answer of one moment when the storage does not
change.
-/

namespace Alpamayo

/-- The database and the files of a storage that does not change. -/
structure ReadWorld where
  db : Rocksdb
  keys : HashedKeys
  rewards : InflationRewardIndex
  hasher : EpochRewardsHasher
  files : StorageFilesRead
  disk : Disk

/-- A reader has this text for a slot whose cell has another slot. -/
def itemSlotMismatch : String := "item/slot mismatch"

namespace ReadWorld

variable (world : ReadWorld)

def readBlock (location : StoredBlock) : Except ReadFileError Bytes :=
  world.files.read world.disk location.storageId location.offset location.size

def readTransaction (index : TransactionIndexValue) (location : StoredBlock) :
    Except ReadFileError Bytes :=
  world.files.read world.disk location.storageId (location.offset + index.offset) index.size

def readReward (epoch : Nat) (addresses : List Pubkey) :
    Except String ReadRequestResultInflationReward :=
  spawnInflationReward (fun _ => world.rewards) world.hasher epoch addresses

/-- A read of the database has the value, or it fails with a text of its own. -/
structure Tells {A : Type} (value : A) (output : ReadOutput A) : Prop where
  value : ∀ found, output = some (.ok found) → found = value
  failed : ∀ error, output = some (.error error) → error ≠ itemSlotMismatch

theorem tells_value {A : Type} (value : A) : Tells value (some (.ok value)) where
  value found same := (Except.ok.inj (Option.some.inj same)).symm
  failed error impossible := by cases impossible

/-- A read ends with its value unless it fails or times out. -/
def Outputs : (work : ReadFuture) → work.Output → Prop
  | .ready _, _ => True
  | .block location, output => output = none ∨ output = some (world.readBlock location)
  | .inflationReward epoch addresses, output =>
      ∀ found, output = some (.ok found) → world.readReward epoch addresses = .ok found
  | .signaturesIndex _ _ _ before _ _ _, output =>
      Tells (world.db.transactionIndex.get (world.keys.signatureKey before)) output
  | .signatures _ address slot before stop capacity records, output =>
      Tells (world.db.spawnSignatiresForAddress world.keys address slot before stop capacity records)
        output
  | .transactions _ address desc slot cursorTransactionIndex stopSlot capacity entries, output =>
      Tells (world.db.spawnTransactionsForAddress world.keys address slot desc cursorTransactionIndex
        stopSlot capacity entries) output
  | .statuses _ history _ _, output => ∀ found, output = some (.ok found) →
      spawnSignatureStatuses world.db.transactionRows world.keys history = .ok found
  | .transactionIndex _ signature, output | .positionIndex _ _ signature, output =>
      Tells (world.db.transactionIndex.get (world.keys.signatureKey signature)) output
  | .transactionFile index location, output =>
      output = none ∨ output = some (world.readTransaction index location)
  | .position address slot signature, output =>
      Tells (world.db.spawnSfaPosition world.keys address slot signature) output

/-- The place of the signature in the row of its slot. -/
def plainPosition (address : Pubkey) (slot : Nat) (signature : Signature) : ReadAnswer :=
  .signaturePosition (.position ((world.db.spawnSfaPosition world.keys address slot signature).map
    fun index => (slot, index)))

end ReadWorld

/-- The request has timed out, or a read of the database has failed; a mismatch of the cells is found
by the reader itself. -/
def ReadAnswer.isFailure : ReadAnswer → Bool
  | block .timeout | blockHeight .timeout | blocks .timeout | blockTime .timeout
  | inflationReward .timeout | inflationReward (.readError _) | latestBlockhash .timeout
  | recentPrioritizationFees .timeout | signaturesForAddress .timeout
  | transactionsForAddress .timeout | signatureStatuses .timeout
  | signatureStatuses (.readError _) | transaction .timeout | transactionError _
  | signaturePosition .timeout | signaturePosition (.readError _) | blockhashValid .timeout => true
  | signaturesForAddress (.readError error) | transactionsForAddress (.readError error) =>
      error ≠ itemSlotMismatch
  | _ => false

namespace ReadState

variable (self : ReadState) (world : ReadWorld)

/-- The last stages of a page of transactions. -/
def plainTimes (entries : List TfaEntry) (finished : Bool) : ReadAnswer :=
  .transactionsForAddress (
    match self.reader.addTfaBlockTimes entries finished with
    | .ok (entries, finished) => .transactions entries finished
    | .error error => .readError error)

def plainTransactions (address : Pubkey) (desc : Bool) (slot : Nat)
    (cursorTransactionIndex stopSlot : Option Nat) (capacity : Nat) (entries : List TfaEntry) :
    ReadAnswer :=
  let (entries, finished) := world.db.spawnTransactionsForAddress world.keys address slot desc
    cursorTransactionIndex stopSlot capacity entries
  self.plainTimes entries finished

/-- The last stages of a page of signatures. -/
def plainSignatures (address : Pubkey) (slot : Nat) (before : Option Signature) (stop : Signature)
    (capacity : Nat) (signatures : List RpcConfirmedTransactionStatusWithSignature) : ReadAnswer :=
  .signaturesForAddress (self.reader.secondStage world.db world.keys (fun _ => false) address slot
    before stop capacity signatures)

/-- The last stages of the request for a transaction. -/
def plainTransaction (index : TransactionIndexValue) : ReadResultTransaction :=
  match self.reader.processTransaction2 false index with
  | .answer result => result
  | .read location => finishTransaction index location (some (world.readTransaction index location))

/-- The answer of one moment without a deadline. -/
def plainAnswer : ReadRequest → Option ReadAnswer
  | .block _ slot => some (.block (self.reader.answerBlock false slot fun location =>
      some (world.readBlock location)))
  | .blockHeight _ commitment => (self.reader.processBlockHeight false commitment).map .blockHeight
  | .blocks _ startSlot stop commitment => some (.blocks
      (self.reader.processBlocks false startSlot stop commitment))
  | .blockTime _ slot => some (.blockTime (self.reader.processBlockTime false slot))
  | .inflationReward _ epoch addresses => some (.inflationReward (
      match world.readReward epoch addresses with
      | .ok result => .reward result
      | .error error => .readError error))
  | .latestBlockhash _ commitment => some (.latestBlockhash
      (self.reader.processLatestBlockhash false commitment))
  | .recentPrioritizationFees _ pubkeys percentile => some (.recentPrioritizationFees
      (self.processedFees.processRecentPrioritizationFees false pubkeys percentile))
  | .signaturesForAddress _ commitment address before last limit => some (.signaturesForAddress
      (self.reader.processSignaturesForAddress world.db world.keys (fun _ => false) commitment address
        before last limit))
  | .signaturesForAddress2 _ address slot before stop capacity signatures => some
      (self.plainSignatures world address slot before stop capacity signatures)
  | .signaturesForAddress3 _ signatures finished => some (.signaturesForAddress
      (self.reader.thirdStage false signatures finished))
  | .transactionsForAddress _ request => some (.transactionsForAddress
      (self.reader.processTransactionsForAddress world.db world.keys (fun _ => false) request))
  | .transactionsForAddress2 _ address desc slot cursorTransactionIndex stopSlot capacity entries =>
      some (self.plainTransactions world address desc slot cursorTransactionIndex stopSlot capacity
        entries)
  | .transactionsForAddress3 _ entries finished => some (self.plainTimes entries finished)
  | .signatureStatuses _ signatures searchTransactionHistory => some (.signatureStatuses
      (self.reader.processSignatureStatuses world.db.transactionRows world.keys false false
        searchTransactionHistory signatures))
  | .transaction _ signature => some (.transaction (answerTransaction self.reader false signature
      (some (world.db.transactionIndex.get (world.keys.signatureKey signature))) self.reader false
      fun index location => some (world.readTransaction index location)))
  | .transaction2 _ index => some (.transaction (self.plainTransaction world index))
  | .signaturePosition _ address signature => some (.signaturePosition
      (Reader.processSignaturePosition world.db world.keys (fun _ => false) address signature))
  | .signaturePosition2 _ address slot signature => some
      (world.plainPosition address slot signature)
  | .blockhashValid _ blockhash commitment => some (.blockhashValid
      (self.reader.processBlockhashValid false blockhash commitment))

/-- The answer that work leads to without a deadline. -/
def plainWork : ReadFuture → Option ReadAnswer
  | .ready request => self.plainAnswer world request
  | .block location => some (.block (finishBlock (some (world.readBlock location))))
  | .inflationReward epoch addresses => self.plainAnswer world (.inflationReward 0 epoch addresses)
  | .signaturesIndex _ address highestSlot before stop capacity records => some (
      match world.db.transactionIndex.get (world.keys.signatureKey before) with
      | some index =>
          if index.slot ≤ highestSlot then
            self.plainSignatures world address index.slot (some before) stop capacity records
          else .signaturesForAddress (.signatures [] true none)
      | none => .signaturesForAddress (.signatures [] false (some before)))
  | .signatures _ address slot before stop capacity records =>
      some (self.plainSignatures world address slot before stop capacity records)
  | .transactions _ address desc slot cursorTransactionIndex stopSlot capacity entries =>
      some (self.plainTransactions world address desc slot cursorTransactionIndex stopSlot capacity
        entries)
  | .statuses signatures history found finalizedSlot => some (.signatureStatuses (
      match spawnSignatureStatuses world.db.transactionRows world.keys history with
      | .ok history => ReadFuture.finishStatuses signatures found finalizedSlot (some (.ok history))
      | .error error => .readError error))
  | .transactionIndex _ signature => some (.transaction (
      match world.db.transactionIndex.get (world.keys.signatureKey signature) with
      | some index => self.plainTransaction world index
      | none => .notFound))
  | .transactionFile index location => some (.transaction
      (finishTransaction index location (some (world.readTransaction index location))))
  | .positionIndex _ address signature => some (
      match world.db.transactionIndex.get (world.keys.signatureKey signature) with
      | some index => world.plainPosition address index.slot signature
      | none => .signaturePosition (.position none))
  | .position address slot signature => some (world.plainPosition address slot signature)

end ReadState

namespace ReadState

variable {self : ReadState} {world : ReadWorld} {moment : ReadMoment}

/-- A closed channel has a longer text than a mismatch. -/
theorem sendError_ne (name : String) : ReadRequest.sendError name ≠ itemSlotMismatch := by
  intro same
  have lengths : ("failed to send ReadRequest::" ++ name ++ " request").length =
      "item/slot mismatch".length := congrArg String.length same
  have first : "failed to send ReadRequest::".length = 28 := by decide
  have other : "item/slot mismatch".length = 18 := by decide
  rw [String.length_append, String.length_append, first, other] at lengths
  omega

theorem readDb_failed {name : String} {failed : String → ReadAnswer} {future : ReadFuture}
    {answer : ReadAnswer}
    (fails : ∀ error, error ≠ itemSlotMismatch → (failed error).isFailure = true)
    (reads : ReadRequest.readDb moment name failed future = .inl answer) :
    answer.isFailure = true := by
  unfold ReadRequest.readDb at reads
  split at reads
  · rw [← Sum.inl.inj reads]
    exact fails _ (sendError_ne _)
  · cases reads

/-- A stage that only reads the database gives no other answer. -/
theorem readOnly_failed {expired : Prop} [Decidable expired] {timeout answer : ReadAnswer}
    {name : String} {failed : String → ReadAnswer} {future : ReadFuture}
    (late : timeout.isFailure = true)
    (fails : ∀ error, error ≠ itemSlotMismatch → (failed error).isFailure = true)
    (reads : (if expired then .inl timeout else ReadRequest.readDb moment name failed future) =
      Sum.inl answer) : answer.isFailure = true := by
  split at reads
  · rw [← Sum.inl.inj reads]
    exact late
  · exact readDb_failed fails reads

/-- An answer that comes at once is the one of the moment, with or without the deadline. -/
theorem plain_of_expired (answer : Bool → ReadAnswer) {expired : Bool} {plain : Option ReadAnswer}
    {given : ReadAnswer} (fails : (answer true).isFailure = true) (same : plain = some (answer false))
    (gives : answer expired = given) : given.isFailure = true ∨ plain = some given := by
  rw [← gives]
  cases expired with
  | true => exact Or.inl fails
  | false => exact Or.inr same

/-- A time limit that has passed gives a failure. -/
theorem process_plain {request : ReadRequest} {answer : ReadAnswer}
    (processed : request.process self moment = some (.inl answer)) :
    answer.isFailure = true ∨ self.plainAnswer world request = some answer := by
  cases request with
  | block deadline slot =>
      replace processed := Option.some.inj processed
      cases expired : decide (deadline < moment.now) with
      | true =>
          rw [expired] at processed
          rw [← Sum.inl.inj processed]
          exact Or.inl rfl
      | false =>
          rw [expired] at processed
          split at processed
          · rename_i result locates
            rw [← Sum.inl.inj processed]
            right
            simp only [plainAnswer, Reader.answerBlock, locates]
          · cases processed
  | blockHeight deadline commitment =>
      obtain ⟨result, found, same⟩ := Option.map_eq_some_iff.mp processed
      rw [← Sum.inl.inj same]
      cases expired : decide (deadline < moment.now) with
      | true =>
          rw [expired] at found
          rw [← Option.some.inj found]
          exact Or.inl rfl
      | false =>
          rw [expired] at found
          right
          simp only [plainAnswer, found, Option.map_some]
  | blocks deadline startSlot stop commitment =>
      apply plain_of_expired
        (fun expired => .blocks (self.reader.processBlocks expired startSlot stop commitment)) rfl rfl
      exact Sum.inl.inj (Option.some.inj processed)
  | blockTime deadline slot =>
      apply plain_of_expired
        (fun expired => .blockTime (self.reader.processBlockTime expired slot)) rfl rfl
      exact Sum.inl.inj (Option.some.inj processed)
  | latestBlockhash deadline commitment =>
      apply plain_of_expired
        (fun expired => .latestBlockhash (self.reader.processLatestBlockhash expired commitment))
        rfl rfl
      exact Sum.inl.inj (Option.some.inj processed)
  | recentPrioritizationFees deadline pubkeys percentile =>
      apply plain_of_expired (fun expired => .recentPrioritizationFees
        (self.processedFees.processRecentPrioritizationFees expired pubkeys percentile)) rfl rfl
      exact Sum.inl.inj (Option.some.inj processed)
  | blockhashValid deadline blockhash commitment =>
      apply plain_of_expired (fun expired => .blockhashValid
        (self.reader.processBlockhashValid expired blockhash commitment)) rfl rfl
      exact Sum.inl.inj (Option.some.inj processed)
  | signaturesForAddress3 deadline signatures finished =>
      apply plain_of_expired (fun expired => .signaturesForAddress
        (self.reader.thirdStage expired signatures finished)) rfl rfl
      exact Sum.inl.inj (Option.some.inj processed)
  | inflationReward deadline epoch addresses =>
      exact Or.inl (readOnly_failed rfl (fun _ _ => rfl) (Option.some.inj processed))
  | signaturesForAddress deadline commitment address before last limit =>
      replace processed := Option.some.inj processed
      split at processed
      · rw [← Sum.inl.inj processed]
        exact Or.inl rfl
      · unfold ReadRequest.startSignatures at processed
        dsimp only at processed
        split at processed
        · rename_i opens
          rw [← Sum.inl.inj processed]
          right
          simp only [plainAnswer, Reader.processSignaturesForAddress, opens]
          rfl
        · cases processed
        · exact Or.inl (readDb_failed (fun _ => decide_eq_true) processed)
  | signaturesForAddress2 deadline address slot before stop capacity signatures =>
      exact Or.inl (readOnly_failed rfl (fun _ => decide_eq_true) (Option.some.inj processed))
  | transactionsForAddress deadline request =>
      replace processed := Option.some.inj processed
      split at processed
      · rw [← Sum.inl.inj processed]
        exact Or.inl rfl
      · unfold ReadRequest.startTransactions at processed
        dsimp only at processed
        split at processed
        · rename_i found
          split at processed
          · cases processed
          · rename_i full
            rw [← Sum.inl.inj processed]
            right
            simp only [plainAnswer, Reader.processTransactionsForAddress, found]
            rw [if_neg Bool.false_ne_true, if_neg full]
        · cases processed
  | transactionsForAddress2 deadline address desc slot cursor stopSlot capacity entries =>
      exact Or.inl (readOnly_failed rfl (fun _ => decide_eq_true) (Option.some.inj processed))
  | signaturePosition deadline address signature =>
      exact Or.inl (readOnly_failed rfl (fun _ _ => rfl) (Option.some.inj processed))
  | signaturePosition2 deadline address slot signature =>
      exact Or.inl (readOnly_failed rfl (fun _ _ => rfl) (Option.some.inj processed))
  | transactionsForAddress3 deadline entries finished =>
      replace processed := Sum.inl.inj (Option.some.inj processed)
      rw [← processed]
      split
      · exact Or.inl rfl
      · exact Or.inr rfl
  | signatureStatuses deadline signatures searchTransactionHistory =>
      replace processed := Option.some.inj processed
      split at processed
      · rw [← Sum.inl.inj processed]
        exact Or.inl rfl
      · unfold ReadRequest.startStatuses at processed
        dsimp only at processed
        split at processed
        · rename_i no_history
          rw [← Sum.inl.inj processed]
          right
          simp only [plainAnswer, Reader.processSignatureStatuses]
          rw [if_neg Bool.false_ne_true, if_pos no_history]
        · exact Or.inl (readDb_failed (fun _ _ => rfl) processed)
  | transaction deadline signature =>
      replace processed := Option.some.inj processed
      cases expired : decide (deadline < moment.now) with
      | true =>
          rw [expired] at processed
          rw [← Sum.inl.inj processed]
          exact Or.inl rfl
      | false =>
          rw [expired] at processed
          split at processed
          · rename_i found
            rw [← Sum.inl.inj processed]
            right
            simp only [plainAnswer, answerTransaction, found]
          · exact Or.inl (readDb_failed (fun _ _ => rfl) processed)
  | transaction2 deadline index =>
      replace processed := Option.some.inj processed
      cases expired : decide (deadline < moment.now) with
      | true =>
          rw [expired] at processed
          rw [← Sum.inl.inj processed]
          exact Or.inl rfl
      | false =>
          rw [expired] at processed
          split at processed
          · rename_i locates
            rw [← Sum.inl.inj processed]
            right
            simp only [plainAnswer, plainTransaction, locates]
          · cases processed

theorem plainTransactions_request (request : ReadRequestTransactionsForAddress) (slot : Nat)
    (stopSlot : Option Nat) (entries : List TfaEntry) :
    self.plainTransactions world request.address request.desc slot (request.cursor.map Prod.snd)
      stopSlot request.limit entries = .transactionsForAddress (self.reader.transactionsForAddress2
        world.db world.keys (fun _ => false) request slot stopSlot entries) := by
  unfold plainTransactions plainTimes Reader.transactionsForAddress2
  rw [if_neg Bool.false_ne_true]
  exact (congrArg ReadAnswer.transactionsForAddress (if_neg Bool.false_ne_true)).symm

/-- The work of a request leads to the same answer. -/
theorem plainWork_eq {request : ReadRequest} {work : ReadFuture}
    (works : request.Works self.reader work) :
    self.plainWork world work = self.plainAnswer world request := by
  cases works with
  | block locates => simp only [plainWork, plainAnswer, Reader.answerBlock, locates]
  | inflationReward => rfl
  | signaturesFirst opens =>
      simp only [plainWork, plainAnswer, plainSignatures, Reader.processSignaturesForAddress, opens]
      rfl
  | signaturesIndex opens =>
      simp only [plainWork, plainAnswer, plainSignatures, Reader.processSignaturesForAddress, opens]
      rw [if_neg Bool.false_ne_true]
      cases world.db.transactionIndex.get _ with
      | none => rfl
      | some index =>
          dsimp only
          split
          · rfl
          · rfl
  | signaturesSecond => rfl
  | transactionsFirst found open_page =>
      simp only [plainWork, plainAnswer, Reader.processTransactionsForAddress, found]
      unfold inProcessScan at open_page
      rw [if_neg Bool.false_ne_true, if_pos open_page]
      exact congrArg some (plainTransactions_request _ _ _ _)
  | transactionsNext missing =>
      simp only [plainWork, plainAnswer, Reader.processTransactionsForAddress, missing]
      rw [if_neg Bool.false_ne_true]
      exact congrArg some (plainTransactions_request _ _ _ _)
  | transactionsSecond => rfl
  | statuses some_history =>
      simp only [plainWork, plainAnswer, Reader.processSignatureStatuses, some_history]
      rw [if_neg Bool.false_ne_true, if_neg Bool.false_ne_true, if_neg Bool.false_ne_true]
      cases spawnSignatureStatuses _ _ _ with
      | error error => rfl
      | ok history => rfl
  | transaction missing =>
      simp only [plainWork, plainAnswer, answerTransaction, missing]
      cases world.db.transactionIndex.get _ with
      | none => rfl
      | some index => rfl
  | transactionSecond locates =>
      simp only [plainWork, plainAnswer, plainTransaction, locates]
  | position =>
      simp only [plainWork, plainAnswer, Reader.processSignaturePosition]
      rw [if_neg Bool.false_ne_true]
      cases world.db.transactionIndex.get _ with
      | none => rfl
      | some index => rfl
  | positionSecond => rfl

/-- Work that leads to a further request leads to its answer. -/
theorem plainAnswer_next {work : ReadFuture} {request : ReadRequest}
    (next : work.Next world.Outputs request) :
    self.plainAnswer world request = self.plainWork world work := by
  cases next with
  | ready => rfl
  | signaturesIndex found reached =>
      have same := found.value _ rfl
      simp only [plainAnswer, plainWork, ← same]
      rw [if_pos reached]
  | signatures found =>
      have same := found.value _ rfl
      simp only [plainAnswer, plainWork, plainSignatures, Reader.secondStage, ← same]
      rw [if_neg Bool.false_ne_true]
  | transactions found =>
      have same := found.value _ rfl
      simp only [plainAnswer, plainWork, plainTransactions, ← same]
  | transactionIndex found =>
      have same := found.value _ rfl
      simp only [plainAnswer, plainWork, ← same]
  | positionIndex found =>
      have same := found.value _ rfl
      simp only [plainAnswer, plainWork, ← same]

/-- Work that ends with an answer ends with the one of the moment. -/
theorem resume_plain {work : ReadFuture} {output : work.Output} {answer : ReadAnswer}
    (allowed : world.Outputs work output) (resumed : work.resume output = .inl answer) :
    answer.isFailure = true ∨ self.plainWork world work = some answer := by
  cases work with
  | ready next => cases resumed
  | block location =>
      rw [← Sum.inl.inj resumed]
      rcases allowed with missing | found
      · rw [missing]
        exact Or.inl rfl
      · rw [found]
        exact Or.inr rfl
  | transactionFile index location =>
      rw [← Sum.inl.inj resumed]
      rcases allowed with missing | found
      · rw [missing]
        exact Or.inl rfl
      · rw [found]
        exact Or.inr rfl
  | inflationReward epoch addresses =>
      rw [← Sum.inl.inj resumed]
      rcases output with _ | error | result
      · exact Or.inl rfl
      · exact Or.inl rfl
      · right
        have same := allowed _ rfl
        simp only [plainWork, plainAnswer, same]
  | signaturesIndex deadline address highestSlot before stop capacity records =>
      rcases output with _ | error | _ | index
      · rw [← Sum.inl.inj resumed]
        exact Or.inl rfl
      · rw [← Sum.inl.inj resumed]
        exact Or.inl (decide_eq_true (allowed.failed _ rfl))
      · rw [← Sum.inl.inj resumed]
        right
        have same := allowed.value _ rfl
        simp only [plainWork, ← same]
      · right
        have same := allowed.value _ rfl
        replace resumed : (if index.slot ≤ highestSlot then _ else _) = Sum.inl answer := resumed
        simp only [plainWork, ← same]
        split at resumed
        · cases resumed
        · rename_i beyond
          rw [← Sum.inl.inj resumed, if_neg beyond]
  | signatures deadline address slot before stop capacity records =>
      left
      rcases output with _ | error | found
      · rw [← Sum.inl.inj resumed]
        rfl
      · rw [← Sum.inl.inj resumed]
        exact decide_eq_true (allowed.failed _ rfl)
      · cases resumed
  | transactions deadline address desc slot cursor stopSlot capacity entries =>
      left
      rcases output with _ | error | found
      · rw [← Sum.inl.inj resumed]
        rfl
      · rw [← Sum.inl.inj resumed]
        exact decide_eq_true (allowed.failed _ rfl)
      · cases resumed
  | statuses wanted history found finalizedSlot =>
      rw [← Sum.inl.inj resumed]
      rcases output with _ | error | read
      · exact Or.inl rfl
      · exact Or.inl rfl
      · right
        have same := allowed _ rfl
        simp only [plainWork, same]
  | transactionIndex deadline signature =>
      rcases output with _ | error | _ | index
      · rw [← Sum.inl.inj resumed]
        exact Or.inl rfl
      · rw [← Sum.inl.inj resumed]
        exact Or.inl rfl
      · rw [← Sum.inl.inj resumed]
        right
        have same := allowed.value _ rfl
        simp only [plainWork, ← same]
      · cases resumed
  | positionIndex deadline address signature =>
      rcases output with _ | error | _ | index
      · rw [← Sum.inl.inj resumed]
        exact Or.inl rfl
      · rw [← Sum.inl.inj resumed]
        exact Or.inl rfl
      · rw [← Sum.inl.inj resumed]
        right
        have same := allowed.value _ rfl
        simp only [plainWork, ← same]
      · cases resumed
  | position address slot signature =>
      rw [← Sum.inl.inj resumed]
      rcases output with _ | error | found
      · exact Or.inl rfl
      · exact Or.inl rfl
      · right
        have same := allowed.value _ rfl
        simp only [plainWork, ReadWorld.plainPosition, ← same]

/-- Nothing changes in the storage. -/
def steady (self : ReadState) (world : ReadWorld) : readService.Setting := ⟨(· = self), world.Outputs⟩

/-- Every later request has the answer of the first one. -/
theorem plainAnswer_leads {request last : ReadRequest}
    (leads : Service.Leads (self.steady world) request last) :
    self.plainAnswer world last = self.plainAnswer world request := by
  induction leads with
  | refl => rfl
  | step before holds processed allowed resumed ih =>
      rw [holds] at processed
      rw [plainAnswer_next (ReadFuture.resume_next allowed resumed),
        plainWork_eq (ReadRequest.process_work processed), ih]

/-- The stages of a request together give the answer of one moment. -/
theorem answers_plain {request : ReadRequest} {answer : ReadAnswer}
    (answers : Service.Answers (self.steady world) request answer) :
    answer.isFailure = true ∨ self.plainAnswer world request = some answer := by
  cases answers with
  | now before holds processed =>
      rw [holds] at processed
      rw [← plainAnswer_leads before]
      exact process_plain processed
  | later needs allowed resumed =>
      obtain ⟨middle, state, moment, leads, holds, processed⟩ := needs
      rw [holds] at processed
      rw [← plainAnswer_leads leads, ← plainWork_eq (ReadRequest.process_work processed)]
      exact resume_plain allowed resumed

end ReadState

namespace readService

variable {I : Type} {count limit : Nat} {state : ReadState} {world : ReadWorld}
  {office : readService.Office I count}

/-- While the storage does not change, the readers answer every request with its answer of one moment,
whatever the order of the stages of all requests, unless it times out or a read fails. -/
theorem run_answersPlainly
    (run : Relation.ReflTransGen
      (Service.Office.Step (state.steady world) limit fun _ _ => False)
      (.start fun _ => state) office) :
    ∀ place id answer, (id, answer) ∈ (office.desks place).answered → ∃ request,
      (id, request) ∈ office.sent ∧
        (answer.isFailure = true ∨ state.plainAnswer world request = some answer) := by
  intro place id answer member
  have start : (Service.Office.start fun _ => state : readService.Office I count).Kept
      (state.steady world) limit := Service.Office.kept_start _ fun _ => rfl
  have kept := start.run (fun _ impossible => impossible.elim) run
  obtain ⟨request, sent, answers⟩ := (kept.sound place).answers (id, answer) member
  exact ⟨request, sent, ReadState.answers_plain answers⟩

/-- The storage has the record of one signature and the row of its slot. -/
def placedWorld : ReadWorld where
  db := { Rocksdb.empty with
    transactionIndex := HashMap.empty.insert 2 placedIndex
    sfaIndex := SortedMap.empty.insert (SfaKey.concat 0 9) [⟨⟨2⟩, none, none, 3, false, false⟩] }
  keys := ⟨fun signature => BitVec.ofNat 64 signature.value, fun _ => 0⟩
  rewards := .empty
  hasher _ _ _ := 0
  files := ⟨[], .empty⟩
  disk _ := ⟨0, fun _ => 0⟩

/-- The answers of both stages together are those of one moment. -/
theorem run_answersPlainly_positions :
    emptyState.plainAnswer placedWorld placeRequest =
        some (.signaturePosition (.position (some (9, 3)))) ∧
      emptyState.plainAnswer placedWorld missingRequest =
        some (.signaturePosition (.position none)) := by
  obtain ⟨office, run, sent, first, second⟩ :=
    @positions_run (emptyState.steady placedWorld) (fun _ _ => False) (ReadWorld.tells_value _)
      (ReadWorld.tells_value _) (ReadWorld.tells_value _)
  have answers := run_answersPlainly run
  rw [sent] at answers
  obtain ⟨request, known, failed | placed⟩ :=
    answers 0 7 _ (by rw [first]; exact List.mem_cons_self)
  · cases failed
  obtain ⟨other, alsoKnown, failed | missing⟩ :=
    answers 1 8 _ (by rw [second]; exact List.mem_cons_self)
  · cases failed
  obtain rfl : request = placeRequest := by simpa using known
  obtain rfl : other = missingRequest := by simpa using alsoKnown
  exact ⟨placed, missing⟩

end readService

end Alpamayo
