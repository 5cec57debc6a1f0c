import Alpamayo.Storage.ReadRequests

/-!
This file proves that the readers answer every request once, and that a reader that is closed ends
after few further stages.
-/

namespace Alpamayo

/-- The page of the block in process has these entries. -/
def inProcessScan (request : ReadRequestTransactionsForAddress) (slot : Nat) (block : BlockWithBinary)
    (statuses : List SignatureStatus) : TfaScan :=
  TfaScan.takeRow request.desc request.limit (inProcessRecord slot block) statuses ⟨none, [], true⟩

/-- The second stage of a page of transactions has this request. -/
def nextTransactions (deadline : Nat) (request : ReadRequestTransactionsForAddress)
    (stopSlot : Option Nat) (slot : Nat) (entries : List TfaEntry) : ReadRequest :=
  .transactionsForAddress2 deadline request.address request.desc slot (request.cursor.map Prod.snd)
    stopSlot request.limit entries

namespace ReadRequest

variable {state : ReadState} {moment : ReadMoment} {failed : String → ReadAnswer}
  {future work : ReadFuture} {request : ReadRequest}

/-- The request leads to the work; its deadline has not passed. -/
inductive Works (reader : Reader) : ReadRequest → ReadFuture → Prop where
  | block {deadline slot : Nat} {location : StoredBlock}
      (locates : reader.processBlock false slot = .read location) :
      Works reader (.block deadline slot) (.block location)
  | inflationReward {deadline epoch : Nat} {addresses : List Pubkey} :
      Works reader (.inflationReward deadline epoch addresses) (.inflationReward epoch addresses)
  | signaturesFirst {deadline limit highestSlot : Nat} {commitment : CommitmentLevel}
      {address : Pubkey} {before last : Option Signature}
      {signatures : List RpcConfirmedTransactionStatusWithSignature}
      (opens : reader.firstStage commitment address before (last.getD Signature.default) limit =
        .open highestSlot none signatures) :
      Works reader (.signaturesForAddress deadline commitment address before last limit)
        (.ready (.signaturesForAddress2 deadline address highestSlot none
          (last.getD Signature.default) limit signatures))
  | signaturesIndex {deadline limit highestSlot : Nat} {commitment : CommitmentLevel}
      {address : Pubkey} {before last : Option Signature} {first : Signature}
      {signatures : List RpcConfirmedTransactionStatusWithSignature}
      (opens : reader.firstStage commitment address before (last.getD Signature.default) limit =
        .open highestSlot (some first) signatures) :
      Works reader (.signaturesForAddress deadline commitment address before last limit)
        (.signaturesIndex deadline address highestSlot first (last.getD Signature.default) limit
          signatures)
  | signaturesSecond {deadline slot capacity : Nat} {address : Pubkey} {before : Option Signature}
      {stop : Signature} {signatures : List RpcConfirmedTransactionStatusWithSignature} :
      Works reader (.signaturesForAddress2 deadline address slot before stop capacity signatures)
        (.signatures deadline address slot before stop capacity signatures)
  | transactionsFirst {deadline inProcessSlot : Nat} {request : ReadRequestTransactionsForAddress}
      {inProcess : BlockWithBinary} {statuses : List SignatureStatus}
      (found : reader.tfaInProcess request (reader.scanRange request).1 =
        some (inProcessSlot, inProcess, statuses))
      (open_page : (inProcessScan request inProcessSlot inProcess statuses).finished = true) :
      Works reader (.transactionsForAddress deadline request)
        (.ready (nextTransactions deadline request (reader.scanRange request).2 (inProcessSlot - 1)
          (inProcessScan request inProcessSlot inProcess statuses).entries))
  | transactionsNext {deadline : Nat} {request : ReadRequestTransactionsForAddress}
      (missing : reader.tfaInProcess request (reader.scanRange request).1 = none) :
      Works reader (.transactionsForAddress deadline request)
        (.ready (nextTransactions deadline request (reader.scanRange request).2
          (reader.scanRange request).1 []))
  | transactionsSecond {deadline slot capacity : Nat} {address : Pubkey} {desc : Bool}
      {cursorTransactionIndex stopSlot : Option Nat} {entries : List TfaEntry} :
      Works reader (.transactionsForAddress2 deadline address desc slot cursorTransactionIndex stopSlot
          capacity entries)
        (.transactions deadline address desc slot cursorTransactionIndex stopSlot capacity entries)
  | statuses {deadline : Nat} {signatures : List Signature} {searchTransactionHistory : Bool}
      (some_history :
        (reader.historySignatures searchTransactionHistory signatures).isEmpty = false) :
      Works reader (.signatureStatuses deadline signatures searchTransactionHistory)
        (.statuses signatures (reader.historySignatures searchTransactionHistory signatures)
          (reader.recentStatuses signatures) reader.storageProcessed.finalizedSlot)
  | transaction {deadline : Nat} {signature : Signature}
      (missing : reader.processTransaction false signature = none) :
      Works reader (.transaction deadline signature) (.transactionIndex deadline signature)
  | transactionSecond {deadline : Nat} {index : TransactionIndexValue} {location : StoredBlock}
      (locates : reader.processTransaction2 false index = .read location) :
      Works reader (.transaction2 deadline index) (.transactionFile index location)
  | position {deadline : Nat} {address : Pubkey} {signature : Signature} :
      Works reader (.signaturePosition deadline address signature)
        (.positionIndex deadline address signature)
  | positionSecond {deadline slot : Nat} {address : Pubkey} {signature : Signature} :
      Works reader (.signaturePosition2 deadline address slot signature)
        (.position address slot signature)

theorem readDb_work {name : String} (reads : readDb moment name failed future = .inr work) :
    work = future := by
  unfold readDb at reads
  split at reads
  · cases reads
  · exact (Sum.inr.inj reads).symm

theorem startSignatures_work {deadline limit : Nat} {commitment : CommitmentLevel} {address : Pubkey}
    {before last : Option Signature} {reader : Reader}
    (starts : startSignatures reader moment deadline commitment address before last limit =
      .inr work) :
    Works reader (.signaturesForAddress deadline commitment address before last limit) work := by
  unfold startSignatures at starts
  dsimp only at starts
  split at starts
  · cases starts
  · rename_i opens
    rw [← Sum.inr.inj starts]
    exact .signaturesFirst opens
  · rename_i opens
    rw [readDb_work starts]
    exact .signaturesIndex opens

theorem startTransactions_work {deadline : Nat} {request : ReadRequestTransactionsForAddress}
    {reader : Reader} (starts : startTransactions reader deadline request = .inr work) :
    Works reader (.transactionsForAddress deadline request) work := by
  unfold startTransactions at starts
  dsimp only at starts
  split at starts
  · rename_i found
    split at starts
    · rename_i open_page
      rw [← Sum.inr.inj starts]
      exact .transactionsFirst found open_page
    · cases starts
  · rename_i missing
    rw [← Sum.inr.inj starts]
    exact .transactionsNext missing

theorem startStatuses_work {deadline : Nat} {signatures : List Signature}
    {searchTransactionHistory : Bool} {reader : Reader}
    (starts : startStatuses reader moment signatures searchTransactionHistory = .inr work) :
    Works reader (.signatureStatuses deadline signatures searchTransactionHistory) work := by
  unfold startStatuses at starts
  dsimp only at starts
  split at starts
  · cases starts
  · rename_i some_history
    rw [readDb_work starts]
    exact .statuses (Bool.eq_false_of_not_eq_true some_history)

/-- What a request can lead to. -/
theorem process_work (processed : process state moment request = some (.inr work)) :
    Works state.reader request work := by
  cases request with
  | block deadline slot =>
      replace processed := Option.some.inj processed
      split at processed
      · cases processed
      · rename_i locates
        rw [← Sum.inr.inj processed]
        cases expired : decide (deadline < moment.now) with
        | true =>
            rw [expired] at locates
            cases locates
        | false =>
            rw [expired] at locates
            exact .block locates
  | blockHeight deadline commitment =>
      obtain ⟨result, -, impossible⟩ := Option.map_eq_some_iff.mp processed
      cases impossible
  | inflationReward deadline epoch addresses =>
      replace processed := Option.some.inj processed
      split at processed
      · cases processed
      · rw [readDb_work processed]
        exact .inflationReward
  | signaturesForAddress deadline commitment address before last limit =>
      replace processed := Option.some.inj processed
      split at processed
      · cases processed
      · exact startSignatures_work processed
  | signaturesForAddress2 deadline address slot before stop capacity signatures =>
      replace processed := Option.some.inj processed
      split at processed
      · cases processed
      · rw [readDb_work processed]
        exact .signaturesSecond
  | transactionsForAddress deadline request =>
      replace processed := Option.some.inj processed
      split at processed
      · cases processed
      · exact startTransactions_work processed
  | transactionsForAddress2 deadline address desc slot cursor stopSlot capacity entries =>
      replace processed := Option.some.inj processed
      split at processed
      · cases processed
      · rw [readDb_work processed]
        exact .transactionsSecond
  | signatureStatuses deadline signatures searchTransactionHistory =>
      replace processed := Option.some.inj processed
      split at processed
      · cases processed
      · exact startStatuses_work processed
  | transaction deadline signature =>
      replace processed := Option.some.inj processed
      split at processed
      · cases processed
      · rename_i missing
        rw [readDb_work processed]
        cases expired : decide (deadline < moment.now) with
        | true =>
            rw [expired] at missing
            cases missing
        | false =>
            rw [expired] at missing
            exact .transaction missing
  | transaction2 deadline index =>
      replace processed := Option.some.inj processed
      split at processed
      · cases processed
      · rename_i locates
        rw [← Sum.inr.inj processed]
        cases expired : decide (deadline < moment.now) with
        | true =>
            rw [expired] at locates
            cases locates
        | false =>
            rw [expired] at locates
            exact .transactionSecond locates
  | signaturePosition deadline address signature =>
      replace processed := Option.some.inj processed
      split at processed
      · cases processed
      · rw [readDb_work processed]
        exact .position
  | signaturePosition2 deadline address slot signature =>
      replace processed := Option.some.inj processed
      split at processed
      · cases processed
      · rw [readDb_work processed]
        exact .positionSecond
  | _ => cases processed

/-- The work of a request has fewer stages left than the request. -/
theorem Works.stages {reader : Reader} (works : Works reader request work) :
    work.stagesLeft < request.stages := by
  cases works <;> exact of_decide_eq_true rfl

theorem stages_le (request : ReadRequest) : request.stages ≤ 3 := by
  cases request <;> exact of_decide_eq_true rfl

/-- The requests that only a reader makes. -/
def isLater : ReadRequest → Bool
  | signaturesForAddress2 _ _ _ _ _ _ _ | signaturesForAddress3 _ _ _
  | transactionsForAddress2 _ _ _ _ _ _ _ _ | transactionsForAddress3 _ _ _ | transaction2 _ _
  | signaturePosition2 _ _ _ _ => true
  | _ => false

/-- Only the height of the chain can be searched for ever. -/
theorem process_isLater (later : request.isLater = true) : process state moment request ≠ none := by
  intro hangs
  cases request with
  | signaturesForAddress2 | signaturesForAddress3 | transactionsForAddress2
  | transactionsForAddress3 | transaction2 | signaturePosition2 => cases hangs
  | _ => cases later

end ReadRequest

namespace ReadFuture

variable {allowed : (work : ReadFuture) → work.Output → Prop} {work : ReadFuture}
  {request : ReadRequest}

/-- The work leads to the request with an allowed output. -/
inductive Next (allowed : (work : ReadFuture) → work.Output → Prop) :
    ReadFuture → ReadRequest → Prop where
  | ready {request : ReadRequest} : Next allowed (.ready request) request
  | signaturesIndex {deadline highestSlot capacity : Nat} {address : Pubkey}
      {before stop : Signature} {records : List RpcConfirmedTransactionStatusWithSignature}
      {index : TransactionIndexValue}
      (found : allowed (.signaturesIndex deadline address highestSlot before stop capacity records)
        (some (.ok (some index)))) (reached : index.slot ≤ highestSlot) :
      Next allowed (.signaturesIndex deadline address highestSlot before stop capacity records)
        (.signaturesForAddress2 deadline address index.slot (some before) stop capacity records)
  | signatures {deadline slot capacity : Nat} {address : Pubkey} {before : Option Signature}
      {stop : Signature} {records after : List RpcConfirmedTransactionStatusWithSignature}
      {finished : Bool}
      (found : allowed (.signatures deadline address slot before stop capacity records)
        (some (.ok (after, finished)))) :
      Next allowed (.signatures deadline address slot before stop capacity records)
        (.signaturesForAddress3 deadline after finished)
  | transactions {deadline slot capacity : Nat} {address : Pubkey} {desc : Bool}
      {cursor stopSlot : Option Nat} {entries after : List TfaEntry} {finished : Bool}
      (found : allowed (.transactions deadline address desc slot cursor stopSlot capacity entries)
        (some (.ok (after, finished)))) :
      Next allowed (.transactions deadline address desc slot cursor stopSlot capacity entries)
        (.transactionsForAddress3 deadline after finished)
  | transactionIndex {deadline : Nat} {signature : Signature} {index : TransactionIndexValue}
      (found : allowed (.transactionIndex deadline signature) (some (.ok (some index)))) :
      Next allowed (.transactionIndex deadline signature) (.transaction2 deadline index)
  | positionIndex {deadline : Nat} {address : Pubkey} {signature : Signature}
      {index : TransactionIndexValue}
      (found : allowed (.positionIndex deadline address signature) (some (.ok (some index)))) :
      Next allowed (.positionIndex deadline address signature)
        (.signaturePosition2 deadline address index.slot signature)

/-- What work can lead to. -/
theorem resume_next {output : work.Output} (known : allowed work output)
    (resumed : work.resume output = .inr request) : Next allowed work request := by
  cases work with
  | ready next =>
      rw [← Sum.inr.inj resumed]
      exact .ready
  | signaturesIndex deadline address highestSlot before stop capacity records =>
      rcases output with _ | error | _ | index
      · cases resumed
      · cases resumed
      · cases resumed
      · replace resumed : (if index.slot ≤ highestSlot then _ else _) = Sum.inr request := resumed
        split at resumed
        · rename_i reached
          rw [← Sum.inr.inj resumed]
          exact .signaturesIndex known reached
        · cases resumed
  | signatures deadline address slot before stop capacity records =>
      rcases output with _ | error | found
      · cases resumed
      · cases resumed
      · rw [← Sum.inr.inj resumed]
        exact .signatures known
  | transactions deadline address desc slot cursor stopSlot capacity entries =>
      rcases output with _ | error | found
      · cases resumed
      · cases resumed
      · rw [← Sum.inr.inj resumed]
        exact .transactions known
  | transactionIndex deadline signature =>
      rcases output with _ | error | _ | index
      · cases resumed
      · cases resumed
      · cases resumed
      · rw [← Sum.inr.inj resumed]
        exact .transactionIndex known
  | positionIndex deadline address signature =>
      rcases output with _ | error | _ | index
      · cases resumed
      · cases resumed
      · cases resumed
      · rw [← Sum.inr.inj resumed]
        exact .positionIndex known
  | _ => cases resumed

/-- Work that leads to a further request has a stage for it. -/
theorem Next.stages (next : Next allowed work request) : request.stages ≤ work.stagesLeft := by
  cases next <;> exact Nat.le_refl _

theorem resume_stages {output : work.Output} (resumed : work.resume output = .inr request) :
    request.stages ≤ work.stagesLeft := by
  have next : Next (fun _ _ => True) work request := resume_next trivial resumed
  exact next.stages

/-- The further request is one that a reader makes, if the work comes from a request. -/
theorem Next.isLater {reader : Reader} {first : ReadRequest} (works : first.Works reader work)
    (next : Next allowed work request) : request.isLater = true := by
  cases next with
  | ready =>
      cases works with
      | signaturesFirst | transactionsFirst | transactionsNext => rfl
  | _ => rfl

end ReadFuture

/-- The readers serve their requests in stages. -/
def readService : Service ReadState ReadMoment ReadRequest ReadAnswer where
  Work := ReadFuture
  Output := ReadFuture.Output
  process := ReadRequest.process
  resume := ReadFuture.resume
  stages := ReadRequest.stages
  stagesLeft := ReadFuture.stagesLeft
  process_stages _ _ _ _ processed := (ReadRequest.process_work processed).stages
  resume_stages _ _ _ resumed := ReadFuture.resume_stages resumed

/-- A message of the writer changes the state. -/
def ReadState.Updates (state next : ReadState) : Prop :=
  ∃ message transactions, state.update message transactions = .ok next

namespace readService

variable {I : Type} {count limit : Nat} {setting : readService.Setting}
  {updates : ReadState → ReadState → Prop} {states : Fin count → ReadState}
  {office : readService.Office I count}

/-- No further request hangs a reader. -/
theorem continues : readService.Continues := by
  intro state moment request work output last processed resumed later after
  have works : request.Works state.reader work := ReadRequest.process_work processed
  have next : ReadFuture.Next (fun _ _ => True) work last := ReadFuture.resume_next trivial resumed
  exact ReadRequest.process_isLater (next.isLater works)

/-- A reader that takes no more requests ends after few stages with an answer to each of its requests,
unless a request for the height of the chain hangs it. -/
theorem drains_few {sent : List (I × ReadRequest)} {desk after : readService.Desk I} {ends : Nat}
    (sound : desk.Sound setting limit sent)
    (outputs : ∀ work, ∃ output, setting.output work output) (awake : desk.hung = none)
    (drains : Service.Desk.Drains setting ends desk after) :
    after.hung = none ∧ ends ≤ limit * 3 ∧
      (after.inFlight ≠ [] → ∃ next, after.Finishes setting next) ∧
      (after.inFlight = [] → (after.answered.map Prod.fst).Perm desk.ids) := by
  have stays := drains.awake sound awake continues
  refine ⟨stays, ?_, ?_, ?_⟩
  · have bound := sound.load ReadRequest.stages_le
    have total := drains.load
    omega
  · exact Service.Desk.finishes_of_work stays ⟨0, false⟩ outputs
  · intro done
    have same := drains.ids
    unfold Service.Desk.ids at same ⊢
    rw [stays, done] at same
    exact same

/-- In every run of any number of readers over one queue each request is in one place, an answer
comes from its own request, and a reader that takes no more requests ends with all its answers. -/
theorem run_answersOnce (starts : ∀ place, setting.state (states place))
    (keeps : ∀ {state next}, setting.state state → ReadState.Updates state next →
      setting.state next)
    (outputs : ∀ work, ∃ output, setting.output work output)
    (run : Relation.ReflTransGen (Service.Office.Step setting limit ReadState.Updates)
      (.start states) office) :
    office.ids.Nodup ∧ office.ids.Perm (office.sent.map Prod.fst) ∧
      ∀ place, (office.desks place).inFlight.length ≤ limit ∧
        (∀ id answer, (id, answer) ∈ (office.desks place).answered → ∃ request,
          (id, request) ∈ office.sent ∧ Service.Answers setting request answer) ∧
        ((office.desks place).hung = none → ∀ ends after,
          Service.Desk.Drains setting ends (office.desks place) after →
            after.hung = none ∧ ends ≤ limit * 3 ∧
              (after.inFlight ≠ [] → ∃ next, after.Finishes setting next) ∧
              (after.inFlight = [] →
                (after.answered.map Prod.fst).Perm (office.desks place).ids)) := by
  have kept := (Service.Office.kept_start states starts).run keeps run
  refine ⟨kept.nodup_ids, kept.perm_ids, ?_⟩
  intro place
  have sound := kept.sound place
  refine ⟨sound.room, ?_, ?_⟩
  · intro id answer member
    exact sound.answers (id, answer) member
  · intro awake ends after drains
    exact drains_few sound outputs awake drains

/-- A reader without blocks. -/
def emptyState : ReadState :=
  ⟨⟨⟨⟨1, fun _ => .newNoexists, ⟨0, Nat.zero_lt_one⟩, ⟨0, Nat.zero_lt_one⟩⟩, .empty⟩, none, .default⟩,
    .empty⟩

/-- These requests ask for the place of a signature with a record and of one without. -/
def placeRequest : ReadRequest := .signaturePosition 5 ⟨1⟩ ⟨2⟩

def missingRequest : ReadRequest := .signaturePosition 5 ⟨1⟩ ⟨3⟩

/-- The record of the signature names slot 9. -/
def placedIndex : TransactionIndexValue := ⟨9, 0, 1, none, 3⟩

/-- Two readers take one request each; the first one reads the record and then the place, and the
second one ends between the two. -/
theorem positions_run
    (index : setting.output (.positionIndex 5 ⟨1⟩ ⟨2⟩) (some (.ok (some placedIndex))))
    (missing : setting.output (.positionIndex 5 ⟨1⟩ ⟨3⟩) (some (.ok none)))
    (place : setting.output (.position ⟨1⟩ 9 ⟨2⟩) (some (.ok (some 3)))) :
    ∃ office : readService.Office Nat 2,
      Relation.ReflTransGen (Service.Office.Step setting 1 updates)
        (.start fun _ => emptyState) office ∧
      office.sent = [(7, placeRequest), (8, missingRequest)] ∧
      (office.desks 0).answered = [(7, .signaturePosition (.position (some (9, 3))))] ∧
      (office.desks 1).answered = [(8, .signaturePosition (.position none))] := by
  have sends : Relation.ReflTransGen (Service.Office.Step setting 1 updates)
      (.start fun _ : Fin 2 => emptyState) _ :=
    (Relation.ReflTransGen.single (.send 7 placeRequest List.not_mem_nil)).tail
      (.send 8 missingRequest (by decide))
  have takes := (sends.tail (.take 0 ⟨0, false⟩ rfl rfl Nat.zero_lt_one rfl)).tail
    (.take 1 ⟨0, false⟩ rfl rfl Nat.zero_lt_one rfl)
  have reads := takes.tail (.finish 0 (.finish ⟨0, false⟩ index rfl (List.nil_append _).symm))
  have ends := (reads.tail
    (.finish 1 (.finish ⟨0, false⟩ missing rfl (List.nil_append _).symm))).tail
    (.finish 0 (.finish ⟨0, false⟩ place rfl (List.nil_append _).symm))
  exact ⟨_, ends, rfl, rfl, rfl⟩

/-- Every state and every output is allowed. -/
def anySetting : readService.Setting := ⟨fun _ => True, fun _ _ => True⟩

theorem anySetting_output (work : ReadFuture) : ∃ output, anySetting.output work output := by
  cases work with
  | ready => exact ⟨(), trivial⟩
  | _ => exact ⟨none, trivial⟩

/-- Each answer comes from its own request. -/
theorem run_answersOnce_positions : ∃ office : readService.Office Nat 2,
    office.ids.Perm [7, 8] ∧
      (office.desks 0).answered = [(7, .signaturePosition (.position (some (9, 3))))] ∧
      Service.Answers anySetting placeRequest (.signaturePosition (.position (some (9, 3)))) ∧
      Service.Answers anySetting missingRequest (.signaturePosition (.position none)) := by
  obtain ⟨office, run, sent, first, second⟩ :=
    @positions_run anySetting ReadState.Updates trivial trivial trivial
  obtain ⟨-, ids, desks⟩ :=
    run_answersOnce (fun _ => trivial) (fun _ _ => trivial) anySetting_output run
  rw [sent] at ids
  obtain ⟨-, firstAnswers, -⟩ := desks 0
  obtain ⟨request, known, placed⟩ := firstAnswers 7 _ (by rw [first]; exact List.mem_cons_self)
  obtain ⟨-, secondAnswers, -⟩ := desks 1
  obtain ⟨other, alsoKnown, missing⟩ := secondAnswers 8 _ (by rw [second]; exact List.mem_cons_self)
  rw [sent] at known alsoKnown
  obtain rfl : request = placeRequest := by simpa using known
  obtain rfl : other = missingRequest := by simpa using alsoKnown
  exact ⟨office, ids, first, placed, missing⟩

end readService

end Alpamayo
