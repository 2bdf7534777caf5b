import Multiverse.Common.Template

/-! # Transaction checks of the core protocol

`CMvCoreProtocol::VerifyTransaction`, which the transaction pool runs against
the outputs a transaction's inputs spend at the pool's fork height, and
`CMvCoreProtocol::VerifyBlockTx`, which a new block runs against the contexts
of its transactions at the height of its previous block. Both sum the inputs
and check the signature the same way; only `VerifyTransaction` compares the
input destinations and asks a fork template for its locked coins.
-/

namespace Multiverse

/-- `MvErr` of `src/error.h`, without the wallet's codes. -/
inductive MvErr where
  | MV_FAILED
  | MV_OK
  | MV_ERR_UNAVAILABLE
  | MV_ERR_NOT_FOUND
  | MV_ERR_ALREADY_HAVE
  | MV_ERR_MISSING_PREV
  | MV_ERR_SYS_DATABASE_ERROR
  | MV_ERR_SYS_OUT_OF_DISK_SPACE
  | MV_ERR_SYS_STORAGE_ERROR
  | MV_ERR_SYS_OUT_OF_MEMORY
  | MV_ERR_BLOCK_OVERSIZE
  | MV_ERR_BLOCK_PROOF_OF_WORK_INVALID
  | MV_ERR_BLOCK_PROOF_OF_STAKE_INVALID
  | MV_ERR_BLOCK_TIMESTAMP_OUT_OF_RANGE
  | MV_ERR_BLOCK_COINBASE_INVALID
  | MV_ERR_BLOCK_COINSTAKE_INVALID
  | MV_ERR_BLOCK_TRANSACTIONS_INVALID
  | MV_ERR_BLOCK_DUPLICATED_TRANSACTION
  | MV_ERR_BLOCK_SIGOPCOUNT_OUT_OF_BOUND
  | MV_ERR_BLOCK_TXHASH_MISMATCH
  | MV_ERR_BLOCK_SIGNATURE_INVALID
  | MV_ERR_BLOCK_INVALID_FORK
  | MV_ERR_TRANSACTION_INVALID
  | MV_ERR_TRANSACTION_OVERSIZE
  | MV_ERR_TRANSACTION_OUTPUT_INVALID
  | MV_ERR_TRANSACTION_INPUT_INVALID
  | MV_ERR_TRANSACTION_TIMESTAMP_INVALID
  | MV_ERR_TRANSACTION_NOT_ENOUGH_FEE
  | MV_ERR_TRANSACTION_STAKE_REWARD_INVALID
  | MV_ERR_TRANSACTION_SIGNATURE_INVALID
  | MV_ERR_TRANSACTION_CONFLICTING_INPUT
  deriving DecidableEq, Repr

open MvErr

def COIN : Int := 1000000
def CENT : Int := 10000
def MIN_TX_FEE : Int := CENT / 100
def MAX_MONEY : Int := 1000000000 * COIN

def moneyRange (nValue : Int) : Bool := 0 ≤ nValue && nValue ≤ MAX_MONEY

def MORTGAGE_BASE : Int := 10000000000
def MORTGAGE_DECAY_CYCLE : Nat := 525600

/-- `CTemplateFork::LockedCoin`: the mortgage halves every decay cycle. The
double `MORTGAGE_BASE * pow(0.5, n)` is exact, and the cast rounds it down. -/
def CTemplateFork.lockedCoin (nForkHeight : Nat) : Int :=
  MORTGAGE_BASE / 2 ^ (nForkHeight / MORTGAGE_DECAY_CYCLE)

/-- The loop of `VerifyTransaction` over the outputs the inputs spend: each
goes to `destIn`, is not later than the transaction and is unlocked; the result
is the value in. -/
def sumPrevOutput (destIn : CDestination) (nTimeStamp nForkHeight : Nat) :
    List CTxOutput → Except MvErr Int
  | [] => .ok 0
  | output :: vPrevOutput =>
    if destIn ≠ output.destTo then .error MV_ERR_TRANSACTION_INPUT_INVALID
    else if output.nTxTime > nTimeStamp then .error MV_ERR_TRANSACTION_INPUT_INVALID
    else if output.isLocked nForkHeight then .error MV_ERR_TRANSACTION_INPUT_INVALID
    else (output.nAmount + ·) <$> sumPrevOutput destIn nTimeStamp nForkHeight vPrevOutput

/-- The loop of `VerifyBlockTx` over the input contexts of a transaction. -/
def sumInContxt (nTimeStamp nHeight : Nat) : List CTxInContxt → Except MvErr Int
  | [] => .ok 0
  | inctxt :: vin =>
    if inctxt.nTxTime > nTimeStamp then .error MV_ERR_TRANSACTION_INPUT_INVALID
    else if inctxt.isLocked nHeight then .error MV_ERR_TRANSACTION_INPUT_INVALID
    else (inctxt.nAmount + ·) <$> sumInContxt nTimeStamp nHeight vin

/-- The signature the input destination checks: when the coins go to a
template that records it, the signature starts with the input destination,
which must be `destIn`, and the rest is checked. -/
def recordedSig (tx : CTransaction) (destIn : CDestination) : Option (List UInt8) :=
  if tx.sendTo.isDestInRecorded then
    match CDestination.read tx.vchSig with
    | some (recordedDestIn, vchSig) => if recordedDestIn = destIn then some vchSig else none
    | none => none
  else some tx.vchSig

/-- What `VerifyTransaction` and `VerifyBlockTx` check alike after the inputs:
the value in covers amount and fee, and `destIn` accepts the signature. The
result is the signature `destIn` checked. -/
def verifyValueAndSignature (crypto : Crypto) (tx : CTransaction) (destIn : CDestination)
    (nValueIn : Int) : Except MvErr (List UInt8) :=
  if !moneyRange nValueIn then .error MV_ERR_TRANSACTION_INPUT_INVALID
  else if nValueIn < tx.nAmount + tx.nTxFee then .error MV_ERR_TRANSACTION_INPUT_INVALID
  else
    match recordedSig tx destIn with
    | none => .error MV_ERR_TRANSACTION_SIGNATURE_INVALID
    | some vchSig =>
      if destIn.verifyTxSignature crypto (tx.getSignatureHash crypto) tx.hashAnchor tx.sendTo vchSig
      then .ok vchSig
      else .error MV_ERR_TRANSACTION_SIGNATURE_INVALID

/-- An `MvErr` function's answer from its checks. -/
def MvErr.ofExcept {α : Type} : Except MvErr α → MvErr
  | .error e => e
  | .ok _ => MV_OK

/-- `CMvCoreProtocol::VerifyBlockTx(tx, txContxt, pIndexPrev)` at the height of
the previous block. -/
def verifyBlockTx (crypto : Crypto) (tx : CTransaction) (txContxt : CTxContxt) (nHeight : Nat) :
    MvErr :=
  MvErr.ofExcept do
    let nValueIn ← sumInContxt tx.nTimeStamp nHeight txContxt.vin
    verifyValueAndSignature crypto tx txContxt.destIn nValueIn

/-- `CMvCoreProtocol::VerifyTransaction(tx, vPrevOutput, nForkHeight)`. The
input destination is that of the first output; a fork template further needs
its locked coins on top of the amount and the fee. -/
def verifyTransaction (crypto : Crypto) (tx : CTransaction) (vPrevOutput : List CTxOutput)
    (nForkHeight : Nat) : MvErr :=
  let destIn := (vPrevOutput.headD CTxOutput.null).destTo
  MvErr.ofExcept do
    let nValueIn ← sumPrevOutput destIn tx.nTimeStamp nForkHeight vPrevOutput
    let vchSig ← verifyValueAndSignature crypto tx destIn nValueIn
    if destIn.isLockedCoin then
      match CTemplate.createTemplatePtr (CTemplateId.getType destIn.getTemplateId) vchSig with
      | none => .error MV_ERR_TRANSACTION_SIGNATURE_INVALID
      | some t =>
        -- a fork id parses only as a fork template, the one `CLockedCoinTemplate`
        let nLockedCoin := match t with
          | .fork .. => CTemplateFork.lockedCoin nForkHeight
          | _ => 0
        if nValueIn < tx.nAmount + tx.nTxFee + nLockedCoin then
          .error MV_ERR_TRANSACTION_INPUT_INVALID
        else .ok ()
    else .ok ()

/-! ## The pool's check against the block's -/

theorem sumPrevOutput_eq_sumInContxt {destIn : CDestination} {nTimeStamp nHeight : Nat}
    {vPrevOutput : List CTxOutput} (hd : ∀ o ∈ vPrevOutput, o.destTo = destIn) :
    sumPrevOutput destIn nTimeStamp nHeight vPrevOutput =
      sumInContxt nTimeStamp nHeight (vPrevOutput.map CTxInContxt.ofOutput) := by
  induction vPrevOutput with
  | nil => rfl
  | cons output vPrevOutput ih =>
    have ho : destIn = output.destTo := (hd output List.mem_cons_self).symm
    rw [sumPrevOutput, if_neg (not_not.mpr ho), List.map_cons, sumInContxt,
      ih fun o h => hd o (List.mem_cons_of_mem output h)]
    rfl

section Verify

variable {crypto : Crypto} {tx : CTransaction} {destIn : CDestination} {nHeight : Nat}
  {vPrevOutput : List CTxOutput}

theorem headD_destTo (hne : vPrevOutput ≠ []) (hd : ∀ o ∈ vPrevOutput, o.destTo = destIn) :
    (vPrevOutput.headD CTxOutput.null).destTo = destIn := by
  obtain ⟨o, os, rfl⟩ := List.exists_cons_of_ne_nil hne
  exact hd o List.mem_cons_self

theorem verifyTransaction_eq_verifyBlockTx (hne : vPrevOutput ≠ [])
    (hd : ∀ o ∈ vPrevOutput, o.destTo = destIn) (hl : destIn.isLockedCoin = false) :
    verifyTransaction crypto tx vPrevOutput nHeight =
      verifyBlockTx crypto tx ⟨destIn, vPrevOutput.map CTxInContxt.ofOutput⟩ nHeight := by
  simp only [verifyTransaction, verifyBlockTx, headD_destTo hne hd, hl,
    sumPrevOutput_eq_sumInContxt hd]
  cases sumInContxt tx.nTimeStamp nHeight (vPrevOutput.map CTxInContxt.ofOutput) with
  | error e => rfl
  | ok nValueIn =>
    simp only [bind, Except.bind]
    cases verifyValueAndSignature crypto tx destIn nValueIn <;> rfl

theorem verifyBlockTx_ok_of_verifyTransaction_ok (hne : vPrevOutput ≠ [])
    (hd : ∀ o ∈ vPrevOutput, o.destTo = destIn)
    (h : verifyTransaction crypto tx vPrevOutput nHeight = MV_OK) :
    verifyBlockTx crypto tx ⟨destIn, vPrevOutput.map CTxInContxt.ofOutput⟩ nHeight = MV_OK := by
  simp only [verifyTransaction, headD_destTo hne hd, sumPrevOutput_eq_sumInContxt hd] at h
  simp only [verifyBlockTx]
  cases hs : sumInContxt tx.nTimeStamp nHeight (vPrevOutput.map CTxInContxt.ofOutput) with
  | error e =>
    rw [hs] at h
    exact h
  | ok nValueIn =>
    rw [hs] at h
    simp only [bind, Except.bind] at h ⊢
    cases hv : verifyValueAndSignature crypto tx destIn nValueIn with
    | error e =>
      rw [hv] at h
      exact h
    | ok vchSig => rfl

end Verify

set_option maxRecDepth 4000 in
/-- A spend from a fork template of exactly its amount and fee: a block takes
it at height 0, where the pool asks for the locked coins of the template on
top and turns it down. -/
theorem verifyBlockTx_skips_locked_coin :
    let crypto : Crypto := ⟨LittleEndian.decode, fun key _ _ => key == 7, fun _ _ _ _ => none⟩
    let destIn := CDestination.ofTemplateId ((CTemplate.fork (.ofPubKey 7) 1).templateId crypto)
    let tx : CTransaction := ⟨1, CTransaction.TX_TOKEN, 100, 0, 0, [⟨⟨5, 0⟩⟩], .ofPubKey 9, 90, 10, [],
      (CTemplate.fork (.ofPubKey 7) 1).buildTemplateData ++ [1]⟩
    verifyBlockTx crypto tx ⟨destIn, [⟨100, 50, 0⟩]⟩ 0 = MV_OK ∧
      verifyTransaction crypto tx [⟨destIn, 100, 50, 0⟩] 0 = MV_ERR_TRANSACTION_INPUT_INVALID := by
  decide

set_option maxRecDepth 4000 in
/-- Coins of the delegate template with key 3 and owner 5 go to key 7 under a
signature by key 7 alone: the pool and a block both take the spend, though
neither the delegate key nor the owner signed. -/
theorem verifyTransaction_delegate_spend_signed_by_recipient :
    let crypto : Crypto := ⟨LittleEndian.decode, fun key _ _ => key == 7, fun _ _ _ _ => none⟩
    let destIn := CDestination.ofTemplateId ((CTemplate.delegate 3 (.ofPubKey 5)).templateId crypto)
    let tx : CTransaction := ⟨1, CTransaction.TX_TOKEN, 100, 0, 0, [⟨⟨5, 0⟩⟩], .ofPubKey 7, 90, 10, [],
      (CTemplate.delegate 3 (.ofPubKey 5)).buildTemplateData ++ [1]⟩
    verifyTransaction crypto tx [⟨destIn, 100, 50, 0⟩] 0 = MV_OK ∧
      verifyBlockTx crypto tx ⟨destIn, [⟨100, 50, 0⟩]⟩ 0 = MV_OK ∧
      crypto.verify 3 (tx.getSignatureHash crypto) [1] = false ∧
      crypto.verify 5 (tx.getSignatureHash crypto) [1] = false := by
  decide

end Multiverse
