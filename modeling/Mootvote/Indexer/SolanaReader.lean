import Mathlib.Data.List.Infix
import Mathlib.Logic.Function.Basic
import Mathlib.Tactic.Common

set_option autoImplicit false

namespace Mootvote.Indexer

inductive TransactionConfirmationStatus where
  | processed
  | confirmed
  | finalized
deriving DecidableEq

def signaturesLimit : Nat := 1000

structure Entry (Sig : Type) where
  signature : Sig
  slot : Nat

structure SignatureStatus (Sig : Type) extends Entry Sig where
  confirmationStatus : TransactionConfirmationStatus

structure Tx (Sig Content : Type) where
  signature : Sig
  content : Content
  slot : Nat

/-- The program's transactions in chain order; the first ones are finalized. -/
structure Ledger (Sig : Type) where
  txs : List (Entry Sig)
  finalized : Nat

section rpc

variable {Sig : Type}

def mark (status : TransactionConfirmationStatus) (e : Entry Sig) : SignatureStatus Sig :=
  { e with confirmationStatus := status }

def marked (finalized : Nat) (txs : List (Entry Sig)) : List (SignatureStatus Sig) :=
  (txs.take finalized).map (mark .finalized) ++ (txs.drop finalized).map (mark .confirmed)

variable [DecidableEq Sig]

def newerThan {A : Type} (signature : A → Sig) (cursor : Option Sig) (txs : List A) : List A :=
  match cursor with
  | none => txs
  | some last => (txs.dropWhile fun e => signature e ≠ last).tail

def olderThan (before : Option Sig) (txs : List (SignatureStatus Sig)) : List (SignatureStatus Sig) :=
  match before with
  | none => txs
  | some signature => txs.takeWhile fun e => e.signature ≠ signature

/-- `getSignaturesForAddress`, newest first. -/
def Ledger.signaturesForAddress (l : Ledger Sig) (until' before : Option Sig) : List (SignatureStatus Sig) :=
  (olderThan before (newerThan (·.signature) until' (marked l.finalized l.txs))).reverse.take signaturesLimit

end rpc

/-- The ledger as the calls of `getSignaturesForAddress` find it, and what does not change about it. -/
structure Rpc (Sig Content : Type) where
  ledger : Nat → Ledger Sig
  content : Sig → Content
  block : Nat → List Sig
  grows : ∀ call, (ledger call).txs <+: (ledger (call + 1)).txs
  finalizes : ∀ call, (ledger call).finalized ≤ (ledger (call + 1)).finalized
  distinct : ∀ call, ((ledger call).txs.map Entry.signature).Nodup
  ordered : ∀ call, (ledger call).txs.Pairwise fun e e' => e.slot ≤ e'.slot
  inBlock : ∀ call slot,
    (((ledger call).txs.filter (·.slot = slot)).map Entry.signature).Sublist (block slot)

inductive Sent (Sig Content : Type) where
  | confirmed (tx : Tx Sig Content)
  | finalized (tx : Tx Sig Content)

/-- `SolanaReader`, with the variables of the loop in `listen_to_solana`. -/
structure SolanaReader (Sig Content : Type) where
  txReadFrom : Option Sig
  until' : Option Sig
  nextUntil : Option Sig
  confirmedTxs : Sig → Option (Tx Sig Content)
  sent : List (Sent Sig Content)

section reader

variable {Sig Content : Type} [DecidableEq Sig] (rpc : Rpc Sig Content)

abbrev SigChunk (Sig : Type) := List (SignatureStatus Sig)

def sigChunks (until' : Option Sig) :
    (fuel call : Nat) → (before nextUntil : Option Sig) → List (SigChunk Sig) →
      Option (List (SigChunk Sig) × Option Sig × Nat)
  | 0, _, _, _, _ => none
  | fuel + 1, call, before, nextUntil, chunks =>
      let signaturesBackward := (rpc.ledger call).signaturesForAddress until' before
      let nextUntil :=
        if nextUntil.isNone then
          (signaturesBackward.find? fun sig => sig.confirmationStatus = .finalized).map (·.signature)
        else nextUntil
      -- The oldest signature replaces the last one, if there is one.
      let before := (signaturesBackward.getLast?.map (·.signature)).or before
      let chunks := chunks ++ [signaturesBackward]
      if signaturesBackward.length < signaturesLimit then some (chunks, nextUntil, call + 1)
      else sigChunks until' fuel (call + 1) before nextUntil chunks

abbrev Block (Sig : Type) := Nat × List (Sig × TransactionConfirmationStatus)

-- The slots of the blocks ascend, so a search along them finds what the binary search finds.
def addSigToFetch (slot : Nat) (signature : Sig) (status : TransactionConfirmationStatus) :
    List (Block Sig) → List (Block Sig)
  | [] => [(slot, [(signature, status)])]
  | block :: blocks =>
      if block.1 = slot then (block.1, block.2 ++ [(signature, status)]) :: blocks
      else block :: addSigToFetch slot signature status blocks

structure Sorting (Sig Content : Type) where
  confirmedTxs : Sig → Option (Tx Sig Content)
  blocksToFetch : List (Block Sig)
  sent : List (Sent Sig Content)

-- `none` stands for a panic.
def Sorting.step (st : Sorting Sig Content) (sig : SignatureStatus Sig) : Option (Sorting Sig Content) :=
  let fetched := { st with
    blocksToFetch := addSigToFetch sig.slot sig.signature sig.confirmationStatus st.blocksToFetch }
  match sig.confirmationStatus with
  | .confirmed => if (st.confirmedTxs sig.signature).isNone then some fetched else some st
  | .finalized =>
      match st.confirmedTxs sig.signature with
      | some tx =>
          some { st with
            confirmedTxs := Function.update st.confirmedTxs sig.signature none
            sent := st.sent ++ [.finalized tx] }
      | none => some fetched
  | .processed => none

def Rpc.tx (slot : Nat) (signature : Sig) : Tx Sig Content :=
  { signature, content := rpc.content signature, slot }

/-- `fetch_txs_in_block`, from the transactions of the block that are still unseen. -/
def fetchTxsInBlock (slot : Nat) : (unseen signatures : List Sig) → Option (List (Tx Sig Content))
  | _, [] => some []
  | unseen, signature :: signatures =>
      match unseen.dropWhile (· ≠ signature) with
      | [] => none
      | found :: unseen => do
          let txs ← fetchTxsInBlock slot unseen signatures
          return rpc.tx slot found :: txs

def fetchBlock (block : Block Sig) : Option (List (Tx Sig Content × TransactionConfirmationStatus)) :=
  match block.2 with
  | [(signature, status)] => some [(rpc.tx block.1 signature, status)]
  | sigs => do
      let txs ← fetchTxsInBlock rpc block.1 (rpc.block block.1) (sigs.map Prod.fst)
      return txs.zip (sigs.map Prod.snd)

def deliver (r : SolanaReader Sig Content) :
    Tx Sig Content × TransactionConfirmationStatus → Option (SolanaReader Sig Content)
  | (tx, .confirmed) =>
      some { r with
        confirmedTxs := Function.update r.confirmedTxs tx.signature (some tx)
        sent := r.sent ++ [.confirmed tx] }
  | (tx, .finalized) => some { r with sent := r.sent ++ [.confirmed tx, .finalized tx] }
  | (_, .processed) => none

def SolanaReader.start (r : SolanaReader Sig Content) : Option Sig :=
  if r.txReadFrom.isSome then r.txReadFrom
  else if r.nextUntil.isSome then r.nextUntil
  else r.until'

/-- One round of the loop in `listen_to_solana`, whose first call has this number. -/
def SolanaReader.poll (r : SolanaReader Sig Content) (call : Nat) :
    Option (SolanaReader Sig Content × Nat) := do
  let (chunks, nextUntil, call) ←
    sigChunks rpc r.start ((rpc.ledger call).txs.length + 1) call none none []
  let st ← (chunks.reverse.flatMap List.reverse).foldlM Sorting.step
    { confirmedTxs := r.confirmedTxs, blocksToFetch := [], sent := r.sent }
  let txs ← st.blocksToFetch.mapM (fetchBlock rpc)
  let r ← txs.flatten.foldlM deliver
    { txReadFrom := none, until' := r.start, nextUntil, confirmedTxs := st.confirmedTxs, sent := st.sent }
  return (r, call)

def SolanaReader.new (txReadFrom : Option Sig) : SolanaReader Sig Content where
  txReadFrom := txReadFrom
  until' := none
  nextUntil := none
  confirmedTxs _ := none
  sent := []

def listenToSolana (txReadFrom : Option Sig) : (rounds : Nat) → Option (SolanaReader Sig Content × Nat)
  | 0 => some (.new txReadFrom, 0)
  | rounds + 1 => do
      let (r, call) ← listenToSolana txReadFrom rounds
      r.poll rpc call

end reader

end Mootvote.Indexer
