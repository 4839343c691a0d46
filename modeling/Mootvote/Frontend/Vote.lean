import Mootvote.Frontend.Tally
import Mootvote.Program.Eligible

set_option autoImplicit false

/-!
# The voter's page

What `onVoteClick` gives the prover and sends, and that the program accepts it.
-/

namespace Mootvote.Frontend

open Shared Program Helpers

abbrev censusDepth : Nat := 40

section keys

structure VoterLibrary where
  blake512 : List UInt8 → List UInt8
  pruneBuffer : List UInt8 → List UInt8
  poseidon : List Fr → Fr
  mulPointEscalar : Fr × Fr → Nat → Fr × Fr
  signPoseidon : List UInt8 → Fr → (Fr × Fr) × Nat
  poseidonEncrypt : List Fr → Fr × Fr → Nat → List Fr

variable (lib : VoterLibrary)

def randomScalar (mod : Nat) (bytes : List UInt8) : Nat := ofBytesBE bytes % (mod - 1) + 1

-- `Scalar.fromRprLE` of the first 32 bytes.
def prv2sk (prv : List UInt8) : Nat :=
  ofBytesBE ((lib.pruneBuffer (lib.blake512 prv)).take 32).reverse >>> 3

structure BabyJubKeypair where
  prv : List UInt8
  sk : Nat
  pub : Fr × Fr

def genBabyJubKeypair (prv : List UInt8) : BabyJubKeypair where
  prv := prv
  sk := prv2sk lib prv
  pub := lib.mulPointEscalar (baseX, baseY) (prv2sk lib prv)

theorem randomScalar_lt {mod : Nat} (large : 1 < mod) (bytes : List UInt8) :
    randomScalar mod bytes < mod := by
  have below := Nat.mod_lt (ofBytesBE bytes) (show 0 < mod - 1 by omega)
  unfold randomScalar
  omega

theorem randomScalar_pos (mod : Nat) (bytes : List UInt8) : 0 < randomScalar mod bytes := Nat.succ_pos _

end keys

section page

structure VotePoll where
  pollId : Nat
  -- The length of `poll.choices`.
  choices : Nat
  tallierKey : List Char × List Char
  censusRoot : List Char

structure Randomness where
  revo : List UInt8
  eph : List UInt8
  nonce : UInt32 × UInt32

structure VoteInputs where
  censusRoot : Nat
  pollId : Nat
  nChoices : Nat
  revotingKeyNew : Nat
  revotingKeyOld : Nat
  voterPk : Fr × Fr
  sigR : Fr × Fr
  sigS : Nat
  path : List Int
  pathPos : List Int
  choice : Nat
  ephSk : Nat
  tallierPk : Nat × Nat
  relayerId : Nat
  nonce : Nat
  ciphertext : List Fr
deriving DecidableEq

structure VoteRequest where
  inputs : VoteInputs
  ephPk : Fr × Fr
  msgHash : Fr
  relayerNu : Option Fr
deriving DecidableEq

def orThrow {A : Type} (x : Option A) (e : JsError) : Except JsError A :=
  match x with
  | some a => .ok a
  | none => .error e

theorem orThrow_ok_iff {A : Type} {x : Option A} {e : JsError} {a : A} :
    orThrow x e = .ok a ↔ x = some a := by
  cases x <;> simp [orThrow]

/-- `relayerIdBuf`: the key without its three top bits. -/
def relayerIdBuf (feeKey : Word) : Word := feeKey &&& BitVec.ofNat 256 (2 ^ 253 - 1)

variable (lib : VoterLibrary) (poll : VotePoll) (account : BabyJubKeypair) (oldSec : Nat)
  (feeKey : Option Word)
  (censusBuf : List UInt8) (random : Randomness)

def VoteInputs.sigHash (inputs : VoteInputs) : Fr := lib.poseidon [inputs.sigS, inputs.sigR.1, inputs.sigR.2]

/-- `onVoteClick` up to the proof; `feeKey` is the relayer's if the vote is relayed. -/
def onVoteClick (selected : Option Nat) : Except JsError VoteRequest := do
  let selected ← orThrow selected (.error "Select a choice")
  let revotingKeyNew := randomScalar subgroupOrder random.revo
  let tallierX ← bigIntHex poll.tallierKey.1
  let tallierY ← bigIntHex poll.tallierKey.2
  check (censusBuf.length % 32 = 0) "Bad census file"
  let leaves := ctWords censusBuf
  let myLeaf := lib.poseidon [account.pub.1, account.pub.2]
  let found ← orThrow (leaves.findIdx? fun x => x = myLeaf.val) (.error "Your key is not in the census")
  let proof ← orThrow (getMerkleProof lib.poseidon censusDepth (leaves.map Nat.cast) found) .typeError
  let (sigR, sigS) := lib.signPoseidon account.prv (lib.poseidon [platformName, poll.pollId])
  let sigHash := lib.poseidon [sigS, sigR.1, sigR.2]
  let ephSk := randomScalar subgroupOrder random.eph
  let ephPk := lib.mulPointEscalar (baseX, baseY) ephSk
  let sharedKey := lib.mulPointEscalar (tallierX, tallierY) ephSk
  let plaintext := [lib.poseidon [sigHash], (selected + 1 : Nat), lib.poseidon [oldSec],
    lib.poseidon [revotingKeyNew]]
  let nonce := random.nonce.1.toNat * 2 ^ 32 + random.nonce.2.toNat
  let ciphertext := lib.poseidonEncrypt plaintext sharedKey nonce
  let relayerId := (feeKey.map fun key => (relayerIdBuf key).toNat).getD 0
  let censusRoot ← bigIntHex poll.censusRoot
  return {
    inputs :=
      { censusRoot, pollId := poll.pollId, nChoices := poll.choices, revotingKeyNew, revotingKeyOld := oldSec
        voterPk := account.pub, sigR, sigS, path := proof.path, pathPos := proof.pathPos,
          choice := selected + 1
        ephSk, tallierPk := (tallierX, tallierY), relayerId, nonce, ciphertext }
    ephPk
    msgHash := lib.poseidon (ephPk.1 :: ephPk.2 :: (nonce : Fr) :: ciphertext)
    relayerNu := feeKey.map fun _ => lib.poseidon [sigHash, relayerId] }

end page

section assignment

variable (lib : VoterLibrary) (req : VoteRequest)

def VoteRequest.voterLeaf : Fr := lib.poseidon [req.inputs.voterPk.1, req.inputs.voterPk.2]

def VoteRequest.signedHash : Fr := lib.poseidon [platformName, req.inputs.pollId]

def VoteRequest.sigHash : Fr := lib.poseidon [req.inputs.sigS, req.inputs.sigR.1, req.inputs.sigR.2]

def VoteRequest.challenge : List Fr :=
  [req.inputs.sigR.1, req.inputs.sigR.2, req.inputs.voterPk.1, req.inputs.voterPk.2, req.signedHash lib]

def VoteRequest.messagePreimage : List Fr :=
  req.ephPk.1 :: req.ephPk.2 :: (req.inputs.nonce : Fr) :: req.inputs.ciphertext

/-- The relayer's nullifier, whether or not the vote is relayed. -/
def VoteRequest.circuitNu : Fr := lib.poseidon [req.sigHash lib, req.inputs.relayerId]

def VoteRequest.levelAt : Nat → Fr
  | 0 => req.voterLeaf lib
  | k + 1 => lib.poseidon (muxSwap (levelAt k) (req.inputs.path[k]?.getD 0 : Int)
    (req.inputs.pathPos[k]?.getD 0 : Int))

def VoteRequest.ownPreimages : List (List Fr) :=
  [[req.inputs.voterPk.1, req.inputs.voterPk.2], [platformName, req.inputs.pollId], req.challenge lib,
    [req.inputs.sigS, req.inputs.sigR.1, req.inputs.sigR.2], [req.sigHash lib], [req.inputs.revotingKeyOld],
    [req.inputs.revotingKeyNew], req.messagePreimage, [req.sigHash lib, req.inputs.relayerId],
    [req.circuitNu lib, req.msgHash]]

def VoteRequest.preimages : List (List Fr) :=
  req.ownPreimages lib ++ (List.range censusDepth).map fun k =>
    muxSwap (req.levelAt lib k) (req.inputs.path[k]?.getD 0 : Int) (req.inputs.pathPos[k]?.getD 0 : Int)

/-- The hash is evaluated on what the circuit hashes. -/
def VoteRequest.Hashed (H : IdealHash Fr) : Prop :=
  ∀ xs ∈ req.preimages lib, H.hash xs = some (lib.poseidon xs)

variable {A : Type}

def VoteRequest.assignment (voterPk sigR tallierPk : A) (ciphertext : Fin ctLen → Fr)
    (decrypted : Fin pad → Fr) :
    Mootvote.Vote A censusDepth where
  censusRoot := req.inputs.censusRoot
  pollId := req.inputs.pollId
  nChoices := req.inputs.nChoices
  tallierPk := tallierPk
  relayerId := req.inputs.relayerId
  msgHash := req.msgHash
  relayerNuHash := lib.poseidon [req.circuitNu lib, req.msgHash] * (1 - isZero req.inputs.relayerId)
  voterPk := voterPk
  path := fun k => (req.inputs.path[k.val]?.getD 0 : Int)
  pathPos := fun k => (req.inputs.pathPos[k.val]?.getD 0 : Int)
  choice := req.inputs.choice
  revotingKeyNew := req.inputs.revotingKeyNew
  revotingKeyOld := req.inputs.revotingKeyOld
  sigR := sigR
  sigS := req.inputs.sigS
  ephSk := req.inputs.ephSk
  nonce := req.inputs.nonce
  ciphertext := ciphertext
  voterLeaf := req.voterLeaf lib
  level := fun k => req.levelAt lib k.val
  signedHash := req.signedHash lib
  sigBits := req.inputs.sigS
  sigChallenge := lib.poseidon (req.challenge lib)
  sigHash := req.sigHash lib
  nu := lib.poseidon [req.sigHash lib]
  ephSkBits := req.inputs.ephSk
  plaintext := fun i => decrypted (i.castLE (by decide))
  decrypted := decrypted
  relayerNu := req.circuitNu lib
  relayerNuHashRaw := lib.poseidon [req.circuitNu lib, req.msgHash]

end assignment

section laws

variable {H : IdealHash Fr} {G : Gadgets H} {A : Type} [AddCommGroup A] {C : BabyJub A} {lib : VoterLibrary}

structure VoterLibrary.Documented (lib : VoterLibrary) (C : BabyJub A) (G : Gadgets H) : Prop where
  mulPointEscalar : ∀ (Q : A) n, lib.mulPointEscalar (C.coords Q) n = C.coords (n • Q)
  -- The scalar is `r + h * s` modulo the subgroup's order, where `s` is eight times the secret one.
  signPoseidon : ∀ prv m, ∃ R : A, (lib.signPoseidon prv m).1 = C.coords R ∧
    (lib.signPoseidon prv m).2 < subgroupOrder ∧
    (lib.signPoseidon prv m).2 • C.base8 = R + (lib.poseidon [(C.coords R).1, (C.coords R).2,
      (C.coords (prv2sk lib prv • C.base8)).1, (C.coords (prv2sk lib prv • C.base8)).2, m]).val •
        8 • prv2sk lib prv • C.base8
  poseidonEncrypt : ∀ plain key nonce, plain.length = limbs →
    ∃ (ciphertext : Fin ctLen → Fr) (decrypted : Fin pad → Fr),
    lib.poseidonEncrypt plain key nonce = List.ofFn ciphertext ∧
      G.poseidonDecrypt key nonce ciphertext decrypted ∧
      ∀ i : Fin limbs, plain[i.val]? = some (decrypted (i.castLE (by decide)))

variable {poll : VotePoll} {account : BabyJubKeypair} {oldSec : Nat} {feeKey : Option Word}
  {censusBuf : List UInt8}
  {random : Randomness} {selected : Option Nat} {req : VoteRequest}

structure Clicked (lib : VoterLibrary) (poll : VotePoll) (account : BabyJubKeypair) (oldSec : Nat)
    (feeKey : Option Word) (censusBuf : List UInt8) (random : Randomness) (selected : Nat) (req : VoteRequest)
    (found : Nat) (proof : MerkleProof) : Prop where
  tallierX : bigIntHex poll.tallierKey.1 = .ok req.inputs.tallierPk.1
  tallierY : bigIntHex poll.tallierKey.2 = .ok req.inputs.tallierPk.2
  leaf : (ctWords censusBuf).findIdx? (fun x =>
    x = (lib.poseidon [account.pub.1, account.pub.2]).val) = some found
  isProof : getMerkleProof lib.poseidon censusDepth ((ctWords censusBuf).map Nat.cast) found = some proof
  censusRoot : bigIntHex poll.censusRoot = .ok req.inputs.censusRoot
  pollId : req.inputs.pollId = poll.pollId
  nChoices : req.inputs.nChoices = poll.choices
  revotingKeyNew : req.inputs.revotingKeyNew = randomScalar subgroupOrder random.revo
  revotingKeyOld : req.inputs.revotingKeyOld = oldSec
  voterPk : req.inputs.voterPk = account.pub
  signature : (req.inputs.sigR, req.inputs.sigS) = lib.signPoseidon account.prv (req.signedHash lib)
  path : req.inputs.path = proof.path
  pathPos : req.inputs.pathPos = proof.pathPos
  choice : req.inputs.choice = selected + 1
  ephSk : req.inputs.ephSk = randomScalar subgroupOrder random.eph
  relayerId : req.inputs.relayerId = (feeKey.map fun key => (relayerIdBuf key).toNat).getD 0
  nonce : req.inputs.nonce = random.nonce.1.toNat * 2 ^ 32 + random.nonce.2.toNat
  ciphertext : req.inputs.ciphertext = lib.poseidonEncrypt
    [lib.poseidon [req.sigHash lib], req.inputs.choice, lib.poseidon [req.inputs.revotingKeyOld],
      lib.poseidon [req.inputs.revotingKeyNew]]
    (lib.mulPointEscalar (req.inputs.tallierPk.1, req.inputs.tallierPk.2) req.inputs.ephSk) req.inputs.nonce
  ephPk : req.ephPk = lib.mulPointEscalar (baseX, baseY) req.inputs.ephSk
  msgHash : req.msgHash = lib.poseidon req.messagePreimage
  relayerNu : req.relayerNu = feeKey.map fun _ => req.circuitNu lib

theorem onVoteClick_clicked
    (built : onVoteClick lib poll account oldSec feeKey censusBuf random selected = .ok req) :
    ∃ choice found proof, selected = some choice ∧
      Clicked lib poll account oldSec feeKey censusBuf random choice req found proof := by
  simp only [onVoteClick, bind_ok_iff, orThrow_ok_iff] at built
  obtain ⟨choice, isChoice, x, isX, y, isY, _, _, found, isFound, proof, isProof, root, isRoot, done⟩ := built
  cases done
  exact ⟨choice, found, proof, isChoice, isX, isY, isFound, isProof, isRoot, rfl, rfl, rfl, rfl, rfl,
    rfl, rfl, rfl,
    rfl, rfl, rfl, rfl, rfl, rfl, rfl, rfl⟩

theorem isValid_of_equation {v : EdDSAPoseidonVerifier A} (range : v.computedNum2Bits < subgroupOrder)
    (equation : v.computedNum2Bits • C.base8 = v.signaturePoint + v.computedH.val • 8 • v.publicKey)
    (finite : (C.coords v.publicKey).1 ≠ 0) : v.isValid C = 1 := by
  have orders : subgroupOrder ≤ 2 ^ 253 := by decide
  have low : v.computedCompConstantIn = v.computedNum2Bits := Nat.mod_eq_of_lt (by omega)
  have compared : v.computedCompConstant = 0 := by
    rw [EdDSAPoseidonVerifier.computedCompConstant, compConstant, low, if_neg (by omega)]
  have doubled : v.computedDouble3 = 8 • v.publicKey := by
    simp only [EdDSAPoseidonVerifier.computedDouble3, EdDSAPoseidonVerifier.computedDouble2,
      EdDSAPoseidonVerifier.computedDouble1, ← two_nsmul, ← mul_nsmul]
  have sides : v.computedEscalarMulFix C = v.computedAddRight := by
    rw [EdDSAPoseidonVerifier.computedEscalarMulFix, equation,
      EdDSAPoseidonVerifier.computedAddRight, doubled]
  have both : v.computedIsLeftRightValid C = 1 := by
    simp only [EdDSAPoseidonVerifier.computedIsLeftRightValid, EdDSAPoseidonVerifier.computedIsRightValid,
      EdDSAPoseidonVerifier.computedIsLeftValid, sides, isEqual_eq_one.2 rfl]
    decide
  have affine : v.computedIsAxEqual C = 1 := by
    rw [EdDSAPoseidonVerifier.computedIsAxEqual, isZero, if_neg finite, isEqual_eq_one]
  rw [EdDSAPoseidonVerifier.isValid, both, affine, compared]
  decide

theorem VoteRequest.Hashed.level (hashed : req.Hashed lib H) (k : Fin censusDepth) :
    H.hash (muxSwap (req.levelAt lib k.val) (req.inputs.path[k.val]?.getD 0 : Int)
      (req.inputs.pathPos[k.val]?.getD 0 : Int)) = some (req.levelAt lib (k.val + 1)) := by
  have there : muxSwap (req.levelAt lib k.val) (req.inputs.path[k.val]?.getD 0 : Int)
      (req.inputs.pathPos[k.val]?.getD 0 : Int) ∈ req.preimages lib :=
    List.mem_append_right _ (List.mem_map.2 ⟨k.val, List.mem_range.2 k.isLt, rfl⟩)
  exact hashed _ there

theorem getMerkleProof_of_lt {hashes : List Fr → Fr} {n found : Nat} {leafs : List Int}
    (inside : found < leafs.length) (small : leafs.length < 2 ^ 31 - 1) :
    getMerkleProof hashes n leafs found = some
      { root := hashNode hashes (fun i => leafs[i]?.getD (Helpers.poseidon hashes [0])) n (found / 2 ^ n)
        path := siblings hashes (fun i => leafs[i]?.getD (Helpers.poseidon hashes [0])) 0 found n
        pathPos := bits found n } := by
  have reached : AtLevel hashes (fun i => leafs[i]?.getD (Helpers.poseidon hashes [0])) 0 leafs :=
    ⟨small, fun _ => rfl⟩
  have leaf : leafs[found]? = some leafs[found] := List.getElem?_eq_getElem inside
  have loop := proofLoop_spec n reached (show found < 2 ^ 31 by omega) [] []
  have node : hashNode hashes (fun i => leafs[i]?.getD (Helpers.poseidon hashes [0])) 0 found =
      leafs[found] := by
    rw [hashNode, CompleteTree.node, leaf, Option.getD_some]
  rw [Nat.zero_add, List.nil_append, List.nil_append, node] at loop
  simp only [getMerkleProof, leaf, Option.bind_eq_bind, Option.bind_some]
  exact loop

theorem getMerkleProof_eq {hashes : List Fr → Fr} {n found : Nat} {leafs : List Int} {proof : MerkleProof}
    (isProof : getMerkleProof hashes n leafs found = some proof) (small : leafs.length < 2 ^ 31 - 1) :
    proof =
      { root := hashNode hashes (fun i => leafs[i]?.getD (Helpers.poseidon hashes [0])) n (found / 2 ^ n)
        path := siblings hashes (fun i => leafs[i]?.getD (Helpers.poseidon hashes [0])) 0 found n
        pathPos := bits found n } := by
  have inside : found < leafs.length := by
    by_contra outside
    have missing : leafs[found]? = none := List.getElem?_eq_none (Nat.le_of_not_lt outside)
    simp [getMerkleProof, missing] at isProof
  exact Option.some.inj (isProof.symm.trans (getMerkleProof_of_lt inside small))

omit [AddCommGroup A] in
theorem Clicked.inclusion {choice found : Nat} {proof : MerkleProof} {root : Int}
    (clicked : Clicked lib poll account oldSec feeKey censusBuf random choice req found proof)
    (hashed : req.Hashed lib H)
    (isRoot : getMerkleRoot lib.poseidon censusDepth ((ctWords censusBuf).map Nat.cast) = some root)
    (small : (ctWords censusBuf).length < 2 ^ 31 - 1) (voterPk sigR tallierPk : A)
    (ciphertext : Fin ctLen → Fr)
    (decrypted : Fin pad → Fr) :
    (req.assignment lib voterPk sigR tallierPk ciphertext decrypted).inclusion.Constraints H root := by
  have few : ((ctWords censusBuf).map (Nat.cast : Nat → Int)).length < 2 ^ 31 - 1 := by rwa [List.length_map]
  obtain ⟨inside, isLeaf, _⟩ := List.findIdx?_eq_some_iff_getElem.1 clicked.leaf
  have deep : 2 ^ 31 ≤ 2 ^ censusDepth := Nat.pow_le_pow_right (by decide) (by decide)
  have top : found / 2 ^ censusDepth = 0 := Nat.div_eq_of_lt (by omega)
  have isProof := getMerkleProof_eq clicked.isProof few
  have isTree := getMerkleRoot_eq isRoot few
  have leaf : ((((ctWords censusBuf).map Nat.cast)[found]?.getD
    (Helpers.poseidon lib.poseidon [0]) : Int) : Fr) =
      req.voterLeaf lib := by
    rw [List.getElem?_map, List.getElem?_eq_getElem inside, Option.map_some, Option.getD_some,
      of_decide_eq_true isLeaf, Int.cast_natCast, ZMod.natCast_zmod_val, VoteRequest.voterLeaf,
        clicked.voterPk]
  obtain ⟨level, run⟩ := (@evaluates_iff lib.poseidon censusDepth found
    (fun i => ((ctWords censusBuf).map Nat.cast)[i]?.getD (Helpers.poseidon lib.poseidon [0])) proof
    (by rw [isProof]) (by rw [isProof]) _).2 rfl
  have climbs (k : Nat) (below : k < censusDepth + 1) : level ⟨k, below⟩ = req.levelAt lib k := by
    induction k with
    | zero =>
        rw [VoteRequest.levelAt, ← leaf]
        exact run.leaf
    | succ k ih =>
        have next := run.level ⟨k, by omega⟩
        rw [VoteRequest.levelAt, ← ih (by omega), clicked.path, clicked.pathPos]
        exact next.symm
  refine ⟨rfl, ?_, hashed.level, ?_⟩
  · intro k
    have binary := run.binary k
    change (((req.inputs.pathPos[k.val]?.getD 0 : Int) : Fr)) *
      (1 - ((req.inputs.pathPos[k.val]?.getD 0 : Int) : Fr)) = 0
    rw [clicked.pathPos]
    exact binary
  · rw [isTree]
    have ends := run.root
    rw [top] at ends
    rw [← show level (Fin.last censusDepth) = censusNode _ _ _ _ from ends]
    exact (climbs censusDepth (Nat.lt_succ_self _)).symm

/-- What the indexer shows of a poll whose description lists its choices. -/
def showPoll (p : Program.Poll) : VotePoll where
  pollId := p.id.toNat
  choices := p.nChoices.toNat
  tallierKey := (hexEncode p.tallierKey.x.bytes, hexEncode p.tallierKey.y.bytes)
  censusRoot := hexEncode p.censusRoot.bytes

@[simp] theorem showPoll_tallierX (p : Program.Poll) :
    (showPoll p).tallierKey.1 = hexEncode p.tallierKey.x.bytes := by simp only [showPoll]

@[simp] theorem showPoll_tallierY (p : Program.Poll) :
    (showPoll p).tallierKey.2 = hexEncode p.tallierKey.y.bytes := by simp only [showPoll]

@[simp] theorem showPoll_censusRoot (p : Program.Poll) :
    (showPoll p).censusRoot = hexEncode p.censusRoot.bytes := by simp only [showPoll]

structure Honest (C : BabyJub A) (lib : VoterLibrary) (account : BabyJubKeypair) (oldSec : Nat)
    (censusBuf : List UInt8)
    (random : Randomness) (p : Program.Poll) (root : Int) (tallierPk : A) : Prop where
  generated : account = genBabyJubKeypair lib account.prv
  finite : account.pub.1 ≠ 0
  fresh : (oldSec : Fr) ≠ (randomScalar subgroupOrder random.revo : Nat)
  census : getMerkleRoot lib.poseidon censusDepth ((ctWords censusBuf).map Nat.cast) = some root
  small : (ctWords censusBuf).length < 2 ^ 31 - 1
  censusRoot : p.censusRoot = Word.ofFr root
  tallierKey : p.tallierKey = ⟨Word.ofFr (C.coords tallierPk).1, Word.ofFr (C.coords tallierPk).2⟩

theorem bigIntHex_bytes (w : Word) : bigIntHex (hexEncode w.bytes) = .ok w.toNat := by
  rw [bigIntHex, hexBigInt_bytes]

omit [AddCommGroup A] in
theorem onVoteClick_of_listed {p : Program.Poll} {choice : Nat} (whole : censusBuf.length % 32 = 0)
    (listed : (lib.poseidon [account.pub.1, account.pub.2]).val ∈ ctWords censusBuf)
    (small : (ctWords censusBuf).length < 2 ^ 31 - 1) :
    ∃ req, onVoteClick lib (showPoll p) account oldSec feeKey censusBuf random (some choice) = .ok req := by
  have first : ((ctWords censusBuf).findIdx? fun x =>
      x = (lib.poseidon [account.pub.1, account.pub.2]).val).isSome := by
    rw [List.findIdx?_isSome, List.any_eq_true]
    exact ⟨_, listed, decide_eq_true rfl⟩
  obtain ⟨found, isFound⟩ := Option.isSome_iff_exists.1 first
  have inside : found < ((ctWords censusBuf).map (Nat.cast : Nat → Int)).length := by
    rw [List.length_map]
    exact (List.findIdx?_eq_some_iff_getElem.1 isFound).1
  have few : ((ctWords censusBuf).map (Nat.cast : Nat → Int)).length < 2 ^ 31 - 1 := by rwa [List.length_map]
  have isProof := @getMerkleProof_of_lt lib.poseidon censusDepth found _ inside few
  simp only [onVoteClick, showPoll_tallierX, showPoll_tallierY, showPoll_censusRoot, bigIntHex_bytes, check,
    whole, decide_true, if_true, orThrow, isFound, isProof, bind, Except.bind]
  exact ⟨_, rfl⟩

theorem Clicked.tallierPk {p : Program.Poll} {choice found : Nat} {proof : MerkleProof}
    (clicked : Clicked lib (showPoll p) account oldSec feeKey censusBuf random choice req found proof) :
    req.inputs.tallierPk.1 = p.tallierKey.x.toNat ∧ req.inputs.tallierPk.2 = p.tallierKey.y.toNat := by
  have x := clicked.tallierX
  have y := clicked.tallierY
  rw [showPoll_tallierX, bigIntHex_bytes, Except.ok.injEq] at x
  rw [showPoll_tallierY, bigIntHex_bytes, Except.ok.injEq] at y
  exact ⟨x.symm, y.symm⟩

theorem Clicked.censusRoot_eq {p : Program.Poll} {choice found : Nat} {proof : MerkleProof}
    (clicked : Clicked lib (showPoll p) account oldSec feeKey censusBuf random choice req found proof) :
    req.inputs.censusRoot = p.censusRoot.toNat := by
  have root := clicked.censusRoot
  rw [showPoll_censusRoot, bigIntHex_bytes, Except.ok.injEq] at root
  exact root.symm

/-- The inputs of a click satisfy the circuit, with the selected choice encrypted for the tallier. -/
theorem Clicked.constraints {p : Program.Poll} {choice found : Nat} {proof : MerkleProof} {root : Int}
    {tallierPk : A}
    (documented : lib.Documented C G)
    (clicked : Clicked lib (showPoll p) account oldSec feeKey censusBuf random choice req found proof)
    (hashed : req.Hashed lib H) (honest : Honest C lib account oldSec censusBuf random p root tallierPk)
    (below : choice < p.nChoices.toNat) :
    ∃ sigR ciphertext decrypted,
      (req.assignment lib (prv2sk lib account.prv • C.base8) sigR tallierPk ciphertext
        decrypted).Constraints C G ∧
      req.inputs.ciphertext = List.ofFn ciphertext ∧
      req.ephPk = C.coords ((req.assignment lib (prv2sk lib account.prv • C.base8) sigR tallierPk ciphertext
        decrypted).ephPk C) := by
  have few := p.nChoices.toNat_lt
  have isChoice := clicked.choice
  have isNChoices : req.inputs.nChoices = p.nChoices.toNat := clicked.nChoices
  have orders : 1 < subgroupOrder ∧ subgroupOrder < 2 ^ 253 ∧ subgroupOrder < scalarModulus := by decide
  have onCurve (n : Nat) : lib.mulPointEscalar (baseX, baseY) n = C.coords (n • C.base8) := by
    rw [← C.coords_base8, documented.mulPointEscalar]
  have pub : req.inputs.voterPk = C.coords (prv2sk lib account.prv • C.base8) := by
    have isAccount := honest.generated
    rw [clicked.voterPk, isAccount, ← onCurve]
    rfl
  obtain ⟨sigR, isR, range, equation⟩ := documented.signPoseidon account.prv (req.signedHash lib)
  have signed := clicked.signature
  rw [Prod.mk.injEq] at signed
  rw [← signed.1] at isR
  rw [← signed.2] at range equation
  have tallier : ((req.inputs.tallierPk.1 : Fr), (req.inputs.tallierPk.2 : Fr)) = C.coords tallierPk := by
    rw [clicked.tallierPk.1, clicked.tallierPk.2, honest.tallierKey]
    exact Prod.ext (Word.reduce_ofFr _) (Word.reduce_ofFr _)
  have isRoot : (req.inputs.censusRoot : Fr) = root := by
    rw [clicked.censusRoot_eq, honest.censusRoot]
    exact Word.reduce_ofFr _
  have encrypted := clicked.ciphertext
  rw [tallier, documented.mulPointEscalar] at encrypted
  obtain ⟨ciphertext, decrypted, isCiphertext, opens, plain⟩ := documented.poseidonEncrypt
    [lib.poseidon [req.sigHash lib], req.inputs.choice, lib.poseidon [req.inputs.revotingKeyOld],
      lib.poseidon [req.inputs.revotingKeyNew]] (C.coords (req.inputs.ephSk • tallierPk)) req.inputs.nonce rfl
  rw [isCiphertext] at encrypted
  have secret : req.inputs.ephSk < subgroupOrder := by
    rw [clicked.ephSk]
    exact randomScalar_lt orders.1 _
  have revoting : req.inputs.revotingKeyNew < subgroupOrder ∧ 0 < req.inputs.revotingKeyNew := by
    rw [clicked.revotingKeyNew]
    exact ⟨randomScalar_lt orders.1 _, randomScalar_pos _ _⟩
  have front (i : Nat) {xs : List Fr} (at_i : (req.ownPreimages lib)[i]? = some xs) :
      H.hash xs = some (lib.poseidon xs) := hashed xs (List.mem_append_left _ (List.mem_of_getElem? at_i))
  have isMsgHash : H.hash ((C.coords (req.inputs.ephSk • C.base8)).1 ::
    (C.coords (req.inputs.ephSk • C.base8)).2 ::
      (req.inputs.nonce : Fr) :: List.ofFn ciphertext) = some req.msgHash := by
    rw [clicked.msgHash, ← encrypted, ← onCurve, ← clicked.ephPk]
    exact front 7 rfl
  refine ⟨sigR, ciphertext, decrypted, ?_, encrypted, ?_⟩
  · constructor
    case voterLeaf =>
      rw [VoteRequest.assignment, ← pub]
      exact front 0 rfl
    case inclusion =>
      have included := clicked.inclusion hashed honest.census honest.small
        (prv2sk lib account.prv • C.base8) sigR tallierPk ciphertext decrypted
      rwa [← isRoot] at included
    case signedHash => exact front 1 rfl
    case signature =>
      refine ⟨⟨?_, rfl⟩, ?_⟩
      · change req.inputs.sigS < 2 ^ 254
        omega
      · change H.hash [(C.coords sigR).1, (C.coords sigR).2, (C.coords (prv2sk lib account.prv • C.base8)).1,
          (C.coords (prv2sk lib account.prv • C.base8)).2, req.signedHash lib] = _
        rw [← isR, ← pub]
        exact front 2 rfl
    case sigValid =>
      refine isValid_of_equation range ?_ ?_
      · rw [← isR, ← pub] at equation
        exact equation
      · change (C.coords (prv2sk lib account.prv • C.base8)).1 ≠ 0
        rw [← pub, clicked.voterPk]
        exact honest.finite
    case sigHash =>
      change H.hash [(req.inputs.sigS : Fr), (C.coords sigR).1, (C.coords sigR).2] = _
      rw [← isR]
      exact front 3 rfl
    case revotingKeyNewNonzero =>
      refine if_neg fun zero => ?_
      have value := congrArg ZMod.val zero
      change ((req.inputs.revotingKeyNew : Nat) : Fr).val = 0 at value
      rw [ZMod.val_natCast, Nat.mod_eq_of_lt (by omega)] at value
      omega
    case revotingKeyNewFresh =>
      refine if_neg fun same => honest.fresh ?_
      rw [← clicked.revotingKeyOld, ← clicked.revotingKeyNew]
      exact same.symm
    case nu => exact front 4 rfl
    case inRange =>
      have compared := LessThan.complete (n := 16) (a := req.inputs.choice) (b := req.inputs.nChoices + 1)
        (by decide) (by omega) (by omega)
      rw [if_pos (by omega), Nat.cast_succ] at compared
      exact compared
    case ephSkBits => exact ⟨show req.inputs.ephSk < 2 ^ 253 by omega, rfl⟩
    case plaintextNu => exact (Option.some.inj (plain 0)).symm
    case plaintextChoice => exact (Option.some.inj (plain 1)).symm
    case plaintextOld =>
      have shown : lib.poseidon [(req.inputs.revotingKeyOld : Fr)] = _ := Option.some.inj (plain 2)
      change H.hash [(req.inputs.revotingKeyOld : Fr)] = some (decrypted _)
      rw [← shown]
      exact front 5 rfl
    case plaintextNew =>
      have shown : lib.poseidon [(req.inputs.revotingKeyNew : Fr)] = _ := Option.some.inj (plain 3)
      change H.hash [(req.inputs.revotingKeyNew : Fr)] = some (decrypted _)
      rw [← shown]
      exact front 6 rfl
    case decrypt => exact opens
    case decrypted => exact fun _ => rfl
    case msgHash => exact isMsgHash
    case relayerNu => exact front 8 rfl
    case relayerNuHashRaw => exact front 9 rfl
    case relayerNuHash => rfl
  · rw [clicked.ephPk, onCurve]
    rfl

def VoteRequest.message (req : VoteRequest) : EncryptedMessage where
  ephPk := ⟨Word.ofFr req.ephPk.1, Word.ofFr req.ephPk.2⟩
  nonce := UInt64.ofNat req.inputs.nonce
  ciphertext := fun i => Word.ofFr (req.inputs.ciphertext[i.val]?.getD 0)

/-- `nu_hash`: what the relayer hashes of the nullifier it was sent, and zero without a relayer. -/
def VoteRequest.nuHash (lib : VoterLibrary) (req : VoteRequest) : Word :=
  match req.relayerNu with
  | none => 0
  | some nu => Word.ofFr (lib.poseidon [nu, req.msgHash])

def relayerIdOf (feeKey : Option Word) : Word := (feeKey.map relayerIdBuf).getD 0

theorem relayerIdBuf_lt (key : Word) : (relayerIdBuf key).toNat < scalarModulus := by
  have mask : (relayerIdBuf key).toNat ≤ 2 ^ 253 - 1 := by
    rw [relayerIdBuf, BitVec.toNat_and]
    exact Nat.and_le_right
  have bound := scalarModulus_gt
  omega

theorem ofFr_natCast {n : Nat} (below : n < scalarModulus) : Word.ofFr (n : Fr) = BitVec.ofNat 256 n := by
  rw [Word.ofFr, ZMod.val_natCast, Nat.mod_eq_of_lt below]

theorem Clicked.relayer {choice found : Nat} {proof : MerkleProof}
    (clicked : Clicked lib poll account oldSec feeKey censusBuf random choice req found proof)
    (named : ∀ key ∈ feeKey, relayerIdBuf key ≠ 0) :
    Word.ofFr (req.inputs.relayerId : Fr) = relayerIdOf feeKey ∧
      Word.ofFr (lib.poseidon [req.circuitNu lib, req.msgHash] * (1 - isZero req.inputs.relayerId)) =
        req.nuHash lib := by
  have isRelayer := clicked.relayerId
  have isNu := clicked.relayerNu
  cases feeKey with
  | none =>
      rw [VoteRequest.nuHash, isNu, isRelayer]
      simp [relayerIdOf, isZero, Word.ofFr_zero]
  | some key =>
      have small := relayerIdBuf_lt key
      have nonzero : (req.inputs.relayerId : Fr) ≠ 0 := by
        intro zero
        have value := congrArg ZMod.val zero
        rw [isRelayer, ZMod.val_natCast] at value
        rw [Option.map_some, Option.getD_some, Nat.mod_eq_of_lt small, ZMod.val_zero] at value
        exact named key rfl (BitVec.eq_of_toNat_eq value)
      constructor
      · rw [isRelayer]
        simp [relayerIdOf, ofFr_natCast small]
      · rw [VoteRequest.nuHash, isNu, isZero, if_neg nonzero, sub_zero, mul_one]
        rfl

theorem Clicked.nonce_lt {choice found : Nat} {proof : MerkleProof}
    (clicked : Clicked lib poll account oldSec feeKey censusBuf random choice req found proof) :
    req.inputs.nonce < 2 ^ 64 := by
  have high := random.nonce.1.toNat_lt
  have low := random.nonce.2.toNat_lt
  rw [clicked.nonce]
  omega

theorem Clicked.publicSignals {p : Program.Poll} {choice found : Nat} {proof : MerkleProof} {root : Int}
    {tallierPk : A}
    (clicked : Clicked lib (showPoll p) account oldSec feeKey censusBuf random choice req found proof)
    (honest : Honest C lib account oldSec censusBuf random p root tallierPk)
    (named : ∀ key ∈ feeKey, relayerIdBuf key ≠ 0) (voterPk sigR : A) (ciphertext : Fin ctLen → Fr)
    (decrypted : Fin pad → Fr) :
    ((req.assignment lib voterPk sigR tallierPk ciphertext decrypted).publicSignals C).map Word.ofFr =
      votePublicInputs p (Word.ofFr req.msgHash) (req.nuHash lib) (relayerIdOf feeKey) := by
  obtain ⟨isRelayer, isNuHash⟩ := clicked.relayer named
  have bound := scalarModulus_gt
  have isRoot : Word.ofFr (req.inputs.censusRoot : Fr) = p.censusRoot := by
    rw [clicked.censusRoot_eq, honest.censusRoot]
    exact congrArg Word.ofFr (Word.reduce_ofFr _)
  have isId : Word.ofFr (req.inputs.pollId : Fr) = u64ToU256 p.id := by
    have below := p.id.toNat_lt
    rw [show req.inputs.pollId = p.id.toNat from clicked.pollId, ofFr_natCast (by omega), u64ToU256]
  have isCount : Word.ofFr (req.inputs.nChoices : Fr) = u8ToU256 p.nChoices := by
    have below := p.nChoices.toNat_lt
    rw [show req.inputs.nChoices = p.nChoices.toNat from clicked.nChoices, ofFr_natCast (by omega), u8ToU256]
  simp only [Vote.publicSignals, votePublicInputs, VoteRequest.assignment, List.map_cons,
    List.map_nil, isRoot, isId,
    isCount, isRelayer, isNuHash, honest.tallierKey]

/-- Every statement with a witness has a proof that the program verifies. -/
def ProvableVotes (C : BabyJub A) (G : Gadgets H) (env : Env) : Prop :=
  ∀ w : Mootvote.Vote A censusDepth, w.Constraints C G → ∃ compressed opened,
    env.decompress compressed = some opened ∧ env.verifyVote opened ((w.publicSignals C).map Word.ofFr) = true

theorem Clicked.accepted {p : Program.Poll} {choice place : Nat} {merkle : MerkleProof} {root : Int}
    {tallierPk : A} {env : Env} (documented : lib.Documented C G) (provable : ProvableVotes C G env)
    (clicked : Clicked lib (showPoll p) account oldSec feeKey censusBuf random choice req place merkle)
    (offered : choice < p.nChoices.toNat) (hashed : req.Hashed lib H)
    (honest : Honest C lib account oldSec censusBuf random p root tallierPk)
    (named : ∀ key ∈ feeKey, relayerIdBuf key ≠ 0) {l : Ledger} {id : UInt64} (found : l.polls id = some p)
    (running : p.votingStartTime ≤ l.clock ∧ l.clock ≤ p.votingEndTime) {digest : Word}
    (chained : (wordHash H).hash [p.cumulativeMsgHash, Word.ofFr req.msgHash] = some digest) :
    (∃ proof, voteCommon H env l id req.message proof (req.nuHash lib) (relayerIdOf feeKey)
      (feeKey.map fun _ => Word.ofFr req.msgHash) =
        .ok ((l.setPoll id { p with cumulativeMsgHash := digest }).emit
          (.vote { pollId := p.id, message := req.message, msgHash := Word.ofFr req.msgHash }))) ∧
    ∃ m ballot, Encodes m req.message ∧ G.Opens m ballot ∧ ballot.choice = (choice + 1 : Nat) := by
  obtain ⟨sigR, ciphertext, decrypted, constraints, isCiphertext, isEphPk⟩ :=
    clicked.constraints documented hashed honest offered
  have nonce : Word.ofFr (req.inputs.nonce : Fr) = u64ToU256 (UInt64.ofNat req.inputs.nonce) := by
    have small := clicked.nonce_lt
    have bound := scalarModulus_gt
    rw [ofFr_natCast (by omega), u64ToU256, UInt64.toNat_ofNat_of_lt' small]
  have encodes : Encodes ((req.assignment lib (prv2sk lib account.prv • C.base8) sigR tallierPk ciphertext
      decrypted).message C) req.message := by
    refine ⟨?_, ?_, nonce, fun i => ?_⟩
    · rw [VoteRequest.message, isEphPk]
      rfl
    · rw [VoteRequest.message, isEphPk]
      rfl
    · have word : (List.ofFn ciphertext)[i.val]?.getD 0 = ciphertext i := by
        rw [List.getElem?_ofFn, dif_pos i.isLt, Option.getD_some]
      simp only [VoteRequest.message, isCiphertext, word]
      rfl
  have hashes : (wordHash H).hash req.message.preimage = some (Word.ofFr req.msgHash) := by
    rw [← Encodes.iff_preimage.1 encodes, wordHash_ofFr, constraints.msgHash]
    rfl
  refine ⟨?_, _, Ballot.ofDecrypted decrypted, encodes, ⟨_, decrypted, constraints.decrypt, rfl⟩, ?_⟩
  · obtain ⟨proof, opened, decompressed, verified⟩ := provable _ constraints
    obtain ⟨isRelayer, isNuHash⟩ := clicked.relayer named
    have inputs : ((req.assignment lib (prv2sk lib account.prv • C.base8) sigR tallierPk ciphertext
        decrypted).publicSignals C).map Word.ofFr =
        votePublicInputs p (Word.ofFr req.msgHash) (req.nuHash lib) (relayerIdOf feeKey) :=
      clicked.publicSignals honest named _ _ _ _
    rw [inputs] at verified
    refine ⟨proof, voteCommon_ok_iff.2 ⟨p, Word.ofFr req.msgHash, opened, digest, found, running, hashes, ?_,
      decompressed, verified, chained, rfl⟩⟩
    cases feeKey <;> simp
  · have shown := constraints.plaintextChoice
    have value : req.inputs.choice = choice + 1 := clicked.choice
    rw [← value]
    exact shown

/-- While a poll is open, a member gets to the proof of any offered choice, the program takes the vote, and
the choice in it is the selected one. -/
theorem click_accepted {p : Program.Poll} {choice : Nat} {root : Int} {tallierPk : A} {env : Env}
    (documented : lib.Documented C G) (provable : ProvableVotes C G env)
    (whole : censusBuf.length % 32 = 0)
    (listed : (lib.poseidon [account.pub.1, account.pub.2]).val ∈ ctWords censusBuf)
    (offered : choice < p.nChoices.toNat)
    (honest : Honest C lib account oldSec censusBuf random p root tallierPk)
    (named : ∀ key ∈ feeKey, relayerIdBuf key ≠ 0) {l : Ledger} {id : UInt64} (found : l.polls id = some p)
    (running : p.votingStartTime ≤ l.clock ∧ l.clock ≤ p.votingEndTime) :
    ∃ req, onVoteClick lib (showPoll p) account oldSec feeKey censusBuf random (some choice) = .ok req ∧
      (req.Hashed lib H →
        ∀ digest, (wordHash H).hash [p.cumulativeMsgHash, Word.ofFr req.msgHash] = some digest →
        (∃ proof, voteCommon H env l id req.message proof (req.nuHash lib) (relayerIdOf feeKey)
          (feeKey.map fun _ => Word.ofFr req.msgHash) =
            .ok ((l.setPoll id { p with cumulativeMsgHash := digest }).emit
              (.vote { pollId := p.id, message := req.message, msgHash := Word.ofFr req.msgHash }))) ∧
        ∃ m ballot, Encodes m req.message ∧ G.Opens m ballot ∧ ballot.choice = (choice + 1 : Nat)) := by
  obtain ⟨req, built⟩ : ∃ req, onVoteClick lib (showPoll p) account oldSec feeKey censusBuf random
    (some choice) = .ok req := onVoteClick_of_listed whole listed honest.small
  obtain ⟨selected, place, merkle, isChoice, clicked⟩ := onVoteClick_clicked built
  cases isChoice
  exact ⟨req, built, fun hashed digest chained =>
    clicked.accepted documented provable offered hashed honest named found running chained⟩

end laws

namespace OneClick

open TwoSignatures (curve)

def table : List (List Fr × Fr) :=
  [([baseX, baseY], 400), ([platformName, 9], 20), ([2, 0, baseX, baseY, 20], 1),
    ([10, 2, 0], 21), ([21], 23),
    ([0], 1000), ([6], 26), ([baseX, baseY, 0, 23, 1, 1000, 26, 0, 0, 0], 27), ([21, 21], 29), ([29, 27], 31),
    ([0, 27], 600), ([400, 1000], 2001)] ++
  ((List.range 39).map fun k => ([((1000 + k : Nat) : Fr), ((1000 + k : Nat) : Fr)],
    ((1001 + k : Nat) : Fr))) ++
  (List.range 39).map fun k => ([((2001 + k : Nat) : Fr), ((1001 + k : Nat) : Fr)], ((2002 + k : Nat) : Fr))

def hash : IdealHash Fr := .ofTable table (by decide +kernel) (by decide +kernel)

def gadgets : Gadgets hash :=
  .documented hash (fun _ pk => pk) fun _ _ ciphertext decrypted => ∀ i, decrypted i = ciphertext i.castSucc

def pointOf (xy : Fr × Fr) : ZMod subgroupOrder :=
  if xy = (baseX, baseY) then 1 else (xy.1.val : ZMod subgroupOrder)

/-- Signatures with the point two, and a cipher that encrypts nothing. -/
def lib : VoterLibrary where
  blake512 prv := prv
  pruneBuffer buffer := buffer
  poseidon xs := (hash.hash xs).getD 0
  mulPointEscalar xy n := curve.coords (n • pointOf xy)
  signPoseidon prv m :=
    let sk := ofBytesBE (prv.take 32).reverse >>> 3
    let pub := curve.coords (sk • curve.base8)
    (curve.coords (1 + 1), (2 + ((hash.hash [2, 0, pub.1, pub.2, m]).getD 0).val * (8 * sk)) % subgroupOrder)
  poseidonEncrypt plain _ _ := plain ++ [0, 0, 0]

theorem pointOf_coords (Q : ZMod subgroupOrder) : pointOf (curve.coords Q) = Q := by
  have orders : subgroupOrder < scalarModulus := by decide
  have : NeZero subgroupOrder := ⟨by decide⟩
  have flat : (0 : Fr) ≠ baseY := by decide
  by_cases one : Q = 1
  · subst one
    decide +kernel
  · have below := ZMod.val_lt Q
    have coords : curve.coords Q = ((Q.val : Fr), 0) := if_neg one
    rw [coords, pointOf, if_neg (by simp [flat]), ZMod.val_natCast, Nat.mod_eq_of_lt (by omega),
      ZMod.natCast_zmod_val]

theorem documented : lib.Documented curve gadgets where
  mulPointEscalar Q n := by simp only [lib, pointOf_coords]
  signPoseidon prv m := by
    have two : curve.coords (1 + 1) = (2, 0) := by decide +kernel
    refine ⟨1 + 1, rfl, Nat.mod_lt _ (by decide), ?_⟩
    have base : curve.base8 = 1 := rfl
    simp only [lib, two, prv2sk, base, nsmul_eq_mul, mul_one, ZMod.natCast_mod, Nat.cast_add, Nat.cast_mul,
      Nat.cast_ofNat]
    rw [one_add_one_eq_two]
  poseidonEncrypt plain key nonce length := by
    obtain ⟨a, b, c, d, rfl⟩ : ∃ a b c d, plain = [a, b, c, d] := by
      match plain, length with
      | [a, b, c, d], _ => exact ⟨a, b, c, d, rfl⟩
    refine ⟨![a, b, c, d, 0, 0, 0], ![a, b, c, d, 0, 0], rfl, fun i => ?_, fun i => ?_⟩
    · fin_cases i <;> rfl
    · fin_cases i <;> rfl

def poll : Program.Poll where
  id := 9
  nChoices := 2
  tallierKey := ⟨Word.ofFr baseX, Word.ofFr baseY⟩
  censusRoot := Word.ofFr 2040
  cumulativeMsgHash := 0
  votingStartTime := 1
  votingEndTime := 10
  platformFee := 0
  fee := 0
  feeDestination := OneVoter.payer
  descriptionUrl := ""
  censusUrl := ""
  tally := []

def account : BabyJubKeypair := genBabyJubKeypair lib [8]

def random : Randomness := { revo := List.replicate 31 0 ++ [5], eph := List.replicate 32 0, nonce := (0, 0) }

def censusBuf : List UInt8 := bytesBE 32 400

def clicked : Except JsError VoteRequest :=
  onVoteClick lib (showPoll poll) account 0 (some 21) censusBuf random (some 0)

theorem clicked_hashed : (match clicked with
    | .error _ => false
    | .ok req => req.msgHash = 27 && (req.preimages lib).all fun xs =>
      hash.hash xs = some (lib.poseidon xs)) = true := by
  decide +kernel

theorem honest : Honest curve lib account 0 censusBuf random poll 2040 1 where
  generated := rfl
  finite := by decide +kernel
  fresh := by decide +kernel
  census := by decide +kernel
  small := by decide +kernel
  censusRoot := by decide +kernel
  tallierKey := by decide +kernel

def ledger : Ledger := (genesis 5 OneVoter.lamports).setPoll 9 poll

theorem clicked_eq (req : VoteRequest) (done : clicked = .ok req) :
    req.msgHash = 27 ∧ req.Hashed lib hash := by
  have outcome := clicked_hashed
  rw [done, Bool.and_eq_true, decide_eq_true_eq, List.all_eq_true] at outcome
  exact ⟨outcome.1, fun xs member => of_decide_eq_true (outcome.2 xs member)⟩

theorem click_accepted_one : ∃ (req : VoteRequest) (proof : Program.CompressedProof) (m : Message)
    (ballot : Ballot), clicked = .ok req ∧
    voteCommon hash OneVoter.env ledger 9 req.message proof (req.nuHash lib) (relayerIdOf (some 21))
      ((some 21 : Option Word).map fun _ => Word.ofFr req.msgHash) =
      .ok ((ledger.setPoll 9 { poll with cumulativeMsgHash := 600 }).emit
        (.vote { pollId := poll.id, message := req.message, msgHash := Word.ofFr req.msgHash })) ∧
    Encodes m req.message ∧ gadgets.Opens m ballot ∧ ballot.choice = 1 := by
  have provable : ProvableVotes curve gadgets OneVoter.env := fun _ _ => ⟨OneVoter.proof, _, rfl, rfl⟩
  have named : ∀ key ∈ (some 21 : Option Word), relayerIdBuf key ≠ 0 := by
    rintro _ ⟨⟩
    decide
  have found : ledger.polls 9 = some poll := by
    change Function.update (fun _ => none) (9 : UInt64) (some poll) 9 = some poll
    exact Function.update_self _ _ _
  have running : poll.votingStartTime ≤ ledger.clock ∧ ledger.clock ≤ poll.votingEndTime := by decide
  have listed : (lib.poseidon [account.pub.1, account.pub.2]).val ∈ ctWords censusBuf := by decide +kernel
  have offered : 0 < poll.nChoices.toNat := by decide
  obtain ⟨req, done, takes⟩ :=
    click_accepted documented provable (by decide) listed offered honest named found running
  obtain ⟨isHash, hashed⟩ := clicked_eq req done
  have chained : (wordHash hash).hash [poll.cumulativeMsgHash, Word.ofFr req.msgHash] = some 600 := by
    rw [isHash]
    decide +kernel
  obtain ⟨⟨proof, taken⟩, m, ballot, encodes, opens, isChoice⟩ := takes hashed 600 chained
  exact ⟨req, proof, m, ballot, done, taken, encodes, opens, by simpa using isChoice⟩

end OneClick

end Mootvote.Frontend
