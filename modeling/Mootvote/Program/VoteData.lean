import Mootvote.Program.Run
import Mootvote.Shared.Borsh
import Mootvote.Shared.Hex
import Mootvote.Smt.Node

set_option autoImplicit false

/-!
# The bytes of a relayed vote

The frontend writes the data, `relay` puts its own arguments before them, and `vote_with_relayer` reads both.
-/

namespace Mootvote.Program.VoteData

open Shared

section frontend

structure SerializeVoteDataParams where
  ciphertext : List (List UInt8)
  proofA : List UInt8
  proofB : List UInt8
  proofC : List UInt8
  ephPkX : List UInt8
  ephPkY : List UInt8
  nonce : Nat

/-- `res.set(source, offset)`; what does not fit throws. -/
def set (res source : List UInt8) (offset : Nat) : Option (List UInt8) :=
  if offset + source.length ≤ res.length then
    some (res.take offset ++ source ++ res.drop (offset + source.length))
  else none

/-- `toArrayLike(Buffer, "le", length)`; a longer number throws. -/
def toArrayLike (length n : Nat) : Option (List UInt8) :=
  if n < 256 ^ length then some (bytesLE length n) else none

def setNext (out : List UInt8 × Nat) (source : List UInt8) : Option (List UInt8 × Nat) := do
  let (res, offset) := out
  let res ← set res source offset
  return (res, offset + source.length)

def serializeVoteData (params : SerializeVoteDataParams) : Option (List UInt8) := do
  let first ← params.ciphertext[0]?
  let res := List.replicate (params.ephPkX.length + params.ephPkY.length + 8 +
    params.ciphertext.length * first.length + params.proofA.length + params.proofB.length +
      params.proofC.length) 0
  let out ← setNext (res, 0) params.ephPkX
  let out ← setNext out params.ephPkY
  let nonce ← toArrayLike 8 params.nonce
  let res ← set out.1 nonce out.2
  let out := (res, out.2 + 8)
  let out ← params.ciphertext.foldlM setNext out
  let out ← setNext out params.proofA
  let out ← setNext out params.proofB
  let out ← setNext out params.proofC
  return out.1

/-- `relayer_id[0] &= (1 << 5) - 1`, also in the frontend. -/
def maskId : List UInt8 → List UInt8
  | [] => []
  | b :: bs => (b &&& ((1 : UInt8) <<< 5 - 1)) :: bs

def relayerId (feeKey : Word) : Option Nat := hexFold 0 (hexEncode (maskId feeKey.bytes))

end frontend

section programs

def fullData (discriminator : UInt8) (nuHash msgHash relayer : Word) (data : List UInt8) : List UInt8 :=
  [discriminator] ++ nuHash.bytes ++ msgHash.bytes ++ maskId relayer.bytes ++ data

structure VoteWithRelayerArgs where
  relayerNuHash : Word
  msgHash : Word
  relayerId : Word
  ephPk : Point
  nonce : UInt64
  ciphertext : Fin ctLen → Word
  proof : CompressedProof

def bytes64 (w : BitVec 512) : List UInt8 := bytesBE 64 w.toNat

theorem ofNat_bytesBE {n : Nat} (w : BitVec (8 * n)) :
    BitVec.ofNat (8 * n) (ofBytesBE (bytesBE n w.toNat)) = w := by
  have below := w.isLt
  rw [Nat.pow_mul] at below
  apply BitVec.eq_of_toNat_eq
  rw [ofBytesBE_bytesBE, Nat.mod_eq_of_lt below, BitVec.toNat_ofNat, Nat.mod_eq_of_lt w.isLt]

def word : Codec Word := .fixed 32 Word.bytes Word.ofBytes Word.length_bytes Word.ofBytes_bytes

def word64 : Codec (BitVec 512) :=
  .fixed 64 bytes64 (fun bs => BitVec.ofNat 512 (ofBytesBE bs)) (fun _ => length_bytesBE 64 _)
    (@ofNat_bytesBE 64)

def point : Codec Point := (word.pair word).map (fun (x, y) => ⟨x, y⟩) (fun p => (p.x, p.y)) fun _ => rfl

def compressedProof : Codec CompressedProof :=
  (word.pair (word64.pair word)).map (fun (a, b, c) => ⟨a, b, c⟩) (fun p => (p.a, p.b, p.c)) fun _ => rfl

def VoteWithRelayerArgs.codec : Codec VoteWithRelayerArgs :=
  (word.pair <| word.pair <| word.pair <| point.pair <| Codec.u64.pair <|
      (word.array ctLen).pair compressedProof).map
    (fun (nuHash, msgHash, relayerId, ephPk, nonce, ciphertext, proof) =>
      ⟨nuHash, msgHash, relayerId, ephPk, nonce, ciphertext, proof⟩)
    (fun a => (a.relayerNuHash, a.msgHash, a.relayerId, a.ephPk, a.nonce, a.ciphertext, a.proof)) fun _ => rfl

theorem VoteWithRelayerArgs.serialize_eq (a : VoteWithRelayerArgs) :
    VoteWithRelayerArgs.codec.serialize a = a.relayerNuHash.bytes ++ (a.msgHash.bytes ++ (a.relayerId.bytes ++
      ((a.ephPk.x.bytes ++ a.ephPk.y.bytes) ++ (bytesLE 8 a.nonce.toNat ++
        ((List.ofFn a.ciphertext).flatMap Word.bytes ++
          (a.proof.a.bytes ++ (bytes64 a.proof.b ++ a.proof.c.bytes))))))) := by
  have ciphertext := Codec.serialize_array word a.ciphertext
  change _ = _ ++ (_ ++ (_ ++ (_ ++ (_ ++ ((List.ofFn a.ciphertext).flatMap word.serialize ++ _)))))
  rw [← ciphertext]
  rfl

/-- The arguments and the bytes left over, where the first byte calls `vote_with_relayer`. -/
def voteWithRelayerData : List UInt8 → Option (VoteWithRelayerArgs × List UInt8)
  | [] => none
  | discriminator :: bs => if discriminator = 4 then VoteWithRelayerArgs.codec.deserialize bs else none

end programs

section writing

variable {total : Nat} {front source : List UInt8}

def filled (total : Nat) (front : List UInt8) : List UInt8 := front ++ List.replicate (total - front.length) 0

theorem filled_full (full : front.length = total) : filled total front = front := by
  rw [filled, full, Nat.sub_self, List.replicate_zero, List.append_nil]

theorem set_filled (fits : front.length + source.length ≤ total) :
    set (filled total front) source front.length = some (filled total (front ++ source)) := by
  have length : (filled total front).length = total := by
    simp only [filled, List.length_append, List.length_replicate]
    omega
  rw [set, length, if_pos fits]
  have rest : (filled total front).drop (front.length + source.length) =
      List.replicate (total - (front ++ source).length) 0 := by
    rw [filled, List.drop_append, List.drop_of_length_le (by omega), List.drop_replicate, List.length_append]
    simp only [List.nil_append]
    congr 1
    omega
  rw [rest, filled, List.take_left, filled]

theorem setNext_filled (fits : front.length + source.length ≤ total) :
    setNext (filled total front, front.length) source =
      some (filled total (front ++ source), (front ++ source).length) := by
  rw [setNext, List.length_append]
  simp [set_filled fits]

theorem foldlM_setNext {sources : List (List UInt8)} (fits : front.length + sources.flatten.length ≤ total) :
    sources.foldlM setNext (filled total front, front.length) =
      some (filled total (front ++ sources.flatten), (front ++ sources.flatten).length) := by
  induction sources generalizing front with
  | nil => simp
  | cons source sources ih =>
      rw [List.flatten_cons, List.length_append] at fits
      rw [List.foldlM_cons, setNext_filled (by omega), List.flatten_cons, ← List.append_assoc]
      exact ih (by rw [List.length_append]; omega)

theorem length_flatten_words {words : List (List UInt8)} {width : Nat} (all : ∀ c ∈ words, c.length = width) :
    words.flatten.length = words.length * width := by
  induction words with
  | nil => simp
  | cons c words ih =>
      rw [List.forall_mem_cons] at all
      rw [List.flatten_cons, List.length_append, all.1, ih all.2, List.length_cons,
        Nat.succ_mul, Nat.add_comm]

theorem serializeVoteData_eq {params : SerializeVoteDataParams} {width : Nat}
    (nonempty : params.ciphertext ≠ [])
    (words : ∀ c ∈ params.ciphertext, c.length = width) (small : params.nonce < 2 ^ 64) :
    serializeVoteData params = some (params.ephPkX ++ params.ephPkY ++ bytesLE 8 params.nonce ++
      params.ciphertext.flatten ++ params.proofA ++ params.proofB ++ params.proofC) := by
  obtain ⟨first, rest, shape⟩ := List.exists_cons_of_ne_nil nonempty
  have isFirst : params.ciphertext[0]? = some first := by rw [shape]; rfl
  have wide : first.length = width := words first (by simp [shape])
  have sized := length_flatten_words words
  have nonce : toArrayLike 8 params.nonce = some (bytesLE 8 params.nonce) := if_pos (by omega)
  rw [serializeVoteData, isFirst]
  simp only [Option.bind_eq_bind, Option.bind_some, wide, ← sized, nonce]
  generalize total_eq : params.ephPkX.length + params.ephPkY.length + 8 + params.ciphertext.flatten.length +
    params.proofA.length + params.proofB.length + params.proofC.length = total
  have start : (List.replicate total (0 : UInt8), 0) = (filled total [], ([] : List UInt8).length) := by
    simp [filled]
  rw [start, setNext_filled (by rw [List.length_nil]; omega), List.nil_append, Option.bind_some,
    setNext_filled (by omega), Option.bind_some]
  dsimp only
  have offset : (params.ephPkX ++ params.ephPkY).length + 8 =
      (params.ephPkX ++ params.ephPkY ++ bytesLE 8 params.nonce).length := by
    simp only [List.length_append, length_bytesLE]
  rw [set_filled (by simp only [List.length_append, length_bytesLE]; omega), Option.bind_some, offset,
    foldlM_setNext (by simp only [List.length_append, length_bytesLE]; omega), Option.bind_some,
    setNext_filled (by simp only [List.length_append, length_bytesLE]; omega), Option.bind_some,
    setNext_filled (by simp only [List.length_append, length_bytesLE]; omega), Option.bind_some,
    setNext_filled (by simp only [List.length_append, length_bytesLE]; omega), Option.bind_some]
  refine congrArg some (filled_full ?_)
  simp only [List.length_append, length_bytesLE]
  omega

end writing

section identity

variable (key : Word)

-- Clearing the top three bits of the first byte leaves the lowest 253 bits.
theorem maskId_bytes : maskId key.bytes = bytesBE 32 (key.toNat % 2 ^ 253) := by
  have size : 2 ^ 253 = 256 ^ 31 * 32 := by norm_num
  have bits : ∀ k < 256, UInt8.ofNat k &&& ((1 : UInt8) <<< 5 - 1) = UInt8.ofNat (k % 32) := by decide +kernel
  have head : key.toNat / 256 ^ 31 < 256 := Nat.div_lt_of_lt_mul (by simpa using key.isLt)
  have parts : key.toNat = key.toNat % 2 ^ 253 + 256 ^ 31 * (32 * (key.toNat / 2 ^ 253)) := by
    rw [← Nat.mul_assoc, ← size, Nat.mod_add_div]
  have tail : bytesBE 31 key.toNat = bytesBE 31 (key.toNat % 2 ^ 253) := by
    conv_lhs => rw [parts, bytesBE_add]
  have cons (x : Nat) : bytesBE 32 x = UInt8.ofNat (x / 256 ^ 31) :: bytesBE 31 x := bytesBE_cons
  rw [Word.bytes, cons, cons, maskId, bits _ head, tail, size, Nat.mod_mul_right_div_self]

theorem relayerId_eq : relayerId key = some (key.toNat % 2 ^ 253) := by
  have small : key.toNat % 2 ^ 253 < 256 ^ 32 := (Nat.mod_lt _ (by decide)).trans (by decide)
  rw [relayerId, hexFold_hexEncode, maskId_bytes]
  change some (ofBytesBE _) = _
  rw [ofBytesBE_bytesBE, Nat.mod_eq_of_lt small]

theorem maskId_canonical : key.toNat % 2 ^ 253 < scalarModulus :=
  (Nat.mod_lt _ (by decide)).trans scalarModulus_gt

theorem bytes_ofFr {n : Nat} (canonical : n < scalarModulus) : (Word.ofFr (n : Fr)).bytes = bytesBE 32 n := by
  rw [Word.bytes, Word.toNat_ofFr, ZMod.val_natCast, Nat.mod_eq_of_lt canonical]

-- The identity of the program's model, in which keys are words.
theorem ofFr_maskId (env : Env) (relayer : Address) :
    Word.ofFr ((env.addressBytes relayer).toNat % 2 ^ 253 : Nat) = ZkRelayer.relayerId env relayer := by
  apply BitVec.eq_of_toNat_eq
  have ones : (BitVec.ofNat 256 (2 ^ 253 - 1)).toNat = 2 ^ 253 - 1 := by decide
  rw [Word.toNat_ofFr, ZMod.val_natCast, Nat.mod_eq_of_lt (maskId_canonical _), ZkRelayer.relayerId,
    BitVec.toNat_and, ones, Nat.and_two_pow_sub_one_eq_mod]

end identity

def params (ephPk : Point) (nonce : Nat) (ciphertext : Fin ctLen → Word) (proof : CompressedProof) :
    SerializeVoteDataParams where
  ciphertext := (List.ofFn ciphertext).map Word.bytes
  proofA := proof.a.bytes
  proofB := bytes64 proof.b
  proofC := proof.c.bytes
  ephPkX := ephPk.x.bytes
  ephPkY := ephPk.y.bytes
  nonce := nonce

/-- The data that `relay` assembles are read as the vote, and its relayer is the one in the proof. -/
theorem relayed_vote_decodes (ephPk : Point) (nonce : UInt64) (ciphertext : Fin ctLen → Word)
    (proof : CompressedProof) (nuHash msgHash relayer : Word) :
    ∃ data id,
      serializeVoteData (params ephPk nonce.toNat ciphertext proof) = some data ∧
      relayerId relayer = some id ∧
      voteWithRelayerData (fullData 4 nuHash msgHash relayer data) =
        some ({ relayerNuHash := nuHash, msgHash, relayerId := Word.ofFr id, ephPk, nonce, ciphertext, proof },
          []) ∧
      id < scalarModulus := by
  have words : ∀ c ∈ (params ephPk nonce.toNat ciphertext proof).ciphertext, c.length = 32 := by
    intro c inside
    obtain ⟨w, _, rfl⟩ := List.mem_map.1 inside
    exact Word.length_bytes w
  have data := serializeVoteData_eq (by simp [params, ctLen]) words nonce.toNat_lt
  refine ⟨_, _, data, relayerId_eq relayer, ?_, maskId_canonical relayer⟩
  have whole : fullData 4 nuHash msgHash relayer
      (ephPk.x.bytes ++ ephPk.y.bytes ++ bytesLE 8 nonce.toNat ++
        ((List.ofFn ciphertext).map Word.bytes).flatten ++
        proof.a.bytes ++ bytes64 proof.b ++ proof.c.bytes) =
      4 :: (VoteWithRelayerArgs.codec.serialize
        { relayerNuHash := nuHash, msgHash, relayerId := Word.ofFr (relayer.toNat % 2 ^ 253 : Nat),
          ephPk, nonce, ciphertext, proof } ++ []) := by
    rw [VoteWithRelayerArgs.serialize_eq, bytes_ofFr (maskId_canonical relayer), ← maskId_bytes,
      List.flatMap_def,
      fullData]
    simp only [List.append_assoc, List.append_nil, List.cons_append, List.nil_append]
  simp only [params]
  rw [whole, voteWithRelayerData, if_pos rfl]
  exact VoteWithRelayerArgs.codec.read_back _ []

end Mootvote.Program.VoteData
