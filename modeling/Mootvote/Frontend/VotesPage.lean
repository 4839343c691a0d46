import Mootvote.Circom.TallyComplete
import Mootvote.Indexer.Db
import Mootvote.Program.History

set_option autoImplicit false

namespace Mootvote.Frontend

open Shared Program Indexer

section reading

def hexBigInt (hex : List Char) : Option Nat :=
  if hex = [] then none else hexFold 0 hex

def hexPairs : List Char → List UInt8
  | [] => []
  | [c] => [UInt8.ofNat ((hexVal c).getD 0)]
  | c :: d :: rest => UInt8.ofNat ((hexVal c).getD 0 * 16 + (hexVal d).getD 0) :: hexPairs rest

def ctWords (buf : List UInt8) : List Nat :=
  (List.range (buf.length / 32)).map fun i => ofBytesBE ((buf.drop (32 * i)).take 32)

structure ReadVote where
  r : Nat × Nat
  nonce : Nat
  ctWords : List Nat
deriving DecidableEq

def readVote (v : VoteOut) : Option ReadVote := do
  let x ← hexBigInt v.ephX
  let y ← hexBigInt v.ephY
  let buf := hexPairs v.ciphertext
  if buf.length % 32 ≠ 0 then none
  else some { r := (x, y), nonce := v.nonce.toNat, ctWords := ctWords buf }

-- Numbers enter the hash as their residues.
def ReadVote.preimage (v : ReadVote) : List Fr :=
  (v.r.1 : Fr) :: (v.r.2 : Fr) :: (v.nonce : Fr) :: v.ctWords.map Nat.cast

def runningMsgHash (H : IdealHash Fr) : Fr → List ReadVote → Option Fr
  | h, [] => some h
  | h, v :: vs => do
      let msgHash ← H.hash v.preimage
      let h ← H.hash [h, msgHash]
      runningMsgHash H h vs

end reading

section roundTrip

def numbers (m : EncryptedMessage) : ReadVote where
  r := (m.ephPk.x.toNat, m.ephPk.y.toNat)
  nonce := m.nonce.toNat
  ctWords := (List.ofFn m.ciphertext).map BitVec.toNat

theorem ofBytesBE_bytes (w : Word) : ofBytesBE w.bytes = w.toNat := by
  have below := w.isLt
  rw [Word.bytes, ofBytesBE_bytesBE]
  exact Nat.mod_eq_of_lt (by omega)

theorem hexBigInt_bytes (w : Word) : hexBigInt (hexEncode w.bytes) = some w.toNat := by
  have nonempty : hexEncode w.bytes ≠ [] := by
    intro empty
    have length := w.length_bytes
    cases bytes : w.bytes with
    | nil => simp [bytes] at length
    | cons b rest => simp [bytes, hexEncode] at empty
  rw [hexBigInt, if_neg nonempty, hexFold_hexEncode]
  exact congrArg some (ofBytesBE_bytes w)

theorem hexPairs_hexEncode (bytes : List UInt8) : hexPairs (hexEncode bytes) = bytes := by
  induction bytes with
  | nil => rfl
  | cons b bytes ih =>
      obtain ⟨high, low, whole⟩ := byte_halves b
      change hexPairs (Nat.digitChar (b.toNat / 16) :: Nat.digitChar (b.toNat % 16) :: hexEncode bytes) = _
      rw [hexPairs, hexVal_digitChar high, hexVal_digitChar low, Option.getD_some,
        Option.getD_some, whole, ih,
        UInt8.ofNat_toNat]

theorem length_flatMap_bytes (ws : List Word) : (ws.flatMap Word.bytes).length = 32 * ws.length := by
  simp [List.length_flatMap, Nat.mul_comm]

theorem ctWords_bytes (ws : List Word) : ctWords (ws.flatMap Word.bytes) = ws.map BitVec.toNat := by
  rw [ctWords, length_flatMap_bytes, Nat.mul_div_cancel_left _ (by decide)]
  induction ws with
  | nil => rfl
  | cons w ws ih =>
      have later (i : Nat) : (w.bytes ++ ws.flatMap Word.bytes).drop (32 * (i + 1)) =
          (ws.flatMap Word.bytes).drop (32 * i) := by
        rw [List.drop_append, List.drop_of_length_le (by rw [Word.length_bytes]; omega), List.nil_append,
          Word.length_bytes]
        congr 1
      have head : ofBytesBE (((w.bytes ++ ws.flatMap Word.bytes).drop (32 * 0)).take 32) = w.toNat := by
        rw [Nat.mul_zero, List.drop_zero, List.take_append_of_le_length (by simp),
          List.take_of_length_le (by simp),
          ofBytesBE_bytes]
      have tail : (List.range ws.length).map (fun i =>
          ofBytesBE (((w.bytes ++ ws.flatMap Word.bytes).drop (32 * (i + 1))).take 32)) =
            ws.map BitVec.toNat := by
        simp only [later, ih]
      simp only [List.length_cons, List.range_succ_eq_map, List.map_cons, List.map_map,
        List.flatMap_cons, head,
        Function.comp_def, Nat.succ_eq_add_one, tail]

/-- Hex and casts to signed columns lose nothing. -/
theorem readVote_voteOut (e : VoteEvent) (id : Int64) :
    readVote (voteOut { voteColumns e with id }) = some (numbers e.message) := by
  have whole : ((List.ofFn e.message.ciphertext).flatMap Word.bytes).length % 32 = 0 := by
    rw [length_flatMap_bytes, Nat.mul_mod_right]
  simp only [readVote, voteOut, voteColumns, hexBigInt_bytes, hexPairs_hexEncode, ctWords_bytes,
    whole, numbers]
  simp

end roundTrip

section refold

variable {H : IdealHash Fr}

theorem preimage_numbers (p : EncryptedMessage) : (numbers p).preimage = p.preimage.map Word.reduce := by
  have nonce : Word.reduce (u64ToU256 p.nonce) = (p.nonce.toNat : Fr) := by
    have below := p.nonce.toNat_lt
    rw [Word.reduce, u64ToU256, BitVec.toNat_ofNat, Nat.mod_eq_of_lt (by omega)]
  simp only [ReadVote.preimage, numbers, EncryptedMessage.preimage, List.map_cons, nonce, List.map_map]
  rfl

theorem Encodes.numbers {m : Message} {p : EncryptedMessage} (encodes : Encodes m p) :
    (numbers p).preimage = m.preimage := by
  rw [preimage_numbers, ← Encodes.iff_preimage.1 encodes, List.map_map]
  have same : Word.reduce ∘ Word.ofFr = id := funext Word.reduce_ofFr
  rw [same, List.map_id]

theorem runningMsgHash_absorbs {ms : List Message} {ps : List EncryptedMessage} {h c : Fr}
    (encoded : List.Forall₂ Encodes ms ps) (absorbs : Absorbs H h ms c) :
    runningMsgHash H h (ps.map numbers) = some c := by
  induction encoded generalizing h with
  | nil =>
      obtain ⟨_, ⟨⟩, chained⟩ := absorbs
      exact chained
  | cons encodes _ ih =>
      obtain ⟨msgHash, next, hashed, chained, later⟩ := absorbs.uncons
      rw [List.map_cons, runningMsgHash, Encodes.numbers encodes, hashed, Option.bind_eq_bind,
        Option.bind_some,
        chained, Option.bind_some]
      exact ih later

end refold

end Mootvote.Frontend
