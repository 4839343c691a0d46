import Mootvote.Census.Membership
import Mootvote.Frontend.Vote
import Mootvote.Program.Recorded

set_option autoImplicit false

/-!
# Signing in to the census service

The page signs its clock with the account's key; the service checks the signature and its own clock.
-/

namespace Mootvote.Frontend

open Shared Program Helpers Census

section page

def authDomain : Fr := 1635087464

-- A number of the page is written by `String`.
def decimalString (n : Nat) : List Char := Nat.toDigits 10 n

def makeAuthSig (lib : VoterLibrary) (now : Nat) (prv : List UInt8) (pubXY : Nat × Nat) : HttpRequest :=
  let m := lib.poseidon [Mootvote.platformName, authDomain, now]
  let sig := lib.signPoseidon prv m
  { pubX := some (toHex32 pubXY.1)
    pubY := some (toHex32 pubXY.2)
    ts := some (decimalString now)
    sigR8x := some (decimalString sig.1.1.val)
    sigR8y := some (decimalString sig.1.2.val)
    sigS := some (decimalString sig.2) }

def BabyJubKeypair.pubXY (account : BabyJubKeypair) : Nat × Nat := (account.pub.1.val, account.pub.2.val)

end page

section agreement

variable {H : IdealHash Fr} {A : Type} [AddCommGroup A] {C : BabyJub A} {G : Gadgets H} {lib : VoterLibrary}
  {env : Census.Env}

structure ServerDocumented (lib : VoterLibrary) (C : BabyJub A) (env : Census.Env) : Prop where
  frFromStr : ∀ x : Fr, env.frFromStr (Nat.toDigits 10 x.val) = some x
  bigIntFromStr : ∀ n : Nat, env.bigIntFromStr (Nat.toDigits 10 n) = some (n : Int)
  poseidon : ∀ xs, env.poseidon xs = lib.poseidon xs
  verify : ∀ (P R : A) (s : Nat) (m : Fr),
    env.verify (C.coords P) { rB8 := C.coords R, s := (s : Int) } (Word.ofFr m) = true ↔
      s • C.base8 = R + (lib.poseidon [(C.coords R).1, (C.coords R).2, (C.coords P).1,
        (C.coords P).2, m]).val •
        8 • P

theorem parseU64_decimal (n : UInt64) : parseU64 (Nat.toDigits 10 n.toNat) = some n := by
  have digits : (Nat.toDigits 10 n.toNat).all Char.isDigit = true := by
    rw [List.all_eq_true]
    exact fun c here => Nat.isDigit_of_mem_toDigits (by decide) (by decide) here
  have unsigned : (Nat.toDigits 10 n.toNat).head? ≠ some '+' := by
    intro plus
    have isDigit := List.all_eq_true.1 digits '+' (List.mem_of_mem_head? plus)
    simp at isDigit
  have folds : (Nat.toDigits 10 n.toNat).foldl (fun n c => n * 10 + (c.toNat - '0'.toNat)) 0 = n.toNat := by
    have whole := Nat.ofDigitChars_ten_toDigits (n := n.toNat)
    rw [Nat.ofDigitChars_eq_foldl] at whole
    simpa [Nat.mul_comm] using whole
  simp only [parseU64, if_neg unsigned, folds, digits]
  rw [if_pos ⟨Nat.toDigits_ne_nil, trivial, n.toNat_lt⟩, UInt64.ofNat_toNat]

theorem toHex32_val (x : Fr) : toHex32 x.val = hexEncode (Word.ofFr x).bytes := by
  rw [toHex32, Word.bytes, Word.toNat_ofFr]

theorem poseidonHash_ofFr (xs : List Fr) :
    poseidonHash env (xs.map Word.ofFr) = .ok (Word.ofFr (env.poseidon xs)) := by
  have residues : Word.toFrs (xs.map Word.ofFr) = some xs := Word.toFrs_map_ofFr xs
  rw [poseidonHash, residues]

theorem message_words (signedAt : UInt64) :
    [u64ToU256 Census.platformName, u64ToU256 Census.authDomain, u64ToU256 signedAt] =
      [Mootvote.platformName, authDomain, (signedAt.toNat : Fr)].map Word.ofFr := by
  simp only [u64ToU256_eq, List.map_cons, List.map_nil]
  rfl

/-- The service lets the account in exactly when the clocks are at most five minutes apart. -/
theorem auth_accepted_iff (documented : lib.Documented C G) (server : ServerDocumented lib C env)
    (prv : List UInt8)
    (signedAt now : UInt64) :
    verifyBjj env now (makeAuthSig lib signedAt.toNat (genBabyJubKeypair lib prv).prv
      (genBabyJubKeypair lib prv).pubXY) =
      if 300 < max now signedAt - min now signedAt then .error badAuth
      else .ok { pubX := Word.ofFr (genBabyJubKeypair lib prv).pub.1
                 pubY := Word.ofFr (genBabyJubKeypair lib prv).pub.2 } := by
  let m := lib.poseidon [Mootvote.platformName, authDomain, (signedAt.toNat : Fr)]
  obtain ⟨R, isR, _, equation⟩ := documented.signPoseidon prv m
  have pub : (genBabyJubKeypair lib prv).pub = C.coords (prv2sk lib prv • C.base8) := by
    rw [genBabyJubKeypair, ← C.coords_base8, documented.mulPointEscalar]
  have verified : env.verify (genBabyJubKeypair lib prv).pub
      { rB8 := (lib.signPoseidon prv m).1, s := ((lib.signPoseidon prv m).2 : Int) }
        (Word.ofFr m) = true := by
    rw [pub, isR]
    exact (server.verify _ R _ m).2 equation
  have actor : extractActor (makeAuthSig lib signedAt.toNat prv (genBabyJubKeypair lib prv).pubXY) =
      some { pubX := Word.ofFr (genBabyJubKeypair lib prv).pub.1
             pubY := Word.ofFr (genBabyJubKeypair lib prv).pub.2 } := by
    simp [extractActor, makeAuthSig, BabyJubKeypair.pubXY, toHex32_val, TestVector.parseHex32_bytes]
  have timestamp : extractTimestamp (makeAuthSig lib signedAt.toNat prv (genBabyJubKeypair lib prv).pubXY) =
      some signedAt := by
    simp [extractTimestamp, makeAuthSig, decimalString, parseU64_decimal]
  have signature : extractSig env (makeAuthSig lib signedAt.toNat prv (genBabyJubKeypair lib prv).pubXY) =
      some { rB8 := (lib.signPoseidon prv m).1, s := ((lib.signPoseidon prv m).2 : Int) } := by
    simp [extractSig, makeAuthSig, decimalString, server.frFromStr, server.bigIntFromStr, m]
  have same : (genBabyJubKeypair lib prv).prv = prv := rfl
  -- With the headers read back, only the clocks are left to decide.
  rw [same, verifyBjj, actor, timestamp, signature]
  simp only [orBadAuth, bind, Except.bind, Word.toNat_ofFr, server.frFromStr, message_words,
    poseidonHash_ofFr,
    server.poseidon]
  by_cases late : 300 < max now signedAt - min now signedAt
  · rw [if_pos late, if_pos late]
  · rw [if_neg late, if_neg late, if_pos verified]

end agreement

namespace OneClick

open TwoSignatures (curve)

def serviceEnv : Census.Env where
  frFromStr s := some ((Nat.ofDigitChars 10 s 0 : Nat) : Fr)
  bigIntFromStr s := some ((Nat.ofDigitChars 10 s 0 : Nat) : Int)
  poseidon := lib.poseidon
  verify xy sig m :=
    decide (sig.s.toNat • curve.base8 = pointOf sig.rB8 +
      (lib.poseidon [sig.rB8.1, sig.rB8.2, xy.1, xy.2, Word.reduce m]).val • 8 • pointOf xy)

theorem serviceEnv_documented : ServerDocumented lib curve serviceEnv where
  frFromStr x := by simp [serviceEnv, Nat.ofDigitChars_ten_toDigits]
  bigIntFromStr n := by simp [serviceEnv, Nat.ofDigitChars_ten_toDigits]
  poseidon _ := rfl
  verify P R s m := by
    simp only [serviceEnv, pointOf_coords, Word.reduce_ofFr, Int.toNat_natCast, decide_eq_true_eq]

theorem auth_accepted_iff_late :
    verifyBjj serviceEnv 1000 (makeAuthSig lib (699 : UInt64).toNat account.prv account.pubXY) =
      .error badAuth ∧
    verifyBjj serviceEnv 1000 (makeAuthSig lib (1300 : UInt64).toNat account.prv account.pubXY) =
      .ok { pubX := Word.ofFr account.pub.1, pubY := Word.ofFr account.pub.2 } :=
  ⟨auth_accepted_iff documented serviceEnv_documented [8] 699 1000,
    auth_accepted_iff documented serviceEnv_documented [8] 1300 1000⟩

end OneClick

end Mootvote.Frontend
