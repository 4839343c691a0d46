import Mootvote.Circom.Field
import Mootvote.Shared.SparseProof

set_option autoImplicit false

/-!
# The library circuits

The circuits of circomlib and zk-kit are not part of the repository. A circuit here takes them as
parameters, with what their documentation promises when their selectors are zero or one.
-/

namespace Mootvote

open Shared SparseMerkle

-- nullifier, choice, revotingKeyOld, revotingKeyNew
abbrev limbs : Nat := 4

abbrev pad : Nat := if limbs % 3 = 0 then limbs else limbs + (3 - limbs % 3)

abbrev ctLen : Nat := pad + 1

instance : NeZero pad := ⟨by decide⟩

/-- The inputs of circomlib's `SMTVerifier(levels)`, the levels being the number of siblings. -/
structure SMTVerifier where
  enabled : Fr
  root : Fr
  siblings : List Fr
  oldKey : Fr
  oldValue : Fr
  isOld0 : Fr
  key : Fr
  value : Fr
  fnc : Fr

structure SMTProcessor where
  oldRoot : Fr
  siblings : List Fr
  oldKey : Fr
  oldValue : Fr
  isOld0 : Fr
  newKey : Fr
  newValue : Fr
  fnc : Fr × Fr
  newRoot : Fr

def openingOf (siblings : List Fr) (oldKey oldValue isOld0 : Fr) : Opening Fr :=
  { siblings, isOld0 := isOld0 = 1, oldKey, oldValue }

def SMTVerifier.opening (v : SMTVerifier) : Opening Fr :=
  openingOf v.siblings v.oldKey v.oldValue v.isOld0

def SMTProcessor.opening (p : SMTProcessor) : Opening Fr :=
  openingOf p.siblings p.oldKey p.oldValue p.isOld0

/-- The sparse-tree and cipher circuits, and what the tree circuits prove of the key they are given. -/
structure Gadgets (H : IdealHash Fr) where
  smtVerifier : SMTVerifier → Prop
  smtProcessor : SMTProcessor → Prop
  ecdh : Fr → Fr × Fr → Fr × Fr
  poseidonDecrypt : Fr × Fr → Fr → (Fin ctLen → Fr) → (Fin pad → Fr) → Prop
  inclusion : ∀ v, smtVerifier v → v.enabled = 1 → Boolean v.isOld0 → v.fnc = 0 →
    v.opening.Verifies H v.root v.key (some v.value)
  exclusion : ∀ v, smtVerifier v → v.enabled = 1 → Boolean v.isOld0 → v.fnc = 1 →
    v.opening.Verifies H v.root v.key none
  insertion : ∀ p, smtProcessor p → Boolean p.isOld0 → p.fnc = (1, 0) →
    p.opening.Inserts H p.oldRoot p.newKey p.newValue p.newRoot
  update : ∀ p, smtProcessor p → Boolean p.isOld0 → p.fnc = (0, 1) →
    p.opening.Updates H p.oldRoot p.newKey p.newValue p.newRoot
  noOp : ∀ p, smtProcessor p → p.fnc = (0, 0) → p.newRoot = p.oldRoot

variable {H : IdealHash Fr}

/-- The tree circuits that accept exactly what the documentation describes. -/
def Gadgets.documented (H : IdealHash Fr) (ecdh : Fr → Fr × Fr → Fr × Fr)
    (poseidonDecrypt : Fr × Fr → Fr → (Fin ctLen → Fr) → (Fin pad → Fr) → Prop) : Gadgets H where
  smtVerifier v := v.enabled = 0 ∨ v.enabled = 1 ∧ Boolean v.isOld0 ∧
    (v.fnc = 0 ∧ v.opening.Verifies H v.root v.key (some v.value) ∨
      v.fnc = 1 ∧ v.opening.Verifies H v.root v.key none)
  smtProcessor p := p.fnc = (0, 0) ∧ p.newRoot = p.oldRoot ∨ Boolean p.isOld0 ∧
    (p.fnc = (1, 0) ∧ p.opening.Inserts H p.oldRoot p.newKey p.newValue p.newRoot ∨
      p.fnc = (0, 1) ∧ p.opening.Updates H p.oldRoot p.newKey p.newValue p.newRoot)
  ecdh := ecdh
  poseidonDecrypt := poseidonDecrypt
  inclusion := by
    rintro v (off | ⟨_, _, ⟨_, shown⟩ | ⟨fnc, _⟩⟩) on _ member
    · simp [off] at on
    · exact shown
    · simp [fnc] at member
  exclusion := by
    rintro v (off | ⟨_, _, ⟨fnc, _⟩ | ⟨_, shown⟩⟩) on _ absent
    · simp [off] at on
    · simp [fnc] at absent
    · exact shown
  insertion := by
    rintro p (⟨fnc, _⟩ | ⟨_, ⟨_, inserted⟩ | ⟨fnc, _⟩⟩) _ mode
    · simp [fnc] at mode
    · exact inserted
    · simp [fnc] at mode
  update := by
    rintro p (⟨fnc, _⟩ | ⟨_, ⟨fnc, _⟩ | ⟨_, updated⟩⟩) _ mode
    · simp [fnc] at mode
    · simp [fnc] at mode
    · exact updated
  noOp := by
    rintro p (⟨_, same⟩ | ⟨_, ⟨fnc, _⟩ | ⟨fnc, _⟩⟩) mode
    · exact same
    · simp [fnc] at mode
    · simp [fnc] at mode

/-- The tree circuits prove the non-inclusion and the insertion they are asked for, whatever `isOld0` they are given. -/
structure Gadgets.SoundAsAsked (G : Gadgets H) : Prop where
  exclusion : ∀ v, G.smtVerifier v → v.enabled = 1 → v.fnc = 1 → v.opening.Verifies H v.root v.key none
  insertion : ∀ p, G.smtProcessor p → p.fnc = (1, 0) →
    p.opening.Inserts H p.oldRoot p.newKey p.newValue p.newRoot

theorem Gadgets.documented_asked (ecdh : Fr → Fr × Fr → Fr × Fr)
    (poseidonDecrypt : Fr × Fr → Fr → (Fin ctLen → Fr) → (Fin pad → Fr) → Prop) :
    (Gadgets.documented H ecdh poseidonDecrypt).SoundAsAsked where
  exclusion := by
    rintro v (off | ⟨_, _, ⟨fnc, _⟩ | ⟨_, shown⟩⟩) on absent
    · simp [off] at on
    · simp [fnc] at absent
    · exact shown
  insertion := by
    rintro p (⟨fnc, _⟩ | ⟨_, ⟨_, inserted⟩ | ⟨fnc, _⟩⟩) mode
    · simp [fnc] at mode
    · exact inserted
    · simp [fnc] at mode

/-- The tree circuits accept all that their documentation describes. -/
structure Gadgets.Complete (G : Gadgets H) : Prop where
  disabled : ∀ v, v.enabled = 0 → G.smtVerifier v
  inclusion : ∀ v, v.enabled = 1 → v.isOld0 = 0 → v.fnc = 0 →
    v.opening.Verifies H v.root v.key (some v.value) → G.smtVerifier v
  exclusion : ∀ v, v.enabled = 1 → Boolean v.isOld0 → v.fnc = 1 →
    v.opening.Verifies H v.root v.key none → G.smtVerifier v
  insertion : ∀ p, Boolean p.isOld0 → p.fnc = (1, 0) →
    p.opening.Inserts H p.oldRoot p.newKey p.newValue p.newRoot → G.smtProcessor p
  update : ∀ p, Boolean p.isOld0 → p.fnc = (0, 1) →
    p.opening.Updates H p.oldRoot p.newKey p.newValue p.newRoot → G.smtProcessor p
  noOp : ∀ p, p.fnc = (0, 0) → p.newRoot = p.oldRoot → G.smtProcessor p

namespace Gadgets.Complete

variable {G : Gadgets H} {ecdh : Fr → Fr × Fr → Fr × Fr}
  {poseidonDecrypt : Fr × Fr → Fr → (Fin ctLen → Fr) → (Fin pad → Fr) → Prop}

theorem verifier (complete : G.Complete) {v : SMTVerifier}
    (accepted : (Gadgets.documented H ecdh poseidonDecrypt).smtVerifier v) (occupied : v.fnc = 0 → v.isOld0 = 0) :
    G.smtVerifier v := by
  rcases accepted with off | ⟨on, boolean, ⟨member, shown⟩ | ⟨absent, shown⟩⟩
  · exact complete.disabled v off
  · exact complete.inclusion v on (occupied member) member shown
  · exact complete.exclusion v on boolean absent shown

theorem processor (complete : G.Complete) {p : SMTProcessor}
    (accepted : (Gadgets.documented H ecdh poseidonDecrypt).smtProcessor p) : G.smtProcessor p := by
  rcases accepted with ⟨mode, same⟩ | ⟨boolean, ⟨mode, inserted⟩ | ⟨mode, updated⟩⟩
  · exact complete.noOp p mode same
  · exact complete.insertion p boolean mode inserted
  · exact complete.update p boolean mode updated

end Gadgets.Complete

/-- The hints of a split are the low bits of a value and the rest of it. -/
def CanonicalSplit (depth : Nat) (lo hi : Fr) : Prop :=
  lo.val < 2 ^ depth ∧ lo.val + hi.val * 2 ^ depth < scalarModulus

instance (depth : Nat) (lo hi : Fr) : Decidable (CanonicalSplit depth lo hi) :=
  inferInstanceAs (Decidable (_ ∧ _))

theorem CanonicalSplit.lo_eq {depth : Nat} {x lo hi : Fr} (canonical : CanonicalSplit depth lo hi)
    (split : x = lo + hi * 2 ^ depth) : lo = ((x.val % 2 ^ depth : Nat) : Fr) := by
  have sum : x = ((lo.val + hi.val * 2 ^ depth : Nat) : Fr) := by
    rw [split]
    push_cast
    rw [ZMod.natCast_zmod_val, ZMod.natCast_zmod_val]
  have parts : x.val = lo.val + hi.val * 2 ^ depth := by
    rw [sum, ZMod.val_natCast, Nat.mod_eq_of_lt canonical.2]
  rw [parts, Nat.add_mul_mod_self_right, Nat.mod_eq_of_lt canonical.1, ZMod.natCast_zmod_val]

structure Message where
  ephPk : Fr × Fr
  nonce : Fr
  ciphertext : Fin ctLen → Fr
deriving DecidableEq

def Message.preimage (m : Message) : List Fr :=
  m.ephPk.1 :: m.ephPk.2 :: m.nonce :: List.ofFn m.ciphertext

theorem Message.preimage_injective {m m' : Message} (same : m.preimage = m'.preimage) : m = m' := by
  rcases m with ⟨⟨x, y⟩, nonce, ciphertext⟩
  rcases m' with ⟨⟨x', y'⟩, nonce', ciphertext'⟩
  simp only [preimage, List.cons.injEq] at same
  obtain ⟨rfl, rfl, rfl, words⟩ := same
  rw [List.ofFn_injective words]

/-- Hashing these messages one after the other into a chain takes its digest from `acc` to `acc'`. -/
def Absorbs (H : IdealHash Fr) (acc : Fr) (ms : List Message) (acc' : Fr) : Prop :=
  ∃ hashes, List.Forall₂ (fun m h => H.hash m.preimage = some h) ms hashes ∧ H.chain acc hashes = some acc'

namespace Absorbs

theorem nil (acc : Fr) : Absorbs H acc [] acc := ⟨[], .nil, rfl⟩

theorem single {acc acc' h : Fr} {m : Message} (hashed : H.hash m.preimage = some h)
    (chained : H.hash [acc, h] = some acc') : Absorbs H acc [m] acc' :=
  ⟨[h], .cons hashed .nil, by simp [chained]⟩

theorem append {acc mid acc' : Fr} {ms ms' : List Message} (front : Absorbs H acc ms mid)
    (back : Absorbs H mid ms' acc') : Absorbs H acc (ms ++ ms') acc' := by
  obtain ⟨hashes, hashed, chained⟩ := front
  obtain ⟨hashes', hashed', chained'⟩ := back
  refine ⟨hashes ++ hashes', List.rel_append hashed hashed', ?_⟩
  rw [IdealHash.chain_append, chained]
  exact chained'

theorem injective {digest : Fr} {ms ms' : List Message} (left : Absorbs H 0 ms digest)
    (right : Absorbs H 0 ms' digest) : ms = ms' := by
  obtain ⟨hashes, hashed, chained⟩ := left
  obtain ⟨hashes', hashed', chained'⟩ := right
  have same := H.chain_injective chained chained'
  subst same
  clear chained chained'
  induction hashed generalizing ms' with
  | nil =>
      cases hashed'
      rfl
  | cons first _ ih =>
      cases hashed' with
      | cons first' rest' => rw [Message.preimage_injective (H.injective first first'), ih rest']

end Absorbs

structure Ballot where
  nu : Fr
  choice : Fr
  revotingKeyOld : Fr
  revotingKeyNew : Fr
deriving DecidableEq

def Ballot.ofDecrypted (decrypted : Fin pad → Fr) : Ballot :=
  { nu := decrypted 0, choice := decrypted 1, revotingKeyOld := decrypted 2, revotingKeyNew := decrypted 3 }

def Gadgets.Opens (G : Gadgets H) (m : Message) (ballot : Ballot) : Prop :=
  ∃ key decrypted, G.poseidonDecrypt key m.nonce m.ciphertext decrypted ∧
    Ballot.ofDecrypted decrypted = ballot

/-- The cipher is authenticated: no two keys decrypt one message to different ballots. -/
def Gadgets.Authenticated (G : Gadgets H) : Prop :=
  ∀ m ballot ballot', G.Opens m ballot → G.Opens m ballot' → ballot = ballot'

end Mootvote
