import Mathlib.Tactic.LinearCombination
import Mootvote.Circom.Gadgets

set_option autoImplicit false

/-!
# The tree circuits level by level

`SMTVerifier` and `SMTProcessor` as circomlib writes them. A level multiplies its hashes by the states
of its machine; a hash with the factor zero need not have been evaluated.
-/

namespace Mootvote

open Shared SparseMerkle

namespace Circomlib

/-- The bits of `SMTLevIns` below the level of the first sibling, and whether one of them is set. -/
def levInsBelow : List Fr → List Fr × Fr
  | [] | [_] => ([], 0)
  | sibling :: next :: rest =>
      let below := levInsBelow (next :: rest)
      let levIns := (1 - below.2) * (1 - isZero sibling)
      (levIns :: below.1, levIns + below.2)

def levIns : List Fr → List Fr
  | [] => []
  | sibling :: rest => (1 - (levInsBelow (sibling :: rest)).2) :: (levInsBelow (sibling :: rest)).1

def oneAt : Nat → Nat → List Fr
  | 0, _ => []
  | n + 1, 0 => 1 :: List.replicate n 0
  | n + 1, k + 1 => 0 :: oneAt n k

section insertion

variable {siblings : List Fr}

theorem isZero_of_ne {x : Fr} (nonzero : x ≠ 0) : isZero x = 0 := if_neg nonzero

@[simp] theorem isZero_zero : isZero 0 = 1 := if_pos rfl

theorem levInsBelow_eq (last : siblings.getLast? = some 0) : levInsBelow siblings =
    match slotLevel siblings with
    | 0 => (List.replicate (siblings.length - 1) 0, 0)
    | k + 1 => (oneAt (siblings.length - 1) k, 1) := by
  induction siblings with
  | nil => cases last
  | cons sibling rest ih =>
      cases rest with
      | nil =>
          rw [List.getLast?_singleton, Option.some.injEq] at last
          simp [levInsBelow, slotLevel, last]
      | cons next rest =>
          have outer : slotLevel (sibling :: next :: rest) =
            if slotLevel (next :: rest) = 0 ∧ sibling = 0 then 0 else slotLevel (next :: rest) + 1 := rfl
          rw [levInsBelow, ih (by simpa using last), outer]
          generalize slotLevel (next :: rest) = k
          cases k with
          | zero =>
              by_cases zero : sibling = 0
              · simp [zero, List.replicate_succ]
              · simp [zero, isZero_of_ne zero, oneAt]
          | succ k => simp [oneAt]

theorem levIns_eq (last : siblings.getLast? = some 0) :
    levIns siblings = oneAt siblings.length (slotLevel siblings) := by
  cases siblings with
  | nil => cases last
  | cons sibling rest =>
      rw [levIns, levInsBelow_eq last]
      cases slotLevel (sibling :: rest) <;> simp [oneAt]

end insertion

variable (H : IdealHash Fr)

/-- `out` is what a hash gives, where `weight` lets it count. -/
def Weighted (weight : Fr) (hashed : Option Fr) (out : Fr) : Prop := weight ≠ 0 → hashed = some out

@[simp] theorem weighted_zero (hashed : Option Fr) (out : Fr) : Weighted 0 hashed out := fun absent => absurd rfl absent

@[simp] theorem weighted_one {hashed : Option Fr} {out : Fr} : Weighted 1 hashed out ↔ hashed = some out :=
  ⟨fun weighted => weighted one_ne_zero, fun same _ => same⟩

structure VerifierSM where
  top : Fr
  i0 : Fr
  iold : Fr
  inew : Fr
  na : Fr

namespace VerifierSM

def next (is0 fnc levIns : Fr) (prev : VerifierSM) : VerifierSM where
  top := prev.top - prev.top * levIns
  inew := prev.top * levIns - prev.top * levIns * fnc
  iold := prev.top * levIns * fnc * (1 - is0)
  i0 := prev.top * levIns * is0
  na := prev.na + prev.inew + prev.iold + prev.i0

def start (enabled : Fr) : VerifierSM := { top := enabled, i0 := 0, iold := 0, inew := 0, na := 1 - enabled }

end VerifierSM

structure VerifierLevel (v : SMTVerifier) (old1leaf new1leaf : Fr) (i : Nat) (st : VerifierSM)
    (sibling child proofHash root : Fr) : Prop where
  proof : Weighted st.top (joinHash H (bit v.key i) sibling child) proofHash
  old : Weighted st.iold (leafHash H v.oldKey v.oldValue) old1leaf
  new : Weighted st.inew (leafHash H v.key v.value) new1leaf
  root : root = proofHash * st.top + old1leaf * st.iold + new1leaf * st.inew

/-- The levels of `SMTVerifier`, given by their siblings and insertion bits: the machine goes down, the root comes up. -/
def VerifierLevels (v : SMTVerifier) (old1leaf new1leaf : Fr) : Nat → VerifierSM → List (Fr × Fr) → Fr → Prop
  | _, prev, [], root => prev.na + prev.iold + prev.inew + prev.i0 = 1 ∧ root = 0
  | i, prev, (sibling, levIns) :: rest, root =>
      ∃ child proofHash, VerifierLevels v old1leaf new1leaf (i + 1) (prev.next v.isOld0 v.fnc levIns) rest child ∧
        VerifierLevel H v old1leaf new1leaf i (prev.next v.isOld0 v.fnc levIns) sibling child proofHash root

structure Verifier (v : SMTVerifier) : Prop where
  last : (isZero (v.siblings.getLastD 1) - 1) * v.enabled = 0
  levels : ∃ old1leaf new1leaf root, VerifierLevels H v old1leaf new1leaf 0 (.start v.enabled)
    (v.siblings.zip (levIns v.siblings)) root ∧ (1 - isEqual root v.root) * v.enabled = 0
  keysOk : v.fnc * (1 - v.isOld0) * isEqual v.oldKey v.key * v.enabled = 0

structure ProcessorSM where
  top : Fr
  old0 : Fr
  bot : Fr
  new1 : Fr
  na : Fr
  upd : Fr

namespace ProcessorSM

def next (is0 xor : Fr) (fnc : Fr × Fr) (levIns : Fr) (prev : ProcessorSM) : ProcessorSM :=
  let aux1 := prev.top * levIns
  let aux2 := aux1 * fnc.1
  { top := prev.top - aux1
    old0 := aux2 * is0
    new1 := (aux2 - aux2 * is0 + prev.bot) * xor
    bot := (1 - xor) * (aux2 - aux2 * is0 + prev.bot)
    upd := aux1 - aux2
    na := prev.new1 + prev.old0 + prev.na + prev.upd }

def start (enabled : Fr) : ProcessorSM :=
  { top := enabled, old0 := 0, bot := 0, new1 := 0, na := 1 - enabled, upd := 0 }

def pushing : ProcessorSM := { top := 0, old0 := 0, bot := 1, new1 := 0, na := 0, upd := 0 }

end ProcessorSM

def xorBit (p : SMTProcessor) (i : Nat) : Fr := if bit p.newKey i = bit p.oldKey i then 0 else 1

structure ProcessorLevel (p : SMTProcessor) (old1leaf new1leaf : Fr) (i : Nat) (st : ProcessorSM)
    (sibling oldChild newChild oldProofHash newProofHash oldRoot newRoot : Fr) : Prop where
  old : Weighted (st.bot + st.new1 + st.upd) (leafHash H p.oldKey p.oldValue) old1leaf
  oldBeside : Weighted st.new1 (leafHash H p.oldKey p.oldValue) old1leaf
  new : Weighted (st.old0 + st.upd) (leafHash H p.newKey p.newValue) new1leaf
  newBeside : Weighted st.new1 (leafHash H p.newKey p.newValue) new1leaf
  oldProof : Weighted st.top (joinHash H (bit p.newKey i) sibling oldChild) oldProofHash
  newProof : Weighted (st.top + st.bot + st.new1) (joinHash H (bit p.newKey i)
    (sibling * st.top + old1leaf * st.new1) (newChild * (st.top + st.bot) + new1leaf * st.new1)) newProofHash
  oldRoot : oldRoot = old1leaf * (st.bot + st.new1 + st.upd) + oldProofHash * st.top
  newRoot : newRoot = newProofHash * (st.top + st.bot + st.new1) + new1leaf * (st.old0 + st.upd)

def ProcessorLevels (p : SMTProcessor) (old1leaf new1leaf : Fr) :
    Nat → ProcessorSM → List (Fr × Fr) → Fr → Fr → Prop
  | _, prev, [], oldRoot, newRoot => prev.na + prev.new1 + prev.old0 + prev.upd = 1 ∧ oldRoot = 0 ∧ newRoot = 0
  | i, prev, (sibling, levIns) :: rest, oldRoot, newRoot =>
      ∃ oldChild newChild oldProofHash newProofHash,
        ProcessorLevels p old1leaf new1leaf (i + 1) (prev.next p.isOld0 (xorBit p i) p.fnc levIns) rest
          oldChild newChild ∧
        ProcessorLevel H p old1leaf new1leaf i (prev.next p.isOld0 (xorBit p i) p.fnc levIns)
          sibling oldChild newChild oldProofHash newProofHash oldRoot newRoot

def enabled (p : SMTProcessor) : Fr := p.fnc.1 + p.fnc.2 - p.fnc.1 * p.fnc.2

def switcher (sel left right : Fr) : Fr × Fr := ((right - left) * sel + left, (left - right) * sel + right)

structure Processor (p : SMTProcessor) : Prop where
  last : (isZero (p.siblings.getLastD 1) - 1) * enabled p = 0
  levels : ∃ old1leaf new1leaf oldRoot newRoot, ProcessorLevels H p old1leaf new1leaf 0 (.start (enabled p))
    (p.siblings.zip (levIns p.siblings)) oldRoot newRoot ∧
      (1 - isEqual p.oldRoot (switcher (p.fnc.1 * p.fnc.2) oldRoot newRoot).1) * enabled p = 0 ∧
      p.newRoot = enabled p * ((switcher (p.fnc.1 * p.fnc.2) oldRoot newRoot).2 - p.oldRoot) + p.oldRoot
  keysOk : (1 - p.fnc.1) * p.fnc.2 * (1 - isEqual p.oldKey p.newKey) = 0

section verifier

variable {H} {v : SMTVerifier} {old1leaf new1leaf root slot : Fr} {i : Nat}

namespace VerifierSM

theorem next_above (is0 fnc : Fr) : (start 1).next is0 fnc 0 = start 1 := by
  simp [next, start]

theorem next_slot (is0 fnc : Fr) : (start 1).next is0 fnc 1 =
    { top := 0, i0 := is0, iold := fnc * (1 - is0), inew := 1 - fnc, na := 0 } := by
  simp [next, start]

theorem next_below (is0 fnc levIns : Fr) {prev : VerifierSM} (passed : prev.top = 0) :
    prev.next is0 fnc levIns =
      { top := 0, i0 := 0, iold := 0, inew := 0, na := prev.na + prev.inew + prev.iold + prev.i0 } := by
  simp [next, passed]

end VerifierSM

theorem VerifierLevels.below {prev : VerifierSM} (passed : prev.top = 0) (levels : List (Fr × Fr)) :
    VerifierLevels H v old1leaf new1leaf i prev levels root ↔
      prev.na + prev.iold + prev.inew + prev.i0 = 1 ∧ root = 0 := by
  induction levels generalizing i prev root with
  | nil => rfl
  | cons level rest ih =>
      obtain ⟨sibling, levIns⟩ := level
      rw [VerifierLevels, VerifierSM.next_below _ _ _ passed]
      simp only [ih]
      constructor
      · rintro ⟨child, proofHash, ⟨sum, _⟩, counted⟩
        refine ⟨by linear_combination sum, ?_⟩
        simpa using counted.root
      · rintro ⟨sum, rfl⟩
        exact ⟨0, 0, ⟨by linear_combination sum, rfl⟩, by simp, by simp, by simp, by simp⟩

structure VerifierSlot (H : IdealHash Fr) (v : SMTVerifier) (old1leaf new1leaf slot : Fr) : Prop where
  one : v.isOld0 * (1 - v.fnc) = 0
  old : Weighted (v.fnc * (1 - v.isOld0)) (leafHash H v.oldKey v.oldValue) old1leaf
  new : Weighted (1 - v.fnc) (leafHash H v.key v.value) new1leaf
  slot : slot = old1leaf * (v.fnc * (1 - v.isOld0)) + new1leaf * (1 - v.fnc)

theorem VerifierLevels.at_slot {sibling : Fr} {rest : List (Fr × Fr)} :
    VerifierLevels H v old1leaf new1leaf i (.start 1) ((sibling, 1) :: rest) slot ↔
      VerifierSlot H v old1leaf new1leaf slot := by
  rw [VerifierLevels, VerifierSM.next_slot]
  simp only [VerifierLevels.below]
  constructor
  · rintro ⟨child, proofHash, ⟨sum, _⟩, ⟨_, old, new, root⟩⟩
    exact ⟨by linear_combination sum, old, new, by linear_combination root⟩
  · rintro ⟨one, old, new, root⟩
    exact ⟨0, 0, ⟨by linear_combination one, rfl⟩, by simp, old, new, by linear_combination root⟩

theorem VerifierLevels.fold {siblings : List Fr} {k : Nat} (inside : k < siblings.length) :
    VerifierLevels H v old1leaf new1leaf i (.start 1) (siblings.zip (oneAt siblings.length k)) root ↔
      ∃ slot, VerifierSlot H v old1leaf new1leaf slot ∧ foldUp H v.key i (siblings.take k) slot = some root := by
  induction siblings generalizing i k root with
  | nil => cases inside
  | cons sibling rest ih =>
      cases k with
      | zero =>
          rw [List.length_cons, oneAt, List.zip_cons_cons, VerifierLevels.at_slot]
          simp [foldUp]
      | succ k =>
          rw [List.length_cons, oneAt, List.zip_cons_cons, VerifierLevels, VerifierSM.next_above]
          simp only [ih (Nat.lt_of_succ_lt_succ inside), List.take_succ_cons, foldUp, Option.bind_eq_bind,
            Option.bind_eq_some_iff]
          constructor
          · rintro ⟨child, proofHash, ⟨slot, isSlot, folded⟩, counted⟩
            refine ⟨slot, isSlot, child, folded, ?_⟩
            rw [counted.root]
            simpa [VerifierSM.start] using counted.proof
          · rintro ⟨slot, isSlot, child, folded, joined⟩
            exact ⟨child, root, ⟨slot, isSlot, folded⟩, fun _ => joined, by simp [VerifierSM.start],
              by simp [VerifierSM.start], by simp [VerifierSM.start]⟩

theorem last_iff {siblings : List Fr} :
    (isZero (siblings.getLastD 1) - 1) * 1 = 0 ↔ siblings.getLast? = some 0 := by
  rw [List.getLastD_eq_getLast?]
  cases siblings.getLast? with
  | none => simp [isZero]
  | some last => by_cases zero : last = 0 <;> simp [isZero, zero]

theorem root_iff {x y : Fr} : (1 - isEqual x y) * 1 = 0 ↔ x = y := by
  rw [mul_one, sub_eq_zero, eq_comm, isEqual_eq_one]

/-- What an enabled verifier accepts, whatever `isOld0` and `fnc` are. -/
theorem verifier_iff (on : v.enabled = 1) : Verifier H v ↔ v.siblings.getLast? = some 0 ∧
    (∃ old1leaf new1leaf slot, VerifierSlot H v old1leaf new1leaf slot ∧
      v.opening.rootOf H v.key slot = some v.root) ∧
    v.fnc * (1 - v.isOld0) * isEqual v.oldKey v.key = 0 := by
  have levels (last : v.siblings.getLast? = some 0) {old1leaf new1leaf root : Fr} :
      VerifierLevels H v old1leaf new1leaf 0 (.start 1) (v.siblings.zip (levIns v.siblings)) root ↔
        ∃ slot, VerifierSlot H v old1leaf new1leaf slot ∧ v.opening.rootOf H v.key slot = some root := by
    rw [levIns_eq last]
    exact VerifierLevels.fold (slotLevel_lt last)
  constructor
  · rintro ⟨last, ⟨old1leaf, new1leaf, root, counted, same⟩, keysOk⟩
    rw [on] at last counted same keysOk
    have last := last_iff.1 last
    obtain ⟨slot, isSlot, folded⟩ := (levels last).1 counted
    rw [root_iff.1 same] at folded
    exact ⟨last, ⟨old1leaf, new1leaf, slot, isSlot, folded⟩, by rwa [mul_one] at keysOk⟩
  · rintro ⟨last, ⟨old1leaf, new1leaf, slot, isSlot, folded⟩, keysOk⟩
    refine ⟨?_, ⟨old1leaf, new1leaf, v.root, ?_, ?_⟩, ?_⟩ <;> rw [on]
    · exact last_iff.2 last
    · exact (levels last).2 ⟨slot, isSlot, folded⟩
    · exact root_iff.2 rfl
    · rwa [mul_one]

theorem verifier_disabled (off : v.enabled = 0) : Verifier H v where
  last := by rw [off, mul_zero]
  levels := ⟨0, 0, 0, (VerifierLevels.below off _).2 ⟨by simp [VerifierSM.start, off], rfl⟩, by rw [off, mul_zero]⟩
  keysOk := by rw [off, mul_zero]

theorem oldSlot_of_empty {o : Opening Fr} (empty : o.isOld0 = true) : o.oldSlot H = some 0 := by
  rw [Opening.oldSlot, if_pos empty]

theorem verifier_inclusion (accepted : Verifier H v) (on : v.enabled = 1) (member : v.fnc = 0) :
    v.isOld0 = 0 ∧ v.opening.Verifies H v.root v.key (some v.value) := by
  obtain ⟨last, ⟨old1leaf, new1leaf, slot, ⟨one, _, new, slotEq⟩, folded⟩, _⟩ := (verifier_iff on).1 accepted
  rw [member] at one new slotEq
  simp only [sub_zero, mul_one, weighted_one, zero_mul, mul_zero, zero_add] at one new slotEq
  refine ⟨one, last, ?_⟩
  rw [Opening.shownSlot, new, Option.bind_some, ← slotEq]
  exact folded

theorem verifier_exclusion (accepted : Verifier H v) (on : v.enabled = 1) (boolean : Boolean v.isOld0)
    (absent : v.fnc = 1) : v.opening.Verifies H v.root v.key none := by
  obtain ⟨last, ⟨old1leaf, new1leaf, slot, ⟨_, old, _, slotEq⟩, folded⟩, keysOk⟩ := (verifier_iff on).1 accepted
  refine ⟨last, ?_⟩
  rw [absent] at old slotEq keysOk
  rcases boolean with occupied | empty
  · rw [occupied] at old slotEq keysOk
    simp only [sub_zero, mul_one, one_mul, sub_self, mul_zero, add_zero, weighted_one] at old slotEq keysOk
    have foreign : v.oldKey ≠ v.key := by
      intro same
      rw [same, isEqual_eq_one.2 rfl] at keysOk
      exact one_ne_zero keysOk
    have occupied : v.opening.isOld0 = false := decide_eq_false (by simp [occupied])
    rw [Opening.shownSlot, if_neg fun found => foreign found.2, Opening.oldSlot, occupied]
    rw [slotEq] at folded
    simpa [SMTVerifier.opening, openingOf, old] using folded
  · rw [empty] at old slotEq
    simp only [sub_self, mul_zero, add_zero] at slotEq
    have empty : v.opening.isOld0 = true := decide_eq_true empty
    rw [Opening.shownSlot, if_neg (by simp [empty]), oldSlot_of_empty empty, Option.bind_some, ← slotEq]
    exact folded

theorem verifier_of_inclusion (on : v.enabled = 1) (occupied : v.isOld0 = 0) (member : v.fnc = 0)
    (shown : v.opening.Verifies H v.root v.key (some v.value)) : Verifier H v := by
  obtain ⟨new1leaf, hashed, folded⟩ := Option.bind_eq_some_iff.1 shown.fold
  refine (verifier_iff on).2 ⟨shown.last, ⟨0, new1leaf, new1leaf, ⟨?_, ?_, ?_, ?_⟩, folded⟩, ?_⟩ <;>
    simp [occupied, member]
  exact hashed

theorem verifier_of_exclusion (on : v.enabled = 1) (boolean : Boolean v.isOld0) (absent : v.fnc = 1)
    (shown : v.opening.Verifies H v.root v.key none) : Verifier H v := by
  obtain ⟨slot, isSlot, folded⟩ := Option.bind_eq_some_iff.1 shown.fold
  rw [Opening.shownSlot, Option.ite_none_left_eq_some] at isSlot
  obtain ⟨foreign, hashed⟩ := isSlot
  refine (verifier_iff on).2 ⟨shown.last, ⟨slot, 0, slot, ⟨?_, ?_, ?_, ?_⟩, folded⟩, ?_⟩
  · simp [absent]
  · rcases boolean with occupied | empty
    · simpa [occupied, absent, Opening.oldSlot, SMTVerifier.opening, openingOf] using hashed
    · simp [empty]
  · simp [absent]
  · rcases boolean with occupied | empty
    · simp [occupied, absent]
    · rw [oldSlot_of_empty (decide_eq_true empty), Option.some.injEq] at hashed
      simp [empty, absent, ← hashed]
  · rcases boolean with occupied | empty
    · have distinct : v.oldKey ≠ v.key := fun same => foreign ⟨decide_eq_false (by simp [occupied]), same⟩
      simp [isEqual, distinct]
    · simp [empty]

end verifier

section processor

variable {H} {p : SMTProcessor} {old1leaf new1leaf oldRoot newRoot oldSlot newSlot : Fr} {i : Nat}

namespace ProcessorSM

theorem next_above (is0 xor : Fr) (fnc : Fr × Fr) : (start 1).next is0 xor fnc 0 = start 1 := by
  simp [next, start]

theorem next_update (is0 xor : Fr) : (start 1).next is0 xor (0, 1) 1 =
    { top := 0, old0 := 0, bot := 0, new1 := 0, na := 0, upd := 1 } := by
  simp [next, start]

theorem next_insert (xor : Fr) : (start 1).next 1 xor (1, 0) 1 =
    { top := 0, old0 := 1, bot := 0, new1 := 0, na := 0, upd := 0 } := by
  simp [next, start]

theorem next_pushing (xor levIns : Fr) (fnc : Fr × Fr) : pushing.next 0 xor fnc levIns =
    { top := 0, old0 := 0, bot := 1 - xor, new1 := xor, na := 0, upd := 0 } := by
  simp [next, pushing]

theorem next_split (xor : Fr) (fnc : Fr × Fr) (levIns : Fr) :
    (start 1).next 0 xor (1, 0) 1 = pushing.next 0 xor fnc levIns := by
  simp [next, start, pushing]

theorem next_below (is0 xor : Fr) (fnc : Fr × Fr) (levIns : Fr) {prev : ProcessorSM} (passed : prev.top = 0)
    (placed : prev.bot = 0) : prev.next is0 xor fnc levIns =
      { top := 0, old0 := 0, bot := 0, new1 := 0, na := prev.new1 + prev.old0 + prev.na + prev.upd, upd := 0 } := by
  simp [next, passed, placed]

end ProcessorSM

theorem ProcessorLevels.below {prev : ProcessorSM} (passed : prev.top = 0) (placed : prev.bot = 0)
    (levels : List (Fr × Fr)) : ProcessorLevels H p old1leaf new1leaf i prev levels oldRoot newRoot ↔
      prev.na + prev.new1 + prev.old0 + prev.upd = 1 ∧ oldRoot = 0 ∧ newRoot = 0 := by
  induction levels generalizing i prev oldRoot newRoot with
  | nil => rfl
  | cons level rest ih =>
      obtain ⟨sibling, levIns⟩ := level
      rw [ProcessorLevels, ProcessorSM.next_below _ _ _ _ passed placed]
      simp only [ih]
      constructor
      · rintro ⟨oldChild, newChild, oldProofHash, newProofHash, ⟨sum, _⟩, counted⟩
        refine ⟨by linear_combination sum, ?_, ?_⟩
        · simpa using counted.oldRoot
        · simpa using counted.newRoot
      · rintro ⟨sum, rfl, rfl⟩
        exact ⟨0, 0, 0, 0, ⟨by linear_combination sum, rfl, rfl⟩, by constructor <;> simp⟩

structure Pushed (H : IdealHash Fr) (p : SMTProcessor) (old1leaf new1leaf : Fr) (levels i : Nat)
    (oldSlot newSlot : Fr) : Prop where
  old : leafHash H p.oldKey p.oldValue = some old1leaf
  new : leafHash H p.newKey p.newValue = some new1leaf
  oldSlot : oldSlot = old1leaf
  newSlot : pushDown H p.newKey p.oldKey new1leaf old1leaf levels i = some newSlot

theorem ProcessorLevels.push (occupied : p.isOld0 = 0) (levels : List (Fr × Fr)) :
    ProcessorLevels H p old1leaf new1leaf i .pushing levels oldSlot newSlot ↔
      Pushed H p old1leaf new1leaf levels.length i oldSlot newSlot := by
  induction levels generalizing i oldSlot newSlot with
  | nil =>
      constructor
      · rintro ⟨sum, _⟩
        simp [ProcessorSM.pushing] at sum
      · rintro ⟨_, _, _, pushed⟩
        cases pushed
  | cons level rest ih =>
      obtain ⟨sibling, levIns⟩ := level
      rw [ProcessorLevels, occupied, ProcessorSM.next_pushing, xorBit, List.length_cons]
      by_cases shared : bit p.newKey i = bit p.oldKey i
      · -- The leaves stay together: this level takes what the next one made of them.
        rw [if_pos shared, sub_zero]
        change (∃ _, ∃ _, ∃ _, ∃ _, ProcessorLevels H p old1leaf new1leaf (i + 1) .pushing rest _ _ ∧ _) ↔ _
        simp only [ih]
        constructor
        · rintro ⟨oldChild, newChild, oldProofHash, newProofHash, pushed, counted⟩
          refine ⟨pushed.old, pushed.new, by simpa using counted.oldRoot, ?_⟩
          rw [pushDown, if_pos shared, pushed.newSlot, Option.bind_eq_bind, Option.bind_some, counted.newRoot]
          simpa using counted.newProof
        · rintro ⟨old, new, rfl, pushed⟩
          rw [pushDown, if_pos shared, Option.bind_eq_bind, Option.bind_eq_some_iff] at pushed
          obtain ⟨newChild, deeper, joined⟩ := pushed
          exact ⟨oldSlot, newChild, 0, newSlot, ⟨old, new, rfl, deeper⟩,
            by constructor <;> simp [old, joined]⟩
      · rw [if_neg shared, sub_self]
        simp only [ProcessorLevels.below]
        constructor
        · rintro ⟨oldChild, newChild, oldProofHash, newProofHash, _, counted⟩
          refine ⟨by simpa using counted.oldBeside, by simpa using counted.newBeside,
            by simpa using counted.oldRoot, ?_⟩
          rw [pushDown, if_neg shared, counted.newRoot]
          simpa using counted.newProof
        · rintro ⟨old, new, rfl, pushed⟩
          rw [pushDown, if_neg shared] at pushed
          exact ⟨0, 0, 0, newSlot, by simp, by constructor <;> simp [old, new, pushed]⟩

def slotLevels (siblings : List Fr) (k : Nat) : List (Fr × Fr) :=
  (siblings.drop k).zip (oneAt (siblings.length - k) 0)

theorem slotLevels_eq {siblings : List Fr} {k : Nat} (inside : k < siblings.length) :
    ∃ sibling rest, slotLevels siblings k = (sibling, 1) :: rest ∧ rest.length + 1 = siblings.length - k := by
  obtain ⟨n, width⟩ : ∃ n, siblings.length - k = n + 1 := ⟨siblings.length - k - 1, by omega⟩
  rw [slotLevels, List.drop_eq_getElem_cons inside, width]
  exact ⟨_, _, rfl, by simp; omega⟩

theorem ProcessorLevels.fold {siblings : List Fr} {k : Nat} (inside : k < siblings.length) :
    ProcessorLevels H p old1leaf new1leaf i (.start 1) (siblings.zip (oneAt siblings.length k)) oldRoot newRoot ↔
      ∃ oldSlot newSlot,
        ProcessorLevels H p old1leaf new1leaf (i + k) (.start 1) (slotLevels siblings k) oldSlot newSlot ∧
        foldUp H p.newKey i (siblings.take k) oldSlot = some oldRoot ∧
        foldUp H p.newKey i (siblings.take k) newSlot = some newRoot := by
  induction siblings generalizing i k oldRoot newRoot with
  | nil => cases inside
  | cons sibling rest ih =>
      cases k with
      | zero => simp [slotLevels, foldUp]
      | succ k =>
          rw [List.length_cons, oneAt, List.zip_cons_cons, ProcessorLevels, ProcessorSM.next_above]
          have deeper : slotLevels (sibling :: rest) (k + 1) = slotLevels rest k := by simp [slotLevels]
          have level : i + (k + 1) = i + 1 + k := by omega
          simp only [ih (Nat.lt_of_succ_lt_succ inside), deeper, level, List.take_succ_cons, foldUp,
            Option.bind_eq_bind, Option.bind_eq_some_iff]
          constructor
          · rintro ⟨oldChild, newChild, oldProofHash, newProofHash,
              ⟨oldSlot, newSlot, inSlot, oldFolded, newFolded⟩, counted⟩
            refine ⟨oldSlot, newSlot, inSlot, ⟨oldChild, oldFolded, ?_⟩, newChild, newFolded, ?_⟩
            · rw [counted.oldRoot]
              simpa [ProcessorSM.start] using counted.oldProof
            · rw [counted.newRoot]
              simpa [ProcessorSM.start] using counted.newProof
          · rintro ⟨oldSlot, newSlot, inSlot, ⟨oldChild, oldFolded, oldJoined⟩, newChild, newFolded, newJoined⟩
            exact ⟨oldChild, newChild, oldRoot, newRoot, ⟨oldSlot, newSlot, inSlot, oldFolded, newFolded⟩,
              by constructor <;> simp [ProcessorSM.start, oldJoined, newJoined]⟩

section slots

variable {levels : List (Fr × Fr)} {sibling : Fr}

theorem ProcessorLevels.insert_empty (empty : p.isOld0 = 1) (mode : p.fnc = (1, 0)) :
    ProcessorLevels H p old1leaf new1leaf i (.start 1) ((sibling, 1) :: levels) oldSlot newSlot ↔
      leafHash H p.newKey p.newValue = some new1leaf ∧ oldSlot = 0 ∧ newSlot = new1leaf := by
  rw [ProcessorLevels, empty, mode, ProcessorSM.next_insert]
  simp only [ProcessorLevels.below]
  constructor
  · rintro ⟨oldChild, newChild, oldProofHash, newProofHash, _, counted⟩
    exact ⟨by simpa using counted.new, by simpa using counted.oldRoot, by simpa using counted.newRoot⟩
  · rintro ⟨new, rfl, rfl⟩
    exact ⟨0, 0, 0, 0, by simp, by constructor <;> simp [new]⟩

theorem ProcessorLevels.insert_split (occupied : p.isOld0 = 0) (mode : p.fnc = (1, 0)) :
    ProcessorLevels H p old1leaf new1leaf i (.start 1) ((sibling, 1) :: levels) oldSlot newSlot ↔
      Pushed H p old1leaf new1leaf (levels.length + 1) i oldSlot newSlot := by
  rw [← List.length_cons (a := (sibling, (1 : Fr))), ← ProcessorLevels.push occupied, ProcessorLevels,
    ProcessorLevels, occupied, mode, ProcessorSM.next_split _ (1, 0) 1]

theorem ProcessorLevels.update (mode : p.fnc = (0, 1)) :
    ProcessorLevels H p old1leaf new1leaf i (.start 1) ((sibling, 1) :: levels) oldSlot newSlot ↔
      leafHash H p.oldKey p.oldValue = some old1leaf ∧ leafHash H p.newKey p.newValue = some new1leaf ∧
        oldSlot = old1leaf ∧ newSlot = new1leaf := by
  rw [ProcessorLevels, mode, ProcessorSM.next_update]
  simp only [ProcessorLevels.below]
  constructor
  · rintro ⟨oldChild, newChild, oldProofHash, newProofHash, _, counted⟩
    exact ⟨by simpa using counted.old, by simpa using counted.new, by simpa using counted.oldRoot,
      by simpa using counted.newRoot⟩
  · rintro ⟨old, new, rfl, rfl⟩
    exact ⟨0, 0, 0, 0, by simp, by constructor <;> simp [old, new]⟩

end slots

def SlotTaken (H : IdealHash Fr) (p : SMTProcessor) (oldSlot newSlot : Fr) : Prop :=
  ∃ old1leaf new1leaf, ProcessorLevels H p old1leaf new1leaf p.opening.level (.start 1)
    (slotLevels p.siblings p.opening.level) oldSlot newSlot

/-- What a processor accepts that is to insert or to update, whatever `isOld0` is. -/
theorem processor_iff (mode : p.fnc = (1, 0) ∨ p.fnc = (0, 1)) : Processor H p ↔
    p.siblings.getLast? = some 0 ∧
    (∃ oldSlot newSlot, SlotTaken H p oldSlot newSlot ∧ p.opening.rootOf H p.newKey oldSlot = some p.oldRoot ∧
      p.opening.rootOf H p.newKey newSlot = some p.newRoot) ∧
    (p.fnc = (0, 1) → p.oldKey = p.newKey) := by
  have on : enabled p = 1 := by rcases mode with mode | mode <;> simp [enabled, mode]
  have single : p.fnc.1 * p.fnc.2 = 0 := by rcases mode with mode | mode <;> simp [mode]
  have straight (left right : Fr) : switcher 0 left right = (left, right) := by simp [switcher]
  have levels (last : p.siblings.getLast? = some 0) {old1leaf new1leaf oldRoot newRoot : Fr} :
      ProcessorLevels H p old1leaf new1leaf 0 (.start 1) (p.siblings.zip (levIns p.siblings)) oldRoot newRoot ↔
        ∃ oldSlot newSlot, ProcessorLevels H p old1leaf new1leaf p.opening.level (.start 1)
            (slotLevels p.siblings p.opening.level) oldSlot newSlot ∧
          p.opening.rootOf H p.newKey oldSlot = some oldRoot ∧
          p.opening.rootOf H p.newKey newSlot = some newRoot := by
    rw [levIns_eq last, ProcessorLevels.fold (slotLevel_lt last), Nat.zero_add]
    rfl
  have keys : (1 - p.fnc.1) * p.fnc.2 * (1 - isEqual p.oldKey p.newKey) = 0 ↔
      (p.fnc = (0, 1) → p.oldKey = p.newKey) := by
    rcases mode with mode | mode
    · simp [mode]
    · simp [mode, sub_eq_zero, eq_comm (a := (1 : Fr))]
  constructor
  · rintro ⟨last, ⟨old1leaf, new1leaf, oldRoot, newRoot, counted, same, output⟩, keysOk⟩
    rw [on] at last counted same output
    rw [single, straight] at same output
    have last := last_iff.1 last
    obtain ⟨oldSlot, newSlot, inSlot, oldFolded, newFolded⟩ := (levels last).1 counted
    have before : p.oldRoot = oldRoot := root_iff.1 same
    have after : p.newRoot = newRoot := by simpa using output
    rw [← before] at oldFolded
    rw [← after] at newFolded
    exact ⟨last, ⟨oldSlot, newSlot, ⟨old1leaf, new1leaf, inSlot⟩, oldFolded, newFolded⟩, keys.1 keysOk⟩
  · rintro ⟨last, ⟨oldSlot, newSlot, ⟨old1leaf, new1leaf, inSlot⟩, oldFolded, newFolded⟩, keysOk⟩
    refine ⟨?_, ⟨old1leaf, new1leaf, p.oldRoot, p.newRoot, ?_, ?_, ?_⟩, keys.2 keysOk⟩ <;> rw [on]
    · exact last_iff.2 last
    · exact (levels last).2 ⟨oldSlot, newSlot, inSlot, oldFolded, newFolded⟩
    · rw [single, straight]
      exact root_iff.2 rfl
    · rw [single, straight, one_mul, sub_add_cancel]

theorem processor_noOp (mode : p.fnc = (0, 0)) : Processor H p ↔ p.newRoot = p.oldRoot := by
  have off : enabled p = 0 := by simp [enabled, mode]
  constructor
  · rintro ⟨_, ⟨_, _, oldRoot, newRoot, _, _, output⟩, _⟩
    rwa [off, zero_mul, zero_add] at output
  · intro same
    refine ⟨by rw [off, mul_zero], ⟨0, 0, 0, 0, ?_, by rw [off, mul_zero], by rw [off, zero_mul, zero_add, same]⟩,
      by simp [mode]⟩
    rw [off]
    exact (ProcessorLevels.below rfl rfl _).2 ⟨by simp [ProcessorSM.start], rfl, rfl⟩

theorem slotTaken_insert (boolean : Boolean p.isOld0) (mode : p.fnc = (1, 0))
    (last : p.siblings.getLast? = some 0) : SlotTaken H p oldSlot newSlot ↔
      p.opening.oldSlot H = some oldSlot ∧ p.opening.insertedSlot H p.newKey p.newValue = some newSlot := by
  obtain ⟨sibling, rest, shape, width⟩ := slotLevels_eq (slotLevel_lt last)
  have shape : slotLevels p.siblings p.opening.level = (sibling, 1) :: rest := shape
  rw [SlotTaken, shape]
  rcases boolean with occupied | empty
  · -- A leaf of another key sits in the slot.
    simp only [ProcessorLevels.insert_split occupied mode, width]
    have slot : p.opening.isOld0 = false := decide_eq_false (by simp [occupied])
    rw [Opening.insertedSlot, Opening.oldSlot, slot, if_neg Bool.false_ne_true]
    constructor
    · rintro ⟨old1leaf, new1leaf, old, new, rfl, pushed⟩
      have old : leafHash H p.opening.oldKey p.opening.oldValue = some oldSlot := old
      refine ⟨old, ?_⟩
      rw [new, old]
      exact pushed
    · rintro ⟨old, placed⟩
      obtain ⟨new1leaf, new, placed⟩ := Option.bind_eq_some_iff.1 placed
      rw [old] at placed
      exact ⟨oldSlot, new1leaf, old, new, rfl, placed⟩
  · simp only [ProcessorLevels.insert_empty empty mode]
    have slot : p.opening.isOld0 = true := decide_eq_true empty
    rw [Opening.insertedSlot, oldSlot_of_empty slot, slot]
    constructor
    · rintro ⟨_, new1leaf, new, rfl, rfl⟩
      exact ⟨rfl, by rw [new]; rfl⟩
    · rintro ⟨old, placed⟩
      obtain ⟨new1leaf, new, placed⟩ := Option.bind_eq_some_iff.1 placed
      exact ⟨0, new1leaf, new, (Option.some.inj old).symm, (Option.some.inj placed).symm⟩

theorem slotTaken_update (mode : p.fnc = (0, 1)) (last : p.siblings.getLast? = some 0) :
    SlotTaken H p oldSlot newSlot ↔
      leafHash H p.oldKey p.oldValue = some oldSlot ∧ leafHash H p.newKey p.newValue = some newSlot := by
  obtain ⟨sibling, rest, shape, _⟩ := slotLevels_eq (slotLevel_lt last)
  have shape : slotLevels p.siblings p.opening.level = (sibling, 1) :: rest := shape
  rw [SlotTaken, shape]
  simp only [ProcessorLevels.update mode]
  constructor
  · rintro ⟨old1leaf, new1leaf, old, new, rfl, rfl⟩
    exact ⟨old, new⟩
  · rintro ⟨old, new⟩
    exact ⟨oldSlot, newSlot, old, new, rfl, rfl⟩

theorem processor_insertion (boolean : Boolean p.isOld0) (mode : p.fnc = (1, 0)) :
    Processor H p ↔ p.opening.Inserts H p.oldRoot p.newKey p.newValue p.newRoot := by
  rw [processor_iff (.inl mode)]
  constructor
  · rintro ⟨last, ⟨oldSlot, newSlot, taken, before, after⟩, _⟩
    obtain ⟨old, new⟩ := (slotTaken_insert boolean mode last).1 taken
    exact ⟨last, Option.bind_eq_some_iff.2 ⟨oldSlot, old, before⟩, Option.bind_eq_some_iff.2 ⟨newSlot, new, after⟩⟩
  · rintro ⟨last, before, after⟩
    obtain ⟨oldSlot, old, before⟩ := Option.bind_eq_some_iff.1 before
    obtain ⟨newSlot, new, after⟩ := Option.bind_eq_some_iff.1 after
    exact ⟨last, ⟨oldSlot, newSlot, (slotTaken_insert boolean mode last).2 ⟨old, new⟩, before, after⟩,
      by simp [mode]⟩

theorem processor_update (mode : p.fnc = (0, 1)) :
    Processor H p ↔ p.opening.Updates H p.oldRoot p.newKey p.newValue p.newRoot := by
  rw [processor_iff (.inr mode)]
  constructor
  · rintro ⟨last, ⟨oldSlot, newSlot, taken, before, after⟩, keys⟩
    obtain ⟨old, new⟩ := (slotTaken_update mode last).1 taken
    exact ⟨last, keys mode, Option.bind_eq_some_iff.2 ⟨oldSlot, old, before⟩,
      Option.bind_eq_some_iff.2 ⟨newSlot, new, after⟩⟩
  · rintro ⟨last, same, before, after⟩
    obtain ⟨oldSlot, old, before⟩ := Option.bind_eq_some_iff.1 before
    obtain ⟨newSlot, new, after⟩ := Option.bind_eq_some_iff.1 after
    exact ⟨last, ⟨oldSlot, newSlot, (slotTaken_update mode last).2 ⟨old, new⟩, before, after⟩, fun _ => same⟩

end processor

section unconstrained

variable {H} (leaf : Fr)

/-- Where `isOld0` is any field element, a leaf of the prover's choice shows any root to lack a key. -/
theorem verifier_of_scaled {v : SMTVerifier} (on : v.enabled = 1) (absent : v.fnc = 1)
    (last : v.siblings.getLast? = some 0) (top : v.opening.level = 0)
    (old : leafHash H v.oldKey v.oldValue = some leaf) (foreign : v.oldKey ≠ v.key)
    (scaled : leaf * (1 - v.isOld0) = v.root) : Verifier H v := by
  refine (verifier_iff on).2 ⟨last, ⟨leaf, 0, v.root, ⟨?_, fun _ => old, ?_, ?_⟩, ?_⟩, ?_⟩
  · simp [absent]
  · simp [absent]
  · simp [absent, scaled]
  · simp [Opening.rootOf, top, foldUp]
  · simp [isEqual, foreign]

theorem processor_of_scaled {p : SMTProcessor} (new proof : Fr) (mode : p.fnc = (1, 0))
    (last : p.siblings.getLast? = some 0) (top : p.opening.level = 0)
    (old : leafHash H p.oldKey p.oldValue = some leaf) (isNew : leafHash H p.newKey p.newValue = some new)
    (parted : bit p.newKey 0 ≠ bit p.oldKey 0) (scaled : leaf * (1 - p.isOld0) = p.oldRoot)
    (joined : joinHash H (bit p.newKey 0) p.oldRoot (new * (1 - p.isOld0)) = some proof)
    (output : p.newRoot = proof * (1 - p.isOld0) + new * p.isOld0) : Processor H p := by
  obtain ⟨sibling, rest, shape, _⟩ := slotLevels_eq (slotLevel_lt last)
  have shape : slotLevels p.siblings p.opening.level = (sibling, 1) :: rest := shape
  have first : (ProcessorSM.start 1).next p.isOld0 (xorBit p 0) p.fnc 1 =
      { top := 0, old0 := p.isOld0, bot := 0, new1 := 1 - p.isOld0, na := 0, upd := 0 } := by
    simp [ProcessorSM.next, ProcessorSM.start, xorBit, parted, mode]
  refine (processor_iff (.inl mode)).2 ⟨last, ⟨p.oldRoot, p.newRoot, ⟨leaf, new, ?_⟩, ?_, ?_⟩, by simp [mode]⟩
  · rw [shape, top, ProcessorLevels, first]
    refine ⟨0, 0, 0, proof, (ProcessorLevels.below rfl rfl _).2 ⟨?_, rfl, rfl⟩, ?_⟩
    · simp
    constructor <;> simp [Weighted, old, isNew, scaled, joined, output]
  · simp [Opening.rootOf, top, foldUp]
  · simp [Opening.rootOf, top, foldUp]

end unconstrained

end Circomlib

/-- The tree circuits of circomlib. -/
def Gadgets.circomlib (H : IdealHash Fr) (ecdh : Fr → Fr × Fr → Fr × Fr)
    (poseidonDecrypt : Fr × Fr → Fr → (Fin ctLen → Fr) → (Fin pad → Fr) → Prop) : Gadgets H where
  smtVerifier := Circomlib.Verifier H
  smtProcessor := Circomlib.Processor H
  ecdh := ecdh
  poseidonDecrypt := poseidonDecrypt
  inclusion _ accepted on _ member := (Circomlib.verifier_inclusion accepted on member).2
  exclusion _ accepted on boolean absent := Circomlib.verifier_exclusion accepted on boolean absent
  insertion _ accepted boolean mode := (Circomlib.processor_insertion boolean mode).1 accepted
  update _ accepted _ mode := (Circomlib.processor_update mode).1 accepted
  noOp _ accepted mode := (Circomlib.processor_noOp mode).1 accepted

theorem Gadgets.circomlib_complete (H : IdealHash Fr) (ecdh : Fr → Fr × Fr → Fr × Fr)
    (poseidonDecrypt : Fr × Fr → Fr → (Fin ctLen → Fr) → (Fin pad → Fr) → Prop) :
    (Gadgets.circomlib H ecdh poseidonDecrypt).Complete where
  disabled _ off := Circomlib.verifier_disabled off
  inclusion _ on occupied member shown := Circomlib.verifier_of_inclusion on occupied member shown
  exclusion _ on boolean absent shown := Circomlib.verifier_of_exclusion on boolean absent shown
  insertion _ boolean mode inserted := (Circomlib.processor_insertion boolean mode).2 inserted
  update _ _ mode updated := (Circomlib.processor_update mode).2 updated
  noOp _ mode same := (Circomlib.processor_noOp mode).2 same

end Mootvote
