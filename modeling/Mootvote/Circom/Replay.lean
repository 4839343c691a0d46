import Mootvote.Circom.TallyReference
import Mootvote.Circom.Vote

set_option autoImplicit false

/-!
# Replayed messages

A direct vote has no duplicate check, so a message can be sent again at any later time. Whether a
message applies depends on the voter's current revoting key, and no key becomes current twice.
-/

namespace Mootvote

open Shared SparseMerkle

variable {H : IdealHash Fr} {K : Type}

/-- A vote's limbs before the two revoting keys are hashed, with what `Vote` checks of the keys. -/
structure Revote (H : IdealHash Fr) where
  nu : Fr
  choice : Fr
  old : Fr
  new : Fr
  oldHash : Fr
  newHash : Fr
  oldHashed : H.hash [old] = some oldHash
  newHashed : H.hash [new] = some newHash
  newNonzero : new ≠ 0
  newFresh : new ≠ old

def Revote.ballot (m : Revote H) : Ballot :=
  { nu := m.nu, choice := m.choice, revotingKeyOld := m.oldHash, revotingKeyNew := m.newHash }

theorem Vote.Constraints.revote {P : Type} [AddCommGroup P] [DecidableEq P] {depth : Nat}
    {w : Vote P depth} {C : BabyJub P}
    {G : Gadgets H} (constraints : w.Constraints C G) : ∃ m : Revote H, m.ballot =
      { nu := w.plaintext 0, choice := w.plaintext 1, revotingKeyOld := w.plaintext 2
        revotingKeyNew := w.plaintext 3 } := by
  have nonzero : w.revotingKeyNew ≠ 0 := by
    intro zero
    have checked := constraints.revotingKeyNewNonzero
    rw [zero, isZero, if_pos rfl] at checked
    exact absurd checked (by decide)
  have fresh : w.revotingKeyNew ≠ w.revotingKeyOld := by
    intro same
    have checked := constraints.revotingKeyNewFresh
    rw [isEqual_eq_one.2 same] at checked
    exact absurd checked (by decide)
  exact ⟨⟨w.plaintext 0, w.plaintext 1, w.revotingKeyOld, w.revotingKeyNew, w.plaintext 2, w.plaintext 3,
    constraints.plaintextOld, constraints.plaintextNew, nonzero, fresh⟩, rfl⟩

variable [DecidableEq K] {key : Fr → K}

def record (key : Fr → K) (ms : List (Revote H)) : Book K := reference H key (ms.map Revote.ballot)

theorem record_snoc (ms : List (Revote H)) (m : Revote H) :
    record key (ms ++ [m]) = (record key ms).apply H key m.ballot := by
  rw [record, List.map_append, List.map_singleton, reference_snoc]
  rfl

def Revote.Applies (key : Fr → K) (book : Book K) (m : Revote H) : Prop :=
  book.revotingKey H (key m.nu) = some m.oldHash

theorem Revote.Applies.apply {book : Book K} {m : Revote H} (applies : m.Applies key book) :
    book.apply H key m.ballot = Function.update book (key m.nu) (some (m.choice, m.newHash)) := if_pos applies

theorem Revote.apply_of_not {book : Book K} {m : Revote H} (fails : ¬m.Applies key book) :
    book.apply H key m.ballot = book := if_neg fails

def AppliedIn (key : Fr → K) (ms : List (Revote H)) (m : Revote H) : Prop :=
  ∃ front back, ms = front ++ m :: back ∧ m.Applies key (record key front)

theorem AppliedIn.mem {ms : List (Revote H)} {m : Revote H} (applied : AppliedIn key ms m) : m ∈ ms := by
  obtain ⟨front, back, rfl, _⟩ := applied
  simp

theorem appliedIn_snoc {ms : List (Revote H)} {last m : Revote H} :
    AppliedIn key (ms ++ [last]) m ↔ AppliedIn key ms m ∨ m = last ∧ last.Applies key (record key ms) := by
  constructor
  · rintro ⟨front, back, split, applies⟩
    rcases List.eq_nil_or_concat' back with rfl | ⟨back, other, rfl⟩
    · obtain ⟨rfl, same⟩ := List.append_inj' split rfl
      cases same
      exact .inr ⟨rfl, applies⟩
    · rw [← List.cons_append, ← List.append_assoc] at split
      obtain ⟨rfl, _⟩ := List.append_inj' split rfl
      exact .inl ⟨front, back, rfl, applies⟩
  · rintro (⟨front, back, rfl, applies⟩ | ⟨rfl, applies⟩)
    · exact ⟨front, back ++ [last], by simp, applies⟩
    · exact ⟨ms, [], rfl, applies⟩

/-- The keys of one voter so far: the current one, and those of the applied messages, which it has left. -/
structure KeyLine (applied : Revote H → Prop) (current : Fr) : Prop where
  reached : current = 0 ∨ ∃ m, applied m ∧ m.new = current
  named : ∀ m, applied m → m.old = 0 ∨ ∃ m', applied m' ∧ m'.new = m.old
  left : ∀ m, applied m → m.old ≠ current

theorem KeyLine.snoc {applied : Revote H → Prop} {m : Revote H} (line : KeyLine applied m.old)
    (fresh : ∀ m', applied m' → m ≠ m' → m.new ≠ m'.new) :
    KeyLine (fun m' => applied m' ∨ m' = m) m.new where
  reached := .inr ⟨m, .inr rfl, rfl⟩
  named := by
    rintro m' (before | rfl)
    · exact (line.named m' before).imp id fun ⟨other, there, same⟩ => ⟨other, .inl there, same⟩
    · exact line.reached.imp id fun ⟨other, there, same⟩ => ⟨other, .inl there, same⟩
  left := by
    rintro m' (before | rfl) same
    · rcases line.named m' before with zero | ⟨other, there, brought⟩
      · exact m.newNonzero (same.symm.trans zero)
      · -- Only `m` itself brings this key, and `m` has been left already.
        by_cases again : m = other
        · exact line.left other there (by rw [again])
        · exact fresh other there again (same.symm.trans brought.symm)
    · exact m'.newFresh same.symm

def FreshKeys (key : Fr → K) (ms : List (Revote H)) : Prop :=
  ∀ m ∈ ms, ∀ m' ∈ ms, key m.nu = key m'.nu → m ≠ m' → m.new ≠ m'.new

theorem exists_keyLine {ms : List (Revote H)} (fresh : FreshKeys key ms) (k : K) :
    ∃ current, (record key ms).revotingKey H k = H.hash [current] ∧
      KeyLine (fun m => AppliedIn key ms m ∧ key m.nu = k) current := by
  induction ms using List.reverseRecOn with
  | nil =>
      refine ⟨0, rfl, .inl rfl, ?_, ?_⟩ <;> rintro m ⟨⟨_, _, split, _⟩, _⟩ <;> simp at split
  | append_singleton past m ih =>
      obtain ⟨current, onRecord, line⟩ :=
        ih fun m₁ first m₂ second => fresh m₁ (by simp [first]) m₂ (by simp [second])
      by_cases applies : m.Applies key (record key past) ∧ key m.nu = k
      · -- The hash on record names one key, so the message continues the voter's line.
        obtain ⟨applies, rfl⟩ := applies
        have same : m.old = current := by
          have named := onRecord.symm.trans applies
          have equal := H.injective named m.oldHashed
          simp only [List.cons.injEq, and_true] at equal
          exact equal.symm
        subst same
        refine ⟨m.new, ?_, ?_⟩
        · rw [record_snoc, applies.apply, Book.revotingKey, Function.update_self, m.newHashed]
        · have extended := line.snoc fun m' before =>
            fresh m (by simp) m' (by simp [before.1.mem]) before.2.symm
          convert extended using 2 with m'
          rw [appliedIn_snoc]
          constructor
          · rintro ⟨before | ⟨rfl, _⟩, own⟩
            · exact .inl ⟨before, own⟩
            · exact .inr rfl
          · rintro (⟨before, own⟩ | rfl)
            · exact ⟨.inl before, own⟩
            · exact ⟨.inr ⟨rfl, applies⟩, rfl⟩
      · -- A message that does not apply, or is another voter's, leaves the line as it is.
        refine ⟨current, ?_, ?_⟩
        · rw [record_snoc, ← onRecord]
          by_cases own : key m.nu = k
          · rw [Revote.apply_of_not fun applied => applies ⟨applied, own⟩]
          · by_cases applied : m.Applies key (record key past)
            · rw [applied.apply, Book.revotingKey, Function.update_of_ne (Ne.symm own), Book.revotingKey]
            · rw [Revote.apply_of_not applied]
        · convert line using 2 with m'
          rw [appliedIn_snoc]
          constructor
          · rintro ⟨before | ⟨rfl, applied⟩, own⟩
            · exact ⟨before, own⟩
            · exact absurd ⟨applied, own⟩ applies
          · rintro ⟨before, own⟩
            exact ⟨.inl before, own⟩

theorem not_applies_again {ms : List (Revote H)} (fresh : FreshKeys key ms) {m : Revote H}
    (applied : AppliedIn key ms m) : ¬m.Applies key (record key ms) := by
  intro again
  obtain ⟨current, onRecord, line⟩ := exists_keyLine fresh (key m.nu)
  have equal := H.injective (onRecord.symm.trans again) m.oldHashed
  simp only [List.cons.injEq, and_true] at equal
  exact line.left m ⟨applied, rfl⟩ equal.symm

/-- The second list is the first with copies inserted, each after its message was applied. -/
inductive WithReplays (key : Fr → K) : List (Revote H) → List (Revote H) → List (Revote H) → Prop
  | nil (past : List (Revote H)) : WithReplays key past [] []
  | keep {past ms ms' : List (Revote H)} (m : Revote H) (rest : WithReplays key (past ++ [m]) ms ms') :
      WithReplays key past (m :: ms) (m :: ms')
  | replay {past ms ms' : List (Revote H)} {m : Revote H} (applied : AppliedIn key past m)
      (rest : WithReplays key past ms ms') : WithReplays key past ms (m :: ms')

theorem WithReplays.foldl {past ms ms' : List (Revote H)} (replayed : WithReplays key past ms ms')
    (fresh : FreshKeys key (past ++ ms)) :
    ms'.foldl (fun book m => book.apply H key m.ballot) (record key past) = record key (past ++ ms) := by
  induction replayed with
  | nil past => rw [List.append_nil, List.foldl_nil]
  | keep m rest ih =>
      rw [List.append_cons] at fresh ⊢
      rw [List.foldl_cons, ← record_snoc, ih fresh]
  | replay applied rest ih =>
      have before := not_applies_again (fun m first m' second =>
        fresh m (by simp [first]) m' (by simp [second])) applied
      rw [List.foldl_cons, Revote.apply_of_not before, ih fresh]

theorem exists_leaf {ms : List (Revote H)} {k : K} (leaf : record key ms k ≠ none) (later : List (Revote H)) :
    ∃ m : Revote H, record key (ms ++ later) k = some (m.choice, m.newHash) := by
  induction later using List.reverseRecOn with
  | nil =>
      rw [List.append_nil]
      induction ms using List.reverseRecOn with
      | nil => exact absurd rfl leaf
      | append_singleton past m ih =>
          rw [record_snoc] at leaf ⊢
          by_cases applies : m.Applies key (record key past)
          · rw [applies.apply] at leaf ⊢
            by_cases own : k = key m.nu
            · exact ⟨m, by rw [own, Function.update_self]⟩
            · rw [Function.update_of_ne own] at leaf ⊢
              exact ih leaf
          · rw [Revote.apply_of_not applies] at leaf ⊢
            exact ih leaf
  | append_singleton past m ih =>
      obtain ⟨before, stored⟩ := ih
      rw [← List.append_assoc, record_snoc]
      by_cases applies : m.Applies key (record key (ms ++ past))
      · rw [applies.apply]
        by_cases own : k = key m.nu
        · exact ⟨m, by rw [own, Function.update_self]⟩
        · exact ⟨before, by rw [Function.update_of_ne own, stored]⟩
      · exact ⟨before, by rw [Revote.apply_of_not applies, stored]⟩

/-- Replays change no leaf and no count, and a first vote does not apply to a voter with a leaf. -/
theorem replays_harmless [Fintype K] (key : Fr → K) :
    (∀ ms ms' : List (Revote H), FreshKeys key ms → WithReplays key [] ms ms' →
      record key ms' = record key ms ∧ ∀ choice, (record key ms').count choice =
      (record key ms).count choice) ∧
    ∀ (ms later : List (Revote H)) (m : Revote H), record key ms (key m.nu) ≠ none → m.old = 0 →
      ¬m.Applies key (record key (ms ++ later)) := by
  constructor
  · intro ms ms' fresh replayed
    have same : record key ms' = record key ms := by
      have folded := replayed.foldl fresh
      rwa [List.nil_append, ← List.foldl_map] at folded
    exact ⟨same, fun choice => by rw [same]⟩
  · intro ms later m leaf zero applies
    obtain ⟨last, stored⟩ := exists_leaf leaf later
    rw [Revote.Applies, Book.revotingKey, stored] at applies
    have equal := H.injective (last.newHashed.trans applies) m.oldHashed
    simp only [List.cons.injEq, and_true] at equal
    exact last.newNonzero (equal.trans zero)

namespace Resent

def hash : IdealHash Fr := .ofTable [([0], 100), ([6], 101), ([7], 102)] (by decide +kernel) (by decide +kernel)

def first : Revote hash where
  nu := 5
  choice := 1
  old := 0
  new := 6
  oldHash := 100
  newHash := 101
  oldHashed := by decide +kernel
  newHashed := by decide +kernel
  newNonzero := by decide +kernel
  newFresh := by decide +kernel

def second : Revote hash where
  nu := 5
  choice := 2
  old := 6
  new := 7
  oldHash := 101
  newHash := 102
  oldHashed := by decide +kernel
  newHashed := by decide +kernel
  newNonzero := by decide +kernel
  newFresh := by decide +kernel

theorem replays_harmless_revoted :
    (record (reducedNu 64) [first, second, first, second] = record (reducedNu 64) [first, second] ∧
      ∀ choice, (record (reducedNu 64) [first, second, first, second]).count choice =
      (record (reducedNu 64) [first, second]).count choice) ∧
    ¬first.Applies (reducedNu 64) (record (reducedNu 64) ([first] ++ [second])) := by
  have applies : first.Applies (reducedNu 64) (record (H := hash) (reducedNu 64) []) := first.oldHashed
  have leaves : record (reducedNu 64) [first] (reducedNu 64 first.nu) = some (first.choice, first.newHash) := by
    rw [show [first] = [] ++ [first] from rfl, record_snoc, applies.apply, Function.update_self]
  have again : second.Applies (reducedNu 64) (record (reducedNu 64) [first]) := by
    rw [Revote.Applies, Book.revotingKey, show reducedNu 64 second.nu = reducedNu 64 first.nu from rfl, leaves]
    exact second.oldHashed
  have applied : AppliedIn (reducedNu 64) [first, second] first := ⟨[], [second], rfl, applies⟩
  have appliedAgain : AppliedIn (reducedNu 64) [first, second] second := ⟨[first], [], rfl, again⟩
  have fresh : FreshKeys (reducedNu 64) [first, second] := by
    have apart : first.new ≠ second.new := by decide +kernel
    simp [FreshKeys, apart, apart.symm]
  obtain ⟨replays, once⟩ := replays_harmless (H := hash) (reducedNu 64)
  exact ⟨replays _ _ fresh (.keep first (.keep second (.replay applied (.replay appliedAgain (.nil _))))),
    once _ _ first (by rw [leaves]; simp) rfl⟩

end Resent

end Mootvote
