import Mootvote.Program.Deposit
import Mootvote.Program.VoteData

set_option autoImplicit false

/-!
# The bytes of a poll's account

`create_poll` allocates them once, for the result too.
-/

namespace Mootvote.Program

open Shared VoteData

section data

variable {D : Type}

/-- Into an account's bytes; what is behind the value stays. -/
def trySerialize (discriminator : UInt8) (c : Codec D) (d : D) (old : List UInt8) : Option (List UInt8) :=
  let bytes := discriminator :: c.serialize d
  if bytes.length ≤ old.length then some (bytes ++ old.drop bytes.length) else none

/-- What is behind the value is left unread. -/
def tryDeserialize (discriminator : UInt8) (c : Codec D) : List UInt8 → Option D
  | [] => none
  | first :: bs => if first = discriminator then (c.deserialize bs).map Prod.fst else none

theorem tryDeserialize_trySerialize {discriminator : UInt8} {c : Codec D} {d : D} {old new : List UInt8}
    (stored : trySerialize discriminator c d old = some new) :
    new.length = old.length ∧ tryDeserialize discriminator c new = some d := by
  simp only [trySerialize, Option.ite_none_right_eq_some, Option.some.injEq] at stored
  obtain ⟨fits, rfl⟩ := stored
  constructor
  · rw [List.length_append, List.length_drop]
    omega
  · rw [List.cons_append, tryDeserialize, if_pos rfl, c.read_back]
    rfl

theorem trySerialize_isSome (discriminator : UInt8) (c : Codec D) (d : D) (old : List UInt8) :
    (trySerialize discriminator c d old).isSome ↔ 1 + (c.serialize d).length ≤ old.length := by
  simp [trySerialize, Nat.add_comm]

structure PollData where
  id : UInt64
  nChoices : UInt8
  tallierKey : Point
  censusRoot : Word
  cumulativeMsgHash : Word
  votingStartTime : UInt64
  votingEndTime : UInt64
  platformFee : UInt64
  fee : UInt64
  feeDestination : Word
  descriptionUrl : { s : String // s.utf8ByteSize < 2 ^ 32 }
  censusUrl : { s : String // s.utf8ByteSize < 2 ^ 32 }
  tally : { xs : List UInt64 // xs.length < 2 ^ 32 }

def pollData : Codec PollData :=
  (Codec.u64.pair <| Codec.u8.pair <| point.pair <| word.pair <| word.pair <| Codec.u64.pair <|
      Codec.u64.pair <| Codec.u64.pair <| Codec.u64.pair <| word.pair <| Codec.string.pair <|
        Codec.string.pair Codec.u64.vec).map
    (fun (id, nChoices, tallierKey, censusRoot, cumulativeMsgHash, votingStartTime, votingEndTime,
        platformFee, fee, feeDestination, descriptionUrl, censusUrl, tally) =>
      ⟨id, nChoices, tallierKey, censusRoot, cumulativeMsgHash, votingStartTime, votingEndTime,
        platformFee, fee, feeDestination, descriptionUrl, censusUrl, tally⟩)
    (fun p => (p.id, p.nChoices, p.tallierKey, p.censusRoot, p.cumulativeMsgHash, p.votingStartTime,
      p.votingEndTime, p.platformFee, p.fee, p.feeDestination, p.descriptionUrl, p.censusUrl, p.tally))
    fun _ => rfl

/-- Nothing where a length does not fit the four bytes that count it. -/
def Poll.data (env : Env) (poll : Poll) : Option PollData :=
  if fits : poll.descriptionUrl.utf8ByteSize < 2 ^ 32 ∧ poll.censusUrl.utf8ByteSize < 2 ^ 32 ∧
      poll.tally.length < 2 ^ 32 then
    some
      { id := poll.id
        nChoices := poll.nChoices
        tallierKey := poll.tallierKey
        censusRoot := poll.censusRoot
        cumulativeMsgHash := poll.cumulativeMsgHash
        votingStartTime := poll.votingStartTime
        votingEndTime := poll.votingEndTime
        platformFee := poll.platformFee
        fee := poll.fee
        feeDestination := env.addressBytes poll.feeDestination
        descriptionUrl := ⟨poll.descriptionUrl, fits.1⟩
        censusUrl := ⟨poll.censusUrl, fits.2.1⟩
        tally := ⟨poll.tally, fits.2.2⟩ }
  else none

def PollData.poll (readAddress : Word → Address) (p : PollData) : Poll where
  id := p.id
  nChoices := p.nChoices
  tallierKey := p.tallierKey
  censusRoot := p.censusRoot
  cumulativeMsgHash := p.cumulativeMsgHash
  votingStartTime := p.votingStartTime
  votingEndTime := p.votingEndTime
  platformFee := p.platformFee
  fee := p.fee
  feeDestination := readAddress p.feeDestination
  descriptionUrl := p.descriptionUrl.val
  censusUrl := p.censusUrl.val
  tally := p.tally.val

def Poll.store (env : Env) (poll : Poll) (old : List UInt8) : Option (List UInt8) :=
  (poll.data env).bind fun d => trySerialize 2 pollData d old

def Poll.load (readAddress : Word → Address) (bytes : List UInt8) : Option Poll :=
  (tryDeserialize 2 pollData bytes).map (PollData.poll readAddress)

theorem length_word (w : Word) : (word.serialize w).length = 32 := Word.length_bytes w

theorem length_point (p : Point) : (point.serialize p).length = 64 := by
  rw [point, Codec.length_map, Codec.length_pair, length_word, length_word]

theorem length_pollData (p : PollData) :
    1 + (pollData.serialize p).length + 8 * p.nChoices.toNat =
      pollSpace p.nChoices p.descriptionUrl.val p.censusUrl.val + 8 * p.tally.val.length := by
  have tally : (Codec.u64.vec.serialize p.tally).length = 4 + 8 * p.tally.val.length :=
    Codec.length_vec Codec.length_u64 p.tally
  simp only [pollData, Codec.length_map, Codec.length_pair, Codec.length_u64, Codec.length_u8,
    Codec.length_string, length_word, length_point, tally, pollSpace, addedSpace]
  omega

end data

section sized

variable {H : IdealHash Fr} {env : Env} {id : UInt64} {l l' : Ledger} {e : Applied}
  {es : List Applied}

def Poll.Sized (poll : Poll) : Prop := poll.tally = [] ∨ poll.tally.length = poll.nChoices.toNat

theorem Effect.sized {signers : List Address} {r r' : Records} {i : Instruction}
    (effect : Effect H env signers r i r') (sized : ∀ poll, r.polls id = some poll → poll.Sized) :
    ∀ poll, r'.polls id = some poll → poll.Sized := by
  have updated {pollId : UInt64} {new : Poll} (own : id = pollId → new.Sized) :
      ∀ poll, Function.update r.polls pollId (some new) id = some poll → poll.Sized := by
    intro poll found
    by_cases same : id = pollId
    · rw [same, Function.update_self] at found
      rw [← Option.some.inj found]
      exact own same
    · rw [Function.update_of_ne same] at found
      exact sized poll found
  have voted {pollId : UInt64} {message : EncryptedMessage} {expected : Option Word}
      (voted : Voted H r pollId message expected r') : ∀ poll, r'.polls id = some poll → poll.Sized := by
    obtain @⟨old, _, _, there⟩ := voted
    refine updated fun same => ?_
    subst same
    exact sized old there
  -- Only `finish_tally` writes a result, and it has checked its length.
  cases effect with
  | createPoll => exact updated fun _ => .inl rfl
  | vote accepted => exact voted accepted
  | voteWithRelayer _ _ accepted => exact voted accepted
  | finishTally _ _ _ choices => exact updated fun _ => .inr choices
  | initializeConfig | updateConfig | createTally | tallyBatch | closeTally | withdrawPoll => exact sized

theorem Step.sized (step : Step H env l e l') (sized : ∀ poll, l.polls id = some poll → poll.Sized) :
    ∀ poll, l'.polls id = some poll → poll.Sized := by
  rcases step.outcome with ⟨_, polls, _⟩ | ⟨i, signers, r, _, _, polls, _, _, effect⟩
  · rw [polls]
    exact sized
  · exact effect.sized (polls ▸ sized)

theorem sized_run (run : Steps (Step H env) l es l') (sized : ∀ poll, l.polls id = some poll → poll.Sized) :
    ∀ poll, l'.polls id = some poll → poll.Sized := by
  refine run.invariant (I := fun _ mid => ∀ poll, mid.polls id = some poll → poll.Sized) sized ?_
  rintro _ mid e mid' _ before step
  exact step.sized before

end sized

section accounts

variable {H : IdealHash Fr} {env : Env} {readAddress : Word → Address} {l l' l'' : Ledger} {e : Applied}
  {es : List Applied} {c : CreatePoll}

theorem Poll.length_data {poll : Poll} {data : PollData} (written : poll.data env = some data) :
    1 + (pollData.serialize data).length + 8 * poll.nChoices.toNat =
      pollSpace poll.nChoices poll.descriptionUrl poll.censusUrl + 8 * poll.tally.length := by
  simp only [Poll.data, Option.dite_none_right_eq_some, Option.some.injEq] at written
  obtain ⟨_, rfl⟩ := written
  exact length_pollData _

theorem Poll.load_store {poll : Poll} {data : PollData} {old new : List UInt8}
    (written : poll.data env = some data) (stored : trySerialize 2 pollData data old = some new)
    (known : readAddress (env.addressBytes poll.feeDestination) = poll.feeDestination) :
    Poll.load readAddress new = some poll := by
  rw [Poll.load, (tryDeserialize_trySerialize stored).2]
  simp only [Poll.data, Option.dite_none_right_eq_some, Option.some.injEq] at written
  obtain ⟨_, rfl⟩ := written
  simp [PollData.poll, known]

theorem Poll.Sized.exists_data {poll : Poll} (sized : poll.Sized)
    (allocated : pollSpace poll.nChoices poll.descriptionUrl poll.censusUrl < 2 ^ 32) :
    ∃ data, poll.data env = some data ∧
      1 + (pollData.serialize data).length ≤ pollSpace poll.nChoices poll.descriptionUrl poll.censusUrl ∧
      (poll.tally ≠ [] →
        1 + (pollData.serialize data).length =
          pollSpace poll.nChoices poll.descriptionUrl poll.censusUrl) := by
  -- The texts are part of the space, and a result has at most 255 counts.
  have few := poll.nChoices.toNat_lt
  have bounded : poll.tally.length ≤ poll.nChoices.toNat := by
    rcases sized with missing | whole
    · simp [missing]
    · exact whole.le
  have fits : poll.descriptionUrl.utf8ByteSize < 2 ^ 32 ∧ poll.censusUrl.utf8ByteSize < 2 ^ 32 ∧
      poll.tally.length < 2 ^ 32 := by
    rw [pollSpace, addedSpace] at allocated
    omega
  obtain ⟨data, written⟩ : ∃ data, poll.data env = some data := ⟨_, dif_pos fits⟩
  have length := Poll.length_data written
  refine ⟨data, written, by omega, fun tallied => ?_⟩
  have whole := sized.resolve_left tallied
  omega

/-- The account that `create_poll` allocates holds the poll ever after, and with its result no byte is spare. -/
theorem poll_stored (readAddress : Word → Address) (created : Step H env l e l')
    (called : e.tx.call.instruction = some (.createPoll c)) (run : Steps (Step H env) l' es l'')
    (allocated : pollSpace c.nChoices c.descriptionUrl c.censusUrl < 2 ^ 32) :
    ∃ poll, l''.polls c.id = some poll ∧
      (∀ old, pollSpace c.nChoices c.descriptionUrl c.censusUrl ≤ old.length →
        ∃ new, poll.store env old = some new ∧ new.length = old.length ∧
          (readAddress (env.addressBytes poll.feeDestination) = poll.feeDestination →
            Poll.load readAddress new = some poll)) ∧
      (poll.tally ≠ [] → ∀ old, old.length < pollSpace c.nChoices c.descriptionUrl c.censusUrl →
        poll.store env old = none) := by
  obtain ⟨config, _, _, _, found, _⟩ := created.created called
  obtain ⟨poll, found', terms⟩ := terms_run run found
  have sized : poll.Sized := by
    refine sized_run run (fun first isFirst => ?_) poll found'
    cases found.symm.trans isFirst
    exact .inl rfl
  -- No instruction changes what the space was computed from.
  have space : pollSpace c.nChoices c.descriptionUrl c.censusUrl =
      pollSpace poll.nChoices poll.descriptionUrl poll.censusUrl := by
    simp only [Poll.terms, CreatePoll.poll, Poll.mk.injEq] at terms
    simp [terms]
  rw [space] at allocated ⊢
  obtain ⟨data, written, fits, full⟩ := sized.exists_data allocated
  refine ⟨poll, found', fun old enough => ?_, fun tallied old short => ?_⟩
  · have room := (trySerialize_isSome 2 pollData data old).2 (fits.trans enough)
    obtain ⟨new, stored⟩ := Option.isSome_iff_exists.1 room
    have sameLength := (tryDeserialize_trySerialize stored).1
    refine ⟨new, by rw [Poll.store, written]; exact stored, sameLength, fun known => ?_⟩
    exact Poll.load_store written stored known
  -- Borsh writes as many bytes as were allocated, not one less.
  · have noRoom : ¬(trySerialize 2 pollData data old).isSome := by
      rw [trySerialize_isSome, full tallied]
      omega
    rw [Poll.store, written]
    exact Option.not_isSome_iff_eq_none.1 noRoom

end accounts

namespace OneVoter

def pollCreation : CreatePoll :=
  { payer, id := 7, nChoices := 1, descriptionUrl := "", censusUrl := "", tallierKey := ⟨0, 0⟩
    censusRoot := 0, votingStartTime := 1, votingEndTime := 10, fee := 0, feeDestination := payer, nVoters := 1 }

theorem poll_stored_counted : ∃ l l' l'' e es, ∃ poll : Poll, Step DoubleCount.hash env l e l' ∧
    Steps (Step DoubleCount.hash env) l' es l'' ∧ l''.polls 7 = some poll ∧ poll.tally = [1] ∧
      (∀ old, pollSpace 1 "" "" ≤ old.length → ∃ new, poll.store env old = some new ∧
        new.length = old.length ∧
        (payer = poll.feeDestination → Poll.load (fun _ => payer) new = some poll)) ∧
      ∀ old, old.length < pollSpace 1 "" "" → poll.store env old = none := by
  have recorded : tallyOf (outcome (setup.take 2 ++ sign 0 (.mootvote (.createPoll pollCreation)) ::
      [cast 5, create 110, count, finish])) = some [1] := counted
  obtain ⟨_, l, e, l', es, l'', _, created, run, _, isCreate, _, tally⟩ := runs_split recorded
  have called : e.tx.call.instruction = some (.createPoll pollCreation) := by rw [isCreate]; rfl
  obtain ⟨poll, found, holds, full⟩ := poll_stored (fun _ => payer) created called run (by decide)
  have found' : l''.polls 7 = some poll := found
  rw [found', Option.map_some, Option.some.injEq] at tally
  exact ⟨l, l', l'', e, es, poll, created, run, found', tally, holds, full (by simp [tally])⟩

end OneVoter

end Mootvote.Program
