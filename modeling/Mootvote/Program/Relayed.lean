import Mootvote.Program.History

set_option autoImplicit false

/-!
# Relayed votes

A relayed vote is accepted inside a `relay` on its poll's relayer state, and `relay` puts the
message's hash into the tree whose root that state keeps.
-/

namespace Mootvote.Program

open Shared SparseMerkle

def Instruction.relayed (id : UInt64) : Instruction → List Word
  | .voteWithRelayer v => if v.pollId = id then [v.msgHash] else []
  | _ => []

def Tx.relayed (id : UInt64) (tx : Tx) : List Word :=
  match tx.call.instruction with
  | none => []
  | some i => i.relayed id

def relayedHashes (es : List Applied) (id : UInt64) : List Word := es.flatMap fun e => e.tx.relayed id

theorem relayedHashes_snoc (es : List Applied) (e : Applied) (id : UInt64) :
    relayedHashes (es ++ [e]) id = relayedHashes es id ++ e.tx.relayed id := by
  simp [relayedHashes]

section relayed

variable {H : IdealHash Fr} {env : Env} {l l' : Ledger} {e : Applied} {es : List Applied}

section calls

structure RelayedVote (H : IdealHash Fr) (env : Env) (l : Ledger) (tx : Tx)
    (v : VoteWithRelayer) (l' : Ledger)
    (q : ZkRelayer.Relay) (state : RelayerState) (poll : Poll) : Prop where
  relay : tx.call = .relay q
  call : q.call = .voteWithRelayer v
  relayed : ZkRelayer.Relayed env l.records q state
  foundPoll : l.polls v.pollId = some poll
  stateId : q.stateId = poll.id
  msgHash : q.msgHash = v.msgHash
  nuHash : q.nuHash = v.relayerNuHash
  hashed : (wordHash H).hash v.message.preimage = some v.msgHash
  -- The root moves from the proof's old one to its new one, and nothing else moves.
  advanced : l'.relayerStates =
    (l.setRelayerState mootvoteId poll.id { state with rootState := q.rootStateNew }).relayerStates

theorem Step.relayedVote {v : VoteWithRelayer} (step : Step H env l e l')
    (called : e.tx.call.instruction = some (.voteWithRelayer v)) :
    ∃ q state poll, RelayedVote H env l e.tx v l' q state poll := by
  have effect := step.effect
  have states : l'.relayerStates = l'.records.relayerStates := rfl
  generalize l'.records = r' at effect states
  generalize isCall : e.tx.call = call at effect called
  cases effect with
  | mootvote effect =>
      cases called
      cases effect with
      | voteWithRelayer _ signed _ => simp at signed
  | @relay q state _ relayed effect =>
      have isVote : q.call = .voteWithRelayer v := Option.some.inj called
      have carried := relayed.carried
      rw [isVote] at effect carried
      cases effect with
      | @voteWithRelayer _ poll _ foundPoll signed voted =>
          have sameId : poll.id = q.stateId := by simpa using signed
          cases voted with
          | @mk _ msgHash _ _ _ _ hashed agreed _ =>
              have words : [v.relayerNuHash, v.msgHash, v.relayerId] =
                  [q.nuHash, q.msgHash, ZkRelayer.relayerId env q.relayer] := by
                simp only [Instruction.carries, Bool.and_eq_true, decide_eq_true_eq] at carried
                exact carried.2
              simp only [List.cons.injEq] at words
              rw [agreed _ rfl] at hashed
              exact ⟨q, state, poll, isCall, isVote, relayed.of_relayerStates rfl,
                foundPoll, sameId.symm, words.2.1.symm, words.1.symm, hashed, by rw [states, sameId]; rfl⟩
  | _ => cases called

/-- A transaction accepts no relayed vote for the poll, or one, with the hash that its `relay` proved absent. -/
theorem Step.relayed (step : Step H env l e l') (logged : Logged H es l.records) (id : UInt64) :
    e.tx.relayed id = [] ∨ ∃ q state, ZkRelayer.Relayed env l.records q state ∧ q.stateId = id ∧
      e.tx.relayed id = [q.msgHash] ∧
      l'.relayerStates mootvoteId id = some { state with rootState := q.rootStateNew } := by
  unfold Tx.relayed
  cases called : e.tx.call.instruction with
  | none => exact .inl rfl
  | some i =>
      cases i with
      | voteWithRelayer v =>
          by_cases own : v.pollId = id
          · obtain ⟨q, state, poll, vote⟩ := step.relayedVote called
            have pollId : poll.id = id := (logged.ids _ _ vote.foundPoll).trans own
            refine .inr ⟨q, state, vote.relayed, vote.stateId.trans pollId, ?_, ?_⟩
            · simp [Instruction.relayed, own, vote.msgHash]
            · rw [vote.advanced, pollId]
              simp [Ledger.setRelayerState]
          · exact .inl (if_neg own)
      | _ => exact .inl rfl

end calls

section uniqueness

variable {G : Gadgets H} {hashes hashes' : List Word} {rootState : Word}

abbrev RelayProof := Mootvote.Relay 64

structure RelaySound (G : Gadgets H) (env : Env) (extract : Proof → List Word → RelayProof) : Prop where
  constraints : ∀ proof inputs, env.verifyRelay proof inputs = true → (extract proof inputs).Constraints G
  publicSignals : ∀ proof inputs, env.verifyRelay proof inputs = true →
    (extract proof inputs).publicSignals.map Word.ofFr = inputs

def Remembers (H : IdealHash Fr) (hashes : List Word) (rootState : Word) : Prop :=
  ∃ (t : SparseTree Fr) (rootQuota rootUniq root : Fr), H.hash [rootQuota, rootUniq] = some root ∧
    Word.ofFr root = rootState ∧ t.commit H = some rootUniq ∧ t.Ordered 0 ∧
      ∀ x, Word.ofFr x ∈ hashes → t.lookup x 0 ≠ none

theorem Remembers.fresh (initial : H.hash [0, 0] = some hash00) : Remembers H [] ZkRelayer.hash00 :=
  ⟨.empty, 0, 0, hash00, initial, rfl, rfl, trivial, by simp⟩

theorem Remembers.mono (remembers : Remembers H hashes rootState) (fewer : hashes' ⊆ hashes) :
    Remembers H hashes' rootState := by
  obtain ⟨t, rootQuota, rootUniq, root, state, same, committed, ordered, present⟩ := remembers
  exact ⟨t, rootQuota, rootUniq, root, state, same, committed, ordered, fun x member =>
    present x (fewer member)⟩

theorem Remembers.relay {w : RelayProof} (asked : G.SoundAsAsked) (constraints : w.Constraints G)
    (remembers : Remembers H hashes (Word.ofFr w.rootStateOld)) :
    Word.ofFr w.msgHash ∉ hashes ∧ Remembers H (hashes ++ [Word.ofFr w.msgHash])
    (Word.ofFr w.rootStateNew) := by
  obtain ⟨t, rootQuota, rootUniq, root, state, same, committed, ordered, present⟩ := remembers
  cases Word.ofFr_injective same
  have roots := H.injective state constraints.rootStateOld
  simp only [List.cons.injEq, and_true] at roots
  rw [roots.2] at committed
  obtain ⟨absent, t', committed', done⟩ := constraints.uniq asked committed
  refine ⟨fun member => present _ member absent, t', w.rootQuotaNew, w.rootUniqNew, w.rootStateNew,
    constraints.rootStateNew, rfl, committed', SparseTree.add_ordered ordered done, fun x member => ?_⟩
  rw [SparseTree.lookup_add ordered done]
  split_ifs with new
  · exact Option.some_ne_none _
  · rcases List.mem_append.1 member with old | last
    · exact present x old
    · exact absurd (Word.ofFr_injective (List.mem_singleton.1 last)) new

/-- Every relayer state of a poll remembers the relayed votes of the poll, which are distinct. -/
structure Unrepeated (H : IdealHash Fr) (es : List Applied) (r : Records) : Prop where
  absent : ∀ id, r.relayerStates mootvoteId id = none → relayedHashes es id = []
  distinct : ∀ id, (relayedHashes es id).Nodup
  remembered : ∀ id state, r.relayerStates mootvoteId id = some state →
    Remembers H (relayedHashes es id) state.rootState

namespace Unrepeated

variable {extract : Proof → List Word → RelayProof}

theorem initial (clock : UInt64) (lamports : Address → Nat) :
    Unrepeated H [] (genesis clock lamports).records where
  absent := fun _ _ => rfl
  distinct := fun _ => .nil
  remembered := by
    intro id state found
    cases found

theorem relay {q : ZkRelayer.Relay} {state : RelayerState} (unrepeated : Unrepeated H es l.records)
    (asked : G.SoundAsAsked) (sound : RelaySound G env extract)
    (relayed : ZkRelayer.Relayed env l.records q state) :
    q.msgHash ∉ relayedHashes es q.stateId ∧
      Remembers H (relayedHashes es q.stateId ++ [q.msgHash]) q.rootStateNew := by
  obtain ⟨proof, _, verified⟩ := relayed.verified
  have signals := sound.publicSignals _ _ verified
  have constraints := sound.constraints _ _ verified
  generalize extract proof _ = w at signals constraints
  simp only [Mootvote.Relay.publicSignals, ZkRelayer.relayPublicInputs, List.map_cons, List.map_nil,
    List.cons.injEq] at signals
  have remembered := unrepeated.remembered _ _ relayed.found
  rw [← signals.1] at remembered
  have added := remembered.relay asked constraints
  rwa [signals.2.1, signals.2.2.2.1] at added

theorem step (asked : G.SoundAsAsked) (sound : RelaySound G env extract)
    (initial : H.hash [0, 0] = some hash00)
    (logged : Logged H es l.records) (unrepeated : Unrepeated H es l.records) (step : Step H env l e l') :
    Unrepeated H (es ++ [e]) l'.records := by
  have either (id : UInt64) : (l'.relayerStates mootvoteId id = none → relayedHashes (es ++ [e]) id = []) ∧
      (relayedHashes (es ++ [e]) id).Nodup ∧ ∀ state, l'.relayerStates mootvoteId id = some state →
        Remembers H (relayedHashes (es ++ [e]) id) state.rootState := by
    rw [relayedHashes_snoc]
    rcases step.relayed logged id with none | ⟨q, state, relayed, rfl, hash, advanced⟩
    · -- No vote was relayed: the state is as before, new, or advanced by a `relay` of another call.
      rw [none, List.append_nil]
      refine ⟨?_, unrepeated.distinct id, ?_⟩
      · intro gone
        rcases step.relayerState id with same | ⟨_, _, _, _, created⟩ | ⟨_, _, _, _, _, advanced⟩
        · exact unrepeated.absent id (same.symm.trans gone)
        · rw [created] at gone
          cases gone
        · rw [advanced] at gone
          cases gone
      · intro state found
        rcases step.relayerState id with same | ⟨absent, _, _, _, created⟩ | ⟨q, _, _, rfl, relayed, advanced⟩
        · exact unrepeated.remembered id state (same.symm.trans found)
        · rw [created] at found
          cases found
          rw [unrepeated.absent id absent]
          exact .fresh initial
        · rw [advanced] at found
          cases found
          exact (unrepeated.relay asked sound relayed).2.mono (List.subset_append_left _ _)
    · obtain ⟨new, remembers⟩ := unrepeated.relay asked sound relayed
      rw [hash]
      refine ⟨fun gone => ?_, ?_, ?_⟩
      · rw [advanced] at gone
        cases gone
      · exact (unrepeated.distinct _).append (List.nodup_singleton _) (List.disjoint_singleton.2 new)
      · intro found isFound
        rw [advanced] at isFound
        cases isFound
        exact remembers
  exact ⟨fun id => (either id).1, fun id => (either id).2.1, fun id => (either id).2.2⟩

theorem of_run (asked : G.SoundAsAsked) (sound : RelaySound G env extract)
    (initial : H.hash [0, 0] = some hash00)
    {clock : UInt64} {lamports : Address → Nat} (run : Steps (Step H env) (genesis clock lamports) es l) :
    Unrepeated H es l.records :=
  (run.invariant (I := fun past mid => Logged H past mid.records ∧ Unrepeated H past mid.records)
    ⟨.initial clock lamports, .initial clock lamports⟩
    fun _ _ _ _ _ before next => ⟨before.1.step next, before.2.step asked sound initial before.1 next⟩).2

end Unrepeated

/-- Every relayed vote is accepted inside a `relay` of its own message, and no message is accepted twice. -/
theorem relayed_once {extract : Proof → List Word → RelayProof} (asked : G.SoundAsAsked)
    (sound : RelaySound G env extract) (initial : H.hash [0, 0] = some hash00) {clock : UInt64}
    {lamports : Address → Nat} (run : Steps (Step H env) (genesis clock lamports) es l) :
    (∀ e v l', Step H env l e l' → e.tx.call.instruction = some (.voteWithRelayer v) →
      ∃ q state poll, RelayedVote H env l e.tx v l' q state poll ∧ poll.id = v.pollId) ∧
    ∀ id, (relayedHashes es id).Nodup := by
  constructor
  · intro e v l' step called
    obtain ⟨q, state, poll, vote⟩ := step.relayedVote called
    exact ⟨q, state, poll, vote, (Logged.of_run run).ids _ _ vote.foundPoll⟩
  · exact (Unrepeated.of_run asked sound initial run).distinct

end uniqueness

end relayed

namespace OneRelay

open OneVoter (payer message proof sign)

-- The values of the first two relays, and those of the messages whose hashes are 1 and 2.
def hash : IdealHash Fr :=
  .ofTable (DoubleRelay.table ++ [([1, 2, 30, 5, 1, 100, 7, 0, 0, 0], 1), ([0, 1], 240),
    ([1, 2, 31, 5, 1, 100, 7, 0, 0, 0], 2), ([240, 2], 241)]) (by decide +kernel) (by decide +kernel)

def gadgets : Gadgets hash := .documented hash (fun _ pk => pk) fun _ _ _ _ => False

theorem second_constraints : DoubleRelay.second.Constraints gadgets where
  isWithinQuota := DoubleRelay.second_constraints.isWithinQuota
  nuSplit := DoubleRelay.second_constraints.nuSplit
  quotaVerifier := .inr ⟨rfl, .inl rfl, .inl ⟨by decide +kernel, by decide +kernel, by decide +kernel⟩⟩
  quotaProcessor := .inr ⟨.inl rfl, .inr ⟨by decide +kernel, by decide +kernel,
    rfl, by decide +kernel, by decide +kernel⟩⟩
  uniqVerifier := .inr ⟨rfl, .inl rfl, .inr ⟨rfl, by decide +kernel, by decide +kernel⟩⟩
  uniqProcessor := .inr ⟨.inl rfl, .inl ⟨rfl, by decide +kernel, by decide +kernel, by decide +kernel⟩⟩
  nuHash := by decide +kernel
  rootStateOld := by decide +kernel
  rootStateNew := by decide +kernel

def signals (w : RelayProof) : List Word := w.publicSignals.map Word.ofFr

def env : Env :=
  { OneVoter.env with
    verifyRelay := fun _ inputs => inputs = signals DoubleRelay.first ∨ inputs = signals DoubleRelay.second }

def extract (_ : Proof) (inputs : List Word) : RelayProof :=
  if inputs = signals DoubleRelay.second then DoubleRelay.second else DoubleRelay.first

theorem sound : RelaySound gadgets env extract where
  constraints := by
    intro _ inputs _
    unfold extract
    split_ifs
    · exact second_constraints
    · exact DoubleRelay.first_constraints_of _ _ (by decide +kernel) (by decide +kernel) (by decide +kernel)
        (by decide +kernel) (by decide +kernel)
  publicSignals := by
    intro _ inputs verified
    unfold extract
    split_ifs with isSecond
    · exact isSecond.symm
    · exact ((of_decide_eq_true verified).resolve_right isSecond).symm

def lamports (a : Address) : Nat := if a = payer then 10 else 0

def newPoll : CreatePoll :=
  { payer, id := 7, nChoices := 1, descriptionUrl := "", censusUrl := "", tallierKey := ⟨0, 0⟩, censusRoot := 0
    votingStartTime := 1, votingEndTime := 10, fee := 0, feeDestination := payer, nVoters := 1 }

def create : Tx := sign 0 (.mootvote (.createPoll newPoll))

def setup : List Tx :=
  [sign 0 (.initializeRelayer { payer, endpoint := "", feeKey := payer, admin := payer, fee := 1 }),
    sign 0 (.mootvote (.initializeConfig { payer, admin := payer, fee := 0, feeDestination := payer }))]

def vote : VoteWithRelayer :=
  { relayer := payer, relayerState := .relayerState mootvoteId 7, pollId := 7, platformFeeDestination := payer
    relayerNuHash := 225, msgHash := 1, relayerId := 0, message, proof }

def request : ZkRelayer.Relay :=
  { relayer := payer, targetProgram := mootvoteId, stateId := 7, proof, rootStateNew := 221,
    msgHash := 1, nuHash := 225
    call := .voteWithRelayer vote }

def relay (now : UInt64) : Tx := sign now (.relay request)

def nextVote : VoteWithRelayer :=
  { vote with relayerNuHash := 226, msgHash := 2, message := { message with nonce := 31 } }

def nextRequest : ZkRelayer.Relay :=
  { request with rootStateNew := 222, msgHash := 2, nuHash := 226, call := .voteWithRelayer nextVote }

def nextRelay (now : UInt64) : Tx := sign now (.relay nextRequest)

theorem relayed_once_two : ∃ es l, Steps (Step hash env) (genesis 0 lamports) es l ∧
    (∀ e v l', Step hash env l e l' → e.tx.call.instruction = some (.voteWithRelayer v) →
      ∃ q state poll, RelayedVote hash env l e.tx v l' q state poll ∧ poll.id = v.pollId) ∧
    relayedHashes es 7 = [1, 2] ∧ ∀ id, (relayedHashes es id).Nodup := by
  have done : (replay hash env (genesis 0 lamports) (setup ++ [create, relay 5, nextRelay 6])).isOk := by
    decide +kernel
  cases result : replay hash env (genesis 0 lamports) (setup ++ [create, relay 5, nextRelay 6]) with
  | error error =>
      rw [result] at done
      cases done
  | ok l =>
      obtain ⟨es, run, same⟩ := replay_steps result
      obtain ⟨inside, distinct⟩ :=
        relayed_once (Gadgets.documented_asked _ _) sound (by decide +kernel) run
      refine ⟨es, l, run, inside, ?_, distinct⟩
      rw [relayedHashes, ← List.flatMap_map Applied.tx, same]
      rfl

end OneRelay

end Mootvote.Program
