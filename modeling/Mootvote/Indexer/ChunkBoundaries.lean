import Mootvote.Indexer.Voters

set_option autoImplicit false

namespace Mootvote.Indexer.CensusManager

open Shared Program

section reading

variable {expected : Nat} {d : Download} {c : PollCensus} {ss : List Statement}

theorem takeLeaves_drained (d : Download) : (takeLeaves d).2.buf.length < 32 := by
  by_cases long : 32 ≤ d.buf.length
  · rw [takeLeaves, if_pos long]
    dsimp only
    split
    · exact takeLeaves_drained _
    · exact takeLeaves_drained _
  · rw [takeLeaves_short (by omega)]
    exact Nat.lt_of_not_le long
termination_by d.buf.length
decreasing_by all_goals simp only [List.length_drop]; omega

-- The leaves counted, those in the batch and those in the bytes to come make up the whole census.
structure Due (expected : Nat) (d : Download) (bytes : List UInt8) : Prop where
  drained : d.buf.length < 32
  aligned : (d.buf ++ bytes).length % 32 = 0
  count : d.total + d.batch.length + (d.buf ++ bytes).length / 32 = expected

theorem Due.finish (due : Due expected d []) : ∃ done, finish expected d = done ++ [.setValid] := by
  have drained := due.drained
  have aligned := due.aligned
  have count := due.count
  rw [List.append_nil] at aligned count
  have empty : d.buf.length = 0 := by omega
  have exactly : d.total + d.batch.length = expected := by omega
  rw [CensusManager.finish, if_neg (not_not.2 (List.eq_nil_of_length_eq_zero empty))]
  dsimp only
  rw [if_neg (not_not.2 exactly)]
  exact ⟨_, rfl⟩

theorem Due.receive {chunks : List (List UInt8)} (due : Due expected d chunks.flatten) :
    ∃ done, receive expected false d chunks = done ++ [.setValid] := by
  induction chunks generalizing d with
  | nil => exact due.finish
  | cons chunk chunks ih =>
      have aligned := due.aligned
      have count := due.count
      rw [List.flatten_cons] at aligned count
      -- The bytes so far are no more than all bytes, so no early check rejects them.
      have within : ¬expected < d.total + (d.buf ++ chunk).length / 32 := by
        simp only [List.length_append] at count ⊢
        omega
      rw [CensusManager.receive]
      dsimp only
      rw [if_neg within]
      have taken := takeLeaves_taken { d with buf := d.buf ++ chunk }
      have kept := congrArg List.length (taken.kept chunks.flatten)
      have later : Due expected (takeLeaves { d with buf := d.buf ++ chunk }).2 chunks.flatten := by
        have total := taken.total
        have moved := taken.aligned
        refine ⟨takeLeaves_drained _, ?_, ?_⟩
        · simp only [List.length_append] at aligned moved ⊢
          omega
        · simp only [List.length_append, length_leaves] at kept count total ⊢
          omega
      obtain ⟨done, found⟩ := ih later
      exact ⟨_, by rw [found, ← List.append_assoc]⟩

theorem ingest_complete {cmd : CensusCmd} {r : Response} (whole : r.broken = false)
    (length : r.body.length = 32 * cmd.expectedNVoters.toNat) :
    ∃ done, ingest cmd r = done ++ [.setValid] := by
  have due : Due cmd.expectedNVoters.toNat { buf := [], batch := [], total := 0 } r.chunks.flatten := by
    change r.chunks.flatten.length = _ at length
    refine ⟨by simp, ?_, ?_⟩ <;> simp only [List.nil_append, List.length_nil] <;> omega
  obtain ⟨done, found⟩ := due.receive
  rw [ingest, whole, found]
  exact ⟨_, (List.append_assoc ..).symm⟩

end reading

section outcome

variable {c : PollCensus} {ss : List Statement}

-- One attempt that nothing stops.
def ingestWhole (c : PollCensus) (cmd : CensusCmd) (r : Response) : PollCensus :=
  match begin c cmd r with
  | none => c
  | some attempt => attempt.todo.foldl Statement.execute c

theorem censusValid_undecided (undecided : .setValid ∉ ss) (invalid : c.censusValid ≠ some true) :
    (ss.foldl Statement.execute c).censusValid ≠ some true := by
  induction ss generalizing c with
  | nil => exact invalid
  | cons statement ss ih =>
      rw [List.mem_cons, not_or] at undecided
      refine ih undecided.2 ?_
      cases statement with
      | markBad => simp [Statement.execute]
      | insertLeavesBatch => exact invalid
      | setValid => exact absurd rfl undecided.1

theorem voters_inserted : ∀ leaf ∈ inserted ss, leaf ∈ (ss.foldl Statement.execute c).voters := by
  have kept (ss : List Statement) (c : PollCensus) : c.voters ⊆ (ss.foldl Statement.execute c).voters := by
    induction ss generalizing c with
    | nil => exact List.Subset.refl _
    | cons statement ss ih => exact fun leaf old => ih _ (mem_voters_execute.2 (.inr old))
  intro leaf isLeaf
  induction ss generalizing c with
  | nil => cases isLeaf
  | cons statement ss ih =>
      rcases List.mem_append.1 isLeaf with here | later
      · exact kept ss _ (mem_voters_execute.2 (.inl here))
      · exact ih later

end outcome

/-- The verdict on a body, and the leaves inserted for a good one, do not depend on its chunks. -/
theorem ingest_valid_iff (c : PollCensus) (cmd : CensusCmd) (r : Response) (fresh : c.censusValid ≠ some true)
    (whole : r.broken = false) :
    ((ingestWhole c cmd r).censusValid = some true ↔ r.body.length = 32 * cmd.expectedNVoters.toNat) ∧
      (r.body.length = 32 * cmd.expectedNVoters.toNat →
        ∀ leaf ∈ leaves r.body, leaf ∈ (ingestWhole c cmd r).voters) := by
  have runs : ingestWhole c cmd r = (ingest cmd r).foldl Statement.execute c := by
    rw [ingestWhole, begin, if_neg fresh]
  rw [runs]
  refine ⟨⟨fun valid => ?_, fun length => ?_⟩, fun length => ?_⟩
  · by_contra wrong
    refine censusValid_undecided (fun accepts => wrong ?_) fresh valid
    obtain ⟨done, rest, split⟩ := List.append_of_mem accepts
    exact (ingest_accepts split).2.2
  · obtain ⟨done, found⟩ := ingest_complete whole length
    rw [found, List.foldl_append]
    rfl
  · obtain ⟨done, found⟩ := ingest_complete whole length
    rw [← (ingest_accepts found).2.1]
    intro leaf isLeaf
    exact voters_inserted leaf (by rw [found, inserted_append]; exact List.mem_append_left _ isLeaf)

namespace SplitLeaf

open EarlyExport

def bytes : List UInt8 := (2 : Word).bytes ++ (3 : Word).bytes

-- The second leaf is cut, and a chunk is empty.
def response : Response where
  contentLength := some 64
  chunks := [bytes.take 40, [], bytes.drop 40]
  broken := false

theorem ingest_valid_split :
    ((ingestWhole (System.created poll).census (command poll) response).censusValid = some true ↔
      response.body.length = 32 * (command poll).expectedNVoters.toNat) ∧
    (response.body.length = 32 * (command poll).expectedNVoters.toNat →
      ∀ leaf ∈ leaves response.body,
        leaf ∈ (ingestWhole (System.created poll).census (command poll) response).voters) :=
  ingest_valid_iff (System.created poll).census (command poll) response nofun rfl

end SplitLeaf

end Mootvote.Indexer.CensusManager
