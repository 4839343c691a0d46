import Mootvote.Indexer.CensusManager

set_option autoImplicit false

namespace Mootvote.Indexer.CensusManager

open Shared Program

section download

def leaves (body : List UInt8) : List Word :=
  (List.range (body.length / 32)).map fun i => Word.ofBytes ((body.drop (32 * i)).take 32)

theorem leaves_short {body : List UInt8} (short : body.length < 32) : leaves body = [] := by
  rw [leaves, Nat.div_eq_of_lt short]
  rfl

theorem leaves_step {body : List UInt8} (long : 32 ≤ body.length) :
    leaves body = Word.ofBytes (body.take 32) :: leaves (body.drop 32) := by
  have count : body.length / 32 = (body.length - 32) / 32 + 1 := by omega
  rw [leaves, leaves, List.length_drop, count, List.range_succ_eq_map, List.map_cons, List.map_map]
  simp only [Function.comp_def, List.drop_drop, Nat.mul_succ, Nat.add_comm, Nat.mul_zero, List.drop_zero]

@[simp] theorem length_leaves (body : List UInt8) : (leaves body).length = body.length / 32 := by
  simp [leaves]

def Statement.leaves : Statement → List Word
  | .insertLeavesBatch leaves => leaves
  | .markBad _ | .setValid => []

def inserted (statements : List Statement) : List Word := statements.flatMap Statement.leaves

@[simp] theorem inserted_nil : inserted [] = [] := rfl

@[simp] theorem inserted_append (ss ss' : List Statement) : inserted (ss ++ ss') =
  inserted ss ++ inserted ss' :=
  List.flatMap_append

@[simp] theorem inserted_insert (batch : List Word) (ss : List Statement) :
    inserted (.insertLeavesBatch batch :: ss) = batch ++ inserted ss := rfl

theorem append_eq_of_not_mem {A : Type} {x : A} {xs ys done rest : List A} (absent : x ∉ xs)
    (same : xs ++ ys = done ++ x :: rest) : ∃ done', done = xs ++ done' ∧ ys = done' ++ x :: rest := by
  induction xs generalizing done with
  | nil => exact ⟨done, rfl, same⟩
  | cons y xs ih =>
      cases done with
      | nil =>
          rw [List.cons_append, List.nil_append, List.cons.injEq] at same
          exact absurd (by simp [same.1]) absent
      | cons z done =>
          rw [List.cons_append, List.cons_append, List.cons.injEq] at same
          obtain ⟨rfl, same⟩ := same
          obtain ⟨done', rfl, later⟩ := ih (fun member => absent (List.mem_cons_of_mem _ member)) same
          exact ⟨done', rfl, later⟩

/-- What the inner loop does to the leaves, those inserted and those that are left. -/
structure Taken (d : Download) (statements : List Statement) (d' : Download) : Prop where
  kept : ∀ more, inserted statements ++ (d'.batch ++ leaves (d'.buf ++ more)) =
    d.batch ++ leaves (d.buf ++ more)
  total : d'.total = d.total + (inserted statements).length
  aligned : d'.buf.length % 32 = d.buf.length % 32
  undecided : .setValid ∉ statements

theorem takeLeaves_short {d : Download} (short : d.buf.length < 32) : takeLeaves d = ([], d) := by
  rw [takeLeaves, if_neg (by omega)]

theorem takeLeaves_taken (d : Download) : Taken d (takeLeaves d).1 (takeLeaves d).2 := by
  by_cases long : 32 ≤ d.buf.length
  · have next (more : List UInt8) : leaves (d.buf ++ more) =
        Word.ofBytes (d.buf.take 32) :: leaves (d.buf.drop 32 ++ more) := by
      rw [leaves_step (by rw [List.length_append]; omega), List.take_append_of_le_length long,
        List.drop_append_of_le_length long]
    have shorter : (d.buf.drop 32).length % 32 = d.buf.length % 32 := by
      rw [List.length_drop]
      omega
    rw [takeLeaves, if_pos long]
    dsimp only
    split
    · have ih := takeLeaves_taken
        ⟨d.buf.drop 32, [], d.total + (d.batch ++ [Word.ofBytes (d.buf.take 32)]).length⟩
      refine ⟨fun more => ?_, ?_, ih.aligned.trans shorter, ?_⟩
      · have kept := ih.kept more
        rw [inserted_insert, List.append_assoc, kept, next]
        simp
      · rw [ih.total, inserted_insert, @List.length_append _ _ (inserted _), ← Nat.add_assoc]
      · simpa using ih.undecided
    · have ih := takeLeaves_taken ⟨d.buf.drop 32, d.batch ++ [Word.ofBytes (d.buf.take 32)], d.total⟩
      refine ⟨fun more => ?_, ih.total, ih.aligned.trans shorter, ih.undecided⟩
      rw [ih.kept, next]
      simp
  · rw [takeLeaves_short (by omega)]
    exact ⟨fun _ => rfl, rfl, rfl, List.not_mem_nil⟩
termination_by d.buf.length
decreasing_by all_goals simp only [List.length_drop]; omega

variable {expected : Nat} {d : Download} {done rest : List Statement}

theorem finish_accepts (accepts : finish expected d = done ++ .setValid :: rest) :
    d.buf = [] ∧ inserted done = d.batch ∧ d.total + d.batch.length = expected := by
  rw [finish] at accepts
  by_cases partialLeaf : d.buf ≠ []
  · rw [if_pos partialLeaf] at accepts
    have member : Statement.setValid ∈ [notDivisible] := by simp [accepts]
    simp [notDivisible] at member
  · rw [if_neg partialLeaf] at accepts
    have absent : Statement.setValid ∉ if d.batch =
      [] then [] else [Statement.insertLeavesBatch d.batch] := by
      split_ifs <;> simp
    obtain ⟨done', rfl, decided⟩ := append_eq_of_not_mem absent accepts
    split_ifs at decided with wrong
    · have member : Statement.setValid ∈ [unexpected expected (d.total + d.batch.length)] := by simp [decided]
      simp [unexpected] at member
    · have alone : done' = [] := by
        have length := congrArg List.length decided
        simp only [List.length_append, List.length_cons, List.length_nil] at length
        exact List.eq_nil_of_length_eq_zero (by omega)
      refine ⟨not_not.1 partialLeaf, ?_, not_not.1 wrong⟩
      rw [alone, List.append_nil]
      split_ifs with none
      · exact none.symm
      · exact List.append_nil _

theorem receive_accepts {broken : Bool} {chunks : List (List UInt8)}
    (accepts : receive expected broken d chunks = done ++ .setValid :: rest) :
    broken = false ∧ inserted done = d.batch ++ leaves (d.buf ++ chunks.flatten) ∧
      (d.buf ++ chunks.flatten).length % 32 = 0 ∧ d.total + (inserted done).length = expected := by
  induction chunks generalizing d done with
  | nil =>
      rw [receive] at accepts
      split_ifs at accepts with fails
      · simp at accepts
      · obtain ⟨empty, same, total⟩ := finish_accepts accepts
        rw [empty, same]
        exact ⟨Bool.eq_false_iff.2 fails, by simp [leaves_short], rfl, total⟩
  | cons chunk chunks ih =>
      rw [receive] at accepts
      dsimp only at accepts
      split_ifs at accepts with tooMany
      · have member : Statement.setValid ∈ [Statement.markBad "too many voters"] := by simp [accepts]
        simp at member
      · have taken := takeLeaves_taken { d with buf := d.buf ++ chunk }
        obtain ⟨done', rfl, later⟩ := append_eq_of_not_mem taken.undecided accepts
        obtain ⟨whole, same, aligned, total⟩ := ih later
        refine ⟨whole, ?_, ?_, ?_⟩
        · have kept := taken.kept chunks.flatten
          rw [← same] at kept
          rw [inserted_append, kept, List.flatten_cons, List.append_assoc]
        · have start := taken.aligned
          simp only [List.length_append, List.flatten_cons] at aligned start ⊢
          omega
        · have start := taken.total
          rw [inserted_append, List.length_append]
          simp only at start
          omega

def Response.body (r : Response) : List UInt8 := r.chunks.flatten

theorem ingest_accepts {cmd : CensusCmd} {r : Response} (accepts : ingest cmd r = done ++ .setValid :: rest) :
    r.broken = false ∧ inserted done = leaves r.body ∧ r.body.length = 32 * cmd.expectedNVoters.toNat := by
  have absent : Statement.setValid ∉ checkLength cmd.expectedNVoters.toNat r.contentLength := by
    unfold checkLength
    split
    · exact List.not_mem_nil
    · split_ifs <;> simp [notDivisible, unexpected]
  have silent : inserted (checkLength cmd.expectedNVoters.toNat r.contentLength) = [] := by
    unfold checkLength
    split
    · rfl
    · split_ifs <;> rfl
  obtain ⟨done', rfl, later⟩ := append_eq_of_not_mem absent accepts
  obtain ⟨whole, same, aligned, total⟩ := receive_accepts later
  rw [List.nil_append] at same aligned
  rw [inserted_append, silent, List.nil_append]
  have count := congrArg List.length same
  rw [List.nil_append, length_leaves] at count
  refine ⟨whole, same, ?_⟩
  rw [Response.body]
  simp only at total
  omega

end download

section runs

variable {e : CreatePollEvent} {s s' : System} {past : List Act} {act : Act}

def Act.inserted : Act → List Word
  | .execute _ _ statement => statement.leaves
  | .event | .start .. | .stop _ | .restart => []

def Act.accepted : Act → Option Response
  | .execute _ response .setValid => some response
  | .execute .. | .event | .start .. | .stop _ | .restart => none

/-- What the attempt received that was the last to set `census_valid`. -/
def acceptedBy (past : List Act) : Option Response := (past.filterMap Act.accepted).getLast?

theorem acceptedBy_snoc (past : List Act) (act : Act) :
    acceptedBy (past ++ [act]) = act.accepted.or (acceptedBy past) := by
  rw [acceptedBy, acceptedBy, List.filterMap_append, List.getLast?_append]
  congr 1
  cases found : act.accepted <;> simp [found]

theorem mem_voters_execute {c : PollCensus} {statement : Statement} {leaf : Word} :
    leaf ∈ (statement.execute c).voters ↔ leaf ∈ statement.leaves ∨ leaf ∈ c.voters := by
  cases statement <;> simp [Statement.execute, Statement.leaves]

structure Consistent (e : CreatePollEvent) (past : List Act) (s : System) : Prop where
  poll : s.census.poll = pollRow e
  queued : ∀ cmd ∈ s.queue, cmd = command e
  running : ∀ i a, s.attempts i = some a → ∃ done, ingest (command e) a.response = done ++ a.todo ∧
    inserted done ⊆ s.census.voters
  voters : ∀ leaf, leaf ∈ s.census.voters ↔ ∃ act ∈ past, leaf ∈ act.inserted
  valid : s.census.censusValid = some true → (acceptedBy past).isSome
  complete : ∀ r, acceptedBy past = some r → leaves r.body ⊆ s.census.voters ∧ r.broken = false ∧
    r.body.length = 32 * e.nVoters.toNat

namespace Consistent

theorem created : Consistent e [] (System.created e) where
  poll := rfl
  queued := by simp [System.created]
  running := by simp [System.created]
  voters := by simp [System.created]
  valid := by simp [System.created]
  complete := by simp [acceptedBy]

theorem enqueueUnfinished {c : PollCensus} (poll : c.poll = pollRow e) :
    ∀ cmd ∈ CensusManager.enqueueUnfinished c, cmd = command e := by
  intro cmd member
  rw [CensusManager.enqueueUnfinished] at member
  split_ifs at member
  · cases member
  · rw [List.mem_singleton.1 member, poll]
    simp [command, pollRow]

theorem silent (consistent : Consistent e past s) (census : s'.census = s.census)
    (nothing : act.inserted = [])
    (neither : act.accepted = none) (queued : ∀ cmd ∈ s'.queue, cmd = command e)
    (running : ∀ i a, s'.attempts i = some a → s.attempts i = some a ∨
      a.todo = ingest (command e) a.response) :
    Consistent e (past ++ [act]) s' where
  poll := by rw [census, consistent.poll]
  queued := queued
  running i a found := by
    rcases running i a found with old | new
    · rw [census]
      exact consistent.running i a old
    · exact ⟨[], new.symm, List.nil_subset _⟩
  voters leaf := by
    rw [census, consistent.voters leaf]
    simp [nothing, or_and_right, exists_or]
  valid valid := by
    rw [acceptedBy_snoc, neither, Option.none_or]
    rw [census] at valid
    exact consistent.valid valid
  complete r accepted := by
    rw [acceptedBy_snoc, neither, Option.none_or] at accepted
    rw [census]
    exact consistent.complete r accepted

theorem execute {i : Nat} {r : Response} {statement : Statement} {todo : List Statement}
    (consistent : Consistent e past s) (waits : s.attempts i = some ⟨r, statement :: todo⟩) :
    Consistent e (past ++ [.execute i r statement]) { s with
      census := statement.execute s.census
      attempts := Function.update s.attempts i (some ⟨r, todo⟩) } := by
  obtain ⟨done, split, own⟩ := consistent.running i _ waits
  have grows : s.census.voters ⊆ (statement.execute s.census).voters :=
    fun _ member => mem_voters_execute.2 (.inr member)
  refine ⟨?_, consistent.queued, fun j a found => ?_, fun leaf => ?_, fun valid => ?_, fun r' accepted => ?_⟩
  · cases statement <;> exact consistent.poll
  · dsimp only at found
    rw [Function.update_apply] at found
    split_ifs at found
    · cases found
      refine ⟨done ++ [statement], by rw [split, List.append_assoc]; rfl, fun leaf member => ?_⟩
      rw [inserted_append, List.mem_append] at member
      rcases member with old | new
      · exact grows (own old)
      · exact mem_voters_execute.2 (.inl (by simpa [inserted] using new))
    · obtain ⟨done', split', own'⟩ := consistent.running j a found
      exact ⟨done', split', fun _ member => grows (own' member)⟩
  · rw [mem_voters_execute, consistent.voters leaf]
    simp [Act.inserted, or_and_right, exists_or, or_comm]
  · rw [acceptedBy_snoc]
    cases statement with
    | markBad => cases valid
    | insertLeavesBatch => exact consistent.valid valid
    | setValid => rfl
  · rw [acceptedBy_snoc] at accepted
    cases statement with
    | markBad | insertLeavesBatch =>
        obtain ⟨listed, rest⟩ := consistent.complete r' accepted
        exact ⟨fun _ member => grows (listed member), rest⟩
    | setValid =>
        cases accepted
        obtain ⟨whole, same, length⟩ := ingest_accepts split
        rw [← same]
        exact ⟨fun _ member => grows (own member), whole, length⟩

theorem step (consistent : Consistent e past s) (step : System.Step e s act s') :
    Consistent e (past ++ [act]) s' := by
  cases step with
  | event =>
      refine consistent.silent rfl rfl rfl (fun cmd member => ?_) fun _ _ found => .inl found
      rcases List.mem_append.1 member with old | new
      · exact consistent.queued cmd old
      · exact List.mem_singleton.1 new
  | @start i cmd earlier later response unused queued =>
      have all := consistent.queued
      rw [queued] at all
      refine consistent.silent rfl rfl rfl (fun cmd member => all cmd ?_) fun j a found => ?_
      · rcases List.mem_append.1 member with front | back
        · exact List.mem_append_left _ front
        · exact List.mem_append_right _ (List.mem_cons_of_mem _ back)
      · dsimp only at found
        rw [Function.update_apply, begin] at found
        split_ifs at found
        · cases found
          rw [all cmd (by simp)]
          exact .inr rfl
        · exact .inl found
  | execute waits => exact consistent.execute waits
  | stop i =>
      refine consistent.silent rfl rfl rfl consistent.queued fun j a found => ?_
      dsimp only at found
      rw [Function.update_apply] at found
      split_ifs at found
      exact .inl found
  | restart => exact consistent.silent rfl rfl rfl (enqueueUnfinished consistent.poll) (fun _ _ => nofun)

theorem of_run {acts : List Act} (run : Steps (System.Step e) (System.created e) acts s) :
    Consistent e acts s :=
  run.invariant created fun _ _ _ _ _ consistent next => consistent.step next

end Consistent

theorem accepted_complete {acts : List Act} (run : Steps (System.Step e) (System.created e) acts s)
    {r : Response}
    (accepted : acceptedBy acts = some r) :
    r.broken = false ∧ r.body.length = 32 * e.nVoters.toNat ∧ leaves r.body ⊆ s.census.voters := by
  obtain ⟨listed, whole, length⟩ := (Consistent.of_run run).complete r accepted
  exact ⟨whole, length, listed⟩

def Exact (past : List Act) (s : System) : Prop :=
  s.census.censusValid = some true → ∃ r, acceptedBy past = some r ∧
    (∀ leaf, leaf ∈ s.census.voters ↔ leaf ∈ leaves r.body) ∧
    ∀ leaf, isVoter s.census leaf = "true" → leaf ∈ leaves r.body

/-- All that was inserted belongs to the body that a step accepts, and all that it inserts to the one accepted. -/
structure Belongs (past : List Act) (s : System) (act : Act) : Prop where
  accepts : ∀ r, act.accepted = some r → ∀ earlier ∈ past, ∀ leaf ∈ earlier.inserted, leaf ∈ leaves r.body
  inserts : s.census.censusValid = some true → ∀ r, acceptedBy past = some r →
    ∀ leaf ∈ act.inserted, leaf ∈ leaves r.body

theorem isVoter_eq_true {c : PollCensus} {leaf : Word} : isVoter c leaf = "true" ↔ leaf ∈ c.voters := by
  rw [isVoter]
  split_ifs with member <;> simp [member]

theorem Belongs.of_exact (consistent : Consistent e past s) (step : System.Step e s act s')
    (exact : Exact (past ++ [act]) s') : Belongs past s act := by
  have after := consistent.step step
  cases step with
  | event | start | stop | restart => exact ⟨nofun, fun _ _ _ => nofun⟩
  | @execute i response statement todo waits =>
      refine ⟨fun r accepted earlier member leaf stored => ?_, fun valid r accepted leaf stored => ?_⟩
      · cases statement with
        | markBad | insertLeavesBatch => cases accepted
        | setValid =>
            obtain ⟨r', isR', same, _⟩ := exact rfl
            rw [acceptedBy_snoc, accepted, Option.some_or, Option.some.injEq] at isR'
            rw [isR']
            exact (same leaf).1 ((after.voters leaf).2 ⟨earlier, by simp [member], stored⟩)
      · cases statement with
        | markBad | setValid => cases stored
        | insertLeavesBatch batch =>
            obtain ⟨r', isR', same, _⟩ := exact valid
            rw [acceptedBy_snoc, show (Act.execute i response (.insertLeavesBatch batch)).accepted =
              none from rfl,
              Option.none_or, accepted, Option.some.injEq] at isR'
            rw [isR']
            exact (same leaf).1 ((after.voters leaf).2 ⟨_, by simp, stored⟩)

theorem Exact.of_voters (consistent : Consistent e past s)
    (belongs : s.census.censusValid = some true → ∀ r, acceptedBy past = some r →
      ∀ leaf ∈ s.census.voters, leaf ∈ leaves r.body) : Exact past s := by
  intro valid
  obtain ⟨r, accepted⟩ := Option.isSome_iff_exists.1 (consistent.valid valid)
  have listed := belongs valid r accepted
  exact ⟨r, accepted, fun leaf => ⟨listed leaf, fun member => (consistent.complete r accepted).1 member⟩,
    fun leaf answer => listed leaf (isVoter_eq_true.1 answer)⟩

theorem Exact.step (exact : Exact past s) (consistent : Consistent e past s) (step : System.Step e s act s')
    (belongs : Belongs past s act) : Exact (past ++ [act]) s' := by
  refine .of_voters (consistent.step step) fun valid r accepted leaf member => ?_
  rw [acceptedBy_snoc] at accepted
  have before (valid : s.census.censusValid = some true) (accepted : acceptedBy past = some r)
      (member : leaf ∈ s.census.voters) : leaf ∈ leaves r.body := by
    obtain ⟨r', isR', same, _⟩ := exact valid
    rw [accepted, Option.some.injEq] at isR'
    rw [isR']
    exact (same leaf).1 member
  cases step with
  | event | start | stop | restart => exact before valid accepted member
  | @execute i response statement todo waits =>
      cases statement with
      | markBad => cases valid
      | insertLeavesBatch batch =>
          rcases mem_voters_execute.1 member with new | old
          · exact belongs.inserts valid r accepted leaf new
          · exact before valid accepted old
      | setValid =>
          obtain ⟨earlier, inPast, stored⟩ := (consistent.voters leaf).1 member
          exact belongs.accepts r accepted earlier inPast leaf stored

end runs

/-- The voters of a valid census are exact in all states of a run if and only if no attempt inserts a leaf
that an accepted body lacks. -/
theorem voters_exact_iff (e : CreatePollEvent) (acts : List Act) :
    (∀ past s, past <+: acts → Steps (System.Step e) (System.created e) past s → Exact past s) ↔
    ∀ past act s s', past ++ [act] <+: acts → Steps (System.Step e) (System.created e) past s →
      System.Step e s act s' → Belongs past s act := by
  constructor
  · intro exact past act s s' inside run step
    exact .of_exact (.of_run run) step (exact _ s' inside (run.snoc step))
  · intro belongs past s inside run
    have both := run.invariant
      (I := fun past s => Steps (System.Step e) (System.created e) past s ∧ (past <+: acts → Exact past s))
      ⟨.nil _, fun _ => nofun⟩ fun past s act s' _ ⟨run, exact⟩ step => ⟨run.snoc step, fun inside =>
        (exact ((List.prefix_append _ _).trans inside)).step (.of_run run) step
          (belongs past act s s' inside run step)⟩
    exact both.2 inside

namespace EarlyExport

def poll : CreatePollEvent where
  pollId := 7
  nChoices := 2
  tallierKey := { x := 1, y := 2 }
  censusRoot := 3
  votingStartTime := 10
  votingEndTime := 20
  platformFee := 0
  fee := 0
  feeDestination := .key 5
  nVoters := 2
  descriptionUrl := ""
  censusUrl := ""

def body (leaves : List Word) : Response where
  contentLength := none
  chunks := leaves.map Word.bytes
  broken := false

def early : Response := body [1]

def final : Response := body [2, 3]

theorem takeLeaves_bytes {w : Word} {batch : List Word} {total : Nat} (few : batch.length + 1 < 10000) :
    takeLeaves ⟨w.bytes, batch, total⟩ = ([], ⟨[], batch ++ [w], total⟩) := by
  have long : 32 ≤ w.bytes.length := by simp
  have none : w.bytes.drop 32 = [] := List.drop_of_length_le (by simp)
  have all : w.bytes.take 32 = w.bytes := List.take_of_length_le (by simp)
  rw [takeLeaves, if_pos long, none, all, Word.ofBytes_bytes]
  dsimp only
  rw [if_neg (by rw [List.length_append, List.length_singleton]; omega), takeLeaves_short (by simp)]

theorem ingest_early : ingest (command poll) early = [.insertLeavesBatch [1], unexpected 2 1] := by
  simp [ingest, early, body, receive, takeLeaves_bytes, finish, command, poll, checkLength]

theorem ingest_final : ingest (command poll) final = [.insertLeavesBatch [2, 3], .setValid] := by
  simp [ingest, final, body, receive, takeLeaves_bytes, finish, command, poll, checkLength]

theorem leaves_final : leaves final.body = [2, 3] := by
  simpa using (ingest_accepts (show ingest (command poll) final =
    [.insertLeavesBatch [2, 3]] ++ [.setValid] from
    ingest_final)).2.1.symm

theorem executes {e : CreatePollEvent} {s : System} {i : Nat} {r : Response} {todo : List Statement}
    (waits : s.attempts i = some ⟨r, todo⟩) :
    ∃ s', Steps (System.Step e) s (todo.map (.execute i r)) s' ∧ s'.queue = s.queue ∧
      s'.census = todo.foldl Statement.execute s.census := by
  induction todo generalizing s with
  | nil => exact ⟨s, .nil s, rfl, rfl⟩
  | cons statement todo ih =>
      obtain ⟨s', rest, queue, census⟩ := ih (s := { s with
        census := statement.execute s.census
        attempts := Function.update s.attempts i (some ⟨r, todo⟩) }) (Function.update_self ..)
      exact ⟨s', .cons (.execute waits) rest, queue, census⟩

theorem attempt {e : CreatePollEvent} {s : System} {i : Nat} {cmd : CensusCmd} {r : Response}
    {ss : List Statement}
    (unused : s.attempts i = none) (queued : s.queue = [cmd]) (unfinished : s.census.censusValid ≠ some true)
    (script : ingest cmd r = ss) :
    ∃ s', Steps (System.Step e) s (.start i r :: ss.map (.execute i r)) s' ∧ s'.queue = [] ∧
      s'.census = ss.foldl Statement.execute s.census := by
  have begun : begin s.census cmd r = some ⟨r, ss⟩ := by
    rw [begin, if_neg unfinished, script]
  obtain ⟨s', rest, queue, census⟩ := executes (e := e) (s := { s with
    queue := []
    attempts := Function.update s.attempts i (begin s.census cmd r) }) ((Function.update_self ..).trans begun)
  exact ⟨s', .cons (@System.Step.start _ _ _ _ [] [] r unused queued) rest, queue, census⟩

def acts : List Act :=
  [.event, .start 0 early, .execute 0 early (.insertLeavesBatch [1]),
    .execute 0 early (unexpected 2 1), .restart,
    .start 0 final, .execute 0 final (.insertLeavesBatch [2, 3]), .execute 0 final .setValid]

theorem run : ∃ s, Steps (System.Step poll) (System.created poll) acts s ∧ s.census.censusValid = some true ∧
    s.census.voters = [2, 3, 1] := by
  obtain ⟨s₁, first, _, census₁⟩ := attempt (e := poll)
    (s := { System.created poll with queue := [command poll] }) rfl rfl (by decide) ingest_early
  have queued : enqueueUnfinished s₁.census = [command poll] := by
    rw [census₁]
    rfl
  obtain ⟨s₂, second, _, census₂⟩ := attempt (e := poll)
    (s := { s₁ with queue := enqueueUnfinished s₁.census, attempts := fun _ => none }) rfl queued
    (by rw [census₁]; decide) ingest_final
  rw [census₁] at census₂
  have whole := Steps.append_iff.2 ⟨s₁, .cons .event first, .cons .restart second⟩
  exact ⟨s₂, whole, by rw [census₂]; rfl, by rw [census₂]; rfl⟩

theorem foreign_voter : ∃ s, Steps (System.Step poll) (System.created poll) acts s ∧
    s.census.censusValid = some true ∧ acceptedBy acts = some final ∧ (1 : Word) ∉ leaves final.body ∧
    (1 : Word) ∈ s.census.voters ∧ isVoter s.census 1 = "true" := by
  obtain ⟨s, reached, valid, voters⟩ := run
  have member : (1 : Word) ∈ s.census.voters := by simp [voters]
  refine ⟨s, reached, valid, rfl, ?_, member, isVoter_eq_true.2 member⟩
  rw [leaves_final]
  decide

end EarlyExport

end Mootvote.Indexer.CensusManager
