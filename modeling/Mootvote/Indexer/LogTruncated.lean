import Mootvote.Indexer.LogStack

set_option autoImplicit false

/-!
# Truncated logs

The runtime stops logging at a byte limit. The parser then needs a program that is still open.
-/

namespace Mootvote.Indexer

variable {T : Type} (deserialize : Line → Option T) (programId : Line)

section onLogs

/-- What the listener hands to `on_events`. -/
def onLogs (logs : List Line) : Except ParseLogsError (Option (List T)) :=
  match parseLogs deserialize programId logs with
  | .ok events => .ok (if events.isEmpty then none else some events)
  | .error .parseLogs => .ok none
  -- A panic is not caught.
  | .error .sliceIndex => .error .sliceIndex

end onLogs

section cut

def logTruncated : Line := ['L', 'o', 'g', ' ', 't', 'r', 'u', 'n', 'c', 'a', 't', 'e', 'd']

def frameTags (inner : List (List T)) : List (List T) := [] :: (inner ++ [[]])

def Body.tags (inside : Line) : Body → List (List T)
  | nil => []
  | line l rest => (l.event deserialize programId inside).toList :: rest.tags inside
  | frame id _ inner rest => frameTags (inner.tags id.chars) ++ rest.tags inside

def Frames.tags : Frames → List (List T)
  | nil => []
  | frame id _ inner rest => frameTags (inner.tags deserialize programId id.chars) ++ rest.tags

def Frames.truncate (frames : Frames) (k : Nat) : List Line := frames.render.take k ++ [logTruncated]

def Frames.eventsBefore (frames : Frames) (k : Nat) : List T :=
  ((frames.tags deserialize programId).take k).flatten

/-- The events before the cut reach the listener. -/
def Frames.Keeps (frames : Frames) (k : Nat) : Prop :=
  parseLogs deserialize programId (frames.truncate k) = .ok (frames.eventsBefore deserialize programId k) ∧
    (frames.eventsBefore deserialize programId k ≠ [] →
      onLogs deserialize programId (frames.truncate k) =
        .ok (some (frames.eventsBefore deserialize programId k)))

theorem Body.flatten_tags (body : Body) (inside : Line) :
    (body.tags deserialize programId inside).flatten = body.events deserialize programId inside := by
  induction body generalizing inside with
  | nil => rfl
  | line l rest ih => rw [Body.tags, List.flatten_cons, ih, Body.events]
  | frame id n inner rest ihInner ihRest =>
      rw [Body.tags, List.flatten_append, ihRest, Body.events, ← ihInner]
      simp [frameTags]

theorem Frames.flatten_tags (frames : Frames) :
    (frames.tags deserialize programId).flatten = frames.events deserialize programId := by
  induction frames with
  | nil => rfl
  | frame id n inner rest ih =>
      rw [Frames.tags, List.flatten_append, ih, Frames.events, ← inner.flatten_tags]
      simp [frameTags]

end cut

section runs

variable {deserialize programId} {stack : ProgramStack} {logs logs' : List Line} {tags tags' : List (List T)}

structure Cuttable (deserialize : Line → Option T) (programId : Line) (stack : ProgramStack)
    (logs : List Line)
    (tags : List (List T)) : Prop where
  length_eq : logs.length = tags.length
  whole : Parses deserialize programId stack logs tags.flatten
  cut : ∀ (st : Parser T) past, st.At stack past → ∀ k, ∃ (st' : Parser T) (stack' : ProgramStack),
    (logs.take k).foldlM (Parser.step deserialize programId) st = .ok st' ∧
      st'.At stack' (past ++ (tags.take k).flatten)

theorem Cuttable.nil : Cuttable deserialize programId stack [] [] where
  length_eq := rfl
  whole := .nil
  cut st past reached k := ⟨st, stack, by rw [List.take_nil]; rfl, by simpa using reached⟩

theorem Cuttable.append (first : Cuttable deserialize programId stack logs tags)
    (second : Cuttable deserialize programId stack logs' tags') :
    Cuttable deserialize programId stack (logs ++ logs') (tags ++ tags') where
  length_eq := by rw [List.length_append, List.length_append, first.length_eq, second.length_eq]
  whole := by
    rw [List.flatten_append]
    exact first.whole.append second.whole
  cut st past reached k := by
    rw [List.take_append, List.take_append, ← first.length_eq]
    rcases Nat.le_total k logs.length with inside | beyond
    · rw [Nat.sub_eq_zero_of_le inside, List.take_zero, List.take_zero, List.append_nil, List.append_nil]
      exact first.cut st past reached k
    · have lines : logs.take k = logs := List.take_of_length_le beyond
      have events : tags.take k = tags := List.take_of_length_le (first.length_eq ▸ beyond)
      rw [lines, events, List.foldlM_append, List.flatten_append, ← List.append_assoc]
      obtain ⟨mid, run, middle⟩ := first.whole st past reached
      obtain ⟨last, stack', run', final⟩ := second.cut mid _ middle (k - logs.length)
      exact ⟨last, stack', by rw [run]; exact run', final⟩

theorem cuttable_line {id : Line} (l : BodyLine) :
    Cuttable deserialize programId (id :: stack) [l.render] [(l.event deserialize programId id).toList] where
  length_eq := rfl
  whole := by simpa using parses_line l
  cut st past reached k := by
    cases k with
    | zero => exact ⟨st, _, rfl, by simpa using reached⟩
    | succ k =>
        obtain ⟨last, run, final⟩ := parses_line l st past reached
        exact ⟨last, _, by simpa using run, by simpa using final⟩

theorem Cuttable.frame (id : Base58) (n : Numeral)
    (inner : Cuttable deserialize programId (id.chars :: stack) logs tags) :
    Cuttable deserialize programId stack (frameLines id n logs) (frameTags tags) where
  length_eq := by simp [frameLines, frameTags, inner.length_eq]
  whole := by
    have all := inner.whole.frame id n
    simpa [frameTags] using all
  cut st past reached k := by
    have invoked : st.step deserialize programId (invokeLine id n) =
        .ok { execution := id.chars :: stack, doPop := false, events := past } :=
      (reached.step deserialize programId _).trans (Parser.step_invoke id n)
    cases k with
    | zero => exact ⟨st, stack, rfl, by simpa using reached⟩
    | succ k =>
        rcases Nat.lt_or_ge k (logs.length + 1) with inside | beyond
        · -- The end line is cut off.
          have kept : (frameLines id n logs).take (k + 1) = invokeLine id n :: logs.take k := by
            rw [frameLines, List.take_succ_cons, List.take_append_of_le_length (by omega)]
          have events : ((frameTags tags).take (k + 1)).flatten = (tags.take k).flatten := by
            rw [frameTags, List.take_succ_cons,
              List.take_append_of_le_length (by rw [← inner.length_eq]; omega)]
            rfl
          obtain ⟨mid, stack', run, middle⟩ :=
            inner.cut { execution := id.chars :: stack, doPop := false, events := past } past
              ⟨rfl, .inl ⟨rfl, rfl⟩⟩ k
          refine ⟨mid, stack', ?_, events ▸ middle⟩
          rw [kept, List.foldlM_cons, invoked]
          exact run
        · obtain ⟨last, run, final⟩ := inner.whole.frame id n st past reached
          refine ⟨last, stack, ?_, ?_⟩
          · rw [List.take_of_length_le (by simp [frameLines]; omega)]
            exact run
          · rw [List.take_of_length_le (by simp [frameTags, ← inner.length_eq]; omega)]
            simpa [frameTags] using final

theorem Body.cuttable (body : Body) (id : Line) (stack : ProgramStack) :
    Cuttable deserialize programId (id :: stack) body.render (body.tags deserialize programId id) := by
  induction body generalizing id stack with
  | nil => exact .nil
  | line l rest ih => exact (cuttable_line l).append (ih id stack)
  | frame id' n inner rest ihInner ihRest =>
      exact (Cuttable.frame id' n (ihInner id'.chars (id :: stack))).append (ihRest id stack)

theorem Frames.cuttable (frames : Frames) :
    Cuttable deserialize programId [] frames.render (frames.tags deserialize programId) := by
  induction frames with
  | nil => exact .nil
  | frame id n inner rest ih => exact (Cuttable.frame id n (inner.cuttable id.chars [])).append ih

theorem inert_logTruncated : Inert logTruncated := inert_foreign (by decide)

theorem Parser.At.unique {st : Parser T} {stack' : ProgramStack} {events events' : List T}
    (at' : st.At stack events) (again : st.At stack' events') : stack' = stack := by
  obtain ⟨_, ⟨settled, rfl⟩ | ⟨due, closed, opened⟩⟩ := at'
  · obtain ⟨_, ⟨_, rfl⟩ | ⟨due, _⟩⟩ := again
    · rfl
    · simp [settled] at due
  · obtain ⟨_, ⟨settled, _⟩ | ⟨_, closed', opened'⟩⟩ := again
    · simp [settled] at due
    · exact (List.cons.inj (opened'.symm.trans opened)).2

theorem Frames.parse_truncate (frames : Frames) (k : Nat) :
    parseLogs deserialize programId (frames.truncate k) =
      if (frames.render.take k).countP ends < (frames.render.take k).countP opens then
        .ok (frames.eventsBefore deserialize programId k)
      else .error .parseLogs := by
  have start : (⟨[], false, []⟩ : Parser T).At [] [] := ⟨rfl, .inl ⟨rfl, rfl⟩⟩
  obtain ⟨st, stack, run, reached⟩ := frames.cuttable.cut _ [] start k
  obtain ⟨stack', _, again, depth⟩ := start.depth run
  have same : stack' = stack := reached.unique again
  subst same
  have kept : parseLogs deserialize programId (frames.truncate k) =
      (st.step deserialize programId logTruncated).map Parser.events := by
    rw [parseLogs, truncate, List.foldlM_append, run]
    change (List.foldlM _ st [logTruncated] >>= _) = _
    rw [List.foldlM_cons]
    cases st.step deserialize programId logTruncated <;> rfl
  rw [kept]
  cases stack' with
  | nil =>
      have shut : ¬(frames.render.take k).countP ends < (frames.render.take k).countP opens := by
        simp at depth
        omega
      have empty : ProgramStack.update [] logTruncated = [] := inert_logTruncated.update []
      rw [if_neg shut, reached.step_stops empty]
      rfl
  | cons program rest =>
      have opened : (frames.render.take k).countP ends < (frames.render.take k).countP opens := by
        simp at depth
        omega
      have updated : ProgramStack.update (program :: rest) logTruncated = program :: rest :=
        inert_logTruncated.update _
      rw [if_pos opened, reached.step,
        Parser.step_silent updated (by decide) inert_logTruncated.isProgramEnd]
      rfl

end runs

/-- The events before the cut are kept exactly if a program is open at the cut. -/
theorem truncated_log_keeps_iff (frames : Frames) (k : Nat) :
    frames.Keeps deserialize programId k ↔
      (frames.render.take k).countP ends < (frames.render.take k).countP opens := by
  have parsed : parseLogs deserialize programId (frames.truncate k) = _ := frames.parse_truncate k
  by_cases opened : (frames.render.take k).countP ends < (frames.render.take k).countP opens
  · rw [if_pos opened] at parsed
    refine ⟨fun _ => opened, fun _ => ⟨parsed, fun some => ?_⟩⟩
    rw [onLogs, parsed]
    simp [some]
  · rw [if_neg opened] at parsed
    refine ⟨fun keeps => ?_, fun open' => absurd open' opened⟩
    cases parsed.symm.trans keeps.1

namespace BetweenInstructions

open ForgedFrame

def frames : Frames :=
  .frame mootvote one (.line (.data ['b']) .nil) <| .frame mootvote one (.line (.data ['c']) .nil) .nil

/-- The events of the closed frame are lost, while `getEvents` returns them. -/
theorem not_keeps_between : ¬frames.Keeps some mootvote.chars 3 ∧
    frames.eventsBefore some mootvote.chars 3 = [['b']] ∧
      onLogs some mootvote.chars (frames.truncate 3) = .ok none ∧
        getEvents (fun payload => some ("voteEvent", payload)) "voteEvent" mootvote.chars (frames.truncate 3) =
          [['b']] := by
  have failed : parseLogs some mootvote.chars (frames.truncate 3) = .error .parseLogs := by decide
  refine ⟨fun keeps => ?_, by decide, by rw [onLogs, failed], by decide⟩
  cases failed.symm.trans keeps.1

end BetweenInstructions

end Mootvote.Indexer
