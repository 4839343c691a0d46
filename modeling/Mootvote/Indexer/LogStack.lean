import Mootvote.Indexer.ParseLogs
import Mootvote.Shared.Fallible

set_option autoImplicit false

/-!
# How many programs `parse_logs` has open

Whatever the lines, they alone decide how deep the stack is, and so where the parser stops.
-/

namespace Mootvote.Indexer

section lines

def opens (log : Line) : Bool :=
  programStart <+: log ∧ invoke <+: (log.drop programStart.length).dropWhile (· ≠ ' ') ∧
    ':' ∉ (log.drop programStart.length).takeWhile (· ≠ ' ')

def ends (log : Line) : Bool := isProgramEnd log = .ok true

/-- `Program success`, in which the two words of an end share their space. -/
def bareSuccess : Line := programStart ++ success.tail

variable {log : Line} {stack : ProgramStack}

theorem ProgramStack.length_update :
    (stack.update log).length = stack.length + (if opens log then 1 else 0) := by
  simp only [update, opens, decide_eq_true_eq]
  grind

theorem ProgramStack.update_ne_nil :
    stack.update log ≠ [] ↔ 0 < stack.length + (if opens log then 1 else 0) := by
  rw [← length_update, List.length_pos_iff]

theorem eq_bareSuccess (starts : programStart <+: log) (ends : success <:+ log)
    (short : log.length < programStart.length + success.length) : log = bareSuccess := by
  obtain ⟨r, rfl⟩ := starts
  have isTail : r ∈ success.tails := by
    rw [List.mem_tails]
    refine List.suffix_of_suffix_length_le (List.suffix_append programStart r) ends ?_
    rw [List.length_append] at short
    omega
  have overlaps : ∀ r ∈ success.tails, success <:+ programStart ++ r → r = success ∨ r = success.tail := by
    decide
  rcases overlaps r isTail ends with rfl | rfl
  · simp at short
  · rfl

theorem isProgramEnd_bareSuccess : isProgramEnd bareSuccess = .error .sliceIndex := by decide

theorem isProgramEnd_eq (other : log ≠ bareSuccess) : isProgramEnd log = .ok (ends log) := by
  have returns : ∃ b, isProgramEnd log = .ok b := by
    unfold isProgramEnd
    split_ifs with words short
    · refine absurd (eq_bareSuccess words.1 words.2 ?_) other
      have long := words.2.length_le
      omega
    · exact ⟨_, rfl⟩
    · exact ⟨_, rfl⟩
  obtain ⟨b, found⟩ := returns
  rw [found, ends, found]
  cases b <;> rfl

theorem ends_programData (data : programData <+: log) : ends log = false := by
  obtain ⟨payload, rfl⟩ := data
  have word : programData ++ payload = spaced dataWord payload := by
    simp [programData, spaced, programStart, dataWord]
  have inert : Inert (spaced dataWord payload) := inert_colon (by decide) (by decide)
  rw [ends, word, inert.isProgramEnd]
  rfl

end lines

section runs

variable {T : Type} {deserialize : Line → Option T} {programId log : Line} {stack : ProgramStack}
  {st st' : Parser T} {events : List T} {logs : List Line}

theorem Parser.At.step_stops (at' : st.At stack events) (empty : stack.update log = []) :
    st.step deserialize programId log = .error .parseLogs := by
  rw [at'.step]
  simp [Parser.step, empty, ProgramStack.program, bind, Except.bind]

theorem Parser.At.step_panics (at' : st.At stack events) (opened : stack.update log ≠ [])
    (bare : log = bareSuccess) : st.step deserialize programId log = .error .sliceIndex := by
  obtain ⟨program, rest, updated⟩ := List.exists_cons_of_ne_nil opened
  have silent : ¬programData <+: bareSuccess := by decide
  rw [at'.step]
  subst bare
  simp [Parser.step, updated, ProgramStack.program, handleProgramLog, silent, isProgramEnd_bareSuccess, bind,
    Except.bind]

/-- A line that ends a program takes it off the stack of the lines to come. -/
theorem Parser.At.step_runs (at' : st.At stack events) (opened : stack.update log ≠ [])
    (other : log ≠ bareSuccess) : ∃ (st' : Parser T) (stack' : ProgramStack) (found : List T),
      st.step deserialize programId log = .ok st' ∧ st'.At stack' (events ++ found) ∧
        stack'.length + (if ends log then 1 else 0) = stack.length + (if opens log then 1 else 0) := by
  obtain ⟨program, rest, updated⟩ := List.exists_cons_of_ne_nil opened
  have depth : (stack.update log).length = _ := ProgramStack.length_update
  rw [updated] at depth
  have reached {pop : Bool} {found : List T} (popped : pop = ends log) : ∃ stack',
      ({ execution := program :: rest, doPop := pop, events := events ++ found } : Parser T).At stack'
        (events ++ found) ∧
      stack'.length + (if ends log then 1 else 0) = stack.length + (if opens log then 1 else 0) := by
    subst popped
    cases closes : ends log with
    | false => exact ⟨program :: rest, ⟨rfl, .inl ⟨rfl, rfl⟩⟩, by simpa using depth⟩
    | true => exact ⟨rest, ⟨rfl, .inr ⟨rfl, _, rfl⟩⟩, by simpa using depth⟩
  rw [at'.step]
  by_cases data : programData <+: log
  · by_cases own : programId = program
    · subst own
      obtain ⟨stack', at'', counted⟩ := @reached false (deserialize (log.drop programData.length)).toList
        (ends_programData data).symm
      refine ⟨_, stack', _, Parser.step_own updated ?_, at'', counted⟩
      rw [handleProgramLog, if_pos data]
    · obtain ⟨stack', at'', counted⟩ := @reached (ends log) [] rfl
      refine ⟨_, stack', [], ?_, at'', counted⟩
      rw [Parser.step_foreign updated own (isProgramEnd_eq other), List.append_nil]
  · obtain ⟨stack', at'', counted⟩ := @reached (ends log) [] rfl
    refine ⟨_, stack', [], ?_, at'', counted⟩
    rw [Parser.step_silent updated data (isProgramEnd_eq other), List.append_nil]

theorem Parser.At.depth (at' : st.At stack events)
    (run : logs.foldlM (Parser.step deserialize programId) st = .ok st') :
    ∃ (stack' : ProgramStack) (events' : List T), st'.At stack' events' ∧
      stack'.length + logs.countP ends = stack.length + logs.countP opens := by
  induction logs generalizing st stack events with
  | nil =>
      cases run
      exact ⟨stack, events, at', rfl⟩
  | cons log logs ih =>
      rw [List.foldlM_cons, Shared.bind_ok_iff] at run
      obtain ⟨mid, first, rest⟩ := run
      have opened : stack.update log ≠ [] := fun empty => by
        rw [at'.step_stops empty] at first
        cases first
      have other : log ≠ bareSuccess := fun bare => by
        rw [at'.step_panics opened bare] at first
        cases first
      obtain ⟨mid', stack', found, first', middle, counted⟩ := at'.step_runs opened other
      cases first.symm.trans first'
      obtain ⟨last, events', final, total⟩ := ih middle rest
      refine ⟨last, events', final, ?_⟩
      rw [List.countP_cons, List.countP_cons]
      omega

/-- The parser panics at a bare success line if a program is open at it and at all lines before it. -/
theorem Parser.At.panics_iff (at' : st.At stack events) :
    logs.foldlM (Parser.step deserialize programId) st = .error .sliceIndex ↔
      ∃ i, logs[i]? = some bareSuccess ∧
        ∀ j ≤ i, (logs.take j).countP ends < stack.length + (logs.take (j + 1)).countP opens := by
  induction logs generalizing st stack events with
  | nil =>
      refine ⟨nofun, ?_⟩
      rintro ⟨i, here, _⟩
      simp at here
  | cons log logs ih =>
      rw [List.foldlM_cons]
      by_cases opened : stack.update log = []
      · have closed := mt ProgramStack.update_ne_nil.2 (not_not_intro opened)
        rw [at'.step_stops opened]
        constructor
        · nofun
        · rintro ⟨i, _, deep⟩
          have first := deep 0 (Nat.zero_le i)
          simp [List.countP_cons] at first
          omega
      · have deep := ProgramStack.update_ne_nil.1 opened
        by_cases bare : log = bareSuccess
        · rw [at'.step_panics opened bare]
          refine ⟨fun _ => ⟨0, by simp [bare], fun j first => ?_⟩, fun _ => rfl⟩
          obtain rfl : j = 0 := by omega
          simpa [List.countP_cons] using deep
        · obtain ⟨mid, stack', found, first, middle, counted⟩ := at'.step_runs opened bare
          rw [first]
          refine (ih middle).trans ⟨?_, ?_⟩
          · rintro ⟨i, here, later⟩
            refine ⟨i + 1, by simpa using here, fun j bound => ?_⟩
            cases j with
            | zero => simpa [List.countP_cons] using deep
            | succ j =>
                have more := later j (by omega)
                simp only [List.take_succ_cons, List.countP_cons]
                omega
          · rintro ⟨i, here, all⟩
            cases i with
            | zero => exact absurd (by simpa using here) bare
            | succ i =>
                refine ⟨i, by simpa using here, fun j bound => ?_⟩
                have more := all (j + 1) (by omega)
                simp only [List.take_succ_cons, List.countP_cons] at more
                omega

end runs

end Mootvote.Indexer
