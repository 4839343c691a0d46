import Mootvote.Indexer.LogStack
import Mootvote.Shared.Utf8

set_option autoImplicit false

/-!
# The slices of `parse_logs`

The parser as it indexes bytes, with every slice checked, and the parser on characters that it refines.
-/

namespace Mootvote.Indexer.Utf8

open Shared.Utf8

inductive Fault where
  | parseLogs
  /-- A slice starts behind its end, or ends behind the end of what it slices. -/
  | sliceIndex
  /-- A slice of a string cuts a character. -/
  | charBoundary
deriving DecidableEq

section slices

def byteSlice (bs : List UInt8) (lo hi : Nat) : Except Fault (List UInt8) :=
  if lo ≤ hi ∧ hi ≤ bs.length then .ok ((bs.take hi).drop lo) else .error .sliceIndex

def strSlice (s : Line) (lo hi : Nat) : Except Fault Line :=
  if lo ≤ hi ∧ hi ≤ (bytes s).length then
    match (splitAt s hi).bind fun (front, _) => splitAt front lo with
    | some (_, middle) => .ok middle
    | none => .error .charBoundary
  else .error .sliceIndex

end slices

section parseLogs

namespace ProgramStack

def program : ProgramStack → Except Fault Line
  | [] => .error .parseLogs
  | top :: _ => .ok top

def pop : ProgramStack → Except Fault ProgramStack
  | [] => .error .parseLogs
  | _ :: rest => .ok rest

def update (stack : ProgramStack) (log : Line) : Except Fault ProgramStack :=
  if bytes programStart <+: bytes log then do
    let tail ← byteSlice (bytes log) (bytes programStart).length (bytes log).length
    match tail.findIdx? (· = byte ' ') with
    | none => .ok stack
    | some pos =>
        let spacePos := (bytes programStart).length + pos
        let rest ← byteSlice (bytes log) spacePos (bytes log).length
        if bytes invoke <+: rest then do
          let program ← strSlice log (bytes programStart).length spacePos
          if ':' ∈ program then .ok stack else .ok (program :: stack)
        else .ok stack
  else .ok stack

end ProgramStack

def isProgramEnd (log : Line) : Except Fault Bool :=
  if bytes programStart <+: bytes log ∧ bytes success <:+ bytes log then do
    let name ← byteSlice (bytes log) (bytes programStart).length ((bytes log).length - (bytes success).length)
    .ok (name.all fun b => b ≠ byte ' ' ∧ b ≠ byte ':')
  else .ok false

variable {T : Type} (deserialize : Line → Option T) (programId : Line)

def handleProgramLog (l : Line) : Except Fault (Option T × Bool) :=
  if bytes programData <+: bytes l then do
    let log ← strSlice l (bytes programData).length (bytes l).length
    return (deserialize log, false)
  else do
    let pop ← isProgramEnd l
    return (none, pop)

def step (st : Parser T) (log : Line) : Except Fault (Parser T) := do
  let execution ← if st.doPop then ProgramStack.pop st.execution else .ok st.execution
  let execution ← ProgramStack.update execution log
  let program ← ProgramStack.program execution
  let (event, pop) ←
    if programId = program then handleProgramLog deserialize log
    else do
      let pop ← isProgramEnd log
      pure (none, pop)
  return { execution, doPop := pop, events := st.events ++ event.toList }

def parseLogs (logs : List Line) : Except Fault (List T) := do
  let st ← logs.foldlM (step deserialize programId) { execution := [], doPop := false, events := [] }
  return st.events

end parseLogs

section refinement

def fault : ParseLogsError → Fault
  | .parseLogs => .parseLogs
  | .sliceIndex => .sliceIndex

def lift {A : Type} (m : Except ParseLogsError A) : Except Fault A := m.mapError fault

variable {A B : Type}

theorem lift_bind (m : Except ParseLogsError A) (f : A → Except ParseLogsError B) :
    lift (m >>= f) = lift m >>= fun a => lift (f a) := by
  cases m <;> rfl

theorem lift_foldlM {S X : Type} {f : S → X → Except Fault S} {g : S → X → Except ParseLogsError S}
    (agree : ∀ s x, f s x = lift (g s x)) (xs : List X) (s : S) : xs.foldlM f s = lift (xs.foldlM g s) := by
  induction xs generalizing s with
  | nil => rfl
  | cons x xs ih =>
      rw [List.foldlM_cons, List.foldlM_cons, lift_bind, agree]
      simp only [ih]

variable {front rest : Line} {log : Line} {stack : ProgramStack}

theorem byteSlice_front :
    byteSlice (bytes (front ++ rest)) (bytes front).length (bytes (front ++ rest)).length = .ok (bytes rest) := by
  rw [byteSlice, if_pos ⟨by simp [bytes_append], Nat.le_refl _⟩, List.take_length, bytes_append,
    List.drop_left]

theorem strSlice_middle (middle : Line) :
    strSlice (front ++ middle ++ rest) (bytes front).length (bytes (front ++ middle)).length =
      .ok middle := by
  rw [strSlice, if_pos ⟨by simp [bytes_append], by simp [bytes_append]⟩, splitAt_append]
  simp only [Option.bind_some, splitAt_append]

theorem ascii_programStart : ∀ c ∈ programStart, Ascii c := by simp [programStart, Ascii]

theorem ascii_invoke : ∀ c ∈ invoke, Ascii c := by simp [invoke, Ascii]

theorem ascii_success : ∀ c ∈ success, Ascii c := by simp [success, Ascii]

theorem ascii_programData : ∀ c ∈ programData, Ascii c := by simp [programData, Ascii]

/-- No slice of `update` panics: the spaces it cuts at are whole characters. -/
theorem ProgramStack.update_eq : update stack log = .ok (Indexer.ProgramStack.update stack log) := by
  rw [update, Indexer.ProgramStack.update]
  simp only [bytes_prefix_iff ascii_programStart]
  by_cases starts : programStart <+: log
  · obtain ⟨r, rfl⟩ := starts
    rw [if_pos (List.prefix_append _ _), if_pos (List.prefix_append _ _), byteSlice_front, List.drop_left]
    simp only [bind, Except.bind, findIdx?_bytes (c := ' ') (by decide)]
    have parts : r.takeWhile (· ≠ ' ') ++ r.dropWhile (· ≠ ' ') = r := List.takeWhile_append_dropWhile
    generalize r.takeWhile (· ≠ ' ') = word, r.dropWhile (· ≠ ' ') = rest at parts ⊢
    subst parts
    have spacePos : (bytes programStart).length + (bytes word).length =
      (bytes (programStart ++ word)).length := by
      rw [bytes_append, List.length_append]
    rw [← List.append_assoc]
    by_cases last : rest = []
    · subst last
      simp [invoke]
    · simp only [if_neg last, spacePos, byteSlice_front, strSlice_middle, bytes_prefix_iff ascii_invoke]
      split_ifs <;> rfl
  · rw [if_neg starts, if_neg starts]

theorem isProgramEnd_eq : isProgramEnd log = lift (Indexer.isProgramEnd log) := by
  rw [isProgramEnd, Indexer.isProgramEnd]
  simp only [bytes_prefix_iff ascii_programStart, bytes_suffix_iff ascii_success]
  by_cases words : programStart <+: log ∧ success <:+ log
  · rw [if_pos words, if_pos words]
    by_cases bare : log = bareSuccess
    · subst bare
      decide
    · have long : programStart.length + success.length ≤ log.length :=
        Nat.not_lt.1 fun short => bare (eq_bareSuccess words.1 words.2 short)
      obtain ⟨⟨r, rfl⟩, ended⟩ := words
      rw [List.length_append] at long
      obtain ⟨name, rfl⟩ := List.suffix_of_suffix_length_le ended (List.suffix_append _ r) (by omega)
      have slice : byteSlice (bytes (programStart ++ (name ++ success))) (bytes programStart).length
          ((bytes (programStart ++ (name ++ success))).length - (bytes success).length) =
            .ok (bytes name) := by
        rw [← List.append_assoc, bytes_append (s := programStart ++ name), List.length_append,
          Nat.add_sub_cancel, byteSlice, if_pos ⟨by simp [bytes_append], by simp⟩, List.take_left, bytes_append, List.drop_left]
      have letters : ((bytes name).all fun b => b ≠ byte ' ' ∧ b ≠ byte ':') =
          name.all fun c => c ≠ ' ' ∧ c ≠ ':' := by
        have absent {A : Type} [DecidableEq A] (l : List A) (x y : A) :
            (l.all fun a => a ≠ x ∧ a ≠ y) = decide (x ∉ l ∧ y ∉ l) := by grind
        rw [absent, absent]
        simp only [mem_bytes_iff (s := name) (c := ' ') (by decide),
          mem_bytes_iff (s := name) (c := ':') (by decide)]
      have front : (programStart ++ (name ++ success)).length - success.length =
        (programStart ++ name).length := by
        rw [← List.append_assoc, List.length_append, Nat.add_sub_cancel]
      rw [slice, front, if_neg (by simp), ← List.append_assoc, List.take_left, List.drop_left, ← letters]
      rfl
  · rw [if_neg words, if_neg words]
    rfl

variable {T : Type} {deserialize : Line → Option T} {programId : Line}

theorem handleProgramLog_eq :
    handleProgramLog deserialize log = lift (Indexer.handleProgramLog deserialize log) := by
  rw [handleProgramLog, Indexer.handleProgramLog]
  simp only [bytes_prefix_iff ascii_programData]
  by_cases data : programData <+: log
  · obtain ⟨payload, rfl⟩ := data
    have slice := @strSlice_middle programData [] payload
    rw [List.append_nil] at slice
    rw [if_pos (List.prefix_append _ _), if_pos (List.prefix_append _ _), slice, List.drop_left]
    rfl
  · rw [if_neg data, if_neg data, isProgramEnd_eq, lift_bind]
    rfl

theorem step_settled (st : Parser T) (log : Line) (settled : st.doPop = false) :
    step deserialize programId st log = lift (Parser.step deserialize programId st log) := by
  have opened (stack : Indexer.ProgramStack) : ProgramStack.program stack = lift stack.program := by
    cases stack <;> rfl
  rw [step, Parser.step, settled, if_neg (by decide), if_neg (by decide), lift_bind]
  refine bind_congr fun stack => ?_
  beta_reduce
  rw [ProgramStack.update_eq]
  change (ProgramStack.program _ >>= _) = _
  rw [opened, lift_bind]
  refine bind_congr fun program => ?_
  split_ifs
  · rw [handleProgramLog_eq, lift_bind]
    rfl
  · rw [isProgramEnd_eq, lift_bind]
    rfl

theorem step_eq (st : Parser T) (log : Line) :
    step deserialize programId st log = lift (Parser.step deserialize programId st log) := by
  obtain ⟨execution, doPop, events⟩ := st
  cases doPop with
  | false => exact step_settled _ log rfl
  | true =>
      cases execution with
      | nil => rfl
      | cons closed rest => exact step_settled { execution := rest, doPop := false, events } log rfl

theorem parseLogs_eq (logs : List Line) :
    parseLogs deserialize programId logs = lift (Indexer.parseLogs deserialize programId logs) := by
  rw [parseLogs, Indexer.parseLogs, lift_foldlM step_eq, lift_bind]
  rfl

end refinement

/-- `parse_logs` returns unless a bare success line comes while a program is open at it and at all lines before it. -/
theorem parse_logs_returns_iff {T : Type} (deserialize : Line → Option T) (programId : Line)
    (logs : List Line) :
    ((∃ events, parseLogs deserialize programId logs = .ok events) ∨
        parseLogs deserialize programId logs = .error .parseLogs) ↔
      ∀ i, logs[i]? = some bareSuccess →
        ∃ j ≤ i, (logs.take (j + 1)).countP opens ≤ (logs.take j).countP ends := by
  have start : (⟨[], false, []⟩ : Parser T).At [] [] := ⟨rfl, .inl ⟨rfl, rfl⟩⟩
  have panics : logs.foldlM (Parser.step deserialize programId) ⟨[], false, []⟩ = .error .sliceIndex ↔ _ :=
    start.panics_iff
  have returns : ((∃ events, parseLogs deserialize programId logs = .ok events) ∨
      parseLogs deserialize programId logs = .error .parseLogs) ↔
        logs.foldlM (Parser.step deserialize programId) ⟨[], false, []⟩ ≠ .error .sliceIndex := by
    rw [parseLogs_eq, Indexer.parseLogs]
    cases logs.foldlM (Parser.step deserialize programId) ⟨[], false, []⟩ with
    | ok st => exact ⟨fun _ same => (by cases same), fun _ => .inl ⟨st.events, rfl⟩⟩
    | error e =>
        cases e with
        | parseLogs => exact ⟨fun _ same => (by cases same), fun _ => .inr rfl⟩
        | sliceIndex => exact ⟨by rintro (⟨_, ⟨⟩⟩ | ⟨⟨⟩⟩), fun other => absurd rfl other⟩
  rw [returns, ne_eq, panics]
  simp only [List.length_nil, Nat.zero_add, not_exists, not_and, not_forall, not_lt, exists_prop]

namespace BareSuccess

open ForgedFrame

def logs : List Line := [invokeLine mootvote one, bareSuccess]

/-- A line of an open program whose prefix and suffix overlap. -/
theorem parse_logs_panics : parseLogs some mootvote.chars logs = .error .sliceIndex ∧
    ¬((∃ events, parseLogs some mootvote.chars logs = .ok events) ∨
      parseLogs some mootvote.chars logs = .error .parseLogs) := by
  have panics : parseLogs some mootvote.chars logs = .error .sliceIndex := by decide
  rw [panics]
  exact ⟨rfl, by rintro (⟨_, ⟨⟩⟩ | ⟨⟨⟩⟩)⟩

end BareSuccess

end Mootvote.Indexer.Utf8
