import Mathlib.Data.List.Infix
import Mathlib.Tactic.Common

set_option autoImplicit false

namespace Mootvote.Indexer

/-- A log line; the parsers cut lines at ASCII characters only, so characters stand for bytes. -/
abbrev Line := List Char

section parseLogs

def programStart : Line := ['P', 'r', 'o', 'g', 'r', 'a', 'm', ' ']

def invoke : Line := [' ', 'i', 'n', 'v', 'o', 'k', 'e']

def success : Line := [' ', 's', 'u', 'c', 'c', 'e', 's', 's']

def programData : Line :=
  ['P', 'r', 'o', 'g', 'r', 'a', 'm', ' ', 'd', 'a', 't', 'a', ':', ' ']

inductive ParseLogsError where
  | parseLogs
  /-- A slice whose start is behind its end panics. -/
  | sliceIndex
deriving DecidableEq

/-- The open programs, the innermost one first. -/
abbrev ProgramStack := List Line

namespace ProgramStack

def program : ProgramStack → Except ParseLogsError Line
  | [] => .error .parseLogs
  | top :: _ => .ok top

def pop : ProgramStack → Except ParseLogsError ProgramStack
  | [] => .error .parseLogs
  | _ :: rest => .ok rest

def update (stack : ProgramStack) (log : Line) : ProgramStack :=
  if programStart <+: log then
    let program := (log.drop programStart.length).takeWhile (· ≠ ' ')
    -- Empty where the line has no further space.
    let fromSpace := (log.drop programStart.length).dropWhile (· ≠ ' ')
    if invoke <+: fromSpace then
      if ':' ∈ program then stack else program :: stack
    else stack
  else stack

end ProgramStack

def isProgramEnd (log : Line) : Except ParseLogsError Bool :=
  if programStart <+: log ∧ success <:+ log then
    if log.length - success.length < programStart.length then .error .sliceIndex
    else
      let name := (log.take (log.length - success.length)).drop programStart.length
      .ok (name.all fun b => b ≠ ' ' ∧ b ≠ ':')
  else .ok false

variable {T : Type} (deserialize : Line → Option T) (programId : Line)

def handleProgramLog (l : Line) : Except ParseLogsError (Option T × Bool) :=
  if programData <+: l then .ok (deserialize (l.drop programData.length), false)
  else do
    let pop ← isProgramEnd l
    return (none, pop)

structure Parser (T : Type) where
  execution : ProgramStack
  doPop : Bool
  events : List T

def Parser.step (st : Parser T) (log : Line) : Except ParseLogsError (Parser T) := do
  let execution ← if st.doPop then st.execution.pop else .ok st.execution
  let execution := execution.update log
  let program ← execution.program
  let (event, pop) ←
    if programId = program then handleProgramLog deserialize log
    else do
      let pop ← isProgramEnd log
      pure (none, pop)
  return { execution, doPop := pop, events := st.events ++ event.toList }

def parseLogs (logs : List Line) : Except ParseLogsError (List T) := do
  let st ← logs.foldlM (Parser.step deserialize programId) { execution := [], doPop := false, events := [] }
  return st.events

end parseLogs

section getEvents

def isBase58 (c : Char) : Bool :=
  '1' ≤ c && c ≤ '9' || 'A' ≤ c && c ≤ 'H' || 'J' ≤ c && c ≤ 'N' || 'P' ≤ c && c ≤ 'Z' ||
    'a' ≤ c && c ≤ 'k' || 'm' ≤ c && c ≤ 'z'

-- In both expressions what follows a repeated class is outside it, so the longest repetition is the only one.

def invokeRe (log : Line) : Option Line :=
  if programStart <+: log then
    let group := (log.drop programStart.length).takeWhile isBase58
    let rest := (log.drop programStart.length).dropWhile isBase58
    let bracket := invoke ++ [' ', '[']
    if group ≠ [] ∧ bracket <+: rest then
      let digits := (rest.drop bracket.length).takeWhile Char.isDigit
      if digits ≠ [] ∧ (rest.drop bracket.length).dropWhile Char.isDigit = [']'] then some group else none
    else none
  else none

def successRe (log : Line) : Bool :=
  let group := (log.drop programStart.length).takeWhile isBase58
  let rest := (log.drop programStart.length).dropWhile isBase58
  programStart <+: log ∧ group ≠ [] ∧ (rest = success ∨ rest = [' ', 'f', 'a', 'i', 'l', 'e', 'd'])

variable {D : Type} (decode : Line → Option (String × D)) (eventName : String) (programId : Line)

structure Reader (D : Type) where
  stack : List Line
  results : List D

def Reader.step (r : Reader D) (log : Line) : Reader D :=
  match invokeRe log with
  | some program => { r with stack := program :: r.stack }
  | none =>
      if successRe log then { r with stack := r.stack.tail }
      else if programData <+: log ∧ r.stack.head? = some programId then
        match decode (log.drop programData.length) with
        | some (name, data) => if name = eventName then { r with results := r.results ++ [data] } else r
        | none => r
      else r

def getEvents (logs : List Line) : List D :=
  (logs.foldl (Reader.step decode eventName programId) { stack := [], results := [] }).results

end getEvents

section runtime

structure Base58 where
  chars : Line
  nonempty : chars ≠ []
  valid : ∀ c ∈ chars, isBase58 c

structure Numeral where
  digits : Line
  nonempty : digits ≠ []
  valid : ∀ c ∈ digits, c.isDigit

/-- A line of the runtime: a word and what follows it. -/
def spaced (w t : Line) : Line := programStart ++ w ++ ' ' :: t

def logWord : Line := ['l', 'o', 'g', ':']

def dataWord : Line := ['d', 'a', 't', 'a', ':']

def returnWord : Line := ['r', 'e', 't', 'u', 'r', 'n', ':']

def consumptionWord : Line := ['c', 'o', 'n', 's', 'u', 'm', 'p', 't', 'i', 'o', 'n', ':']

inductive BodyLine where
  | log (text : Line)
  | data (payload : Line)
  | programReturn (id : Base58) (payload : Line)
  | consumption (text : Line)
  | consumed (id : Base58) (a b : Numeral)
  | other (line : Line) (foreign : ¬ programStart <+: line)

def BodyLine.render : BodyLine → Line
  | log text => spaced logWord text
  | data payload => spaced dataWord payload
  | programReturn id payload => spaced returnWord (id.chars ++ ' ' :: payload)
  | consumption text => spaced consumptionWord text
  | consumed id a b => spaced id.chars (['c', 'o', 'n', 's', 'u', 'm', 'e', 'd', ' '] ++ a.digits ++
      [' ', 'o', 'f', ' '] ++ b.digits ++
      [' ', 'c', 'o', 'm', 'p', 'u', 't', 'e', ' ', 'u', 'n', 'i', 't', 's'])
  | other line _ => line

def invokeLine (id : Base58) (n : Numeral) : Line :=
  spaced id.chars (['i', 'n', 'v', 'o', 'k', 'e', ' ', '['] ++ n.digits ++ [']'])

def successLine (id : Base58) : Line := spaced id.chars ['s', 'u', 'c', 'c', 'e', 's', 's']

inductive Body where
  | nil
  | line (l : BodyLine) (rest : Body)
  | frame (id : Base58) (n : Numeral) (inner rest : Body)

def frameLines (id : Base58) (n : Numeral) (inner : List Line) : List Line :=
  invokeLine id n :: (inner ++ [successLine id])

def Body.render : Body → List Line
  | nil => []
  | line l rest => l.render :: rest.render
  | frame id n inner rest => frameLines id n inner.render ++ rest.render

/-- The logs of a successful transaction: its instructions' frames. -/
inductive Frames where
  | nil
  | frame (id : Base58) (n : Numeral) (inner : Body) (rest : Frames)

def Frames.render : Frames → List Line
  | nil => []
  | frame id n inner rest => frameLines id n inner.render ++ rest.render

variable {T : Type} (deserialize : Line → Option T) (programId : Line)

/-- What a program writes with `data:`, where it is the innermost open one. -/
def BodyLine.event (inside : Line) : BodyLine → Option T
  | data payload => if inside = programId then deserialize payload else none
  | _ => none

def Body.events (inside : Line) : Body → List T
  | nil => []
  | line l rest => (l.event deserialize programId inside).toList ++ rest.events inside
  | frame id _ inner rest => inner.events id.chars ++ rest.events inside

def Frames.events : Frames → List T
  | nil => []
  | frame id _ inner rest => inner.events deserialize programId id.chars ++ rest.events

end runtime

section lines

variable {w t : Line}

theorem programStart_spaced : programStart <+: spaced w t := by
  rw [spaced, List.append_assoc]
  exact List.prefix_append _ _

theorem drop_spaced : (spaced w t).drop programStart.length = w ++ ' ' :: t := by
  rw [spaced, List.append_assoc, List.drop_left]

theorem takeWhile_word (unspaced : ' ' ∉ w) : (w ++ ' ' :: t).takeWhile (· ≠ ' ') = w := by
  rw [List.takeWhile_append_of_pos]
  · simp
  · intro c member
    simpa using fun same : c = ' ' => unspaced (same ▸ member)

theorem dropWhile_word (unspaced : ' ' ∉ w) : (w ++ ' ' :: t).dropWhile (· ≠ ' ') = ' ' :: t := by
  rw [List.dropWhile_append_of_pos]
  · simp
  · intro c member
    simpa using fun same : c = ' ' => unspaced (same ▸ member)

theorem update_spaced (stack : ProgramStack) (unspaced : ' ' ∉ w) :
    stack.update (spaced w t) = if invoke <+: ' ' :: t ∧ ':' ∉ w then w :: stack else stack := by
  rw [ProgramStack.update, if_pos programStart_spaced, drop_spaced, takeWhile_word unspaced,
    dropWhile_word unspaced]
  split_ifs <;> grind

theorem programData_spaced (unspaced : ' ' ∉ w) : programData <+: spaced w t ↔ w = dataWord := by
  constructor
  · rintro ⟨rest, same⟩
    have words := congrArg (fun l => (l.drop programStart.length).takeWhile (· ≠ ' ')) same
    have first : programData ++ rest = spaced dataWord rest := by
      simp [programData, spaced, programStart, dataWord]
    rw [first] at words
    simp only [drop_spaced] at words
    rw [takeWhile_word (by simp [dataWord]), takeWhile_word unspaced] at words
    exact words.symm
  · rintro rfl
    exact ⟨t, by simp [programData, spaced, programStart, dataWord]⟩

theorem success_suffix (long : success <:+ spaced w t) : ∃ x, ' ' :: t = x ++ success := by
  obtain ⟨front, same⟩ := long
  rcases List.append_eq_append_iff.1 same with ⟨x, _, rest⟩ | ⟨x, _, rest⟩
  · cases x with
    | nil => exact ⟨[], by simpa using rest.symm⟩
    | cons c x =>
        have spaces := congrArg (fun l => (l.drop 1).count ' ') rest
        simp [success] at spaces
  · exact ⟨x, rest⟩

theorem isProgramEnd_spaced (unspaced : ' ' ∉ w) :
    isProgramEnd (spaced w t) = .ok (decide (' ' :: t = success ∧ ':' ∉ w)) := by
  unfold isProgramEnd
  by_cases ends : success <:+ spaced w t
  · obtain ⟨x, rest⟩ := success_suffix ends
    have parts : spaced w t = programStart ++ (w ++ x) ++ success := by simp [spaced, rest]
    have front : (spaced w t).length - success.length = (programStart ++ (w ++ x)).length := by
      rw [parts, List.length_append, Nat.add_sub_cancel]
    have name : ((spaced w t).take (programStart ++ (w ++ x)).length).drop programStart.length = w ++ x := by
      rw [parts, List.take_left, List.drop_left]
    rw [if_pos ⟨programStart_spaced, ends⟩, front, if_neg (by simp), name]
    cases x with
    | nil =>
        have letters : (w.all fun b => b ≠ ' ' ∧ b ≠ ':') = decide (':' ∉ w) := by grind
        simpa [rest] using letters
    | cons c x =>
        obtain ⟨rfl, _⟩ := List.cons.inj rest
        have longer : ' ' :: t ≠ success := by
          intro same
          have lengths := congrArg List.length (same.symm.trans rest)
          simp at lengths
          omega
        simp [longer]
  · have other : ' ' :: t ≠ success := by
      intro same
      rw [spaced, same] at ends
      exact ends (List.suffix_append _ _)
    simp [ends, other]

theorem dropWhile_colon (colon : ':' ∈ w) (unspaced : ' ' ∉ w) :
    ∃ c r, (w ++ ' ' :: t).dropWhile isBase58 = c :: r ∧ c ≠ ' ' := by
  induction w with
  | nil => cases colon
  | cons a w ih =>
      by_cases valid : isBase58 a
      · have later : ':' ∈ w := by
          rcases List.mem_cons.1 colon with rfl | later
          · exact absurd valid (by decide)
          · exact later
        simpa [valid] using ih later fun space => unspaced (List.mem_cons_of_mem _ space)
      · exact ⟨a, w ++ ' ' :: t, by simp [valid], fun same => unspaced (by simp [same])⟩

theorem regex_colon (colon : ':' ∈ w) (unspaced : ' ' ∉ w) :
    invokeRe (spaced w t) = none ∧ successRe (spaced w t) = false := by
  obtain ⟨c, r, rest, unlike⟩ := dropWhile_colon (t := t) colon unspaced
  have invokes : ¬ invoke ++ [' ', '['] <+: c :: r := by simp [invoke, Ne.symm unlike]
  constructor
  · simp [invokeRe, drop_spaced, rest, invokes]
  · simp [successRe, drop_spaced, rest, success, unlike]

theorem takeWhile_base58 (id : Base58) : (id.chars ++ ' ' :: t).takeWhile isBase58 = id.chars := by
  rw [List.takeWhile_append_of_pos id.valid]
  simp [show isBase58 ' ' = false by decide]

theorem dropWhile_base58 (id : Base58) : (id.chars ++ ' ' :: t).dropWhile isBase58 = ' ' :: t := by
  rw [List.dropWhile_append_of_pos id.valid]
  simp [show isBase58 ' ' = false by decide]

theorem Base58.unspaced (id : Base58) : ' ' ∉ id.chars := fun space => by
  have valid := id.valid _ space
  revert valid
  decide

theorem Base58.uncoloned (id : Base58) : ':' ∉ id.chars := fun colon => by
  have valid := id.valid _ colon
  revert valid
  decide

end lines

/-- A line at which neither parser opens or closes a frame. -/
structure Inert (l : Line) : Prop where
  update : ∀ stack : ProgramStack, stack.update l = stack
  isProgramEnd : isProgramEnd l = .ok false
  invokeRe : invokeRe l = none
  successRe : successRe l = false

section inert

theorem inert_foreign {l : Line} (foreign : ¬ programStart <+: l) : Inert l where
  update stack := by simp [ProgramStack.update, foreign]
  isProgramEnd := by simp [isProgramEnd, foreign]
  invokeRe := by simp [invokeRe, foreign]
  successRe := by simp [successRe, foreign]

theorem inert_colon {w t : Line} (colon : ':' ∈ w) (unspaced : ' ' ∉ w) : Inert (spaced w t) where
  update stack := by simp [update_spaced stack unspaced, colon]
  isProgramEnd := by simp [isProgramEnd_spaced unspaced, colon]
  invokeRe := (regex_colon colon unspaced).1
  successRe := (regex_colon colon unspaced).2

theorem inert_consumed (id : Base58) (t : Line) : Inert (spaced id.chars ('c' :: t)) where
  update stack := by simp [update_spaced stack id.unspaced, invoke]
  isProgramEnd := by simp [isProgramEnd_spaced id.unspaced, success]
  invokeRe := by simp [invokeRe, drop_spaced, dropWhile_base58, invoke]
  successRe := by simp [successRe, drop_spaced, dropWhile_base58, success]

theorem BodyLine.inert (l : BodyLine) : Inert l.render := by
  cases l with
  | log text => exact inert_colon (by decide) (by decide)
  | data payload => exact inert_colon (by decide) (by decide)
  | programReturn id payload => exact inert_colon (by decide) (by decide)
  | consumption text => exact inert_colon (by decide) (by decide)
  | consumed id a b => exact inert_consumed id _
  | other line foreign => exact inert_foreign foreign

theorem not_programData_base58 (id : Base58) (t : Line) : ¬ programData <+: spaced id.chars t := by
  rw [programData_spaced id.unspaced]
  exact fun same => id.uncoloned (same ▸ by decide)

theorem BodyLine.payload {T : Type} (deserialize : Line → Option T) (programId : Line) (l : BodyLine) :
    (if programData <+: l.render then deserialize (l.render.drop programData.length) else none) =
      l.event deserialize programId programId := by
  cases l with
  | data payload =>
      have parts : (BodyLine.data payload).render = programData ++ payload := by
        simp [render, spaced, programStart, dataWord, programData]
      rw [parts, if_pos (List.prefix_append _ _), List.drop_left, event, if_pos rfl]
  | log | programReturn | consumption =>
      rw [if_neg, event]
      · nofun
      · rw [render, programData_spaced (by decide)]
        decide
  | consumed id a b =>
      rw [render, if_neg (not_programData_base58 id _), event]
      nofun
  | other line foreign =>
      have other : ¬ programData <+: line := fun data => foreign (.trans (by decide) data)
      rw [render, if_neg other, event]
      nofun

end inert

section runs

variable {T : Type} (deserialize : Line → Option T) (programId : Line)

/-- The parser has these programs open, and may still have the last closed one on its stack. -/
def Parser.At (st : Parser T) (stack : ProgramStack) (events : List T) : Prop :=
  st.events = events ∧
    (st.doPop = false ∧ st.execution = stack ∨ st.doPop = true ∧ ∃ closed, st.execution = closed :: stack)

variable {st : Parser T} {stack : ProgramStack} {events : List T}

/-- The pop that is still due comes first. -/
theorem Parser.At.step (at' : st.At stack events) (log : Line) :
    st.step deserialize programId log =
      Parser.step deserialize programId { execution := stack, doPop := false, events } log := by
  obtain ⟨rfl, ⟨settled, rfl⟩ | ⟨due, closed, opened⟩⟩ := at'
  · simp [Parser.step, settled]
  · simp [Parser.step, due, opened, ProgramStack.pop]

variable {deserialize programId} {log id : Line} {rest : ProgramStack} {pop : Bool}

theorem Parser.step_own {event : Option T} (updated : stack.update log = programId :: rest)
    (handled : handleProgramLog deserialize log = .ok (event, pop)) :
    Parser.step deserialize programId { execution := stack, doPop := false, events } log =
      .ok { execution := programId :: rest, doPop := pop, events := events ++ event.toList } := by
  simp only [Parser.step, Bool.false_eq_true, if_false, bind, Except.bind, updated, ProgramStack.program,
    if_true, handled, pure, Except.pure]

theorem Parser.step_foreign (updated : stack.update log = id :: rest) (other : programId ≠ id)
    (ended : isProgramEnd log = .ok pop) :
    Parser.step deserialize programId { execution := stack, doPop := false, events } log =
      .ok { execution := id :: rest, doPop := pop, events } := by
  simp only [Parser.step, Bool.false_eq_true, if_false, bind, Except.bind, updated, ProgramStack.program,
    if_neg other, ended, pure, Except.pure, Option.toList_none, List.append_nil]

theorem handleProgramLog_end (silent : ¬ programData <+: log) (ended : isProgramEnd log = .ok pop) :
    handleProgramLog deserialize log = .ok (none, pop) := by
  simp only [handleProgramLog, if_neg silent, ended, bind, Except.bind, pure, Except.pure]

theorem Parser.step_silent (updated : stack.update log = id :: rest) (silent : ¬ programData <+: log)
    (ended : isProgramEnd log = .ok pop) :
    Parser.step deserialize programId { execution := stack, doPop := false, events } log =
      .ok { execution := id :: rest, doPop := pop, events } := by
  by_cases own : programId = id
  · subst own
    rw [Parser.step_own updated (handleProgramLog_end silent ended), Option.toList_none, List.append_nil]
  · exact Parser.step_foreign updated own ended

theorem Parser.step_line (l : BodyLine) :
    Parser.step deserialize programId { execution := id :: stack, doPop := false, events } l.render =
      .ok { execution := id :: stack, doPop := false,
            events := events ++ (l.event deserialize programId id).toList } := by
  have inert := l.inert
  have payload := l.payload deserialize programId
  by_cases own : programId = id
  · subst own
    refine Parser.step_own (inert.update _) ?_
    by_cases data : programData <+: l.render
    · rw [if_pos data] at payload
      rw [handleProgramLog, if_pos data, payload]
    · rw [if_neg data] at payload
      rw [handleProgramLog_end data inert.isProgramEnd, payload]
  · have silent : l.event deserialize programId id = none := by
      cases l <;> simp [BodyLine.event, Ne.symm own]
    rw [Parser.step_foreign (inert.update _) own inert.isProgramEnd, silent, Option.toList_none,
      List.append_nil]

theorem Parser.step_invoke (id : Base58) (n : Numeral) :
    Parser.step deserialize programId { execution := stack, doPop := false, events } (invokeLine id n) =
      .ok { execution := id.chars :: stack, doPop := false, events } := by
  refine Parser.step_silent ?_ (not_programData_base58 id _) ?_
  · rw [invokeLine, update_spaced _ id.unspaced, if_pos ⟨by simp [invoke], id.uncoloned⟩]
  · rw [invokeLine, isProgramEnd_spaced id.unspaced]
    simp [success]

theorem Parser.step_success (id : Base58) :
    Parser.step deserialize programId { execution := id.chars :: stack, doPop := false, events }
      (successLine id) = .ok { execution := id.chars :: stack, doPop := true, events } := by
  refine Parser.step_silent ?_ (not_programData_base58 id _) ?_
  · rw [successLine, update_spaced _ id.unspaced, if_neg (by simp [invoke])]
  · rw [successLine, isProgramEnd_spaced id.unspaced]
    simp [success, id.uncoloned]

def Parses (deserialize : Line → Option T) (programId : Line) (stack : ProgramStack) (logs : List Line)
    (events : List T) : Prop :=
  ∀ (st : Parser T) past, st.At stack past → ∃ st' : Parser T,
    logs.foldlM (Parser.step deserialize programId) st = .ok st' ∧ st'.At stack (past ++ events)

variable {logs logs' : List Line} {events' : List T}

theorem Parses.nil : Parses deserialize programId stack [] [] := fun st past reached =>
  ⟨st, rfl, by rwa [List.append_nil]⟩

theorem Parses.append (first : Parses deserialize programId stack logs events)
    (second : Parses deserialize programId stack logs' events') :
    Parses deserialize programId stack (logs ++ logs') (events ++ events') := by
  intro st past reached
  obtain ⟨mid, run, middle⟩ := first st past reached
  obtain ⟨last, run', final⟩ := second mid _ middle
  refine ⟨last, ?_, by rwa [← List.append_assoc]⟩
  rw [List.foldlM_append, run]
  exact run'

theorem parses_line (l : BodyLine) :
    Parses deserialize programId (id :: stack) [l.render] (l.event deserialize programId id).toList := by
  intro st past reached
  refine ⟨{ execution := id :: stack, doPop := false, events := _ }, ?_, rfl, .inl ⟨rfl, rfl⟩⟩
  rw [List.foldlM_cons, reached.step, Parser.step_line]
  rfl

theorem Parses.frame (id : Base58) (n : Numeral)
    (inner : Parses deserialize programId (id.chars :: stack) logs events) :
    Parses deserialize programId stack (frameLines id n logs) events := by
  intro st past reached
  obtain ⟨mid, run, middle⟩ := inner { execution := id.chars :: stack, doPop := false, events := past } past
    ⟨rfl, .inl ⟨rfl, rfl⟩⟩
  -- The end line leaves the frame on the stack for the next line to pop.
  refine ⟨{ execution := id.chars :: stack, doPop := true, events := _ }, ?_, rfl, .inr ⟨rfl, _, rfl⟩⟩
  have opened : (frameLines id n logs).foldlM (Parser.step deserialize programId) st =
      (logs ++ [successLine id]).foldlM (Parser.step deserialize programId)
        { execution := id.chars :: stack, doPop := false, events := past } := by
    rw [frameLines, List.foldlM_cons, reached.step, Parser.step_invoke]
    rfl
  have closed : [successLine id].foldlM (Parser.step deserialize programId) mid =
      .ok { execution := id.chars :: stack, doPop := true, events := past ++ events } := by
    rw [List.foldlM_cons, middle.step, Parser.step_success]
    rfl
  rw [opened, List.foldlM_append, run]
  exact closed

theorem Body.parses (body : Body) (id : Line) (stack : ProgramStack) :
    Parses deserialize programId (id :: stack) body.render (body.events deserialize programId id) := by
  induction body generalizing id stack with
  | nil => exact .nil
  | line l rest ih => exact (parses_line l).append (ih id stack)
  | frame id' n inner rest ihInner ihRest =>
      exact (Parses.frame id' n (ihInner id'.chars (id :: stack))).append (ihRest id stack)

theorem Frames.parses (frames : Frames) :
    Parses deserialize programId [] frames.render (frames.events deserialize programId) := by
  induction frames with
  | nil => exact .nil
  | frame id n inner rest ih => exact (Parses.frame id n (inner.parses id.chars [])).append ih

theorem parseLogs_frames (frames : Frames) :
    parseLogs deserialize programId frames.render = .ok (frames.events deserialize programId) := by
  have parses : Parses deserialize programId [] frames.render (frames.events deserialize programId) :=
    frames.parses
  obtain ⟨st, run, found, _⟩ :=
    parses { execution := [], doPop := false, events := [] } [] ⟨rfl, .inl ⟨rfl, rfl⟩⟩
  rw [parseLogs, run, ← List.nil_append (frames.events deserialize programId), ← found]
  rfl

end runs

section reads

variable {D : Type} {decode : Line → Option (String × D)} {eventName : String} {programId : Line}

def named (decode : Line → Option (String × D)) (eventName : String) (payload : Line) : Option D :=
  (decode payload).bind fun (name, data) => if name = eventName then some data else none

variable {r : Reader D} {id : Line} {stack : List Line} {past : List D}

theorem Reader.step_line (l : BodyLine) :
    Reader.step decode eventName programId { stack := id :: stack, results := past } l.render =
      { stack := id :: stack,
        results := past ++ (l.event (named decode eventName) programId id).toList } := by
  have inert := l.inert
  have payload := l.payload (named decode eventName) programId
  by_cases own : id = programId
  · subst own
    rw [← payload]
    by_cases data : programData <+: l.render
    · simp only [Reader.step, inert.invokeRe, inert.successRe, data, named]
      cases decode (l.render.drop programData.length) with
      | none => simp
      | some found =>
          obtain ⟨name, event⟩ := found
          by_cases same : name = eventName <;> simp [same]
    · simp [Reader.step, inert.invokeRe, inert.successRe, data]
  · have silent : l.event (named decode eventName) programId id = none := by
      cases l <;> simp [BodyLine.event, own]
    simp [Reader.step, inert.invokeRe, inert.successRe, own, silent]

theorem Reader.step_invoke (id : Base58) (n : Numeral) :
    Reader.step decode eventName programId { stack, results := past } (invokeLine id n) =
      { stack := id.chars :: stack, results := past } := by
  have digits : (n.digits ++ [']']).takeWhile Char.isDigit = n.digits := by
    rw [List.takeWhile_append_of_pos n.valid]
    simp [show Char.isDigit ']' = false by decide]
  have bracket : (n.digits ++ [']']).dropWhile Char.isDigit = [']'] := by
    rw [List.dropWhile_append_of_pos n.valid]
    simp [show Char.isDigit ']' = false by decide]
  have matched : invokeRe (invokeLine id n) = some id.chars := by
    simp [invokeRe, invokeLine, programStart_spaced, drop_spaced, takeWhile_base58, dropWhile_base58, invoke,
      id.nonempty, n.nonempty, digits, bracket]
  rw [Reader.step, matched]

theorem Reader.step_success (id : Base58) :
    Reader.step decode eventName programId { stack := id.chars :: stack, results := past } (successLine id) =
      { stack, results := past } := by
  have unmatched : invokeRe (successLine id) = none := by
    simp [successLine, invokeRe, drop_spaced, dropWhile_base58, invoke]
  have matched : successRe (successLine id) = true := by
    simp [successLine, successRe, programStart_spaced, drop_spaced, takeWhile_base58,
      dropWhile_base58, success,
      id.nonempty]
  simp [Reader.step, unmatched, matched]

theorem Reader.body (body : Body) (id : Line) (stack : List Line) (past : List D) :
    body.render.foldl (Reader.step decode eventName programId) { stack := id :: stack, results := past } =
      { stack := id :: stack, results := past ++ body.events (named decode eventName) programId id } := by
  induction body generalizing id stack past with
  | nil => simp [Body.render, Body.events]
  | line l rest ih =>
      rw [Body.render, List.foldl_cons, Reader.step_line, ih, Body.events, List.append_assoc]
  | frame id' n inner rest ihInner ihRest =>
      rw [Body.render, frameLines, List.cons_append, List.foldl_cons, Reader.step_invoke, List.foldl_append,
        List.foldl_append, ihInner, List.foldl_cons, List.foldl_nil, Reader.step_success, ihRest, Body.events,
        List.append_assoc]

theorem Reader.frames (frames : Frames) (past : List D) :
    frames.render.foldl (Reader.step decode eventName programId) { stack := [], results := past } =
      { stack := [], results := past ++ frames.events (named decode eventName) programId } := by
  induction frames generalizing past with
  | nil => simp [Frames.render, Frames.events]
  | frame id n inner rest ih =>
      rw [Frames.render, frameLines, List.cons_append, List.foldl_cons, Reader.step_invoke, List.foldl_append,
        List.foldl_append, Reader.body, List.foldl_cons, List.foldl_nil, Reader.step_success, ih,
          Frames.events,
        List.append_assoc]

end reads

section agree

variable {T D : Type} {deserialize : Line → Option T} {programId : Line} (vote : T → Option D)

theorem Body.filterMap_events (body : Body) (id : Line) :
    (body.events deserialize programId id).filterMap vote =
      body.events (fun payload => (deserialize payload).bind vote) programId id := by
  induction body generalizing id with
  | nil => rfl
  | line l rest ih =>
      rw [Body.events, Body.events, List.filterMap_append, ih]
      congr 1
      cases l with
      | data payload =>
          simp only [BodyLine.event]
          split_ifs
          · cases deserialize payload with
            | none => rfl
            | some event => cases voted : vote event <;> simp [voted]
          · rfl
      | log | programReturn | consumption | consumed | other => rfl
  | frame id' n inner rest ihInner ihRest =>
      rw [Body.events, Body.events, List.filterMap_append, ihInner, ihRest]

theorem Frames.filterMap_events (frames : Frames) :
    (frames.events deserialize programId).filterMap vote =
      frames.events (fun payload => (deserialize payload).bind vote) programId := by
  induction frames with
  | nil => rfl
  | frame id n inner rest ih =>
      rw [Frames.events, Frames.events, List.filterMap_append, inner.filterMap_events, ih]

end agree

/-- Whatever the programs write, `parse_logs` returns the payloads of the given program, and `getEvents`
the votes among them. -/
theorem parse_logs_exact {T D : Type} {deserialize : Line → Option T} {vote : T → Option D}
    {decode : Line → Option (String × D)} {eventName : String}
    (agree : ∀ payload, (deserialize payload).bind vote = named decode eventName payload) (programId : Line)
    (frames : Frames) :
    parseLogs deserialize programId frames.render = .ok (frames.events deserialize programId) ∧
      getEvents decode eventName programId frames.render =
        (frames.events deserialize programId).filterMap vote := by
  refine ⟨parseLogs_frames frames, ?_⟩
  rw [getEvents, Reader.frames, List.nil_append, frames.filterMap_events, funext agree]

namespace ForgedFrame

def one : Numeral := ⟨['1'], by simp, by simp [Char.isDigit]⟩

def mootvote : Base58 := ⟨['M'], by simp, by simp; decide⟩

def foreign : Base58 := ⟨['F'], by simp, by simp; decide⟩

def frames : Frames :=
  .frame foreign one
    (.line (.log (invokeLine mootvote one)) <| .line (.data ['a']) <| .line (.log (successLine mootvote)) <|
      .frame mootvote one (.line (.data ['b']) .nil) <| .line (.data ['c']) .nil) .nil

theorem parse_logs_exact_forged :
    parseLogs some mootvote.chars frames.render = .ok [['b']] ∧
      getEvents (fun payload => some ("voteEvent", payload)) "voteEvent" mootvote.chars frames.render = [['b']] :=
  @parse_logs_exact Line Line some some _ _ (fun payload => by simp [named]) mootvote.chars frames

end ForgedFrame

end Mootvote.Indexer
