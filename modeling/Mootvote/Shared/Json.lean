import Mootvote.Shared.JsonText

set_option autoImplicit false

/-!
# JSON

The tree, its text and the parser. How a number is written is a parameter.
-/

namespace Shared

inductive Json (N : Type) where
  | null
  | bool (b : Bool)
  | number (n : N)
  | string (s : Text)
  | array (elements : List (Json N))
  | object (members : List (Text × Json N))
deriving Inhabited

namespace Json

def numberUnit (c : UInt16) : Bool := c ∈ ascii "0123456789+-.eE"

/-- `Number::toString` and its inverse, on the numbers that the text keeps. -/
structure NumberText (N : Type) where
  kept : N → Prop
  write : N → Text
  read : Text → Option N
  nonempty : ∀ n, kept n → write n ≠ []
  units : ∀ n, kept n → ∀ c ∈ write n, numberUnit c
  read_write : ∀ n, kept n → read (write n) = some n

section properties

variable {V : Type}

-- The array index that a key is.
def index (key : Text) : Option Nat :=
  match ofDecimal key with
  | some i => if decimal i = key ∧ i < 2 ^ 32 - 1 then some i else none
  | none => none

/-- Array indices come first and in order, other keys as they were created. -/
def Precedes (key earlier : Text) : Prop :=
  match index key, index earlier with
  | some i, some j => i < j
  | some _, none => True
  | none, _ => False

instance (key earlier : Text) : Decidable (Precedes key earlier) := by
  unfold Precedes
  split <;> infer_instance

def define (key : Text) (value : V) : List (Text × V) → List (Text × V)
  | [] => [(key, value)]
  | (k, v) :: ps =>
      if k = key then (key, value) :: ps
      else if Precedes key k then (key, value) :: (k, v) :: ps
      else (k, v) :: define key value ps

def create (ps : List (Text × V)) : List (Text × V) := ps.foldl (fun ps p => define p.1 p.2 ps) []

def OwnOrder (keys : List Text) : Prop := keys.Pairwise fun k k' => k ≠ k' ∧ ¬ Precedes k' k

instance (keys : List Text) : Decidable (OwnOrder keys) := inferInstanceAs (Decidable (List.Pairwise _ _))

theorem define_last {key : Text} {value : V} {ps : List (Text × V)}
    (last : ∀ p ∈ ps, p.1 ≠ key ∧ ¬ Precedes key p.1) : define key value ps = ps ++ [(key, value)] := by
  induction ps with
  | nil => rfl
  | cons p ps ih =>
      obtain ⟨new, after⟩ := last p List.mem_cons_self
      rw [define, if_neg new, if_neg after, ih fun p here => last p (List.mem_cons_of_mem _ here),
        List.cons_append]

theorem create_ordered {ps : List (Text × V)} (ordered : OwnOrder (ps.map Prod.fst)) : create ps = ps := by
  have grows (front back : List (Text × V)) (ordered : OwnOrder ((front ++ back).map Prod.fst)) :
      back.foldl (fun ps p => define p.1 p.2 ps) front = front ++ back := by
    induction back generalizing front with
    | nil => exact (List.append_nil front).symm
    | cons p back ih =>
        have last : ∀ q ∈ front, q.1 ≠ p.1 ∧ ¬ Precedes p.1 q.1 := fun q here => by
          rw [OwnOrder, List.map_append, List.pairwise_append] at ordered
          exact ordered.2.2 q.1 (List.mem_map_of_mem here) p.1 List.mem_cons_self
        rw [List.foldl_cons, define_last last, ih _ (by rwa [List.append_assoc]), List.append_assoc]
        rfl
  exact grows [] ps ordered

end properties

section print

variable {N : Type} (numbers : NumberText N)

def commas (ts : List Text) : Text := [unit ','].intercalate ts

mutual

def print : Json N → Text
  | .null => ascii "null"
  | .bool true => ascii "true"
  | .bool false => ascii "false"
  | .number n => numbers.write n
  | .string s => quote s
  | .array js => unit '[' :: commas (printElements js) ++ [unit ']']
  | .object ms => unit '\x7b' :: commas (printMembers ms) ++ [unit '\x7d']

def printElements : List (Json N) → List Text
  | [] => []
  | j :: js => print j :: printElements js

def printMembers : List (Text × Json N) → List Text
  | [] => []
  | (k, j) :: ms => (quote k ++ unit ':' :: print j) :: printMembers ms

end

end print

section parse

abbrev Parser (A : Type) := Text → Option (A × Text)

def white (c : UInt16) : Bool := c ∈ ascii " \t\n\r"

def skip (t : Text) : Text := t.dropWhile white

variable {A N : Type}

-- A token of one unit.
def token (c : UInt16) (t : Text) : Option Text :=
  match skip t with
  | [] => none
  | d :: t => if d = c then some t else none

def items (item : Parser A) (close : UInt16) : Nat → Parser (List A)
  | 0, _ => none
  | fuel + 1, t => do
      let (a, t) ← item t
      match token (unit ',') t with
      | some t => (items item close fuel t).map fun (as, t) => (a :: as, t)
      | none => (token close t).map fun t => ([a], t)

def list (item : Parser A) (close : UInt16) (fuel : Nat) : Parser (List A) := fun t =>
  match token close t with
  | some t => some ([], t)
  | none => items item close fuel t

def member (value : Parser A) : Parser (Text × A) := fun t => do
  let t ← token (unit '"') t
  let (key, t) ← unquote t
  let t ← token (unit ':') t
  (value t).map fun (a, t) => ((key, a), t)

variable (numbers : NumberText N)

def literals : List (Text × Json N) :=
  [(ascii "null", .null), (ascii "true", .bool true), (ascii "false", .bool false)]

def scalar : Parser (Json N) := fun t =>
  match literals.find? fun l => l.1.isPrefixOf t with
  | some (l, j) => some (j, t.drop l.length)
  | none => (numbers.read (t.takeWhile numberUnit)).map fun n => (.number n, t.dropWhile numberUnit)

def value : Nat → Parser (Json N)
  | 0, _ => none
  | fuel + 1, t =>
      match skip t with
      | [] => none
      | c :: t =>
          if c = unit '"' then (unquote t).map fun (s, t) => (.string s, t)
          else if c = unit '[' then
            (list (value fuel) (unit ']') fuel t).map fun (js, t) => (.array js, t)
          else if c = unit '\x7b' then
            (list (member (value fuel)) (unit '\x7d') fuel t).map fun (ms, t) => (.object (create ms), t)
          else scalar numbers (c :: t)

def parse (t : Text) : Option (Json N) :=
  match value numbers t.length t with
  | some (j, rest) => if skip rest = [] then some j else none
  | none => none

end parse

section roundTrip

variable {A N : Type}

-- The text does not go on with a number.
def Stops (t : Text) : Prop := ∀ c ∈ t.head?, numberUnit c = false

theorem skip_cons {c : UInt16} (visible : white c = false) (t : Text) : skip (c :: t) = c :: t := by
  rw [skip, List.dropWhile_cons_of_neg (by rw [visible]; exact Bool.false_ne_true)]

theorem token_cons {c : UInt16} (visible : white c = false) (t : Text) : token c (c :: t) = some t := by
  rw [token, skip_cons visible]
  exact if_pos rfl

theorem token_other {c d : UInt16} (visible : white d = false) (other : d ≠ c) (t : Text) :
    token c (d :: t) = none := by
  rw [token, skip_cons visible]
  exact if_neg other

theorem commas_cons (t t' : Text) (ts : List Text) :
    commas (t :: t' :: ts) = t ++ unit ',' :: commas (t' :: ts) := by
  rw [commas, List.intercalate_cons_cons, List.append_assoc]
  rfl

variable {item : Parser A} {close : UInt16} {write : A → Text} {as : List A}

theorem items_commas (visible : white close = false) (notComma : close ≠ unit ',')
    (notNumber : numberUnit close = false) (nonempty : as ≠ [])
    (reads : ∀ a ∈ as, ∀ t, Stops t → item (write a ++ t) = some (a, t)) {fuel : Nat}
    (enough : as.length ≤ fuel)
    (t : Text) : items item close fuel (commas (as.map write) ++ close :: t) = some (as, t) := by
  induction as generalizing fuel with
  | nil => exact absurd rfl nonempty
  | cons a as ih =>
      obtain ⟨fuel, rfl⟩ : ∃ fuel', fuel = fuel' + 1 := Nat.exists_eq_add_one_of_ne_zero (by
        rw [List.length_cons] at enough
        omega)
      have stops {d : UInt16} (notNumber : numberUnit d = false) (t : Text) : Stops (d :: t) := by
        rintro c ⟨⟩
        exact notNumber
      cases as with
      | nil =>
          have read := reads a List.mem_cons_self (close :: t) (stops notNumber t)
          rw [List.map_singleton, commas, List.intercalate_singleton, items, read, Option.bind_eq_bind,
            Option.bind_some]
          dsimp only
          rw [token_other visible notComma, token_cons visible]
          rfl
      | cons a' as =>
          have fewer : (a' :: as).length ≤ fuel := Nat.le_of_succ_le_succ enough
          have rest := ih (List.cons_ne_nil a' as) (fun a here => reads a (List.mem_cons_of_mem _ here)) fewer
          have read := reads a List.mem_cons_self _
            (stops (d := unit ',') (by decide) (commas ((a' :: as).map write) ++ close :: t))
          rw [List.map_cons, List.map_cons, commas_cons, List.append_assoc, List.cons_append, items,
            ← List.map_cons,
            read, Option.bind_eq_bind, Option.bind_some]
          dsimp only
          rw [token_cons (by decide)]
          dsimp only
          rw [rest]
          rfl

theorem list_commas (visible : white close = false) (notComma : close ≠ unit ',')
    (notNumber : numberUnit close = false) (opens : ∀ a ∈ as, ∀ t, token close (write a ++ t) = none)
    (reads : ∀ a ∈ as, ∀ t, Stops t → item (write a ++ t) = some (a, t)) {fuel : Nat}
    (enough : as.length ≤ fuel)
    (t : Text) : list item close fuel (commas (as.map write) ++ close :: t) = some (as, t) := by
  cases as with
  | nil =>
      rw [List.map_nil, commas, List.intercalate_nil, List.nil_append, list, token_cons visible]
  | cons a as =>
      have first : token close (commas ((a :: as).map write) ++ close :: t) = none := by
        cases as with
        | nil =>
            rw [List.map_singleton, commas, List.intercalate_singleton]
            exact opens a List.mem_cons_self _
        | cons a' as =>
            rw [List.map_cons, List.map_cons, commas_cons, List.append_assoc]
            exact opens a List.mem_cons_self _
      rw [list, first]
      exact items_commas visible notComma notNumber (List.cons_ne_nil a as) reads enough t

theorem length_le_commas (ts : List Text) : ts.length ≤ (commas ts).length + 1 := by
  induction ts with
  | nil => exact Nat.zero_le _
  | cons t ts ih =>
      cases ts with
      | nil => exact Nat.succ_le_succ (Nat.zero_le _)
      | cons t' ts =>
          rw [commas_cons, List.length_append, List.length_cons, List.length_cons (a := unit ',')]
          omega

theorem mem_le_commas {t : Text} {ts : List Text} (here : t ∈ ts) : t.length ≤ (commas ts).length := by
  induction ts with
  | nil => cases here
  | cons t₁ ts ih =>
      cases ts with
      | nil =>
          have single : commas [t₁] = t₁ := List.intercalate_singleton
          exact Nat.le_of_eq (congrArg List.length ((List.mem_singleton.1 here).trans single.symm))
      | cons t₂ ts =>
          rw [commas_cons, List.length_append, List.length_cons]
          rcases List.mem_cons.1 here with rfl | later
          · omega
          · have below := ih later
            omega

variable (numbers : NumberText N)

theorem printElements_eq (js : List (Json N)) : printElements numbers js = js.map (print numbers) := by
  induction js with
  | nil => rfl
  | cons j js ih => rw [printElements, ih, List.map_cons]

theorem printMembers_eq (ms : List (Text × Json N)) :
    printMembers numbers ms = ms.map fun m => quote m.1 ++ unit ':' :: print numbers m.2 := by
  induction ms with
  | nil => rfl
  | cons m ms ih => rw [printMembers, ih, List.map_cons]

inductive Kept : Json N → Prop where
  | null : Kept .null
  | bool (b : Bool) : Kept (.bool b)
  | number {n : N} (kept : numbers.kept n) : Kept (.number n)
  | string (s : Text) : Kept (.string s)
  | array {js : List (Json N)} (kept : ∀ j ∈ js, Kept j) : Kept (.array js)
  | object {ms : List (Text × Json N)} (ordered : OwnOrder (ms.map Prod.fst)) (kept : ∀ m ∈ ms, Kept m.2) :
      Kept (.object ms)

variable {numbers} {j : Json N}

theorem numberUnit_facts {c : UInt16} (isNumber : numberUnit c) :
    white c = false ∧ c ≠ unit ']' ∧ c ≠ unit '"' ∧ c ≠ unit '[' ∧ c ≠ unit '\x7b' ∧ c ≠ unit 'n' ∧ c ≠ unit 't' ∧
      c ≠ unit 'f' := by
  have all : (ascii "0123456789+-.eE").all fun c =>
      white c = false ∧ c ≠ unit ']' ∧ c ≠ unit '"' ∧ c ≠ unit '[' ∧ c ≠ unit '\x7b' ∧ c ≠ unit 'n' ∧ c ≠ unit 't' ∧
        c ≠ unit 'f' := by decide
  exact of_decide_eq_true (List.all_eq_true.1 all c (of_decide_eq_true isNumber))

theorem print_opens (kept : Kept numbers j) :
    ∃ c t, print numbers j = c :: t ∧ white c = false ∧ c ≠ unit ']' := by
  cases kept with
  | null => exact ⟨unit 'n', ascii "ull", rfl, by decide, by decide⟩
  | bool b =>
      cases b with
      | true => exact ⟨unit 't', ascii "rue", rfl, by decide, by decide⟩
      | false => exact ⟨unit 'f', ascii "alse", rfl, by decide, by decide⟩
  | @number n kept =>
      cases written : numbers.write n with
      | nil => exact absurd written (numbers.nonempty n kept)
      | cons c t =>
          have facts := numberUnit_facts (numbers.units n kept c (written ▸ List.mem_cons_self))
          exact ⟨c, t, written, facts.1, facts.2.1⟩
  | string s => exact ⟨unit '"', _, rfl, by decide, by decide⟩
  | array kept => exact ⟨unit '[', _, rfl, by decide, by decide⟩
  | object ordered kept => exact ⟨unit '\x7b', _, rfl, by decide, by decide⟩

theorem scalar_number {n : N} (kept : numbers.kept n) {t : Text} (stops : Stops t) :
    scalar numbers (numbers.write n ++ t) = some (.number n, t) := by
  have units := numbers.units n kept
  have stopped : t.takeWhile numberUnit = [] ∧ t.dropWhile numberUnit = t := by
    cases t with
    | nil => exact ⟨rfl, rfl⟩
    | cons c t =>
        have other := stops c rfl
        exact ⟨List.takeWhile_cons_of_neg (by simp [other]), List.dropWhile_cons_of_neg (by simp [other])⟩
  have noLiteral : (literals (N := N)).find? (fun l => l.1.isPrefixOf (numbers.write n ++ t)) = none := by
    cases written : numbers.write n with
    | nil => exact absurd written (numbers.nonempty n kept)
    | cons c u =>
        obtain ⟨-, -, -, -, -, notNull, notTrue, notFalse⟩ :=
          numberUnit_facts (units c (written ▸ List.mem_cons_self))
        rw [List.find?_eq_none]
        intro l listed isPrefix
        have start := List.isPrefixOf_iff_prefix.1 isPrefix
        simp only [literals, List.mem_cons, List.not_mem_nil, or_false] at listed
        rcases listed with rfl | rfl | rfl
        · exact notNull (List.cons_prefix_cons.1 start).1.symm
        · exact notTrue (List.cons_prefix_cons.1 start).1.symm
        · exact notFalse (List.cons_prefix_cons.1 start).1.symm
  rw [scalar, noLiteral]
  dsimp only
  rw [List.takeWhile_append_of_pos units, List.dropWhile_append_of_pos units, stopped.1, stopped.2,
    List.append_nil,
    numbers.read_write n kept]
  rfl

theorem value_quote (fuel : Nat) (s t : Text) :
    value numbers (fuel + 1) (quote s ++ t) = some (.string s, t) := by
  rw [quote, List.cons_append, List.cons_append, List.append_assoc, value, skip_cons (by decide)]
  refine (if_pos rfl).trans ?_
  rw [List.singleton_append, unquote_quoteUnits]
  rfl

theorem member_print {value : Parser (Json N)} {m : Text × Json N} {t : Text}
    (read : value (print numbers m.2 ++ t) = some (m.2, t)) :
    member value (quote m.1 ++ unit ':' :: print numbers m.2 ++ t) = some (m, t) := by
  rw [quote, List.append_assoc, List.cons_append, List.cons_append, List.append_assoc, List.singleton_append,
    List.cons_append, member, token_cons (by decide)]
  simp only [Option.bind_eq_bind, Option.bind_some, unquote_quoteUnits,
    token_cons (c := unit ':') (by decide), read,
    Option.map_some]

theorem value_array {fuel : Nat} {js : List (Json N)} {t u : Text}
    (read : list (value numbers fuel) (unit ']') fuel t = some (js, u)) :
    value numbers (fuel + 1) (unit '[' :: t) = some (.array js, u) := by
  rw [value, skip_cons (by decide)]
  refine (if_neg (by decide)).trans ((if_pos rfl).trans ?_)
  rw [read]
  rfl

theorem value_object {fuel : Nat} {ms : List (Text × Json N)} {t u : Text}
    (read : list (member (value numbers fuel)) (unit '\x7d') fuel t = some (ms, u)) :
    value numbers (fuel + 1) (unit '\x7b' :: t) = some (.object (create ms), u) := by
  rw [value, skip_cons (by decide)]
  refine (if_neg (by decide)).trans ((if_neg (by decide)).trans ((if_pos rfl).trans ?_))
  rw [read]
  rfl

theorem value_scalar {c : UInt16} (visible : white c = false) (noString : c ≠ unit '"') (noArray : c ≠ unit '[')
    (noObject : c ≠ unit '\x7b') (fuel : Nat) (t : Text) :
    value numbers (fuel + 1) (c :: t) = scalar numbers (c :: t) := by
  rw [value, skip_cons visible]
  exact (if_neg noString).trans ((if_neg noArray).trans (if_neg noObject))

theorem fuel_succ (kept : Kept numbers j) {fuel : Nat} (enough : (print numbers j).length ≤ fuel) :
    ∃ fuel', fuel = fuel' + 1 := by
  obtain ⟨c, t, opens, -⟩ := print_opens kept
  rw [opens, List.length_cons] at enough
  exact Nat.exists_eq_add_one_of_ne_zero (by omega)

theorem value_print (kept : Kept numbers j) {fuel : Nat} (enough : (print numbers j).length ≤ fuel) {t : Text}
    (stops : Stops t) : value numbers fuel (print numbers j ++ t) = some (j, t) := by
  induction kept generalizing fuel t with
  | null =>
      obtain ⟨fuel, rfl⟩ := fuel_succ .null enough
      exact value_scalar (by decide) (by decide) (by decide) (by decide) fuel _
  | bool b =>
      obtain ⟨fuel, rfl⟩ := fuel_succ (.bool b) enough
      cases b with
      | true => exact value_scalar (by decide) (by decide) (by decide) (by decide) fuel _
      | false => exact value_scalar (by decide) (by decide) (by decide) (by decide) fuel _
  | @number n kept =>
      obtain ⟨fuel, rfl⟩ := fuel_succ (.number kept) enough
      have scalar := scalar_number kept stops
      rw [print]
      cases written : numbers.write n with
      | nil => exact absurd written (numbers.nonempty n kept)
      | cons c u =>
          obtain ⟨visible, -, noString, noArray, noObject, -⟩ :=
            numberUnit_facts (numbers.units n kept c (written ▸ List.mem_cons_self))
          rw [written] at scalar
          rw [List.cons_append, value_scalar visible noString noArray noObject]
          exact scalar
  | string s =>
      obtain ⟨fuel, rfl⟩ := fuel_succ (.string s) enough
      rw [print, value_quote]
  | @array js kept ih =>
      obtain ⟨fuel, rfl⟩ := fuel_succ (.array kept) enough
      rw [print, printElements_eq, List.length_append, List.length_cons, List.length_singleton] at enough
      rw [print, printElements_eq, List.cons_append, List.cons_append, List.append_assoc,
        List.singleton_append]
      refine value_array (list_commas (by decide) (by decide) (by decide) ?_ ?_ ?_ t)
      · intro j here u
        obtain ⟨c, v, opens, visible, notClose⟩ := print_opens (kept j here)
        rw [opens]
        exact token_other visible notClose _
      · intro j here u stops
        have shorter := mem_le_commas (List.mem_map_of_mem (f := print numbers) here)
        exact ih j here (by omega) stops
      · have fewer := length_le_commas (js.map (print numbers))
        rw [List.length_map] at fewer
        omega
  | @object ms ordered kept ih =>
      obtain ⟨fuel, rfl⟩ := fuel_succ (.object ordered kept) enough
      rw [print, printMembers_eq, List.length_append, List.length_cons, List.length_singleton] at enough
      rw [print, printMembers_eq, List.cons_append, List.cons_append, List.append_assoc,
        List.singleton_append]
      have read : list (member (value numbers fuel)) (unit '\x7d') fuel
          (commas (ms.map fun m => quote m.1 ++ unit ':' :: print numbers m.2) ++ unit '\x7d' :: t) =
            some (ms, t) := by
        refine list_commas (by decide) (by decide) (by decide) ?_ ?_ ?_ t
        · intro m here u
          exact token_other (by decide) (by decide) _
        · intro m here u stops
          have shorter := mem_le_commas
            (List.mem_map_of_mem (f := fun m => quote m.1 ++ unit ':' :: print numbers m.2) here)
          rw [List.length_append, List.length_cons] at shorter
          exact member_print (ih m here (by omega) stops)
        · have fewer := length_le_commas (ms.map fun m => quote m.1 ++ unit ':' :: print numbers m.2)
          rw [List.length_map] at fewer
          omega
      rw [value_object read, create_ordered ordered]

/-- `JSON.parse` reads what `JSON.stringify` wrote. -/
theorem parse_print (kept : Kept numbers j) : parse numbers (print numbers j) = some j := by
  have read := value_print kept (Nat.le_refl _) (t := []) (by rintro c ⟨⟩)
  rw [List.append_nil] at read
  rw [parse, read]
  exact if_pos rfl

end roundTrip

end Json

end Shared
