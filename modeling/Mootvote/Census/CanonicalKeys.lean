import Mootvote.Census.Membership

set_option autoImplicit false

/-!
# Keys below the modulus

The service checks a signature under the residues of a key's coordinates and stores their bytes.
-/

namespace Mootvote.Census

open Shared

section canonical

def Canonical (w : Word) : Prop := w.toNat < scalarModulus

def BjjActor.Canonical (actor : BjjActor) : Prop := Census.Canonical actor.pubX ∧ Census.Canonical actor.pubY

theorem toFr_of_canonical {w : Word} (canonical : Canonical w) : Word.toFr w = some (Word.reduce w) :=
  if_pos canonical

theorem Canonical.reduce_inj {w w' : Word} (left : Canonical w) (right : Canonical w')
    (same : Word.reduce w = Word.reduce w') : w = w' := by
  rw [Word.toFr_eq_some_iff.1 (toFr_of_canonical left), same]
  exact (Word.toFr_eq_some_iff.1 (toFr_of_canonical right)).symm

def SamePoint (r r' : MemberRow) : Prop :=
  r.censusId = r'.censusId ∧ ∃ x y x' y', r.pubX = some x ∧ r.pubY = some y ∧ r'.pubX = some x' ∧
    r'.pubY = some y' ∧
    Word.reduce x = Word.reduce x' ∧ Word.reduce y = Word.reduce y'

def MemberRow.Stores (r : MemberRow) (w : Word) : Prop := r.pubX = some w ∨ r.pubY = some w

def leaf (env : Env) (r : MemberRow) : Word :=
  Word.ofFr (env.poseidon [Word.reduce (r.pubX.getD 0), Word.reduce (r.pubY.getD 0)])

/-- Distinct points with coordinates below the modulus, which can be exported. -/
structure CanonicalMembers (env : Env) (db : Db) : Prop where
  points : db.members.Pairwise fun r r' => ¬SamePoint r r'
  below : ∀ r ∈ db.members, ∀ w, r.Stores w → Canonical w
  exported : ∀ before actor censusId, exportCensus env before db actor censusId =
    (checkCreator before actor censusId "only creator can export").map fun _ =>
      ((db.joinedRows censusId).map (leaf env)).flatMap Word.bytes

structure CanonicalCreators (db : Db) : Prop where
  below : ∀ c ∈ db.censuses, Canonical c.creatorX ∧ Canonical c.creatorY

theorem exportLeaf_of_canonical {env : Env} {r : MemberRow} (joined : r.pubX.isSome ∧ r.pubY.isSome)
    (below : ∀ w, r.Stores w → Canonical w) :
    exportLeaf env r = .ok (leaf env r) := by
  obtain ⟨x, pubX⟩ := Option.isSome_iff_exists.1 joined.1
  obtain ⟨y, pubY⟩ := Option.isSome_iff_exists.1 joined.2
  have inputs : Word.toFrs [x, y] = some [Word.reduce x, Word.reduce y] := by
    simp [Word.toFrs, toFr_of_canonical (below x (.inl pubX)), toFr_of_canonical (below y (.inr pubY))]
  simp only [exportLeaf, leaf, pubX, pubY, poseidonHash, inputs, Option.getD_some]

theorem mapM_ok {A B : Type} {f : A → Response B} {g : A → B} {xs : List A} (ok : ∀ x ∈ xs, f x = .ok (g x)) :
    xs.mapM f = .ok (xs.map g) := by
  induction xs with
  | nil => rfl
  | cons x xs ih =>
      rw [List.mapM_cons, ok x (by simp), ih fun y member => ok y (by simp [member])]
      rfl

theorem canonicalMembers_of_below {env : Env} {db : Db} (keys : db.members.Pairwise fun r r' => ¬SameKey r r')
    (below : ∀ r ∈ db.members, ∀ w, r.Stores w → Canonical w) : CanonicalMembers env db where
  points := by
    refine keys.imp_of_mem fun {r r'} member member' other => ?_
    rintro ⟨census, x, y, x', y', pubX, pubY, pubX', pubY', sameX, sameY⟩
    have equalX := (below r member x (.inl pubX)).reduce_inj (below r' member' x' (.inl pubX')) sameX
    have equalY := (below r member y (.inr pubY)).reduce_inj (below r' member' y' (.inr pubY')) sameY
    exact other ⟨census, by simp [pubX], by simp [pubY], by rw [pubX, pubX', equalX],
      by rw [pubY, pubY', equalY]⟩
  below := below
  exported before actor censusId := by
    have leaves : (db.joinedRows censusId).mapM (exportLeaf env) =
      .ok ((db.joinedRows censusId).map (leaf env)) := by
      refine mapM_ok fun r member => ?_
      rw [Db.joinedRows, List.mem_insertionSort, List.mem_filter, decide_eq_true_eq] at member
      exact exportLeaf_of_canonical member.2.2 (below r member.1)
    rw [exportCensus, leaves]
    cases checkCreator before actor censusId "only creator can export" <;> rfl

end canonical

section runs

variable {env : Env}

structure Applied (env : Env) where
  before : System env
  act : Act env

structure System.Turn (s : System env) (e : Applied env) (s' : System env) : Prop where
  before : e.before = s
  step : System.Step s e.act s'

def Applied.Claims (e : Applied env) (actor : BjjActor) : Prop :=
  ∃ q censusId memberId text token, e.act = .claimMember q censusId memberId text ∧ actor = q.actor ∧
    parseToken text = .ok token ∧ (∃ r ∈ e.before.db.members, Claimable memberId censusId token r) ∧
    (e.before.db.updateMember q.actor memberId censusId token).isSome

def Applied.Creates (e : Applied env) (actor : BjjActor) : Prop :=
  ∃ i q census rows, e.act = .createCommit i ∧ e.before.calls i = some (.creating q census rows []) ∧
    actor = q.actor

theorem consistent_of_turns {s : System env} {es : List (Applied env)}
    (run : Steps System.Turn System.fresh es s) : Consistent s :=
  run.invariant (I := fun _ s => Consistent s) .fresh fun _ _ _ _ _ consistent turn =>
    consistent.step turn.step

theorem claimMember_of_refused {db : Db} {actor : BjjActor} {censusId memberId : Int} {text : List Char}
    {token : Word} (parsed : parseToken text = .ok token)
    (refused : db.updateMember actor memberId censusId token = none) :
    (claimMember db actor censusId memberId text).2 = db := by
  simp only [claimMember, parsed, refused]

theorem System.Turn.claims {s s' : System env} {e : Applied env} {q : Request env} {r : MemberRow}
    {text : List Char}
    {token : Word} (turn : System.Turn s e s') (consistent : Consistent s)
    (act : e.act = .claimMember q r.censusId r.id text) (parsed : parseToken text = .ok token)
    (stored : r ∈ s.db.members) (invited : r.Invited) (invite : r.invite = some token)
    (joins : r.join q.actor ∈ s'.db.members) : e.Claims q.actor := by
  have claimable : Claimable r.id r.censusId token r := ⟨rfl, rfl, invite, invited.2.1⟩
  have same := turn.before
  refine ⟨q, r.censusId, r.id, text, token, act, rfl, parsed, ⟨r, same ▸ stored, claimable⟩, ?_⟩
  rw [same]
  cases updated : s.db.updateMember q.actor r.id r.censusId token with
  | some => rfl
  | none =>
      have step := turn.step
      rw [act] at step
      cases step
      change r.join q.actor ∈ (claimMember s.db q.actor r.censusId r.id text).2.members at joins
      rw [claimMember_of_refused parsed updated] at joins
      have unchanged : r.join q.actor = r := consistent.constraints.same_row stored joins rfl
      exact absurd invited (unchanged ▸ r.joined_join q.actor).not_invited

theorem System.Turn.members_below {s s' : System env} {e : Applied env} (turn : System.Turn s e s')
    (consistent : Consistent s) (canonical : ∀ actor, e.Claims actor → actor.Canonical)
    (below : ∀ r ∈ s.db.members, ∀ w, r.Stores w → Canonical w) :
    ∀ r ∈ s'.db.members, ∀ w, r.Stores w → Canonical w := by
  have authorised := consistent.authorised turn.step
  intro r member w stores
  by_cases known : ∃ r₀ ∈ s.db.members, r₀.id = r.id
  · obtain ⟨r₀, stored, same⟩ := known
    rcases authorised.changes r₀ stored r member same.symm with
      rfl | ⟨invited, _, q, text, token, act, parsed, invite, rfl⟩
    · exact below _ stored w stores
    · have key := canonical q.actor (turn.claims consistent act parsed stored invited invite member)
      rcases stores with pubX | pubY
      · cases pubX
        exact key.1
      · cases pubY
        exact key.2
  · have invited := (authorised.appears r member fun r₀ stored same => known ⟨r₀, stored, same⟩).1
    rcases stores with pubX | pubY
    · rw [invited.2.1] at pubX
      cases pubX
    · rw [invited.2.2] at pubY
      cases pubY

theorem System.Turn.stores {s s' : System env} {e : Applied env} {actor : BjjActor}
    (turn : System.Turn s e s')
    (claims : e.Claims actor) : ∃ r ∈ s'.db.members, r.Stores actor.pubX ∧ r.Stores actor.pubY := by
  obtain ⟨q, censusId, memberId, text, token, act, rfl, parsed, ⟨r, stored, claimable⟩, updated⟩ := claims
  obtain ⟨db, updated⟩ := Option.isSome_iff_exists.1 updated
  have step := turn.step
  rw [turn.before] at stored updated
  rw [act] at step
  cases step
  refine ⟨r.join q.actor, ?_, .inl rfl, .inr rfl⟩
  change _ ∈ (claimMember s.db q.actor censusId memberId text).2.members
  rw [claimMember_of_updated parsed updated]
  obtain ⟨rfl, _⟩ := Db.checked_eq_some updated
  exact mem_update.2 ⟨r, stored, .inl ⟨claimable, rfl⟩⟩

theorem members_below_of_run {s : System env} {es : List (Applied env)}
    (run : Steps System.Turn System.fresh es s)
    (canonical : ∀ e ∈ es, ∀ actor, e.Claims actor → actor.Canonical) :
    ∀ r ∈ s.db.members, ∀ w, r.Stores w → Canonical w := by
  have both := run.invariant (I := fun _ s => Consistent s ∧
    ∀ r ∈ s.db.members, ∀ w, r.Stores w → Canonical w)
    ⟨.fresh, by simp [System.fresh]⟩ fun _ _ e _ member ⟨consistent, below⟩ turn =>
      ⟨consistent.step turn.step, turn.members_below consistent (canonical e member) below⟩
  exact both.2

theorem System.Turn.creators_below {s s' : System env} {e : Applied env} (turn : System.Turn s e s')
    (canonical : ∀ actor, e.Creates actor → actor.Canonical) (consistent : Consistent s)
    (below : CanonicalCreators s.db) : CanonicalCreators s'.db := by
  obtain ⟨same, step⟩ := turn
  generalize shown : e.act = act at step
  cases step with
  | @createCommit i q census rows db waits inserted =>
      obtain ⟨creatorX, creatorY, _⟩ := consistent.entitled i _ waits
      have key := canonical q.actor ⟨i, q, census, rows, shown, same ▸ waits, rfl⟩
      obtain ⟨rfl, _⟩ := Db.checked_eq_some inserted
      refine ⟨fun c member => ?_⟩
      rcases List.mem_append.1 member with old | new
      · exact below.below c old
      · rw [List.mem_singleton.1 new, creatorX, creatorY]
        exact key
  | insertMember waits inserted =>
      obtain ⟨rfl, _⟩ := Db.checked_eq_some inserted
      exact ⟨below.below⟩
  | claimMember q censusId memberId text =>
      rcases claimMember_cases s.db q.actor censusId memberId text with same | ⟨token, db, _, updated, same⟩
      · rw [same]
        exact below
      · obtain ⟨rfl, _⟩ := Db.checked_eq_some updated
        rw [same]
        exact ⟨below.below⟩
  | _ => exact ⟨below.below⟩

theorem creators_below_of_run {s : System env} {es : List (Applied env)}
    (run : Steps System.Turn System.fresh es s)
    (canonical : ∀ e ∈ es, ∀ actor, e.Creates actor → actor.Canonical) : CanonicalCreators s.db := by
  have both := run.invariant (I := fun _ s => Consistent s ∧ CanonicalCreators s.db)
    ⟨.fresh, ⟨by simp [System.fresh]⟩⟩ fun _ _ e _ member ⟨consistent, below⟩ turn =>
      ⟨consistent.step turn.step, turn.creators_below (canonical e member) consistent below⟩
  exact both.2

theorem System.Turn.creates {s s' : System env} {e : Applied env} {actor : BjjActor}
    (turn : System.Turn s e s')
    (consistent : Consistent s) (creates : e.Creates actor) :
    ∃ c ∈ s'.db.censuses, c.creatorX = actor.pubX ∧ c.creatorY = actor.pubY := by
  obtain ⟨i, q, census, rows, act, waits, rfl⟩ := creates
  obtain ⟨same, step⟩ := turn
  rw [act] at step
  rw [same] at waits
  cases step with
  | createCommit waits' inserted =>
      rw [waits] at waits'
      cases waits'
      obtain ⟨rfl, _⟩ := Db.checked_eq_some inserted
      obtain ⟨creatorX, creatorY, _⟩ := consistent.entitled i _ waits
      exact ⟨census, List.mem_append_right _ (by simp), creatorX, creatorY⟩

theorem turn_of_mem {s s' : System env} {es : List (Applied env)} {e : Applied env}
    (run : Steps System.Turn s es s') (member : e ∈ es) :
    ∃ past mid mid', past ++ [e] <+: es ∧ Steps System.Turn s past mid ∧ System.Turn mid e mid' ∧
      Steps System.Turn s (past ++ [e]) mid' := by
  obtain ⟨past, later, rfl⟩ := List.append_of_mem member
  obtain ⟨mid, before, rest⟩ := Steps.append_iff.1 run
  obtain ⟨mid', turn, _⟩ := Steps.cons_iff.1 rest
  exact ⟨past, mid, mid', ⟨later, by simp⟩, before, turn, before.snoc turn⟩

/-- The members of every census can be exported, under distinct points, in all states of a run if and only if
no claim stores a coordinate from the modulus on, and likewise for the creators. -/
theorem census_canonical_iff {s : System env} {es : List (Applied env)}
    (run : Steps System.Turn System.fresh es s) :
    ((∀ past mid, past <+: es → Steps System.Turn System.fresh past mid → CanonicalMembers env mid.db) ↔
      ∀ e ∈ es, ∀ actor, e.Claims actor → actor.Canonical) ∧
    ((∀ past mid, past <+: es → Steps System.Turn System.fresh past mid → CanonicalCreators mid.db) ↔
      ∀ e ∈ es, ∀ actor, e.Creates actor → actor.Canonical) := by
  refine ⟨⟨fun good e member actor claims => ?_, fun canonical past mid inside reached => ?_⟩,
    ⟨fun good e member actor creates => ?_, fun canonical past mid inside reached => ?_⟩⟩
  · obtain ⟨past, mid, mid', inside, _, turn, reached⟩ := turn_of_mem run member
    obtain ⟨r, stored, x, y⟩ := turn.stores claims
    have below := (good _ mid' inside reached).below r stored
    exact ⟨below _ x, below _ y⟩
  · have consistent := consistent_of_turns reached
    exact canonicalMembers_of_below consistent.constraints.keys
      (members_below_of_run reached fun e member => canonical e (inside.subset member))
  · obtain ⟨past, mid, mid', inside, before, turn, reached⟩ := turn_of_mem run member
    obtain ⟨c, stored, x, y⟩ := turn.creates (consistent_of_turns before) creates
    have below := (good _ mid' inside reached).below c stored
    rw [x, y] at below
    exact below
  · exact creators_below_of_run reached fun e member => canonical e (inside.subset member)

end runs

namespace ShiftedKey

open TestVector

theorem turns_of_steps {env : Env} {s s' : System env} {acts : List (Act env)}
    (run : Steps System.Step s acts s') :
    ∃ es, Steps System.Turn s es s' ∧ es.map Applied.act = acts := by
  induction run with
  | nil => exact ⟨[], .nil _, rfl⟩
  | @cons s mid s' act acts first _ ih =>
      obtain ⟨es, rest, same⟩ := ih
      exact ⟨⟨s, act⟩ :: es, .cons ⟨rfl, first⟩ rest, by rw [List.map_cons, same]⟩

theorem census_canonical_iff_claim : ∃ (s : System env) (es : List (Applied env)),
    Steps System.Turn System.fresh es s ∧ es.map Applied.act = TestVector.acts ∧
    ((∀ past mid, past <+: es → Steps System.Turn System.fresh past mid → CanonicalMembers env mid.db) ↔
      ∀ e ∈ es, ∀ actor, e.Claims actor → actor.Canonical) ∧
    ((∀ past mid, past <+: es → Steps System.Turn System.fresh past mid → CanonicalCreators mid.db) ↔
      ∀ e ∈ es, ∀ actor, e.Creates actor → actor.Canonical) := by
  obtain ⟨s, reached, _⟩ := TestVector.run
  obtain ⟨es, turns, same⟩ := turns_of_steps reached
  exact ⟨s, es, turns, same, census_canonical_iff turns⟩

def shifted : Word := BitVec.ofNat 256 (x.toNat + scalarModulus)

theorem toNat_shifted : shifted.toNat = x.toNat + scalarModulus := by
  have small : x.toNat < scalarModulus := by
    rw [x, Word.toNat_ofFr]
    exact ZMod.val_lt _
  have bound := scalarModulus_lt
  rw [shifted, BitVec.toNat_ofNat, Nat.mod_eq_of_lt (by omega)]

theorem reduce_shifted : Word.reduce shifted = Word.reduce x := by
  rw [Word.reduce, toNat_shifted, Nat.cast_add, ZMod.natCast_self, add_zero]
  rfl

theorem ownShifted : (Word.reduce shifted, Word.reduce y) = publicKey := by
  rw [reduce_shifted]
  exact own

def requestShifted : Request env :=
  { now := 0, req := headers shifted y, actor := { pubX := shifted, pubY := y },
    verified := verified ownShifted }

def acts : List (Act env) :=
  [.createCensus 0 request { title := "", description := none, members := none }, .createCommit 0,
    .addMember 0 request 1 "", .insertMember 0 5, .addMember 0 request 1 "", .insertMember 0 6,
    .claimMember request 1 1 (hexEncode (5 : Word).bytes),
      .claimMember requestShifted 1 2 (hexEncode (6 : Word).bytes)]

def first : MemberRow := (invited 1 1 "" 5).join request.actor

def second : MemberRow := (invited 2 1 "" 6).join requestShifted.actor

theorem shifted_ne : shifted ≠ x := by
  intro same
  have numbers := congrArg BitVec.toNat same
  rw [toNat_shifted] at numbers
  have positive : 0 < scalarModulus := by decide
  omega

theorem constraints_pair {r r' : MemberRow} (ids : r.id ≠ r'.id) (own : r.censusId = 1)
    (own' : r'.censusId = 1)
    (invites : r.invite.isSome → r.invite ≠ r'.invite) (keys : ¬SameKey r r') :
    Db.Constraints { censuses := [census], members := [r, r'], nextCensusId := 2, nextMemberId := 3 } := by
  have pair {R : MemberRow → MemberRow → Prop} (related : R r r') : [r, r'].Pairwise R :=
    List.pairwise_pair.2 related
  refine ⟨List.pairwise_singleton _ _, pair ids, fun row member => ⟨census, by simp, ?_⟩,
    pair invites, pair keys⟩
  rcases List.mem_cons.1 member with rfl | last
  · exact own.symm
  · rw [List.mem_singleton.1 last]
    exact own'.symm

theorem run : ∃ s : System env, Steps System.Step System.fresh acts s ∧
    s.db = ⟨[census], [first, second], 2, 3⟩ := by
  have committed := checked_of (constraints_of [] (by simp) (by simp) 2 1)
  have added := checked_of (constraints_of [invited 1 1 "" 5] (by simp) (by simp [invited]) 2 2)
  have both := checked_of (@constraints_pair (invited 1 1 "" 5) (invited 2 1 "" 6) (by decide) rfl rfl
    (fun _ => by decide) (by decide))
  have claimed : Db.updateMember ⟨[census], [invited 1 1 "" 5, invited 2 1 "" 6], 2, 3⟩ request.actor 1 1 5 =
      some ⟨[census], [first, invited 2 1 "" 6], 2, 3⟩ :=
    checked_of (@constraints_pair first (invited 2 1 "" 6) (by decide) rfl rfl (by rintro ⟨⟩) (by decide))
  have claimedAgain : Db.updateMember ⟨[census], [first, invited 2 1 "" 6], 2, 3⟩ requestShifted.actor 2 1 6 =
      some ⟨[census], [first, second], 2, 3⟩ := by
    refine checked_of (@constraints_pair first second (by decide) rfl rfl (by rintro ⟨⟩) ?_)
    rintro ⟨_, _, _, same, _⟩
    exact shifted_ne (Option.some.inj same).symm
  have after := claimMember_of_updated (parseToken_bytes 5) claimed
  refine ⟨_, .cons (.createCensus request _ rfl) <| .cons (.createCommit rfl committed) <|
    .cons (.addMember "" rfl rfl) <| .cons (.insertMember rfl added) <| .cons (.addMember "" rfl rfl) <|
    .cons (.insertMember rfl both) <| .cons (.claimMember request 1 1 _) <|
    .cons (.claimMember requestShifted 1 2 _) (.nil _), ?_⟩
  change (claimMember (claimMember ⟨[census], [invited 1 1 "" 5, invited 2 1 "" 6], 2, 3⟩ request.actor 1 1 _).2
    requestShifted.actor 1 2 _).2 = _
  rw [after]
  exact claimMember_of_updated (parseToken_bytes 6) claimedAgain

/-- Two members with one key, and the export of the census panics. -/
theorem one_point_twice : (∀ n, env.frFromStr (Nat.toDigits 10 n) = some (n : Fr)) ∧
    ∃ s : System env, Steps System.Step System.fresh acts s ∧
      first ∈ s.db.members ∧ second ∈ s.db.members ∧ first ≠ second ∧ SamePoint first second ∧
      second.Stores shifted ∧ ¬Canonical shifted ∧
      checkCreator s.db request.actor 1 "only creator can export" = .ok census ∧
      exportCensus env s.db s.db request.actor 1 = .error .panic := by
  obtain ⟨s, reached, db⟩ := run
  have large : ¬Canonical shifted := by
    rw [Canonical, toNat_shifted]
    omega
  have distinct : first ≠ second := fun same => by
    have ids : first.id = second.id := congrArg MemberRow.id same
    exact absurd ids (by decide)
  have checked : checkCreator s.db request.actor 1 "only creator can export" = .ok census := by
    rw [db]
    rfl
  have rows : s.db.joinedRows 1 = [first, second] := by
    rw [db]
    rfl
  have one : exportLeaf env first = .ok (leaf env first) := by
    have canonical (x : Fr) : Canonical (Word.ofFr x) := by
      rw [Canonical, Word.toNat_ofFr]
      exact ZMod.val_lt x
    refine exportLeaf_of_canonical ⟨rfl, rfl⟩ fun w stores => ?_
    rcases stores with pubX | pubY
    · cases pubX
      exact canonical _
    · cases pubY
      exact canonical _
  have panics : exportLeaf env second = .error .panic := by
    have refused : Word.toFrs [shifted, y] = none := by
      rw [Word.toFrs, List.mapM_cons, show Word.toFr shifted = none from if_neg large]
      rfl
    change poseidonHash env [shifted, y] = .error .panic
    rw [poseidonHash, refused]
  refine ⟨frFromStr_toDigits, s, reached, by simp [db], by simp [db], distinct,
    ⟨rfl, x, y, shifted, y, rfl, rfl, rfl, rfl, reduce_shifted.symm, rfl⟩, .inl rfl, large, checked, ?_⟩
  rw [exportCensus, checked, rows, List.mapM_cons, one, List.mapM_cons, panics]
  rfl

end ShiftedKey

end Mootvote.Census
