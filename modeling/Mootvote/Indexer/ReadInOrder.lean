import Mathlib.Data.List.TakeWhile
import Mootvote.Indexer.SolanaReader

set_option autoImplicit false

namespace Mootvote.Indexer

section windows

variable {Sig : Type}

def EndsAt (cursor : Option Sig) (past : List (Entry Sig)) : Prop :=
  match cursor with
  | none => past = []
  | some signature => past.getLast?.map Entry.signature = some signature

theorem marked_append (finalized : Nat) (xs ys : List (Entry Sig)) :
    marked finalized (xs ++ ys) = marked finalized xs ++ marked (finalized - xs.length) ys := by
  unfold marked
  rw [List.take_append, List.drop_append]
  rcases Nat.le_total finalized xs.length with few | many
  · simp [Nat.sub_eq_zero_of_le few]
  · simp [List.drop_eq_nil_of_le many]

theorem map_signature_marked (finalized : Nat) (xs : List (Entry Sig)) :
    (marked finalized xs).map (·.signature) = xs.map Entry.signature := by
  simp [marked, mark, Function.comp_def]

theorem length_marked (finalized : Nat) (xs : List (Entry Sig)) : (marked finalized xs).length = xs.length := by
  simpa using congrArg List.length (map_signature_marked finalized xs)

theorem getLast_finalized (finalized : Nat) (xs : List (Entry Sig)) :
    ((marked finalized xs).reverse.find? fun e => e.confirmationStatus = .finalized).map (·.signature) =
      (xs.take finalized).getLast?.map Entry.signature := by
  have none' : ((xs.drop finalized).map (mark .confirmed)).reverse.find?
      (fun e => e.confirmationStatus = .finalized) = none := by
    rw [List.find?_eq_none]
    intro e member
    obtain ⟨_, _, rfl⟩ := List.mem_map.1 (List.mem_reverse.1 member)
    simp [mark]
  rw [marked, List.reverse_append, List.find?_append, none', Option.none_or]
  cases (xs.take finalized) using List.reverseRecOn with
  | nil => rfl
  | append_singleton front e => simp [mark]

theorem marked_cons (finalized : Nat) (e : Entry Sig) (xs : List (Entry Sig)) :
    ∃ status, marked finalized (e :: xs) = mark status e :: marked (finalized - 1) xs := by
  cases finalized with
  | zero => exact ⟨.confirmed, by simp [marked]⟩
  | succ finalized => exact ⟨.finalized, by simp [marked]⟩

theorem signature_ne_of_marked {signature : Sig} {finalized : Nat} {xs : List (Entry Sig)}
    (other : signature ∉ xs.map Entry.signature) {e : SignatureStatus Sig} (member : e ∈ marked finalized xs) :
    e.signature ≠ signature := by
  rintro rfl
  rw [← map_signature_marked finalized] at other
  exact other (List.mem_map_of_mem member)

/-- What a round reads is the pending and the fresh transactions; the final ones come first. -/
theorem round_parts {pending fresh older newer : List (Entry Sig)} (window : older ++ newer = pending ++ fresh) :
    ∃ final waiting final' waiting', pending = final ++ waiting ∧ fresh = final' ++ waiting' ∧
      older = final ++ final' ∧ newer = waiting ++ waiting' ∧ (waiting = [] ∨ final' = []) := by
  rcases List.append_eq_append_iff.1 window with ⟨waiting, rfl, rfl⟩ | ⟨final', rfl, rfl⟩
  · exact ⟨older, waiting, [], fresh, rfl, rfl, (List.append_nil _).symm, rfl, .inr rfl⟩
  · exact ⟨pending, [], final', newer, (List.append_nil _).symm, rfl, rfl, rfl, .inl rfl⟩

theorem endsAt_append {cursor : Option Sig} {front back : List (Entry Sig)} (ends : EndsAt cursor front) :
    EndsAt (if (back.getLast?.map Entry.signature).isSome then back.getLast?.map Entry.signature else cursor)
      (front ++ back) := by
  cases back using List.reverseRecOn with
  | nil => simpa using ends
  | append_singleton back e => simp [EndsAt, ← List.append_assoc]

theorem last_distinct {front rest : List (Entry Sig)} {e : Entry Sig}
    (distinct : ((front ++ e :: rest).map Entry.signature).Nodup) : e.signature ∉ front.map Entry.signature := by
  rw [List.map_append, List.nodup_append] at distinct
  exact fun member => distinct.2.2 _ member _ List.mem_cons_self rfl

variable [DecidableEq Sig]

theorem newerThan_cut {A : Type} {signature : A → Sig} {front rest : List A} {e : A} {last : Sig}
    (found : signature e = last) (other : ∀ x ∈ front, signature x ≠ last) :
    newerThan signature (some last) (front ++ e :: rest) = rest := by
  rw [newerThan, List.dropWhile_append_of_pos fun x member => decide_eq_true (other x member)]
  simp [found]

theorem newerThan_marked {cursor : Option Sig} {past rest : List (Entry Sig)} (ends : EndsAt cursor past)
    (distinct : ((past ++ rest).map Entry.signature).Nodup) (finalized : Nat) :
    newerThan (·.signature) cursor (marked finalized (past ++ rest)) =
      marked (finalized - past.length) rest := by
  cases cursor with
  | none =>
      cases ends
      rfl
  | some signature =>
      cases past using List.reverseRecOn with
      | nil => cases ends
      | append_singleton front e =>
          have found : e.signature = signature := by simpa [EndsAt] using ends
          rw [List.append_assoc, List.singleton_append] at distinct ⊢
          obtain ⟨status, last⟩ := marked_cons (finalized - front.length) e rest
          rw [marked_append, last, newerThan_cut (by exact found) fun x member =>
            found ▸ signature_ne_of_marked (last_distinct distinct) member, List.length_append, Nat.sub_sub]
          rfl

theorem newerThan_entries {cursor : Option Sig} {past rest : List (Entry Sig)} (ends : EndsAt cursor past)
    (distinct : ((past ++ rest).map Entry.signature).Nodup) :
    newerThan Entry.signature cursor (past ++ rest) = rest := by
  cases cursor with
  | none =>
      cases ends
      rfl
  | some signature =>
      cases past using List.reverseRecOn with
      | nil => cases ends
      | append_singleton front e =>
          have found : e.signature = signature := by simpa [EndsAt] using ends
          rw [List.append_assoc, List.singleton_append] at distinct ⊢
          refine newerThan_cut found fun x member same => ?_
          rw [← found] at same
          exact last_distinct distinct (same ▸ List.mem_map_of_mem member)

theorem olderThan_marked {before : Option Sig} {window later : List (Entry Sig)}
    (starts : later.head?.map Entry.signature = before)
    (distinct : ((window ++ later).map Entry.signature).Nodup) (finalized : Nat) :
    olderThan before (marked finalized (window ++ later)) = marked finalized window := by
  cases later with
  | nil =>
      cases starts
      rw [List.append_nil]
      rfl
  | cons e rest =>
      cases starts
      have window' : ∀ x ∈ marked finalized window, decide (x.signature ≠ e.signature) :=
        fun x member => decide_eq_true (signature_ne_of_marked (last_distinct distinct) member)
      obtain ⟨status, first⟩ := marked_cons (finalized - window.length) e rest
      rw [marked_append, first]
      refine (List.takeWhile_append_of_pos window').trans ?_
      simp [mark]

end windows

section chunks

variable {Sig Content : Type} [DecidableEq Sig] {rpc : Rpc Sig Content} {call : Nat}
  {past window later : List (Entry Sig)} {until' before : Option Sig}

/-- A call reads the newest signatures of the window, all of them unless it reaches the limit. -/
theorem signaturesForAddress_window (parts : (rpc.ledger call).txs = past ++ window ++ later)
    (lower : EndsAt until' past) (upper : later.head?.map Entry.signature = before) :
    ∃ rest tip, window = rest ++ tip ∧ (tip.length < signaturesLimit → rest = []) ∧
      (rpc.ledger call).signaturesForAddress until' before =
        (marked ((rpc.ledger call).finalized - past.length - rest.length) tip).reverse := by
  have distinct := rpc.distinct call
  rw [parts, List.append_assoc] at distinct
  have distinct' : ((window ++ later).map Entry.signature).Nodup := by
    rw [List.map_append] at distinct
    exact (List.nodup_append.1 distinct).2.1
  have read : (rpc.ledger call).signaturesForAddress until' before =
      (marked ((rpc.ledger call).finalized - past.length) window).reverse.take signaturesLimit := by
    rw [Ledger.signaturesForAddress, parts, List.append_assoc, newerThan_marked lower distinct,
      olderThan_marked upper distinct']
  rw [read]
  by_cases short : window.length < signaturesLimit
  · refine ⟨[], window, rfl, fun _ => rfl, ?_⟩
    rw [List.take_of_length_le (by rw [List.length_reverse, length_marked]; omega)]
    rfl
  · have tipLength : (window.drop (window.length - signaturesLimit)).length = signaturesLimit := by
      rw [List.length_drop]
      omega
    refine ⟨window.take (window.length - signaturesLimit), window.drop (window.length - signaturesLimit),
      (List.take_append_drop _ _).symm, fun less => absurd tipLength (Nat.ne_of_lt less), ?_⟩
    conv_lhs => rw [← List.take_append_drop (window.length - signaturesLimit) window]
    rw [marked_append, List.reverse_append, List.take_left']
    rw [List.length_reverse, length_marked, tipLength]

def chronological (chunks : List (SigChunk Sig)) : SigChunk Sig := chunks.reverse.flatMap List.reverse

omit [DecidableEq Sig] in
theorem chronological_cons (chunk : SigChunk Sig) (chunks : List (SigChunk Sig)) :
    chronological (chunk :: chunks) = chronological chunks ++ chunk.reverse := by
  simp [chronological]

/-- A window of the ledger as a round reads it: the finalized signatures are the older ones, although the
chunks were read at different times. -/
structure Windowed (nextUntil : Option Sig) (window : List (Entry Sig)) (new : List (SigChunk Sig))
    (found : Option Sig) (older newer : List (Entry Sig)) : Prop where
  window : older ++ newer = window
  read : chronological new = older.map (mark .finalized) ++ newer.map (mark .confirmed)
  found : found = nextUntil.or (older.getLast?.map Entry.signature)

theorem sigChunks_spec {fuel : Nat} (nextUntil : Option Sig) (chunks : List (SigChunk Sig))
    (parts : (rpc.ledger call).txs = past ++ window ++ later) (lower : EndsAt until' past)
    (upper : later.head?.map Entry.signature = before) (enough : window.length < fuel) :
    ∃ new found call' older newer,
      sigChunks rpc until' fuel call before nextUntil chunks = some (chunks ++ new, found, call') ∧
        call < call' ∧ Windowed nextUntil window new found older newer ∧
        (past.length + window.length ≤ (rpc.ledger call).finalized → newer = []) := by
  induction fuel generalizing call window later before nextUntil chunks with
  | zero => omega
  | succ fuel ih =>
      obtain ⟨rest, tip, rfl, whole, read⟩ := signaturesForAddress_window parts lower upper
      obtain ⟨finalized, count⟩ : ∃ n, n = (rpc.ledger call).finalized - past.length - rest.length := ⟨_, rfl⟩
      rw [← count] at read
      have newest : (if nextUntil.isNone then
            (((rpc.ledger call).signaturesForAddress until' before).find? fun sig =>
              sig.confirmationStatus = .finalized).map (·.signature)
          else nextUntil) = nextUntil.or ((tip.take finalized).getLast?.map Entry.signature) := by
        rw [read, getLast_finalized]
        cases nextUntil <;> simp
      simp only [sigChunks, newest]
      rw [read, List.length_reverse, length_marked]
      rw [List.length_append] at enough ⊢
      by_cases last : tip.length < signaturesLimit
      · cases whole last
        rw [if_pos last]
        refine ⟨[(marked finalized tip).reverse], _, _, tip.take finalized, tip.drop finalized, rfl, Nat.lt_succ_self _,
          ⟨?_, ?_, rfl⟩, fun final => ?_⟩
        · exact List.take_append_drop _ _
        · simp [chronological, marked]
        · exact List.drop_eq_nil_of_le (by simp at count final; omega)
      · rw [if_neg last]
        obtain ⟨fresh, grown⟩ := rpc.grows call
        have finalizes := rpc.finalizes call
        have positive : 0 < signaturesLimit := by decide
        have parts' : (rpc.ledger (call + 1)).txs = past ++ rest ++ (tip ++ later ++ fresh) := by
          rw [← grown, parts]
          simp
        have upper' : (tip ++ later ++ fresh).head?.map Entry.signature =
            ((marked finalized tip).reverse.getLast?.map (·.signature)).or before := by
          cases tip with
          | nil => exact absurd positive last
          | cons e tip =>
              obtain ⟨status, first⟩ := marked_cons finalized e tip
              simp [first, mark]
        obtain ⟨new, found, call', older, newer, run, later', ⟨window, chunks', found'⟩, settled⟩ :=
          ih _ (chunks ++ [(marked finalized tip).reverse]) parts' upper' (by omega)
        -- The older chunks were read later: where this one is final in part, they are in whole.
        have monotone : newer = [] ∨ finalized = 0 := by
          by_cases final : past.length + rest.length ≤ (rpc.ledger call).finalized
          · exact .inl (settled (by omega))
          · exact .inr (by omega)
        refine ⟨(marked finalized tip).reverse :: new, found, call', older ++ tip.take finalized, newer ++ tip.drop finalized, ?_, by omega,
          ⟨?_, ?_, ?_⟩, fun final => ?_⟩
        · rw [run]
          simp
        · rw [← window]
          rcases monotone with rfl | rfl <;> simp
        · rw [chronological_cons, chunks', List.reverse_reverse, marked]
          rcases monotone with rfl | rfl <;> simp
        · rw [found', Option.or_assoc, List.getLast?_append, Option.map_or]
        · rw [settled (by omega), List.nil_append]
          exact List.drop_eq_nil_of_le (by omega)

end chunks

section blocks

variable {Sig Content : Type}

def flatSigs (blocks : List (Block Sig)) : SigChunk Sig :=
  blocks.flatMap fun block =>
    block.2.map fun sig => { signature := sig.1, slot := block.1, confirmationStatus := sig.2 }

def Ascending (blocks : List (Block Sig)) (slot : Nat) : Prop :=
  (blocks.map Prod.fst).Pairwise (· < ·) ∧ ∀ block ∈ blocks, block.1 ≤ slot

theorem Ascending.tail {block : Block Sig} {blocks : List (Block Sig)} {slot : Nat}
    (ascending : Ascending (block :: blocks) slot) : Ascending blocks slot :=
  ⟨(List.pairwise_cons.1 ascending.1).2, fun later member => ascending.2 later (List.mem_cons_of_mem _ member)⟩

theorem fst_addSigToFetch {signature : Sig} {status : TransactionConfirmationStatus}
    {blocks : List (Block Sig)} {slot : Nat} {block : Block Sig}
    (member : block ∈ addSigToFetch slot signature status blocks) :
    block.1 = slot ∨ ∃ old ∈ blocks, old.1 = block.1 := by
  induction blocks with
  | nil =>
      cases List.mem_singleton.1 member
      exact .inl rfl
  | cons first blocks ih =>
      rw [addSigToFetch] at member
      split_ifs at member with same
      · rcases List.mem_cons.1 member with rfl | member
        · exact .inl same
        · exact .inr ⟨block, List.mem_cons_of_mem _ member, rfl⟩
      · rcases List.mem_cons.1 member with rfl | member
        · exact .inr ⟨_, List.mem_cons_self, rfl⟩
        · rcases ih member with same | ⟨old, present, same⟩
          · exact .inl same
          · exact .inr ⟨old, List.mem_cons_of_mem _ present, same⟩

theorem addSigToFetch_spec {blocks : List (Block Sig)} (sig : SignatureStatus Sig)
    (ascending : Ascending blocks sig.slot) :
    flatSigs (addSigToFetch sig.slot sig.signature sig.confirmationStatus blocks) =
        flatSigs blocks ++ [sig] ∧
      Ascending (addSigToFetch sig.slot sig.signature sig.confirmationStatus blocks) sig.slot := by
  induction blocks with
  | nil => exact ⟨rfl, by simp [addSigToFetch, Ascending]⟩
  | cons block blocks ih =>
      obtain ⟨above, _⟩ := List.pairwise_cons.1 ascending.1
      rw [addSigToFetch]
      split_ifs with same
      · have none' : blocks = [] := by
          rw [List.eq_nil_iff_forall_not_mem]
          intro later member
          have more := above later.1 (List.mem_map_of_mem member)
          have less := ascending.2 later (List.mem_cons_of_mem _ member)
          omega
        subst none'
        exact ⟨by simp [flatSigs, same], by simp [Ascending, same]⟩
      · obtain ⟨flat, sorted⟩ := ih ascending.tail
        refine ⟨?_, List.pairwise_cons.2 ⟨fun slot member => ?_, sorted.1⟩, ?_⟩
        · simpa [flatSigs] using flat
        · obtain ⟨later, present, rfl⟩ := List.mem_map.1 member
          rcases fst_addSigToFetch present with newest | ⟨old, older, same'⟩
          · have less := ascending.2 block List.mem_cons_self
            omega
          · rw [← same']
            exact above old.1 (List.mem_map_of_mem older)
        · intro later member
          rcases List.mem_cons.1 member with rfl | member
          · exact ascending.2 _ List.mem_cons_self
          · exact sorted.2 later member

variable [DecidableEq Sig]

variable {confirmedTxs : Sig → Option (Tx Sig Content)} {sent : List (Sent Sig Content)}

theorem sorting_fresh {sigs : SigChunk Sig} {blocks : List (Block Sig)} {slot : Nat}
    (unknown : ∀ sig ∈ sigs, confirmedTxs sig.signature = none)
    (statuses : ∀ sig ∈ sigs, sig.confirmationStatus ≠ .processed)
    (ordered : sigs.Pairwise fun e e' => e.slot ≤ e'.slot) (ascending : Ascending blocks slot)
    (after : ∀ sig ∈ sigs, slot ≤ sig.slot) :
    ∃ blocks', sigs.foldlM Sorting.step ⟨confirmedTxs, blocks, sent⟩ = some ⟨confirmedTxs, blocks', sent⟩ ∧
      flatSigs blocks' = flatSigs blocks ++ sigs := by
  induction sigs generalizing blocks slot with
  | nil => exact ⟨blocks, rfl, by rw [List.append_nil]⟩
  | cons sig sigs ih =>
      have first : Sorting.step ⟨confirmedTxs, blocks, sent⟩ sig =
          some ⟨confirmedTxs, addSigToFetch sig.slot sig.signature sig.confirmationStatus blocks, sent⟩ := by
        have missing := unknown sig List.mem_cons_self
        have status := statuses sig List.mem_cons_self
        unfold Sorting.step
        cases decided : sig.confirmationStatus with
        | processed => exact absurd decided status
        | confirmed => simp [missing]
        | finalized => simp [missing]
      have below : Ascending blocks sig.slot :=
        ⟨ascending.1, fun block member => (ascending.2 block member).trans (after sig List.mem_cons_self)⟩
      obtain ⟨flat, sorted⟩ := addSigToFetch_spec sig below
      obtain ⟨blocks', run, flat'⟩ := ih (fun sig member => unknown sig (List.mem_cons_of_mem _ member))
        (fun sig member => statuses sig (List.mem_cons_of_mem _ member)) (List.pairwise_cons.1 ordered).2 sorted
        (List.pairwise_cons.1 ordered).1
      refine ⟨blocks', ?_, ?_⟩
      · rw [List.foldlM_cons, first]
        exact run
      · rw [flat', flat, List.append_assoc, List.singleton_append]

variable {rpc : Rpc Sig Content}

def pendingTxs (rpc : Rpc Sig Content) (pending : List (Entry Sig)) (signature : Sig) :
    Option (Tx Sig Content) :=
  (pending.find? fun e => e.signature = signature).map fun e => rpc.tx e.slot e.signature

theorem find_none {signature : Sig} {pending : List (Entry Sig)}
    (other : signature ∉ pending.map Entry.signature) : pending.find? (fun e => e.signature = signature) = none := by
  rw [List.find?_eq_none]
  intro e member same
  rw [decide_eq_true_eq] at same
  exact other (same ▸ List.mem_map_of_mem member)

theorem pendingTxs_remove {e : Entry Sig} {pending : List (Entry Sig)}
    (distinct : ((e :: pending).map Entry.signature).Nodup) :
    Function.update (pendingTxs rpc (e :: pending)) e.signature none = pendingTxs rpc pending := by
  funext signature
  by_cases same : signature = e.signature
  · subst same
    rw [Function.update_self, pendingTxs, find_none (List.nodup_cons.1 distinct).1]
    rfl
  · rw [Function.update_of_ne same, pendingTxs, List.find?_cons_of_neg (by simpa using Ne.symm same)]
    rfl

theorem pendingTxs_insert {e : Entry Sig} {pending : List (Entry Sig)}
    (other : e.signature ∉ pending.map Entry.signature) :
    Function.update (pendingTxs rpc pending) e.signature (some (rpc.tx e.slot e.signature)) =
      pendingTxs rpc (pending ++ [e]) := by
  funext signature
  by_cases same : signature = e.signature
  · subst same
    rw [Function.update_self, pendingTxs, List.find?_append, find_none other]
    simp
  · rw [Function.update_of_ne same, pendingTxs, pendingTxs, List.find?_append]
    simp [Ne.symm same]

theorem pendingTxs_none {signature : Sig} {pending : List (Entry Sig)}
    (other : signature ∉ pending.map Entry.signature) : pendingTxs rpc pending signature = none := by
  rw [pendingTxs, find_none other]
  rfl

theorem sorting_finalized {done pending : List (Entry Sig)} {blocks : List (Block Sig)}
    (distinct : ((done ++ pending).map Entry.signature).Nodup) :
    (done.map (mark .finalized)).foldlM Sorting.step ⟨pendingTxs rpc (done ++ pending), blocks, sent⟩ =
      some ⟨pendingTxs rpc pending, blocks,
        sent ++ done.map fun e => .finalized (rpc.tx e.slot e.signature)⟩ := by
  induction done generalizing sent with
  | nil => simp
  | cons e done ih =>
      have known : pendingTxs rpc (e :: (done ++ pending)) e.signature = some (rpc.tx e.slot e.signature) := by
        simp [pendingTxs]
      have first : Sorting.step ⟨pendingTxs rpc (e :: (done ++ pending)), blocks, sent⟩ (mark .finalized e) =
          some ⟨pendingTxs rpc (done ++ pending), blocks,
            sent ++ [.finalized (rpc.tx e.slot e.signature)]⟩ := by
        simp only [Sorting.step, mark, known]
        rw [pendingTxs_remove (show ((e :: (done ++ pending)).map Entry.signature).Nodup from distinct)]
      rw [List.map_cons, List.foldlM_cons, List.cons_append, first]
      refine (ih (List.nodup_cons.1 distinct).2).trans ?_
      simp

theorem sorting_confirmed {pending : List (Entry Sig)} {st : Sorting Sig Content}
    (known : ∀ e ∈ pending, st.confirmedTxs e.signature ≠ none) :
    (pending.map (mark .confirmed)).foldlM Sorting.step st = some st := by
  induction pending with
  | nil => rfl
  | cons e pending ih =>
      have first : st.step (mark .confirmed e) = some st := by
        have found := known e List.mem_cons_self
        simp [Sorting.step, mark, found]
      rw [List.map_cons, List.foldlM_cons, first]
      exact ih fun e member => known e (List.mem_cons_of_mem _ member)

end blocks

section deliveries

variable {Sig Content : Type} [DecidableEq Sig] {rpc : Rpc Sig Content}

theorem fetchTxsInBlock_spec {slot : Nat} {unseen signatures : List Sig} (inside : signatures.Sublist unseen) :
    fetchTxsInBlock rpc slot unseen signatures = some (signatures.map (rpc.tx slot)) := by
  induction unseen generalizing signatures with
  | nil =>
      cases List.sublist_nil.1 inside
      rfl
  | cons found unseen ih =>
      cases signatures with
      | nil => rfl
      | cons signature signatures =>
          by_cases same : found = signature
          · subst same
            have rest := ih (List.cons_sublist_cons.1 inside)
            simp [fetchTxsInBlock, rest]
          · have later : (signature :: signatures).Sublist unseen := by
              cases inside with
              | cons _ later => exact later
              | cons_cons => exact absurd rfl same
            have skipped := ih later
            rw [fetchTxsInBlock] at skipped ⊢
            simpa [same] using skipped

theorem fetchBlock_spec {block : Block Sig} (inside : (block.2.map Prod.fst).Sublist (rpc.block block.1)) :
    fetchBlock rpc block = some (block.2.map fun sig => (rpc.tx block.1 sig.1, sig.2)) := by
  have many : (do
      let txs ← fetchTxsInBlock rpc block.1 (rpc.block block.1) (block.2.map Prod.fst)
      return txs.zip (block.2.map Prod.snd)) = some (block.2.map fun sig => (rpc.tx block.1 sig.1, sig.2)) := by
    rw [fetchTxsInBlock_spec inside]
    simp [List.zip_map', List.map_map, Function.comp_def]
  unfold fetchBlock
  split
  · next sigs => simp [sigs]
  · exact many

theorem mapM_fetchBlock {blocks : List (Block Sig)}
    (inside : ∀ block ∈ blocks, (block.2.map Prod.fst).Sublist (rpc.block block.1)) :
    ∃ txs, blocks.mapM (fetchBlock rpc) = some txs ∧
      txs.flatten = (flatSigs blocks).map fun sig => (rpc.tx sig.slot sig.signature, sig.confirmationStatus) := by
  induction blocks with
  | nil => exact ⟨[], rfl, rfl⟩
  | cons block blocks ih =>
      obtain ⟨txs, run, flat⟩ := ih fun block member => inside block (List.mem_cons_of_mem _ member)
      refine ⟨(block.2.map fun sig => (rpc.tx block.1 sig.1, sig.2)) :: txs, ?_, ?_⟩
      · rw [List.mapM_cons, fetchBlock_spec (inside block List.mem_cons_self), run]
        rfl
      · simp [flatSigs, flat]

end deliveries

section order

variable {Sig Content : Type} {rpc : Rpc Sig Content}

theorem Rpc.ledger_prefix (rpc : Rpc Sig Content) {call call' : Nat} (later : call ≤ call') :
    (rpc.ledger call).txs <+: (rpc.ledger call').txs := by
  induction later with
  | refl => exact List.prefix_rfl
  | step _ ih => exact ih.trans (rpc.grows _)

def confirmedOf (sent : List (Sent Sig Content)) : List (Tx Sig Content) :=
  sent.filterMap fun | .confirmed tx => some tx | .finalized _ => none

def finalizedOf (sent : List (Sent Sig Content)) : List (Tx Sig Content) :=
  sent.filterMap fun | .confirmed _ => none | .finalized tx => some tx

/-- At every moment the second channel had a part of what the first one had. -/
def Safe (sent : List (Sent Sig Content)) : Prop := ∀ seen, seen <+: sent → finalizedOf seen <+: confirmedOf seen

theorem Safe.snoc {sent : List (Sent Sig Content)} {message : Sent Sig Content} (safe : Safe sent)
    (last : finalizedOf (sent ++ [message]) <+: confirmedOf (sent ++ [message])) :
    Safe (sent ++ [message]) := by
  intro seen front
  rcases List.prefix_concat_iff.1 front with rfl | earlier
  · exact last
  · exact safe seen earlier

def Rpc.txs (rpc : Rpc Sig Content) (entries : List (Entry Sig)) : List (Tx Sig Content) :=
  entries.map fun e => rpc.tx e.slot e.signature

/-- The first channel had all these transactions, the second one those that are done. -/
structure InOrder (rpc : Rpc Sig Content) (sent : List (Sent Sig Content))
    (done pending : List (Entry Sig)) : Prop where
  safe : Safe sent
  confirmed : confirmedOf sent = rpc.txs (done ++ pending)
  finalized : finalizedOf sent = rpc.txs done

namespace InOrder

variable {sent : List (Sent Sig Content)} {done pending : List (Entry Sig)}

theorem confirm (inOrder : InOrder rpc sent done pending) (e : Entry Sig) :
    InOrder rpc (sent ++ [.confirmed (rpc.tx e.slot e.signature)]) done (pending ++ [e]) := by
  have confirmed' : confirmedOf (sent ++ [.confirmed (rpc.tx e.slot e.signature)]) =
      rpc.txs (done ++ (pending ++ [e])) := by
    have before := inOrder.confirmed
    simp only [confirmedOf, Rpc.txs] at before ⊢
    simp [before]
  have finalized' : finalizedOf (sent ++ [.confirmed (rpc.tx e.slot e.signature)]) = rpc.txs done := by
    have before := inOrder.finalized
    simp only [finalizedOf] at before ⊢
    simp [before]
  refine ⟨Safe.snoc inOrder.safe ?_, confirmed', finalized'⟩
  rw [confirmed', finalized']
  exact (List.prefix_append _ _).map _

theorem finalize {e : Entry Sig} (inOrder : InOrder rpc sent done (e :: pending)) :
    InOrder rpc (sent ++ [.finalized (rpc.tx e.slot e.signature)]) (done ++ [e]) pending := by
  have confirmed' : confirmedOf (sent ++ [.finalized (rpc.tx e.slot e.signature)]) =
      rpc.txs (done ++ [e] ++ pending) := by
    have before := inOrder.confirmed
    simp only [confirmedOf, Rpc.txs] at before ⊢
    simp [before]
  have finalized' : finalizedOf (sent ++ [.finalized (rpc.tx e.slot e.signature)]) =
      rpc.txs (done ++ [e]) := by
    have before := inOrder.finalized
    simp only [finalizedOf, Rpc.txs] at before ⊢
    simp [before]
  refine ⟨Safe.snoc inOrder.safe ?_, confirmed', finalized'⟩
  rw [confirmed', finalized']
  exact (List.prefix_append _ _).map _

theorem finalize_all {final : List (Entry Sig)} (inOrder : InOrder rpc sent done (final ++ pending)) :
    InOrder rpc (sent ++ final.map fun e => .finalized (rpc.tx e.slot e.signature)) (done ++ final) pending := by
  induction final generalizing sent done with
  | nil => simpa using inOrder
  | cons e final ih => simpa using ih inOrder.finalize

end InOrder

end order

section deliveries

variable {Sig Content : Type} [DecidableEq Sig] {rpc : Rpc Sig Content} {done pending : List (Entry Sig)}

theorem InOrder.deliver_confirmed {fresh : List (Entry Sig)} {r : SolanaReader Sig Content}
    (inOrder : InOrder rpc r.sent done pending) (known : r.confirmedTxs = pendingTxs rpc pending)
    (distinct : ((pending ++ fresh).map Entry.signature).Nodup) :
    ∃ sent, (fresh.map fun e => (rpc.tx e.slot e.signature, TransactionConfirmationStatus.confirmed)).foldlM
        deliver r = some { r with confirmedTxs := pendingTxs rpc (pending ++ fresh), sent } ∧
      InOrder rpc sent done (pending ++ fresh) := by
  induction fresh generalizing r pending with
  | nil => exact ⟨r.sent, by simp [← known], by simpa using inOrder⟩
  | cons e fresh ih =>
      have parts : pending ++ e :: fresh = pending ++ [e] ++ fresh := by simp
      rw [parts] at distinct ⊢
      have other : e.signature ∉ pending.map Entry.signature := by
        simp [List.nodup_append] at distinct
        grind
      obtain ⟨sent, run, inOrder'⟩ := ih (r := { r with
          confirmedTxs := pendingTxs rpc (pending ++ [e])
          sent := r.sent ++ [.confirmed (rpc.tx e.slot e.signature)] }) (inOrder.confirm e) rfl distinct
      refine ⟨sent, ?_, inOrder'⟩
      rw [List.map_cons, List.foldlM_cons, deliver, known]
      rw [show (rpc.tx e.slot e.signature).signature = e.signature from rfl, pendingTxs_insert other]
      exact run

theorem InOrder.deliver_finalized {r : SolanaReader Sig Content} (inOrder : InOrder rpc r.sent done [])
    (fresh : List (Entry Sig)) :
    ∃ sent, (fresh.map fun e => (rpc.tx e.slot e.signature, TransactionConfirmationStatus.finalized)).foldlM
        deliver r = some { r with sent } ∧ InOrder rpc sent (done ++ fresh) [] := by
  induction fresh generalizing r done with
  | nil => exact ⟨r.sent, rfl, by simpa using inOrder⟩
  | cons e fresh ih =>
      have both : InOrder rpc (r.sent ++ [.confirmed (rpc.tx e.slot e.signature),
          .finalized (rpc.tx e.slot e.signature)]) (done ++ [e]) [] := by
        simpa using (inOrder.confirm e).finalize
      obtain ⟨sent, run, inOrder'⟩ := ih (r := { r with
          sent := r.sent ++ [.confirmed (rpc.tx e.slot e.signature),
            .finalized (rpc.tx e.slot e.signature)] }) both
      refine ⟨sent, ?_, by simpa using inOrder'⟩
      rw [List.map_cons, List.foldlM_cons, deliver]
      exact run

variable {call : Nat} {past final waiting final' waiting' : List (Entry Sig)}

def roundSigs (final waiting final' waiting' : List (Entry Sig)) : SigChunk Sig :=
  final.map (mark .finalized) ++ waiting.map (mark .confirmed) ++
    (final'.map (mark .finalized) ++ waiting'.map (mark .confirmed))

theorem sort_round (rpc : Rpc Sig Content) (sent : List (Sent Sig Content))
    (distinct : ((final ++ waiting ++ (final' ++ waiting')).map Entry.signature).Nodup)
    (ordered : (final' ++ waiting').Pairwise fun e e' => e.slot ≤ e'.slot) :
    ∃ blocks, (roundSigs final waiting final' waiting').foldlM Sorting.step
        ⟨pendingTxs rpc (final ++ waiting), [], sent⟩ =
      some ⟨pendingTxs rpc waiting, blocks,
        sent ++ final.map fun e => .finalized (rpc.tx e.slot e.signature)⟩ ∧
      flatSigs blocks = final'.map (mark .finalized) ++ waiting'.map (mark .confirmed) := by
  let fresh : SigChunk Sig := final'.map (mark .finalized) ++ waiting'.map (mark .confirmed)
  have entries : fresh.map (·.toEntry) = final' ++ waiting' := by
    simp [fresh, mark, Function.comp_def]
  have front : ((final ++ waiting).map Entry.signature).Nodup := by
    rw [List.map_append] at distinct
    exact (List.nodup_append.1 distinct).1
  have known : ∀ e ∈ waiting, pendingTxs rpc waiting e.signature ≠ none := by
    intro e member none'
    rw [pendingTxs, Option.map_eq_none_iff, List.find?_eq_none] at none'
    exact none' e member (decide_eq_true rfl)
  have unknown : ∀ sig ∈ fresh, pendingTxs rpc waiting sig.signature = none := by
    intro sig member
    refine pendingTxs_none fun pending => ?_
    have inside : sig.signature ∈ (final' ++ waiting').map Entry.signature := by
      rw [← entries, List.map_map]
      exact List.mem_map_of_mem member
    rw [List.map_append, List.nodup_append] at distinct
    refine distinct.2.2 _ ?_ _ inside rfl
    rw [List.map_append]
    exact List.mem_append_right _ pending
  have statuses : ∀ sig ∈ fresh, sig.confirmationStatus ≠ .processed := by
    intro sig member
    rcases List.mem_append.1 member with member | member <;>
      · obtain ⟨e, _, rfl⟩ := List.mem_map.1 member
        simp [mark]
  have ordered' : fresh.Pairwise fun e e' => e.slot ≤ e'.slot := by
    rw [← entries, List.pairwise_map] at ordered
    exact ordered
  let sent' := sent ++ final.map fun e => Sent.finalized (rpc.tx e.slot e.signature)
  obtain ⟨blocks, run, flat⟩ : ∃ blocks, fresh.foldlM Sorting.step ⟨pendingTxs rpc waiting, [], sent'⟩ =
      some ⟨pendingTxs rpc waiting, blocks, sent'⟩ ∧ flatSigs blocks = flatSigs [] ++ fresh :=
    sorting_fresh unknown statuses ordered' (show Ascending [] 0 from ⟨.nil, nofun⟩) fun _ _ => Nat.zero_le _
  refine ⟨blocks, ?_, by simpa [flatSigs] using flat⟩
  rw [roundSigs, List.foldlM_append, List.foldlM_append, sorting_finalized front]
  refine (congrArg (fun st => Option.bind st _) (sorting_confirmed known)).trans ?_
  exact run

omit [DecidableEq Sig] in
theorem blocks_inside {blocks : List (Block Sig)} {fresh : List (Entry Sig)}
    (entries : (flatSigs blocks).map (·.toEntry) = fresh) (inside : fresh.Sublist (rpc.ledger call).txs) :
    ∀ block ∈ blocks, (block.2.map Prod.fst).Sublist (rpc.block block.1) := by
  intro block member
  let own : List (Entry Sig) := block.2.map fun sig => { signature := sig.1, slot := block.1 }
  have part : own.Sublist fresh := by
    rw [← entries, flatSigs, List.flatMap_def, List.map_flatten, List.map_map]
    refine List.sublist_flatten_of_mem (List.mem_map.2 ⟨block, member, ?_⟩)
    simp [own]
  have slots : own.filter (·.slot = block.1) = own := by
    rw [List.filter_eq_self]
    intro e inOwn
    obtain ⟨sig, _, rfl⟩ := List.mem_map.1 inOwn
    simp
  have found := ((part.trans inside).filter (·.slot = block.1)).map Entry.signature
  rw [slots] at found
  have names : own.map Entry.signature = block.2.map Prod.fst := by simp [own]
  rw [← names]
  exact found.trans (rpc.inBlock call block.1)

theorem deliver_round {r : SolanaReader Sig Content} (known : r.confirmedTxs = pendingTxs rpc waiting)
    (inOrder : InOrder rpc r.sent (done ++ final) waiting) (split : waiting = [] ∨ final' = [])
    (distinct : ((waiting ++ waiting').map Entry.signature).Nodup) :
    ∃ sent, ((final'.map (mark .finalized) ++ waiting'.map (mark .confirmed)).map fun sig =>
          (rpc.tx sig.slot sig.signature, sig.confirmationStatus)).foldlM deliver r =
        some { r with confirmedTxs := pendingTxs rpc (waiting ++ waiting'), sent } ∧
      InOrder rpc sent (done ++ (final ++ final')) (waiting ++ waiting') := by
  simp only [List.map_append, List.map_map, Function.comp_def, mark, List.foldlM_append]
  rcases split with rfl | rfl
  · obtain ⟨sent, run, inOrder'⟩ := inOrder.deliver_finalized final'
    obtain ⟨sent', run', inOrder''⟩ := inOrder'.deliver_confirmed (r := { r with sent }) known distinct
    refine ⟨sent', ?_, by simpa using inOrder''⟩
    rw [run]
    exact run'
  · obtain ⟨sent, run, inOrder'⟩ := inOrder.deliver_confirmed known distinct
    exact ⟨sent, run, by simpa using inOrder'⟩

/-- A reader that has gone through the ledger up to the pending transactions. -/
structure Follows (rpc : Rpc Sig Content) (cursor : Option Sig) (r : SolanaReader Sig Content)
    (past done pending : List (Entry Sig)) : Prop where
  origin : EndsAt cursor past
  start : EndsAt r.start (past ++ done)
  known : r.confirmedTxs = pendingTxs rpc pending
  sent : InOrder rpc r.sent done pending

theorem Follows.poll {cursor : Option Sig} {r : SolanaReader Sig Content} {past done pending : List (Entry Sig)}
    (follows : Follows rpc cursor r past done pending)
    (read : past ++ done ++ pending <+: (rpc.ledger call).txs) :
    ∃ r' call' done' pending', r.poll rpc call = some (r', call') ∧ call < call' ∧
      Follows rpc cursor r' past done' pending' ∧ past ++ done' ++ pending' = (rpc.ledger call).txs := by
  obtain ⟨fresh, parts⟩ := read
  have window : (rpc.ledger call).txs = past ++ done ++ (pending ++ fresh) ++ [] := by simp [← parts]
  have enough : (pending ++ fresh).length < (rpc.ledger call).txs.length + 1 := by
    rw [window]
    simp
    omega
  obtain ⟨new, found, call', older, newer, run, later, ⟨whole, chunks, rfl⟩, _⟩ :=
    sigChunks_spec none [] window follows.start (show _ = none from rfl) enough
  obtain ⟨final, waiting, final', waiting', rfl, rfl, rfl, rfl, split⟩ := round_parts whole
  have order := rpc.ordered call
  have distinct := rpc.distinct call
  rw [← parts] at order distinct
  have ordered : (final' ++ waiting').Pairwise fun e e' => e.slot ≤ e'.slot :=
    (List.pairwise_append.1 order).2.1
  have distinct' : ((final ++ waiting ++ (final' ++ waiting')).map Entry.signature).Nodup := by
    simp only [List.map_append, List.append_assoc] at distinct ⊢
    exact (List.nodup_append.1 (List.nodup_append.1 distinct).2.1).2.1
  -- Finalized before the confirmed ones, and pending before the fresh ones.
  have order' : chronological new = roundSigs final waiting final' waiting' := by
    rw [chunks, roundSigs]
    rcases split with rfl | rfl <;> simp
  obtain ⟨blocks, sorted, flat⟩ := sort_round rpc r.sent distinct' ordered
  have entries : (flatSigs blocks).map (·.toEntry) = final' ++ waiting' := by
    rw [flat]
    simp [mark, Function.comp_def]
  have inside : (final' ++ waiting').Sublist (rpc.ledger call).txs := by
    rw [← parts]
    exact List.sublist_append_right _ _
  obtain ⟨txs, fetched, flat'⟩ := mapM_fetchBlock (blocks_inside entries inside)
  let r₁ : SolanaReader Sig Content :=
    { txReadFrom := none, until' := r.start
      nextUntil := (final ++ final').getLast?.map Entry.signature, confirmedTxs := pendingTxs rpc waiting,
      sent := r.sent ++ final.map fun e => .finalized (rpc.tx e.slot e.signature) }
  have distinct'' : ((waiting ++ waiting').map Entry.signature).Nodup := by
    simp only [List.map_append, List.append_assoc] at distinct' ⊢
    grind
  obtain ⟨sent', delivered, inOrder⟩ :=
    deliver_round (r := r₁) rfl follows.sent.finalize_all split distinct''
  rw [← flat, ← flat'] at delivered
  refine ⟨{ r₁ with confirmedTxs := pendingTxs rpc (waiting ++ waiting'), sent := sent' }, call',
    done ++ (final ++ final'), waiting ++ waiting', ?_, later, ⟨follows.origin, ?_, rfl, inOrder⟩, ?_⟩
  · rw [← order', chronological, ← follows.known] at sorted
    simp only [SolanaReader.poll, run, List.nil_append, Option.bind_eq_bind, Option.bind_some, sorted, fetched,
      Option.none_or]
    exact congrArg (Option.bind · fun r => some (r, call')) delivered
  · rw [← List.append_assoc]
    exact endsAt_append follows.start
  · rw [← parts]
    rcases split with rfl | rfl <;> simp

theorem new_follows {cursor : Option Sig}
    (known : ∀ signature, cursor = some signature → signature ∈ (rpc.ledger 0).txs.map Entry.signature) :
    ∃ past, Follows rpc cursor (.new cursor) past [] [] ∧ past <+: (rpc.ledger 0).txs := by
  have silent : InOrder rpc (SolanaReader.new cursor : SolanaReader Sig Content).sent [] [] := by
    refine ⟨fun seen front => ?_, rfl, rfl⟩
    rw [List.prefix_nil.1 front]
    exact List.prefix_rfl
  cases cursor with
  | none => exact ⟨[], ⟨rfl, rfl, rfl, silent⟩, List.nil_prefix⟩
  | some signature =>
      obtain ⟨e, member, rfl⟩ := List.mem_map.1 (known signature rfl)
      obtain ⟨front, rest, parts⟩ := List.append_of_mem member
      have ends : EndsAt (some e.signature) (front ++ [e]) := by simp [EndsAt]
      refine ⟨front ++ [e], ⟨ends, by rwa [List.append_nil], rfl, silent⟩, rest, ?_⟩
      rw [parts, List.append_assoc, List.singleton_append]

theorem listen_follows {cursor : Option Sig}
    (known : ∀ signature, cursor = some signature → signature ∈ (rpc.ledger 0).txs.map Entry.signature)
    (rounds : Nat) :
    ∃ r call past done pending, listenToSolana rpc cursor rounds = some (r, call) ∧ rounds ≤ call ∧
      Follows rpc cursor r past done pending ∧ past ++ done ++ pending <+: (rpc.ledger call).txs := by
  induction rounds with
  | zero =>
      obtain ⟨past, follows, front⟩ := new_follows known
      exact ⟨_, 0, past, [], [], rfl, Nat.le_refl _, follows, by simpa using front⟩
  | succ rounds ih =>
      obtain ⟨r, call, past, done, pending, run, enough, follows, front⟩ := ih
      obtain ⟨r', call', done', pending', run', later, follows', whole⟩ := follows.poll front
      refine ⟨r', call', past, done', pending', ?_, by omega, follows', ?_⟩
      · rw [listenToSolana, run]
        exact run'
      · rw [whole]
        exact rpc.ledger_prefix later.le

/-- After every round the first channel has had the transactions newer than the cursor that the ledger had
when the round began, each once and in chain order, and at every moment the second channel has had the
first ones of them. -/
theorem listen_in_order {cursor : Option Sig}
    (known : ∀ signature, cursor = some signature → signature ∈ (rpc.ledger 0).txs.map Entry.signature)
    (rounds : Nat) :
    ∃ r call r' call', listenToSolana rpc cursor rounds = some (r, call) ∧ rounds ≤ call ∧
      listenToSolana rpc cursor (rounds + 1) = some (r', call') ∧
      confirmedOf r'.sent = rpc.txs (newerThan Entry.signature cursor (rpc.ledger call).txs) ∧
      ((confirmedOf r'.sent).map Tx.signature).Nodup ∧
      ∀ seen, seen <+: r'.sent → finalizedOf seen <+: confirmedOf seen := by
  obtain ⟨r, call, past, done, pending, run, enough, follows, front⟩ := listen_follows known rounds
  obtain ⟨r', call', done', pending', run', _, follows', whole⟩ := follows.poll front
  have distinct := rpc.distinct call
  rw [← whole, List.append_assoc] at distinct
  have delivered : confirmedOf r'.sent = rpc.txs (newerThan Entry.signature cursor (rpc.ledger call).txs) := by
    rw [follows'.sent.confirmed, ← whole, List.append_assoc, newerThan_entries follows.origin distinct]
  refine ⟨r, call, r', call', run, enough, ?_, delivered, ?_, follows'.sent.safe⟩
  · rw [listenToSolana, run]
    exact run'
  · rw [follows'.sent.confirmed, Rpc.txs, List.map_map]
    rw [List.map_append] at distinct
    exact (List.nodup_append.1 distinct).2.1

end deliveries

namespace SharedSlot

def txs : List (Entry Nat) := [{ signature := 1, slot := 10 }, { signature := 2, slot := 10 },
  { signature := 3, slot := 11 }]

def block (slot : Nat) : List Nat := if slot = 10 then [1, 9, 2] else [3]

theorem inBlock (slot : Nat) : ((txs.filter (·.slot = slot)).map Entry.signature).Sublist (block slot) := by
  by_cases first : slot = 10
  · subst first
    decide
  · by_cases second : slot = 11
    · subst second
      decide
    · have empty : txs.filter (·.slot = slot) = [] := by simp [txs, Ne.symm first, Ne.symm second]
      rw [empty]
      exact List.nil_sublist _

def rpc : Rpc Nat Unit where
  ledger call := { txs, finalized := call }
  content _ := ()
  block := block
  grows _ := List.prefix_rfl
  finalizes call := Nat.le_succ call
  distinct _ := show (txs.map Entry.signature).Nodup by decide
  ordered _ := show txs.Pairwise fun e e' => e.slot ≤ e'.slot by decide
  inBlock _ := inBlock

theorem listen_in_order_after_first :
    ∃ r call r' call', listenToSolana rpc (some 1) 1 = some (r, call) ∧ 1 ≤ call ∧
      listenToSolana rpc (some 1) 2 = some (r', call') ∧
      confirmedOf r'.sent = rpc.txs (newerThan Entry.signature (some 1) (rpc.ledger call).txs) ∧
      ((confirmedOf r'.sent).map Tx.signature).Nodup ∧
      ∀ seen, seen <+: r'.sent → finalizedOf seen <+: confirmedOf seen :=
  @listen_in_order Nat Unit _ rpc (some 1) (fun signature same => by cases same; decide) 1

end SharedSlot

end Mootvote.Indexer
