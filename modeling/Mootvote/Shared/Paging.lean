import Mathlib.Data.List.Sort
import Mathlib.Order.Defs.LinearOrder
import Mathlib.Tactic.Common

set_option autoImplicit false

/-!
# Pages by key

Each page goes on below the last key of the page before it, while the table changes.
-/

namespace Shared.Paging

variable {R K : Type} [LinearOrder K] (key : R → K) (limit : Nat)

def below (rows : List R) (before : K) : List R :=
  (rows.filter fun r => key r < before).insertionSort fun r r' => key r' ≤ key r

def page (rows : List R) (before : K) : List R × Option K :=
  let found := (below key rows before).take (limit + 1)
  (found.take limit, if limit < found.length then found[limit - 1]?.map key else none)

/-- A reader who asks for page after page, each from the table as it is then. -/
inductive Paged : K → List (List R) → List R → Prop
  | last {rows : List R} {before : K} (stops : (page key limit rows before).2 = none) :
      Paged before [rows] (page key limit rows before).1
  | more {rows : List R} {before next : K} {tables : List (List R)} {rest : List R}
      (goesOn : (page key limit rows before).2 = some next) (later : Paged next tables rest) :
      Paged before (rows :: tables) ((page key limit rows before).1 ++ rest)

variable {key limit} {rows : List R} {before next : K} {r : R}

theorem mem_below : r ∈ below key rows before ↔ r ∈ rows ∧ key r < before := by
  simp [below]

theorem pairwise_below (distinct : (rows.map key).Nodup) :
    (below key rows before).Pairwise fun r r' => key r' < key r := by
  have sorted : (below key rows before).Pairwise fun r r' => key r' ≤ key r := by
    have : Std.Total fun r r' : R => key r' ≤ key r := ⟨fun r r' => le_total (key r') (key r)⟩
    have : IsTrans R fun r r' => key r' ≤ key r := ⟨fun _ _ _ first second => second.trans first⟩
    exact List.pairwise_insertionSort _ _
  have perm := List.perm_insertionSort (fun r r' : R => key r' ≤ key r) (rows.filter fun r => key r < before)
  have distinct' : ((below key rows before).map key).Nodup := by
    refine (perm.map key).nodup_iff.2 (distinct.sublist ?_)
    exact List.filter_sublist.map key
  refine (sorted.and (List.pairwise_map.1 distinct')).imp ?_
  intro r r' both
  exact lt_of_le_of_ne both.1 both.2.symm

theorem page_fst : (page key limit rows before).1 = (below key rows before).take limit := by
  simp [page, List.take_take]

theorem page_snd :
    (page key limit rows before).2 =
      if limit < (below key rows before).length then (below key rows before)[limit - 1]?.map key
        else none := by
  have sameLength : limit < ((below key rows before).take (limit + 1)).length ↔
      limit < (below key rows before).length := by
    rw [List.length_take]
    omega
  have samePlace : ((below key rows before).take (limit + 1))[limit - 1]? =
    (below key rows before)[limit - 1]? :=
    List.getElem?_take_of_lt (by omega)
  simp only [page, sameLength, samePlace]

theorem lt_of_mem_page (member : r ∈ (page key limit rows before).1) : r ∈ rows ∧ key r < before := by
  rw [page_fst] at member
  exact mem_below.1 (List.mem_of_mem_take member)

theorem pairwise_page (distinct : (rows.map key).Nodup) :
    (page key limit rows before).1.Pairwise fun r r' => key r' < key r := by
  rw [page_fst]
  exact (pairwise_below distinct).sublist (List.take_sublist _ _)

theorem mem_page_of_stops (stops : (page key limit rows before).2 = none) (positive : 0 < limit)
    (member : r ∈ rows) (inside : key r < before) : r ∈ (page key limit rows before).1 := by
  have short : (below key rows before).length ≤ limit := by
    by_contra long
    rw [page_snd, if_pos (by omega), List.getElem?_eq_getElem (by omega)] at stops
    cases stops
  rw [page_fst, List.take_of_length_le short]
  exact mem_below.2 ⟨member, inside⟩

theorem page_of_goesOn (goesOn : (page key limit rows before).2 = some next) (positive : 0 < limit)
    (distinct : (rows.map key).Nodup) :
    next < before ∧ (∀ r ∈ (page key limit rows before).1, next ≤ key r) ∧
      ∀ r ∈ rows, key r < before → next ≤ key r → r ∈ (page key limit rows before).1 := by
  obtain ⟨found, isBelow⟩ : ∃ found, below key rows before = found := ⟨_, rfl⟩
  have sorted : (below key rows before).Pairwise fun r r' => key r' < key r := pairwise_below distinct
  rw [page_snd, isBelow] at goesOn
  rw [isBelow] at sorted
  split_ifs at goesOn with long
  rw [List.getElem?_eq_getElem (by omega), Option.map_some, Option.some.injEq] at goesOn
  rw [page_fst, isBelow]
  subst goesOn
  have split : found.take limit ++ found.drop limit = found := List.take_append_drop limit found
  -- The smallest key on the page is the one it names; all that is dropped lies below it.
  have lastMem : found[limit - 1] ∈ found.take limit := by
    rw [List.mem_take_iff_getElem]
    exact ⟨limit - 1, by omega, rfl⟩
  have apart : ∀ r ∈ found.take limit, ∀ r' ∈ found.drop limit, key r' < key r := by
    rw [← split, List.pairwise_append] at sorted
    exact sorted.2.2
  refine ⟨?_, ?_, ?_⟩
  · have member : found[limit - 1] ∈ below key rows before := by
      rw [isBelow]
      exact List.getElem_mem _
    exact (mem_below.1 member).2
  · intro r member
    obtain ⟨i, inside, rfl⟩ := List.mem_take_iff_getElem.1 member
    rcases Nat.lt_or_ge i (limit - 1) with earlier | later
    · exact (List.pairwise_iff_getElem.1 sorted i (limit - 1) (by omega) (by omega) earlier).le
    · have same : i = limit - 1 := by omega
      subst same
      exact le_rfl
  · intro r member inside notAfter
    have there : r ∈ found := by
      rw [← isBelow]
      exact mem_below.2 ⟨member, inside⟩
    rw [← split, List.mem_append] at there
    rcases there with front | back
    · exact front
    · exact absurd (apart _ lastMem r back) (not_lt.2 notAfter)

/-- Whatever changes meanwhile: nothing twice, and no key that is always there left out. -/
theorem Paged.exact {tables : List (List R)} {out : List R} (paged : Paged key limit before tables out)
    (positive : 0 < limit) (distinct : ∀ rows ∈ tables, (rows.map key).Nodup) :
    (out.Pairwise fun r r' => key r' < key r) ∧ (∀ r ∈ out, key r < before ∧ ∃ rows ∈ tables, r ∈ rows) ∧
      ∀ k < before, (∀ rows ∈ tables, ∃ r ∈ rows, key r = k) → ∃ r ∈ out, key r = k := by
  induction paged with
  | @last rows before stops =>
      refine ⟨pairwise_page (distinct rows (by simp)), fun r member => ?_, fun k inside always => ?_⟩
      · obtain ⟨there, inside⟩ := lt_of_mem_page member
        exact ⟨inside, rows, by simp, there⟩
      · obtain ⟨r, member, rfl⟩ := always rows (by simp)
        exact ⟨r, mem_page_of_stops stops positive member inside, rfl⟩
  | @more rows before next tables rest goesOn later ih =>
      obtain ⟨sorted, origin, complete⟩ := ih fun rows member => distinct rows (List.mem_cons_of_mem _ member)
      obtain ⟨less, above, fills⟩ := page_of_goesOn goesOn positive (distinct rows (by simp))
      refine ⟨?_, fun r member => ?_, fun k inside always => ?_⟩
      · rw [List.pairwise_append]
        refine ⟨pairwise_page (distinct rows (by simp)), sorted, fun r front r' back => ?_⟩
        exact (origin r' back).1.trans_le (above r front)
      · rcases List.mem_append.1 member with front | back
        · obtain ⟨there, inside⟩ := lt_of_mem_page front
          exact ⟨inside, rows, by simp, there⟩
        · obtain ⟨inside, table, isLater, there⟩ := origin r back
          exact ⟨inside.trans less, table, List.mem_cons_of_mem _ isLater, there⟩
      -- The key is on this page if it is not below `next`, and else on a later one.
      · by_cases onPage : next ≤ k
        · obtain ⟨r, member, rfl⟩ := always rows (by simp)
          exact ⟨r, List.mem_append_left _ (fills r member inside onPage), rfl⟩
        · have always' (table : List R) (member : table ∈ tables) :=
            always table (List.mem_cons_of_mem _ member)
          obtain ⟨r, member, same⟩ := complete k (not_le.1 onPage) always'
          exact ⟨r, List.mem_append_right _ member, same⟩

end Shared.Paging
