import Assembly8085.Bisection
import Mathlib.Algebra.Group.Nat.Defs

/-!
# The border that is searched for

Where a test holds of the first entries of an array and of no others, the entries that pass it and
those that do not have a border. The search keeps it between the two ends of its interval, and the
interval is empty before the rounds are used up. So what is found is the border, which is also the
number of all entries that pass. In an ascending array an entry stands at the border of those below
it, and nowhere else.
-/
namespace Assembly8085.Bisection

variable {α : Type}

/-- A test holds of the entries in front of a place and of none from there on. -/
structure IsBorder (entries : Array α) (test : α → Bool) (place : Nat) : Prop where
  /-- The place is one in front of an entry, or that behind the last one. -/
  within : place ≤ entries.size
  /-- An entry passes exactly if it stands in front. -/
  passes : ∀ index entry, entries[index]? = some entry → (test entry = true ↔ index < place)

/-- A border between the ends of an interval is found, given rounds for its length. -/
theorem IsBorder.search_eq {entries : Array α} {test : α → Bool} {place : Nat}
    (isBorder : IsBorder entries test place) {rounds low high : Nat} (above : low ≤ place)
    (below : place ≤ high) (within : high ≤ entries.size) (enough : high - low < 2 ^ rounds) :
    search entries test rounds low high = place := by
  induction rounds generalizing low high with
  | zero =>
    rw [search]
    omega
  | succ rounds ih =>
    rw [search]
    split
    · rename_i nonempty
      have halved : low + (high - low) / 2 < entries.size := by omega
      have side := isBorder.passes _ _ (Array.getElem?_eq_getElem halved)
      simp only [Array.getElem?_eq_getElem halved]
      -- The entry in the middle says on which side of it the border is.
      split
      · rename_i passed
        exact ih (side.mp passed) below within (by omega)
      · rename_i failed
        exact ih above (Nat.le_of_not_lt (failed ∘ side.mpr)) (by omega) (by omega)
    · omega

/-- The search over a whole array finds the border. -/
theorem IsBorder.border_eq {entries : Array α} {test : α → Bool} {place : Nat}
    (isBorder : IsBorder entries test place) : border entries test = place :=
  isBorder.search_eq (Nat.zero_le _) isBorder.within (Nat.le_refl _) Nat.lt_log2_self

/-- If only entries behind those that pass fail, an entry of a list passes exactly if it stands
in front of as many as pass. -/
theorem passes_iff_lt_countP {test : α → Bool} {entries : List α}
    (closed : entries.Pairwise fun earlier later => test later = true → test earlier = true)
    {index : Nat} {entry : α} (found : entries[index]? = some entry) :
    test entry = true ↔ index < entries.countP test := by
  induction closed generalizing index with
  | nil => simp at found
  | @cons first others leads _ ih =>
    rw [List.countP_cons]
    cases passed : test first with
    | true =>
      cases index with
      | zero => simp_all
      | succ index =>
        rw [List.getElem?_cons_succ] at found
        simp [ih found]
    | false =>
      have fails : ∀ other ∈ first :: others, test other = false := by
        intro other member
        rcases List.mem_cons.mp member with rfl | later
        · exact passed
        · exact Bool.eq_false_iff.mpr fun passes => by simp [leads other later passes] at passed
      have none : others.countP test = 0 :=
        List.countP_eq_zero.mpr fun other later => by simp [fails other (.tail _ later)]
      simp [none, fails entry (List.mem_of_getElem? found)]

/-- If only entries behind those that pass fail, the number of those that pass is a border. -/
theorem isBorder_countP {entries : Array α} {test : α → Bool}
    (closed : entries.toList.Pairwise fun earlier later =>
      test later = true → test earlier = true) :
    IsBorder entries test (entries.toList.countP test) where
  within := List.countP_le_length
  passes _ _ found := passes_iff_lt_countP closed (by rwa [Array.getElem?_toList])

section Ascending

variable [LT α] [DecidableLT α] [Std.Irrefl fun a b : α => a < b]
  [Trans (fun a b : α => a < b) (fun a b : α => a < b) fun a b : α => a < b]
  {entries : Array α} {item : α} (ascending : entries.toList.Pairwise (· < ·))

include ascending

/-- In an ascending array the border of the entries below an item is where the item stands. -/
theorem isBorder_of_getElem?_eq_some {index : Nat} (found : entries[index]? = some item) :
    IsBorder entries (fun entry => decide (entry < item)) index where
  within := by
    obtain ⟨within, _⟩ := Array.getElem?_eq_some_iff.mp found
    exact Nat.le_of_lt within
  passes other entry there := by
    have order {i j : Nat} {a b : α} (first : entries[i]? = some a)
        (second : entries[j]? = some b) (ascends : i < j) : a < b := by
      obtain ⟨before, rfl⟩ := Array.getElem?_eq_some_iff.mp first
      obtain ⟨behind, rfl⟩ := Array.getElem?_eq_some_iff.mp second
      exact List.pairwise_iff_getElem.mp ascending i j before behind ascends
    rw [decide_eq_true_eq]
    rcases Nat.lt_trichotomy other index with before | rfl | behind
    · exact iff_of_true (order there found before) before
    · obtain rfl : entry = item := Option.some.inj (there.symm.trans found)
      exact iff_of_false Std.lt_irrefl (Nat.lt_irrefl _)
    · have above := order found there behind
      exact iff_of_false (fun below => Std.lt_irrefl (Std.lt_trans below above))
        (Nat.lt_asymm behind)

/-- What stands at the border of the entries below an item of an ascending array is the item
exactly if the array has it. -/
theorem getElem?_border_eq_some_iff :
    entries[border entries fun entry => decide (entry < item)]? = some item ↔ item ∈ entries := by
  constructor
  · exact Array.mem_of_getElem?
  · intro member
    obtain ⟨index, found⟩ := Array.mem_iff_getElem?.mp member
    rw [(isBorder_of_getElem?_eq_some ascending found).border_eq, found]

end Ascending

end Assembly8085.Bisection
