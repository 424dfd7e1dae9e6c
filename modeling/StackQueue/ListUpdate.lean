import Mathlib.Algebra.BigOperators.Group.List.Basic

namespace ListUpdate

/-!
# Replacing and appending one element of a list

What lookups and mapped lists become when one element of a list is replaced or
a new one is appended.
-/

variable {Item Image : Type*}

/-- Looking up a list after one element was replaced. -/
theorem getElem?_set_cases
    {items : List Item}
    {i j : Nat}
    {new item : Item}
    (found : (items.set i new)[j]? = some item) :
    (j = i ∧ item = new) ∨ (j ≠ i ∧ items[j]? = some item) := by
  by_cases here : i = j
  · subst here
    rw [List.getElem?_set_self'] at found
    cases present : items[i]? with
    | none =>
        simp [present] at found
    | some old =>
        rw [present] at found
        exact Or.inl ⟨rfl, (Option.some.inj found).symm⟩
  · rw [List.getElem?_set_ne here] at found
    exact Or.inr ⟨Ne.symm here, found⟩

/-- Looking up a list after one element was appended. -/
theorem getElem?_concat_cases
    {items : List Item}
    {j : Nat}
    {new item : Item}
    (found : (items ++ [new])[j]? = some item) :
    items[j]? = some item ∨ (j = items.length ∧ item = new) := by
  rw [List.getElem?_append] at found
  split at found
  · exact Or.inl found
  · rename_i notBelow
    obtain ⟨inBounds, shape⟩ := List.getElem?_eq_some_iff.mp found
    simp only [List.length_cons, List.length_nil] at inBounds
    have atEnd : j = items.length := by omega
    subst atEnd
    simp only [Nat.sub_self, List.getElem_cons_zero] at shape
    exact Or.inr ⟨rfl, shape.symm⟩

/-- Replacing an element by itself changes nothing. -/
theorem set_of_getElem?
    {items : List Item}
    {i : Nat}
    {item : Item}
    (found : items[i]? = some item) :
    items.set i item = items := by
  obtain ⟨inBounds, shape⟩ := List.getElem?_eq_some_iff.mp found
  rw [← shape]
  exact List.set_getElem_self inBounds

/-- Mapping is unaffected by replacing an element that maps to the same. -/
theorem map_set_of_same
    {project : Item → Image}
    {items : List Item}
    {i : Nat}
    {old new : Item}
    (found : items[i]? = some old)
    (same : project new = project old) :
    (items.set i new).map project = items.map project := by
  rw [List.map_set, same]
  refine List.ext_getElem? fun j => ?_
  by_cases here : i = j
  · subst here
    rw [List.getElem?_set_self', List.getElem?_map, found]
    rfl
  · rw [List.getElem?_set_ne here]

/-- A test of all elements is unaffected by replacing one that tests alike. -/
theorem any_set_of_same
    {test : Item → Bool}
    {items : List Item}
    {i : Nat}
    {old new : Item}
    (found : items[i]? = some old)
    (same : test new = test old) :
    (items.set i new).any test = items.any test := by
  have asMap (list : List Item) : list.any test = (list.map test).any id := by
    simp [List.any_map]
  rw [asMap, asMap, map_set_of_same found same]

/-- Replacing a kept element by a dropped one removes its image. -/
theorem filter_map_set_perm
    {keep : Item → Bool}
    {project : Item → Image}
    {items : List Item}
    {i : Nat}
    {old new : Item}
    (found : items[i]? = some old)
    (kept : keep old = true)
    (dropped : keep new = false) :
    ((items.filter keep).map project).Perm
      (project old :: ((items.set i new).filter keep).map project) := by
  induction items generalizing i with
  | nil =>
      simp at found
  | cons item rest inductionHypothesis =>
      cases i with
      | zero =>
          simp only [List.getElem?_cons_zero, Option.some.injEq] at found
          subst found
          simp [kept, dropped]
      | succ i =>
          rw [List.getElem?_cons_succ] at found
          have tail := inductionHypothesis found
          rw [List.set_cons_succ]
          by_cases itemKept : keep item = true
          · simp only [List.filter_cons, itemKept, if_true, List.map_cons]
            exact (tail.cons _).trans (List.Perm.swap _ _ _)
          · simp only [List.filter_cons, itemKept, if_false, Bool.false_eq_true]
            exact tail

/-- Replacing an element by one that is kept and mapped alike changes nothing. -/
theorem filter_map_set_of_same
    {keep : Item → Bool}
    {project : Item → Image}
    {items : List Item}
    {i : Nat}
    {old new : Item}
    (found : items[i]? = some old)
    (sameKept : keep new = keep old)
    (sameImage : keep old = true → project new = project old) :
    ((items.set i new).filter keep).map project =
      (items.filter keep).map project := by
  induction items generalizing i with
  | nil =>
      rfl
  | cons item rest inductionHypothesis =>
      cases i with
      | zero =>
          simp only [List.getElem?_cons_zero, Option.some.injEq] at found
          subst found
          rw [List.set_cons_zero, List.filter_cons, List.filter_cons,
            sameKept]
          split
          · rename_i isKept
            rw [List.map_cons, List.map_cons, sameImage isKept]
          · rfl
      | succ i =>
          rw [List.getElem?_cons_succ] at found
          have tail := inductionHypothesis found
          rw [List.set_cons_succ]
          simp only [List.filter_cons]
          split
          · rw [List.map_cons, List.map_cons, tail]
          · exact tail

end ListUpdate
