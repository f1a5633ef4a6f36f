import AdaptiveAdler.Cell.DispatcherBank
import Mathlib.Data.Set.Card
import Mathlib.Order.Nat

/-! Dispatchers bind once.

What a dispatcher replies follows from the history of its bank alone. A dispatcher exists from
the step that creates it, and the selector answers what it was last told to (`inForce`); the
first use of a dispatcher binds it to the answer in force, by whatever access, and every reply
of that dispatcher is read off that one answer. `Follows` says so of the cells of a bank, and one
step keeps it (`Follows.step`). Uses of another dispatcher can be struck out of the history, for
they fill its own cell and nothing else (`Alike`). So the selector is asked once for every
dispatcher that is ever used (`dispatchers_bind_once`). -/
namespace AdaptiveAdler.DispatcherBank

/-! ### What a history says -/

namespace Step

def creates : Step → Bool
  | retarget _ => false
  | create => true
  | use _ _ => false

/-- What the selector is told to answer from now on. -/
def retarget? : Step → Option (Selected Routine)
  | retarget answer => some answer
  | create => none
  | use _ _ => none

def uses (k : Nat) : Step → Bool
  | retarget _ => false
  | create => false
  | use index _ => index == k

theorem uses_iff {s : Step} {k : Nat} : s.uses k = true ↔ ∃ access, s = .use k access := by
  cases s <;> simp [uses]

end Step

/-- A bank without dispatchers. -/
def fresh (answer : Selected Routine) : DispatcherBank where
  answer := answer

/-- How many dispatchers there are after a history. -/
def created (steps : List Step) : Nat := steps.countP Step.creates

/-- What the selector answers after a history: what it was told last, or its first answer. -/
def inForce (answer : Selected Routine) (steps : List Step) : Selected Routine :=
  (steps.filterMap Step.retarget?).getLast?.getD answer

/-- Dispatcher `k` exists at position `i` of a history and is used there. -/
def UsedAt (k : Nat) (steps : List Step) (i : Nat) : Prop :=
  (∃ access, steps[i]? = some (.use k access)) ∧ k < created (steps.take i)

/-- The position at which dispatcher `k` is used first. -/
def FirstUse (k : Nat) (steps : List Step) (first : Nat) : Prop :=
  IsLeast {i | UsedAt k steps i} first

/-- The dispatchers that are used at least once. -/
def used (steps : List Step) : Set Nat := {k | ∃ i, UsedAt k steps i}

/-- What each step replies, in order. -/
def replies (bank : DispatcherBank) : List Step → List (Option AccessReply)
  | [] => []
  | s :: rest => (bank.step s).1 :: replies (bank.step s).2 rest

theorem getElem?_replies (bank : DispatcherBank) (steps : List Step) (i : Nat) :
    (bank.replies steps)[i]? = steps[i]?.map fun s => ((bank.run (steps.take i)).step s).1 := by
  induction steps generalizing bank i with
  | nil => rfl
  | cons s rest ih =>
    cases i with
    | zero => rfl
    | succ i => exact ih _ i

/-! ### Histories with one step more -/

section History
variable {answer : Selected Routine} {steps : List Step} {s : Step} {k i first : Nat}

theorem created_append (a b : List Step) : created (a ++ b) = created a + created b :=
  List.countP_append

theorem inForce_append_singleton (steps : List Step) (s : Step) :
    inForce answer (steps ++ [s]) = s.retarget?.getD (inForce answer steps) := by
  rw [inForce, List.filterMap_append]
  cases h : s.retarget? with
  | none =>
    rw [List.filterMap_cons_none h, List.filterMap_nil, List.append_nil]
    rfl
  | some next =>
    rw [List.filterMap_cons_some h, List.filterMap_nil, List.getLast?_concat]
    rfl

theorem UsedAt.lt (h : UsedAt k steps i) : i < steps.length := by
  obtain ⟨⟨access, hat⟩, -⟩ := h
  exact (List.getElem?_eq_some_iff.mp hat).1

/-- Whether a dispatcher is used at a position does not depend on what follows. -/
theorem usedAt_append_left {a : List Step} (h : i < a.length) (b : List Step) :
    UsedAt k (a ++ b) i ↔ UsedAt k a i := by
  rw [UsedAt, UsedAt, List.getElem?_append_left h, List.take_append_of_le_length (Nat.le_of_lt h)]

theorem usedAt_take : UsedAt k (steps.take i) first ↔ first < i ∧ UsedAt k steps first := by
  by_cases h : first < (steps.take i).length
  · have hsplit := usedAt_append_left (k := k) h (steps.drop i)
    rw [List.take_append_drop] at hsplit
    rw [← hsplit]
    rw [List.length_take] at h
    exact (and_iff_right (by omega)).symm
  · refine iff_of_false (fun hused => h hused.lt) fun ⟨hlt, hused⟩ => h ?_
    have := hused.lt
    rw [List.length_take]
    omega

/-- The last step of a history uses a dispatcher if that exists before it. -/
theorem usedAt_length :
    UsedAt k (steps ++ [s]) steps.length ↔ s.uses k = true ∧ k < created steps := by
  rw [UsedAt, List.getElem?_concat_length, List.take_left, Step.uses_iff]
  simp only [Option.some.injEq]

theorem mem_used_append :
    k ∈ used (steps ++ [s]) ↔ k ∈ used steps ∨ s.uses k = true ∧ k < created steps := by
  constructor
  · rintro ⟨i, h⟩
    have hlt := h.lt
    rw [List.length_append, List.length_singleton] at hlt
    rcases Nat.lt_succ_iff_lt_or_eq.mp hlt with hi | rfl
    · exact .inl ⟨i, (usedAt_append_left hi _).mp h⟩
    · exact .inr (usedAt_length.mp h)
  · rintro (⟨i, h⟩ | h)
    · exact ⟨i, (usedAt_append_left h.lt _).mpr h⟩
    · exact ⟨steps.length, usedAt_length.mpr h⟩

theorem created_take_le (steps : List Step) (i : Nat) : created (steps.take i) ≤ created steps :=
  (List.take_sublist i steps).countP_le

theorem lt_created_of_mem_used (h : k ∈ used steps) : k < created steps := by
  obtain ⟨i, -, hexists⟩ := h
  exact hexists.trans_le (created_take_le steps i)

theorem exists_firstUse (h : k ∈ used steps) : ∃ first, FirstUse k steps first := by
  classical
  exact ⟨_, Set.Nonempty.isLeast_natFind h⟩

theorem FirstUse.mem_used (h : FirstUse k steps first) : k ∈ used steps := ⟨first, h.1⟩

/-- Up to a later position the first use is the same. -/
theorem FirstUse.take (h : FirstUse k steps first) (hlt : first < i) :
    FirstUse k (steps.take i) first :=
  ⟨usedAt_take.mpr ⟨hlt, h.1⟩, fun _ hj => h.2 (usedAt_take.mp hj).2⟩

/-- Before the first use a dispatcher has not been used. -/
theorem FirstUse.not_mem_used_take (h : FirstUse k steps first) : k ∉ used (steps.take first) := by
  rintro ⟨j, hj⟩
  obtain ⟨hlt, hused⟩ := usedAt_take.mp hj
  exact absurd (h.2 hused) (Nat.not_le.mpr hlt)

/-- A first use is the last step of the history, or was there before it. -/
theorem FirstUse.of_append (h : FirstUse k (steps ++ [s]) first) :
    FirstUse k steps first ∨ (first = steps.length ∧ k ∉ used steps) := by
  have hlt := h.1.lt
  rw [List.length_append, List.length_singleton] at hlt
  rcases Nat.lt_succ_iff_lt_or_eq.mp hlt with hi | rfl
  · have hearlier := h.take hi
    rw [List.take_left] at hearlier
    exact .inl hearlier
  · have hunused := h.not_mem_used_take
    rw [List.take_left] at hunused
    exact .inr ⟨rfl, hunused⟩

theorem used_append_use (access : Access) (h : k < created steps) :
    used (steps ++ [.use k access]) = insert k (used steps) := by
  ext j
  rw [mem_used_append, Set.mem_insert_iff, or_comm]
  refine or_congr_left ?_
  simp only [Step.uses, beq_iff_eq]
  exact ⟨fun hj => hj.1.symm, fun hj => by subst hj; exact ⟨rfl, h⟩⟩

/-- A step that uses no dispatcher there is adds none to those used. -/
theorem used_append_of_not_uses (h : ∀ k, k < created steps → s.uses k = false) :
    used (steps ++ [s]) = used steps := by
  ext k
  rw [mem_used_append]
  refine or_iff_left fun ⟨huses, hexists⟩ => ?_
  rw [h k hexists] at huses
  exact absurd huses (by decide)

theorem finite_used (steps : List Step) : (used steps).Finite :=
  (Set.finite_lt_nat (created steps)).subset fun _ h => lt_created_of_mem_used h

end History

/-! ### What one step does -/

section Step
variable (bank : DispatcherBank) {k : Nat}

theorem answer_step (s : Step) : (bank.step s).2.answer = s.retarget?.getD bank.answer := by
  cases s with
  | retarget answer => rfl
  | create => rfl
  | use index access =>
    simp only [step]
    split <;> rfl

theorem size_step (s : Step) :
    (bank.step s).2.cells.length = bank.cells.length + created [s] := by
  cases s with
  | retarget answer => rfl
  | create => exact List.length_append
  | use index access =>
    simp only [step]
    split
    · rfl
    · exact List.length_set

/-- A use fills the cell of its dispatcher, and nothing else touches a cell. -/
theorem cell_step {cell : WriteOnce (Selected Routine)} (h : bank.cells[k]? = some cell)
    (s : Step) : (bank.step s).2.cells[k]? =
      some (if s.uses k then cell.fill bank.answer else cell) := by
  obtain ⟨hlt, -⟩ := List.getElem?_eq_some_iff.mp h
  cases s with
  | retarget answer => exact h
  | create => exact (List.getElem?_append_left hlt).trans h
  | use index access =>
    by_cases hindex : index = k
    · subst hindex
      simp only [step, h, Step.uses, beq_self_eq_true, if_true]
      exact List.getElem?_set_self hlt
    · simp only [step, Step.uses, beq_eq_false_iff_ne.mpr hindex, Bool.false_eq_true, if_false]
      split
      · exact h
      · exact (List.getElem?_set_ne hindex).trans h

/-- A cell comes into being empty, after the others. -/
theorem cell_step_of_none (h : bank.cells[k]? = none) (s : Step) :
    (bank.step s).2.cells[k]? =
      if s.creates = true ∧ k = bank.cells.length then some .empty else none := by
  have hle : bank.cells.length ≤ k := List.getElem?_eq_none_iff.mp h
  have hsize := bank.size_step s
  by_cases hnew : s.creates = true ∧ k = bank.cells.length
  · obtain ⟨hcreates, rfl⟩ := hnew
    rw [if_pos ⟨hcreates, rfl⟩]
    cases s with
    | create => exact List.getElem?_concat_length
    | retarget | use => cases hcreates
  · rw [if_neg hnew, List.getElem?_eq_none_iff, hsize]
    cases s with
    | create =>
      have hone : created [.create] = 1 := rfl
      have hne : k ≠ bank.cells.length := fun heq => hnew ⟨rfl, heq⟩
      omega
    | retarget | use => exact hle

theorem step_use {cell : WriteOnce (Selected Routine)} (h : bank.cells[k]? = some cell)
    (access : Access) : (bank.step (.use k access)).1 =
      some (access.reply (cell.deliver bank.answer)) := by
  simp only [step, h]

theorem asked_step_use {cell : WriteOnce (Selected Routine)} (h : bank.cells[k]? = some cell)
    (access : Access) : (bank.step (.use k access)).2.asked =
      if cell.value?.isSome then bank.asked else bank.asked + 1 := by
  simp only [step, h]

end Step

/-! ### A bank follows its history -/

/-- The cells of a bank as its history has them: those of the dispatchers used hold the answer
that was in force at the first use, the others nothing, and the selector has been asked once
for each dispatcher used. -/
structure Follows (answer : Selected Routine) (steps : List Step) (bank : DispatcherBank) :
    Prop where
  current : bank.answer = inForce answer steps
  size : bank.cells.length = created steps
  bound : ∀ k first, FirstUse k steps first →
    bank.cells[k]? = some ⟨some (inForce answer (steps.take first))⟩
  unbound : ∀ k, k < created steps → k ∉ used steps → bank.cells[k]? = some .empty
  asked : bank.asked = (used steps).ncard

section Follows
variable {answer : Selected Routine} {steps : List Step} {bank : DispatcherBank} {k : Nat}

/-- Every dispatcher there is has a cell. -/
theorem Follows.exists_cell (h : Follows answer steps bank) (hk : k < created steps) :
    ∃ cell, bank.cells[k]? = some cell ∧ (cell.value?.isSome = true ↔ k ∈ used steps) := by
  by_cases hused : k ∈ used steps
  · obtain ⟨first, hfirst⟩ := exists_firstUse hused
    exact ⟨_, h.bound k first hfirst, iff_of_true rfl hused⟩
  · exact ⟨_, h.unbound k hk hused, iff_of_false (by decide) hused⟩

theorem follows_fresh (answer : Selected Routine) : Follows answer [] (fresh answer) := by
  have hused : used [] = ∅ := Set.eq_empty_of_forall_notMem fun k hk =>
    absurd (lt_created_of_mem_used hk) (Nat.not_lt_zero k)
  refine ⟨rfl, rfl, fun k first h => ?_, fun k hk => absurd hk (Nat.not_lt_zero k), ?_⟩
  · exact absurd h.1.lt (Nat.not_lt_zero first)
  · rw [hused, Set.ncard_empty]
    rfl

theorem Follows.asked_step (h : Follows answer steps bank) (s : Step) :
    (bank.step s).2.asked = (used (steps ++ [s])).ncard := by
  cases s with
  | retarget | create =>
    rw [used_append_of_not_uses fun _ _ => rfl]
    exact h.asked
  | use index access =>
    by_cases hindex : index < created steps
    · obtain ⟨cell, hcell, hbound⟩ := h.exists_cell hindex
      rw [asked_step_use bank hcell, used_append_use access hindex, h.asked]
      by_cases hused : index ∈ used steps
      · rw [if_pos (hbound.mpr hused), Set.insert_eq_of_mem hused]
      · rw [if_neg (mt hbound.mp hused), Set.ncard_insert_of_notMem hused (finite_used steps)]
    · have hmissing : bank.cells[index]? = none := by
        rw [List.getElem?_eq_none_iff, h.size]
        exact Nat.le_of_not_lt hindex
      rw [used_append_of_not_uses fun k hk => ?_]
      · simp only [step, hmissing]
        exact h.asked
      · exact beq_eq_false_iff_ne.mpr fun heq => hindex (heq ▸ hk)

theorem Follows.step (h : Follows answer steps bank) (s : Step) :
    Follows answer (steps ++ [s]) (bank.step s).2 := by
  refine ⟨?_, ?_, fun k first hfirst => ?_, fun k hk hunused => ?_, h.asked_step s⟩
  · rw [answer_step, inForce_append_singleton, h.current]
  · rw [size_step, created_append, h.size]
  · rcases hfirst.of_append with hbefore | ⟨rfl, hunused⟩
    · rw [cell_step bank (h.bound k first hbefore), List.take_append_of_le_length hbefore.1.lt.le]
      exact congrArg some (ite_self _)
    · -- The step is the first use: it finds the cell empty and fills it.
      obtain ⟨huses, hk⟩ := usedAt_length.mp hfirst.1
      rw [cell_step bank (h.unbound k hk hunused), List.take_left, if_pos huses, h.current]
      rfl
  · rw [mem_used_append, not_or] at hunused
    by_cases hbefore : k < created steps
    · have huses : s.uses k = false := by
        rw [← Bool.not_eq_true]
        exact fun huses => hunused.2 ⟨huses, hbefore⟩
      rw [cell_step bank (h.unbound k hbefore hunused.1), huses]
      rfl
    · -- The step creates the dispatcher.
      have hnone : bank.cells[k]? = none := by
        rw [List.getElem?_eq_none_iff, h.size]
        exact Nat.le_of_not_lt hbefore
      rw [cell_step_of_none bank hnone, h.size]
      rw [created_append] at hk
      cases s with
      | create =>
        have hone : created [.create] = 1 := rfl
        exact if_pos ⟨rfl, by omega⟩
      | retarget | use => exact absurd hk hbefore

theorem follows_run (answer : Selected Routine) (steps : List Step) :
    Follows answer steps ((fresh answer).run steps) := by
  induction steps using List.reverseRecOn with
  | nil => exact follows_fresh answer
  | append_singleton steps s ih =>
    rw [run_append]
    exact ih.step s

/-- What a dispatcher replies is read off the answer that was in force at its first use, be that
long ago or now. -/
theorem Follows.reply {first i : Nat} {all : List Step} {access : Access}
    (hfirst : FirstUse k all first) (hused : UsedAt k all i)
    (h : Follows answer (all.take i) bank) :
    (bank.step (.use k access)).1 = some (access.reply (inForce answer (all.take first))) := by
  rcases Nat.lt_or_eq_of_le (hfirst.2 hused) with hlt | rfl
  · have hcell := h.bound k first (hfirst.take hlt)
    rw [step_use bank hcell, List.take_take, Nat.min_eq_left hlt.le]
    rfl
  · have hcell := h.unbound k hused.2 hfirst.not_mem_used_take
    rw [step_use bank hcell, h.current]
    rfl

end Follows

/-! ### Uses of another dispatcher -/

/-- Two banks that differ in the cell of dispatcher `k` at most, and in how often the selector
has been asked. -/
structure Alike (k : Nat) (bank other : DispatcherBank) : Prop where
  answer : bank.answer = other.answer
  size : bank.cells.length = other.cells.length
  cells : ∀ j, j ≠ k → bank.cells[j]? = other.cells[j]?

section Alike
variable {k : Nat} {bank other : DispatcherBank}

theorem Alike.step (h : Alike k bank other) (s : Step) :
    Alike k (bank.step s).2 (other.step s).2 := by
  refine ⟨?_, ?_, fun j hj => ?_⟩
  · rw [answer_step, answer_step, h.answer]
  · rw [size_step, size_step, h.size]
  · have hsame := h.cells j hj
    cases hcell : bank.cells[j]? with
    | some cell => rw [cell_step bank hcell, cell_step other (hsame.symm.trans hcell), h.answer]
    | none =>
      rw [cell_step_of_none bank hcell, cell_step_of_none other (hsame.symm.trans hcell), h.size]

/-- A use of the dispatcher in question makes no more difference than there is already. -/
theorem Alike.use (h : Alike k bank other) (access : Access) :
    Alike k (bank.step (.use k access)).2 other := by
  refine ⟨?_, ?_, fun j hj => ?_⟩
  · rw [answer_step]
    exact h.answer
  · rw [size_step]
    exact h.size
  · rw [← h.cells j hj]
    cases hcell : bank.cells[j]? with
    | some cell =>
      rw [cell_step bank hcell, Step.uses, beq_eq_false_iff_ne.mpr hj.symm]
      rfl
    | none =>
      rw [cell_step_of_none bank hcell]
      exact if_neg fun hcreates => Bool.false_ne_true hcreates.1

/-- Its uses can be struck out. -/
theorem Alike.run (h : Alike k bank other) (steps : List Step) :
    Alike k (bank.run steps) (other.run (steps.filter fun s => !s.uses k)) := by
  induction steps generalizing bank other with
  | nil => exact h
  | cons s rest ih =>
    cases huses : s.uses k with
    | true =>
      obtain ⟨access, rfl⟩ := Step.uses_iff.mp huses
      rw [List.filter_cons_of_neg (by rw [huses]; decide)]
      exact ih (h.use access)
    | false =>
      rw [List.filter_cons_of_pos (by rw [huses]; decide)]
      exact ih (h.step s)

theorem Alike.reply (h : Alike k bank other) {j : Nat} (hj : j ≠ k) (access : Access) :
    (bank.step (.use j access)).1 = (other.step (.use j access)).1 := by
  have hsame := h.cells j hj
  cases hcell : bank.cells[j]? with
  | some cell => rw [step_use bank hcell, step_use other (hsame.symm.trans hcell), h.answer]
  | none => simp only [DispatcherBank.step, hcell, hsame.symm.trans hcell]

end Alike

/-! ### Whole histories -/

/-- In a whole history every reply of a dispatcher is read off the answer that was in force at
its first use. -/
theorem getElem?_replies_of_firstUse (answer : Selected Routine) {steps : List Step}
    {k first i : Nat} {access : Access} (hfirst : FirstUse k steps first)
    (hk : k < created (steps.take i)) (hi : steps[i]? = some (.use k access)) :
    ((fresh answer).replies steps)[i]? =
      some (some (access.reply (inForce answer (steps.take first)))) := by
  rw [getElem?_replies, hi]
  exact congrArg some ((follows_run answer _).reply hfirst ⟨⟨access, hi⟩, hk⟩)

/-- **Dispatchers bind once**, whatever is done to a bank. Each dispatcher that is used has a
first use, and all that it ever replies is drawn from the answer that the selector gave then, with
whatever access came first and however the selector answers later: asked for the selection it
gives that answer, asked for its name the name in it, asked for the routine the target in it, and
a call is a call of that target. Striking out the uses of one dispatcher leaves the replies of all
others as they are. And the selector has been asked once for each dispatcher that has been
used. -/
theorem dispatchers_bind_once (answer : Selected Routine) (steps : List Step) :
    (∀ k, k ∈ used steps → ∃ first, FirstUse k steps first) ∧
      (∀ k first, FirstUse k steps first →
        let bound := inForce answer (steps.take first)
        ∀ i, k < created (steps.take i) →
          let reply := ((fresh answer).replies steps)[i]?
          (steps[i]? = some (.use k .selection) → reply = some (some (.selection bound))) ∧
            (steps[i]? = some (.use k .name) → reply = some (some (.name bound.name))) ∧
            (steps[i]? = some (.use k .routine) → reply = some (some (.routine bound.target))) ∧
            ∀ digest b, steps[i]? = some (.use k (.call digest b)) →
              reply = some (some (.digest (bound.target digest b)))) ∧
      (∀ j k, j ≠ k → ∀ access,
        (((fresh answer).run steps).step (.use j access)).1 =
          (((fresh answer).run (steps.filter fun s => !s.uses k)).step (.use j access)).1) ∧
      ((fresh answer).run steps).asked = (used steps).ncard := by
  refine ⟨fun k hk => exists_firstUse hk, ?_, fun j k hj access => ?_,
    (follows_run answer steps).asked⟩
  · intro k first hfirst bound i hk reply
    have hreply {access : Access} (hi : steps[i]? = some (.use k access)) :
        reply = some (some (access.reply bound)) :=
      getElem?_replies_of_firstUse answer hfirst hk hi
    exact ⟨fun hi => hreply hi, fun hi => hreply hi, fun hi => hreply hi, fun _ _ hi => hreply hi⟩
  · have hstart : Alike k (fresh answer) (fresh answer) := ⟨rfl, rfl, fun _ _ => rfl⟩
    exact (hstart.run steps).reply hj access

/-- Two dispatchers and a selector that changes its mind between their first uses. The first one
is bound by asking for its name, and the second one by a call; later the first is asked for its
routine and the second for its selection. -/
theorem dispatchers_with_changing_selector :
    let early : Selected Routine := ⟨"early", fun digest _ => digest⟩
    let late : Selected Routine := ⟨"late", fun _ _ => 0⟩
    let b : Buffer := ⟨[1, 2], 0⟩
    let steps : List Step := [.create, .use 0 .name, .retarget late, .create, .use 1 (.call 5 b),
      .use 0 (.call 7 b), .use 1 .name, .use 0 .routine, .use 1 .selection]
    let replies := (fresh early).replies steps
    (0 ∈ used steps ∧ FirstUse 0 steps 1 ∧ FirstUse 1 steps 4 ∧ 1 ≠ 0) ∧
      (replies[1]? = some (some (.name "early")) ∧ replies[5]? = some (some (.digest 7)) ∧
        replies[7]? = some (some (.routine fun digest _ => digest))) ∧
      (replies[4]? = some (some (.digest 0)) ∧ replies[6]? = some (some (.name "late")) ∧
        replies[8]? = some (some (.selection late))) ∧
      (((fresh early).run (steps.filter fun s => !s.uses 0)).step (.use 1 .name)).1 =
        some (.name "late") ∧
      (used steps).ncard = 2 := by
  intro early late b steps replies
  have hzero : FirstUse 0 steps 1 := by
    refine ⟨⟨⟨_, rfl⟩, by decide⟩, fun i hi => Nat.pos_of_ne_zero ?_⟩
    rintro rfl
    obtain ⟨⟨access, hat⟩, -⟩ := hi
    cases hat
  have hone : FirstUse 1 steps 4 := by
    refine ⟨⟨⟨_, rfl⟩, by decide⟩, fun i ⟨⟨_, hat⟩, _⟩ => Nat.le_of_not_lt fun hlt => ?_⟩
    have hcases : i = 0 ∨ i = 1 ∨ i = 2 ∨ i = 3 := by omega
    rcases hcases with rfl | rfl | rfl | rfl <;> cases hat
  obtain ⟨-, hbind, hother, hasked⟩ := dispatchers_bind_once early steps
  obtain ⟨-, hfirstName, -, -⟩ := hbind 0 1 hzero 1 (by decide)
  obtain ⟨-, -, -, hfirstCall⟩ := hbind 0 1 hzero 5 (by decide)
  obtain ⟨-, -, hfirstRoutine, -⟩ := hbind 0 1 hzero 7 (by decide)
  obtain ⟨-, -, -, hsecondCall⟩ := hbind 1 4 hone 4 (by decide)
  obtain ⟨-, hsecondName, -, -⟩ := hbind 1 4 hone 6 (by decide)
  obtain ⟨hsecondSelection, -⟩ := hbind 1 4 hone 8 (by decide)
  exact ⟨⟨hzero.mem_used, hzero, hone, by decide⟩,
    ⟨hfirstName rfl, hfirstCall 7 b rfl, hfirstRoutine rfl⟩,
    ⟨hsecondCall 5 b rfl, hsecondName rfl, hsecondSelection rfl⟩,
    (hother 1 0 (by decide) .name).symm, hasked.symm⟩

end AdaptiveAdler.DispatcherBank
