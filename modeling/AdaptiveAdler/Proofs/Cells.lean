import AdaptiveAdler.Cell.Once
import Mathlib.Logic.Function.Iterate

/-! Cells are written once.

Whatever is asked of a cell, it holds the first value it was offered, and computes no other. A
`WriteOnce` has this by construction. A phased cell has it because it is idle between steps
(`Phased.Idle`): empty, with a slot that may hold anything, or full of that first value.

A step of a phased cell is one call of several moves, and a call is followed here move by move
(`Course`). It looks at the phase before it touches the slot, and waits for good in a cell that
stays in the phase of writing, which is when the step has no outcome (`step_eq_some_iff`). From an
idle cell no call waits or reads a slot that is not written, and it ends in an idle cell
(`Phased.Idle.course_done`). So the two cells reply alike (`cells_are_written_once`). -/
namespace AdaptiveAdler
variable {α : Type}

/-! ### What a history says -/

/-- The value that a step offers, if it asks for one. -/
def CellStep.offered? : CellStep α → Option α
  | get => none
  | getOrInit offered => some offered

def firstOffer (steps : List (CellStep α)) : Option α := steps.findSome? CellStep.offered?

theorem firstOffer_cons (c : CellStep α) (rest : List (CellStep α)) :
    firstOffer (c :: rest) = c.offered?.or (firstOffer rest) := by
  cases c <;> rfl

namespace CellReply

/-- The reply of a cell that was first offered this: that value, computed once. -/
def ofFirst (first : Option α) : CellReply α := ⟨first, if first.isSome then 1 else 0⟩

/-- The replies of a cell that was first offered this before, if anything. -/
def repliesFrom (first : Option α) : List (CellStep α) → List (CellReply α)
  | [] => []
  | c :: rest => ofFirst (first.or c.offered?) :: repliesFrom (first.or c.offered?) rest

theorem getElem?_repliesFrom (first : Option α) (steps : List (CellStep α)) (i : Nat) :
    (repliesFrom first steps)[i]? =
      steps[i]?.map fun _ => ofFirst (first.or (firstOffer (steps.take (i + 1)))) := by
  induction steps generalizing first i with
  | nil => rfl
  | cons c rest ih =>
    cases i with
    | zero =>
      have hone : firstOffer ((c :: rest).take 1) = c.offered? :=
        (firstOffer_cons c []).trans Option.or_none
      rw [hone]
      rfl
    | succ i =>
      rw [List.take_succ_cons, firstOffer_cons, ← Option.or_assoc]
      exact ih _ i

end CellReply
open CellReply

/-! ### The cell as an optional value -/

namespace WriteOnce.Counted

/-- The cell holds the first value offered, and has computed it alone. -/
structure Holds (s : Counted α) (first : Option α) : Prop where
  value : s.cell.value? = first
  computed : s.computed = if first.isSome then 1 else 0

theorem Holds.step {s : Counted α} {first : Option α} (h : s.Holds first) (c : CellStep α) :
    (s.step c).1 = ofFirst (first.or c.offered?) ∧ (s.step c).2.Holds (first.or c.offered?) := by
  obtain ⟨⟨value⟩, computed⟩ := s
  obtain ⟨hvalue, rfl⟩ := h
  obtain rfl : value = first := hvalue
  cases value <;> cases c <;> exact ⟨rfl, rfl, rfl⟩

theorem Holds.replies {s : Counted α} {first : Option α} (h : s.Holds first)
    (steps : List (CellStep α)) : s.replies steps = repliesFrom first steps := by
  induction steps generalizing s first with
  | nil => rfl
  | cons c rest ih =>
    obtain ⟨hreply, hnext⟩ := h.step c
    exact congrArg₂ List.cons hreply (ih hnext)

end WriteOnce.Counted

/-! ### The course of a call -/

namespace Phased

/-- Where a call stands. -/
inductive Point (α : Type)
  /-- About to look at the phase; the call may offer a value. -/
  | look (offered : Option α)
  /-- About to read the slot. -/
  | read
  /-- About to take the right to write. -/
  | acquire (offered : α)
  | compute (offered : α)
  | write (value : α)
  | publish (value : α)
  /-- Looking at the phase again and again. -/
  | wait
  | done (value : Option α)

/-- A call of a cell under way. -/
structure Course (α : Type) where
  point : Point α
  cell : Phased α

/-- One move of a call. -/
def Course.move : Course α → Course α
  | ⟨.look offered, s⟩ =>
    match s.phase, offered with
    | .full, _ => ⟨.read, s⟩
    | _, none => ⟨.done none, s⟩
    | _, some value => ⟨.acquire value, s⟩
  | ⟨.read, s⟩ => ⟨.done s.slot, s⟩
  | ⟨.acquire offered, s⟩ =>
    match s.phase with
    | .empty => ⟨.compute offered, {s with phase := .writing}⟩
    | _ => ⟨.wait, s⟩
  | ⟨.compute offered, s⟩ => ⟨.write offered, {s with computed := s.computed + 1}⟩
  | ⟨.write value, s⟩ => ⟨.publish value, {s with slot := some value}⟩
  | ⟨.publish value, s⟩ => ⟨.done (some value), {s with phase := .full}⟩
  | ⟨.wait, s⟩ =>
    match s.phase with
    | .full => ⟨.read, s⟩
    | _ => ⟨.wait, s⟩
  | ⟨.done value, s⟩ => ⟨.done value, s⟩

/-- A call after some moves. -/
def course (s : Phased α) (c : CellStep α) (n : Nat) : Course α :=
  Course.move^[n] ⟨.look c.offered?, s⟩

theorem move_done (value : Option α) (s : Phased α) (n : Nat) :
    Course.move^[n] ⟨.done value, s⟩ = ⟨.done value, s⟩ :=
  Function.iterate_fixed rfl n

/-- A call that has come to an end stays there. -/
theorem course_of_done {s next : Phased α} {c : CellStep α} {value : Option α} {n : Nat}
    (h : s.course c n = ⟨.done value, next⟩) (more : Nat) :
    s.course c (more + n) = ⟨.done value, next⟩ := by
  rw [course] at h
  rw [course, Function.iterate_add_apply, h]
  exact move_done value next more

/-- A call ends in one way only. -/
theorem course_unique {s t u : Phased α} {c : CellStep α} {a b : Option α} {m n : Nat}
    (hm : s.course c m = ⟨.done a, t⟩) (hn : s.course c n = ⟨.done b, u⟩) : a = b ∧ t = u := by
  have hsame : (⟨.done a, t⟩ : Course α) = ⟨.done b, u⟩ := by
    rw [← course_of_done hm n, ← course_of_done hn m, Nat.add_comm]
  cases hsame
  exact ⟨rfl, rfl⟩

/-- In a cell that stays in the phase of writing, a call that offers a value waits for good. -/
theorem course_of_writing {s : Phased α} (h : s.phase = .writing) (offered : α) (n : Nat) :
    s.course (.getOrInit offered) (n + 2) = ⟨.wait, s⟩ := by
  obtain ⟨_, slot, computed⟩ := s
  cases h
  exact Function.iterate_fixed rfl n

/-- A full cell has been written. -/
def Written (s : Phased α) : Prop := s.phase = .full → s.slot.isSome

theorem exists_course_of_step {s next : Phased α} {c : CellStep α} {reply : CellReply α}
    (h : s.step c = some (reply, next)) :
    reply.computed = next.computed ∧ ∃ n, s.course c n = ⟨.done reply.value, next⟩ := by
  obtain ⟨phase, slot, computed⟩ := s
  cases c with
  | get =>
    cases h
    cases phase with
    | full => exact ⟨rfl, 2, rfl⟩
    | empty | writing => exact ⟨rfl, 1, rfl⟩
  | getOrInit offered =>
    cases phase with
    | empty =>
      cases h
      exact ⟨rfl, 5, rfl⟩
    | writing => cases h
    | full =>
      cases slot with
      | none => cases h
      | some value =>
        cases h
        exact ⟨rfl, 2, rfl⟩

/-- The only step without an outcome offers a value to a cell in the phase of writing. -/
theorem writing_of_step_eq_none {s : Phased α} (hs : s.Written) {c : CellStep α}
    (h : s.step c = none) : s.phase = .writing ∧ ∃ offered, c = .getOrInit offered := by
  obtain ⟨phase, slot, computed⟩ := s
  cases c with
  | get => cases h
  | getOrInit offered =>
    cases phase with
    | empty => cases h
    | writing => exact ⟨rfl, offered, rfl⟩
    | full =>
      obtain ⟨value, rfl⟩ := Option.isSome_iff_exists.mp (hs rfl)
      cases h

/-- **A step is a call that ends**: it has an outcome just if the call comes to an end, and then
it is what the call comes to. -/
theorem step_eq_some_iff {s next : Phased α} (hs : s.Written) (c : CellStep α)
    (reply : CellReply α) : s.step c = some (reply, next) ↔
      reply.computed = next.computed ∧ ∃ n, s.course c n = ⟨.done reply.value, next⟩ := by
  refine ⟨exists_course_of_step, fun ⟨hcomputed, n, hdone⟩ => ?_⟩
  cases hstep : s.step c with
  | none =>
    obtain ⟨hwriting, offered, rfl⟩ := writing_of_step_eq_none hs hstep
    have hlater := course_of_done hdone 2
    rw [Nat.add_comm, course_of_writing hwriting] at hlater
    cases hlater
  | some outcome =>
    obtain ⟨⟨value, computed⟩, after⟩ := outcome
    obtain ⟨hafter, m, hcourse⟩ := exists_course_of_step hstep
    obtain ⟨hvalue, rfl⟩ := course_unique hcourse hdone
    obtain ⟨_, _⟩ := reply
    cases hvalue
    cases hafter
    cases hcomputed
    rfl

/-! ### The cell in phases -/

/-- No step of the cell is under way: it is empty, and its slot may hold anything, or full of the
first value offered, which it has computed alone. -/
structure Idle (s : Phased α) (first : Option α) : Prop where
  phase : s.phase = if first.isSome then .full else .empty
  slot : ∀ value, first = some value → s.slot = some value
  computed : s.computed = if first.isSome then 1 else 0

theorem Idle.written {s : Phased α} {first : Option α} (h : s.Idle first) : s.Written := by
  intro hfull
  cases first with
  | none => cases hfull.symm.trans h.phase
  | some value => rw [h.slot value rfl, Option.isSome_some]

/-- A call that waits for nobody and reads a slot only where it is written. -/
structure Course.Sound (x : Course α) : Prop where
  not_waiting : x.point ≠ .wait
  written_if_reading : x.point = .read → x.cell.phase = .full ∧ x.cell.slot.isSome

/-- How far a call that began in an idle cell has come. -/
def Course.Follows (first offered : Option α) : Course α → Prop
  | ⟨.look value, s⟩ => value = offered ∧ s.Idle first
  | ⟨.read, s⟩ => first.isSome ∧ s.Idle first
  | ⟨.acquire value, s⟩ => first = none ∧ offered = some value ∧ s.Idle none
  | ⟨.compute value, s⟩ => first = none ∧ offered = some value ∧ s.computed = 0
  | ⟨.write value, s⟩ => first = none ∧ offered = some value ∧ s.computed = 1
  | ⟨.publish value, s⟩ =>
    first = none ∧ offered = some value ∧ s.computed = 1 ∧ s.slot = some value
  | ⟨.wait, _⟩ => False
  | ⟨.done value, s⟩ => value = first.or offered ∧ s.Idle (first.or offered)

/-- How many moves are left at most to a call that does not wait. -/
def Point.left : Point α → Nat
  | look _ => 5
  | acquire _ => 4
  | compute _ => 3
  | write _ => 2
  | publish _ => 1
  | read => 1
  | wait => 0
  | done _ => 0

section Calls
variable {first offered : Option α} {s : Phased α}

theorem Course.Follows.sound {x : Course α} (h : x.Follows first offered) : x.Sound := by
  obtain ⟨point, s⟩ := x
  refine ⟨fun hwait => ?_, fun hread => ?_⟩
  · cases hwait
    exact h
  · cases hread
    obtain ⟨hsome, hidle⟩ := h
    have hfull : s.phase = .full := by rw [hidle.phase, if_pos hsome]
    exact ⟨hfull, hidle.written hfull⟩

theorem Course.Follows.move {x : Course α} (h : x.Follows first offered) :
    x.move.Follows first offered ∧ x.move.point.left ≤ x.point.left - 1 := by
  obtain ⟨point, phase, slot, computed⟩ := x
  cases point with
  | look value =>
    obtain ⟨rfl, hphase, hslot, hcomputed⟩ := h
    cases first with
    | none =>
      cases hphase
      cases value with
      | none => exact ⟨⟨rfl, rfl, hslot, hcomputed⟩, Nat.zero_le 4⟩
      | some offered => exact ⟨⟨rfl, rfl, rfl, hslot, hcomputed⟩, Nat.le_refl 4⟩
    | some held =>
      cases hphase
      exact ⟨⟨rfl, rfl, hslot, hcomputed⟩, Nat.le_add_left 1 3⟩
  | read =>
    obtain ⟨hsome, hidle⟩ := h
    obtain ⟨held, rfl⟩ := Option.isSome_iff_exists.mp hsome
    exact ⟨⟨hidle.slot held rfl, hidle⟩, Nat.le_refl 0⟩
  | acquire value =>
    obtain ⟨rfl, rfl, hphase, -, hcomputed⟩ := h
    cases hphase
    exact ⟨⟨rfl, rfl, hcomputed⟩, Nat.le_refl 3⟩
  | compute value =>
    obtain ⟨rfl, rfl, rfl⟩ := h
    exact ⟨⟨rfl, rfl, rfl⟩, Nat.le_refl 2⟩
  | write value =>
    obtain ⟨rfl, rfl, rfl⟩ := h
    exact ⟨⟨rfl, rfl, rfl, rfl⟩, Nat.le_refl 1⟩
  | publish value =>
    obtain ⟨rfl, rfl, rfl, rfl⟩ := h
    exact ⟨⟨rfl, rfl, fun _ h => h, rfl⟩, Nat.le_refl 0⟩
  | wait => exact h.elim
  | done value => exact ⟨h, Nat.le_refl 0⟩

/-- A call with no moves left has found the first value offered. -/
theorem Course.Follows.done {x : Course α} (h : x.Follows first offered)
    (hleft : x.point.left = 0) :
    ∃ next, x = ⟨.done (first.or offered), next⟩ ∧ next.Idle (first.or offered) := by
  obtain ⟨point, next⟩ := x
  cases point with
  | done value =>
    obtain ⟨rfl, hnext⟩ := h
    exact ⟨next, rfl, hnext⟩
  | wait => exact h.elim
  | look | read | acquire | compute | write | publish => cases hleft

theorem Idle.follows_course (h : s.Idle first) (c : CellStep α) (n : Nat) :
    (s.course c n).Follows first c.offered? ∧ (s.course c n).point.left ≤ 5 - n := by
  induction n with
  | zero => exact ⟨⟨rfl, h⟩, Nat.le_refl 5⟩
  | succ n ih =>
    obtain ⟨hfollows, hleft⟩ := ih
    have hmove : s.course c (n + 1) = (s.course c n).move :=
      Function.iterate_succ_apply' Course.move n _
    rw [hmove]
    exact ⟨hfollows.move.1, Nat.le_trans hfollows.move.2 (Nat.sub_le_sub_right hleft 1)⟩

/-- A call of an idle cell ends in an idle cell. -/
theorem Idle.course_done (h : s.Idle first) (c : CellStep α) :
    ∃ next, s.course c 5 = ⟨.done (first.or c.offered?), next⟩ ∧
      next.Idle (first.or c.offered?) := by
  obtain ⟨hfollows, hleft⟩ := h.follows_course c 5
  exact hfollows.done (Nat.le_zero.mp hleft)

theorem Idle.step (h : s.Idle first) (c : CellStep α) :
    ∃ next, s.step c = some (ofFirst (first.or c.offered?), next) ∧
      next.Idle (first.or c.offered?) := by
  obtain ⟨next, hdone, hnext⟩ := h.course_done c
  exact ⟨next, (step_eq_some_iff h.written c _).mpr ⟨hnext.computed.symm, 5, hdone⟩, hnext⟩

end Calls

/-! ### Runs -/

/-- The cell after some steps, if each of them has an outcome. -/
def run (s : Phased α) : List (CellStep α) → Option (Phased α)
  | [] => some s
  | c :: rest => (s.step c).bind fun outcome => outcome.2.run rest

section Runs
variable {first : Option α} {s : Phased α}

theorem Idle.run (h : s.Idle first) (steps : List (CellStep α)) :
    ∃ final, s.run steps = some final ∧ final.Idle (first.or (firstOffer steps)) := by
  induction steps generalizing s first with
  | nil => exact ⟨s, rfl, by rwa [firstOffer, List.findSome?_nil, Option.or_none]⟩
  | cons c rest ih =>
    obtain ⟨next, hstep, hnext⟩ := h.step c
    obtain ⟨final, hrun, hfinal⟩ := ih hnext
    refine ⟨final, ?_, by rwa [firstOffer_cons, ← Option.or_assoc]⟩
    rw [Phased.run, hstep]
    exact hrun

theorem Idle.replies (h : s.Idle first) (steps : List (CellStep α)) :
    s.replies steps = repliesFrom first steps := by
  induction steps generalizing s first with
  | nil => rfl
  | cons c rest ih =>
    obtain ⟨next, hstep, hnext⟩ := h.step c
    rw [Phased.replies, hstep, repliesFrom]
    exact congrArg _ (ih hnext)

end Runs
end Phased

/-- **Both cells are written once**, whatever is asked of them and whatever the slot of the one in
phases holds before it is written. They reply alike: with the first value offered so far, if any,
computed once, or else with nothing and nothing computed. Between steps the cell in phases is
empty until the first offer and full of its value from then on; so whatever is asked next, the
call never waits, reads the slot of a full cell only, and ends as the step says. -/
theorem cells_are_written_once (unwritten : Option α) (steps : List (CellStep α)) :
    let phased : Phased α := ⟨.empty, unwritten, 0⟩
    let plain : WriteOnce.Counted α := {}
    phased.replies steps = plain.replies steps ∧
      (∀ i, (plain.replies steps)[i]? =
        steps[i]?.map fun _ => ofFirst (firstOffer (steps.take (i + 1)))) ∧
      ∀ i, ∃ s, phased.run (steps.take i) = some s ∧ s.Idle (firstOffer (steps.take i)) ∧
        ∀ c, (∀ n, (s.course c n).Sound) ∧
          ∃ n value next, s.course c n = ⟨.done value, next⟩ ∧
            s.step c = some (⟨value, next.computed⟩, next) := by
  intro phased plain
  have hidle : phased.Idle none := by
    refine ⟨rfl, fun value h => ?_, rfl⟩
    cases h
  have hholds : plain.Holds none := ⟨rfl, rfl⟩
  refine ⟨?_, fun i => ?_, fun i => ?_⟩
  · rw [hidle.replies, hholds.replies]
  · rw [hholds.replies, getElem?_repliesFrom]
    rfl
  · obtain ⟨s, hrun, hs⟩ := hidle.run (steps.take i)
    refine ⟨s, hrun, hs, fun c => ⟨fun n => (hs.follows_course c n).1.sound, ?_⟩⟩
    obtain ⟨next, hdone, -⟩ := hs.course_done c
    exact ⟨5, _, next, hdone, (Phased.step_eq_some_iff hs.written c _).mpr ⟨rfl, 5, hdone⟩⟩

end AdaptiveAdler
