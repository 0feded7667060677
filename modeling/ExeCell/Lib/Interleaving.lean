import Mathlib.Data.List.Induction
import Mathlib.Data.List.Nodup

/-!
# Interleavings of tasks that do not interfere

A system of tasks takes one step at a time. A step changes the state of its own task, and
may announce another task, which then gets a first state that depends on the state of the
task that announces it. Which steps a task takes is given, and so is the order in which
the steps of all tasks are taken.

* `System.idle`: nothing happens to a task that neither steps nor is announced.
* `System.Ordered.agree`: in two orders of the same steps, in both of which each task is
  announced once and before its first step, a task is in the same state whenever it has
  taken the same steps, and has put out the same.
-/

namespace Interleaving

/-- Where the picked elements of a list are put together, the list is. -/
theorem exists_of_filterMap {α β : Type} {f : α → Option β} {list : List α} {b : β}
    {before later : List β} (h : list.filterMap f = before ++ b :: later) :
    ∃ front a rest, list = front ++ a :: rest ∧ f a = some b ∧ front.filterMap f = before ∧
      rest.filterMap f = later := by
  obtain ⟨front, tail, rfl, hfront, htail⟩ := List.filterMap_eq_append_iff.mp h
  obtain ⟨skipped, a, rest, rfl, hskipped, ha, hrest⟩ := List.filterMap_eq_cons_iff.mp htail
  refine ⟨front ++ skipped, a, rest, (List.append_assoc ..).symm, ha, ?_, hrest⟩
  rw [List.filterMap_append, List.filterMap_eq_nil_iff.mpr hskipped, List.append_nil, hfront]

variable {π α σ ω : Type}

structure System (π α σ ω : Type) where
  /-- The state of a task after its own step. -/
  next : π → Option σ → α → Option σ
  /-- What the task puts out in the step. -/
  emits : π → Option σ → α → List ω
  /-- The task that the step announces. -/
  announced : π → α → Option π
  /-- The first state of that task. -/
  first : π → Option σ → α → Option σ

/-- The steps of one task, in order. -/
def stepsOf [DecidableEq π] (p : π) (turns : List (π × α)) : List α :=
  turns.filterMap fun turn => if turn.1 = p then some turn.2 else none

namespace System

variable (S : System π α σ ω)

/-- The task that this turn announces. -/
def announcedBy (turn : π × α) : Option π := S.announced turn.1 turn.2

/-- The root, or a task that one of these turns announces. -/
def Known (root : π) (turns : List (π × α)) (p : π) : Prop :=
  p = root ∨ ∃ turn ∈ turns, S.announcedBy turn = some p

/-- Every task but the root is announced before its first step, and no task twice. -/
structure Ordered (root : π) (turns : List (π × α)) : Prop where
  known : ∀ front turn rest, turns = front ++ turn :: rest → S.Known root front turn.1
  distinct : (root :: turns.filterMap S.announcedBy).Nodup

instance {S : System π α σ ω} [DecidableEq π] {root : π} {turns : List (π × α)} {p : π} :
    Decidable (S.Known root turns p) :=
  inferInstanceAs (Decidable (_ ∨ _))

/-! ## Ordered turns -/

section Ordered

variable {S} {root p : π} {turn : π × α} {turns turns' : List (π × α)}

theorem Ordered.of_take
    (hknown : ∀ i (h : i < turns.length), S.Known root (turns.take i) turns[i].1)
    (hdistinct : (root :: turns.filterMap S.announcedBy).Nodup) : S.Ordered root turns := by
  refine ⟨?_, hdistinct⟩
  rintro front turn rest rfl
  have h := hknown front.length (by simp)
  simpa using h

theorem Known.append (h : S.Known root turns p) : S.Known root (turns ++ turns') p := by
  obtain h | ⟨turn, hmem, h⟩ := h
  · exact Or.inl h
  · exact Or.inr ⟨turn, List.mem_append_left _ hmem, h⟩

/-- A task that is known is not announced again. -/
theorem Ordered.quiet (hordered : S.Ordered root (turns ++ turns')) (hknown : S.Known root turns p) :
    ∀ turn ∈ turns', S.announcedBy turn ≠ some p := by
  intro turn hmem hannounced
  have hlater : p ∈ turns'.filterMap S.announcedBy :=
    List.mem_filterMap.mpr ⟨turn, hmem, hannounced⟩
  have hdistinct := hordered.distinct
  rw [List.filterMap_append] at hdistinct
  obtain rfl | ⟨earlier, hearlier, heq⟩ := hknown
  · exact (List.nodup_cons.mp hdistinct).1 (List.mem_append_right _ hlater)
  · have hbefore : p ∈ turns.filterMap S.announcedBy :=
      List.mem_filterMap.mpr ⟨earlier, hearlier, heq⟩
    exact List.disjoint_of_nodup_append (List.nodup_cons.mp hdistinct).2 hbefore hlater

/-- Nothing has happened to a task that is not known. -/
theorem Ordered.unknown (hordered : S.Ordered root (turns ++ turns'))
    (hunknown : ¬ S.Known root turns p) :
    (∀ turn ∈ turns, turn.1 ≠ p) ∧ ∀ turn ∈ turns, S.announcedBy turn ≠ some p := by
  constructor
  · rintro turn hmem rfl
    obtain ⟨front, rest, rfl⟩ := List.append_of_mem hmem
    have hfront := hordered.known front turn (rest ++ turns') (List.append_assoc ..)
    exact hunknown hfront.append
  · intro turn hmem hannounced
    exact hunknown (Or.inr ⟨turn, hmem, hannounced⟩)

/-- Up to the announcement of a task it is not known. -/
theorem Ordered.unknown_before (hordered : S.Ordered root (turns ++ turn :: turns'))
    (hannounced : S.announcedBy turn = some p) : ¬ S.Known root turns p := by
  intro hknown
  exact hordered.quiet hknown turn List.mem_cons_self hannounced

/-- A task is announced in one place only. -/
theorem Ordered.announcement_unique {front front' rest rest' : List (π × α)} {turn turn' : π × α}
    (hordered : S.Ordered root (front ++ turn :: rest))
    (heq : front ++ turn :: rest = front' ++ turn' :: rest')
    (hannounced : S.announcedBy turn = some p) (hannounced' : S.announcedBy turn' = some p) :
    front = front' ∧ turn = turn' := by
  have hbefore := hordered.unknown_before hannounced
  have hbefore' := (heq ▸ hordered).unknown_before hannounced'
  obtain ⟨middle, hfront, htail⟩ | ⟨middle, hfront, htail⟩ := List.append_eq_append_iff.mp heq
  · cases middle with
    | nil =>
      rw [hfront, List.append_nil]
      exact ⟨rfl, (List.cons.inj htail).1⟩
    | cons first middle =>
      obtain ⟨rfl, _⟩ := List.cons.inj htail
      refine absurd (Or.inr ⟨turn, ?_, hannounced⟩) hbefore'
      rw [hfront]
      exact List.mem_append_right _ List.mem_cons_self
  · cases middle with
    | nil =>
      rw [hfront, List.append_nil]
      exact ⟨rfl, (List.cons.inj htail).1.symm⟩
    | cons first middle =>
      obtain ⟨rfl, _⟩ := List.cons.inj htail
      refine absurd (Or.inr ⟨turn', ?_, hannounced'⟩) hbefore
      rw [hfront]
      exact List.mem_append_right _ List.mem_cons_self

end Ordered

/-! ## States -/

variable [DecidableEq π]

/-- The states of all tasks after a turn. A task that is announced and has a state
already keeps it. -/
def step (states : π → Option σ) (turn : π × α) (p : π) : Option σ :=
  if turn.1 = p then S.next p (states p) turn.2
  else if S.announcedBy turn = some p then
    (states p).or (S.first turn.1 (states turn.1) turn.2)
  else states p

def after (states : π → Option σ) (turns : List (π × α)) : π → Option σ :=
  turns.foldl S.step states

/-- What one task puts out in these turns. -/
def emitted (p : π) : (π → Option σ) → List (π × α) → List ω
  | _, [] => []
  | states, turn :: turns =>
    (if turn.1 = p then S.emits p (states p) turn.2 else []) ++ emitted p (S.step states turn) turns

variable {S} {states : π → Option σ} {root p : π} {turn : π × α} {turns turns' : List (π × α)}

theorem after_append : S.after states (turns ++ turns') = S.after (S.after states turns) turns' :=
  List.foldl_append

theorem after_concat : S.after states (turns ++ [turn]) = S.step (S.after states turns) turn :=
  List.foldl_concat ..

theorem emitted_append :
    S.emitted p states (turns ++ turns') =
      S.emitted p states turns ++ S.emitted p (S.after states turns) turns' := by
  induction turns generalizing states with
  | nil => rfl
  | cons turn turns ih =>
    rw [List.cons_append, emitted, emitted, ih, List.append_assoc]
    rfl

theorem step_of_other (hstep : turn.1 ≠ p) (hquiet : S.announcedBy turn ≠ some p) :
    S.step states turn p = states p := by
  rw [step, if_neg hstep, if_neg hquiet]

/-- A task that does not step puts out nothing. -/
theorem emitted_eq_nil (hsteps : ∀ turn ∈ turns, turn.1 ≠ p) : S.emitted p states turns = [] := by
  induction turns generalizing states with
  | nil => rfl
  | cons turn turns ih =>
    obtain ⟨hstep, hsteps⟩ := List.forall_mem_cons.mp hsteps
    rw [emitted, if_neg hstep, ih hsteps]
    rfl

/-- Nothing happens to a task that neither steps nor is announced. -/
theorem idle (hsteps : ∀ turn ∈ turns, turn.1 ≠ p)
    (hquiet : ∀ turn ∈ turns, S.announcedBy turn ≠ some p) :
    S.after states turns p = states p := by
  induction turns generalizing states with
  | nil => rfl
  | cons turn turns ih =>
    obtain ⟨hstep, hsteps⟩ := List.forall_mem_cons.mp hsteps
    obtain ⟨hnow, hquiet⟩ := List.forall_mem_cons.mp hquiet
    rw [after, List.foldl_cons]
    exact (ih hsteps hquiet).trans (step_of_other hstep hnow)

/-! ## The steps of one task -/

theorem stepsOf_append :
    stepsOf p (turns ++ turns') = stepsOf p turns ++ stepsOf p turns' :=
  List.filterMap_append

theorem stepsOf_cons_self (a : α) : stepsOf p ((p, a) :: turns) = a :: stepsOf p turns :=
  List.filterMap_cons_some (if_pos rfl)

theorem stepsOf_eq_nil : stepsOf p turns = [] ↔ ∀ turn ∈ turns, turn.1 ≠ p := by
  unfold stepsOf
  simp

/-- Where the steps of a task are put together, the turns are. -/
theorem exists_of_stepsOf {a : α} {before later : List α}
    (h : stepsOf p turns = before ++ a :: later) :
    ∃ front rest, turns = front ++ (p, a) :: rest ∧ stepsOf p front = before ∧
      stepsOf p rest = later := by
  obtain ⟨front, ⟨q, b⟩, rest, rfl, hstep, hfront, hrest⟩ := exists_of_filterMap h
  obtain ⟨rfl, rfl⟩ : q = p ∧ b = a := by
    split at hstep
    · rename_i heq
      exact ⟨heq, Option.some.inj hstep⟩
    · cases hstep
  exact ⟨front, rest, rfl, hfront, hrest⟩

/-! ## Two orders of the same steps -/

section Two

variable {first second A A' B B' front rest tail : List (π × α)} {init : π → Option σ}

/-- The last step of a task decides what has become of it. -/
theorem Ordered.at_step {a : α} (hordered : S.Ordered root (front ++ (p, a) :: rest ++ tail))
    (hrest : stepsOf p rest = []) :
    S.after init (front ++ (p, a) :: rest) p = S.next p (S.after init front p) a ∧
      S.emitted p init (front ++ (p, a) :: rest) =
        S.emitted p init front ++ S.emits p (S.after init front p) a := by
  rw [List.append_assoc, List.cons_append] at hordered
  have hknown := hordered.known front (p, a) (rest ++ tail) rfl
  have hquiet : ∀ turn ∈ rest, S.announcedBy turn ≠ some p := by
    intro turn hmem
    exact hordered.quiet hknown turn (List.mem_cons_of_mem _ (List.mem_append_left _ hmem))
  have hsteps := stepsOf_eq_nil.mp hrest
  constructor
  · rw [after_append, after, List.foldl_cons]
    exact (idle hsteps hquiet).trans (if_pos rfl)
  · rw [emitted_append, emitted, if_pos rfl, emitted_eq_nil hsteps, List.append_nil]

/-- Until its first step a task has the state that its announcement has given to it. -/
theorem Ordered.at_announcement (hordered : S.Ordered root (front ++ turn :: rest ++ tail))
    (hannounced : S.announcedBy turn = some p) (hfresh : ∀ p, p ≠ root → init p = none)
    (hsteps : ∀ turn ∈ rest, turn.1 ≠ p) :
    S.after init (front ++ turn :: rest) p =
        S.first turn.1 (S.after init front turn.1) turn.2 ∧
      S.emitted p init (front ++ turn :: rest) = [] := by
  rw [List.append_assoc, List.cons_append] at hordered
  have hunknown : ¬ S.Known root front p := hordered.unknown_before hannounced
  have hother : turn.1 ≠ p := by
    intro heq
    exact hunknown (heq ▸ hordered.known front turn (rest ++ tail) rfl)
  obtain ⟨hfront, hbefore⟩ := hordered.unknown hunknown
  have hquiet : ∀ turn ∈ rest, S.announcedBy turn ≠ some p := by
    intro later hmem
    rw [List.append_cons] at hordered
    refine hordered.quiet (Or.inr ⟨turn, ?_, hannounced⟩) later (List.mem_append_left _ hmem)
    exact List.mem_append_right _ List.mem_cons_self
  have hnone : init p = none := hfresh p fun heq => hunknown (Or.inl heq)
  constructor
  · rw [after_append, after, List.foldl_cons]
    refine (idle hsteps hquiet).trans ?_
    rw [step, if_neg hother, if_pos hannounced, idle hfront hbefore, hnone]
    rfl
  · rw [emitted_append, emitted_eq_nil hfront, emitted, if_neg hother, emitted_eq_nil hsteps]
    rfl

/-- A task is announced by the same step of the same task. -/
theorem Ordered.same_announcement {a b : π × α} (hsecond : S.Ordered root (B ++ b :: B'))
    (hsame : stepsOf a.1 (A ++ a :: A') = stepsOf a.1 (B ++ b :: B'))
    (hannounced : S.announcedBy a = some p) (hannounced' : S.announcedBy b = some p) :
    a = b ∧ stepsOf a.1 A = stepsOf a.1 B := by
  obtain ⟨q, step⟩ := a
  rw [stepsOf_append, stepsOf_cons_self] at hsame
  obtain ⟨front, rest, heq, hfront, _⟩ := exists_of_stepsOf hsame.symm
  obtain ⟨rfl, rfl⟩ := hsecond.announcement_unique heq hannounced' hannounced
  exact ⟨rfl, hfront.symm⟩

/-- In two orders of the same steps a task is in the same state, and has put out the
same, whenever it has taken the same steps. -/
theorem Ordered.agree (hfirst : S.Ordered root first) (hsecond : S.Ordered root second)
    (hsame : ∀ p, stepsOf p first = stepsOf p second) (hfresh : ∀ p, p ≠ root → init p = none)
    (hA : A ++ A' = first) (hB : B ++ B' = second) (hsteps : stepsOf p A = stepsOf p B)
    (hknownA : S.Known root A p) (hknownB : S.Known root B p) :
    S.after init A p = S.after init B p ∧ S.emitted p init A = S.emitted p init B := by
  subst hA hB
  induction A using List.reverseRecOn generalizing p A' B B' with
  | nil =>
    -- only the root is known before the first turn
    obtain rfl : p = root := by
      obtain h | ⟨turn, hmem, _⟩ := hknownA
      · exact h
      · cases hmem
    have hquiet := @Ordered.quiet _ _ _ _ S p p [] (B ++ B') hsecond (Or.inl rfl)
    have hnone := stepsOf_eq_nil.mp hsteps.symm
    constructor
    · exact (idle hnone fun turn hmem => hquiet turn (List.mem_append_left _ hmem)).symm
    · exact (emitted_eq_nil hnone).symm
  | append_singleton A a ih =>
    have hfirst' := hfirst
    have hsame' := hsame
    rw [List.append_assoc, List.singleton_append] at hfirst' hsame'
    have hturn : S.Known root A a.1 := hfirst'.known A a A' rfl
    by_cases hknown : S.Known root A p
    · by_cases hstep : a.1 = p
      · -- the other order has the step too, and no step of the task after it
        obtain ⟨q, step⟩ := a
        obtain rfl : q = p := hstep
        rw [stepsOf_append, stepsOf_cons_self] at hsteps
        obtain ⟨front, rest, rfl, hfront, hrest⟩ := exists_of_stepsOf hsteps.symm
        obtain ⟨hstateA, hemittedA⟩ := @Ordered.at_step _ _ _ _ S _ root q A [] A' init step
          hfirst rfl
        obtain ⟨hstateB, hemittedB⟩ := @Ordered.at_step _ _ _ _ S _ root q front rest B' init step
          hsecond hrest
        rw [List.append_assoc, List.cons_append] at hsecond hsame'
        obtain ⟨hstate, hemitted⟩ := ih hfront.symm hknown
          (hsecond.known front (q, step) (rest ++ B') rfl) hfirst' hsecond hsame'
        rw [hstateA, hstateB, hemittedA, hemittedB, hstate, hemitted]
        exact ⟨rfl, rfl⟩
      · have hquiet : S.announcedBy a ≠ some p := hfirst'.quiet hknown a List.mem_cons_self
        have hnone : stepsOf p [a] = [] := by
          rw [stepsOf_eq_nil]
          simpa using hstep
        rw [stepsOf_append, hnone, List.append_nil] at hsteps
        obtain ⟨hstate, hemitted⟩ := ih hsteps hknown hknownB hfirst' hsecond hsame'
        rw [after_concat, step_of_other hstep hquiet, emitted_append, emitted, if_neg hstep,
          emitted, List.append_nil, List.append_nil]
        exact ⟨hstate, hemitted⟩
    · -- the turn announces the task, and so does the same turn of the other order
      have hannounced : S.announcedBy a = some p := by
        obtain h | ⟨turn, hmem, h⟩ := hknownA
        · exact absurd (Or.inl h) hknown
        · rcases List.mem_append.mp hmem with hmem | hmem
          · exact absurd (Or.inr ⟨turn, hmem, h⟩) hknown
          · rwa [List.mem_singleton.mp hmem] at h
      have hroot : p ≠ root := fun h => hknown (Or.inl h)
      obtain ⟨b, hmem, hannounced'⟩ := hknownB.resolve_left hroot
      obtain ⟨front, rest, rfl⟩ := List.append_of_mem hmem
      have hstep : a.1 ≠ p := by
        rintro rfl
        exact hknown hturn
      have hsilent : stepsOf p (front ++ b :: rest) = [] := by
        rw [← hsteps, stepsOf_eq_nil, List.forall_mem_append]
        exact ⟨(hfirst'.unknown hknown).1, by simpa using hstep⟩
      obtain ⟨_, hafter⟩ := List.forall_mem_append.mp (stepsOf_eq_nil.mp hsilent)
      obtain ⟨hstateA, hemittedA⟩ := @Ordered.at_announcement _ _ _ _ S _ root p a A [] A' init
        hfirst hannounced hfresh (by simp)
      obtain ⟨hstateB, hemittedB⟩ := @Ordered.at_announcement _ _ _ _ S _ root p b front rest B'
        init hsecond hannounced' hfresh (List.forall_mem_cons.mp hafter).2
      rw [List.append_assoc, List.cons_append] at hsecond hsame'
      obtain ⟨rfl, hbefore⟩ := hsecond.same_announcement (hsame' a.1) hannounced hannounced'
      obtain ⟨hstate, _⟩ := ih hbefore hturn
        (hsecond.known front a (rest ++ B') rfl) hfirst' hsecond hsame'
      rw [hstateA, hstateB, hemittedA, hemittedB, hstate]
      exact ⟨rfl, rfl⟩

theorem Ordered.known_of_step (hordered : S.Ordered root turns) (hsteps : stepsOf p turns ≠ []) :
    S.Known root turns p := by
  by_contra hunknown
  rw [← List.append_nil turns] at hordered
  exact hsteps (stepsOf_eq_nil.mpr (hordered.unknown hunknown).1)

/-- Two orders of the same steps put out the same for each task. -/
theorem Ordered.emitted_eq (hfirst : S.Ordered root first) (hsecond : S.Ordered root second)
    (hsame : ∀ p, stepsOf p first = stepsOf p second) (hfresh : ∀ p, p ≠ root → init p = none) :
    S.emitted p init first = S.emitted p init second := by
  by_cases hsteps : stepsOf p first = []
  · have hsteps' := hsame p ▸ hsteps
    rw [emitted_eq_nil (stepsOf_eq_nil.mp hsteps), emitted_eq_nil (stepsOf_eq_nil.mp hsteps')]
  · have hsteps' := hsame p ▸ hsteps
    exact (hfirst.agree hsecond hsame hfresh (List.append_nil _) (List.append_nil _) (hsame p)
      (hfirst.known_of_step hsteps) (hsecond.known_of_step hsteps')).2

end Two

end System

end Interleaving
