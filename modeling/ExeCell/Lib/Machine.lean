import Mathlib.Data.List.Basic

/-!
# Step machines and their runs

A machine takes one step for one input: it either refuses the input or answers with
an output and the next state. Every kind of nondeterminism (the answer of a system
call, the choice of the process that moves) is part of the input, so that a run is a
function of its input list and can be evaluated.

* `Machine.run` executes a list of inputs and keeps one output per input.
* `Machine.run_invariant` lifts a property kept by every step to whole runs.
* `Machine.run_seen` compares the runs of two machines by what is seen of their states.
* `Machine.Along` says that every step of a run is taken from a state, and with an
  input, that meet a condition; `Machine.run_invariant_along` is the invariant rule
  for such runs.
* `Machine.Reaches` says that some inputs of a kind lead from one state to another;
  `Machine.Reaches.invariant` keeps a property forwards and
  `Machine.Reaches.backward` carries one back.
* `Machine.along_iff_along_dropLast` is for properties of a step that the step before
  decides.
* `Machine.along_log` turns a condition on what each step adds to a log into one on the
  log at the end; `Machine.run_ghost` is the invariant rule for a log that is no part of the
  state.
-/

namespace Machine

variable {σ ι ω : Type}

/-- The outputs of the whole input list and the state after it; `none` when some
input is refused. -/
def run (step : σ → ι → Option (ω × σ)) : σ → List ι → Option (List ω × σ)
  | s, [] => some ([], s)
  | s, i :: is =>
    match step s i with
    | none => none
    | some (o, t) =>
      match run step t is with
      | none => none
      | some (os, u) => some (o :: os, u)

variable {step : σ → ι → Option (ω × σ)}

@[simp] theorem run_nil (s : σ) : run step s [] = some ([], s) := rfl

theorem run_cons {s u : σ} {i : ι} {is : List ι} {outs : List ω} :
    run step s (i :: is) = some (outs, u) ↔
      ∃ o t os, step s i = some (o, t) ∧ run step t is = some (os, u) ∧ outs = o :: os := by
  constructor
  · intro h
    rw [run] at h
    split at h
    · cases h
    · rename_i o t hstep
      split at h
      · cases h
      · rename_i os v hrest
        simp only [Option.some.injEq, Prod.mk.injEq] at h
        obtain ⟨rfl, rfl⟩ := h
        exact ⟨o, t, os, hstep, hrest, rfl⟩
  · rintro ⟨o, t, os, hstep, hrest, rfl⟩
    rw [run, hstep]
    simp only [hrest]

/-- A run over a list that is put together goes through a state between its parts. -/
theorem run_append {s u : σ} {is js : List ι} {outs : List ω} :
    run step s (is ++ js) = some (outs, u) ↔
      ∃ os t, run step s is = some (os, t) ∧ ∃ os', run step t js = some (os', u) ∧
        outs = os ++ os' := by
  induction is generalizing s outs with
  | nil => simp
  | cons i is ih =>
    rw [List.cons_append, run_cons]
    constructor
    · rintro ⟨o, t, os, ht, hrest, rfl⟩
      obtain ⟨os₁, v, hfirst, os₂, hsecond, rfl⟩ := ih.mp hrest
      exact ⟨o :: os₁, v, run_cons.mpr ⟨o, t, os₁, ht, hfirst, rfl⟩, os₂, hsecond, rfl⟩
    · rintro ⟨os₁, v, hfirst, os₂, hsecond, rfl⟩
      obtain ⟨o, t, os, ht, hrest, rfl⟩ := run_cons.mp hfirst
      exact ⟨o, t, os ++ os₂, ht, ih.mpr ⟨os, v, hrest, os₂, hsecond, rfl⟩, rfl⟩

/-- A property of states that every step keeps holds after every run. -/
theorem run_invariant (I : σ → Prop)
    (hstep : ∀ s i o t, I s → step s i = some (o, t) → I t)
    {s u : σ} {is : List ι} {outs : List ω} (h0 : I s)
    (h : run step s is = some (outs, u)) : I u := by
  induction is generalizing s outs with
  | nil =>
    simp only [run_nil, Option.some.injEq, Prod.mk.injEq] at h
    exact h.2 ▸ h0
  | cons i is ih =>
    obtain ⟨o, t, os, ht, hrest, rfl⟩ := run_cons.mp h
    exact ih (hstep s i o t h0 ht) hrest

/-- Two options that look the same are both empty, or their values look the same. -/
theorem map_eq_map {α β τ : Type} {f : α → τ} {g : β → τ} {a : Option α} {b : Option β}
    (h : a.map f = b.map g) :
    a = none ∧ b = none ∨ ∃ x y, a = some x ∧ b = some y ∧ f x = g y := by
  cases a with
  | none =>
    have hnone : b = none := Option.map_eq_none_iff.mp h.symm
    exact Or.inl ⟨rfl, hnone⟩
  | some x =>
    obtain ⟨y, hy, heq⟩ := Option.map_eq_some_iff.mp h.symm
    exact Or.inr ⟨x, y, rfl, hy, heq.symm⟩

/-- Two machines whose steps look the same from outside have runs that do. -/
theorem run_seen {σ' ω' τ : Type} {step' : σ' → ι → Option (ω' × σ')} (f : σ → τ) (g : σ' → τ)
    (hstep : ∀ s s' i, f s = g s' →
      (step s i).map (fun x => f x.2) = (step' s' i).map fun x => g x.2)
    {s : σ} {s' : σ'} (h : f s = g s') (is : List ι) :
    (run step s is).map (fun x => f x.2) = (run step' s' is).map fun x => g x.2 := by
  induction is generalizing s s' with
  | nil => simpa using h
  | cons i is ih =>
    rw [run, run]
    rcases map_eq_map (hstep s s' i h) with ⟨hnone, hnone'⟩ | ⟨x, x', hx, hx', hseen⟩
    · rw [hnone, hnone']
      rfl
    · rw [hx, hx']
      dsimp only
      -- what comes behind is put into the list of outputs, which is not seen
      rcases map_eq_map (ih hseen) with ⟨hnone, hnone'⟩ | ⟨y, y', hy, hy', hlast⟩
      · rw [hnone, hnone']
        rfl
      · rw [hy, hy']
        exact congrArg some hlast

/-- Every step of the run over `is` starts in a state, and takes an input, that
satisfy `C`. -/
def Along (step : σ → ι → Option (ω × σ)) (C : σ → ι → Prop) : σ → List ι → Prop
  | _, [] => True
  | s, i :: is => C s i ∧ ∀ o t, step s i = some (o, t) → Along step C t is

instance decidableAlong {C : σ → ι → Prop} [∀ s i, Decidable (C s i)] :
    ∀ (s : σ) (is : List ι), Decidable (Along step C s is)
  | _, [] => isTrue trivial
  | s, i :: is =>
    match h : step s i with
    | none => decidable_of_iff (C s i) (by simp [Along, h])
    | some (o, t) =>
      have : Decidable (Along step C t is) := decidableAlong t is
      decidable_of_iff (C s i ∧ Along step C t is) (by simp [Along, h])

theorem along_of_forall_mem {C : σ → ι → Prop} {s : σ} {is : List ι}
    (h : ∀ i ∈ is, ∀ t, C t i) : Along step C s is := by
  induction is generalizing s with
  | nil => trivial
  | cons i is ih =>
    refine ⟨h i (List.mem_cons_self ..) s, ?_⟩
    intro o t _
    exact ih fun j hj => h j (List.mem_cons_of_mem _ hj)

/-- What holds along a run holds at each of its steps. -/
theorem Along.at {C : σ → ι → Prop} {s t : σ} {front rest : List ι} {i : ι} {outs : List ω}
    (h : Along step C s (front ++ i :: rest)) (hrun : run step s front = some (outs, t)) :
    C t i := by
  induction front generalizing s outs with
  | nil =>
    simp only [run_nil, Option.some.injEq, Prod.mk.injEq] at hrun
    exact hrun.2 ▸ h.1
  | cons j front ih =>
    obtain ⟨o, u, os, hu, hrest, rfl⟩ := run_cons.mp hrun
    exact ih (h.2 o u hu) hrest

/-- A condition on the inputs alone holds along a run when it holds of all of them. -/
theorem along_iff_forall_mem {C : ι → Prop} {s u : σ} {is : List ι} {outs : List ω}
    (h : run step s is = some (outs, u)) : Along step (fun _ i => C i) s is ↔ ∀ i ∈ is, C i := by
  constructor
  · intro halong i hmem
    obtain ⟨front, rest, rfl⟩ := List.append_of_mem hmem
    obtain ⟨_, t, hfront, _⟩ := run_append.mp h
    exact halong.at hfront
  · intro hall
    exact along_of_forall_mem fun i hi _ => hall i hi

theorem Along.imp {C D : σ → ι → Prop} {s : σ} {is : List ι} (hC : Along step C s is)
    (h : ∀ t i, C t i → D t i) : Along step D s is := by
  induction is generalizing s with
  | nil => trivial
  | cons i is ih =>
    refine ⟨h s i hC.1, ?_⟩
    intro o t ht
    exact ih (hC.2 o t ht)

theorem Along.and {C D : σ → ι → Prop} {s : σ} {is : List ι} (hC : Along step C s is)
    (hD : Along step D s is) : Along step (fun t i => C t i ∧ D t i) s is := by
  induction is generalizing s with
  | nil => trivial
  | cons i is ih =>
    refine ⟨⟨hC.1, hD.1⟩, ?_⟩
    intro o t ht
    exact ih (hC.2 o t ht) (hD.2 o t ht)

theorem along_and {C D : σ → ι → Prop} {s : σ} {is : List ι} :
    Along step (fun t i => C t i ∧ D t i) s is ↔ Along step C s is ∧ Along step D s is := by
  constructor
  · intro h
    exact ⟨h.imp fun _ _ hboth => hboth.1, h.imp fun _ _ hboth => hboth.2⟩
  · rintro ⟨hC, hD⟩
    exact hC.and hD

/-- Every state that a run starts a step from has a property that every step keeps. -/
theorem along_of_invariant (I : σ → Prop) (C : σ → ι → Prop)
    (hstep : ∀ s i o t, I s → C s i → step s i = some (o, t) → I t)
    {s : σ} {is : List ι} (h0 : I s) (hC : Along step C s is) :
    Along step (fun t _ => I t) s is := by
  induction is generalizing s with
  | nil => trivial
  | cons i is ih =>
    refine ⟨h0, ?_⟩
    intro o t ht
    exact ih (hstep s i o t h0 hC.1 ht) (hC.2 o t ht)

/-- The invariant rule for runs whose steps all meet a condition. -/
theorem run_invariant_along (I : σ → Prop) (C : σ → ι → Prop)
    (hstep : ∀ s i o t, I s → C s i → step s i = some (o, t) → I t)
    {s u : σ} {is : List ι} {outs : List ω} (h0 : I s) (hC : Along step C s is)
    (h : run step s is = some (outs, u)) : I u := by
  induction is generalizing s outs with
  | nil =>
    simp only [run_nil, Option.some.injEq, Prod.mk.injEq] at h
    exact h.2 ▸ h0
  | cons i is ih =>
    obtain ⟨o, t, os, ht, hrest, rfl⟩ := run_cons.mp h
    exact ih (hstep s i o t h0 hC.1 ht) (hC.2 o t ht) hrest

/-- A log that every step extends has what it had at the start of a run at its front. -/
theorem run_log {α : Type} (log : σ → List α) (emitted : σ → ι → List α)
    (hstep : ∀ s i o t, step s i = some (o, t) → log t = log s ++ emitted s i)
    {s u : σ} {is : List ι} {outs : List ω} (h : run step s is = some (outs, u)) :
    log s <+: log u := by
  induction is generalizing s outs with
  | nil =>
    simp only [run_nil, Option.some.injEq, Prod.mk.injEq] at h
    exact h.2 ▸ List.prefix_rfl
  | cons i is ih =>
    obtain ⟨o, t, os, ht, hrest, rfl⟩ := run_cons.mp h
    have hlog := ih hrest
    rw [hstep s i o t ht] at hlog
    exact (List.prefix_append ..).trans hlog

/-- What holds of everything that the steps of a run add to a log. -/
theorem along_log {α : Type} (log : σ → List α) (emitted : σ → ι → List α)
    (hstep : ∀ s i o t, step s i = some (o, t) → log t = log s ++ emitted s i) (Q : α → Prop)
    {s u : σ} {is : List ι} {outs : List ω} (h : run step s is = some (outs, u)) :
    Along step (fun t i => ∀ a ∈ emitted t i, Q a) s is ↔
      ∀ a ∈ (log u).drop (log s).length, Q a := by
  induction is generalizing s outs with
  | nil =>
    simp only [run_nil, Option.some.injEq, Prod.mk.injEq] at h
    rw [h.2]
    simp [Along]
  | cons i is ih =>
    obtain ⟨o, t, os, ht, hrest, rfl⟩ := run_cons.mp h
    obtain ⟨later, hlater⟩ := run_log log emitted hstep hrest
    have hnow : (log u).drop (log s).length = emitted s i ++ (log u).drop (log t).length := by
      rw [← hlater, List.drop_left, hstep s i o t ht, List.append_assoc, List.drop_left]
    rw [hnow, List.forall_mem_append, ← ih hrest]
    refine and_congr_right fun _ => ⟨fun hall => hall o t ht, fun halong o' t' ht' => ?_⟩
    rw [ht] at ht'
    cases ht'
    exact halong

/-- What is kept beside a log of the past, to which every step may add, is kept by whole
runs. -/
theorem run_ghost {α : Type} (I : σ → List ι → List α → Prop)
    (hstep : ∀ s past log i o t, I s past log → step s i = some (o, t) →
      ∃ more, I t (past ++ [i]) (log ++ more))
    {s u : σ} {past is : List ι} {log : List α} {outs : List ω} (h0 : I s past log)
    (h : run step s is = some (outs, u)) : ∃ more, I u (past ++ is) (log ++ more) := by
  induction is generalizing s past log outs with
  | nil =>
    simp only [run_nil, Option.some.injEq, Prod.mk.injEq] at h
    obtain ⟨_, rfl⟩ := h
    refine ⟨[], ?_⟩
    rw [List.append_nil, List.append_nil]
    exact h0
  | cons i is ih =>
    obtain ⟨o, t, os, ht, hrest, rfl⟩ := run_cons.mp h
    obtain ⟨first, hfirst⟩ := hstep s past log i o t h0 ht
    obtain ⟨more, hmore⟩ := ih hfirst hrest
    refine ⟨first ++ more, ?_⟩
    rw [← List.append_assoc, ← List.singleton_append, ← List.append_assoc]
    exact hmore

/-- Every state of the run over `is`, the first and the last included, satisfies `P`. -/
def Always (step : σ → ι → Option (ω × σ)) (P : σ → Prop) : σ → List ι → Prop
  | s, [] => P s
  | s, i :: is => P s ∧ ∀ o t, step s i = some (o, t) → Always step P t is

theorem Always.first {P : σ → Prop} {s : σ} {is : List ι} (h : Always step P s is) : P s := by
  cases is with
  | nil => exact h
  | cons i is => exact h.1

theorem Always.last {P : σ → Prop} {s u : σ} {is : List ι} {outs : List ω}
    (h : Always step P s is) (hrun : run step s is = some (outs, u)) : P u := by
  induction is generalizing s outs with
  | nil =>
    simp only [run_nil, Option.some.injEq, Prod.mk.injEq] at hrun
    exact hrun.2 ▸ h
  | cons i is ih =>
    obtain ⟨o, t, os, ht, hrest, rfl⟩ := run_cons.mp hrun
    exact ih (h.2 o t ht) hrest

/-- When a step keeps `P` if it meets a condition and breaks `P` if it does not, a run
satisfies `P` all along exactly when all its steps meet the condition. -/
theorem always_iff_along (P : σ → Prop) (C : σ → ι → Prop) {is : List ι}
    (hkeeps : ∀ s i o t, i ∈ is → P s → C s i → step s i = some (o, t) → P t)
    (hbreaks : ∀ s i o t, i ∈ is → P s → step s i = some (o, t) → ¬ C s i → ¬ P t)
    {s u : σ} {outs : List ω} (h0 : P s) (h : run step s is = some (outs, u)) :
    Always step P s is ↔ Along step C s is := by
  induction is generalizing s outs with
  | nil => exact ⟨fun _ => trivial, fun _ => h0⟩
  | cons i is ih =>
    obtain ⟨o, t, os, ht, hrest, rfl⟩ := run_cons.mp h
    have hlater := fun hP : P t => ih
      (fun s' j o' t' hj => hkeeps s' j o' t' (List.mem_cons_of_mem _ hj))
      (fun s' j o' t' hj => hbreaks s' j o' t' (List.mem_cons_of_mem _ hj)) hP hrest
    constructor
    · rintro ⟨_, halways⟩
      have hnext := halways o t ht
      constructor
      · by_contra hC
        exact hbreaks s i o t List.mem_cons_self h0 ht hC hnext.first
      · intro o' t' ht'
        rw [ht] at ht'
        cases ht'
        exact (hlater hnext.first).mp hnext
    · rintro ⟨hC, halong⟩
      refine ⟨h0, ?_⟩
      intro o' t' ht'
      rw [ht] at ht'
      cases ht'
      exact (hlater (hkeeps s i o t List.mem_cons_self h0 hC ht)).mpr (halong o t ht)

/-- A property of a step that is decided by the step before it holds along a run exactly
when all steps but the last meet the condition that decides it. -/
theorem along_iff_along_dropLast (I : σ → Prop) (P C : σ → ι → Prop)
    (hinv : ∀ s i o t, I s → step s i = some (o, t) → I t)
    (hnext : ∀ s i o t j o' u, I s → step s i = some (o, t) → step t j = some (o', u) →
      (P t j ↔ C s i))
    {s u : σ} {is : List ι} {outs : List ω} (h0 : I s) (hfirst : ∀ i ∈ is.head?, P s i)
    (h : run step s is = some (outs, u)) :
    Along step P s is ↔ Along step C s is.dropLast := by
  induction is generalizing s outs with
  | nil => exact Iff.rfl
  | cons i is ih =>
    obtain ⟨o, t, os, ht, hrest, rfl⟩ := run_cons.mp h
    have hi : P s i := hfirst i rfl
    have hsteps : ∀ (D : σ → ι → Prop) (js : List ι),
        (∀ o t, step s i = some (o, t) → Along step D t js) ↔ Along step D t js := by
      intro D js
      constructor
      · intro hall
        exact hall o t ht
      · intro halong o' t' ht'
        rw [ht] at ht'
        cases ht'
        exact halong
    cases is with
    | nil =>
      rw [Along, hsteps]
      exact ⟨fun _ => trivial, fun _ => ⟨hi, trivial⟩⟩
    | cons j js =>
      obtain ⟨o', t', os', ht', _, _⟩ := run_cons.mp hrest
      have hdecided := hnext s i o t j o' t' h0 ht ht'
      rw [List.dropLast_cons_of_ne_nil (List.cons_ne_nil j js), Along, Along, hsteps, hsteps]
      constructor
      · rintro ⟨_, hlater⟩
        have hj : P t j := hlater.1
        refine ⟨hdecided.mp hj, ?_⟩
        exact (ih (hinv s i o t h0 ht) (fun k hk => by cases hk; exact hj) hrest).mp hlater
      · rintro ⟨hC, hlater⟩
        have hj : P t j := hdecided.mpr hC
        refine ⟨hi, ?_⟩
        exact (ih (hinv s i o t h0 ht) (fun k hk => by cases hk; exact hj) hrest).mpr hlater

/-! ## Reaching a state -/

/-- Some inputs that satisfy `C` lead from the one state to the other. -/
def Reaches (step : σ → ι → Option (ω × σ)) (C : ι → Prop) (s t : σ) : Prop :=
  ∃ is outs, (∀ i ∈ is, C i) ∧ run step s is = some (outs, t)

namespace Reaches

variable {C D : ι → Prop} {s t u : σ}

theorem refl (s : σ) : Reaches step C s s :=
  ⟨[], [], by simp, rfl⟩

theorem trans (h : Reaches step C s t) (h' : Reaches step C t u) : Reaches step C s u := by
  obtain ⟨is, os, hC, hrun⟩ := h
  obtain ⟨js, os', hC', hrun'⟩ := h'
  refine ⟨is ++ js, os ++ os', ?_, ?_⟩
  · intro i hi
    rcases List.mem_append.mp hi with hi | hi
    · exact hC i hi
    · exact hC' i hi
  · exact run_append.mpr ⟨os, t, hrun, os', hrun', rfl⟩

theorem single {i : ι} {o : ω} (hC : C i) (h : step s i = some (o, t)) : Reaches step C s t := by
  refine ⟨[i], [o], ?_, ?_⟩
  · intro j hj
    rw [List.mem_singleton.mp hj]
    exact hC
  · exact run_cons.mpr ⟨o, t, [], h, rfl, rfl⟩

/-- One step, and then further ones. -/
theorem head {i : ι} {o : ω} (hC : C i) (h : step s i = some (o, t))
    (h' : Reaches step C t u) : Reaches step C s u :=
  (single hC h).trans h'

theorem mono (hCD : ∀ i, C i → D i) (h : Reaches step C s t) : Reaches step D s t := by
  obtain ⟨is, outs, hC, hrun⟩ := h
  exact ⟨is, outs, fun i hi => hCD i (hC i hi), hrun⟩

/-- A property that every step with such an input keeps holds in every state that is
reached. -/
theorem invariant (I : σ → Prop)
    (hstep : ∀ s i o t, I s → C i → step s i = some (o, t) → I t)
    (h : Reaches step C s t) (h0 : I s) : I t := by
  obtain ⟨is, outs, hC, hrun⟩ := h
  exact run_invariant_along I (fun _ i => C i) hstep h0
    (along_of_forall_mem fun i hi _ => hC i hi) hrun

/-- A property of the state after a step that the state before it has too, as long as an
invariant holds, holds wherever a state with it can be reached from. -/
theorem backward (I P : σ → Prop) (hinv : ∀ s i o t, I s → step s i = some (o, t) → I t)
    (hback : ∀ s i o t, I s → step s i = some (o, t) → P t → P s)
    (h : Reaches step C s t) (h0 : I s) (hP : P t) : P s := by
  obtain ⟨is, outs, -, hrun⟩ := h
  induction is generalizing s outs with
  | nil =>
    simp only [run_nil, Option.some.injEq, Prod.mk.injEq] at hrun
    exact hrun.2 ▸ hP
  | cons i is ih =>
    obtain ⟨o, v, os, hv, hrest, rfl⟩ := run_cons.mp hrun
    exact hback s i o v h0 hv (ih (hinv s i o v h0 hv) os hrest)

end Reaches

end Machine
