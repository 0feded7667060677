import Mathlib.Data.List.Basic

/-!
# Command lines

A command reads options from the front of its arguments, each a flag or an option with the
argument behind it as its value, until the first argument that is no option. The state that
the options act on, the arguments and the errors are arbitrary.

* `Grammar.read` is the loop, and `Item` one option as it stands on the command line.
* `Grammar.read_eq_ok_iff` says what the loop accepts: the arguments of some options, which
  act one after the other, and a rest that does not begin with an option.
* `Grammar.read_invariant` is the invariant rule for what options set.
-/

namespace CommandLine

variable {α σ ε : Type}

/-- The options of a command. -/
structure Grammar (α σ ε : Type) where
  isOption : α → Bool
  /-- What an option without a value does, `none` for one that has a value. -/
  flag : α → Option (σ → Except ε σ)
  /-- The error when an option with a value is the last argument. -/
  missing : α → ε
  /-- What an option does with its value. -/
  set : α → α → σ → Except ε σ

inductive Item (α : Type) where
  | flag (option : α)
  | pair (option value : α)
  deriving DecidableEq, Repr

def Item.option : Item α → α
  | .flag option => option
  | .pair option _ => option

/-- An item as it stands on the command line. -/
def Item.args : Item α → List α
  | .flag option => [option]
  | .pair option value => [option, value]

namespace Grammar

variable (g : Grammar α σ ε)

/-- The loop over the options, with what is left behind it. -/
def read : σ → List α → Except ε (σ × List α)
  | s, [] => .ok (s, [])
  | s, arg :: rest =>
    if g.isOption arg then
      match g.flag arg with
      | some act =>
        match act s with
        | .error e => .error e
        | .ok s => read s rest
      | none =>
        match rest with
        | [] => .error (g.missing arg)
        | value :: rest =>
          match g.set arg value s with
          | .error e => .error e
          | .ok s => read s rest
    else .ok (s, arg :: rest)

/-- The item is an option of the command, and has a value exactly when that takes one. -/
def Fits (item : Item α) : Prop :=
  g.isOption item.option = true ∧
    match item with
    | .flag option => (g.flag option).isSome = true
    | .pair option _ => g.flag option = none

/-- What an item does. -/
def act (s : σ) : Item α → Except ε σ
  | .flag option =>
    match g.flag option with
    | some act => act s
    | none => .ok s
  | .pair option value => g.set option value s

/-- What items do one after the other. -/
def acts : σ → List (Item α) → Except ε σ
  | s, [] => .ok s
  | s, item :: items =>
    match g.act s item with
    | .error e => .error e
    | .ok s => acts s items

variable {g} {s t : σ} {items items' : List (Item α)} {item : Item α} {args rest : List α}

@[simp] theorem acts_nil : g.acts s [] = .ok s := rfl

theorem acts_cons_eq_ok :
    g.acts s (item :: items) = .ok t ↔ ∃ u, g.act s item = .ok u ∧ g.acts u items = .ok t := by
  rw [acts]
  cases g.act s item with
  | error e => simp
  | ok u => simp

theorem acts_cons_of_ok (h : g.act s item = .ok t) :
    g.acts s (item :: items) = g.acts t items := by
  rw [acts, h]

theorem acts_append_of_ok (h : g.acts s items = .ok t) :
    g.acts s (items ++ items') = g.acts t items' := by
  induction items generalizing s with
  | nil =>
    cases h
    rfl
  | cons item items ih =>
    obtain ⟨u, hu, hrest⟩ := acts_cons_eq_ok.mp h
    rw [List.cons_append, acts_cons_of_ok hu]
    exact ih hrest

/-- An item at the front is read, and the loop goes on behind it. -/
theorem read_item (hfits : g.Fits item) (hact : g.act s item = .ok t) :
    g.read s (item.args ++ rest) = g.read t rest := by
  obtain ⟨hoption, hkind⟩ := hfits
  cases item with
  | flag option =>
    obtain ⟨act, hflag⟩ := Option.isSome_iff_exists.mp hkind
    have hacts : act s = .ok t := by simpa only [Grammar.act, hflag] using hact
    have hisOption : g.isOption option = true := hoption
    rw [Item.args, List.singleton_append, read.eq_def]
    simp only [hisOption, if_true, hflag, hacts]
  | pair option value =>
    have hflag : g.flag option = none := hkind
    have hset : g.set option value s = .ok t := hact
    have hisOption : g.isOption option = true := hoption
    rw [Item.args, List.cons_append, List.singleton_append, read.eq_def]
    simp only [hisOption, if_true, hflag, hset]

/-- What is written as items is read as these items. -/
theorem read_items (hfits : ∀ item ∈ items, g.Fits item) (hacts : g.acts s items = .ok t)
    (hrest : ∀ arg ∈ rest.head?, g.isOption arg = false) :
    g.read s (items.flatMap Item.args ++ rest) = .ok (t, rest) := by
  induction items generalizing s with
  | nil =>
    cases hacts
    rw [List.flatMap_nil, List.nil_append]
    cases rest with
    | nil => rfl
    | cons arg rest =>
      have harg : g.isOption arg = false := hrest arg rfl
      rw [read.eq_def]
      simp only [harg, Bool.false_eq_true, if_false]
  | cons item items ih =>
    rw [List.forall_mem_cons] at hfits
    obtain ⟨u, hu, hlater⟩ := acts_cons_eq_ok.mp hacts
    rw [List.flatMap_cons, List.append_assoc, read_item hfits.1 hu]
    exact ih hfits.2 hlater

/-- What is accepted has been written as items. -/
theorem exists_items (h : g.read s args = .ok (t, rest)) :
    ∃ items, (∀ item ∈ items, g.Fits item) ∧ args = items.flatMap Item.args ++ rest ∧
      g.acts s items = .ok t ∧ ∀ arg ∈ rest.head?, g.isOption arg = false := by
  fun_induction g.read s args with
  | case1 s =>
    cases h
    exact ⟨[], by simp, rfl, rfl, by simp⟩
  | case2 s arg args hoption act hflag e hact => cases h
  | case3 s arg args hoption act hflag u hact ih =>
    obtain ⟨items, hfits, hargs, hacts, hrest⟩ := ih h
    refine ⟨.flag arg :: items, ?_, by rw [hargs]; rfl, ?_, hrest⟩
    · rw [List.forall_mem_cons]
      exact ⟨by simp [Fits, Item.option, hoption, hflag], hfits⟩
    · rw [acts_cons_eq_ok, Grammar.act, hflag]
      exact ⟨u, hact, hacts⟩
  | case4 s arg hoption hflag => cases h
  | case5 s arg hoption hflag value args e hset => cases h
  | case6 s arg hoption hflag value args u hset ih =>
    obtain ⟨items, hfits, hargs, hacts, hrest⟩ := ih h
    refine ⟨.pair arg value :: items, ?_, by rw [hargs]; rfl, ?_, hrest⟩
    · rw [List.forall_mem_cons]
      exact ⟨by simp [Fits, Item.option, hoption, hflag], hfits⟩
    · rw [acts_cons_eq_ok]
      exact ⟨u, hset, hacts⟩
  | case7 s arg args hoption =>
    cases h
    exact ⟨[], by simp, rfl, rfl, by simpa using hoption⟩

/-- The command lines that are accepted: some options, and a rest that begins with none. -/
theorem read_eq_ok_iff :
    g.read s args = .ok (t, rest) ↔
      ∃ items, (∀ item ∈ items, g.Fits item) ∧ args = items.flatMap Item.args ++ rest ∧
        g.acts s items = .ok t ∧ ∀ arg ∈ rest.head?, g.isOption arg = false := by
  constructor
  · exact exists_items
  · rintro ⟨items, hfits, rfl, hacts, hrest⟩
    exact read_items hfits hacts hrest

/-- What every item keeps holds of what a command line sets. -/
theorem acts_invariant (I : σ → Prop)
    (hact : ∀ s item t, g.Fits item → I s → g.act s item = .ok t → I t)
    (hfits : ∀ item ∈ items, g.Fits item) (h0 : I s) (h : g.acts s items = .ok t) : I t := by
  induction items generalizing s with
  | nil =>
    cases h
    exact h0
  | cons item items ih =>
    rw [List.forall_mem_cons] at hfits
    obtain ⟨u, hu, hlater⟩ := acts_cons_eq_ok.mp h
    exact ih hfits.2 (hact s item u hfits.1 h0 hu) hlater

theorem read_invariant (I : σ → Prop)
    (hact : ∀ s item t, g.Fits item → I s → g.act s item = .ok t → I t)
    (h0 : I s) (h : g.read s args = .ok (t, rest)) : I t := by
  obtain ⟨items, hfits, _, hacts, _⟩ := exists_items h
  exact acts_invariant I hact hfits h0 hacts

end Grammar

end CommandLine
