import ExeCell.Lib.GapText
import ExeCell.Trace.Readable

/-!
# The text of an address

What `inet_ntop` writes can be read back: the groups of an IPv6 address are determined by its
text, with its gap and its embedded IPv4 address (`readGroups_inetNtop6`). So two addresses have
one rendering exactly when they agree in what their family shows, or when a `sun_path` spells out
the rendering of another family (`renderAddress_eq_iff`).
-/

namespace ExeCell.Trace

open GapText

/-- The groups of one field: none, those of an IPv4 address, or a hexadecimal one. -/
def readField (field : Text) : List Nat :=
  if field = [] then []
  else if '.' ∈ field then
    match (field.splitOn '.').map (ofDigits 10) with
    | [a, b, c, d] => [a * 256 + b, c * 256 + d]
    | _ => []
  else [ofDigits 16 field]

/-- The groups that a text of `inet_ntop` stands for. -/
def readGroups (text : Text) : List Nat := expand readField 8 (text.splitOn ':')

/-- The fields that `renderGroups` writes; the run of zero groups is an empty one. -/
def groupFields (bytes : List Char) (offset : Nat) (groups : List Nat) (best : Option ZeroRun)
    (index : Nat) : Nat → List Text
  | 0 => []
  | fuel + 1 =>
    let inRun := best.any fun run => run.base ≤ index && index < run.base + run.len
    let startsRun := best.any fun run => run.base = index
    let embedded := index = 6 ∧ best.any fun run =>
      run.base = 0 && (run.len = 6 || (run.len = 5 && groups[5]? = some 0xffff))
    if inRun then
      (if startsRun then [[]] else []) ++
        groupFields bytes offset groups best (index + 1) fuel
    else if embedded then [inetNtop4 bytes (offset + 12)]
    else hexGroup ((groups[index]?).getD 0) ::
      groupFields bytes offset groups best (index + 1) fuel

/-! ## Single fields -/

section Field

variable {bytes bytes' : List Char} {offset offset' group : Nat} {c : Char}

theorem ofDigits_ofNat (number : Nat) : ofDigits 10 (Text.ofNat number) = number := by
  rw [Text.ofNat_eq_toDigits]
  exact ofDigits_toDigits (by decide) (by decide)

theorem splitOn_inetNtop4 :
    (inetNtop4 bytes offset).splitOn '.' =
      (List.range 4).map fun i => Text.ofNat (byteAt bytes (offset + i)) := by
  rw [inetNtop4]
  apply List.splitOn_intercalate
  · intro field hfield hdot
    obtain ⟨i, _, rfl⟩ := List.mem_map.mp hfield
    exact Text.not_mem_ofNat (by decide) _ hdot
  · simp

theorem inetNtop4_inj :
    inetNtop4 bytes offset = inetNtop4 bytes' offset' ↔
      ∀ i < 4, byteAt bytes (offset + i) = byteAt bytes' (offset' + i) := by
  constructor
  · intro h i hi
    have hfields := congrArg (List.splitOn '.') h
    rw [splitOn_inetNtop4, splitOn_inetNtop4, List.map_inj_left] at hfields
    exact Text.ofNat_inj.mp (hfields i (List.mem_range.mpr hi))
  · intro h
    have hfields := List.map_congr_left
      (f := fun i => Text.ofNat (byteAt bytes (offset + i)))
      (g := fun i => Text.ofNat (byteAt bytes' (offset' + i)))
      fun i hi => congrArg Text.ofNat (h i (List.mem_range.mp hi))
    rw [inetNtop4, hfields, inetNtop4]

theorem of_mem_inetNtop4 (h : c ∈ inetNtop4 bytes offset) : c.isDigit = true ∨ c = '.' := by
  rw [inetNtop4] at h
  simp only [List.range, List.range.loop, List.map_cons, List.map_nil, List.intercalate,
    List.intersperse, List.flatten_cons, List.flatten_nil, List.mem_append, List.mem_singleton,
    List.not_mem_nil, or_false] at h
  rcases h with h | h | h | h | h | h | h
  all_goals first | exact Or.inr h | exact Or.inl (Text.isDigit_of_mem_ofNat h)

theorem not_mem_inetNtop4 (hdigit : c.isDigit = false) (hdot : c ≠ '.') :
    c ∉ inetNtop4 bytes offset := by
  intro hmem
  rcases of_mem_inetNtop4 hmem with h | h
  · exact absurd (h.symm.trans hdigit) (by decide)
  · exact hdot h

theorem inetNtop4_eq_cons :
    ∃ rest, inetNtop4 bytes offset = Text.ofNat (byteAt bytes offset) ++ '.' :: rest :=
  ⟨_, rfl⟩

theorem readField_inetNtop4 :
    readField (inetNtop4 bytes offset) = [groupAt bytes offset, groupAt bytes (offset + 2)] := by
  obtain ⟨rest, hrest⟩ := @inetNtop4_eq_cons bytes offset
  have hne : inetNtop4 bytes offset ≠ [] := by
    rw [hrest]
    simp
  have hdot : '.' ∈ inetNtop4 bytes offset := by
    rw [hrest]
    simp
  rw [readField, if_neg hne, if_pos hdot, splitOn_inetNtop4]
  simp only [List.range, List.range.loop, List.map_cons, List.map_nil, ofDigits_ofNat]
  rfl

theorem digit_of_mem_hexGroup (h : c ∈ hexGroup group) : ∃ digit < 16, c = digit.digitChar :=
  exists_of_mem_toDigits (by decide) h

theorem plain_hexDigit : ∀ digit < 16,
    digit.digitChar ≠ ':' ∧ digit.digitChar ≠ '.' ∧ digit.digitChar ≠ ']' := by
  decide

theorem hexGroup_ne_nil : hexGroup group ≠ [] := Nat.toDigits_ne_nil

theorem readField_hexGroup : readField (hexGroup group) = [group] := by
  have hdot : '.' ∉ hexGroup group := by
    intro hmem
    obtain ⟨digit, hlt, hdigit⟩ := digit_of_mem_hexGroup hmem
    exact (plain_hexDigit digit hlt).2.1 hdigit.symm
  rw [readField, if_neg hexGroup_ne_nil, if_neg hdot, hexGroup,
    ofDigits_toDigits (by decide) (by decide)]

end Field

/-! ## The fields of `inet_ntop` -/

section Groups

variable {bytes : List Char} {offset index fuel : Nat} {groups : List Nat}
  {best : Option ZeroRun} {run : ZeroRun} {field : Text} {c : Char}

theorem renderGroups_led (hindex : index ≠ 0) :
    renderGroups bytes offset groups best index fuel =
      led ':' (groupFields bytes offset groups best index fuel) := by
  induction fuel generalizing index with
  | zero => rfl
  | succ fuel ih =>
    rw [renderGroups, groupFields, ih (Nat.succ_ne_zero index)]
    split
    · split
      · rfl
      · rfl
    · split
      · exact (List.append_nil _).symm
      · rfl

theorem plain_of_mem_groupFields (h : field ∈ groupFields bytes offset groups best index fuel)
    (hc : c ∈ field) : c ≠ ':' ∧ c ≠ ']' := by
  induction fuel generalizing index with
  | zero => exact absurd h List.not_mem_nil
  | succ fuel ih =>
    rw [groupFields] at h
    split at h
    · rw [List.mem_append] at h
      rcases h with h | h
      · split at h
        · rw [List.mem_singleton.mp h] at hc
          exact absurd hc List.not_mem_nil
        · exact absurd h List.not_mem_nil
      · exact ih h
    · split at h
      · rw [List.mem_singleton.mp h] at hc
        constructor
        · rintro rfl
          exact not_mem_inetNtop4 (by decide) (by decide) hc
        · rintro rfl
          exact not_mem_inetNtop4 (by decide) (by decide) hc
      · rw [List.mem_cons] at h
        rcases h with rfl | h
        · obtain ⟨digit, hlt, rfl⟩ := digit_of_mem_hexGroup hc
          exact ⟨(plain_hexDigit digit hlt).1, (plain_hexDigit digit hlt).2.2⟩
        · exact ih h

/-- The eight groups of the address at the offset. -/
def groupsOf (bytes : List Char) (offset : Nat) : List Nat :=
  (List.range 8).map fun i => groupAt bytes (offset + 2 * i)

theorem groupsOf_getElem? (h : index < 8) :
    (groupsOf bytes offset)[index]? = some (groupAt bytes (offset + 2 * index)) := by
  rw [groupsOf, List.getElem?_map, List.getElem?_range h]
  rfl

theorem drop_groupsOf (h : index < 8) :
    (groupsOf bytes offset).drop index =
      groupAt bytes (offset + 2 * index) :: (groupsOf bytes offset).drop (index + 1) := by
  have hlength : index < (groupsOf bytes offset).length := by
    rw [groupsOf, List.length_map, List.length_range]
    exact h
  have hget := @groupsOf_getElem? bytes offset index h
  rw [List.getElem?_eq_getElem hlength, Option.some.injEq] at hget
  rw [List.drop_eq_getElem_cons hlength, hget]

/-- Behind the run, or without one, every group is read back from its field. -/
theorem groupFields_outside
    (h : ∀ i, index ≤ i → best.any (fun run => run.base ≤ i && i < run.base + run.len) = false)
    (hfuel : index + fuel = 8) :
    (∀ field ∈ groupFields bytes offset (groupsOf bytes offset) best index fuel, field ≠ []) ∧
      (groupFields bytes offset (groupsOf bytes offset) best index fuel).flatMap readField =
        (groupsOf bytes offset).drop index := by
  induction fuel generalizing index with
  | zero =>
    obtain rfl : index = 8 := by omega
    exact ⟨fun field hfield => absurd hfield List.not_mem_nil, rfl⟩
  | succ fuel ih =>
    rw [groupFields, h index (Nat.le_refl index), if_neg (by decide)]
    split
    · rename_i hembedded
      obtain rfl : index = 6 := hembedded.1
      refine ⟨fun field hfield => ?_, ?_⟩
      · obtain ⟨rest, hrest⟩ := @inetNtop4_eq_cons bytes (offset + 12)
        rw [List.mem_singleton.mp hfield, hrest]
        simp
      · rw [List.flatMap_cons, List.flatMap_nil, List.append_nil, readField_inetNtop4]
        rfl
    · obtain ⟨hfields, hgroups⟩ := @ih (index + 1) (fun i hi => h i (by omega)) (by omega)
      rw [groupsOf_getElem? (by omega), Option.getD_some]
      refine ⟨fun field hfield => ?_, ?_⟩
      · rcases List.mem_cons.mp hfield with rfl | hmem
        · exact hexGroup_ne_nil
        · exact hfields field hmem
      · rw [List.flatMap_cons, readField_hexGroup, hgroups, @drop_groupsOf bytes offset index (by omega)]
        rfl

/-- The rest of the run adds nothing. -/
theorem groupFields_inside (hstart : run.base < index) (hend : index ≤ run.base + run.len)
    (hsize : run.base + run.len ≤ 8) (hfuel : index + fuel = 8) :
    groupFields bytes offset groups (some run) index fuel =
      groupFields bytes offset groups (some run) (run.base + run.len)
        (8 - (run.base + run.len)) := by
  induction fuel generalizing index with
  | zero =>
    obtain rfl : index = run.base + run.len := by omega
    rw [hfuel.symm, Nat.add_zero, Nat.sub_self]
  | succ fuel ih =>
    rcases Nat.lt_or_eq_of_le hend with hlt | rfl
    · rw [groupFields, Option.any_some, Option.any_some, if_pos (by simp; omega),
        if_neg (by simp; omega), List.nil_append]
      exact ih (by omega) hlt (by omega)
    · congr
      omega

/-- Up to the run every group has a field, and the run has an empty one. -/
theorem groupFields_upTo (hindex : index ≤ run.base) (hlen : 2 ≤ run.len)
    (hsize : run.base + run.len ≤ 8) (hfuel : index + fuel = 8) :
    ∃ front, groupFields bytes offset (groupsOf bytes offset) (some run) index fuel =
        front ++ [] :: groupFields bytes offset (groupsOf bytes offset) (some run)
          (run.base + run.len) (8 - (run.base + run.len)) ∧
      (∀ field ∈ front, field ≠ []) ∧
      front.flatMap readField = ((groupsOf bytes offset).drop index).take (run.base - index) := by
  induction fuel generalizing index with
  | zero => omega
  | succ fuel ih =>
    rcases Nat.lt_or_eq_of_le hindex with hlt | rfl
    · obtain ⟨front, hfront, hfields, hgroups⟩ := @ih (index + 1) hlt (by omega)
      refine ⟨hexGroup (groupAt bytes (offset + 2 * index)) :: front, ?_, ?_, ?_⟩
      · rw [groupFields, Option.any_some, if_neg (by simp; omega), if_neg (by simp; omega),
          groupsOf_getElem? (by omega), hfront]
        rfl
      · intro field hfield
        rcases List.mem_cons.mp hfield with rfl | hmem
        · exact hexGroup_ne_nil
        · exact hfields field hmem
      · have hleft : run.base - index = run.base - (index + 1) + 1 := by omega
        rw [List.flatMap_cons, readField_hexGroup, hgroups, @drop_groupsOf bytes offset index (by omega),
          hleft, List.take_succ_cons]
        rfl
    · refine ⟨[], ?_, fun field hfield => absurd hfield List.not_mem_nil, ?_⟩
      · rw [groupFields, Option.any_some, Option.any_some, if_pos (by simp; omega),
          if_pos (by simp), groupFields_inside (Nat.lt_succ_self _) (by omega) hsize (by omega)]
        rfl
      · rw [Nat.sub_self]
        rfl

end Groups

/-! ## The run of zero groups -/

/-- The groups of the run are zero. -/
def ZeroRun.IsIn (run : ZeroRun) (groups : List Nat) : Prop :=
  ∃ front back, groups = front ++ List.replicate run.len 0 ++ back ∧ front.length = run.base

/-- The run ends where the groups end. -/
def ZeroRun.Ends (run : ZeroRun) (groups : List Nat) : Prop :=
  ∃ front, groups = front ++ List.replicate run.len 0 ∧ front.length = run.base

section Runs

variable {run : ZeroRun} {current best : Option ZeroRun} {groups rest done : List Nat}

theorem ZeroRun.Ends.isIn (h : run.Ends done) (rest : List Nat) : run.IsIn (done ++ rest) := by
  obtain ⟨front, rfl, hlength⟩ := h
  exact ⟨front, rest, rfl, hlength⟩

theorem ZeroRun.Ends.extend (h : run.Ends done) :
    ZeroRun.Ends { run with len := run.len + 1 } (done ++ [0]) := by
  obtain ⟨front, rfl, hlength⟩ := h
  refine ⟨front, ?_, hlength⟩
  rw [List.replicate_succ', List.append_assoc]

theorem ends_single (done : List Nat) : ZeroRun.Ends ⟨done.length, 1⟩ (done ++ [0]) :=
  ⟨done, rfl, rfl⟩

theorem longer_isIn (hcurrent : ∀ run ∈ current, run.IsIn groups)
    (hbest : ∀ run ∈ best, run.IsIn groups) :
    ∀ run ∈ zeroRuns.longer current best, run.IsIn groups := by
  intro run hrun
  cases current with
  | none => exact hbest run hrun
  | some open_ =>
    cases best with
    | none => exact hcurrent run hrun
    | some other =>
      rw [zeroRuns.longer] at hrun
      split at hrun
      · exact hcurrent run hrun
      · exact hbest run hrun

/-- The open run ends at the groups that have been seen, and the longest one lies in them. -/
theorem zeroRuns_isIn (hcurrent : ∀ run ∈ current, run.Ends done)
    (hbest : ∀ run ∈ best, run.IsIn (done ++ rest)) :
    ∀ run ∈ zeroRuns rest done.length current best, run.IsIn (done ++ rest) := by
  induction rest generalizing done current best with
  | nil =>
    rw [zeroRuns]
    exact longer_isIn (fun run hrun => (hcurrent run hrun).isIn []) hbest
  | cons group rest ih =>
    have hmove : done ++ group :: rest = (done ++ [group]) ++ rest := List.append_cons ..
    have hlength : done.length + 1 = (done ++ [group]).length := by simp
    rw [zeroRuns.eq_def]
    dsimp only
    rw [hmove, hlength]
    rw [hmove] at hbest
    split
    · rename_i hzero
      subst hzero
      cases current with
      | none =>
        refine ih (fun run hrun => ?_) hbest
        rw [Option.mem_some_iff] at hrun
        rw [← hrun]
        exact ends_single done
      | some open_ =>
        refine ih (fun run hrun => ?_) hbest
        rw [Option.mem_some_iff] at hrun
        rw [← hrun]
        exact (hcurrent open_ rfl).extend
    · refine ih (fun run hrun => nomatch hrun) (longer_isIn (fun run hrun => ?_) hbest)
      rw [← hmove]
      exact (hcurrent run hrun).isIn (group :: rest)

theorem bestRun_isIn (h : bestRun groups = some run) : run.IsIn groups ∧ 2 ≤ run.len := by
  rw [bestRun, Option.filter_eq_some_iff] at h
  obtain ⟨hrun, hlen⟩ := h
  exact ⟨@zeroRuns_isIn none none groups [] (fun run hrun => nomatch hrun)
    (fun run hrun => nomatch hrun) run hrun, by simpa using hlen⟩

theorem ZeroRun.IsIn.le_length (h : run.IsIn groups) : run.base + run.len ≤ groups.length := by
  obtain ⟨front, back, rfl, hlength⟩ := h
  simp only [List.length_append, List.length_replicate]
  omega

theorem ZeroRun.IsIn.split (h : run.IsIn groups) :
    groups.take run.base ++ List.replicate run.len 0 ++ groups.drop (run.base + run.len) =
      groups := by
  obtain ⟨front, back, rfl, hlength⟩ := h
  have hback : (front ++ List.replicate run.len 0 ++ back).drop (run.base + run.len) = back :=
    List.drop_left' (by rw [List.length_append, List.length_replicate, hlength])
  rw [hback, List.append_assoc front, ← hlength, List.take_left, List.append_assoc]

end Runs

/-! ## Reading back -/

section ReadBack

variable {bytes bytes' : List Char} {offset offset' : Nat} {run : ZeroRun}

theorem not_mem_of_mem_groupFields {groups : List Nat} {best : Option ZeroRun} {index fuel : Nat}
    {field : Text} (h : field ∈ groupFields bytes offset groups best index fuel) : ':' ∉ field :=
  fun hmem => (plain_of_mem_groupFields h hmem).1 rfl

theorem not_mem_hexGroup {group : Nat} : ':' ∉ hexGroup group := by
  intro hmem
  obtain ⟨digit, hlt, hdigit⟩ := digit_of_mem_hexGroup hmem
  exact (plain_hexDigit digit hlt).1 hdigit.symm

theorem splitOn_inetNtop6_of_none (h : bestRun (groupsOf bytes offset) = none) :
    (inetNtop6 bytes offset).splitOn ':' =
      groupFields bytes offset (groupsOf bytes offset) none 0 8 := by
  have htext : inetNtop6 bytes offset = hexGroup (groupAt bytes offset) ++
      led ':' (groupFields bytes offset (groupsOf bytes offset) none 1 7) := by
    rw [inetNtop6, ← groupsOf, h, ← renderGroups_led (by decide)]
    exact List.append_nil _
  rw [htext]
  exact splitOn_led not_mem_hexGroup fun field hfield => not_mem_of_mem_groupFields hfield

/-- A run at the end of the address leaves an empty field there. -/
def closingField (run : ZeroRun) : List Text := if run.base + run.len = 8 then [[]] else []

theorem led_closingField :
    (if (some run).any fun run => run.base + run.len = 8 then [':'] else []) =
      led ':' (closingField run) := by
  rw [Option.any_some, closingField]
  by_cases hends : run.base + run.len = 8
  · rw [if_pos (by simpa using hends), if_pos hends]
    rfl
  · rw [if_neg (by simpa using hends), if_neg hends]
    rfl

theorem eq_nil_of_mem_closingField {field : Text} (h : field ∈ closingField run) : field = [] := by
  rw [closingField] at h
  split at h
  · exact List.mem_singleton.mp h
  · exact absurd h List.not_mem_nil

theorem readField_closingField : (closingField run).flatMap readField = [] := by
  rw [List.flatMap_eq_nil_iff]
  intro field hfield
  rw [eq_nil_of_mem_closingField hfield]
  rfl

theorem not_mem_of_mem_fields {groups : List Nat} {best : Option ZeroRun} {index fuel : Nat} :
    ∀ field ∈ groupFields bytes offset groups best index fuel ++ closingField run, ':' ∉ field := by
  intro field hfield
  rcases List.mem_append.mp hfield with hfield | hfield
  · exact not_mem_of_mem_groupFields hfield
  · rw [eq_nil_of_mem_closingField hfield]
    exact List.not_mem_nil

/-- A run at an end of the address has a second separator there. -/
theorem splitOn_inetNtop6_of_some (h : bestRun (groupsOf bytes offset) = some run) :
    (inetNtop6 bytes offset).splitOn ':' =
      (if run.base = 0 then [[]] else []) ++
        groupFields bytes offset (groupsOf bytes offset) (some run) 0 8 ++ closingField run := by
  obtain ⟨_, hlen⟩ := bestRun_isIn h
  by_cases hbase : run.base = 0
  · have hfields : groupFields bytes offset (groupsOf bytes offset) (some run) 0 8 =
        [] :: groupFields bytes offset (groupsOf bytes offset) (some run) 1 7 := by
      rw [groupFields, Option.any_some, Option.any_some, if_pos (by simp; omega),
        if_pos (by simpa using hbase)]
      rfl
    have htext : inetNtop6 bytes offset = [] ++ led ':'
        ([] :: (groupFields bytes offset (groupsOf bytes offset) (some run) 1 7 ++
          closingField run)) := by
      rw [inetNtop6, ← groupsOf, h, led_closingField, led_cons, led_append,
        ← renderGroups_led (by decide), renderGroups, Option.any_some, Option.any_some,
        if_pos (by simp; omega), if_pos (by simpa using hbase)]
      rfl
    rw [htext, splitOn_led List.not_mem_nil, hfields, if_pos hbase]
    · rfl
    · intro field hfield
      rcases List.mem_cons.mp hfield with rfl | hfield
      · exact List.not_mem_nil
      · exact not_mem_of_mem_fields field hfield
  · have hfields : groupFields bytes offset (groupsOf bytes offset) (some run) 0 8 =
        hexGroup (groupAt bytes offset) ::
          groupFields bytes offset (groupsOf bytes offset) (some run) 1 7 := by
      rw [groupFields, Option.any_some, if_neg (by simp; omega), if_neg (by simp)]
      rfl
    have htext : inetNtop6 bytes offset = hexGroup (groupAt bytes offset) ++ led ':'
        (groupFields bytes offset (groupsOf bytes offset) (some run) 1 7 ++ closingField run) := by
      rw [inetNtop6, ← groupsOf, h, led_closingField, led_append, ← renderGroups_led (by decide),
        renderGroups, Option.any_some, if_neg (by simp; omega), if_neg (by simp),
        if_neg (by simp), groupsOf_getElem? (by decide), List.nil_append, List.append_assoc]
      rfl
    rw [htext, splitOn_led not_mem_hexGroup not_mem_of_mem_fields, hfields, if_neg hbase]
    rfl

theorem length_groupsOf : (groupsOf bytes offset).length = 8 := by
  rw [groupsOf, List.length_map, List.length_range]

/-- The text of an IPv6 address determines its groups. -/
theorem readGroups_inetNtop6 : readGroups (inetNtop6 bytes offset) = groupsOf bytes offset := by
  cases hbest : bestRun (groupsOf bytes offset) with
  | none =>
    obtain ⟨hfields, hgroups⟩ :=
      @groupFields_outside bytes offset 0 8 none (fun i _ => rfl) rfl
    rw [readGroups, splitOn_inetNtop6_of_none hbest, expand_full hfields, hgroups]
    · rfl
    · rw [hgroups]
      exact length_groupsOf
  | some run =>
    obtain ⟨hin, hlen⟩ := bestRun_isIn hbest
    have hsize := hin.le_length
    rw [length_groupsOf] at hsize
    obtain ⟨front, hfront, hfields, hhigh⟩ :=
      @groupFields_upTo bytes offset 0 8 run (Nat.zero_le _) hlen hsize rfl
    obtain ⟨_, hlow⟩ := @groupFields_outside bytes offset (run.base + run.len)
      (8 - (run.base + run.len)) (some run) (fun i hi => by simp; omega) (by omega)
    rw [Nat.sub_zero, List.drop_zero] at hhigh
    have hend : (groupFields bytes offset (groupsOf bytes offset) (some run) (run.base + run.len)
        (8 - (run.base + run.len)) ++ closingField run).flatMap readField =
          (groupsOf bytes offset).drop (run.base + run.len) := by
      rw [List.flatMap_append, hlow, readField_closingField, List.append_nil]
    have hgap : 8 - (groupsOf bytes offset |>.take run.base).length -
        ((groupsOf bytes offset).drop (run.base + run.len)).length = run.len := by
      rw [List.length_take, List.length_drop, length_groupsOf]
      omega
    have hsplit := hin.split
    rw [readGroups, splitOn_inetNtop6_of_some hbest, hfront, List.append_assoc,
      List.append_assoc, List.cons_append]
    generalize groupFields bytes offset (groupsOf bytes offset) (some run) (run.base + run.len)
        (8 - (run.base + run.len)) ++ closingField run = back at *
    by_cases hbase : run.base = 0
    · -- the text begins with the separator, and no group stands before the run
      have hnone : (groupsOf bytes offset).take run.base = [] := by
        rw [hbase]
        rfl
      have hback : (front ++ [] :: back).flatMap readField =
          (groupsOf bytes offset).drop (run.base + run.len) := by
        rw [List.flatMap_append, hhigh, hnone, List.flatMap_cons, hend]
        rfl
      have hexpand := @expand_gap [] (front ++ [] :: back) readField 8
        (fun _ hmem => absurd hmem List.not_mem_nil) rfl
      rw [hback, List.flatMap_nil] at hexpand
      rw [hnone] at hgap hsplit
      rw [hgap] at hexpand
      rw [if_pos hbase]
      exact hexpand.trans hsplit
    · rw [if_neg hbase, List.nil_append, expand_gap hfields rfl, hend, hhigh, hgap]
      exact hsplit

theorem renderGroups_congr {groups : List Nat} {best : Option ZeroRun} {index fuel : Nat}
    (h : inetNtop4 bytes (offset + 12) = inetNtop4 bytes' (offset' + 12)) :
    renderGroups bytes offset groups best index fuel =
      renderGroups bytes' offset' groups best index fuel := by
  induction fuel generalizing index with
  | zero => rfl
  | succ fuel ih => rw [renderGroups, renderGroups, ih, h]

theorem groupsOf_congr (h : ∀ i < 16, byteAt bytes (offset + i) = byteAt bytes' (offset' + i)) :
    groupsOf bytes offset = groupsOf bytes' offset' := by
  rw [groupsOf, groupsOf, List.map_inj_left]
  intro i hi
  rw [List.mem_range] at hi
  rw [groupAt, groupAt, h (2 * i) (by omega), Nat.add_assoc, Nat.add_assoc,
    h (2 * i + 1) (by omega)]

theorem byteAt_of_groupsOf (hbytes : ∀ i, byteAt bytes i < 256)
    (hbytes' : ∀ i, byteAt bytes' i < 256) (h : groupsOf bytes offset = groupsOf bytes' offset')
    {i : Nat} (hi : i < 16) : byteAt bytes (offset + i) = byteAt bytes' (offset' + i) := by
  rw [groupsOf, groupsOf, List.map_inj_left] at h
  have hgroup := h (i / 2) (List.mem_range.mpr (by omega))
  rw [groupAt, groupAt] at hgroup
  have hlow := hbytes (offset + 2 * (i / 2) + 1)
  have hlow' := hbytes' (offset' + 2 * (i / 2) + 1)
  rcases Nat.mod_two_eq_zero_or_one i with heven | hodd
  · have hat : ∀ first, first + 2 * (i / 2) = first + i := fun first => by omega
    rw [hat, hat] at hgroup
    rw [hat] at hlow hlow'
    omega
  · have hat : ∀ first, first + 2 * (i / 2) + 1 = first + i := fun first => by omega
    rw [hat, hat] at hgroup
    rw [hat] at hlow hlow'
    omega

theorem inetNtop6_congr (h : ∀ i < 16, byteAt bytes (offset + i) = byteAt bytes' (offset' + i)) :
    inetNtop6 bytes offset = inetNtop6 bytes' offset' := by
  have hlast : inetNtop4 bytes (offset + 12) = inetNtop4 bytes' (offset' + 12) := by
    rw [inetNtop4_inj]
    intro i hi
    rw [Nat.add_assoc, Nat.add_assoc]
    exact h (12 + i) (by omega)
  rw [inetNtop6, ← groupsOf, groupsOf_congr h, renderGroups_congr hlast, inetNtop6, ← groupsOf]

theorem inetNtop6_inj (hbytes : ∀ i, byteAt bytes i < 256) (hbytes' : ∀ i, byteAt bytes' i < 256) :
    inetNtop6 bytes offset = inetNtop6 bytes' offset' ↔
      ∀ i < 16, byteAt bytes (offset + i) = byteAt bytes' (offset' + i) := by
  constructor
  · intro h i hi
    have hgroups := congrArg readGroups h
    rw [readGroups_inetNtop6, readGroups_inetNtop6] at hgroups
    exact byteAt_of_groupsOf hbytes hbytes' hgroups hi
  · exact inetNtop6_congr

theorem not_mem_renderGroups {groups : List Nat} {best : Option ZeroRun} {index fuel : Nat} :
    ']' ∉ renderGroups bytes offset groups best index fuel := by
  have hgroup : ∀ group, ']' ∉ hexGroup group := by
    intro group hmem
    obtain ⟨digit, hlt, hdigit⟩ := digit_of_mem_hexGroup hmem
    exact (plain_hexDigit digit hlt).2.2 hdigit.symm
  have hcolon : ∀ (p : Prop) [Decidable p], ']' ∉ (if p then [':'] else []) := by
    intro p _
    split
    · decide
    · decide
  induction fuel generalizing index with
  | zero => exact List.not_mem_nil
  | succ fuel ih =>
    rw [renderGroups]
    split
    · rw [List.mem_append, not_or]
      exact ⟨hcolon _, ih⟩
    · rw [List.mem_append, not_or]
      refine ⟨hcolon _, ?_⟩
      split
      · exact not_mem_inetNtop4 (by decide) (by decide)
      · rw [List.mem_append, not_or]
        exact ⟨hgroup _, ih⟩

theorem not_mem_inetNtop6 : ']' ∉ inetNtop6 bytes offset := by
  rw [inetNtop6, List.mem_append, not_or]
  refine ⟨not_mem_renderGroups, ?_⟩
  split
  · decide
  · decide

end ReadBack

/-! ## Whole addresses -/

/-- The port of an internet address. -/
def portOf (bytes : List Char) : Nat := groupAt bytes 2

/-- The `sun_path` of a unix address. -/
def nameOf (bytes : List Char) : Text := (bytes.drop 2).takeWhile (· ≠ '\x00')

/-- The addresses agree in what the text of their family shows. -/
def SameAddress (bytes bytes' : List Char) : Prop :=
  familyOf bytes = familyOf bytes' ∧
    (familyOf bytes = afInet → portOf bytes = portOf bytes' ∧
      ∀ i < 4, byteAt bytes (4 + i) = byteAt bytes' (4 + i)) ∧
    (familyOf bytes = afInet6 → portOf bytes = portOf bytes' ∧
      ∀ i < 16, byteAt bytes (8 + i) = byteAt bytes' (8 + i)) ∧
    (familyOf bytes = afUnix → nameOf bytes = nameOf bytes')

/-- A unix address whose name is the text of an address that is none. -/
def Spells (bytes bytes' : List Char) : Prop :=
  familyOf bytes = afUnix ∧ familyOf bytes' ≠ afUnix ∧ nameOf bytes = renderAddress bytes'

instance (bytes bytes' : List Char) : Decidable (SameAddress bytes bytes') :=
  inferInstanceAs (Decidable (_ ∧ _))

instance (bytes bytes' : List Char) : Decidable (Spells bytes bytes') :=
  inferInstanceAs (Decidable (_ ∧ _))

section Render

variable {bytes bytes' : List Char} {offset index : Nat}

theorem byteAt_pad (count : Nat) :
    byteAt (bytes ++ List.replicate count '\x00') index = byteAt bytes index := by
  rcases Nat.lt_or_ge index bytes.length with hlt | hge
  · exact byteAt_append hlt
  · rw [byteAt, byteAt, List.getElem?_append_right hge, List.getElem?_eq_none hge,
      List.getElem?_replicate]
    split
    · rfl
    · rfl

/-- The family that `read_endpoint` tests is that of the address. -/
theorem family_pad (count : Nat) :
    byteAt (bytes ++ List.replicate count '\x00') 0 +
        byteAt (bytes ++ List.replicate count '\x00') 1 * 256 = familyOf bytes := by
  rw [byteAt_pad, byteAt_pad, familyOf]

theorem portOf_pad (count : Nat) :
    groupAt (bytes ++ List.replicate count '\x00') 2 = portOf bytes := by
  rw [groupAt, byteAt_pad, byteAt_pad, portOf, groupAt]

theorem nameOf_pad (count : Nat) :
    nameOf (bytes ++ List.replicate count '\x00') = nameOf bytes := by
  have hzeros : ∀ count : Nat, (List.replicate count '\x00').takeWhile (· ≠ '\x00') = [] := by
    intro count
    cases count with
    | zero => rfl
    | succ count => rfl
  rw [nameOf, List.drop_append, List.drop_replicate, List.takeWhile_append, hzeros, nameOf]
  split
  · rename_i hall
    rw [List.append_nil, (List.takeWhile_prefix _).eq_of_length hall]
  · rfl

theorem renderAddress_inet (h : familyOf bytes = afInet) :
    renderAddress bytes = inetNtop4 bytes 4 ++ ':' :: Text.ofNat (portOf bytes) := by
  rw [renderAddress, family_pad, h, if_pos rfl, portOf_pad, inetNtop4_inj.mpr fun i _ => byteAt_pad _]

theorem renderAddress_inet6 (h : familyOf bytes = afInet6) :
    renderAddress bytes = '[' :: inetNtop6 bytes 8 ++ ']' :: ':' :: Text.ofNat (portOf bytes) := by
  rw [renderAddress, family_pad, h, if_neg (by decide), if_pos rfl, portOf_pad,
    inetNtop6_congr fun i _ => byteAt_pad _, List.append_assoc]
  rfl

theorem renderAddress_unix (h : familyOf bytes = afUnix) : renderAddress bytes = nameOf bytes := by
  rw [renderAddress, family_pad, h, if_neg (by decide), if_neg (by decide), if_pos rfl]
  exact nameOf_pad _

theorem renderAddress_other (hinet : familyOf bytes ≠ afInet) (hinet6 : familyOf bytes ≠ afInet6)
    (hunix : familyOf bytes ≠ afUnix) :
    renderAddress bytes = "family=".toList ++ Text.ofNat (familyOf bytes) := by
  rw [renderAddress, family_pad, if_neg hinet, if_neg hinet6, if_neg hunix]

/-- The first character of a text that is no name tells the family. -/
theorem head_renderAddress (h : familyOf bytes ≠ afUnix) :
    ∃ c rest, renderAddress bytes = c :: rest ∧ (familyOf bytes = afInet ↔ c.isDigit = true) ∧
      (familyOf bytes = afInet6 ↔ c = '[') := by
  by_cases hinet : familyOf bytes = afInet
  · obtain ⟨rest, hrest⟩ := @inetNtop4_eq_cons bytes 4
    obtain ⟨c, tail, hc⟩ := List.exists_cons_of_ne_nil (Text.ofNat_ne_nil (byteAt bytes 4))
    have hdigit : c.isDigit = true := Text.isDigit_of_mem_ofNat (by rw [hc]; exact List.mem_cons_self)
    refine ⟨c, _, by rw [renderAddress_inet hinet, hrest, hc]; rfl,
      iff_of_true hinet hdigit, iff_of_false ?_ ?_⟩
    · rw [hinet]
      decide
    · rintro rfl
      exact absurd hdigit (by decide)
  · by_cases hinet6 : familyOf bytes = afInet6
    · exact ⟨'[', _, renderAddress_inet6 hinet6, iff_of_false hinet (by decide),
        iff_of_true hinet6 rfl⟩
    · exact ⟨'f', _, renderAddress_other hinet hinet6 h, iff_of_false hinet (by decide),
        iff_of_false hinet6 (by decide)⟩

theorem renderAddress_inet_inj (h : familyOf bytes = afInet) (h' : familyOf bytes' = afInet) :
    renderAddress bytes = renderAddress bytes' ↔
      portOf bytes = portOf bytes' ∧ ∀ i < 4, byteAt bytes (4 + i) = byteAt bytes' (4 + i) := by
  rw [renderAddress_inet h, renderAddress_inet h',
    List.append_cons_inj_of_notMem (not_mem_inetNtop4 (by decide) (by decide))
      (Text.not_mem_ofNat (by decide) _),
    inetNtop4_inj, Text.ofNat_inj, and_iff_right rfl, and_comm]

theorem renderAddress_inet6_inj (hbytes : ∀ i, byteAt bytes i < 256)
    (hbytes' : ∀ i, byteAt bytes' i < 256) (h : familyOf bytes = afInet6)
    (h' : familyOf bytes' = afInet6) :
    renderAddress bytes = renderAddress bytes' ↔
      portOf bytes = portOf bytes' ∧ ∀ i < 16, byteAt bytes (8 + i) = byteAt bytes' (8 + i) := by
  have hfront : ']' ∉ '[' :: inetNtop6 bytes 8 := by
    rw [List.mem_cons, not_or]
    exact ⟨by decide, not_mem_inetNtop6⟩
  have hback : ']' ∉ ':' :: Text.ofNat (portOf bytes) := by
    rw [List.mem_cons, not_or]
    exact ⟨by decide, Text.not_mem_ofNat (by decide) _⟩
  rw [renderAddress_inet6 h, renderAddress_inet6 h',
    List.append_cons_inj_of_notMem hfront hback, List.cons_inj_right, List.cons_inj_right,
    inetNtop6_inj hbytes hbytes', Text.ofNat_inj, and_iff_right rfl, and_comm]

theorem renderAddress_inj (hbytes : ∀ i, byteAt bytes i < 256) (hbytes' : ∀ i, byteAt bytes' i < 256)
    (hunix : familyOf bytes ≠ afUnix) (hunix' : familyOf bytes' ≠ afUnix) :
    renderAddress bytes = renderAddress bytes' ↔ SameAddress bytes bytes' := by
  constructor
  · intro h
    obtain ⟨c, rest, htext, hinet, hinet6⟩ := head_renderAddress hunix
    obtain ⟨c', rest', htext', hinet', hinet6'⟩ := head_renderAddress hunix'
    have hhead : c = c' := by
      rw [htext, htext'] at h
      exact List.head_eq_of_cons_eq h
    subst hhead
    have hfamily : familyOf bytes = familyOf bytes' := by
      by_cases hfour : familyOf bytes = afInet
      · rw [hfour, hinet'.mpr (hinet.mp hfour)]
      · by_cases hsix : familyOf bytes = afInet6
        · rw [hsix, hinet6'.mpr (hinet6.mp hsix)]
        · rw [renderAddress_other hfour hsix hunix,
            renderAddress_other (fun h' => hfour (hinet.mpr (hinet'.mp h')))
              (fun h' => hsix (hinet6.mpr (hinet6'.mp h'))) hunix',
            List.append_cancel_left_eq, Text.ofNat_inj] at h
          exact h
    refine ⟨hfamily, fun hfour => ?_, fun hsix => ?_, fun hname => absurd hname hunix⟩
    · exact (renderAddress_inet_inj hfour (hfamily.symm.trans hfour)).mp h
    · exact (renderAddress_inet6_inj hbytes hbytes' hsix (hfamily.symm.trans hsix)).mp h
  · rintro ⟨hfamily, hinet, hinet6, _⟩
    by_cases hfour : familyOf bytes = afInet
    · exact (renderAddress_inet_inj hfour (hfamily.symm.trans hfour)).mpr (hinet hfour)
    · by_cases hsix : familyOf bytes = afInet6
      · exact (renderAddress_inet6_inj hbytes hbytes' hsix (hfamily.symm.trans hsix)).mpr
          (hinet6 hsix)
      · rw [renderAddress_other hfour hsix hunix, hfamily,
          renderAddress_other (hfamily ▸ hfour) (hfamily ▸ hsix) hunix']

/-- Two addresses have one text exactly when they are the same, or when one is the name of a
socket that spells out the other. -/
theorem renderAddress_eq_iff (hbytes : ∀ i, byteAt bytes i < 256)
    (hbytes' : ∀ i, byteAt bytes' i < 256) :
    renderAddress bytes = renderAddress bytes' ↔
      SameAddress bytes bytes' ∨ Spells bytes bytes' ∨ Spells bytes' bytes := by
  by_cases hunix : familyOf bytes = afUnix
  · by_cases hunix' : familyOf bytes' = afUnix
    · rw [renderAddress_unix hunix, renderAddress_unix hunix']
      constructor
      · intro h
        refine Or.inl ⟨hunix.trans hunix'.symm, fun hfour => ?_, fun hsix => ?_, fun _ => h⟩
        · exact absurd (hunix.symm.trans hfour) (by decide)
        · exact absurd (hunix.symm.trans hsix) (by decide)
      · rintro (hsame | hspells | hspells)
        · exact hsame.2.2.2 hunix
        · exact absurd hunix' hspells.2.1
        · exact absurd hunix hspells.2.1
    · rw [renderAddress_unix hunix]
      constructor
      · exact fun h => Or.inr (Or.inl ⟨hunix, hunix', h⟩)
      · rintro (hsame | hspells | hspells)
        · exact absurd (hsame.1.symm.trans hunix) hunix'
        · exact hspells.2.2
        · exact absurd hspells.1 hunix'
  · by_cases hunix' : familyOf bytes' = afUnix
    · rw [renderAddress_unix hunix']
      constructor
      · exact fun h => Or.inr (Or.inr ⟨hunix', hunix, h.symm⟩)
      · rintro (hsame | hspells | hspells)
        · exact absurd (hsame.1.trans hunix') hunix
        · exact absurd hspells.1 hunix
        · exact hspells.2.2.symm
    · rw [renderAddress_inj hbytes hbytes' hunix hunix']
      constructor
      · exact Or.inl
      · rintro (hsame | hspells | hspells)
        · exact hsame
        · exact absurd hspells.1 hunix
        · exact absurd hspells.1 hunix'

/-- Only the empty name has no text. -/
theorem renderAddress_eq_nil_iff :
    renderAddress bytes = [] ↔ familyOf bytes = afUnix ∧ nameOf bytes = [] := by
  by_cases hunix : familyOf bytes = afUnix
  · rw [renderAddress_unix hunix, and_iff_right hunix]
  · obtain ⟨c, rest, htext, _⟩ := head_renderAddress hunix
    rw [htext]
    exact iff_of_false (List.cons_ne_nil _ _) fun h => hunix h.1

end Render

end ExeCell.Trace
