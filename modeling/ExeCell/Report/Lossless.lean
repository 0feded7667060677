import ExeCell.Lib.Quoted
import ExeCell.Report.Framing

/-!
# What the JSON trace loses

Two events with the same context are written alike exactly when they agree in what is
`shown` of them. Not shown is every field without a clause of its own in
`JsonReporter::report`; and of a text not the difference between a control byte from `0x10`
on and the byte `0x01` with a hexadecimal digit behind it.
-/

namespace ExeCell.Report

open Json

/-! ## What is shown of a text -/

/-- The value of a digit as the reporter writes it. -/
def lowerHex (c : Char) : Option Nat := (List.range 16).find? fun n => Nat.digitChar n = c

/-- The byte `0x01` with a digit behind it is one control byte. -/
def fuse : Text → Text
  | [] => []
  | c :: text =>
    if c = '\x01' then
      match text with
      | [] => [c]
      | d :: text =>
        match lowerHex d with
        | some n => Char.ofNat (16 + n) :: fuse text
        | none => c :: fuse (d :: text)
    else c :: fuse text

/-- The byte behind a backslash and a letter. -/
def unescape (e : Char) : Char :=
  if e = 'n' then '\n' else if e = 'r' then '\r' else if e = 't' then '\t' else e

/-- What can be recovered of a text from its literal. -/
def recover : Text → Text
  | [] => []
  | c :: text =>
    if c = '\\' then
      match text with
      | e :: text =>
        if e = 'u' then
          match text with
          | _ :: _ :: h :: text =>
            if h = '1' then
              match text with
              | [] => ['\x01']
              | d :: text =>
                match lowerHex d with
                | some n => Char.ofNat (16 + n) :: recover text
                | none => '\x01' :: recover (d :: text)
            else Char.ofNat ((hexDigit h).getD 0) :: recover text
          | _ => []
        else unescape e :: recover text
      | [] => []
    else c :: recover text

theorem lowerHex_digitChar {n : Nat} (h : n < 16) : lowerHex (Nat.digitChar n) = some n := by
  have hall : ∀ n < 16, lowerHex (Nat.digitChar n) = some n := by decide
  exact hall n h

theorem lowerHex_eq_some {d : Char} {n : Nat} (h : lowerHex d = some n) :
    n < 16 ∧ d = Nat.digitChar n := by
  have hmem := List.mem_range.mp (List.mem_of_find?_eq_some h)
  have hdigit := List.find?_some h
  rw [decide_eq_true_eq] at hdigit
  exact ⟨hmem, hdigit.symm⟩

section Recover

variable (text : Text)

theorem recover_plain {c : Char} (h : c ≠ '\\') : recover (c :: text) = c :: recover text := by
  rw [recover.eq_def]
  exact if_neg h

theorem recover_letter {e : Char} (h : e ≠ 'u') :
    recover ('\\' :: e :: text) = unescape e :: recover text := by
  rw [recover.eq_def]
  simp only [if_pos, if_neg h]

theorem recover_hex (a b : Char) {h : Char} (hone : h ≠ '1') :
    recover ('\\' :: 'u' :: a :: b :: h :: text) =
      Char.ofNat ((hexDigit h).getD 0) :: recover text := by
  rw [recover.eq_def]
  simp only [if_pos, if_neg hone]

theorem recover_one (a b d : Char) :
    recover ('\\' :: 'u' :: a :: b :: '1' :: d :: text) =
      match lowerHex d with
      | some n => Char.ofNat (16 + n) :: recover text
      | none => '\x01' :: recover (d :: text) := by
  rw [recover.eq_def]
  simp only [if_pos]

end Recover

theorem fuse_plain {c : Char} (h : c ≠ '\x01') (text : Text) : fuse (c :: text) = c :: fuse text := by
  rw [fuse.eq_def]
  exact if_neg h

theorem fuse_digit {d : Char} {n : Nat} (h : lowerHex d = some n) (text : Text) :
    fuse ('\x01' :: d :: text) = Char.ofNat (16 + n) :: fuse text := by
  rw [fuse.eq_def]
  simp only [if_pos, h]

theorem fuse_other {d : Char} (h : lowerHex d = none) (text : Text) :
    fuse ('\x01' :: d :: text) = '\x01' :: fuse (d :: text) := by
  rw [fuse.eq_def]
  simp only [if_pos, h]

/-- Every byte but `0x01` can be told from its escape. -/
theorem recover_escapeJsonChar {c : Char} (h : c ≠ '\x01') (text : Text) :
    recover (escapeJsonChar c ++ text) = c :: recover text := by
  by_cases hquote : c = '"'
  · subst hquote
    exact recover_letter text (by decide)
  by_cases hslash : c = '\\'
  · subst hslash
    exact recover_letter text (by decide)
  by_cases hline : c = '\n'
  · subst hline
    exact recover_letter text (by decide)
  by_cases hreturn : c = '\r'
  · subst hreturn
    exact recover_letter text (by decide)
  by_cases htab : c = '\t'
  · subst htab
    exact recover_letter text (by decide)
  by_cases hcontrol : c.toNat < 0x20
  · rw [escapeJsonChar_control hcontrol hline hreturn htab]
    rcases Nat.lt_or_ge c.toNat 16 with hlt | hge
    · have hone : Nat.digitChar c.toNat ≠ '1' := by
        have hall : ∀ n < 16, Nat.digitChar n = '1' → n = 1 := by decide
        intro hdigit
        apply h
        rw [← Char.ofNat_toNat c, hall _ hlt hdigit]
      rw [Nat.toDigits_of_lt_base hlt]
      simp only [List.cons_append, List.nil_append]
      rw [recover_hex text '0' '0' hone, hexDigit_digitChar hlt, Option.getD_some,
        Char.ofNat_toNat]
    · have hdigits : Nat.toDigits 16 c.toNat = ['1', Nat.digitChar (c.toNat - 16)] := by
        rw [Nat.toDigits_of_base_le (by decide) hge, show c.toNat / 16 = 1 by omega,
          show c.toNat % 16 = c.toNat - 16 by omega]
        rfl
      rw [hdigits]
      simp only [List.cons_append, List.nil_append]
      rw [recover_one, lowerHex_digitChar (show c.toNat - 16 < 16 by omega)]
      dsimp only
      rw [show 16 + (c.toNat - 16) = c.toNat by omega, Char.ofNat_toNat]
  · rw [escapeJsonChar, if_neg hquote, if_neg hslash, if_neg hline, if_neg hreturn, if_neg htab,
      if_neg hcontrol]
    exact recover_plain text hslash

theorem escapeJsonChar_digit {n : Nat} (h : n < 16) :
    escapeJsonChar (Nat.digitChar n) = [Nat.digitChar n] ∧
      escapeJsonChar (Char.ofNat (16 + n)) = escapeJsonChar '\x01' ++ [Nat.digitChar n] := by
  have hall : ∀ n < 16, escapeJsonChar (Nat.digitChar n) = [Nat.digitChar n] ∧
      escapeJsonChar (Char.ofNat (16 + n)) = escapeJsonChar '\x01' ++ [Nat.digitChar n] := by
    decide
  exact hall n h

/-- Only a digit is written as one. -/
theorem escapeJsonChar_other {d : Char} (h : lowerHex d = none) :
    ∃ e rest, escapeJsonChar d = e :: rest ∧ lowerHex e = none := by
  have hslash : lowerHex '\\' = none := by decide
  rw [escapeJsonChar]
  split_ifs
  · exact ⟨_, _, rfl, hslash⟩
  · exact ⟨_, _, rfl, hslash⟩
  · exact ⟨_, _, rfl, hslash⟩
  · exact ⟨_, _, rfl, hslash⟩
  · exact ⟨_, _, rfl, hslash⟩
  · exact ⟨_, _, rfl, hslash⟩
  · exact ⟨d, [], rfl, h⟩

theorem recover_escaped (value : Text) : recover (value.flatMap escapeJsonChar) = fuse value := by
  have hstart : ∀ text, escapeJsonChar '\x01' ++ text = '\\' :: 'u' :: '0' :: '0' :: '1' :: text := by
    intro text
    rfl
  induction value using fuse.induct with
  | case1 => rfl
  | case2 => rfl
  | case3 d text n hd ih =>
    obtain ⟨hn, rfl⟩ := lowerHex_eq_some hd
    rw [fuse_digit hd, List.flatMap_cons, List.flatMap_cons, (escapeJsonChar_digit hn).1, hstart,
      List.singleton_append, recover_one, hd]
    exact congrArg _ ih
  | case4 d text hd ih =>
    obtain ⟨e, rest, he, hother⟩ := escapeJsonChar_other hd
    rw [fuse_other hd, ← ih, List.flatMap_cons, hstart, List.flatMap_cons, he, List.cons_append,
      recover_one, hother]
  | case5 c text hc ih =>
    rw [fuse_plain hc, List.flatMap_cons, recover_escapeJsonChar hc, ih]

theorem fuse_escaped (value : Text) :
    (fuse value).flatMap escapeJsonChar = value.flatMap escapeJsonChar := by
  induction value using fuse.induct with
  | case1 => rfl
  | case2 => rfl
  | case3 d text n hd ih =>
    obtain ⟨hn, rfl⟩ := lowerHex_eq_some hd
    obtain ⟨hdigit, hboth⟩ := escapeJsonChar_digit hn
    rw [fuse_digit hd, List.flatMap_cons, List.flatMap_cons, List.flatMap_cons, hboth, hdigit, ih,
      List.append_assoc]
  | case4 d text hd ih => rw [fuse_other hd, List.flatMap_cons, ih, ← List.flatMap_cons]
  | case5 c text hc ih => rw [fuse_plain hc, List.flatMap_cons, List.flatMap_cons, ih]

/-- Two texts are written alike when they are the same once fused. -/
theorem writeJsonString_eq_iff (value value' : Text) :
    writeJsonString value = writeJsonString value' ↔ fuse value = fuse value' := by
  have hbody : writeJsonString value = writeJsonString value' ↔
      value.flatMap escapeJsonChar = value'.flatMap escapeJsonChar := by
    rw [writeJsonString, writeJsonString, List.append_cancel_right_eq, List.cons.injEq,
      and_iff_right rfl]
  rw [hbody]
  constructor
  · intro h
    rw [← recover_escaped, h, recover_escaped]
  · intro h
    rw [← fuse_escaped value, h, fuse_escaped]

/-! ## What is shown of an event -/

/-- The fields that are written, with what is shown of their texts; the others are blank. -/
def shown : Payload → Payload
  | .fileOpened fd path => .fileOpened fd (fuse path)
  | .fileRead fd path bytes => .fileRead fd (fuse path) bytes
  | .fileWritten fd path bytes => .fileWritten fd (fuse path) bytes
  | .fileClosed fd path => .fileClosed fd (fuse path)
  | .fileDeleted path => .fileDeleted (fuse path)
  | .fileRenamed _ _ => .fileRenamed [] []
  | .directoryCreated path => .directoryCreated (fuse path)
  | .fileModeChanged path mode => .fileModeChanged (fuse path) mode
  | .socketCreated fd _ _ _ => .socketCreated fd 0 0 0
  | .networkConnected fd endpoint => .networkConnected fd (fuse endpoint)
  | .networkBound fd endpoint => .networkBound fd (fuse endpoint)
  | .networkListening fd _ => .networkListening fd 0
  | .networkAccepted fd endpoint => .networkAccepted fd (fuse endpoint)
  | .syscallFailed _ syscall error => .syscallFailed 0 (fuse syscall) error
  | .traceStarted _ => .traceStarted 0
  | .traceFinished _ status signaled => .traceFinished 0 status signaled
  | .policyViolation rule resource => .policyViolation (fuse rule) (fuse resource)
  | .processSpawned _ parentPid => .processSpawned 0 parentPid
  | .processExec _ path => .processExec 0 (fuse path)
  | .processExited _ status signaled => .processExited 0 status signaled

/-! ## What is written of an event -/

theorem escaped_escapeJsonChar (c : Char) : Escaped (escapeJsonChar c) := by
  have hdigits : ∀ n < 0x20, ∀ d ∈ Nat.toDigits 16 n, d ≠ '"' ∧ d ≠ '\\' := by decide
  rw [escapeJsonChar]
  split_ifs with hquote hslash _ _ _ hcontrol
  · exact .pair .nil
  · exact .pair .nil
  · exact .pair .nil
  · exact .pair .nil
  · exact .pair .nil
  · have hprefix : Escaped "\\u00".toList :=
      .pair (.plain (by decide) (by decide) (.plain (by decide) (by decide) .nil))
    exact hprefix.append (escaped_of_plain (hdigits c.toNat hcontrol))
  · exact .plain hquote hslash .nil

theorem atom_writeJsonString (value : Text) : Atom (writeJsonString value) :=
  .literal (escaped_flatMap fun c _ => escaped_escapeJsonChar c)

/-- Neither a quote nor a delimiter is a digit or a sign. -/
theorem atom_of_digits {text : Text} (hne : text ≠ [])
    (h : ∀ c ∈ text, c.isDigit = true ∨ c = '-') : Atom text := by
  apply Atom.word hne
  intro c hc
  have hdigit : ∀ {d : Char}, d.isDigit = false → d ≠ '-' → c ≠ d := by
    rintro d hd hsign rfl
    rcases h c hc with hdigit | rfl
    · rw [hd] at hdigit
      cases hdigit
    · exact hsign rfl
  refine ⟨hdigit (by decide) (by decide), ?_⟩
  simp [isDelimiter, isSpace, @hdigit ',' (by decide) (by decide),
    @hdigit ']' (by decide) (by decide), @hdigit '\x7d' (by decide) (by decide),
    @hdigit ' ' (by decide) (by decide), @hdigit '\t' (by decide) (by decide),
    @hdigit '\n' (by decide) (by decide), @hdigit '\r' (by decide) (by decide)]

theorem atom_ofNat (value : Nat) : Atom (Text.ofNat value) := by
  apply atom_of_digits
  · exact Text.ofNat_ne_nil value
  · intro c hc
    exact Or.inl (Text.isDigit_of_mem_ofNat hc)

theorem atom_ofInt (value : Int) : Atom (Text.ofInt value) := by
  apply atom_of_digits
  · obtain ⟨c, tail, htext, _⟩ := (piece_int value).solid
    rw [Text.ofInt, htext]
    exact List.cons_ne_nil c tail
  · intro c hc
    exact Text.of_mem_ofInt hc

theorem atom_ofBool (value : Bool) : Atom (Text.ofBool value) := by
  cases value with
  | true => exact .word (by decide) (by decide)
  | false => exact .word (by decide) (by decide)

theorem closed_eventFields (event : Event) : ∀ f ∈ eventFields event, f.Closed := by
  have hatom : ∀ f ∈ eventFields event, Atom f.text :=
    forall_eventFields (fun _ _ value => atom_writeJsonString value) (fun _ _ value => atom_ofNat value)
      (fun _ _ value => atom_ofInt value) (fun _ _ value => atom_ofBool value) event
  exact fun f hf => ⟨(good_eventFields event f hf).plain, hatom f hf⟩

/-- Only what is written of the fields stands in the text. -/
theorem objectText_congr {fields fields' : List Field}
    (h : fields.map Field.written = fields'.map Field.written) :
    objectText fields = objectText fields' := by
  have hmember : ∀ fields : List Field, fields.map Field.member =
      (fields.map Field.written).map fun (key, text) => '"' :: key ++ '"' :: ':' :: text := by
    intro fields
    rw [List.map_map]
    rfl
  rw [objectText, objectText, hmember, hmember, h]

/-- The names of the types in the order of the alternatives. -/
def typeNames : List Text :=
  ["file.opened".toList, "file.read".toList, "file.written".toList, "file.closed".toList,
    "file.deleted".toList, "file.renamed".toList, "directory.created".toList,
    "unknown".toList, "socket.created".toList, "network.connected".toList,
    "network.bound".toList, "network.listening".toList, "network.accepted".toList,
    "syscall.failed".toList, "trace.started".toList, "trace.finished".toList,
    "policy.violation".toList, "process.spawned".toList, "process.exec".toList,
    "process.exited".toList]

theorem eventType_eq_iff {p q : Payload} : eventType p = eventType q ↔ p.ctorIdx = q.ctorIdx := by
  have hname : ∀ p : Payload, typeNames[p.ctorIdx]? = some (eventType p) := by
    intro p
    cases p <;> rfl
  have hnodup : typeNames.Nodup := by decide
  have hlt : p.ctorIdx < typeNames.length := (List.getElem?_eq_some_iff.mp (hname p)).1
  rw [← List.getElem?_inj hlt hnodup, hname, hname, Option.some.injEq]

theorem ctorIdx_shown (p : Payload) : (shown p).ctorIdx = p.ctorIdx := by
  cases p <;> rfl

theorem fuse_of_plain {text : Text} (h : ∀ c ∈ text, c ≠ '\x01') : fuse text = text := by
  induction text with
  | nil => rfl
  | cons c text ih =>
    obtain ⟨hc, htext⟩ := List.forall_mem_cons.mp h
    rw [fuse_plain hc, ih htext]

theorem fuse_eventType (p : Payload) : fuse (eventType p) = eventType p := by
  apply fuse_of_plain
  cases p <;> dsimp only [eventType] <;> decide

/-- Payloads of the same alternative are written alike when the same is shown of them. -/
theorem written_payload_iff {p q : Payload} (hidx : p.ctorIdx = q.ctorIdx) :
    (payloadFields p).map Field.written = (payloadFields q).map Field.written ↔
      shown p = shown q := by
  -- the goal is kept small while the pairs of different alternatives are left out
  obtain ⟨Alike, halike⟩ : ∃ Alike : Payload → Payload → Prop, ∀ p q, Alike p q ↔
      ((payloadFields p).map Field.written = (payloadFields q).map Field.written ↔
        shown p = shown q) := ⟨_, fun _ _ => Iff.rfl⟩
  rw [← halike]
  cases p <;> cases q <;> first | (cases hidx; done) | apply (halike _ _).mpr
  all_goals
    simp only [payloadFields, Payload.path?, Payload.bytes?, Payload.fd?, Payload.mode?,
      Payload.endpoint?, Payload.violation?, Payload.failure?, Payload.ending?, Payload.parentPid?,
      Option.toList_some, Option.toList_none, List.map_cons, List.map_nil, List.flatMap_cons,
      List.flatMap_nil, List.append_nil, List.nil_append, List.cons_append, Field.written, textField,
      natField, intField, boolField, List.cons.injEq, Prod.mk.injEq, true_and, and_true,
      writeJsonString_eq_iff, Text.ofNat_inj, Text.ofInt_inj, Text.ofBool_inj, shown]
  all_goals grind

theorem written_event_iff (p q : Payload) (context : EventContext) :
    (eventFields ⟨p, context⟩).map Field.written = (eventFields ⟨q, context⟩).map Field.written ↔
      shown p = shown q := by
  have hfields : (eventFields ⟨p, context⟩).map Field.written =
        (eventFields ⟨q, context⟩).map Field.written ↔
      p.ctorIdx = q.ctorIdx ∧
        (payloadFields p).map Field.written = (payloadFields q).map Field.written := by
    simp only [eventFields, List.map_cons, List.cons.injEq, Field.written, textField, natField,
      intField, Prod.mk.injEq, true_and, writeJsonString_eq_iff, fuse_eventType, eventType_eq_iff]
  rw [hfields]
  constructor
  · rintro ⟨hidx, hwritten⟩
    exact (written_payload_iff hidx).mp hwritten
  · intro h
    have hidx : p.ctorIdx = q.ctorIdx := by rw [← ctorIdx_shown p, h, ctorIdx_shown]
    exact ⟨hidx, (written_payload_iff hidx).mpr h⟩

/-- Two events with the same context are written differently exactly when what is shown of
them is different. -/
theorem eventJson_ne_iff (p q : Payload) (context : EventContext) :
    eventJson ⟨p, context⟩ ≠ eventJson ⟨q, context⟩ ↔ shown p ≠ shown q := by
  rw [Ne, Ne, ← written_event_iff p q context, eventJson_eq, eventJson_eq, not_iff_not]
  constructor
  · intro h
    exact objectText_injective (List.cons_ne_nil _ _) (List.cons_ne_nil _ _)
      (closed_eventFields _) (closed_eventFields _) h
  · exact objectText_congr

/-- Neither the names of a renaming nor the digits behind a control byte are told apart. -/
theorem renamed_alike :
    Payload.fileRenamed "/a".toList "/b".toList ≠ .fileRenamed "/c".toList "/d".toList ∧
      eventJson ⟨.fileRenamed "/a".toList "/b".toList, ⟨7, 3⟩⟩ =
        eventJson ⟨.fileRenamed "/c".toList "/d".toList, ⟨7, 3⟩⟩ ∧
      Payload.fileDeleted ['/', '\x01', '0'] ≠ .fileDeleted ['/', '\x10'] ∧
      eventJson ⟨.fileDeleted ['/', '\x01', '0'], ⟨7, 3⟩⟩ =
        eventJson ⟨.fileDeleted ['/', '\x10'], ⟨7, 3⟩⟩ := by
  refine ⟨by decide, rfl, by decide, ?_⟩
  have hpath : writeJsonString ['/', '\x01', '0'] = writeJsonString ['/', '\x10'] := by decide
  unfold eventJson
  simp only [Payload.path?, field, hpath]
  rfl

end ExeCell.Report
