import ExeCell.Package.Observation
import ExeCell.Sandbox.Output
import ExeCell.Sandbox.StderrTrace
import ExeCell.Trace.Recorder

/-!
# Trace evidence and the output of the target

The lines of `StderrTraceReporter` and whatever the target prints reach `run_captured` as one
stream. `run_one` takes every text between a mark and the end of its line for an event, in the
part of the stream that was kept. The two are told apart rightly exactly when all lines were
kept and the target never writes the mark.

* `traceParts_line`: behind text without the mark, a line that was kept is read as it was
  written.
* `not_infix_of_traceParts`, `length_le_of_traceParts`: a mark in the text in front of a line,
  or a line that was cut, is seen in what is read.
* `runOne_evidence_iff`: the evidence is the reporter's exactly when every line lies within the
  bytes that were kept, and no run of the target's bytes between two lines contains the mark.
-/

namespace ExeCell.Package

open Sandbox (traceLine traceKind stderrTraceReporter bytesOf errWithin readsOf)
open Trace (startedEvent tracingNotice)

/-! ## What the two write -/

/-- A text of the target, then the lines with the texts behind them. -/
def streamOf : Text → List (Event × Text) → Text
  | text, [] => text
  | text, (event, next) :: rest => text ++ (traceLine event ++ streamOf next rest)

/-- The standard error of the sandbox. A setup that fails leaves its message. Otherwise the
tracer writes its notice and the line of its first event before the root goes on; then come
the other lines, and in front of each what the target has written since the last one. -/
inductive Shared where
  | untraced (message : Text)
  | traced (root : Pid) (output : Text) (later : List (Event × Text))

namespace Shared

/-- What comes before the first line of the reporter. -/
def first : Shared → Text
  | untraced message => message
  | traced root _ _ => tracingNotice root

/-- Every line with what comes behind it. -/
def rest : Shared → List (Event × Text)
  | untraced _ => []
  | traced root output later => (startedEvent root, output) :: later

def bytes (shared : Shared) : Text := streamOf shared.first shared.rest

/-- The events that the reporter has written. -/
def lines (shared : Shared) : List Event := shared.rest.map Prod.fst

end Shared

/-- What follows the kind in an object. -/
def traceNumbers (context : EventContext) : Text :=
  "\",\"pid\":".toList ++ Text.ofInt context.pid ++ ",\"sequence\":".toList ++
    Text.ofNat context.sequence ++ "\x7d".toList

/-- A line of the reporter without its mark and its newline. -/
def traceObject (event : Event) : Text :=
  "\x7b\"type\":\"".toList ++ traceKind event.payload ++ traceNumbers event.context

def isNetwork : Payload → Bool
  | .networkConnected _ _ => true
  | .networkBound _ _ => true
  | _ => false

def isProcess : Payload → Bool
  | .processExec _ _ => true
  | .processSpawned _ _ => true
  | .processExited _ _ _ => true
  | _ => false

/-- What the lines of the reporter, and nothing else, add to a result. -/
def reported (events : List Event) : Observed where
  events := events.map traceObject
  network := (events.filter (isNetwork ·.payload)).map traceObject
  processes := (events.filter (isProcess ·.payload)).map traceObject

/-- A target that writes nothing leaves what `trace::run` has written, when its writes are
complete. -/
theorem bytes_of_run {env : Trace.TraceEnv} {root : Pid} {code : Int} {written : Text}
    (hroot : env.attached = some root)
    (h : Trace.run (stderrTraceReporter fun event => [.wrote (traceLine event).length])
      (tracingNotice root) env = some (code, written)) :
    ∃ later : List Event,
      written = (Shared.traced root [] (later.map fun event => (event, []))).bytes := by
  have hsilent : ∀ events : List Event,
      streamOf [] (events.map fun event => (event, [])) = events.flatMap traceLine := by
    intro events
    induction events with
    | nil => rfl
    | cons event events ih =>
      rw [List.map_cons, streamOf, ih, List.flatMap_cons, List.nil_append]
  obtain ⟨events, _, hwritten, hfirst⟩ := Trace.run_reported h
  rw [hroot, Option.map_some] at hfirst
  obtain ⟨later, rfl⟩ := List.head?_eq_some_iff.mp hfirst
  refine ⟨later, ?_⟩
  rw [hwritten, Sandbox.report_whole, List.flatMap_cons, ← hsilent]
  rfl

/-! ## The lines -/

theorem traceObject_eq (event : Event) :
    traceObject event =
      "\x7b\"type\":\"".toList ++ traceKind event.payload ++ traceNumbers event.context := by
  delta traceObject
  rfl

theorem traceLine_eq (event : Event) :
    traceLine event = traceMarker ++ (traceObject event ++ ['\n']) := by
  have hstart : "EXECELL_TRACE:\x7b\"type\":\"".toList =
      traceMarker ++ "\x7b\"type\":\"".toList := by decide
  have hend : "\x7d\n".toList = "\x7d".toList ++ ['\n'] := by decide
  rw [traceObject_eq]
  delta traceLine traceNumbers
  simp only [hstart, hend, List.append_assoc]

/-- Behind the kind there are only digits and a fixed text. -/
theorem not_mem_traceNumbers {c : Char} (context : EventContext) (hdigit : c.isDigit = false)
    (hfixed : c ∉ "-\",\"pid\":,\"sequence\":\x7d".toList) : c ∉ traceNumbers context := by
  have hparts : "-\",\"pid\":,\"sequence\":\x7d".toList =
      "-".toList ++ "\",\"pid\":".toList ++ ",\"sequence\":".toList ++ "\x7d".toList := by decide
  rw [hparts] at hfixed
  simp only [List.mem_append, not_or] at hfixed
  have hpid : c ∉ Text.ofInt context.pid := by
    intro h
    rcases Text.of_mem_ofInt h with h | h
    · rw [hdigit] at h
      cases h
    · exact hfixed.1.1.1 (List.mem_singleton.mpr h)
  have hsequence : c ∉ Text.ofNat context.sequence := Text.not_mem_ofNat hdigit _
  delta traceNumbers
  simp only [List.mem_append, not_or]
  exact ⟨⟨⟨⟨hfixed.1.1.2, hpid⟩, hfixed.1.2⟩, hsequence⟩, hfixed.2⟩

/-- The kinds of the reporter, with what they count as. -/
def kinds : List (Text × Bool × Bool) :=
  [("event".toList, false, false), ("file_opened".toList, false, false),
    ("file_read".toList, false, false), ("file_written".toList, false, false),
    ("network_connected".toList, true, false), ("network_bound".toList, true, false),
    ("process_exec".toList, false, true), ("process_spawned".toList, false, true),
    ("process_exited".toList, false, true)]

theorem kind_mem (payload : Payload) :
    (traceKind payload, isNetwork payload, isProcess payload) ∈ kinds := by
  cases payload <;> exact List.mem_of_elem_eq_true rfl

theorem newline_not_mem_traceObject (event : Event) : '\n' ∉ traceObject event := by
  have hkinds : ∀ kind ∈ kinds, '\n' ∉ "\x7b\"type\":\"".toList ++ kind.1 := by decide
  rw [traceObject_eq, List.mem_append, not_or]
  exact ⟨hkinds _ (kind_mem event.payload), not_mem_traceNumbers _ (by decide) (by decide)⟩

/-! ## The classification of an event -/

/-- The part of a kind before its underscore. -/
def stem (kind : Text) : Text := kind.takeWhile (· ≠ '_')

/-- The part of a kind behind its underscore. -/
def branch (kind : Text) : Text := (kind.dropWhile (· ≠ '_')).tail

/-- The only underscore of an object is the one in its kind. -/
theorem infix_traceObject_iff {name : Text} (event : Event) :
    name ++ ['_'] <:+: traceObject event ↔
      '_' ∈ traceKind event.payload ∧
        name <:+ "\x7b\"type\":\"".toList ++ stem (traceKind event.payload) := by
  have hnumbers : '_' ∉ traceNumbers event.context :=
    not_mem_traceNumbers _ (by decide) (by decide)
  by_cases hkind : '_' ∈ traceKind event.payload
  · have hkinds : ∀ kind ∈ kinds, '_' ∈ kind.1 →
        kind.1 = stem kind.1 ++ '_' :: branch kind.1 ∧
          '_' ∉ "\x7b\"type\":\"".toList ++ stem kind.1 ∧ '_' ∉ branch kind.1 := by decide
    obtain ⟨heq, hbefore, hbranch⟩ := hkinds _ (kind_mem event.payload) hkind
    dsimp only at heq
    have hbehind : '_' ∉ branch (traceKind event.payload) ++ traceNumbers event.context := by
      rw [List.mem_append, not_or]
      exact ⟨hbranch, hnumbers⟩
    have hobject : traceObject event =
        ("\x7b\"type\":\"".toList ++ stem (traceKind event.payload)) ++
          '_' :: (branch (traceKind event.payload) ++ traceNumbers event.context) := by
      rw [traceObject_eq]
      nth_rewrite 1 [heq]
      simp only [List.append_assoc, List.cons_append]
    rw [hobject, and_iff_right hkind]
    constructor
    · rintro ⟨front, back, hinfix⟩
      rw [List.append_assoc, List.append_assoc, List.singleton_append, ← List.append_assoc] at hinfix
      have hparts := (List.append_cons_inj_of_notMem hbefore hbehind).mp hinfix.symm
      exact ⟨front, hparts.1.symm⟩
    · rintro ⟨front, hfront⟩
      refine ⟨front, branch (traceKind event.payload) ++ traceNumbers event.context, ?_⟩
      rw [← hfront]
      simp only [List.append_assoc, List.singleton_append]
  · have hkinds : ∀ kind ∈ kinds, '_' ∉ kind.1 → '_' ∉ "\x7b\"type\":\"".toList ++ kind.1 := by
      decide
    refine iff_of_false ?_ (fun h => hkind h.1)
    intro hinfix
    have hmem : '_' ∈ traceObject event :=
      hinfix.subset (List.mem_append_right _ (List.mem_singleton_self _))
    rw [traceObject_eq, List.mem_append] at hmem
    exact hmem.elim (hkinds _ (kind_mem event.payload) hkind) hnumbers

theorem occurs_network (event : Event) :
    Search.occurs "network_".toList (traceObject event) = isNetwork event.payload := by
  have hkinds : ∀ kind ∈ kinds,
      ('_' ∈ kind.1 ∧ "network".toList <:+ "\x7b\"type\":\"".toList ++ stem kind.1) ↔
        kind.2.1 = true := by decide
  have hname : "network_".toList = "network".toList ++ ['_'] := by decide
  rw [Bool.eq_iff_iff, Search.occurs, decide_eq_true_eq, hname, infix_traceObject_iff]
  exact hkinds _ (kind_mem event.payload)

theorem occurs_process (event : Event) :
    Search.occurs "process_".toList (traceObject event) = isProcess event.payload := by
  have hkinds : ∀ kind ∈ kinds,
      ('_' ∈ kind.1 ∧ "process".toList <:+ "\x7b\"type\":\"".toList ++ stem kind.1) ↔
        kind.2.2 = true := by decide
  have hname : "process_".toList = "process".toList ++ ['_'] := by decide
  rw [Bool.eq_iff_iff, Search.occurs, decide_eq_true_eq, hname, infix_traceObject_iff]
  exact hkinds _ (kind_mem event.payload)

/-! ## Reading the stream -/

theorem unbordered_traceMarker : Search.Unbordered traceMarker := by decide

theorem traceMarker_ne_nil : traceMarker ≠ [] := by decide

/-- What the loop goes on with after an event. -/
def nextLine (text : Text) : Text := (text.dropWhile (· ≠ '\n')).drop 1

/-- The loop of `run_one`, with the text in front of every mark. -/
def partsLoop : Nat → Text → List (Text × Text)
  | 0, _ => []
  | fuel + 1, text =>
    match Search.cut traceMarker text with
    | none => []
    | some (before, behind) =>
      (before, behind.takeWhile (· ≠ '\n')) :: partsLoop fuel (nextLine behind)

/-- The events that `run_one` finds, each with the text that it has passed over. -/
def traceParts (stderrData : Text) : List (Text × Text) :=
  partsLoop stderrData.length stderrData

theorem snd_partsLoop (fuel : Nat) (text : Text) :
    (partsLoop fuel text).map Prod.snd = traceLoop fuel text := by
  induction fuel generalizing text with
  | zero => rfl
  | succ fuel ih =>
    rw [partsLoop, traceLoop, Search.afterFirst]
    cases Search.cut traceMarker text with
    | none => rfl
    | some parts => exact congrArg _ (ih _)

theorem snd_traceParts (text : Text) : (traceParts text).map Prod.snd = traceEvents text :=
  snd_partsLoop text.length text

theorem length_nextLine_le (text : Text) : (nextLine text).length ≤ text.length := by
  have hdrop := (List.dropWhile_suffix (· ≠ '\n') (l := text)).length_le
  rw [nextLine, List.length_drop]
  omega

theorem partsLoop_nil (fuel : Nat) : partsLoop fuel [] = [] := by
  cases fuel with
  | zero => rfl
  | succ fuel => rfl

/-- The text behind a mark is shorter than the whole. -/
theorem length_behind_lt {text before behind : Text}
    (h : Search.cut traceMarker text = some (before, behind)) : behind.length < text.length := by
  have hpositive : 0 < traceMarker.length := by decide
  rw [Search.cut_eq_some h, List.length_append, List.length_append]
  omega

/-- More fuel than the text is long does not change what is found. -/
theorem partsLoop_congr {fuel fuel' : Nat} {text : Text} (h : text.length ≤ fuel)
    (h' : text.length ≤ fuel') : partsLoop fuel text = partsLoop fuel' text := by
  induction fuel generalizing fuel' text with
  | zero =>
    rw [List.length_eq_zero_iff.mp (Nat.le_zero.mp h), partsLoop_nil, partsLoop_nil]
  | succ fuel ih =>
    cases fuel' with
    | zero =>
      rw [List.length_eq_zero_iff.mp (Nat.le_zero.mp h'), partsLoop_nil, partsLoop_nil]
    | succ fuel' =>
      rw [partsLoop, partsLoop]
      split
      · rfl
      · rename_i before behind hcut
        have hbehind := length_behind_lt hcut
        have hnext := length_nextLine_le behind
        rw [ih (show (nextLine behind).length ≤ fuel by omega)
          (show (nextLine behind).length ≤ fuel' by omega)]

/-- What is found in a text with a mark: the first event, and those of the lines behind it. -/
theorem traceParts_cut {text before behind : Text}
    (h : Search.cut traceMarker text = some (before, behind)) :
    traceParts text = (before, behind.takeWhile (· ≠ '\n')) :: traceParts (nextLine behind) := by
  have hbehind := length_behind_lt h
  have hnext := length_nextLine_le behind
  have hfuel : text.length = text.length - 1 + 1 := by omega
  rw [traceParts, hfuel, partsLoop, h]
  dsimp only
  rw [partsLoop_congr (show (nextLine behind).length ≤ text.length - 1 by omega) le_rfl]
  rfl

theorem traceParts_eq_nil {text : Text} : traceParts text = [] ↔ ¬ traceMarker <:+: text := by
  cases hcut : Search.cut traceMarker text with
  | none =>
    refine iff_of_true ?_ (Search.cut_eq_none.mp hcut)
    rw [traceParts]
    cases text with
    | nil => rfl
    | cons c text => rw [List.length_cons, partsLoop, hcut]
  | some parts =>
    refine iff_of_false (fun hnone => ?_) fun hmark => ?_
    · rw [traceParts_cut hcut] at hnone
      cases hnone
    · rw [Search.cut_eq_none.mpr hmark] at hcut
      cases hcut

/-- The length of a line, with its mark and its newline. -/
theorem length_traceLine (event : Event) :
    (traceLine event).length = traceMarker.length + (traceObject event).length + 1 := by
  rw [traceLine_eq, List.length_append, List.length_append, List.length_singleton, Nat.add_assoc]

/-- A line of which the newline, or something behind it, is cut off. -/
theorem takeWhile_cut {line : Text} (h : '\n' ∉ line) (more : Text) (length : Nat) :
    (line ++ ('\n' :: more).take length).takeWhile (· ≠ '\n') = line := by
  refine Search.takeWhile_ne_append h ?_
  cases length <;> simp

theorem nextLine_cut {line : Text} (h : '\n' ∉ line) (more : Text) (length : Nat) :
    nextLine (line ++ ('\n' :: more).take length) = more.take (length - 1) := by
  cases length with
  | zero =>
    rw [List.take_zero, nextLine, Search.dropWhile_ne_append h (by simp)]
    rfl
  | succ length =>
    rw [List.take_succ_cons, nextLine, Search.dropWhile_ne_append h (by simp)]
    rfl

/-- Behind text without the mark a line of the reporter is read as it was written, if it was
kept; its newline may be missing. -/
theorem traceParts_line {text : Text} {event : Event} {length : Nat}
    (h : ¬ traceMarker <:+: text)
    (hlength : text.length + (traceLine event).length ≤ length + 1) (more : Text) :
    traceParts ((text ++ (traceLine event ++ more)).take length) =
      (text, traceObject event) ::
        traceParts (more.take (length - (text.length + (traceLine event).length))) := by
  have hline := newline_not_mem_traceObject event
  obtain ⟨left, hleft⟩ : ∃ left, length =
      text.length + traceMarker.length + (traceObject event).length + left := by
    rw [length_traceLine] at hlength
    exact ⟨length - (text.length + traceMarker.length + (traceObject event).length), by omega⟩
  have hkept : (text ++ (traceLine event ++ more)).take length =
      text ++ (traceMarker ++ (traceObject event ++ ('\n' :: more).take left)) := by
    rw [traceLine_eq, hleft, Nat.add_assoc, Nat.add_assoc, List.take_length_add_append,
      List.append_assoc, List.take_length_add_append, List.append_assoc,
      List.take_length_add_append]
    rfl
  have hcut := Search.cut_of_not_occurs unbordered_traceMarker traceMarker_ne_nil h
    (traceObject event ++ ('\n' :: more).take left)
  rw [hkept, traceParts_cut hcut, takeWhile_cut hline, nextLine_cut hline]
  congr 3
  rw [length_traceLine]
  omega

section Line

variable {text more : Text} {event : Event} {length : Nat} {parts : List (Text × Text)}

/-- A mark in front of a line is found before the line. -/
theorem not_infix_of_traceParts (h : traceParts (text ++ more) = (text, traceObject event) :: parts) :
    ¬ traceMarker <:+: text := by
  intro hmark
  cases hcut : Search.cut traceMarker text with
  | none => exact Search.cut_eq_none.mp hcut hmark
  | some found =>
    obtain ⟨before, behind⟩ := found
    have hlength := congrArg List.length (Search.cut_eq_some hcut)
    have hpositive : 0 < traceMarker.length := by decide
    rw [traceParts_cut (Search.cut_append more hcut)] at h
    rw [(Prod.mk.inj (List.cons.inj h).1).1, List.length_append, List.length_append] at hlength
    omega

/-- What is found as a line is as long. -/
theorem length_le_of_traceParts (h : traceParts text = (more, traceObject event) :: parts) :
    more.length + (traceLine event).length ≤ text.length + 1 := by
  cases hcut : Search.cut traceMarker text with
  | none =>
    rw [traceParts_eq_nil.mpr (Search.cut_eq_none.mp hcut)] at h
    cases h
  | some found =>
    obtain ⟨before, behind⟩ := found
    rw [traceParts_cut hcut] at h
    obtain ⟨rfl, hobject⟩ := Prod.mk.inj (List.cons.inj h).1
    have hline := (List.takeWhile_prefix (· ≠ '\n') (l := behind)).length_le
    rw [hobject] at hline
    rw [Search.cut_eq_some hcut, length_traceLine, List.length_append, List.length_append]
    omega

end Line

/-! ## The whole stream -/

/-- The lines with what stands in front of each. -/
def lineParts : Text → List (Event × Text) → List (Text × Text)
  | _, [] => []
  | text, (event, next) :: rest => (text, traceObject event) :: lineParts next rest

/-- Every line lies within the first bytes of the stream, this many, except for its newline, and
the texts do not contain the mark within them. -/
def EvidentFrom : Nat → Text → List (Event × Text) → Prop
  | length, text, [] => ¬ traceMarker <:+: text.take length
  | length, text, (event, next) :: rest =>
    ¬ traceMarker <:+: text ∧ text.length + (traceLine event).length ≤ length + 1 ∧
      EvidentFrom (length - (text.length + (traceLine event).length)) next rest

def decidableEvidentFrom : (length : Nat) → (text : Text) → (rest : List (Event × Text)) →
    Decidable (EvidentFrom length text rest)
  | length, text, [] => inferInstanceAs (Decidable (¬ traceMarker <:+: text.take length))
  | length, text, (event, next) :: rest =>
    have := decidableEvidentFrom (length - (text.length + (traceLine event).length)) next rest
    inferInstanceAs (Decidable (_ ∧ _ ∧ _))

/-- The lines, and nothing else, are found at their places exactly when all of them are kept and
the target never writes the mark. -/
theorem traceParts_streamOf_iff (rest : List (Event × Text)) (length : Nat) (text : Text) :
    traceParts ((streamOf text rest).take length) = lineParts text rest ↔
      EvidentFrom length text rest := by
  induction rest generalizing length text with
  | nil => exact traceParts_eq_nil
  | cons part rest ih =>
    obtain ⟨event, next⟩ := part
    rw [streamOf, lineParts, EvidentFrom, ← ih]
    constructor
    · intro h
      have hlength : text.length + (traceLine event).length ≤ length + 1 :=
        (length_le_of_traceParts h).trans (Nat.succ_le_succ (List.length_take_le ..))
      have hmark : ¬ traceMarker <:+: text := by
        have hwhole : text.take length = text := by
          have hline := length_traceLine event
          exact List.take_of_length_le (by omega)
        rw [List.take_append, hwhole] at h
        exact not_infix_of_traceParts h
      rw [traceParts_line hmark hlength] at h
      exact ⟨hmark, hlength, (List.cons.inj h).2⟩
    · rintro ⟨hmark, hlength, hrest⟩
      rw [traceParts_line hmark hlength, hrest]

namespace Shared

/-- The lines with what stands in front of each. -/
def parts (shared : Shared) : List (Text × Text) := lineParts shared.first shared.rest

/-- Every line lies within the first bytes, this many, and no text between them has the mark. -/
def Evident (shared : Shared) (length : Nat) : Prop :=
  EvidentFrom length shared.first shared.rest

instance (shared : Shared) (length : Nat) : Decidable (shared.Evident length) :=
  decidableEvidentFrom length shared.first shared.rest

theorem parts_iff (shared : Shared) (length : Nat) :
    traceParts (shared.bytes.take length) = shared.parts ↔ shared.Evident length :=
  traceParts_streamOf_iff shared.rest length shared.first

theorem snd_parts (shared : Shared) : shared.parts.map Prod.snd = shared.lines.map traceObject := by
  have hparts : ∀ (rest : List (Event × Text)) (text : Text),
      (lineParts text rest).map Prod.snd = (rest.map Prod.fst).map traceObject := by
    intro rest
    induction rest with
    | nil => exact fun _ => rfl
    | cons part rest ih => exact fun _ => congrArg _ (ih _)
  exact hparts shared.rest shared.first

end Shared

/-- What the reporter's own lines are classified as. -/
theorem classify_lines (events : List Event) :
    (events.map traceObject).filter (Search.occurs "network_".toList) =
        (reported events).network ∧
      (events.map traceObject).filter (Search.occurs "process_".toList) =
        (reported events).processes := by
  have hnetwork : (Search.occurs "network_".toList) ∘ traceObject = (isNetwork ·.payload) :=
    funext occurs_network
  have hprocess : (Search.occurs "process_".toList) ∘ traceObject = (isProcess ·.payload) :=
    funext occurs_process
  rw [List.filter_map, List.filter_map, hnetwork, hprocess]
  exact ⟨rfl, rfl⟩

/-- Where the lines are found at their places, they are the evidence. -/
theorem Shared.traceEvidence_of_parts {shared : Shared} {stderrData : Text}
    (h : traceParts stderrData = shared.parts) :
    traceEvidence stderrData = reported shared.lines := by
  have hevents : traceEvents stderrData = shared.lines.map traceObject := by
    rw [← snd_traceParts, h, shared.snd_parts]
  obtain ⟨hnetwork, hprocess⟩ := classify_lines shared.lines
  rw [traceEvidence, hevents, hnetwork, hprocess]
  rfl

/-! ## The result of a task -/

theorem Observed.append_cancel_left {r r' s : Observed} (h : s.append r = s.append r') : r = r' := by
  cases r
  cases r'
  simpa [Observed.append] using h

theorem Observed.append_cancel_right {r r' s : Observed} (h : r.append s = r'.append s) :
    r = r' := by
  cases r
  cases r'
  simpa [Observed.append] using h

/-- `run_one` comes as far as the sandbox. -/
def Runs (options : Options) (host : TaskHost) (task : Task) (root : Text) : Prop :=
  LexicalPath.isAbsolute task.path = false ∧ Search.occurs "..".toList task.path = false ∧
    host.staged = true ∧ host.session = some root ∧ host.snapshotHasFile = true ∧
    (options.cgroupRoot ≠ [] → host.cgroupCreated = true)

/-- The command that `run_one` runs in the sandbox. -/
def command (task : Task) : List Text :=
  if task.script then ["/bin/sh".toList, '/' :: task.path, "install".toList]
  else ['/' :: task.path]

/-- What `run_one` captures of the program. -/
def capturedOf (options : Options) (host : TaskHost) (task : Task) (root : Text) :
    Sandbox.Captured :=
  host.capture (command task) (taskConfig options host root)

/-- The result of a task that has run, with this evidence from its trace. -/
def resultWith (options : Options) (host : TaskHost) (task : Task) (root : Text)
    (evidence : Observed) : Observed :=
  let attested : Observed :=
    { events := ["\x7b\"schema_version\":1,\"type\":\"attestation\",\"manifest\":".toList ++
        Sandbox.attestation (taskConfig options host root) ++ "\x7d".toList] }
  attested.append (captureEntries task (capturedOf options host task root)) |>.append evidence
    |>.append (judgeEntries task (capturedOf options host task root))

section Task

variable {options : Options} {host : TaskHost} {task : Task} {root : Text}

theorem runOne_of_runs (h : Runs options host task root) :
    runOne options host task = resultWith options host task root
      (traceEvidence (capturedOf options host task root).stderrData) := by
  obtain ⟨hrelative, hinside, hstaged, hsession, hfile, hcgroup⟩ := h
  have hcgroup' : ¬ (options.cgroupRoot ≠ [] ∧ (!host.cgroupCreated) = true) := by
    rintro ⟨hroot, hfailed⟩
    rw [hcgroup hroot] at hfailed
    cases hfailed
  delta runOne
  rw [if_neg (by rw [hrelative, hinside]; decide), if_neg (by simp [hstaged]), hsession]
  dsimp only
  rw [if_neg (by simp [hfile]), if_neg hcgroup']
  rfl

theorem resultWith_inj {evidence evidence' : Observed} :
    resultWith options host task root evidence = resultWith options host task root evidence' ↔
      evidence = evidence' := by
  refine ⟨fun h => ?_, fun h => h ▸ rfl⟩
  exact Observed.append_cancel_left (Observed.append_cancel_right h)

/-- What `run_one` adds to the result from the standard error is what the reporter has written:
every event is read from the line of its own, and none from anything else. -/
structure ToldApart (options : Options) (host : TaskHost) (task : Task) (root : Text)
    (shared : Shared) : Prop where
  result : runOne options host task = resultWith options host task root (reported shared.lines)
  places : traceParts (capturedOf options host task root).stderrData = shared.parts

theorem toldApart_iff {shared : Shared} (hruns : Runs options host task root) :
    ToldApart options host task root shared ↔
      traceParts (capturedOf options host task root).stderrData = shared.parts := by
  refine ⟨ToldApart.places, fun h => ⟨?_, h⟩⟩
  rw [runOne_of_runs hruns, Shared.traceEvidence_of_parts h]

/-- What is kept of a stream that was read as far as the loop of `run_captured` came. -/
theorem stderrData_of_read {captured : Sandbox.Captured} {args : List Text} {limit : Nat}
    {env : Sandbox.CaptureEnv} {log : List (DescriptorLog.Op Sandbox.PipeEnd)} {bytes : Text}
    (hcapture : Sandbox.runCaptured args limit env = some (captured, log))
    (hread : bytesOf .err (readsOf env.passes) <+: bytes) :
    captured.stderrData = bytes.take (errWithin limit (readsOf env.passes)) := by
  obtain ⟨unread, rfl⟩ := hread
  rw [Sandbox.runCaptured_err hcapture,
    List.take_append_of_le_length (Sandbox.errWithin_le limit _)]

/-- Whatever the program prints, and whatever of it the sandbox keeps: the evidence is what the
reporter has written exactly when every line lies within what is kept and no run of the
program's bytes between two lines contains the mark. -/
theorem runOne_evidence_iff {shared : Shared} {env : Sandbox.CaptureEnv}
    {log : List (DescriptorLog.Op Sandbox.PipeEnd)} (hruns : Runs options host task root)
    (hcapture : Sandbox.runCaptured (command task) options.outputLimit env =
      some (capturedOf options host task root, log))
    (hread : bytesOf .err (readsOf env.passes) <+: shared.bytes) :
    ToldApart options host task root shared ↔
      shared.Evident (errWithin options.outputLimit (readsOf env.passes)) := by
  rw [toldApart_iff hruns, stderrData_of_read hcapture hread]
  exact shared.parts_iff _

end Task

/-- An executable of the package. -/
def tool : Task := { path := "usr/bin/tool".toList, script := false }

/-- The root of the snapshot that a host has by default. -/
def snapshotRoot : Text := "/tmp/execell-observe/root".toList

/-- One `read` takes all of a standard error, and both pipes end. -/
def wholeRead (shared : Shared) (hnonempty : shared.bytes ≠ [])
    (hfits : shared.bytes.length ≤ 4096) : Sandbox.CaptureEnv where
  passes :=
    [{ out := { last := .eof }
       err := { chunks := [⟨shared.bytes, hnonempty, hfits⟩], last := .eof } }]

/-- A host on which the loop of `run_captured` comes to read this. -/
def hostReading (limit : Nat) (env : Sandbox.CaptureEnv) : TaskHost where
  capture args _ := ((Sandbox.runCaptured args limit env).map Prod.fst).getD {}

theorem tool_runs (options : Options) (hcgroup : options.cgroupRoot = []) (limit : Nat)
    (env : Sandbox.CaptureEnv) : Runs options (hostReading limit env) tool snapshotRoot :=
  ⟨by decide, by decide, rfl, rfl, rfl, fun h => absurd hcgroup h⟩

theorem captured_hostReading {options : Options} {limit : Nat} {env : Sandbox.CaptureEnv}
    (h : (Sandbox.runCaptured (command tool) limit env).isSome = true) :
    ∃ log, Sandbox.runCaptured (command tool) limit env =
      some (capturedOf options (hostReading limit env) tool snapshotRoot, log) := by
  obtain ⟨⟨captured, log⟩, hcapture⟩ := Option.isSome_iff_exists.mp h
  have hresult : capturedOf options (hostReading limit env) tool snapshotRoot =
      ((Sandbox.runCaptured (command tool) limit env).map Prod.fst).getD {} := rfl
  refine ⟨log, ?_⟩
  rw [hresult, hcapture]
  rfl

/-- The lines of a target that has run as the process 7, which exits with status zero. -/
def exitLines : List (Event × Text) :=
  [(⟨.processExited 7 0 false, { pid := 7, sequence := 1 }⟩, []),
    (⟨.traceFinished 7 0 false, { pid := 7, sequence := 2 }⟩, [])]

/-- The target writes a warning, without a newline. -/
def warned : Shared := .traced 7 "warning".toList exitLines

def warnedRead : Sandbox.CaptureEnv := wholeRead warned (by decide +kernel) (by decide +kernel)

theorem runOne_evidence_warned :
    ToldApart {} (hostReading 1048576 warnedRead) tool snapshotRoot warned := by
  obtain ⟨log, hlog⟩ := @captured_hostReading {} 1048576 warnedRead
    (show (Sandbox.runCaptured (command tool) 1048576 warnedRead).isSome = true by decide +kernel)
  exact (runOne_evidence_iff (tool_runs {} rfl 1048576 warnedRead) hlog
    (show bytesOf .err (readsOf warnedRead.passes) <+: warned.bytes by decide +kernel)).mpr
      (by decide +kernel)

/-- The target writes a line of its own with the mark. -/
def forged : Shared :=
  .traced 7 "EXECELL_TRACE:\x7b\"type\":\"network_connected\",\"pid\":7,\"sequence\":1\x7d\n".toList
    exitLines

/-- The target writes the mark in front of a line of the reporter. -/
def swallowed : Shared := .traced 7 "EXECELL_TRACE:".toList exitLines

/-- The target writes so much that less than the last lines is kept. -/
def flooded : Shared := .traced 7 (List.replicate 60 '.') exitLines

def forgedRead : Sandbox.CaptureEnv := wholeRead forged (by decide +kernel) (by decide +kernel)

def swallowedRead : Sandbox.CaptureEnv := wholeRead swallowed (by decide +kernel) (by decide +kernel)

def floodedRead : Sandbox.CaptureEnv := wholeRead flooded (by decide +kernel) (by decide +kernel)

/-- What `run_one` adds is not what the reporter has written. -/
theorem runOne_ne_of_events {options : Options} {host : TaskHost} {task : Task} {root : Text}
    {shared : Shared} (hruns : Runs options host task root)
    (h : traceEvents (capturedOf options host task root).stderrData ≠ shared.lines.map traceObject) :
    runOne options host task ≠ resultWith options host task root (reported shared.lines) := by
  rw [runOne_of_runs hruns, Ne, resultWith_inj]
  exact fun heq => h (congrArg Observed.events heq)

/-- The target adds an event that never happened, changes one that did, and hides those that
come last. -/
theorem runOne_evidence_forged :
    runOne {} (hostReading 1048576 forgedRead) tool ≠
        resultWith {} (hostReading 1048576 forgedRead) tool snapshotRoot (reported forged.lines) ∧
      runOne {} (hostReading 1048576 swallowedRead) tool ≠
        resultWith {} (hostReading 1048576 swallowedRead) tool snapshotRoot
          (reported swallowed.lines) ∧
      runOne { outputLimit := 128 } (hostReading 128 floodedRead) tool ≠
        resultWith { outputLimit := 128 } (hostReading 128 floodedRead) tool snapshotRoot
          (reported flooded.lines) := by
  refine ⟨runOne_ne_of_events (tool_runs _ rfl _ _) ?_,
    runOne_ne_of_events (tool_runs _ rfl _ _) ?_, runOne_ne_of_events (tool_runs _ rfl _ _) ?_⟩
  · decide +kernel
  · decide +kernel
  · decide +kernel

end ExeCell.Package
