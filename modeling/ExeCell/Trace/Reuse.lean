import ExeCell.Trace.Descriptors

/-!
# Descriptors that are used again

The table of the decoder against the one of the kernel. `Linux` is what the kernel does to
the descriptors of a single-threaded task; it is documented behaviour and not part of the
program. As long as the decoder sees every descriptor go (`Followed`), whatever it reports
under a path is a file that was opened as that path (`run_refers`). It does not see a close
that fails after the kernel has let the descriptor go, and not what `execve` closes.
-/

namespace ExeCell.Trace

/-! ## The descriptors of the kernel -/

/-- What a descriptor refers to: a file the task has opened as a path, or anything else. -/
inductive Object where
  | file (path : Text)
  | other
  deriving DecidableEq

structure Descriptor where
  object : Object
  closeOnExec : Bool
  deriving DecidableEq

abbrev KernelTable := Int → Option Descriptor

namespace KernelTable

def object (kernel : KernelTable) (fd : Int) : Option Object := (kernel fd).map (·.object)

/-- The descriptor refers to a file the task has opened as the path. -/
def Refers (kernel : KernelTable) (fd : Int) (path : Text) : Prop :=
  kernel.object fd = some (.file path)

instance (kernel : KernelTable) (fd : Int) (path : Text) : Decidable (kernel.Refers fd path) :=
  inferInstanceAs (Decidable (_ = _))

end KernelTable

/-- `EBADF`. -/
def ebadf : Int := 9

/-- `SYS_execveat`. -/
def execveat : Int := 322

namespace Call

def makesSocket (call : Call) : Prop :=
  (call.number = Sys.socket ∨ call.number = Sys.accept ∨ call.number = Sys.accept4) ∧
    call.result ≥ 0

def executes (call : Call) : Prop :=
  (call.number = Sys.execve ∨ call.number = execveat) ∧ call.result = 0

/-- The descriptors of `close_range`. -/
def InRange (call : Call) (fd : Int) : Prop :=
  toUInt32 call.fd ≤ toUInt32 fd ∧ toUInt32 fd ≤ toUInt32 call.entry.registers.rsi

/-- A call none of the fields of `Linux` is about. -/
structure Other (call : Call) : Prop where
  opens : ¬(call.opens ∧ call.result ≥ 0)
  dups : ¬((call.dups ∨ call.fcntlDups) ∧ call.result ≥ 0)
  closes : ¬call.closes
  closeRange : ¬(call.number = Sys.closeRange ∧ call.result = 0)
  executes : ¬call.executes
  makesSocket : ¬call.makesSocket

end Call

/-- What Linux does to the descriptors of the task that makes a call. -/
structure Linux (pid : Pid) (call : Call) (before after : KernelTable) : Prop where
  opens : call.opens → call.result ≥ 0 → call.result < 2 ^ 31 ∧ before call.result = none ∧
    ∃ flag, after = Function.update before call.result (some ⟨.file (call.path pid), flag⟩)
  -- only `dup2` and `dup3` put something else in the place of an open descriptor
  duplicates : call.dups ∨ call.fcntlDups → call.result ≥ 0 → call.result < 2 ^ 31 ∧
    (call.number = Sys.dup ∨ call.fcntlDups → before call.result = none) ∧
    ∃ source flag, 0 ≤ call.fd ∧ before call.fd = some source ∧
      after = Function.update before call.result (some ⟨source.object, flag⟩)
  closes : call.closes → call.result = 0 →
    before call.fd ≠ none ∧ after = Function.update before call.fd none
  -- the descriptor can be gone when its file reports an error, as `EINTR` or `EIO`
  closeFails : call.closes → call.result ≠ 0 →
    after = before ∨ call.result ≠ -ebadf ∧ after = Function.update before call.fd none
  closeRange : call.number = Sys.closeRange → call.result = 0 →
    (∀ fd, call.InRange fd → after fd = none ∨
      after fd = (before fd).map fun found => { found with closeOnExec := true }) ∧
    ∀ fd, ¬call.InRange fd → after fd = before fd
  executes : call.executes → after = fun fd => (before fd).filter fun found => !found.closeOnExec
  makesSocket : call.makesSocket → before call.result = none ∧
    ∃ flag, after = Function.update before call.result (some ⟨.other, flag⟩)

/-- The calls of a task with the descriptors it has after each of them. -/
def Runs (pid : Pid) : KernelTable → List (Call × KernelTable) → Prop
  | _, [] => True
  | before, (call, after) :: rest => Linux pid call before after ∧ Runs pid after rest

/-- The descriptors after calls. -/
def kernelAfter (kernel : KernelTable) (calls : List (Call × KernelTable)) : KernelTable :=
  calls.foldl (fun _ served => served.2) kernel

/-! ## What the decoder reports -/

/-- The descriptor and the path an event is about, when the path comes from the table. -/
def describes (call : Call) : Payload → Option (Int × Text)
  | .fileModeChanged path _ => if call.number = Sys.fchmod then some (call.fd, path) else none
  | payload => transferOf payload

/-- Whatever is reported for a descriptor, it refers to a file that was opened as the path
when the call is made. -/
def ReportsRefer (pid : Pid) (table : FdTable) (kernel : KernelTable)
    (calls : List (Call × KernelTable)) : Prop :=
  ∀ front call after rest, calls = front ++ (call, after) :: rest →
    ∀ payload fd path,
      (call.complete pid (tableAfter pid table (front.map Prod.fst))).2 = some payload →
      describes call payload = some (fd, path) → (kernelAfter kernel front).Refers fd path

/-- No descriptor of the table goes without the decoder: not with a program that is replaced,
not with a `close` that fails, and not with a call the decoder knows nothing of. -/
structure Followed (table : FdTable) (call : Call) (before after : KernelTable) : Prop where
  executes : call.executes → ∀ fd, table.lookup fd ≠ none →
    ∀ found, before fd = some found → found.closeOnExec = false
  closes : call.closes → table.lookup call.fd ≠ none →
    call.result = 0 ∨ call.result = -ebadf
  others : call.Other → ∀ fd, table.lookup fd ≠ none → after.object fd = before.object fd

/-- Every call of a run is followed. -/
def FollowedAll (pid : Pid) : FdTable → KernelTable → List (Call × KernelTable) → Prop
  | _, _, [] => True
  | table, before, (call, after) :: rest =>
    Followed table call before after ∧
      FollowedAll pid (call.complete pid table).1 after rest

/-! ## The invariant -/

/-- What the table has is what the kernel has. -/
def Sound (table : FdTable) (kernel : KernelTable) : Prop :=
  ∀ fd path, table.lookup fd = some path → kernel.Refers fd path

theorem sound_empty (kernel : KernelTable) : Sound {} kernel := by
  intro fd path h
  cases h

section Step

variable {table table' : FdTable} {before after : KernelTable} {pid : Pid} {call : Call}

theorem object_of_eq {fd : Int} (h : after fd = before fd) :
    after.object fd = before.object fd := by
  unfold KernelTable.object
  rw [h]

theorem Sound.keep (h : Sound table before)
    (hkeep : ∀ fd, table.lookup fd ≠ none → after.object fd = before.object fd) :
    Sound table after := by
  intro fd path hlookup
  have hne : table.lookup fd ≠ none := by simp [hlookup]
  exact (hkeep fd hne).trans (h fd path hlookup)

/-- The table and the kernel set the same descriptor. -/
theorem Sound.set {target : Int} {binding : Option Text} (h : Sound table before)
    (htable : table'.lookup = Function.update table.lookup target binding)
    (hframe : ∀ fd ≠ target, after fd = before fd)
    (htarget : ∀ path, binding = some path → after.Refers target path) :
    Sound table' after := by
  intro fd path hlookup
  rw [htable] at hlookup
  by_cases hfd : fd = target
  · subst hfd
    rw [Function.update_self] at hlookup
    exact htarget path hlookup
  · rw [Function.update_of_ne hfd] at hlookup
    exact (object_of_eq (hframe fd hfd)).trans (h fd path hlookup)

theorem toInt32_descriptor {result : Int} (hnonneg : result ≥ 0) (hlt : result < 2 ^ 31) :
    toInt32 result = result :=
  Int.bmod_eq_of_le (by omega) (by omega)

theorem sound_opens (h : Sound table before) (hlinux : Linux pid call before after)
    (hopens : call.opens) (hresult : call.result ≥ 0) :
    Sound (call.complete pid table).1 after := by
  obtain ⟨hlt, -, flag, rfl⟩ := hlinux.opens hopens hresult
  rw [complete_opens hopens hresult, toInt32_descriptor hresult hlt]
  refine h.set (table.lookup_track _ _) (fun fd hfd => Function.update_of_ne hfd _ _) ?_
  intro path hpath
  obtain rfl := Option.some.inj hpath
  unfold KernelTable.Refers KernelTable.object
  rw [Function.update_self]
  rfl

/-- A number the kernel gives out is free, so the table has nothing for it. -/
theorem lookup_given {fd given : Int} (h : Sound table before) (hfree : before given = none)
    (hfd : table.lookup fd ≠ none) : fd ≠ given := by
  rintro rfl
  obtain ⟨path, hlookup⟩ := Option.ne_none_iff_exists'.mp hfd
  have hrefers := h fd path hlookup
  unfold KernelTable.Refers KernelTable.object at hrefers
  rw [hfree] at hrefers
  cases hrefers

theorem sound_duplicates (h : Sound table before) (hlinux : Linux pid call before after)
    (hdups : call.dups ∨ call.fcntlDups) (hresult : call.result ≥ 0) :
    Sound (call.complete pid table).1 after := by
  obtain ⟨hlt, hfree, source, flag, hfd, hsource, rfl⟩ := hlinux.duplicates hdups hresult
  by_cases hseen : call.dups ∨ call.fcntlSeen
  · have htable :
        (call.complete pid table).1 = table.duplicate call.fd (toInt32 call.result) := by
      rcases hseen with hdup | hcommand
      · exact complete_dups hdup hresult
      · exact complete_fcntlSeen hcommand hresult hfd
    rw [htable, toInt32_descriptor hresult hlt]
    refine h.set (table.lookup_duplicate _ _) (fun fd hfd => Function.update_of_ne hfd _ _) ?_
    intro path hpath
    have hrefers := h call.fd path hpath
    unfold KernelTable.Refers KernelTable.object at hrefers ⊢
    rw [hsource] at hrefers
    rw [Function.update_self]
    exact hrefers
  · -- the decoder takes the command for another one, and has nothing for the new descriptor
    obtain ⟨hdup, hcommand⟩ := not_or.mp hseen
    have hfcntl := hdups.resolve_left hdup
    rw [complete_unseen hfcntl.1 hcommand]
    exact h.keep fun fd hfd => object_of_eq
      (Function.update_of_ne (lookup_given h (hfree (.inr hfcntl)) hfd) _ _)

theorem sound_closes (h : Sound table before) (hlinux : Linux pid call before after)
    (hcloses : call.closes) (hresult : call.result = 0) :
    Sound (call.complete pid table).1 after := by
  obtain ⟨-, rfl⟩ := hlinux.closes hcloses hresult
  exact h.set (complete_closes hcloses hresult) (fun fd hfd => Function.update_of_ne hfd _ _)
    nofun

theorem sound_closeRange (h : Sound table before) (hlinux : Linux pid call before after)
    (hnumber : call.number = Sys.closeRange) (hresult : call.result = 0) :
    Sound (call.complete pid table).1 after := by
  intro fd path hlookup
  rw [complete_closeRange hnumber hresult, FdTable.lookup_closeRange] at hlookup
  obtain ⟨houtside, hlookup⟩ := (Option.ite_none_left_eq_some).mp hlookup
  have hkeep := (hlinux.closeRange hnumber hresult).2 fd houtside
  exact (object_of_eq hkeep).trans (h fd path hlookup)

theorem sound_closeFails (h : Sound table before) (hlinux : Linux pid call before after)
    (hfollowed : Followed table call before after) (hcloses : call.closes)
    (hresult : call.result ≠ 0) : Sound (call.complete pid table).1 after := by
  have htable : (call.complete pid table).1 = table := by
    have hnumber : call.number = Sys.close := hcloses
    refine complete_keeps ?_ ?_ (fun hclose => hresult hclose.2) ?_
    · unfold Call.opens
      rw [hnumber]
      exact fun hopens => absurd hopens.1 (by decide)
    · unfold Call.dups Call.fcntlSeen
      rw [hnumber]
      rintro ⟨hdups | hfcntl, -⟩
      · exact absurd hdups (by decide)
      · exact absurd hfcntl.1 (by decide)
    · rw [hnumber]
      exact fun hrange => absurd hrange.1 (by decide)
  rw [htable]
  rcases hlinux.closeFails hcloses hresult with rfl | ⟨hbad, rfl⟩
  · exact h
  · refine h.keep fun fd hfd => object_of_eq (Function.update_of_ne ?_ _ _)
    -- the descriptor that is gone is not in the table
    intro hgone
    rw [hgone] at hfd
    rcases hfollowed.closes hcloses hfd with hzero | hebadf
    · exact hresult hzero
    · exact hbad hebadf

theorem sound_executes (h : Sound table before) (hlinux : Linux pid call before after)
    (hfollowed : Followed table call before after) (hexecutes : call.executes) :
    Sound (call.complete pid table).1 after := by
  have hnumber : call.number ∉ tableCalls := by
    rcases hexecutes.1 with hnumber | hnumber
    · rw [hnumber]
      decide
    · rw [hnumber]
      decide
  rw [complete_of_notMem hnumber]
  refine h.keep fun fd hfd => object_of_eq ?_
  rw [hlinux.executes hexecutes]
  dsimp only
  cases hfound : before fd with
  | none => rfl
  | some found =>
    rw [Option.filter_some, hfollowed.executes hexecutes fd hfd found hfound]
    rfl

theorem sound_makesSocket (h : Sound table before) (hlinux : Linux pid call before after)
    (hsocket : call.makesSocket) : Sound (call.complete pid table).1 after := by
  have hnumber : call.number ∉ tableCalls := by
    rcases hsocket.1 with hnumber | hnumber | hnumber
    all_goals
      rw [hnumber]
      decide
  obtain ⟨hfree, flag, rfl⟩ := hlinux.makesSocket hsocket
  rw [complete_of_notMem hnumber]
  exact h.keep fun fd hfd => object_of_eq
    (Function.update_of_ne (lookup_given h hfree hfd) _ _)

theorem sound_others (h : Sound table before) (hfollowed : Followed table call before after)
    (hother : call.Other) : Sound (call.complete pid table).1 after := by
  have hdups : ¬((call.dups ∨ call.fcntlSeen) ∧ call.result ≥ 0) := fun hseen =>
    hother.dups ⟨hseen.1.imp_right fcntlDups_of_seen, hseen.2⟩
  rw [complete_keeps hother.opens hdups (fun hclose => hother.closes hclose.1)
    hother.closeRange]
  exact h.keep (hfollowed.others hother)

/-- A call that is followed keeps the table sound. -/
theorem complete_sound (h : Sound table before) (hlinux : Linux pid call before after)
    (hfollowed : Followed table call before after) :
    Sound (call.complete pid table).1 after := by
  by_cases hopens : call.opens ∧ call.result ≥ 0
  · exact sound_opens h hlinux hopens.1 hopens.2
  by_cases hdups : (call.dups ∨ call.fcntlDups) ∧ call.result ≥ 0
  · exact sound_duplicates h hlinux hdups.1 hdups.2
  by_cases hcloses : call.closes
  · by_cases hresult : call.result = 0
    · exact sound_closes h hlinux hcloses hresult
    · exact sound_closeFails h hlinux hfollowed hcloses hresult
  by_cases hrange : call.number = Sys.closeRange ∧ call.result = 0
  · exact sound_closeRange h hlinux hrange.1 hrange.2
  by_cases hexecutes : call.executes
  · exact sound_executes h hlinux hfollowed hexecutes
  by_cases hsocket : call.makesSocket
  · exact sound_makesSocket h hlinux hsocket
  exact sound_others h hfollowed ⟨hopens, hdups, hcloses, hrange, hexecutes, hsocket⟩

theorem complete_describes {payload : Payload} {fd : Int} {path : Text}
    (h : (call.complete pid table).2 = some payload)
    (hdescribes : describes call payload = some (fd, path)) : table.lookup fd = some path := by
  unfold describes at hdescribes
  split at hdescribes
  · split at hdescribes
    · rename_i hnumber
      obtain ⟨hfd, hpath⟩ := Prod.mk.inj (Option.some.inj hdescribes)
      rw [← hfd, ← hpath]
      exact complete_fchmod hnumber h
    · cases hdescribes
  · exact (complete_transfer h hdescribes).2

end Step

/-! ## Whole runs -/

section Runs

variable {pid : Pid}

theorem run_sound {table : FdTable} {kernel : KernelTable} {front rest : List (Call × KernelTable)}
    (h : Sound table kernel) (hruns : Runs pid kernel (front ++ rest))
    (hfollowed : FollowedAll pid table kernel (front ++ rest)) :
    Sound (tableAfter pid table (front.map Prod.fst)) (kernelAfter kernel front) := by
  induction front generalizing table kernel with
  | nil => exact h
  | cons served front ih =>
    obtain ⟨call, after⟩ := served
    obtain ⟨hlinux, hruns⟩ := hruns
    obtain ⟨hcall, hfollowed⟩ := hfollowed
    unfold tableAfter kernelAfter
    rw [List.map_cons, List.foldl_cons, List.foldl_cons]
    exact ih (complete_sound h hlinux hcall) hruns hfollowed

/-- While the decoder sees every descriptor of its table go, no path outlives its file. -/
theorem run_refers {table : FdTable} {kernel : KernelTable} {calls : List (Call × KernelTable)}
    (h : Sound table kernel) (hruns : Runs pid kernel calls)
    (hfollowed : FollowedAll pid table kernel calls) : ReportsRefer pid table kernel calls := by
  rintro front call after rest rfl payload fd path hpayload hdescribes
  have hsound := run_sound h hruns hfollowed
  exact hsound fd path (complete_describes hpayload hdescribes)

end Runs

/-! ## Where a path outlives its file -/

section Stale

variable {kernel : KernelTable}

/-- Only the standard streams. -/
def standardStreams : KernelTable := fun fd =>
  if 0 ≤ fd ∧ fd ≤ 2 then some ⟨.other, false⟩ else none

/-- `open` of `/f` with the flags, which gives 3. -/
def openCall (flags : Nat) : Call := callOf 2 4096 flags 3

/-- `socket`, which gives 3 as well. -/
def socketCall : Call := callOf 41 2 1 3

/-- `read` of ten bytes from 3. -/
def readCall : Call := callOf 0 3 0 10

def withFile (kernel : KernelTable) (flag : Bool) : KernelTable :=
  Function.update kernel 3 (some ⟨.file "/f".toList, flag⟩)

def withSocket (kernel : KernelTable) : KernelTable :=
  Function.update kernel 3 (some ⟨.other, false⟩)

theorem linux_openCall (hfree : kernel 3 = none) {flags : Nat} (flag : Bool)
    (hflags : flags = 0 ∨ flags = 524288) :
    Linux 7 (openCall flags) kernel (withFile kernel flag) := by
  refine ⟨?opens, ?_, ?_, ?_, ?_, ?_, ?_⟩
  case opens =>
    intro _ _
    have hpath : (openCall flags).path 7 = "/f".toList := by
      rcases hflags with rfl | rfl <;> decide +kernel
    have hresult : (openCall flags).result = 3 := by
      rcases hflags with rfl | rfl <;> decide
    rw [hpath, hresult]
    exact ⟨by decide, hfree, flag, rfl⟩
  all_goals intro h
  all_goals rcases hflags with rfl | rfl
  all_goals first | exact absurd h (by decide) | exact absurd h.1 (by decide)

theorem linux_socketCall (hfree : kernel 3 = none) :
    Linux 7 socketCall kernel (withSocket kernel) := by
  refine ⟨?_, ?_, ?_, ?_, ?_, ?_, ?makesSocket⟩
  case makesSocket =>
    intro _
    have hresult : socketCall.result = 3 := by decide
    rw [hresult]
    exact ⟨hfree, false, rfl⟩
  all_goals intro h
  all_goals first | exact absurd h (by decide) | exact absurd h.1 (by decide)

theorem linux_readCall : Linux 7 readCall kernel kernel := by
  refine ⟨?_, ?_, ?_, ?_, ?_, ?_, ?_⟩
  all_goals intro h
  all_goals first | exact absurd h (by decide) | exact absurd h.1 (by decide)

/-- `close` of 3 fails with `EIO`. -/
def closeCall : Call := callOf 3 3 0 (2 ^ 64 - 5)

theorem linux_closeCall : Linux 7 closeCall kernel (Function.update kernel 3 none) := by
  refine ⟨?_, ?_, ?closes, ?closeFails, ?_, ?_, ?_⟩
  case closes =>
    intro _ h
    exact absurd h (by decide)
  case closeFails =>
    intro _ _
    have hfd : closeCall.fd = 3 := by decide
    rw [hfd]
    exact .inr ⟨by decide, rfl⟩
  all_goals intro h
  all_goals first | exact absurd h (by decide) | exact absurd h.1 (by decide)

/-- The program is replaced. -/
def execveCall : Call := callOf 59 4096 0 0

/-- The descriptors that are left. -/
def executed (kernel : KernelTable) : KernelTable :=
  fun fd => (kernel fd).filter fun found => !found.closeOnExec

theorem linux_execveCall : Linux 7 execveCall kernel (executed kernel) := by
  refine ⟨?_, ?_, ?_, ?_, ?_, ?executes, ?_⟩
  case executes =>
    intro _
    rfl
  all_goals intro h
  all_goals first | exact absurd h (by decide) | exact absurd h.1 (by decide)

/-- 3 is opened and goes with a `close` that fails; then it is a socket, and is read. -/
def closeFailedRun : List (Call × KernelTable) :=
  let opened := withFile standardStreams false
  let closed := Function.update opened 3 none
  [(openCall 0, opened), (closeCall, closed), (socketCall, withSocket closed),
    (readCall, withSocket closed)]

/-- 3 is opened with `O_CLOEXEC` and goes with the program; then it is a socket, and is
read. -/
def executedRun : List (Call × KernelTable) :=
  let opened := withFile standardStreams true
  [(openCall 524288, opened), (execveCall, executed opened),
    (socketCall, withSocket (executed opened)), (readCall, withSocket (executed opened))]

theorem not_refers_stale :
    (Runs 7 standardStreams closeFailedRun ∧
      ¬ReportsRefer 7 {} standardStreams closeFailedRun) ∧
    (Runs 7 standardStreams executedRun ∧ ¬ReportsRefer 7 {} standardStreams executedRun) := by
  refine ⟨⟨?_, ?_⟩, ⟨?_, ?_⟩⟩
  · exact ⟨linux_openCall rfl false (.inl rfl), linux_closeCall, linux_socketCall rfl,
      linux_readCall, trivial⟩
  · intro hrefer
    have hread := hrefer (closeFailedRun.take 3) readCall _ [] rfl
      (.fileRead 3 "/f".toList 10) 3 "/f".toList (by decide +kernel) rfl
    exact absurd hread (by decide)
  · exact ⟨linux_openCall rfl true (.inr rfl), linux_execveCall, linux_socketCall rfl,
      linux_readCall, trivial⟩
  · intro hrefer
    have hread := hrefer (executedRun.take 3) readCall _ [] rfl
      (.fileRead 3 "/f".toList 10) 3 "/f".toList (by decide +kernel) rfl
    exact absurd hread (by decide)

/-- 3 is opened and read. -/
theorem run_refers_read :
    ReportsRefer 7 {} standardStreams
      [(openCall 0, withFile standardStreams false), (readCall, withFile standardStreams false)] := by
  refine run_refers (sound_empty _)
    ⟨linux_openCall rfl false (.inl rfl), linux_readCall, trivial⟩
    ⟨⟨?_, ?_, ?_⟩, ⟨?_, ?_, ?_⟩, trivial⟩
  · intro h
    exact absurd h.1 (by decide)
  · intro h
    exact absurd h (by decide)
  · intro h
    exact absurd h.opens (by decide)
  · intro h
    exact absurd h.1 (by decide)
  · intro h
    exact absurd h (by decide)
  · intro _ _ _
    rfl

end Stale

end ExeCell.Trace
