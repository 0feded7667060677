import ExeCell.Analyze.Run
import ExeCell.Lib.SteadyClock

/-!
# Timeouts and deadlines

Both `--timeout` options take any number of 64 bits. It becomes a signed count of seconds and
is added to the steady clock, in `run_captured` and in `observe`, without a check that the
deadline fits (`timeout_honoured_iff`).
-/

namespace ExeCell.Package

open SteadyClock

/-- The option `--timeout` of `execell package`: a number, perhaps with an `s` behind it. -/
def timeoutOption (value : Text) : Option Int :=
  let seconds := if value.getLast? = some 's' then value.dropLast else value
  match Analyze.fromChars seconds with
  | none => none
  | some number => if number = 0 then none else some (toInt64 number)

/-- `run_captured`, begun at `start`, finds its deadline passed. -/
def captureExpires (start seconds now : Int) : Bool := after start seconds ≤ now

/-- `observe`, begun at `start`, skips a task that a worker takes now. -/
def observeSkips (start seconds now : Int) : Bool := remaining (after start seconds) now ≤ 0

/-- The seconds that `observe`, begun at `start`, gives to a task that a worker takes now. -/
def taskSeconds (start seconds now : Int) : Int :=
  min seconds (wholeSeconds (wrap (remaining (after start seconds) now + ofSeconds 1)))

/-- The deadline of `run_captured` is as many seconds ahead as it should be, and is not found
passed before that. -/
structure CaptureHonours (number : Nat) (start : Int) : Prop where
  ahead : after start (toInt64 number) = start + number * second
  patient : ∀ now, start ≤ now → now < 2 ^ 63 → captureExpires start (toInt64 number) now = true →
    start + number * second ≤ now

/-- The deadline of `observe` is as many seconds ahead as it should be, and before that no task
is skipped and no task is timed out, however late its `run_captured` begins. -/
structure ObserveHonours (number : Nat) (start : Int) : Prop where
  ahead : after start (toInt64 number) = start + number * second
  skips : ∀ taken, start ≤ taken → taken < 2 ^ 63 →
    observeSkips start (toInt64 number) taken = true → start + number * second ≤ taken
  tasks : ∀ taken begun now, start ≤ taken → taken ≤ begun → begun ≤ now → now < 2 ^ 63 →
    observeSkips start (toInt64 number) taken = false →
    captureExpires begun (taskSeconds start (toInt64 number) taken) now = true →
    start + number * second ≤ now

/-! ## The options -/

theorem fromChars_ofNat {number : Nat} (hsize : number < 2 ^ 64) :
    Analyze.fromChars (Text.ofNat number) = some number := by
  have hvalue : (Text.ofNat number).foldl (fun n c => 10 * n + (c.toNat - '0'.toNat)) 0 = number := by
    rw [Text.ofNat_eq_toDigits]
    exact Nat.ofDigitChars_ten_toDigits
  have hall : (Text.ofNat number).all Char.isDigit = true :=
    List.all_eq_true.mpr fun c hc => Text.isDigit_of_mem_ofNat hc
  rw [Analyze.fromChars, if_pos ⟨Text.ofNat_ne_nil number, hall⟩, hvalue, if_pos hsize]

theorem setValue_timeout {number : Nat} (hpositive : 1 ≤ number) (hsize : number < 2 ^ 64)
    (options : Analyze.Options) :
    Analyze.setValue options "--timeout".toList (Text.ofNat number) =
      some { options with timeout := toInt64 number } := by
  rw [Analyze.setValue, if_neg (by decide), if_pos rfl, fromChars_ofNat hsize]
  dsimp only
  rw [if_neg (by omega)]

theorem timeoutOption_ofNat {number : Nat} (hpositive : 1 ≤ number) (hsize : number < 2 ^ 64) :
    timeoutOption (Text.ofNat number) = some (toInt64 number) := by
  have hlast : (Text.ofNat number).getLast? ≠ some 's' := fun hs =>
    Text.not_mem_ofNat (by decide) number (List.mem_of_getLast? hs)
  rw [timeoutOption, if_neg hlast, fromChars_ofNat hsize]
  dsimp only
  rw [if_neg (by omega)]

/-! ## The deadlines -/

section Deadlines

variable {number : Nat} {start taken begun now : Int}

theorem captureHonours_iff (hpositive : 1 ≤ number) (hstart : Shown start) :
    CaptureHonours number start ↔ start + number * second < 2 ^ 63 := by
  have hseconds : (0 : Int) < number := by omega
  rw [← after_eq_iff hstart hseconds]
  constructor
  · exact fun honours => honours.ahead
  · intro hahead
    refine ⟨hahead, fun now _ _ hexpired => ?_⟩
    rw [captureExpires, decide_eq_true_eq] at hexpired
    rwa [← hahead]

/-- What is left for a task when the deadline fits. -/
theorem observeSkips_iff (hahead : after start (toInt64 number) = start + number * second)
    (hstart : Shown start) (htaken : Shown taken) :
    observeSkips start (toInt64 number) taken = true ↔ start + number * second ≤ taken := by
  have hlow : 0 ≤ start + number * second := by
    have := hstart.1
    rw [second]
    omega
  have hhigh : start + number * second < 2 ^ 63 := by
    rw [← hahead]
    exact wrap_lt _
  rw [observeSkips, hahead, remaining_eq htaken hlow hhigh, decide_eq_true_eq]
  omega

/-- The seconds for a task taken before the deadline: as many as the option says, or more than
are left. -/
theorem taskSeconds_cases (hahead : after start (toInt64 number) = start + number * second)
    (hstart : Shown start) (htaken : Shown taken)
    (hopen : taken < start + number * second)
    (hfits : start + number * second - taken + second < 2 ^ 63)
    (hnumber : toInt64 number = number) :
    taskSeconds start (toInt64 number) taken = number ∨
      1 ≤ taskSeconds start (toInt64 number) taken ∧
        taskSeconds start (toInt64 number) taken ≤ number ∧
        start + number * second - taken < taskSeconds start (toInt64 number) taken * second := by
  have hlow : 0 ≤ start + number * second := by
    have := hstart.1
    rw [second]
    omega
  have hhigh : start + number * second < 2 ^ 63 := by
    rw [← hahead]
    exact wrap_lt _
  obtain ⟨hlonger, hpositive⟩ :=
    @lt_wholeSeconds (start + number * second - taken) (by omega) hfits
  rw [taskSeconds, hahead, remaining_eq htaken hlow hhigh, hnumber]
  rcases Int.le_total number
    (wholeSeconds (wrap (start + number * second - taken + ofSeconds 1))) with hless | hmore
  · exact Or.inl (Int.min_eq_left hless)
  · rw [Int.min_eq_right hmore]
    exact Or.inr ⟨hpositive, hmore, hlonger⟩

theorem toInt64_eq (hstart : Shown start)
    (hahead : after start (toInt64 number) = start + number * second) :
    toInt64 number = number := by
  have hhigh : start + number * second < 2 ^ 63 := by
    rw [← hahead]
    exact wrap_lt _
  have := hstart.1
  rw [second] at hhigh
  exact wrap_of_fits (by omega) (by omega)

/-- With room for twice the time a task is never timed out early. -/
theorem tasks_honour (hahead : after start (toInt64 number) = start + number * second)
    (hpositive : 1 ≤ number) (hstart : Shown start)
    (hroom : start + 2 * (number * second) ≤ 2 ^ 63) (htaken : start ≤ taken)
    (hbegun : taken ≤ begun) (hnow : begun ≤ now) (hlast : now < 2 ^ 63)
    (hopen : taken < start + number * second)
    (hexpired : captureExpires begun (taskSeconds start (toInt64 number) taken) now = true) :
    start + number * second ≤ now := by
  obtain ⟨hfirst, _⟩ := hstart
  have hcases := taskSeconds_cases hahead ⟨hfirst, by omega⟩ ⟨by omega, by omega⟩ hopen
    (by rw [second] at *; omega) (toInt64_eq ⟨hfirst, by omega⟩ hahead)
  generalize taskSeconds start (toInt64 number) taken = seconds at *
  by_contra hearly
  rw [captureExpires, decide_eq_true_eq] at hexpired
  have hbounds : 1 ≤ seconds ∧ seconds ≤ number := by
    rcases hcases with rfl | ⟨hone, hmost, _⟩
    · omega
    · exact ⟨hone, hmost⟩
  have hfits : begun + seconds * second < 2 ^ 63 := by
    rw [second] at *
    omega
  have hseconds : wrap seconds = seconds := wrap_of_fits (by omega) (by rw [second] at *; omega)
  have hdeadline := (@after_eq_iff begun seconds ⟨by omega, by omega⟩ (by omega)).mpr hfits
  rw [hseconds] at hdeadline
  rw [hdeadline] at hexpired
  rcases hcases with rfl | ⟨_, _, hlonger⟩
  · omega
  · omega

/-- The sum wraps around, or the rounding before it does. -/
theorem after_min_le (hfirst : 0 ≤ start) (hpositive : 1 ≤ number)
    (hhigh : start + number * second < 2 ^ 63) (htwice : 2 ^ 63 < start + 2 * (number * second)) :
    after (start + number * second - 1)
        (min number (wholeSeconds (wrap (number * second + ofSeconds 1)))) ≤
      start + number * second - 1 := by
  rcases Int.lt_or_le (number * second + second) (2 ^ 63) with hfits | hover
  · -- the task gets all the seconds, and its deadline does not fit
    obtain ⟨hlonger, _⟩ := @lt_wholeSeconds (number * second) (by rw [second]; omega) hfits
    have hall : min (number : Int) (wholeSeconds (wrap (number * second + ofSeconds 1))) = number :=
      Int.min_eq_left (by rw [second] at *; omega)
    have hspan : ofSeconds number = number * second :=
      wrap_of_fits (by rw [second]; omega) (by rw [second] at *; omega)
    rw [hall, after, hspan, wrap_of_overflow (by omega) (by omega)]
    omega
  · -- the seconds that are left come out below zero
    have hone : ofSeconds 1 = second := by decide
    rw [hone, wrap_of_overflow hover (by rw [second] at *; omega)]
    obtain ⟨hleast, hbelow⟩ := wholeSeconds_of_neg (number * second + second - 2 ^ 64)
      (by rw [second] at *; omega)
    generalize wholeSeconds (number * second + second - 2 ^ 64) = seconds at *
    have hspan : ofSeconds seconds = seconds * second :=
      wrap_of_fits (by rw [second] at *; omega) (by rw [second] at *; omega)
    rw [Int.min_eq_right (by omega), after, hspan,
      wrap_of_fits (by rw [second] at *; omega) (by rw [second] at *; omega)]
    rw [second] at *
    omega

/-- A task that is taken at once and whose `run_captured` begins in the last nanosecond before
the deadline. -/
theorem room_of_tasks (hpositive : 1 ≤ number) (hstart : Shown start)
    (honours : ObserveHonours number start) : start + 2 * (number * second) ≤ 2 ^ 63 := by
  obtain ⟨hfirst, hlast⟩ := hstart
  have hahead := honours.ahead
  have hhigh : start + number * second < 2 ^ 63 := by
    rw [← hahead]
    exact wrap_lt _
  have hnumber := toInt64_eq ⟨hfirst, hlast⟩ hahead
  by_contra hroom
  have hopen : observeSkips start (toInt64 number) start = false := by
    rw [← Bool.not_eq_true, observeSkips_iff hahead ⟨hfirst, hlast⟩ ⟨hfirst, hlast⟩]
    rw [second]
    omega
  have hearly : ¬ captureExpires (start + number * second - 1)
      (taskSeconds start (toInt64 number) start) (start + number * second - 1) = true := by
    intro hexpired
    have hmet := honours.tasks start (start + number * second - 1) (start + number * second - 1)
      (Int.le_refl _) (by rw [second]; omega) (Int.le_refl _) (by omega) hopen hexpired
    omega
  apply hearly
  rw [captureExpires, decide_eq_true_eq]
  rw [taskSeconds, hahead, remaining_eq ⟨hfirst, hlast⟩ (by rw [second]; omega) hhigh, hnumber,
    add_sub_cancel_left]
  exact after_min_le hfirst hpositive hhigh (by omega)

end Deadlines

/-- Every number of 64 bits but zero is accepted by both options. It is honoured by
`run_captured` exactly when the clock can show the deadline, and by `observe` exactly when
there is room for twice the time. -/
theorem timeout_honoured_iff (number : Nat) (start : Int) (hpositive : 1 ≤ number)
    (hsize : number < 2 ^ 64) (hstart : Shown start) :
    (∀ options, Analyze.setValue options "--timeout".toList (Text.ofNat number) =
        some { options with timeout := toInt64 number }) ∧
      timeoutOption (Text.ofNat number) = some (toInt64 number) ∧
      (CaptureHonours number start ↔ start + number * second < 2 ^ 63) ∧
      (ObserveHonours number start ↔ start + 2 * (number * second) ≤ 2 ^ 63) := by
  refine ⟨setValue_timeout hpositive hsize, timeoutOption_ofNat hpositive hsize,
    captureHonours_iff hpositive hstart, room_of_tasks hpositive hstart, fun hroom => ?_⟩
  obtain ⟨hfirst, hlast⟩ := hstart
  have hseconds : (0 : Int) < number := by omega
  have hahead : after start (toInt64 number) = start + number * second :=
    (after_eq_iff ⟨hfirst, hlast⟩ hseconds).mpr (by rw [second] at *; omega)
  refine ⟨hahead, fun taken htaken htop hskips => ?_,
    fun taken begun now htaken hbegun hnow htop hopen hexpired => ?_⟩
  · exact (observeSkips_iff hahead ⟨hfirst, hlast⟩ ⟨by omega, htop⟩).mp hskips
  · have hshown : Shown taken := ⟨by omega, by omega⟩
    rw [← Bool.not_eq_true, observeSkips_iff hahead ⟨hfirst, hlast⟩ hshown, not_le] at hopen
    exact tasks_honour hahead hpositive ⟨hfirst, hlast⟩ hroom htaken hbegun hnow htop hopen
      hexpired

theorem timeout_honoured_iff_thirty :
    Analyze.setValue {} "--timeout".toList (Text.ofNat 30) =
        some { ({} : Analyze.Options) with timeout := toInt64 30 } ∧
      (ObserveHonours 30 0 ↔ (0 : Int) + 2 * ((30 : Nat) * second) ≤ 2 ^ 63) :=
  have honoured := timeout_honoured_iff 30 0 (by decide) (by decide) ⟨by decide, by decide⟩
  ⟨honoured.1 {}, honoured.2.2.2⟩

/-- The largest number of 64 bits is accepted and becomes minus one second: both deadlines have
passed at the start. -/
theorem timeout_expired_at_once :
    timeoutOption "18446744073709551615".toList = some (-1) ∧
      (Analyze.setValue {} "--timeout".toList "18446744073709551615".toList).map
        Analyze.Options.timeout = some (-1) ∧
      captureExpires (5 * second) (-1) (5 * second) = true ∧
      observeSkips (5 * second) (-1) (5 * second) = true ∧
      ¬ CaptureHonours 18446744073709551615 (5 * second) ∧
      ¬ ObserveHonours 18446744073709551615 (5 * second) := by
  refine ⟨by decide +kernel, by decide +kernel, by decide +kernel, by decide +kernel,
    fun honours => ?_, fun honours => ?_⟩
  · exact absurd honours.ahead (by decide +kernel)
  · exact absurd honours.ahead (by decide +kernel)

end ExeCell.Package
