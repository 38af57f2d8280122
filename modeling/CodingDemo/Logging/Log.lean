import CodingDemo.Datetime.Gmtime
import CodingDemo.Text.Snprintf

/-!
# The line buffer of the logger

A line is printed piece by piece into an array of `LIBC_LOG_BUF_SIZE` bytes. The length of the line
is the sum of what the calls of `snprintf` have returned, which is not always what they have
written.

## Main definitions

* `record_log_time`: the time of a line, with the date of the last one
* `texts`: the pieces of a line
* `log_log`: a line is put together for `logger.output`
* `Logged.Inside`: all that is written and counted is in the array

## Main results

* `LogTime.length_t_time_lt`: the time fits into its array
* `log_log_inside_iff`: for which lines everything is in the array
-/

namespace CodingDemo.Libc

def LIBC_LOG_BUF_SIZE : ℕ := 512

inductive LogLevel
  | TRACE
  | DEBUG
  | INFO
  | WARN
  | ERROR
  | FATAL
  deriving DecidableEq

def LogLevel.value : LogLevel → ℕ
  | .TRACE => 0
  | .DEBUG => 1
  | .INFO => 2
  | .WARN => 3
  | .ERROR => 4
  | .FATAL => 5

def level_names : LogLevel → List UInt8
  | .TRACE => asciiBytes "TRACE "
  | .DEBUG => asciiBytes "DEBUG "
  | .INFO => asciiBytes "INFO  "
  | .WARN => asciiBytes "WARN  "
  | .ERROR => asciiBytes "ERROR "
  | .FATAL => asciiBytes "FATAL "

/-- The escape sequence of a color. -/
def escape (code : String) : List UInt8 := [27, 91] ++ asciiBytes code

def log_level_color : LogLevel → List UInt8
  | .TRACE => escape "1;37m"
  | .DEBUG => escape "0;36m"
  | .INFO => escape "0;32;32m"
  | .WARN => escape "1;33m"
  | .ERROR => escape "0;35m"
  | .FATAL => escape "0;32;31m"

def end_color : List UInt8 := escape "m"

/-! ## The time of a line -/

/-- What `gettimeofday` returns. -/
structure Timeval extends UtcTime where
  tv_usec : ℕ
  tv_usec_lt : tv_usec < 1000000

/-- `t_seconds`, and the first bytes of `t_time`. -/
structure LogTime where
  t_seconds : ℕ := 0
  date : List UInt8 := List.replicate 17 0
  length_date : date.length = 17 := by rfl

/-- The text `%4d%02d%02d %02d:%02d:%02d`. -/
def logDate (t : UtcTime) : List UInt8 :=
  let tm := gmtime t.seconds
  decimal (tm.tm_year + 1900) ++ padded 2 (tm.tm_mon + 1) ++ padded 2 tm.tm_mday ++ [32] ++
    padded 2 tm.tm_hour ++ [58] ++ padded 2 tm.tm_min ++ [58] ++ padded 2 tm.tm_sec

/-- The assertion of `record_log_time`. -/
theorem length_logDate (t : UtcTime) : (logDate t).length = 17 := by
  obtain ⟨hmon, hmday, hhour, hmin, hsec⟩ := (valid_gmtime t.seconds).length_padded
  simp only [logDate, List.length_append, length_decimal_year, hmon, hmday, hhour, hmin, hsec,
    List.length_singleton]

/-- The date is printed once for each second. -/
def LogTime.record_log_time (c : LogTime) (now : Timeval) : LogTime :=
  if c.t_seconds = now.seconds then c
  else
    { t_seconds := now.seconds
      date := logDate now.toUtcTime
      length_date := length_logDate now.toUtcTime }

/-- `t_time` as a string, with the microseconds `.%06dZ`. -/
def LogTime.t_time (c : LogTime) (now : Timeval) : List UInt8 :=
  (c.date ++ [46] ++ padded 6 now.tv_usec ++ [90]).takeWhile fun b => b ≠ 0

/-- The array `t_time` has 32 bytes. -/
theorem LogTime.length_t_time_lt (c : LogTime) (now : Timeval) : (c.t_time now).length < 32 := by
  have hle := (List.takeWhile_prefix (fun b => decide (b ≠ 0))
    (l := c.date ++ [46] ++ padded 6 now.tv_usec ++ [90])).length_le
  have husec := length_padded (by decide) (show now.tv_usec < 10 ^ 6 from now.tv_usec_lt)
  simp only [List.length_append, c.length_date, husec, List.length_singleton] at hle
  exact hle.trans_lt (by decide)

/-! ## A line -/

/-- A call of `log_log`. -/
structure LogCall where
  level : LogLevel
  srcfile : List UInt8
  func : List UInt8
  line : ℤ
  sysflag : Bool
  /-- The text of `fmt` with its arguments. -/
  message : List UInt8

/-- What a call finds. -/
structure LogEnv where
  tid : ℕ
  now : Timeval
  /-- The value that is saved when the call begins. -/
  errno : ℤ
  /-- What `strerror_r` leaves in `t_errnobuf`. -/
  strerror : ℤ → List UInt8

/-- The text `%d`. -/
def decimalInt (z : ℤ) : List UInt8 :=
  if z < 0 then [45] ++ decimal z.natAbs else decimal z.natAbs

/-- The pieces of a line. -/
def texts (c : LogTime) (env : LogEnv) (call : LogCall) : List (List UInt8) :=
  [c.t_time env.now ++ [32],
    padded 5 env.tid ++ [32],
    log_level_color call.level ++ level_names call.level ++ end_color ++ call.srcfile ++ [47] ++
      call.func ++ [58] ++ decimalInt call.line ++ asciiBytes " - ",
    call.message] ++
  if call.sysflag ∧ LogLevel.ERROR.value ≤ call.level.value ∧ env.errno ≠ 0 then
    [asciiBytes "(errno=" ++ decimalInt env.errno ++ asciiBytes ") " ++ env.strerror env.errno]
  else []

/-- A line feed, if there is room for it. -/
def addLineFeed (p : Printing) : Printing :=
  if p.pos < LIBC_LOG_BUF_SIZE then { p with mem := store p.mem p.pos [10], pos := p.pos + 1 }
  else p

/-- A zero, if there is room for it. -/
def addZero (p : Printing) : Printing :=
  if p.pos < LIBC_LOG_BUF_SIZE then { p with mem := store p.mem p.pos [0] } else p

/-- What `log_log` has done. -/
structure Logged where
  /-- The array, as it has been written by the call. -/
  log_buf : Printing
  /-- The length that `logger.output` gets. -/
  output : ℕ
  /-- The line is flushed and the process aborted. -/
  aborts : Bool

def log_log (level : ℕ) (c : LogTime) (env : LogEnv) (call : LogCall) : LogTime × Option Logged :=
  if call.level.value < level then (c, none)
  else
    let c := c.record_log_time env.now
    let log_buf := ({} : Printing).printAll LIBC_LOG_BUF_SIZE (texts c env call)
    let log_buf := addZero (addLineFeed log_buf)
    (c, some { log_buf := log_buf, output := log_buf.pos, aborts := call.level = .FATAL })

/-- All that is written is in the array, no size that `snprintf` gets is negative, and the length is
one of bytes that have been written. -/
structure Logged.Inside (l : Logged) : Prop where
  writes : ∀ i, l.log_buf.mem i ≠ none → i < LIBC_LOG_BUF_SIZE
  sizes : ∀ start ∈ l.log_buf.starts, start ≤ LIBC_LOG_BUF_SIZE
  output_le : l.output ≤ LIBC_LOG_BUF_SIZE
  counted : ∀ i < l.output, l.log_buf.mem i ≠ none

variable {p : Printing} {c : LogTime} {env : LogEnv} {call : LogCall} {level : ℕ}

/-! ## The end of a line -/

theorem sound_addLineFeed_iff :
    (addLineFeed p).Sound LIBC_LOG_BUF_SIZE ↔ p.Sound LIBC_LOG_BUF_SIZE := by
  unfold addLineFeed
  split_ifs with hroom
  · exact ⟨fun h => ⟨h.starts, hroom.le⟩, fun h => ⟨h.starts, hroom⟩⟩
  · rfl

theorem sound_addZero_iff : (addZero p).Sound LIBC_LOG_BUF_SIZE ↔ p.Sound LIBC_LOG_BUF_SIZE := by
  unfold addZero
  split_ifs
  · exact ⟨fun h => ⟨h.starts, h.pos⟩, fun h => ⟨h.starts, h.pos⟩⟩
  · rfl

theorem inside_addLineFeed (h : p.Inside LIBC_LOG_BUF_SIZE) :
    (addLineFeed p).Inside LIBC_LOG_BUF_SIZE := by
  unfold addLineFeed
  split_ifs with hroom
  · exact h.store hroom 10 le_rfl
  · exact h

theorem inside_addZero (h : p.Inside LIBC_LOG_BUF_SIZE) :
    (addZero p).Inside LIBC_LOG_BUF_SIZE := by
  unfold addZero
  split_ifs with hroom
  · exact h.store hroom 0 (Nat.le_succ _)
  · exact h

/-! ## The whole line -/

/-- Everything is in the array exactly if the sizes are right. -/
theorem logged_inside_iff {aborts : Bool} {pieces : List (List UInt8)} :
    Logged.Inside
      { log_buf := addZero (addLineFeed (({} : Printing).printAll LIBC_LOG_BUF_SIZE pieces))
        output := (addZero (addLineFeed (({} : Printing).printAll LIBC_LOG_BUF_SIZE pieces))).pos
        aborts := aborts } ↔ Fits LIBC_LOG_BUF_SIZE 0 pieces := by
  have hN : LIBC_LOG_BUF_SIZE < 2 ^ 31 := by decide
  have hinit : ({} : Printing).Sound LIBC_LOG_BUF_SIZE :=
    ⟨List.forall_mem_nil _, Nat.zero_le _⟩
  have hempty : ({} : Printing).Inside LIBC_LOG_BUF_SIZE :=
    ⟨fun _ h => absurd rfl h, fun _ h => absurd h (Nat.not_lt_zero _)⟩
  refine Iff.trans ?_ (sound_iff_fits hN hinit)
  constructor
  · rintro ⟨-, hsizes, hle, -⟩
    exact sound_addLineFeed_iff.mp (sound_addZero_iff.mp ⟨hsizes, hle⟩)
  · intro hsound
    obtain ⟨hwrites, hcounted⟩ :=
      inside_addZero (inside_addLineFeed (hempty.printAll hN hsound))
    obtain ⟨hsizes, hle⟩ := sound_addZero_iff.mpr (sound_addLineFeed_iff.mpr hsound)
    exact ⟨hwrites, hsizes, hle, hcounted⟩

/-- A message that is longer than the array does not fit. -/
theorem not_fits_of_message
    (h : LIBC_LOG_BUF_SIZE + 3 < call.message.length ∧ call.message.length < 2 ^ 31) :
    ¬Fits LIBC_LOG_BUF_SIZE 0 (texts c env call) := by
  rintro ⟨-, -, -, -, hfits⟩
  have hle := Fits.le hfits
  rw [printed_eq_length h.2] at hle
  -- no piece before the message takes away more than one byte
  have htime := (printed_bounds (c.t_time env.now ++ [32])).1
  have htid := (printed_bounds (padded 5 env.tid ++ [32])).1
  have hsource := (printed_bounds (log_level_color call.level ++ level_names call.level ++
    end_color ++ call.srcfile ++ [47] ++ call.func ++ [58] ++ decimalInt call.line ++
    asciiBytes " - ")).1
  omega

/-- **A line stays inside its buffer** exactly if it is filtered out, or if the lengths of its
pieces never add up to more than the buffer has. -/
theorem log_log_inside_iff (level : ℕ) (c : LogTime) (env : LogEnv) (call : LogCall) :
    (∀ l, (log_log level c env call).2 = some l → l.Inside) ↔
      call.level.value < level ∨
        Fits LIBC_LOG_BUF_SIZE 0 (texts (c.record_log_time env.now) env call) := by
  unfold log_log
  split_ifs with hlevel
  · exact iff_of_true (fun l hl => nomatch hl) (.inl hlevel)
  · rw [or_iff_right hlevel]
    refine Iff.trans ⟨fun h => h _ rfl, fun h l hl => ?_⟩ logged_inside_iff
    cases hl
    exact h

/-- A line with a message of 600 bytes. -/
def longCall : LogCall where
  level := .INFO
  srcfile := asciiBytes "main.c"
  func := asciiBytes "main"
  line := 1
  sysflag := false
  message := List.replicate 600 120

/-- The first second. -/
def epoch : LogEnv where
  tid := 1
  now := ⟨⟨0, by decide⟩, 0, by decide⟩
  errno := 0
  strerror := fun _ => []

theorem exists_log_log_outside : ∃ (level : ℕ) (c : LogTime) (env : LogEnv) (call : LogCall),
    ¬∀ l, (log_log level c env call).2 = some l → l.Inside := by
  refine ⟨0, {}, epoch, longCall, fun h => ?_⟩
  have hlength : longCall.message.length = 600 := List.length_replicate
  exact not_fits_of_message (by rw [hlength]; decide) (logged_inside_iff.mp (h _ rfl))

end CodingDemo.Libc
