/-!
# Signals

What processes send each other. A process that has made no arrangement for a signal dies of it,
pays it no heed, or stands still, as the signal is.

Part of the system that the harness runs on, and of no result: see `Reanalysis.Shell.Launch`.
-/

namespace Reanalysis.Shell

/-- A signal by its number. Among the signals of a script, zero is the script's end. -/
abbrev Signal := Nat

namespace Signal

def names : List String :=
  ["EXIT", "HUP", "INT", "QUIT", "ILL", "TRAP", "ABRT", "BUS", "FPE", "KILL", "USR1", "SEGV",
    "USR2", "PIPE", "ALRM", "TERM", "16", "CHLD", "CONT", "STOP", "TSTP", "TTIN", "TTOU",
    "URG", "XCPU", "XFSZ", "VTALRM", "PROF", "WINCH", "IO", "PWR", "SYS"]

def atEnd : Signal := 0

def kill : Signal := 9

def stop : Signal := 19

def terminate : Signal := 15

def name (s : Signal) : String := (names[s]?).getD (toString s)

def bound : Nat := 65

/-- A signal by its number, or by its name in any case. -/
def ofText? (text : String) : Option Signal :=
  let cs := text.toList
  if !cs.isEmpty && cs.all Char.isDigit then
    let n := cs.foldl (fun n c => 10 * n + (c.toNat - 48)) 0
    if n < bound then some n else none
  else names.findIdx? (· = text.toUpper)

inductive Effect where
  | death
  | nothing
  | standstill
deriving DecidableEq, Repr

def effect (s : Signal) : Effect :=
  if s ∈ [0, 17, 18, 23, 28] then .nothing
  else if s ∈ [19, 20, 21, 22] then .standstill
  else .death

def canBeCaught (s : Signal) : Bool := s ≠ kill && s ≠ stop

/-- What is said of a process that died of a signal; nothing of one that was interrupted or had
nobody left to write to. -/
def obituary? (s : Signal) : Option String :=
  match s with
  | 1 => some "Hangup"
  | 3 => some "Quit"
  | 4 => some "Illegal instruction"
  | 5 => some "Trace/breakpoint trap"
  | 6 => some "Aborted"
  | 7 => some "Bus error"
  | 8 => some "Floating point exception"
  | 9 => some "Killed"
  | 10 => some "User defined signal 1"
  | 11 => some "Segmentation fault"
  | 12 => some "User defined signal 2"
  | 14 => some "Alarm clock"
  | 15 => some "Terminated"
  | 16 => some "Stack fault"
  | 24 => some "CPU time limit exceeded"
  | 25 => some "File size limit exceeded"
  | 26 => some "Virtual timer expired"
  | 27 => some "Profiling timer expired"
  | 29 => some "I/O possible"
  | 30 => some "Power failure"
  | 31 => some "Bad system call"
  | _ => none

end Signal

inductive Ending where
  | exited (status : Nat)
  | died (signal : Signal)
deriving DecidableEq, Repr

def Ending.status : Ending → Nat
  | .exited status => status
  | .died signal => 128 + signal

end Reanalysis.Shell
