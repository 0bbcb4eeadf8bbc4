import Pushpin.Proxy.WorkerConfig

/-! # The options `run` parses

`parseCommandLine` (src/proxy/app.cpp) reads the command line into `ArgsData`, and
`parse_xffRule` reads a `proxy/x_forwarded_for` setting into an `XffRule`. Both convert numbers
with `QString::toInt(&ok)`, which belongs to Qt and not to the repository: it is the parameter
`toInt`, `none` standing for `ok == false`. `QCommandLineParser` is Qt's too; the model starts
from what its `parse` found.
-/

namespace Pushpin.Options
set_option autoImplicit false

open Pushpin.QtText Pushpin.WorkerConfig

/-! ## `parse_xffRule` -/

/-- `XffRule()`: keep every entry and do not append the peer (src/proxy/xffrule.h, which the
sources do not include). -/
def defaultXffRule : XffRule := ⟨-1, false⟩

/-- `parse_xffRule`: a `truncate:N` entry sets `truncate` to `N`, an `append` entry sets
`append`; a `truncate:` entry whose number `toInt` rejects returns what was read so far. -/
def parseXffRule (toInt : String → Option Int) (l : List String) : XffRule :=
  loop defaultXffRule l
where
  loop (out : XffRule) : List String → XffRule
    | [] => out
    | s :: rest =>
      if hasPrefix s "truncate:" then
        match toInt (s.drop 9) with
        | none => out
        | some x => loop { out with truncate := x } rest
      else if s = "append" then loop { out with append := true } rest
      else loop out rest

def stopsXff (toInt : String → Option Int) (s : String) : Bool :=
  hasPrefix s "truncate:" && (toInt (s.drop 9)).isNone

def truncateValue (toInt : String → Option Int) (s : String) : Option Int :=
  if hasPrefix s "truncate:" then toInt (s.drop 9) else none

theorem parseXffRule_loop (toInt : String → Option Int) (out : XffRule) (l : List String) :
    parseXffRule.loop toInt out l =
      ⟨(((l.takeWhile fun s => !stopsXff toInt s).filterMap (truncateValue toInt)).getLast?).getD
          out.truncate,
        out.append || (l.takeWhile fun s => !stopsXff toInt s).contains "append"⟩ := by
  induction l generalizing out with
  | nil => cases out; simp [parseXffRule.loop]
  | cons s rest ih =>
    by_cases hT : hasPrefix s "truncate:" = true
    · have hA : "append" ≠ s := by rintro rfl; exact absurd hT (by decide)
      cases hx : toInt (s.drop 9) with
      | none =>
        have hS : stopsXff toInt s = true := by simp [stopsXff, hT, hx]
        simp only [parseXffRule.loop, hT, if_true, hx, List.takeWhile_cons, hS, Bool.not_true,
          Bool.false_eq_true, if_false]
        cases out
        simp
      | some x =>
        have hS : stopsXff toInt s = false := by simp [stopsXff, hT, hx]
        have hV : truncateValue toInt s = some x := by simp [truncateValue, hT, hx]
        simp only [parseXffRule.loop, hT, if_true, hx, ih, List.takeWhile_cons, hS, Bool.not_false,
          List.filterMap_cons, hV, List.getLast?_cons, Option.getD_some, List.contains_cons,
          beq_false_of_ne hA, Bool.false_or]
    · have hS : stopsXff toInt s = false := by simp [stopsXff, hT]
      have hV : truncateValue toInt s = none := by simp [truncateValue, hT]
      simp only [parseXffRule.loop, hT, Bool.false_eq_true, if_false, List.takeWhile_cons, hS,
        Bool.not_false, if_true, List.filterMap_cons, hV, List.contains_cons]
      split_ifs with hA
      · subst hA
        simp [ih]
      · simp only [ih, beq_false_of_ne (Ne.symm hA), Bool.false_or]

/-- `parse_xffRule` reads the entries before the first `truncate:` entry whose number does not
parse, and only those: `truncate` is the last number one of them set (`-1` if none), and
`append` is whether one of them is `append`. An `append` after that entry is ignored. -/
theorem parseXffRule_reads_prefix (toInt : String → Option Int) (l : List String) :
    parseXffRule toInt l =
      ⟨(((l.takeWhile fun s => !stopsXff toInt s).filterMap (truncateValue toInt)).getLast?).getD
          (-1),
        (l.takeWhile fun s => !stopsXff toInt s).contains "append"⟩ := by
  simpa [defaultXffRule] using parseXffRule_loop toInt defaultXffRule l

/-! ## `parseCommandLine` -/

inductive CommandLineOption
  | config
  | logfile
  | loglevel
  | verbose
  | ipcPrefix
  | route
  | quietCheck
  | help
  | version
  deriving DecidableEq, Repr

/-- What `QCommandLineParser::parse` found: the options set, and each one's values in order. -/
structure ParsedCommandLine where
  isSet : CommandLineOption → Bool
  values : CommandLineOption → List String

def ParsedCommandLine.value (p : ParsedCommandLine) (o : CommandLineOption) : String :=
  (p.values o).getLast?.getD ""

inductive CommandLineParseResult
  | commandLineOk
  | commandLineError
  | commandLineVersionRequested
  | commandLineHelpRequested
  deriving DecidableEq, Repr

structure ArgsData where
  configFile : String
  logFile : String
  logLevel : Int
  ipcPrefix : String
  routeLines : List String
  quietCheck : Bool
  deriving DecidableEq, Repr

def ArgsData.init : ArgsData := ⟨"", "", -1, "", [], false⟩

def loglevelError : String := "error: loglevel must be greater than or equal to 0"

/-- `parseCommandLine` from what `parser->parse(...)` returned (`.error` with the parser's
`errorText()` when it failed): the result, `*args` and `*errorMessage`, each starting as the
caller's `ArgsData()` and empty message. -/
def parseCommandLine (toInt : String → Option Int) (parsed : Except String ParsedCommandLine) :
    CommandLineParseResult × ArgsData × String :=
  match parsed with
  | .error text => (.commandLineError, .init, text)
  | .ok p =>
    if p.isSet .version then (.commandLineVersionRequested, .init, "")
    else if p.isSet .help then (.commandLineHelpRequested, .init, "")
    else
      let args := if p.isSet .config then { ArgsData.init with configFile := p.value .config }
        else ArgsData.init
      let args := if p.isSet .logfile then { args with logFile := p.value .logfile } else args
      let level : Option ArgsData :=
        if p.isSet .loglevel then
          match toInt (p.value .loglevel) with
          | some x => if x < 0 then none else some { args with logLevel := x }
          | none => none
        else some args
      match level with
      | none => (.commandLineError, args, loglevelError)
      | some args =>
        let args := if p.isSet .verbose then { args with logLevel := 3 } else args
        let args := if p.isSet .ipcPrefix then { args with ipcPrefix := p.value .ipcPrefix }
          else args
        let args := if p.isSet .route then { args with routeLines := args.routeLines ++ p.values .route }
          else args
        let args := if p.isSet .quietCheck then { args with quietCheck := true } else args
        (.commandLineOk, args, "")

/-- `LOG_LEVEL_INFO` (src/core/log.h, which the sources do not include): the help text's
default 2. -/
def logLevelInfo : Int := 2

def outputLevel (args : ArgsData) : Int := if args.logLevel ≠ -1 then args.logLevel else logLevelInfo

/-- What `parseCommandLine` returns on what the parser accepted. `--version` wins over every
other option, then `--help`; a `--loglevel` that `toInt` does not read as a number at least 0 is
an error, even beside `--verbose`; every other command line is accepted. The level `run` then
sets is never negative: 3 with `--verbose`, else the `--loglevel` value, else
`LOG_LEVEL_INFO`. -/
theorem parseCommandLine_accepts (toInt : String → Option Int) (p : ParsedCommandLine) :
    (p.isSet .version = true →
      parseCommandLine toInt (.ok p) = (.commandLineVersionRequested, .init, "")) ∧
    (p.isSet .version = false → p.isSet .help = true →
      parseCommandLine toInt (.ok p) = (.commandLineHelpRequested, .init, "")) ∧
    (p.isSet .version = false → p.isSet .help = false → p.isSet .loglevel = true →
      (∀ x, toInt (p.value .loglevel) = some x → x < 0) →
      (parseCommandLine toInt (.ok p)).1 = .commandLineError ∧
        (parseCommandLine toInt (.ok p)).2.2 = loglevelError) ∧
    ((parseCommandLine toInt (.ok p)).1 = .commandLineOk ↔
      p.isSet .version = false ∧ p.isSet .help = false ∧
        (p.isSet .loglevel = true → ∃ x, toInt (p.value .loglevel) = some x ∧ 0 ≤ x)) ∧
    ((parseCommandLine toInt (.ok p)).1 = .commandLineOk →
      0 ≤ outputLevel (parseCommandLine toInt (.ok p)).2.1 ∧
      outputLevel (parseCommandLine toInt (.ok p)).2.1 =
        if p.isSet .verbose then 3
        else if p.isSet .loglevel then (toInt (p.value .loglevel)).getD 0 else logLevelInfo) := by
  cases hV : p.isSet .version
  · cases hH : p.isSet .help
    · cases hL : p.isSet .loglevel
      · cases hVb : p.isSet .verbose <;>
          simp [parseCommandLine, hV, hH, hL, hVb, outputLevel, logLevelInfo, ArgsData.init,
            apply_ite ArgsData.logLevel]
      · cases hx : toInt (p.value .loglevel) with
        | none => simp [parseCommandLine, hV, hH, hL, hx]
        | some x =>
          by_cases hx0 : x < 0
          · simp [parseCommandLine, hV, hH, hL, hx, hx0]
          · cases hVb : p.isSet .verbose <;>
              simp [parseCommandLine, hV, hH, hL, hx, hx0, hVb, outputLevel,
                apply_ite ArgsData.logLevel] <;> omega
    · simp [parseCommandLine, hV, hH]
  · simp [parseCommandLine, hV]

end Pushpin.Options
