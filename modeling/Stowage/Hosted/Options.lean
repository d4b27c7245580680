import Stowage.Text.Blank
import Stowage.Text.Number
/-!
# Options

A container carries options as names of entries. An option is a word, or a word and a value after
the first space. Some steer the hosted runtime, some the launcher. An option that is not known, or
has a value where it should have none, has no effect.

Which field an option addresses is decided by `Setting.ofText?`; what the options of a container
mean is the result of applying their settings in turn.
-/

namespace Stowage

/-- The options of a container that steer the launcher. -/
structure LauncherOptions where
  /-- Where extraction directories are made. -/
  extractionParent : Option String
  /-- The directory below that of the program which is home when nothing is extracted. -/
  contentsDirectory : Option String
  /-- The waiting process ignores signals instead of passing them on. -/
  ignoreSignals : Bool
  /-- The process replaces itself when the library path has changed. -/
  restartForLibraryPath : Bool
  deriving DecidableEq, Repr, Inhabited

/-- All options of a container. -/
structure RuntimeOptions where
  verbose : Int32
  unbuffered : Bool
  optimize : Int32
  warnOptions : List String
  xOptions : List String
  hashSeed : Option UInt64
  /-- Whether text is UTF-8 whatever the locale says; the runtime decides if nothing is said. -/
  utf8Mode : Option Bool
  developerMode : Bool
  launcher : LauncherOptions
  deriving DecidableEq, Repr, Inhabited

namespace RuntimeOptions

/-- The options of a container that has none. -/
def none : RuntimeOptions :=
  ⟨0, false, 0, [], [], .none, .none, false, ⟨.none, .none, false, false⟩⟩

end RuntimeOptions

/-- The effect of one option. -/
inductive Setting where
  | moreVerbose
  | unbuffered
  | moreOptimized
  | warn (value : String)
  | x (value : String)
  | hashSeed (value : UInt64)
  | utf8Mode (value : Bool)
  | developerMode
  | extractionParent (dir : String)
  | contentsDirectory (dir : String)
  | ignoreSignals
  | restartForLibraryPath
  deriving DecidableEq, Repr

namespace Setting

/-- The setting that a value of the option `X` stands for. -/
def ofX (value : String) : Setting :=
  match value with
  | "utf8" => .utf8Mode true
  | "utf8=1" => .utf8Mode true
  | "utf8=0" => .utf8Mode false
  | "dev" => .developerMode
  | other => .x other

/-- The setting of an option that consists of a word. -/
def ofWord? : String → Option Setting
  | "v" => some .moreVerbose
  | "u" => some .unbuffered
  | "O" => some .moreOptimized
  | "bootpack-ignore-signals" => some .ignoreSignals
  | "bootpack-restart-libpath" => some .restartForLibraryPath
  | _ => none

/-- The setting of an option that consists of a word and a value, which must not be empty. -/
def ofPair? (word value : String) : Option Setting :=
  if value = "" then none
  else match word with
    | "W" => some (.warn value)
    | "X" => some (ofX value)
    | "bootpack-runtime-tmpdir" => some (.extractionParent value)
    | "bootpack-contents-directory" => some (.contentsDirectory value)
    | _ => none

/-- The setting of a whole option that gives a seed. -/
def ofSeed? (option : String) : Option Setting := do
  let seed ← Text.afterLead? "hash_seed=" option
  .hashSeed <$> Text.readUInt64? (Text.trim seed)

/-- The setting of an option without blanks around it. -/
def ofTrimmed? (option : String) : Option Setting :=
  let direct := match Text.splitOnce ' ' option with
    | some (word, value) => ofPair? word (Text.trim value)
    | none => ofWord? option
  direct <|> ofSeed? option

/-- The setting of an option as it is written. -/
def ofText? (option : String) : Option Setting := ofTrimmed? (Text.trim option)

/-- The options after one more setting. -/
def apply (o : RuntimeOptions) : Setting → RuntimeOptions
  | moreVerbose => { o with verbose := o.verbose + 1 }
  | unbuffered => { o with unbuffered := true }
  | moreOptimized => { o with optimize := o.optimize + 1 }
  | warn value => { o with warnOptions := o.warnOptions ++ [value] }
  | x value => { o with xOptions := o.xOptions ++ [value] }
  | hashSeed value => { o with hashSeed := some value }
  | utf8Mode value => { o with utf8Mode := some value }
  | developerMode => { o with developerMode := true }
  | extractionParent dir =>
    { o with launcher := { o.launcher with extractionParent := some dir } }
  | contentsDirectory dir =>
    { o with launcher := { o.launcher with contentsDirectory := some dir } }
  | ignoreSignals => { o with launcher := { o.launcher with ignoreSignals := true } }
  | restartForLibraryPath =>
    { o with launcher := { o.launcher with restartForLibraryPath := true } }

end Setting

namespace RuntimeOptions

/-- What a list of options means. -/
def parse (options : List String) : RuntimeOptions :=
  (options.filterMap Setting.ofText?).foldl Setting.apply none

end RuntimeOptions

end Stowage
