import Stowage.Hosted.EntryPoint
import Stowage.Hosted.Settings
/-!
# Filling the configuration record

The record is made and cleared by the runtime; in between, its numbers are written directly and its
texts and lists through entry points. Filling stops at the first text that cannot be passed and at
the first call that fails. Either way the record is cleared once, as the last call.
-/

namespace Stowage

namespace Words

/-- A record of the given size in which every bit is zero. -/
def zero (size : Nat) : Words := List.replicate (size / 4) 0

/-- The record in which the number at an offset has been set. -/
def setInt (record : Words) (offset : Nat) (value : Int32) : Words :=
  record.set (offset / 4) value.toUInt32

/-- The record in which the long number at an offset has been set, its low half first. -/
def setLong (record : Words) (offset : Nat) (value : UInt64) : Words :=
  (record.set (offset / 4) value.toUInt32).set (offset / 4 + 1) (value >>> 32).toUInt32

end Words

/-- Work on a runtime that fills a record and may fail. -/
abbrev Filling := ExceptT RuntimeError (StateT Words Dialogue)

namespace Filling

/-- Makes a call. -/
def ask {shape : AnswerShape} (call : EntryCall shape) : Filling shape.Answer :=
  fun record => .ask call fun answer => .done (.ok answer, record)

/-- Makes a call that changes the record. -/
def askOnRecord (call : Words → EntryCall .statusAndRecord) : Filling Status :=
  fun record => .ask (call record) fun answer => .done (.ok answer.1, answer.2)

/-- A text as it can be passed in a call: without the character that would end it. -/
def passable (text : String) : Except RuntimeError String :=
  if text.toList.contains '\x00' then .error (.nulInText text) else .ok text

/-- A text that can be passed in a call. -/
def pass (text : String) : Filling String := fun record => .done (passable text, record)

/-- Fails unless a step has succeeded. -/
def check (what : String) (status : Status) : Filling Unit :=
  if status.isOk then pure () else throw (.configuration (.refused what status))

/-- The numbers of the record. -/
def numbers (o : RuntimeOptions) : List (ConfigField × Int32) :=
  [(.isolated, 1), (.useEnvironment, 0), (.parseArgv, 0), (.installSignalHandlers, 1),
    (.siteImport, 0), (.writeBytecode, 0), (.userSiteDirectory, 0), (.configureCStdio, 1),
    (.verbose, o.verbose), (.optimizationLevel, o.optimize),
    (.bufferedStdio, if o.unbuffered then 0 else 1),
    (.devMode, if o.developerMode then 1 else 0), (.moduleSearchPathsSet, 1)]

/-- The record in which all numbers have been set. -/
def setNumbers (layout : Layout) (o : RuntimeOptions) (record : Words) : Words :=
  let plain := (numbers o).foldl (fun r (f, v) => Words.setInt r (layout.offset f) v) record
  match o.hashSeed with
  | some seed =>
    Words.setLong (Words.setInt plain (layout.offset .useHashSeed) 1) (layout.offset .hashSeed)
      seed
  | none => plain

/-- Sets a text of the record. -/
def setString (layout : Layout) (field : ConfigField) (what value : String) : Filling Unit := do
  let value ← pass value
  let status ← askOnRecord (.setString · (layout.offset field) value)
  check what status

/-- Adds a text to a list of the record. The decoded text is freed whether or not it can be
added. -/
def appendText (layout : Layout) (field : ConfigField) (what value : String) : Filling Unit := do
  let value ← pass value
  match ← ask (.decodeLocale value) with
  | none => throw (.configuration (.undecodable what value))
  | some text =>
    let status ← askOnRecord (.appendText · (layout.offset field) text)
    -- freed before the status is looked at
    ask (.freeText text)
    check what status

/-- Adds texts to a list of the record. -/
def appendAll (layout : Layout) (field : ConfigField) (what : String) :
    List String → Filling Unit
  | [] => pure ()
  | value :: rest => do
    appendText layout field what value
    appendAll layout field what rest

/-- Fills the record. -/
def fill (layout : Layout) (s : StartSettings) : Filling Unit := do
  modify (setNumbers layout s.options)
  setString layout .programName "program_name" s.programName.text
  setString layout .home "home" s.home.text
  appendAll layout .moduleSearchPaths "module_search_paths" (s.searchPaths.map Path.text)
  appendAll layout .warnoptions "warnoptions" s.options.warnOptions
  appendAll layout .xoptions "xoptions" s.options.xOptions
  let args ← s.argv.mapM pass
  let status ← askOnRecord (.setArgv · args)
  check "argv" status

end Filling

/-- Makes and fills the record of a version, uses it, and clears it. An unsupported version fails
before any call. -/
def withConfiguration {α : Type} (version : UInt32) (settings : StartSettings)
    (use : Words → Dialogue α) : Dialogue (Except RuntimeError α) :=
  match Layout.ofVersion? version with
  | none => .done (.error (.unsupportedVersion version))
  | some layout =>
    .ask (.isolatedConfig (Words.zero layout.size)) fun record => do
      let (result, filled) ← (Filling.fill layout settings).run.run record
      match result with
      | .error e => .ask (.clearConfig filled) fun _ => .done (.error e)
      | .ok () => do
        let used ← use filled
        .ask (.clearConfig filled) fun _ => .done (.ok used)

end Stowage
