/-!
# Configuration records

The hosted runtime is configured through a record whose fields depend on the version of the
runtime. The record is laid out by the rules of the platform: a field starts at a multiple of its
alignment, and the size of the record is a multiple of the greatest alignment.

Only some fields are written. `ConfigField` names them, and every supported version has all of
them; the other fields of a version only take their place.
-/

namespace Stowage

/-- How wide a field is. -/
inductive FieldWidth where
  /-- Four bytes. -/
  | int
  /-- Eight bytes that are a number. -/
  | long
  /-- Eight bytes that are an address. -/
  | pointer
  /-- A length of eight bytes and an address. -/
  | list
  deriving DecidableEq, Repr

namespace FieldWidth

/-- The number of bytes of a field. -/
def size : FieldWidth → Nat
  | int => 4
  | long => 8
  | pointer => 8
  | list => 16

/-- A field starts at a multiple of this. -/
def alignment : FieldWidth → Nat
  | int => 4
  | _ => 8

end FieldWidth

/-- The fields of a configuration record that are written. -/
inductive ConfigField where
  | isolated
  | useEnvironment
  | devMode
  | installSignalHandlers
  | useHashSeed
  | hashSeed
  | parseArgv
  | argv
  | programName
  | xoptions
  | warnoptions
  | siteImport
  | optimizationLevel
  | writeBytecode
  | verbose
  | userSiteDirectory
  | configureCStdio
  | bufferedStdio
  | home
  | moduleSearchPathsSet
  | moduleSearchPaths
  deriving DecidableEq, Repr

namespace ConfigField

/-- All fields that are written. -/
def all : List ConfigField :=
  [.isolated, .useEnvironment, .devMode, .installSignalHandlers, .useHashSeed, .hashSeed,
    .parseArgv, .argv, .programName, .xoptions, .warnoptions, .siteImport, .optimizationLevel,
    .writeBytecode, .verbose, .userSiteDirectory, .configureCStdio, .bufferedStdio, .home,
    .moduleSearchPathsSet, .moduleSearchPaths]

/-- The name of a field. -/
def name : ConfigField → String
  | isolated => "isolated"
  | useEnvironment => "use_environment"
  | devMode => "dev_mode"
  | installSignalHandlers => "install_signal_handlers"
  | useHashSeed => "use_hash_seed"
  | hashSeed => "hash_seed"
  | parseArgv => "parse_argv"
  | argv => "argv"
  | programName => "program_name"
  | xoptions => "xoptions"
  | warnoptions => "warnoptions"
  | siteImport => "site_import"
  | optimizationLevel => "optimization_level"
  | writeBytecode => "write_bytecode"
  | verbose => "verbose"
  | userSiteDirectory => "user_site_directory"
  | configureCStdio => "configure_c_stdio"
  | bufferedStdio => "buffered_stdio"
  | home => "home"
  | moduleSearchPathsSet => "module_search_paths_set"
  | moduleSearchPaths => "module_search_paths"

/-- The width of a field. -/
def width : ConfigField → FieldWidth
  | hashSeed => .long
  | argv | xoptions | warnoptions | moduleSearchPaths => .list
  | programName | home => .pointer
  | _ => .int

end ConfigField

/-- One field of a record: its name and its width. -/
abbrev Slot := String × FieldWidth

/-- The fields of a configuration record in order. -/
structure Layout where
  slots : List Slot
  deriving DecidableEq, Repr

namespace Layout

/-- The next multiple of an alignment. -/
def alignUp (position alignment : Nat) : Nat :=
  (position + alignment - 1) / alignment * alignment

/-- The fields with the positions at which they start, from a position on. -/
def placedFrom (position : Nat) : List Slot → List (String × Nat)
  | [] => []
  | (name, width) :: rest =>
    let start := alignUp position width.alignment
    (name, start) :: placedFrom (start + width.size) rest

/-- Where each field starts. -/
def placed (l : Layout) : List (String × Nat) := placedFrom 0 l.slots

/-- Where the last field ends. -/
def endFrom (position : Nat) : List Slot → Nat
  | [] => position
  | (_, width) :: rest => endFrom (alignUp position width.alignment + width.size) rest

/-- The size of a record. -/
def size (l : Layout) : Nat := alignUp (endFrom 0 l.slots) 8

/-- Where a field starts. -/
def offset (l : Layout) (f : ConfigField) : Nat :=
  (l.placed.lookup f.name).getD 0

/-- The record of version 3.8. -/
def v308 : Layout := .mk
  [("_config_init", .int), ("isolated", .int), ("use_environment", .int), ("dev_mode", .int),
    ("install_signal_handlers", .int), ("use_hash_seed", .int), ("hash_seed", .long),
    ("faulthandler", .int), ("tracemalloc", .int), ("import_time", .int),
    ("show_ref_count", .int), ("show_alloc_count", .int), ("dump_refs", .int),
    ("malloc_stats", .int), ("filesystem_encoding", .pointer), ("filesystem_errors", .pointer),
    ("pycache_prefix", .pointer), ("parse_argv", .int), ("argv", .list),
    ("program_name", .pointer), ("xoptions", .list), ("warnoptions", .list),
    ("site_import", .int), ("bytes_warning", .int), ("inspect", .int), ("interactive", .int),
    ("optimization_level", .int), ("parser_debug", .int), ("write_bytecode", .int),
    ("verbose", .int), ("quiet", .int), ("user_site_directory", .int),
    ("configure_c_stdio", .int), ("buffered_stdio", .int), ("stdio_encoding", .pointer),
    ("stdio_errors", .pointer), ("check_hash_pycs_mode", .pointer), ("pathconfig_warnings", .int),
    ("pythonpath_env", .pointer), ("home", .pointer), ("module_search_paths_set", .int),
    ("module_search_paths", .list), ("executable", .pointer), ("base_executable", .pointer),
    ("prefix", .pointer), ("base_prefix", .pointer), ("exec_prefix", .pointer),
    ("base_exec_prefix", .pointer), ("skip_source_first_line", .int), ("run_command", .pointer),
    ("run_module", .pointer), ("run_filename", .pointer), ("_install_importlib", .int),
    ("_init_main", .int)]

/-- The record of version 3.9. -/
def v309 : Layout := .mk
  [("_config_init", .int), ("isolated", .int), ("use_environment", .int), ("dev_mode", .int),
    ("install_signal_handlers", .int), ("use_hash_seed", .int), ("hash_seed", .long),
    ("faulthandler", .int), ("_use_peg_parser", .int), ("tracemalloc", .int),
    ("import_time", .int), ("show_ref_count", .int), ("dump_refs", .int), ("malloc_stats", .int),
    ("filesystem_encoding", .pointer), ("filesystem_errors", .pointer),
    ("pycache_prefix", .pointer), ("parse_argv", .int), ("argv", .list),
    ("program_name", .pointer), ("xoptions", .list), ("warnoptions", .list),
    ("site_import", .int), ("bytes_warning", .int), ("inspect", .int), ("interactive", .int),
    ("optimization_level", .int), ("parser_debug", .int), ("write_bytecode", .int),
    ("verbose", .int), ("quiet", .int), ("user_site_directory", .int),
    ("configure_c_stdio", .int), ("buffered_stdio", .int), ("stdio_encoding", .pointer),
    ("stdio_errors", .pointer), ("check_hash_pycs_mode", .pointer), ("pathconfig_warnings", .int),
    ("pythonpath_env", .pointer), ("home", .pointer), ("module_search_paths_set", .int),
    ("module_search_paths", .list), ("executable", .pointer), ("base_executable", .pointer),
    ("prefix", .pointer), ("base_prefix", .pointer), ("exec_prefix", .pointer),
    ("base_exec_prefix", .pointer), ("platlibdir", .pointer), ("skip_source_first_line", .int),
    ("run_command", .pointer), ("run_module", .pointer), ("run_filename", .pointer),
    ("_install_importlib", .int), ("_init_main", .int), ("_isolated_interpreter", .int),
    ("_orig_argv", .list)]

/-- The record of version 3.10. -/
def v310 : Layout := .mk
  [("_config_init", .int), ("isolated", .int), ("use_environment", .int), ("dev_mode", .int),
    ("install_signal_handlers", .int), ("use_hash_seed", .int), ("hash_seed", .long),
    ("faulthandler", .int), ("tracemalloc", .int), ("import_time", .int),
    ("show_ref_count", .int), ("dump_refs", .int), ("malloc_stats", .int),
    ("filesystem_encoding", .pointer), ("filesystem_errors", .pointer),
    ("pycache_prefix", .pointer), ("parse_argv", .int), ("orig_argv", .list), ("argv", .list),
    ("xoptions", .list), ("warnoptions", .list), ("site_import", .int), ("bytes_warning", .int),
    ("warn_default_encoding", .int), ("inspect", .int), ("interactive", .int),
    ("optimization_level", .int), ("parser_debug", .int), ("write_bytecode", .int),
    ("verbose", .int), ("quiet", .int), ("user_site_directory", .int),
    ("configure_c_stdio", .int), ("buffered_stdio", .int), ("stdio_encoding", .pointer),
    ("stdio_errors", .pointer), ("check_hash_pycs_mode", .pointer), ("pathconfig_warnings", .int),
    ("program_name", .pointer), ("pythonpath_env", .pointer), ("home", .pointer),
    ("platlibdir", .pointer), ("module_search_paths_set", .int), ("module_search_paths", .list),
    ("executable", .pointer), ("base_executable", .pointer), ("prefix", .pointer),
    ("base_prefix", .pointer), ("exec_prefix", .pointer), ("base_exec_prefix", .pointer),
    ("skip_source_first_line", .int), ("run_command", .pointer), ("run_module", .pointer),
    ("run_filename", .pointer), ("_install_importlib", .int), ("_init_main", .int),
    ("_isolated_interpreter", .int)]

/-- The record of version 3.11. -/
def v311 : Layout := .mk
  [("_config_init", .int), ("isolated", .int), ("use_environment", .int), ("dev_mode", .int),
    ("install_signal_handlers", .int), ("use_hash_seed", .int), ("hash_seed", .long),
    ("faulthandler", .int), ("tracemalloc", .int), ("import_time", .int),
    ("code_debug_ranges", .int), ("show_ref_count", .int), ("dump_refs", .int),
    ("dump_refs_file", .pointer), ("malloc_stats", .int), ("filesystem_encoding", .pointer),
    ("filesystem_errors", .pointer), ("pycache_prefix", .pointer), ("parse_argv", .int),
    ("orig_argv", .list), ("argv", .list), ("xoptions", .list), ("warnoptions", .list),
    ("site_import", .int), ("bytes_warning", .int), ("warn_default_encoding", .int),
    ("inspect", .int), ("interactive", .int), ("optimization_level", .int),
    ("parser_debug", .int), ("write_bytecode", .int), ("verbose", .int), ("quiet", .int),
    ("user_site_directory", .int), ("configure_c_stdio", .int), ("buffered_stdio", .int),
    ("stdio_encoding", .pointer), ("stdio_errors", .pointer), ("check_hash_pycs_mode", .pointer),
    ("use_frozen_modules", .int), ("safe_path", .int), ("int_max_str_digits", .int),
    ("pathconfig_warnings", .int), ("program_name", .pointer), ("pythonpath_env", .pointer),
    ("home", .pointer), ("platlibdir", .pointer), ("module_search_paths_set", .int),
    ("module_search_paths", .list), ("stdlib_dir", .pointer), ("executable", .pointer),
    ("base_executable", .pointer), ("prefix", .pointer), ("base_prefix", .pointer),
    ("exec_prefix", .pointer), ("base_exec_prefix", .pointer), ("skip_source_first_line", .int),
    ("run_command", .pointer), ("run_module", .pointer), ("run_filename", .pointer),
    ("_install_importlib", .int), ("_init_main", .int), ("_isolated_interpreter", .int),
    ("_is_python_build", .int)]

/-- The record of version 3.12. -/
def v312 : Layout := .mk
  [("_config_init", .int), ("isolated", .int), ("use_environment", .int), ("dev_mode", .int),
    ("install_signal_handlers", .int), ("use_hash_seed", .int), ("hash_seed", .long),
    ("faulthandler", .int), ("tracemalloc", .int), ("perf_profiling", .int),
    ("import_time", .int), ("code_debug_ranges", .int), ("show_ref_count", .int),
    ("dump_refs", .int), ("dump_refs_file", .pointer), ("malloc_stats", .int),
    ("filesystem_encoding", .pointer), ("filesystem_errors", .pointer),
    ("pycache_prefix", .pointer), ("parse_argv", .int), ("orig_argv", .list), ("argv", .list),
    ("xoptions", .list), ("warnoptions", .list), ("site_import", .int), ("bytes_warning", .int),
    ("warn_default_encoding", .int), ("inspect", .int), ("interactive", .int),
    ("optimization_level", .int), ("parser_debug", .int), ("write_bytecode", .int),
    ("verbose", .int), ("quiet", .int), ("user_site_directory", .int),
    ("configure_c_stdio", .int), ("buffered_stdio", .int), ("stdio_encoding", .pointer),
    ("stdio_errors", .pointer), ("check_hash_pycs_mode", .pointer), ("use_frozen_modules", .int),
    ("safe_path", .int), ("int_max_str_digits", .int), ("pathconfig_warnings", .int),
    ("program_name", .pointer), ("pythonpath_env", .pointer), ("home", .pointer),
    ("platlibdir", .pointer), ("module_search_paths_set", .int), ("module_search_paths", .list),
    ("stdlib_dir", .pointer), ("executable", .pointer), ("base_executable", .pointer),
    ("prefix", .pointer), ("base_prefix", .pointer), ("exec_prefix", .pointer),
    ("base_exec_prefix", .pointer), ("skip_source_first_line", .int), ("run_command", .pointer),
    ("run_module", .pointer), ("run_filename", .pointer), ("_install_importlib", .int),
    ("_init_main", .int), ("_is_python_build", .int)]

/-- The supported versions, as `major * 100 + minor`, with their records. -/
def supported : List (UInt32 × Layout) :=
  [(308, v308), (309, v309), (310, v310), (311, v311), (312, v312)]

/-- The record of a version, if the version is supported. -/
def ofVersion? (version : UInt32) : Option Layout := supported.lookup version

/-- Whether a version is supported. -/
def isSupported (version : UInt32) : Bool := (ofVersion? version).isSome

/-- Every supported record has every field that is written. -/
theorem has_fields : ∀ v ∈ supported, ∀ f ∈ ConfigField.all,
    (f.name, f.width) ∈ v.2.slots := by
  decide

end Layout

end Stowage
