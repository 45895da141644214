import GodotLint.Pitfall.Basic

/-!
# The table of pitfalls
-/

namespace GodotLint.Pitfall

open Pattern

/-! ## Shapes -/

/-- A call of a function. -/
def call (name : String) : Pattern := .wordEdge ++ lit name ++ blanks ++ .char '('

/-- A call of a function without arguments. -/
def bareCall (name : String) : Pattern := call name ++ blanks ++ .char ')'

/-- A call of a method of anything. -/
def methodCall (name : String) : Pattern := .char '.' ++ lit name ++ blanks ++ .char '('

/-- A call of a method of anything, without arguments. -/
def bareMethodCall (name : String) : Pattern := methodCall name ++ blanks ++ .char ')'

/-- A word that stands alone. -/
def wholeWord (name : String) : Pattern := .wordEdge ++ lit name ++ .wordEdge

/-- Blanks at the start of a line. -/
def lineStart : Pattern := .atStart ++ blanks

/-- An identifier that may be qualified by dots. -/
def dotted : Pattern :=
  identStart ++
    .star (.oneOf [.range 'A' 'Z', .range 'a' 'z', .range '0' '9', .only '_', .only '.'])

/-- A point with blanks around it. -/
def spacedPoint : Pattern := blanks ++ .char '.' ++ blanks

/-! ## Outdated names and syntax -/

/-- What the engine no longer knows. -/
def deprecated : List Pitfall :=
  [{ id := "yield", group := .deprecated, pattern := call "yield"
     message := .always "yield() was replaced by await", suggestion := some "await signal" },
   { id := "setget", group := .deprecated, pattern := wholeWord "setget"
     message := .always "setget was replaced by property accessors"
     suggestion := some "var x: int: set = _set_x, get = _get_x" },
   { id := "bare_onready", group := .deprecated
     pattern := choice [.atStart, .noneOf [.only '@', .word]] ++ lit "onready" ++ blanks1 ++
       lit "var" ++ .wordEdge
     message := .always "onready keyword is now the @onready annotation"
     suggestion := some "@onready var" },
   { id := "bare_export", group := .deprecated
     pattern := lineStart ++ lit "export" ++ blanks ++ choice [.char '(', lit "var" ++ .wordEdge]
     message := .always "export keyword is now the @export annotation"
     suggestion := some "@export var" },
   { id := "bare_tool", group := .deprecated
     pattern := .atStart ++ lit "tool" ++ blanks ++ .atEnd
     message := .always "tool keyword is now the @tool annotation", suggestion := some "@tool" },
   { id := "kinematic_body", group := .deprecated
     pattern := .wordEdge ++ lit "KinematicBody" ++ .opt (lit "2D") ++ .wordEdge
     message := .always "KinematicBody was renamed to CharacterBody"
     suggestion := some "CharacterBody2D / CharacterBody3D" },
   { id := "spatial", group := .deprecated, pattern := wholeWord "Spatial"
     message := .always "Spatial was renamed to Node3D", suggestion := some "Node3D" },
   { id := "pool_array", group := .deprecated
     pattern := .wordEdge ++ lit "Pool" ++
       word ["String", "Int", "Real", "Byte", "Vector2", "Vector3", "Color"] ++ lit "Array" ++
       .wordEdge
     message := .always "Pool*Array types were renamed to Packed*Array"
     suggestion := some "PackedStringArray" },
   { id := "funcref", group := .deprecated, pattern := call "funcref"
     message := .always "funcref() was replaced by Callable"
     suggestion := some "Callable(object, \"method\")" },
   { id := "string_connect", group := .deprecated
     pattern := call "connect" ++ blanks ++ quoteMark ++ unquoted ++ quoteMark ++ blanks ++
       .char ',' ++ blanks ++ lit "self" ++ .wordEdge
     message := .always "string-based connect() with a target object is Godot 3 style"
     suggestion := some "signal_name.connect(_on_signal)" },
   { id := "instance_call", group := .deprecated, pattern := bareMethodCall "instance"
     message := .always "PackedScene.instance() was renamed to instantiate()"
     suggestion := some "scene.instantiate()" },
   { id := "os_ticks", group := .deprecated
     pattern := .wordEdge ++ lit "OS.get_" ++
       word ["ticks_msec", "ticks_usec", "unix_time", "datetime"] ++ blanks ++ .char '('
     message := .always "time queries moved from OS to Time"
     suggestion := some "Time.get_ticks_msec()" },
   { id := "visual_server", group := .deprecated, pattern := wholeWord "VisualServer"
     message := .always "VisualServer was renamed to RenderingServer"
     suggestion := some "RenderingServer" },
   { id := "rpc_keyword", group := .deprecated
     pattern := lineStart ++
       word ["remote", "master", "puppet", "remotesync", "mastersync", "puppetsync"] ++ blanks1 ++
       lit "func" ++ .wordEdge
     message := .always "RPC keywords were replaced by the @rpc annotation"
     suggestion := some "@rpc(\"any_peer\")" },
   { id := "rand_range", group := .deprecated, pattern := call "rand_range"
     message := .always "rand_range() was replaced by randf_range()"
     suggestion := some "randf_range(a, b)" },
   { id := "stepify", group := .deprecated, pattern := call "stepify"
     message := .always "stepify() was renamed to snapped()"
     suggestion := some "snapped(value, step)" },
   { id := "empty_call", group := .deprecated, pattern := bareMethodCall "empty"
     message := .always "empty() was renamed to is_empty()", suggestion := some ".is_empty()" },
   { id := "change_scene", group := .deprecated, pattern := methodCall "change_scene"
     message := .always "change_scene() was renamed to change_scene_to_file()"
     suggestion := some "get_tree().change_scene_to_file(path)" },
   { id := "emit_signal_string", group := .deprecated
     pattern := call "emit_signal" ++ blanks ++ quoteMark
     message := .always "string-based emit_signal() bypasses signal checking"
     severity := .info, suggestion := some "signal_name.emit()" }]

/-! ## Common mistakes -/

/-- What does something else than it seems. -/
def mistakes : List Pitfall :=
  [{ id := "node_free", group := .mistakes
     pattern := choice [lineStart, .wordEdge ++ lit "self."] ++ lit "free" ++ blanks ++ .char '(' ++
       blanks ++ .char ')'
     message := .always "free() on a node can crash while it is processing"
     suggestion := some "queue_free()" },
   { id := "parent_chain", group := .mistakes
     pattern := bareCall "get_parent" ++ spacedPoint ++ lit "get_parent" ++ blanks ++ .char '('
     message := .always "chained get_parent() couples the script to the scene layout"
     suggestion := some "export a NodePath or emit a signal upward" },
   { id := "relative_up_path", group := .mistakes
     pattern := call "get_node" ++ blanks ++ quoteMark ++ lit "../"
     message := .always "get_node(\"../…\") depends on the parent layout"
     severity := .info, suggestion := some "export a NodePath" },
   { id := "root_lookup", group := .mistakes
     pattern := bareCall "get_tree" ++ spacedPoint ++ lit "root" ++ spacedPoint ++ lit "get_node" ++
       blanks ++ .char '('
     message := .always "looking up globals through the scene root"
     suggestion := some "use an autoload" },
   { id := "self_valid", group := .mistakes
     pattern := call "is_instance_valid" ++ blanks ++ lit "self" ++ blanks ++ .char ')'
     message := .always "is_instance_valid(self) is always true", severity := .info },
   { id := "bool_compare", group := .mistakes
     pattern := charOf "!=" ++ .char '=' ++ blanks ++ word ["true", "false"] ++ .wordEdge
     message := .always "comparison against a boolean literal"
     severity := .info, suggestion := some "use the value (or \x60not value\x60) directly" },
   { id := "str_literal", group := .mistakes
     pattern := call "str" ++ blanks ++
       .char '"' ++ .star (charNotOf "\"") ++ .char '"' ++ blanks ++
       .char ')'
     message := .always "str() of a string literal is redundant", severity := .info },
   { id := "self_assign", group := .mistakes
     pattern := lineStart ++ .group 1 dotted ++ blanks ++ .char '=' ++ blanks ++ .group 2 dotted ++
       blanks ++ .atEnd
     message := .sameSides },
   { id := "hot_connect", group := .mistakes, scope := .everyFrame, pattern := methodCall "connect"
     message := .always "signal connected every frame"
     suggestion := some "connect once in _ready()" }]

/-! ## Work in every frame -/

/-- What costs too much in every frame. -/
def frameCosts : List Pitfall :=
  [{ id := "hot_load", group := .performance, scope := .everyFrame, pattern := call "load"
     message := .always "load() runs every frame", suggestion := some "preload() into a constant" },
   { id := "hot_group_lookup", group := .performance, scope := .everyFrame
     pattern := call "get_nodes_in_group"
     message := .always "group lookup every frame"
     suggestion := some "cache the group members and update on change" },
   { id := "hot_find_child", group := .performance, scope := .everyFrame
     pattern := .wordEdge ++ lit "find_child" ++ .opt (lit "ren") ++ blanks ++ .char '('
     message := .always "recursive node search every frame"
     suggestion := some "cache the node in an @onready var" },
   { id := "hot_allocation", group := .performance, scope := .everyFrame
     pattern := .wordEdge ++ Mention.className ++ methodCall "new"
     message := .always "object allocated every frame"
     severity := .info, suggestion := some "reuse an instance" },
   { id := "hot_children", group := .performance, scope := .everyFrame
     pattern := bareCall "get_children"
     message := .always "get_children() allocates an array every frame", severity := .info },
   { id := "hot_duplicate", group := .performance, scope := .everyFrame
     pattern := methodCall "duplicate"
     message := .always "duplicate() copies every frame", severity := .info },
   { id := "hot_json", group := .performance, scope := .everyFrame
     pattern := choice [.wordEdge ++ lit "JSON." ++ word ["parse_string", "stringify"] ++ blanks ++
       .char '(', call "JSON.new"]
     message := .always "JSON work every frame", suggestion := some "parse once and cache" },
   { id := "hot_file", group := .performance, scope := .everyFrame
     pattern := call "FileAccess.open", message := .always "file access every frame" },
   { id := "hot_rng", group := .performance, scope := .everyFrame
     pattern := call "RandomNumberGenerator.new"
     message := .always "random generator created every frame"
     severity := .info, suggestion := some "create one RandomNumberGenerator as a member" }]

/-! ## The life of a node -/

/-- What happens too early, or is the engine's own business. -/
def lifecycle : List Pitfall :=
  [{ id := "init_node_lookup", group := .lifecycle, scope := .construction
     pattern := choice [.wordEdge ++ lit "get_node" ++ .opt (lit "_or_null") ++ blanks ++ .char '(',
       .char '$' ++ .oneOf [.range 'A' 'Z', .range 'a' 'z', .only '"', .only '%']]
     message := .always "node lookup in _init() runs before the node is in the tree"
     suggestion := some "move to _ready() or an @onready var" },
   { id := "init_tree", group := .lifecycle, scope := .construction, pattern := bareCall "get_tree"
     message := .always "get_tree() is null in _init()", suggestion := some "move to _ready()" },
   { id := "init_parent", group := .lifecycle, scope := .construction
     pattern := bareCall "get_parent"
     message := .always "get_parent() is null in _init()", suggestion := some "move to _ready()" },
   { id := "manual_callback", group := .lifecycle
     pattern := choice [.atStart, .oneOf [.blank, .only '(', .only '=', .only ',']] ++
       .opt (lit "self.") ++ .char '_' ++
       word ["ready", "enter_tree", "exit_tree", "process", "physics_process"] ++ blanks ++
       .char '('
     message := .always "engine callbacks should not be called directly"
     suggestion := some "extract the body into a named function" }]

/-! ## On request -/

/-- What is looked for only on request. -/
def onRequest : List Pitfall :=
  [{ id := "debug_print", group := .strict
     pattern := .wordEdge ++ lit "print" ++ .opt (word ["s", "t", "_debug", "_rich"]) ++ blanks ++
       .char '('
     message := .always "debug print", severity := .info },
   { id := "assertion", group := .strict, pattern := call "assert"
     message := .always "assertions are stripped from release builds", severity := .info },
   { id := "breakpoint", group := .strict, pattern := wholeWord "breakpoint"
     message := .always "breakpoint left in code" },
   { id := "untyped_var", group := .strict
     pattern := lineStart ++ lit "var" ++ blanks1 ++ ident ++ blanks ++ .char '=' ++ charNotOf "="
     message := .always "variable without a type annotation", severity := .info
     suggestion := some "var name: Type = value or var name := value" }]

/-- Every pitfall. -/
def all : List Pitfall := deprecated ++ mistakes ++ frameCosts ++ lifecycle ++ onRequest

end GodotLint.Pitfall
