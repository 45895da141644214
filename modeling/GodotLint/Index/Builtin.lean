/-!
# Names that the engine provides
-/

namespace GodotLint.Builtin

/-- Classes, singletons and types that no script declares. -/
def classes : List String :=
  ["Object", "RefCounted", "Resource", "Node", "Node2D", "Node3D", "CanvasItem", "CanvasLayer",
    "Control", "Container", "BoxContainer", "HBoxContainer", "VBoxContainer", "GridContainer",
    "MarginContainer", "CenterContainer", "PanelContainer", "ScrollContainer", "Panel", "Label",
    "RichTextLabel", "Button", "TextureButton", "CheckBox", "CheckButton", "OptionButton",
    "LineEdit", "TextEdit", "ProgressBar", "TextureProgressBar", "TextureRect", "ColorRect",
    "NinePatchRect", "ItemList", "Tree", "TabContainer", "Slider", "HSlider", "VSlider",
    "SpinBox", "Popup", "PopupMenu", "Window", "AcceptDialog", "ConfirmationDialog", "Sprite2D",
    "AnimatedSprite2D", "AnimationPlayer", "AnimationTree", "Camera2D", "Area2D",
    "CollisionShape2D", "CharacterBody2D", "RigidBody2D", "StaticBody2D", "Path2D",
    "PathFollow2D", "Line2D", "Polygon2D", "Marker2D", "TileMap", "TileMapLayer",
    "GPUParticles2D", "CPUParticles2D", "Light2D", "PointLight2D", "AudioStreamPlayer",
    "AudioStreamPlayer2D", "AudioStream", "AudioStreamWAV", "Timer", "Tween", "Tweener",
    "PropertyTweener", "SceneTree", "SceneTreeTimer", "PackedScene", "Viewport", "SubViewport",
    "Texture", "Texture2D", "ImageTexture", "Image", "Font", "FontFile", "Theme", "StyleBox",
    "StyleBoxFlat", "Shader", "ShaderMaterial", "Material", "Gradient", "Curve", "InputEvent",
    "InputEventKey", "InputEventMouseButton", "InputEventMouseMotion", "InputEventAction",
    "InputEventJoypadButton", "HTTPRequest", "FileAccess", "DirAccess", "ConfigFile", "JSON",
    "RegEx", "RegExMatch", "RandomNumberGenerator", "Thread", "Mutex", "Semaphore", "Input",
    "InputMap", "OS", "Engine", "Time", "ResourceLoader", "ResourceSaver", "ProjectSettings",
    "DisplayServer", "RenderingServer", "PhysicsServer2D", "AudioServer", "ClassDB",
    "Performance", "TranslationServer", "Marshalls", "IP", "Geometry2D", "EditorPlugin",
    "EditorScript", "Vector2", "Vector2i", "Vector3", "Vector3i", "Vector4", "Color", "Rect2",
    "Rect2i", "Transform2D", "Transform3D", "Basis", "Quaternion", "Plane", "AABB", "Array",
    "Dictionary", "String", "StringName", "NodePath", "Callable", "Signal", "RID",
    "PackedStringArray", "PackedByteArray", "PackedInt32Array", "PackedInt64Array",
    "PackedFloat32Array", "PackedFloat64Array", "PackedVector2Array", "PackedVector3Array",
    "PackedColorArray", "Variant", "MainLoop", "WeakRef", "GDScript", "Script"]

/-- Bases at which a chain of bases ends. -/
def roots : List String :=
  ["RefCounted", "Resource", "Object"]

/-- Signals that engine classes emit. -/
def signals : List String :=
  ["pressed", "toggled", "button_down", "button_up", "timeout", "finished", "tree_entered",
    "tree_exiting", "tree_exited", "ready", "renamed", "child_entered_tree",
    "child_exiting_tree", "visibility_changed", "resized", "gui_input", "mouse_entered",
    "mouse_exited", "focus_entered", "focus_exited", "text_changed", "text_submitted",
    "value_changed", "item_selected", "id_pressed", "body_entered", "body_exited",
    "area_entered", "area_exited", "animation_finished", "animation_started",
    "animation_looped", "frame_changed", "request_completed", "step_finished", "loop_finished",
    "process_frame", "physics_frame", "node_added", "node_removed", "draw", "changed",
    "confirmed", "canceled", "close_requested", "meta_clicked", "size_changed"]

end GodotLint.Builtin
