/-
# Events

What a session did, for whoever watches: files registered and removed, names and
imports that led nowhere, imports that could not be read.
-/

import ProtoAtlas.Text.Quoted

namespace ProtoAtlas

/-- How much an event matters. -/
inductive EventLevel where
  | debug
  | warning
  deriving DecidableEq

/-- The word of a level. -/
def EventLevel.word : EventLevel → Text
  | .debug => "DEBUG"
  | .warning => "WARNING"

/-- Something that happened in a session. -/
inductive Event where
  | registered (uri : Text) (symbols : Nat)
  | removed (uri : Text)
  | importUnresolved (path uri : Text)
  | typeUnresolved (name uri : Text)
  | importNotOnDisk (path file : Text)
  | importUnreadable (path file reason : Text)
  deriving DecidableEq

namespace Event

/-- The level of an event. -/
def level : Event → EventLevel
  | .importUnreadable _ _ _ => .warning
  | _ => .debug

/-- The text of an event. -/
def message : Event → Text
  | .registered uri symbols => "Registered " ++ uri ++ " with " ++ Text.ofNat symbols ++ " symbols"
  | .removed uri => "Removed " ++ uri
  | .importUnresolved path uri => "Import " ++ path.quoted ++ " from " ++ uri ++ " is unresolved"
  | .typeUnresolved name uri => "Could not resolve type " ++ name.quoted ++ " from " ++ uri
  | .importNotOnDisk path file =>
    "Import " ++ path.quoted ++ " of " ++ file ++ " not found on disk"
  | .importUnreadable path file reason =>
    "Could not read " ++ path ++ " imported by " ++ file ++ ": " ++ reason

/-- The line of an event in a log. -/
def line (e : Event) : Text :=
  e.level.word ++ " - " ++ e.message

end Event
end ProtoAtlas
