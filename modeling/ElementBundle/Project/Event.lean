import ElementBundle.Project.Report

/-!
# Events

What a build, the watcher and the settings reader tell about their work, in the order in which it
happens. An event has a level, the area that it comes from, and a message.
-/

namespace ElementBundle.Project

open ElementBundle.Component

inductive Level where
  | debug
  | info
  | warning
  | error
  deriving DecidableEq, Repr

def Level.name : Level → String
  | .debug => "debug"
  | .info => "info"
  | .warning => "warning"
  | .error => "error"

inductive Event where
  /-- The compiler remarks on a directive. -/
  | remark (r : Remark)
  /-- A settings file has a key that means nothing. -/
  | unknownKey (key file : String)
  /-- A settings file that cannot be read is about to be replaced. -/
  | overwriting (file : String)
  /-- A build goes from a stage to another. -/
  | transition (before after : Stage)
  /-- A build comes to a file. -/
  | compiling (quiet : Bool) (file : String)
  /-- A file failed. -/
  | failed (message : String)
  /-- A build leaves the bundle as it was. -/
  | aborted (failures : Nat) (bundle : String)
  /-- The bundle is written. -/
  | wrote (quiet : Bool) (path : String)
  /-- Files have changed since the last look. -/
  | changed (files : List String)
  /-- A build while watching could not be done. -/
  | rebuildFailed (message : String)
  /-- Watching starts. -/
  | watching (directory extension : String)
  deriving DecidableEq, Repr

/-- The level of an event. What a quiet build would tell is of interest only when looking for a
fault. -/
def Event.level : Event → Level
  | .remark (.emptyName _) => .debug
  | .remark _ | .unknownKey .. | .overwriting _ => .warning
  | .compiling quiet _ | .wrote quiet _ => if quiet then .debug else .info
  | .transition .. | .failed _ | .watching .. => .debug
  | .changed _ => .info
  | .aborted .. | .rebuildFailed _ => .error

def Event.area : Event → String
  | .remark _ => "directive"
  | .unknownKey .. | .overwriting _ => "config"
  | .watching .. => "watcher"
  | _ => "engine"

def Event.message : Event → String
  | .remark r => r.message
  | .unknownKey key file => "Unknown config key '" ++ key ++ "' in " ++ file
  | .overwriting file => "Overwriting unreadable " ++ file
  | .transition before after => before.name ++ " -> " ++ after.name
  | .compiling _ file => "Compiling " ++ file
  | .failed message | .rebuildFailed message => message
  | .aborted failures bundle =>
    "Build aborted: " ++ toString failures ++ " file(s) failed, " ++ bundle ++ " not written"
  | .wrote _ path => "Wrote " ++ path
  | .changed files => "Change detected in " ++ ", ".intercalate files
  | .watching directory extension => "Watching " ++ directory ++ " for *" ++ extension

def Event.isPublic (e : Event) : Bool :=
  e.level ≠ .debug

def stagesEntered (events : List Event) : List Stage :=
  events.filterMap fun
    | .transition _ after => some after
    | _ => none

def transitions (before : Stage) : List Stage → List Event
  | [] => []
  | s :: ss => .transition before s :: transitions s ss

def lastStage (before : Stage) (stages : List Stage) : Stage :=
  stages.getLast?.getD before

@[simp] theorem stagesEntered_transitions (before : Stage) (stages : List Stage) :
    stagesEntered (transitions before stages) = stages := by
  induction stages generalizing before with
  | nil => rfl
  | cons s ss ih => simpa [transitions, stagesEntered] using ih s

end ElementBundle.Project
