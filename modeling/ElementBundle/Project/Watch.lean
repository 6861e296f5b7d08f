import ElementBundle.Decimal.Shortest
import ElementBundle.Disk.Edit
import ElementBundle.Project.Debounce
import ElementBundle.Project.Guard

/-!
# Watching the components

The watcher looks at the directory again and again. A file has changed if it has appeared or
disappeared, or if its stamp or its size is another one than at the last look. A change triggers a
build after a delay; further changes put it off.
-/

namespace ElementBundle.Project

open ElementBundle.Disk

abbrev Snapshot := List (String × Nat × Nat)

def snapshot (t : Tree) (directory : Path) (extension : String) : Snapshot :=
  match t.place directory with
  | .error _ => []
  | .ok place =>
    if t.isDirectoryAt place then
      (t.children place).filterMap fun
        | (name, .file bytes stamp) =>
          if suffix name == extension then some (name, stamp, bytes.length) else none
        | (_, .directory) => none
    else []

def changedNames (before after : Snapshot) : List String :=
  (((before ++ after).map (·.1)).eraseDups.filter fun name =>
    before.lookup name != after.lookup name).mergeSort nameLE

structure Watcher where
  directory : Path
  extension : String
  seen : Snapshot
  deriving DecidableEq, Repr

def Watcher.start (t : Tree) (directory : Path) (extension : String) : Watcher :=
  ⟨directory, extension, snapshot t directory extension⟩

def Watcher.poll (w : Watcher) (t : Tree) : List String × Watcher :=
  let now := snapshot t w.directory w.extension
  (changedNames w.seen now, { w with seen := now })

inductive Moment where
  | event (e : Event)
  /-- The watcher waits for the n-th time. -/
  | tick (n : Nat)
  /-- A build has ended at a time. -/
  | result (time : Int) (r : Result)
  /-- A fault has ended the thread of a timer. -/
  | crashed (fault : Fault)

/-- The state of watching: time counts milliseconds. -/
structure Watch where
  engine : Engine
  tree : Tree
  watcher : Watcher
  debouncer : Debouncer
  time : Int := 0

/-- What a rebuild leaves behind. Errors of the configuration are told; any other fault ends the
thread that rebuilds. -/
structure Rebuilt where
  engine : Engine
  tree : Tree
  moments : List Moment
  fault : Option Fault

def Engine.rebuild (e : Engine) (t : Tree) (time : Int) : Rebuilt :=
  let served := e.request t true
  let events := served.events.map .event
  match served.outcome with
  | .ok (some r) => ⟨served.engine, served.tree, events ++ [.result time r], none⟩
  | .ok none => ⟨served.engine, served.tree, events, none⟩
  | .error (.config c) =>
    ⟨served.engine, served.tree, events ++ [.event (.rebuildFailed c.message)], none⟩
  | .error fault => ⟨served.engine, served.tree, events, some fault⟩

def Watch.look (w : Watch) : Watch × List Moment :=
  match w.watcher.poll w.tree with
  | ([], watcher) => ({ w with watcher }, [])
  | (names, watcher) =>
    ({ w with watcher, debouncer := w.debouncer.trigger w.time }, [.event (.changed names)])

/-- Lets time pass; a rebuild that is due by then is done at its time, on the thread of the timer. A
fault ends that thread, and the watching goes on. -/
def Watch.wait (w : Watch) (interval : Int) : Watch × List Moment :=
  let target := w.time + interval
  match w.debouncer.fire? target with
  | none => ({ w with time := target }, [])
  | some (due, debouncer) =>
    let r := w.engine.rebuild w.tree due
    ({ w with engine := r.engine, tree := r.tree, debouncer, time := target },
      r.moments ++ (r.fault.map .crashed).toList)

structure Watched where
  engine : Engine
  tree : Tree
  time : Int
  moments : List Moment
  fault : Option Fault

def Watched.after (moments : List Moment) (w : Watched) : Watched :=
  { w with moments := moments ++ w.moments }

def Watch.stop (w : Watch) (fault : Option Fault) : Watched :=
  ⟨w.engine, w.tree, w.time, [], fault⟩

/-- Watches until the list ends: it holds the edits that others make at each wait. -/
def Watch.run (interval : Int) (n : Nat) (w : Watch) : List (List Edit) → Watched
  | [] => (w.look.1.stop none).after w.look.2
  | edits :: later =>
    let (w, seen) := w.look
    let waiting := seen ++ [.tick n]
    match applyAll w.tree edits with
    | .error r => (w.stop (some (.disk r))).after waiting
    | .ok tree =>
      let (w, moments) := Watch.wait { w with tree } interval
      (Watch.run interval (n + 1) w later).after (waiting ++ moments)

def milliseconds (seconds : Float) : Int :=
  (Decimal.roundToInt? (seconds * 1000)).getD 0

/-- Watches a project: builds once, then whenever components change. A fault of the first build ends
the watching. -/
def Engine.watch (e : Engine) (t : Tree) (interval : Int) (waits : List (List Edit)) : Watched :=
  let r := e.rebuild t 0
  match r.fault, e.settings.componentsPath with
  | some fault, _ | none, .error fault => ⟨r.engine, r.tree, 0, r.moments, some fault⟩
  | none, .ok directory =>
    let extension := e.settings.extension
    let w : Watch :=
      { engine := r.engine, tree := r.tree
        watcher := Watcher.start r.tree directory extension
        debouncer := { delay := milliseconds e.settings.debounce } }
    (w.run interval 1 waits).after (r.moments ++ [.event (.watching directory.text extension)])

end ElementBundle.Project
