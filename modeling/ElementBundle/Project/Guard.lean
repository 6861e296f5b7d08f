import ElementBundle.Project.Build

/-!
# One build at a time

A request that comes while a build runs starts none; it is remembered, and when the build ends, one
more build follows for all requests that came meanwhile. A build that ends by a fault forgets them.
-/

namespace ElementBundle.Project

open ElementBundle.Component ElementBundle.Disk

/-- Whether a build runs, and whether another one was asked for meanwhile. -/
structure Guard where
  building : Bool := false
  pending : Bool := false
  deriving DecidableEq, Repr

def Guard.request (g : Guard) : Guard × Bool :=
  if g.building then ({ g with pending := true }, false) else ({ g with building := true }, true)

/-- The end of a build; the second value says whether another one follows. -/
def Guard.finish (g : Guard) : Guard × Bool :=
  if g.pending then ({ g with pending := false }, true) else ({ g with building := false }, false)

def Guard.release (_ : Guard) : Guard :=
  {}

def Guard.requests (g : Guard) : Nat → Guard
  | 0 => g
  | n + 1 => g.request.1.requests n

structure Engine where
  settings : Settings
  stage : Stage := .idle
  pipeline : Pipeline := {}
  guard : Guard := {}

def Engine.build (e : Engine) (t : Tree) (quiet dryRun : Bool) : Pass :=
  e.settings.build e.pipeline e.stage t quiet dryRun

def Engine.after (e : Engine) (pass : Pass) : Engine :=
  { e with stage := pass.stage, pipeline := pass.pipeline }

/-- What a request leaves behind. `outcome` is the result of the last build, and nothing if the
request was only remembered; `builds` counts the builds that it caused. -/
structure Served where
  outcome : Except Fault (Option Result)
  engine : Engine
  tree : Tree
  events : List Event := []
  builds : Nat := 0
  remembered : Nat := 0

/-- Builds while there is a reason to. The list says how many requests come during each build. -/
def Engine.serve (quiet : Bool) : List Nat → Engine → Tree → Served
  | meanwhile, e, t =>
    let guard := e.guard.requests (meanwhile.headD 0)
    let pass := e.build t quiet false
    let served : Served :=
      { outcome := pass.outcome.map some
        engine := { e.after pass with guard }
        tree := pass.tree, events := pass.events, builds := 1, remembered := meanwhile.headD 0 }
    match pass.outcome with
    | .error _ => { served with engine := { served.engine with guard := guard.release } }
    | .ok _ =>
      let engine := { served.engine with guard := guard.finish.1 }
      match meanwhile with
      | [] => { served with engine }
      | _ :: later =>
        if guard.finish.2 then
          let next := serve quiet later engine pass.tree
          { next with
            events := served.events ++ next.events
            builds := next.builds + 1
            remembered := served.remembered + next.remembered }
        else { served with engine }

def Engine.request (e : Engine) (t : Tree) (quiet : Bool) (meanwhile : List Nat := []) : Served :=
  match e.guard.request with
  | (guard, false) => { outcome := .ok none, engine := { e with guard }, tree := t }
  | (guard, true) => Engine.serve quiet meanwhile { e with guard } t

end ElementBundle.Project
