import DocModel.Snapshot.Basic

/-!
# Drafts

A draft is a working copy of a snapshot, and the only way to change a model after it is loaded. Each
operation gives back what it replaced or removed. `commit` derives everything anew and, if asked to,
validates the result before it becomes a snapshot.
-/

namespace DocModel

/-- A working copy; what is derived in it may be out of date. -/
structure Draft where
  working : Snapshot

namespace Draft

def ofSnapshot (s : Snapshot) : Draft := ⟨s⟩

/-- Replaces the first instance of an id. -/
def replaceFirst (new : Instance) : List Instance → Option (Instance × List Instance)
  | [] => none
  | i :: rest =>
    if i.id = new.id then some (i, new :: rest)
    else (replaceFirst new rest).map fun (old, rest) => (old, i :: rest)

/-- Removes the first instance of an id. -/
def removeFirst (id : String) : List Instance → Option (Instance × List Instance)
  | [] => none
  | i :: rest =>
    if i.id = id then some (i, rest)
    else (removeFirst id rest).map fun (old, rest) => (old, i :: rest)

/-- Replaces an instance, or adds it at the end. -/
def upsertInstance (d : Draft) (new : Instance) : Option Instance × Draft :=
  match replaceFirst new d.working.instances with
  | some (old, instances) => (some old, ⟨{ d.working with instances }⟩)
  | none => (none, ⟨{ d.working with instances := d.working.instances ++ [new] }⟩)

/-- Removes an instance; the global record stays. -/
def removeInstance (d : Draft) (id : String) : Option Instance × Draft :=
  if id = Instance.globalId then (none, d)
  else
    match removeFirst id d.working.instances with
    | some (old, instances) =>
      (some old,
        ⟨{ d.working with instances, provenance := Dict.erase d.working.provenance id }⟩)
    | none => (none, d)

/-- Replaces the global record; the given instance takes its id. -/
def setGlobal (d : Draft) (new : Instance) : Option Instance × Draft :=
  d.upsertInstance { new with id := Instance.globalId }

def upsertClass (d : Draft) (c : ClassDefinition) : Option ClassDefinition × Draft :=
  (Dict.get? d.working.classes c.name,
    ⟨{ d.working with classes := Dict.insert d.working.classes c.name c }⟩)

def removeClass (d : Draft) (name : String) : Option ClassDefinition × Draft :=
  (Dict.get? d.working.classes name,
    ⟨{ d.working with classes := Dict.erase d.working.classes name }⟩)

/-- Makes a snapshot of the draft; `validate` sees it with everything derived and can refuse it. -/
def commit (d : Draft) (validate : Snapshot → Except BuildError Unit) : Except BuildError Snapshot := do
  let s := d.working.reindexed
  validate s
  return s

end Draft

end DocModel
