import EffectKernel.Effect

/-!
# The State of a Script

Scripts are programs written as data, for trying out the machine. They are the outer
layer around the library: scripts use it, and nothing outside them, no definition and no
theorem, knows of them. What a running script can change is kept here: named counters, a
log, and the handles it has put aside.

A script cannot see the clock, so what it writes to the log has no time yet. Whoever
runs it stamps the open entries before the clock moves on, which gives each of them the
time at which it was written.

## Main definitions

* `Store`: The state of a script.
* `Store.bump`, `Store.write`: A counter counts on, and an entry in the log.
* `Store.stamp`: Gives the open entries their time.
* `Store.hold`, `Store.take`: Handles put aside and taken up.
-/

namespace EffectKernel

namespace Script

/-- The state of a script. -/
structure Store where
  /-- The counters with their names. -/
  counters : List (String × Nat)
  /-- The entries of the log that have no time yet, the latest first. -/
  pending : List Value
  /-- The entries of the log, each with its time in milliseconds. -/
  log : Array (Nat × Value)
  /-- The handles that have been put aside, with their names. -/
  held : List (String × Handle)
  /-- The next unused number. -/
  fresh : Nat

namespace Store

/-- The state in the beginning. -/
def start : Store :=
  ⟨[], [], #[], [], 0⟩

/-- How far a counter has counted. -/
def count (s : Store) (name : String) : Nat :=
  (s.counters.lookup name).getD 0

/-- A counter counts on by one, to the number given. -/
def bump (name : String) : Act Store Nat :=
  Act.update fun s =>
    let n := s.count name + 1
    (n, { s with counters := (name, n) :: s.counters.filter (·.1 != name) })

/-- An entry in the log. -/
def write (entry : Value) : Act Store Unit :=
  Act.modify fun s => { s with pending := entry :: s.pending }

/-- The open entries of the log get their time. -/
def stamp (millis : Nat) (s : Store) : Store :=
  { s with
    pending := []
    log := s.pending.reverse.foldl (fun log entry => log.push (millis, entry)) s.log }

/-- A handle is put aside under a name. The one that was there before comes back. -/
def hold (name : String) (handle : Handle) : Act Store (Option Handle) :=
  Act.update fun s =>
    (s.held.lookup name,
      { s with held := (name, handle) :: s.held.filter (·.1 != name) })

/-- The state without the handle of a name. -/
def take (name : String) (s : Store) : Store :=
  { s with held := s.held.filter (·.1 != name) }

/-- A number that has not been used. -/
def draw : Act Store Nat :=
  Act.update fun s => (s.fresh, { s with fresh := s.fresh + 1 })

end Store

end Script

end EffectKernel
