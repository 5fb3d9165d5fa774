import EffectKernel.Effect.Generator
import EffectKernel.Layer.Graph
import EffectKernel.Script.Program

/-!
# From Scripts to Effects

This is where the outer layer meets the library. A script is turned into an effect
before it runs, and so are the layers in it. What it refers to by name must have been
made before, and some combinators refuse what they are given, so this may fail. It may
also panic, where a test is made right away.

Inside the effect there are functions that turn the rest of the script into an effect as
soon as they know a value. When that fails, the effect dies at this point.

A layer is a new one each time it is made, and so is a context, unless one of two that
are merged has nothing to add. Numbers that have not been used before tell them apart.

## Main definitions

* `Names`: What scripts can refer to.
* `Mistake`: What can be wrong with a script.
* `Making`: Something that is being made.
* `ContextScript.make`, `Program.make`, `LayerScript.make`: What a script stands for.
* `HandleScript.signals`: What happens to a handle.
* `routineOfSteps`: A generator.
-/

namespace EffectKernel

namespace Script

/-- A context that can be told from others that hold the same. -/
structure Registry where
  /-- What tells it from others. -/
  id : Nat
  /-- Its services. -/
  context : Context

/-- What scripts can refer to, the latest first. -/
structure Names where
  /-- The contexts made so far. -/
  contexts : List (String × Registry)
  /-- The layers made so far. -/
  layers : List (String × Layer Store)
  /-- The effects made so far. -/
  effects : List (String × Effect Store)

/-- What can be wrong with a script. -/
inductive Mistake where
  /-- It refers to something that has not been made. -/
  | unknownName (name : String)
  /-- A combinator refuses what it is given. -/
  | construction (e : ConstructionError)

/-- The mistake in words. -/
def Mistake.message : Mistake → String
  | .unknownName name => "unknown name: " ++ name
  | .construction e => e.message

/-- The report on a mistake. -/
def Mistake.report : Mistake → Value
  | .unknownName _ => Report.badInput
  | .construction e => Report.mistake e

/-- Something that is being made. -/
abbrev Making (α : Type) : Type := ExceptT Mistake (Act Store) α

namespace Making

/-- What has been made, if it has been made well. -/
def ofExcept {α : Type} : Except ConstructionError α → Making α
  | .ok a => pure a
  | .error e => throw (.construction e)

/-- What a name stands for. -/
def ofName {α : Type} (name : String) (known : List (String × α)) : Making α :=
  match known.lookup name with
  | some a => pure a
  | none => throw (.unknownName name)

/-- The effect that is made, or one that dies by what is wrong with it. -/
def orDie (making : Making (Effect Store)) : Act Store (Effect Store) := do
  match ← making.run with
  | .ok effect => return effect
  | .error mistake => return Effect.die (.ofError mistake.message)

end Making

namespace ContextScript

/-- A context that is told from all others. -/
def registered (c : Context) : Making Registry := do
  return ⟨← Store.draw, c⟩

/-- Services with their holes filled. -/
def filled (scope : Scope) (services : List (ServiceKey × Template)) : Entries :=
  services.map fun entry => (entry.1, entry.2.fill scope)

/-- The context that a script stands for. -/
def make (names : Names) (scope : Scope) : ContextScript → Making Registry
  | .empty => registered Context.empty
  | .entries services => registered (Context.ofEntries (filled scope services))
  | .single key v => registered (Context.single key (v.fill scope))
  | .merge left right => do
    let left ← left.make names scope
    let right ← right.make names scope
    if right.context.isEmpty then return left
    else if left.context.isEmpty then return right
    else registered (left.context.merge right.context)
  | .insert c key v => do
    let c ← c.make names scope
    registered (c.context.insert key (v.fill scope))
  | .ref name => Making.ofName name names.contexts

end ContextScript

/-- The services of a built layer as a script is shown them. -/
def shownServices (v : Value) : Value :=
  match Context.ofValue? v with
  | some c => Report.context c
  | none => .null

/-- A known end with its holes filled. -/
def filledExit (scope : Scope) (x : Exit Template Template) : Outcome :=
  x.mapBoth (·.fill scope) (·.fill scope)

/-- How an effect ends, as a generator sees it. -/
def attempted : Except Halt Value → Value
  | .ok v => Value.record1 "ok" v
  | .error halt => Value.record1 "halt" (Report.cause halt.cause)

/-- A generator's handle as shown to a programmer. -/
def generatorText (cx : Gen) : String :=
  Text.shownRecord "Gen" [("context", cx.context.shown)]

mutual
/-- The effect that a script stands for. -/
def Program.make (names : Names) : Scope → Program → Making (Effect Store)
  | scope, .leaf l => pure (l.effect scope)
  | scope, .change source c => do
    return c.effect scope (← source.make names scope)
  | scope, .handle source h bound next => do
    let source ← source.make names scope
    return h.effect scope source fun v => (next.make names ((bound, v) :: scope)).orDie
  | scope, .catchTags source handlers => do
    let source ← source.make names scope
    return source.catchTags (tagHandlers names scope handlers)
  | scope, .matchEffect source value onSuccess error onFailure => do
    let source ← source.make names scope
    return source.matchEffect
      (fun v => (onSuccess.make names ((value, v) :: scope)).orDie)
      (fun e => (onFailure.make names ((error, e) :: scope)).orDie)
  | scope, .join a b j => do
    let a ← a.make names scope
    let b ← b.make names scope
    return j.effect a b
  | scope, .gather parts g => do
    Making.ofExcept (g.effect (← makeEach names scope parts))
  | scope, .wrap source w times => do
    w.effect times (← source.make names scope)
  | scope, .suspend next => pure (.suspend (next.make names scope).orDie)
  | scope, .sequence counter first rest =>
    pure (.suspend do
      let n ← Store.bump counter
      match makeNth names scope rest (n - 2) with
      | some next => if n ≤ 1 then (first.make names scope).orDie else next.orDie
      | none => (first.make names scope).orDie)
  | scope, .choose test v yes no => do
    if ← test.holds scope (v.fill scope) then yes.make names scope
    else no.make names scope
  | scope, .listen handle => pure (.asyncEffect (handle.signals names scope))
  | scope, .routine steps =>
    pure (.generator fun cx => routineOfSteps names cx scope .null steps)
  | scope, .provideContext source context => do
    let source ← source.make names scope
    let registry ← context.make names scope
    return .provide source registry.context
  | scope, .provideLayer source layer under => do
    let source ← source.make names scope
    let layer ← layer.make names scope
    return source.provideLayer layer fun e =>
      pure (match under with | some name => Value.record1 name e | none => e)
  | scope, .provideService source key v => do
    let source ← source.make names scope
    return source.provideLayer (Layer.succeed (← Store.draw) key (v.fill scope)) pure
  | scope, .build layer => do
    return (← layer.make names scope).built.map fun v => pure (shownServices v)
  | _, .ref name => Making.ofName name names.effects
  | _, .stop p => Act.stop p

/-- The effects that scripts stand for, made in order. -/
def makeEach (names : Names) (scope : Scope) : List Program → Making (List (Effect Store))
  | [] => pure []
  | part :: rest => do
    let effect ← part.make names scope
    return effect :: (← makeEach names scope rest)

/-- The effect that one of several scripts stands for; behind the end it is the last. -/
def makeNth (names : Names) (scope : Scope) :
    List Program → Nat → Option (Making (Effect Store))
  | [], _ => none
  | part :: _, 0 => some (part.make names scope)
  | part :: rest, n + 1 =>
    match makeNth names scope rest n with
    | some next => some next
    | none => some (part.make names scope)

/-- The handlers for tags that a script stands for. -/
def tagHandlers (names : Names) (scope : Scope) : List TagScript → List (TagHandler Store)
  | [] => []
  | .on tag bound next :: rest =>
    ⟨tag, fun e => (next.make names ((bound, e) :: scope)).orDie⟩ ::
      tagHandlers names scope rest

/-- The code of a generator with given steps, after which the last value is its own. -/
def routineOfSteps (names : Names) (cx : Gen) :
    Scope → Value → List RoutineStep → Act Store (Routine Store)
  | _, last, [] => pure (Gen.ends (.ok last))
  | scope, last, step :: rest =>
    let goOn (bound : String) (v : Value) : Act Store (Routine Store) :=
      routineOfSteps names cx ((bound, v) :: scope) v rest
    match step with
    | .bind bound effect => do
      let effect ← (effect.make names scope).orDie
      return cx.bind effect (Gen.orHalt (goOn bound))
    | .attempt bound effect => do
      let effect ← (effect.make names scope).orDie
      return cx.bind effect fun result => goOn bound (attempted result)
    | .service bound key => Gen.orHalt (goOn bound) (cx.service key)
    | .context bound => goOn bound (Report.context cx.context)
    | .describe bound => goOn bound (.text (generatorText cx))
    | .halt outcome => pure (Gen.ends (Halt.result (filledExit scope outcome)))
    | .haltIf bound test => do
      if ← test.holds scope last then return Gen.ends (.ok last)
      else goOn bound last
    | .log bound v => do
      Store.write (v.fill scope)
      goOn bound (v.fill scope)
    | .apply bound f => do goOn bound (← f.apply scope last)
    | .giveWay bound => pure (.giveWay (goOn bound last))
    | .stop p => Act.stop p

/-- What a script does with a handle. -/
def HandleScript.signals (names : Names) (scope : Scope) :
    HandleScript → Handle → Act Store (List (Signal Store))
  | .complete outcome, handle => pure [.complete handle (filledExit scope outcome)]
  | .resume effect, handle => do
    return [.resume handle (← (effect.make names scope).orDie)]
  | .drop, handle => pure [.release handle]
  | .stop p, _ => Act.stop p
  | .hold name, handle => do
    match ← Store.hold name handle with
    | some earlier => return [.release earlier]
    | none => return []
  | .log remark next, handle => do
    Store.write (remark.fill scope)
    next.signals names scope handle
  | .after millis next, handle =>
    pure [.later millis handle (next.signals names scope handle)]
  | .outside next, handle => do
    match ← (next.signals names scope handle).attempt with
    | .ok signals => return signals
    | .error _ => return [.release handle]

/-- The layer that a script stands for. -/
def LayerScript.make (names : Names) (scope : Scope) : LayerScript → Making (Layer Store)
  | .ref name => Making.ofName name names.layers
  | .empty => do return Layer.empty (← Store.draw)
  | .succeed key v => do return Layer.succeed (← Store.draw) key (v.fill scope)
  | .effect key effect => do
    let effect ← effect.make names scope
    return Layer.ofEffect (← Store.draw) key effect
  | .count key counter => do
    return Layer.ofEffect (← Store.draw) key ((Leaf.count counter).effect scope)
  | .context context => do
    let registry ← context.make names scope
    return Layer.ofContext (← Store.draw) registry.context
  | .dependsOn layer keys => do
    let layer ← layer.make names scope
    keys.foldlM (fun layer key => do return Layer.dependsOn (← Store.draw) layer key) layer
  | .feed consumer supplier keepSupplier => do
    let consumer ← consumer.make names scope
    let supplier ← supplier.make names scope
    return Layer.feed (← Store.draw) consumer supplier keepSupplier
  | .merge left right => do
    let left ← left.make names scope
    let right ← right.make names scope
    Making.ofExcept (Layer.merge? (← Store.draw) left right)
  | .graph layers => do
    let layers ← makeLayers names scope layers
    Making.ofExcept (Layer.graph? (← Store.draw) layers)
  | .mapError layer f => do
    let layer ← layer.make names scope
    return Layer.mapFailure (← Store.draw) layer (f.apply scope)

/-- The layers that scripts stand for, made in order. -/
def makeLayers (names : Names) (scope : Scope) : List LayerScript → Making (List (Layer Store))
  | [] => pure []
  | layer :: rest => do
    let layer ← layer.make names scope
    return layer :: (← makeLayers names scope rest)
end

end Script

end EffectKernel
