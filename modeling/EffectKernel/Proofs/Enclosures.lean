import EffectKernel.Effect.Again
import EffectKernel.Effect.Many

/-!
# Operations around an Effect

An operation around an effect, which is one of those that it works on: its source, a child among
others, or what one of its functions makes. Whatever the operation is called, it is made of few
nodes, and each of them has the effect in one of a few holes (`Hole`). So what is to be known about
all operations around each other is proved for a hole, and then for holes around holes.

A function that makes the effect may make something else at other times. It is given as one that
may make an effect of its own, and where it makes none the effect is put in (`Effect.orPut`).

## Main definitions

* `Hole`: A place for an effect in a node.
* `Enclosure`: An operation around an effect.
* `Enclosure.plugAll`: Operations around operations around an effect.
* `Enclosure.holes`: The holes that an operation is made of.

## Theorems

* `Enclosure.fillAll_holes_plug`, `Enclosure.fillAll_holesOf`: Operations are nothing but their
  holes.
-/

namespace EffectKernel

variable {σ : Type}

/-- What a function makes, and where it makes nothing the effect that is given. -/
def Effect.orPut (next : Value → Act σ (Option (Effect σ))) (e : Effect σ) (v : Value) :
    Act σ (Effect σ) := do
  return (← next v).getD e

/-- The function that always makes the effect that is put in. -/
def always (_ : Value) : Act σ (Option (Effect σ)) :=
  pure none

/-- A place for an effect in a node, and all else that there is of the node. -/
inductive Hole (σ : Type) where
  | flatMap (next : Value → Act σ (Effect σ))
  | fold (onSuccess onFailure : Option (Value → Act σ (Effect σ)))
  | recur (schedule : Schedule) (mode : Recur) (filter : Option (Value → Act σ Bool))
  | provide (services : Context)
  | all (before after : List (Effect σ)) (collect : Collect) (parallel : Bool)
  | race (before after : List (Effect σ))
  /-- What the function after a source makes. -/
  | made (source : Effect σ) (next : Value → Act σ (Option (Effect σ)))
  /-- What the handler for values makes. -/
  | madeOfValue (source : Effect σ) (next : Value → Act σ (Option (Effect σ)))
      (onFailure : Option (Value → Act σ (Effect σ)))
  /-- What the handler for failures makes. -/
  | madeOfFailure (source : Effect σ) (onSuccess : Option (Value → Act σ (Effect σ)))
      (next : Value → Act σ (Option (Effect σ)))

namespace Hole

/-- The node with an effect in its hole. -/
def fill (e : Effect σ) : Hole σ → Effect σ
  | .flatMap next => .flatMap e next
  | .fold onSuccess onFailure => .fold e onSuccess onFailure
  | .recur schedule mode filter => .recur e schedule mode filter
  | .provide services => .provide e services
  | .all before after collect parallel => .all (before ++ e :: after) collect parallel
  | .race before after => .race (before ++ e :: after)
  | .made source next => .flatMap source (Effect.orPut next e)
  | .madeOfValue source next onFailure => .fold source (some (Effect.orPut next e)) onFailure
  | .madeOfFailure source onSuccess next => .fold source onSuccess (some (Effect.orPut next e))

/-- Nodes around each other with an effect put in, the innermost first. -/
def fillAll (holes : List (Hole σ)) (e : Effect σ) : Effect σ :=
  holes.foldl fill e

end Hole

/-- An operation around an effect, which is one of those it works on. -/
inductive Enclosure (σ : Type) where
  -- Around its source.
  | map (f : Value → Act σ Value)
  | tap (f : Value → Act σ Unit)
  | asValue (v : Value)
  | asUnit
  | andThen (next : Value → Act σ (Effect σ))
  | zipRight (other : Effect σ)
  | mapError (f : Value → Act σ Value)
  | tapError (f : Value → Act σ Unit)
  | catchAll (handler : Value → Act σ (Effect σ))
  | catchIf (test : Value → Act σ Bool) (handler : Value → Act σ (Effect σ))
  | catchTag (handler : TagHandler σ)
  | catchTags (handlers : List (TagHandler σ))
  | orElse (other : Act σ (Effect σ))
  | orElseFail (error : Act σ Value)
  | orElseSucceed (value : Act σ Value)
  | matchEffect (onSuccess onFailure : Value → Act σ (Effect σ))
  | matchExit (onSuccess onFailure : Value → Act σ Value)
  | either
  | flip
  | retry (schedule : Schedule)
  | retryWhile (schedule : Schedule) (test : Value → Act σ Bool)
  | repeated (schedule : Schedule)
  | provideService (key : ServiceKey) (service : Value)
  | provide (services : Context)
  -- Around one of the effects that it runs.
  | zip (other : Effect σ)
  | zipAfter (source : Effect σ)
  | zipWith (other : Effect σ) (f : Value → Value → Act σ Value)
  | zipWithAfter (source : Effect σ) (f : Value → Value → Act σ Value)
  | zipRightAfter (source : Effect σ)
  | allOf (before after : List (Effect σ))
  | allPar (before after : List (Effect σ))
  | allValidate (before after : List (Effect σ))
  | allEither (before after : List (Effect σ))
  | firstSuccessOf (before after : List (Effect σ))
  | race (before after : List (Effect σ))
  -- Around what one of its functions makes.
  | andThenTo (source : Effect σ) (next : Value → Act σ (Option (Effect σ)))
  | catchAllTo (source : Effect σ) (handler : Value → Act σ (Option (Effect σ)))
  | catchIfTo (source : Effect σ) (test : Value → Act σ Bool)
      (handler : Value → Act σ (Option (Effect σ)))
  | catchTagTo (source : Effect σ) (tag : String) (handler : Value → Act σ (Option (Effect σ)))
  | catchTagsTo (source : Effect σ) (before : List (TagHandler σ)) (tag : String)
      (handler : Value → Act σ (Option (Effect σ))) (after : List (TagHandler σ))
  | orElseTo (source : Effect σ) (other : Act σ (Option (Effect σ)))
  | matchSuccessTo (source : Effect σ) (onSuccess : Value → Act σ (Option (Effect σ)))
      (onFailure : Value → Act σ (Effect σ))
  | matchFailureTo (source : Effect σ) (onSuccess : Value → Act σ (Effect σ))
      (onFailure : Value → Act σ (Option (Effect σ)))

/-- Effects that are tried one after the other, the first of them given apart. -/
def Effect.tower (first : Effect σ) (rest : List (Effect σ)) : Effect σ :=
  rest.foldl (fun acc next => acc.catchAll fun _ => pure next) first

namespace Enclosure

/-- The operation with an effect put in. -/
def plug (e : Effect σ) : Enclosure σ → Effect σ
  | .map f => e.map f
  | .tap f => e.tap f
  | .asValue v => e.asValue v
  | .asUnit => e.asUnit
  | .andThen next => e.andThen next
  | .zipRight other => e.zipRight other
  | .mapError f => e.mapError f
  | .tapError f => e.tapError f
  | .catchAll handler => e.catchAll handler
  | .catchIf test handler => e.catchIf test handler
  | .catchTag handler => e.catchTag handler
  | .catchTags handlers => e.catchTags handlers
  | .orElse other => e.orElse other
  | .orElseFail error => e.orElseFail error
  | .orElseSucceed value => e.orElseSucceed value
  | .matchEffect onSuccess onFailure => e.matchEffect onSuccess onFailure
  | .matchExit onSuccess onFailure => e.matchExit onSuccess onFailure
  | .either => e.either
  | .flip => e.flip
  | .retry schedule => e.retry schedule
  | .retryWhile schedule test => e.retryWhile schedule test
  | .repeated schedule => e.repeated schedule
  | .provideService key service => e.provideService key service
  | .provide services => .provide e services
  | .zip other => e.zip other
  | .zipAfter source => source.zip e
  | .zipWith other f => e.zipWith other f
  | .zipWithAfter source f => source.zipWith e f
  | .zipRightAfter source => source.zipRight e
  | .allOf before after => Effect.allOf (before ++ e :: after)
  | .allPar before after => Effect.allPar (before ++ e :: after)
  | .allValidate before after => Effect.allValidate (before ++ e :: after)
  | .allEither before after => Effect.allEither (before ++ e :: after)
  | .firstSuccessOf [] after => Effect.tower e after
  | .firstSuccessOf (first :: before) after => Effect.tower first (before ++ e :: after)
  | .race before after => .race (before ++ e :: after)
  | .andThenTo source next => source.andThen (Effect.orPut next e)
  | .catchAllTo source handler => source.catchAll (Effect.orPut handler e)
  | .catchIfTo source test handler => source.catchIf test (Effect.orPut handler e)
  | .catchTagTo source tag handler => source.catchTag ⟨tag, Effect.orPut handler e⟩
  | .catchTagsTo source before tag handler after =>
    source.catchTags (before ++ ⟨tag, Effect.orPut handler e⟩ :: after)
  | .orElseTo source other => source.orElse (Effect.orPut (fun _ => other) e .null)
  | .matchSuccessTo source onSuccess onFailure =>
    source.matchEffect (Effect.orPut onSuccess e) onFailure
  | .matchFailureTo source onSuccess onFailure =>
    source.matchEffect onSuccess (Effect.orPut onFailure e)

/-- Operations around each other with an effect put in, the innermost first. -/
def plugAll (operations : List (Enclosure σ)) (e : Effect σ) : Effect σ :=
  operations.foldl plug e

/-- Goes on from the ends of children that have been collected. -/
def endsHole (next : List (Either Value Value) → Act σ (Effect σ)) : Hole σ :=
  .flatMap fun v =>
    match Outcome.listOf? v with
    | some ends => next ends
    | none => pure (.die (.typeMismatch "the ends of children"))

/-- Goes on from the ends of two children. -/
def pairHole (f : Value → Value → Act σ Value) : Hole σ :=
  endsHole fun ends =>
    match ends with
    | [.right v, .right w] => do return .succeed (← f v w)
    | _ => pure (.die (.typeMismatch "two successful outcomes"))

/-- The holes of effects that are tried after another one. -/
def towerHoles (rest : List (Effect σ)) : List (Hole σ) :=
  rest.map fun next => .fold none (some fun _ => pure next)

/-- What a handler makes for the failures that it is for; other failures are left as they are. -/
def guardedBy (test : Value → Act σ Bool) (handler : Value → Act σ (Option (Effect σ)))
    (v : Value) : Act σ (Option (Effect σ)) := do
  if ← test v then handler v else return some (.fail v)

/-- What the first handler for a tag makes, where one among others may make nothing. -/
def firstOf (before : List (TagHandler σ)) (tag : String)
    (handler : Value → Act σ (Option (Effect σ))) (after : List (TagHandler σ)) (v : Value) :
    Act σ (Option (Effect σ)) :=
  match before.find? fun other => other.tag == v.tag with
  | some other => do return some (← other.handle v)
  | none =>
    if tag == v.tag then handler v
    else
      match after.find? fun other => other.tag == v.tag with
      | some other => do return some (← other.handle v)
      | none => pure (some (.fail v))

/-- The holes that an operation is made of, the innermost first. -/
def holes : Enclosure σ → List (Hole σ)
  | .map f => [.flatMap fun v => do return .succeed (← f v)]
  | .tap f => [.flatMap fun v => do return .succeed (← (do f v; return v : Act σ Value))]
  | .asValue v => [.flatMap fun _ => do return .succeed (← pure v)]
  | .asUnit => [.flatMap fun _ => do return .succeed (← pure .null)]
  | .andThen next => [.flatMap next]
  | .zipRight other => [.flatMap fun _ => pure other]
  | .mapError f => [.fold none (some fun e => do return .fail (← f e))]
  | .tapError f => [.fold none (some fun e => do return .fail (← (do f e; return e : Act σ Value)))]
  | .catchAll handler => [.fold none (some handler)]
  | .catchIf test handler =>
    [.fold none (some fun e => do if ← test e then handler e else return .fail e)]
  | .catchTag handler =>
    [.fold none (some fun e => do
      if ← pure (e.tag == handler.tag) then handler.handle e else return .fail e)]
  | .catchTags handlers =>
    [.fold none (some fun e =>
      match handlers.find? fun handler => handler.tag == e.tag with
      | some handler => handler.handle e
      | none => pure (.fail e))]
  | .orElse other => [.fold none (some fun _ => other)]
  | .orElseFail error => [.fold none (some fun _ => do return .fail (← error))]
  | .orElseSucceed value => [.fold none (some fun _ => do return .succeed (← value))]
  | .matchEffect onSuccess onFailure => [.fold (some onSuccess) (some onFailure)]
  | .matchExit onSuccess onFailure =>
    [.fold (some fun v => do return .succeed (← onSuccess v))
      (some fun e => do return .succeed (← onFailure e))]
  | .either =>
    [.fold (some fun v => do return .succeed (← pure (Outcome.ofEither (.right v))))
      (some fun e => do return .succeed (← pure (Outcome.ofEither (.left e))))]
  | .flip => [.fold (some fun v => pure (.fail v)) (some fun e => pure (.succeed e))]
  | .retry schedule => [.recur schedule .retry none]
  | .retryWhile schedule test => [.recur schedule .retry (some test)]
  | .repeated schedule => [.recur schedule .repeating none]
  | .provideService key service => [.provide (Context.single key service)]
  | .provide services => [.provide services]
  | .zip other => [.all [] [other] .shortCircuit false, pairHole fun v w => pure (.pair v w)]
  | .zipAfter source => [.all [source] [] .shortCircuit false, pairHole fun v w => pure (.pair v w)]
  | .zipWith other f => [.all [] [other] .shortCircuit false, pairHole f]
  | .zipWithAfter source f => [.all [source] [] .shortCircuit false, pairHole f]
  | .zipRightAfter source => [.made source always]
  | .allOf before after =>
    [.all before after .shortCircuit false, endsHole fun ends => pure (Effect.successes ends)]
  | .allPar before after =>
    [.all before after .shortCircuit true, endsHole fun ends => pure (Effect.successes ends)]
  | .allValidate before after =>
    [.all before after .every false, endsHole fun ends =>
      if ends.all Either.isRight then pure (Effect.successes ends)
      else pure (.fail (.list (ends.map fun e => Value.ofOption e.left?)))]
  | .allEither before after =>
    [.all before after .every false, endsHole fun ends => pure (.succeed (Outcome.toList ends))]
  | .firstSuccessOf [] after => towerHoles after
  | .firstSuccessOf (first :: before) after =>
    .madeOfFailure (Effect.tower first before) none always :: towerHoles after
  | .race before after => [.race before after]
  | .andThenTo source next => [.made source next]
  | .catchAllTo source handler => [.madeOfFailure source none handler]
  | .catchIfTo source test handler => [.madeOfFailure source none (guardedBy test handler)]
  | .catchTagTo source tag handler =>
    [.madeOfFailure source none (guardedBy (fun e => pure (e.tag == tag)) handler)]
  | .catchTagsTo source before tag handler after =>
    [.madeOfFailure source none (firstOf before tag handler after)]
  | .orElseTo source other => [.madeOfFailure source none fun _ => other]
  | .matchSuccessTo source onSuccess onFailure => [.madeOfValue source onSuccess (some onFailure)]
  | .matchFailureTo source onSuccess onFailure => [.madeOfFailure source (some onSuccess) onFailure]

/-- The holes of operations around each other. -/
def holesOf (operations : List (Enclosure σ)) : List (Hole σ) :=
  operations.flatMap holes

/-- To fill the holes of a tower is to put the effect at its bottom. -/
theorem fillAll_towerHoles (e : Effect σ) (rest : List (Effect σ)) :
    Hole.fillAll (towerHoles rest) e = Effect.tower e rest := by
  unfold towerHoles
  induction rest generalizing e with
  | nil => rfl
  | cons next rest ih => exact ih (e.catchAll fun _ => pure next)

/-- A tower is one of handlers above any effect in it. -/
theorem tower_append (first : Effect σ) (before after : List (Effect σ)) (e : Effect σ) :
    Effect.tower first (before ++ e :: after) =
      Effect.tower ((Effect.tower first before).catchAll fun _ => pure e) after := by
  unfold Effect.tower
  rw [List.foldl_append, List.foldl_cons]

/-- Putting an effect in where a handler makes none, and then leaving other failures alone, is the
    same as the other way round. -/
theorem orPut_guardedBy (test : Value → Act σ Bool) (handler : Value → Act σ (Option (Effect σ)))
    (e : Effect σ) :
    Effect.orPut (guardedBy test handler) e = fun v => do
      if ← test v then Effect.orPut handler e v else return .fail v := by
  funext v
  refine congrArg Act.mk (funext fun s => ?_)
  simp only [guardedBy, Act.run_bind]
  rcases (test v).run s with ⟨p | yes, s₁⟩
  · rfl
  · cases yes <;> rfl

/-- To put an effect where one of several handlers makes none of its own is to put it there for this
    handler alone. -/
theorem orPut_firstOf (before : List (TagHandler σ)) (tag : String)
    (handler : Value → Act σ (Option (Effect σ))) (after : List (TagHandler σ)) (e : Effect σ) :
    Effect.orPut (firstOf before tag handler after) e = fun v =>
      match (before ++ ⟨tag, Effect.orPut handler e⟩ :: after).find? fun other =>
          other.tag == v.tag with
      | some other => other.handle v
      | none => pure (.fail v) := by
  -- A handler that does make an effect is not asked to make way for `e`.
  have kept : ∀ (act : Act σ (Effect σ)) (s : σ),
      (do return (← (do return some (← act) : Act σ (Option (Effect σ)))).getD e :
        Act σ (Effect σ)).run s = act.run s := by
    intro act s
    simp only [Act.run_bind]
    rcases act.run s with ⟨p | made, s₁⟩ <;> rfl
  funext v
  refine congrArg Act.mk (funext fun s => ?_)
  -- The first handler with the tag is in front, is the one in the middle, or comes after it.
  rw [List.find?_append]
  unfold Effect.orPut firstOf
  cases before.find? fun other => other.tag == v.tag with
  | some other =>
      simp only [Option.some_or]
      exact kept _ s
  | none =>
      by_cases mine : (tag == v.tag) = true
      · simp only [mine, if_true, List.find?_cons_of_pos, Option.none_or]
        rfl
      · simp only [mine, if_false, List.find?_cons_of_neg, Option.none_or,
          not_false_eq_true, Bool.false_eq_true]
        cases after.find? fun other => other.tag == v.tag with
        | none => rfl
        | some other => exact kept _ s

/-- An operation is nothing but its holes. -/
theorem fillAll_holes_plug (operation : Enclosure σ) (e : Effect σ) :
    Hole.fillAll operation.holes e = operation.plug e := by
  -- Most operations are filled as they are written; the towers and the tag handlers are built by a
  -- recursion or a lookup of their own.
  cases operation with
  | firstSuccessOf before after =>
      cases before with
      | nil => exact fillAll_towerHoles e after
      | cons first before =>
          rw [plug, tower_append]
          exact fillAll_towerHoles ((Effect.tower first before).catchAll fun _ => pure e) after
  | catchIfTo source test handler =>
      exact congrArg (fun made => Effect.fold source none (some made))
        (orPut_guardedBy test handler e)
  | catchTagTo source tag handler =>
      exact congrArg (fun made => Effect.fold source none (some made))
        (orPut_guardedBy (fun v => pure (v.tag == tag)) handler e)
  | catchTagsTo source before tag handler after =>
      exact congrArg (fun made => Effect.fold source none (some made))
        (orPut_firstOf before tag handler after e)
  | _ => rfl

/-- Operations are nothing but their holes. -/
theorem fillAll_holesOf (operations : List (Enclosure σ)) (e : Effect σ) :
    Hole.fillAll (holesOf operations) e = plugAll operations e := by
  induction operations generalizing e with
  | nil => rfl
  | cons operation rest ih =>
      rw [plugAll, List.foldl_cons, ← fillAll_holes_plug]
      refine Eq.trans ?_ (ih _)
      unfold holesOf Hole.fillAll
      rw [List.flatMap_cons, List.foldl_append]

end Enclosure

end EffectKernel
