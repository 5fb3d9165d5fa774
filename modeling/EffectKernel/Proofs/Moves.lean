import EffectKernel.Fiber.Drive
import EffectKernel.Proofs.Reduction
import Mathlib.Data.List.Nodup

/-!
# Moves of Fibers

A turn of a fiber, seen step by step. A turn is a function of the kernel: it says in which
order the fibers inside a fiber have their turns, and when it is over. Here all of that is
left open. Any fiber in the tree takes a step when it can, and the queue may change at any
time. So there are more moves than there are turns, and what holds of every row of moves
holds in whatever order turns are given. A turn is such a row (`turn_moves`).

What happens to handles is put down as marks. A mark says that a handle was given out to wait
for at some place, that its holder used it or let it go, that the function it was given to
panicked, that the place went on, or that the fiber went away.

Moves leave callbacks alone, and the tasks that there are: all they do to tasks is to add
some (`Move.grows`).

## Main definitions

* `Mark`: Something that happens to a handle.
* `Fiber.Move`, `Fiber.Moves`: Steps of a fiber, with the marks that they leave.
* `Kernel.Grows`: What steps of a fiber leave alone.

## Theorems

* `Fiber.turn_moves`: A turn is a number of moves.
* `Fiber.Move.grows`, `Fiber.Moves.grows`: Callbacks and tasks stay as they are.
-/

namespace EffectKernel

variable {σ : Type}

/-- Something that happens to a handle. -/
inductive Mark (σ : Type) where
  /-- It is given out, and a fiber waits for it at a point. -/
  | opened (handle : Handle) (point : Suspension σ)
  /-- The holder uses it. -/
  | used (handle : Handle) (resumption : Resumption σ)
  /-- The holder lets it go. -/
  | released (handle : Handle)
  /-- The function that it was given to panics, and the fiber goes on as given. -/
  | panicked (handle : Handle) (m : Machine σ)
  /-- The fiber goes on as given. -/
  | resumed (handle : Handle) (m : Machine σ)
  /-- The fiber goes away. -/
  | left (handle : Handle)

/-- What a holder does with a handle now, as marks. -/
def Signal.marks : Signal σ → List (Mark σ)
  | .complete handle x => [.used handle (.outcome x)]
  | .resume handle e => [.used handle (.effect e)]
  | .release handle => [.released handle]
  | .later _ _ _ => []

/-- The marks left when a machine gets what it asks for. -/
def Kernel.grantMarks (k : Kernel σ) (request : Request σ) (point : Suspension σ) :
    List (Mark σ) :=
  match request with
  | .listen register =>
    let handle := k.fresh
    .opened handle point ::
      match (k.world.guarded (register handle)).1 with
      | .ok (signals, none) => signals.flatMap Signal.marks
      | .ok (signals, some p) =>
        signals.flatMap Signal.marks ++
          [.panicked handle (point.resume (.unwind (.die (.ofPanic p))))]
      | .error d => [.panicked handle (point.resume (.unwind (.die d)))]
  | _ => []

/-- Waking changes nothing but the queue. -/
theorem Kernel.wakeOne_eq (k : Kernel σ) (id : FiberId) :
    ∃ woken, k.wakeOne id = { k with woken := woken } := by
  unfold wakeOne
  split
  · exact ⟨k.woken, rfl⟩
  · exact ⟨_, rfl⟩

theorem Kernel.wake_eq (k : Kernel σ) (path : Path) :
    ∃ woken, k.wake path = { k with woken := woken } := by
  unfold wake
  induction path generalizing k with
  | nil => exact ⟨k.woken, rfl⟩
  | cons id rest ih =>
      rcases k.wakeOne_eq id with ⟨woken, heq⟩
      rcases ih (k.wakeOne id) with ⟨woken', heq'⟩
      exact ⟨woken', by rw [List.foldl_cons, heq', heq]⟩

/-- One of some items with different numbers, with those in front of it and those behind. Those
    are neither replaced nor dropped with it. -/
theorem split_of_find? {α : Type} {key : α → Nat} {id : Nat} {items : List α} {item : α}
    (apart : (items.map key).Nodup) (found : items.find? (key · == id) = some item) :
    ∃ front back, items = front ++ item :: back ∧
      (∀ f : α → α, (items.map fun i => if key i == id then f i else i) =
        front ++ f item :: back) ∧
      items.filter (key · != id) = front ++ back := by
  rcases List.find?_eq_some_iff_append.1 found with ⟨hid, front, back, rfl, hfront⟩
  have heq : key item = id := by simpa using hid
  -- No other item has the key, neither in front nor behind.
  have before : ∀ i ∈ front, key i ≠ id := fun i hi => by simpa using hfront i hi
  have after : ∀ i ∈ back, key i ≠ id := by
    rw [List.map_append, List.map_cons, heq] at apart
    have distinct := (List.nodup_cons.1 (List.nodup_append.1 apart).2.1).1
    exact fun i hi hkey => distinct (List.mem_map.2 ⟨i, hi, hkey⟩)
  have kept : ∀ {others : List α}, (∀ i ∈ others, key i ≠ id) →
      (∀ f : α → α, (others.map fun i => if key i == id then f i else i) = others) ∧
        others.filter (key · != id) = others := by
    intro others hothers
    refine ⟨fun f => ?_, List.filter_eq_self.2 fun i hi => by simpa using hothers i hi⟩
    refine (List.map_congr_left fun i hi => ?_).trans (List.map_id _)
    simp [hothers i hi]
  refine ⟨front, back, rfl, fun f => ?_, ?_⟩
  · rw [List.map_append, List.map_cons, (kept before).1 f, (kept after).1 f]
    simp [heq]
  · rw [List.filter_append, List.filter_cons_of_neg (by simp [heq]), (kept before).2,
      (kept after).2]

namespace Fiber

/-- A step of the fiber at a path, or of a fiber inside it, with the marks that it leaves. -/
inductive Move (settings : Settings) : Path → Fiber σ → Kernel σ → List (Mark σ) →
    Fiber σ → Kernel σ → Prop where
  /-- The machine takes a step. -/
  | step {path m m' k w} (step : m.step settings k.world = (.next m', w)) :
      Move settings path (.ready m) k [] (.ready m') { k with world := w }
  /-- The machine gets what it asks for. -/
  | ask {path m request point k w}
      (step : m.step settings k.world = (.ask request point, w)) :
      Move settings path (.ready m) k
        (({ k with world := w } : Kernel σ).grantMarks request point)
        (({ k with world := w } : Kernel σ).grant path request point).1
        (({ k with world := w } : Kernel σ).grant path request point).2
  /-- The time has come. -/
  | rise {path wake m k} (due : wake ≤ k.now) :
      Move settings path (.asleep wake m) k [] (.ready m) k
  /-- The others have had their turn. -/
  | goOn {path m k} : Move settings path (.yielded m) k [] (.ready m) k
  /-- Something has been done with the handle. -/
  | collect {path handle point focus k k'} (found : k.collect? handle = some (focus, k')) :
      Move settings path (.listening handle point) k
        [.resumed handle (point.resume focus)] (.ready (point.resume focus)) k'
  /-- Nothing has been done with the handle. -/
  | look {path handle point k} (waits : k.collect? handle = none) :
      Move settings path (.listening handle point) k []
        (.listening handle point) (k.setSlot handle (.waiting path))
  /-- The fiber with a limit takes a step. -/
  | within {path limit deadline inner inner' point k k' marks}
      (move : Move settings path inner k marks inner' k') :
      Move settings path (.limited limit deadline inner point) k marks
        (.limited limit deadline inner' point) k'
  /-- The fiber with a limit has ended. -/
  | inTime {path limit deadline x env' point k} :
      Move settings path (.limited limit deadline (.ready ⟨.unwind x, env', []⟩) point) k []
        (.ready (point.resume (.unwind (EffectKernel.inTime x)))) k
  /-- The fiber with a limit is cut off. -/
  | expire {path limit deadline inner point k} (due : deadline ≤ k.now) :
      Move settings path (.limited limit deadline inner point) k
        (inner.handles.map .left)
        (.ready (point.resume (.unwind (.success (Value.ofOption none)))))
        ((k.leaveAll inner.handles).report (.timedOut limit))
  /-- One of the fibers side by side takes a step. -/
  | child {path join children id position child child' point k k' marks}
      (mem : children.find? (·.1 == id) = some (id, position, child))
      (move : Move settings (id :: path) child k marks child' k') :
      Move settings path (.joining join children point) k marks
        (.joining join (withChild id child' children) point) k'
  /-- One of them has ended, and the whole goes on. -/
  | absorb {path join join' children id position x env' point k}
      (mem : children.find? (·.1 == id) = some (id, position, .ready ⟨.unwind x, env', []⟩))
      (more : join.absorb position x = .right join') :
      Move settings path (.joining join children point) k []
        (.joining join' (withoutChild id children) point) k
  /-- One of them has ended, which decides the whole. -/
  | decide {path join children id position x y env' point k}
      (mem : children.find? (·.1 == id) = some (id, position, .ready ⟨.unwind x, env', []⟩))
      (decided : join.absorb position x = .left y) :
      Move settings path (.joining join children point) k
        ((handlesEach (withoutChild id children)).map .left) (.ready (point.resume (.unwind y)))
        (k.leaveAll (handlesEach (withoutChild id children)))
  /-- All of them have ended. -/
  | gathered {path join point k} :
      Move settings path (.joining join [] point) k []
        (.ready (point.resume (.unwind join.outcome))) k
  /-- The queue changes. -/
  | queue {path fiber k woken} :
      Move settings path fiber k [] fiber { k with woken := woken }

/-- Steps of the fiber at a path one after the other, with all the marks that they leave. -/
inductive Moves (settings : Settings) (path : Path) : Fiber σ → Kernel σ → List (Mark σ) →
    Fiber σ → Kernel σ → Prop where
  /-- No step. -/
  | none {fiber k} : Moves settings path fiber k [] fiber k
  /-- A step, and others after it. -/
  | more {fiber fiber₁ fiber' k k₁ k' marks marks'}
      (first : Move settings path fiber k marks fiber₁ k₁)
      (rest : Moves settings path fiber₁ k₁ marks' fiber' k') :
      Moves settings path fiber k (marks ++ marks') fiber' k'

namespace Moves

variable {settings : Settings} {path : Path} {fiber fiber₁ fiber' : Fiber σ} {k k₁ k' : Kernel σ}
  {marks marks' : List (Mark σ)}

theorem one (move : Move settings path fiber k marks fiber' k') :
    Moves settings path fiber k marks fiber' k' := by
  have moves := more move none
  rwa [List.append_nil] at moves

theorem trans (first : Moves settings path fiber k marks fiber₁ k₁)
    (rest : Moves settings path fiber₁ k₁ marks' fiber' k') :
    Moves settings path fiber k (marks ++ marks') fiber' k' := by
  induction first with
  | none => exact rest
  | more move _ ih =>
      rw [List.append_assoc]
      exact more move (ih rest)

/-- A step that leaves no mark, and others after it. -/
theorem quiet (first : Move settings path fiber k [] fiber₁ k₁)
    (rest : Moves settings path fiber₁ k₁ marks fiber' k') :
    Moves settings path fiber k marks fiber' k' :=
  more first rest

/-- The queue changes, and there are steps after it. -/
theorem queued {woken : List FiberId}
    (rest : Moves settings path fiber { k with woken := woken } marks fiber' k') :
    Moves settings path fiber k marks fiber' k' :=
  more .queue rest

/-- The steps of a fiber that has a limit. -/
theorem within {limit : Duration} {deadline : Nat} {point : Suspension σ}
    (moves : Moves settings path fiber k marks fiber' k') :
    Moves settings path (.limited limit deadline fiber point) k marks
      (.limited limit deadline fiber' point) k' := by
  induction moves with
  | none => exact none
  | more move _ ih => exact more (.within move) ih

end Moves

section Children

variable {id : FiberId} {position : Nat} {fiber fiber' : Fiber σ}
  {children : List (FiberId × Nat × Fiber σ)}

/-- The fiber that has taken the place of another one is there. -/
theorem find?_withChild (mem : children.find? (·.1 == id) = some (id, position, fiber))
    (fiber' : Fiber σ) :
    (withChild id fiber' children).find? (·.1 == id) = some (id, position, fiber') := by
  induction children with
  | nil => cases mem
  | cons child rest ih =>
      rcases child with ⟨i, p, f⟩
      -- The child replaced is the one that is found, at the head or further back.
      by_cases hi : i = id
      · subst hi
        simp only [List.find?_cons, beq_self_eq_true] at mem
        cases mem
        simp [withChild]
      · have hne : (i == id) = false := by simpa using hi
        simp only [List.find?_cons, hne] at mem
        have hrest := ih mem
        unfold withChild at hrest ⊢
        simp only [List.map_cons, hne, Bool.false_eq_true, if_false, List.find?_cons]
        exact hrest

/-- The latest one to take the place stays. -/
theorem withChild_withChild (id : FiberId) (fiber fiber' : Fiber σ)
    (children : List (FiberId × Nat × Fiber σ)) :
    withChild id fiber' (withChild id fiber children) = withChild id fiber' children := by
  unfold withChild
  rw [List.map_map]
  refine List.map_congr_left fun child _ => ?_
  by_cases hi : child.1 = id
  · simp [hi]
  · simp [hi]

/-- When the fiber is gone it does not matter which one it was. -/
theorem withoutChild_withChild (id : FiberId) (fiber : Fiber σ)
    (children : List (FiberId × Nat × Fiber σ)) :
    withoutChild id (withChild id fiber children) = withoutChild id children := by
  induction children with
  | nil => rfl
  | cons child rest ih =>
      unfold withoutChild withChild at ih ⊢
      by_cases hi : child.1 = id
      · simp only [List.map_cons, hi, beq_self_eq_true, if_true, List.filter_cons,
          bne_self_eq_false, Bool.false_eq_true, if_false, ih]
      · simp only [List.map_cons, beq_eq_false_iff_ne.2 hi, Bool.false_eq_true, if_false,
          List.filter_cons, bne_iff_ne.2 hi, if_true, ih]

/-- One of the fibers side by side, if all of them have different numbers, with those in
    front of it and those behind. -/
theorem split_children (apart : (children.map (·.1)).Nodup)
    (mem : children.find? (·.1 == id) = some (id, position, fiber)) :
    ∃ front back, children = front ++ (id, position, fiber) :: back ∧
      (∀ fiber', withChild id fiber' children = front ++ (id, position, fiber') :: back) ∧
      withoutChild id children = front ++ back := by
  rcases split_of_find? apart mem with ⟨front, back, hsplit, hwith, hwithout⟩
  exact ⟨front, back, hsplit, fun fiber' => hwith fun child => (id, child.2.1, fiber'), hwithout⟩

end Children

/-- The steps of one of the fibers side by side. -/
theorem Moves.child {settings : Settings} {path : Path} {join : Join} {id : FiberId}
    {position : Nat} {child child' : Fiber σ} {children : List (FiberId × Nat × Fiber σ)}
    {point : Suspension σ} {k k' : Kernel σ} {marks : List (Mark σ)}
    (mem : children.find? (·.1 == id) = some (id, position, fiber))
    (moves : Moves settings (id :: path) child k marks child' k') :
    Moves settings path (.joining join (withChild id child children) point) k marks
      (.joining join (withChild id child' children) point) k' := by
  induction moves with
  | none => exact none
  | @more child child₁ _ k k₁ _ marks _ move _ ih =>
      -- Each move is one of the child as it stands in the list after the moves before.
      have first : Move settings path (.joining join (withChild id child children) point) k
          marks (.joining join (withChild id child₁ (withChild id child children)) point) k₁ :=
        .child (find?_withChild mem child) move
      rw [withChild_withChild] at first
      exact more first ih

/-- A turn of a fiber is a number of moves. -/
def TurnMoves (settings : Settings) (path : Path) (fiber : Fiber σ) (k : Kernel σ) :
    Turn σ × Kernel σ → Prop
  | (.ended x, k') =>
    ∃ marks env, Moves settings path fiber k marks (.ready ⟨.unwind x, env, []⟩) k'
  | (.waiting fiber', k') => ∃ marks, Moves settings path fiber k marks fiber' k'
  | (.exhausted, _) => True

/-- The turns of fibers side by side are a number of moves. -/
def TurnEachMoves (settings : Settings) (path : Path) (join : Join)
    (children : List (FiberId × Nat × Fiber σ)) (k : Kernel σ) :
    JoinTurn σ × Kernel σ → Prop
  | (.ended x, k') => ∀ point, ∃ marks, Moves settings path
      (.joining join children point) k marks (.ready (point.resume (.unwind x))) k'
  | (.waiting join' children', k') => ∀ point, ∃ marks, Moves settings path
      (.joining join children point) k marks (.joining join' children' point) k'
  | (.exhausted, _) => True

section TurnMoves

variable {settings : Settings} {path : Path} {fiber fiber₁ : Fiber σ} {k k₁ : Kernel σ}
  {marks : List (Mark σ)} {r : Turn σ × Kernel σ}

/-- A turn that goes on from where some moves have led. -/
theorem TurnMoves.after (moves : Moves settings path fiber k marks fiber₁ k₁)
    (turn : TurnMoves settings path fiber₁ k₁ r) : TurnMoves settings path fiber k r := by
  rcases r with ⟨_ | _ | _, k'⟩
  · rcases turn with ⟨marks', env, rest⟩
    exact ⟨_, env, moves.trans rest⟩
  · rcases turn with ⟨marks', rest⟩
    exact ⟨_, moves.trans rest⟩
  · trivial

/-- What children do in the rest of a round comes after what they have done in it so far. -/
theorem TurnEachMoves.after {join join₁ : Join}
    {children children₁ : List (FiberId × Nat × Fiber σ)} {r : JoinTurn σ × Kernel σ}
    (moves : ∀ point, ∃ marks, Moves settings path (.joining join children point) k marks
      (.joining join₁ children₁ point) k₁)
    (turn : TurnEachMoves settings path join₁ children₁ k₁ r) :
    TurnEachMoves settings path join children k r := by
  rcases r with ⟨_ | _ | _, k'⟩
  · intro point
    rcases moves point with ⟨_, first⟩
    rcases turn point with ⟨_, rest⟩
    exact ⟨_, first.trans rest⟩
  · intro point
    rcases moves point with ⟨_, first⟩
    rcases turn point with ⟨_, rest⟩
    exact ⟨_, first.trans rest⟩
  · trivial

end TurnMoves

/-- The next fiber to have its turn is one of those side by side. -/
theorem find?_of_firstWoken? {k : Kernel σ} {children : List (FiberId × Nat × Fiber σ)}
    {id : FiberId} {position : Nat} {fiber : Fiber σ}
    (h : k.firstWoken? children = some (id, position, fiber)) :
    children.find? (·.1 == id) = some (id, position, fiber) := by
  unfold Kernel.firstWoken? at h
  rcases List.exists_of_findSome?_eq_some h with ⟨i, -, hi⟩
  have heq : id = i := by simpa using List.find?_some hi
  subst heq
  exact hi

section Succ

variable {settings : Settings} {fuel : Nat}
  (one : ∀ path (fiber : Fiber σ) k,
    TurnMoves settings path fiber k (fiber.turn settings fuel path k))
  (each : ∀ path join (children : List (FiberId × Nat × Fiber σ)) waiting gaveWay count k,
    TurnEachMoves settings path join children k
      (turnEach settings fuel path join children waiting gaveWay count k))
include one each

/-- A turn with one step more is a number of moves, if turns are and the turns of fibers side by
    side are. -/
theorem turn_moves_succ (path : Path) (fiber : Fiber σ) (k : Kernel σ) :
    TurnMoves settings path fiber k (fiber.turn settings (fuel + 1) path k) := by
  -- Each case of a turn is a move, followed by what the shorter turn makes of it.
  cases fiber with
  | ready m =>
      unfold turn
      rcases hstep : m.step settings k.world with ⟨m' | x | ⟨request, point⟩, w⟩
      · exact (one path (.ready m') _).after (.one (.step hstep))
      · -- Only an outcome that no frame is left to take is the end.
        rcases Machine.handing_of_done hstep with ⟨⟨y, hfocus⟩, hstack⟩
        rcases m with ⟨focus, env, stack⟩
        dsimp only at hfocus hstack
        subst hfocus hstack
        cases hstep
        exact ⟨[], env, .none⟩
      · have asked := Moves.one (@Move.ask σ settings path _ _ _ _ _ hstep)
        cases request with
        | giveWay focus => exact ⟨_, asked⟩
        | _ => exact (one path _ _).after asked
  | asleep wake m =>
      unfold turn
      by_cases due : wake ≤ k.now
      · rw [if_pos due]
        exact (one path (.ready m) k).after (.one (.rise due))
      · rw [if_neg due]
        exact ⟨[], .none⟩
  | yielded m =>
      unfold turn
      exact (one path (.ready m) k).after (.one .goOn)
  | listening handle point =>
      unfold turn
      rcases found : k.collect? handle with _ | ⟨focus, k'⟩
      · exact ⟨_, .one (.look found)⟩
      · exact (one path _ k').after (.one (.collect found))
  | limited limit deadline inner point =>
      unfold turn
      have inside := one path inner k
      rcases hinner : turn settings fuel path inner k with ⟨x | inner' | _, k₁⟩
      · rw [hinner] at inside
        rcases inside with ⟨marks, env', moves⟩
        exact (one path _ k₁).after (moves.within.trans (.one .inTime))
      · rw [hinner] at inside
        rcases inside with ⟨marks, moves⟩
        dsimp only
        by_cases due : deadline ≤ k₁.now
        · rw [if_pos due]
          exact (one path _ _).after (moves.within.trans (.one (.expire due)))
        · rw [if_neg due]
          exact ⟨_, moves.within⟩
      · trivial
  | joining join children point =>
      unfold turn
      have inside := each path join children 0 0 children.length k
      rcases hinner : turnEach settings fuel path join children 0 0 children.length k with
        ⟨x | ⟨join', children'⟩ | _, k₁⟩
      · rw [hinner] at inside
        rcases inside point with ⟨marks, moves⟩
        exact (one path _ k₁).after moves
      · rw [hinner] at inside
        rcases inside point with ⟨marks, moves⟩
        exact ⟨_, moves⟩
      · trivial

/-- So are the turns of fibers side by side with one step more. -/
theorem turnEach_moves_succ (path : Path) (join : Join) (children : List (FiberId × Nat × Fiber σ))
    (waiting gaveWay count : Nat) (k : Kernel σ) :
    TurnEachMoves settings path join children k
      (turnEach settings (fuel + 1) path join children waiting gaveWay count k) := by
  unfold turnEach
  rcases first : k.firstWoken? children with _ | ⟨id, position, fiber⟩
  · cases children with
    | nil => exact fun point => ⟨_, .one .gathered⟩
    | cons child rest => exact fun point => ⟨_, .none⟩
  · have mem := find?_of_firstWoken? first
    have inside := one (id :: path) fiber (k.unwake id)
    -- The fiber is taken out of the queue and then takes its steps.
    have begun : ∀ point, Move settings path (.joining join children point) k []
        (.joining join (withChild id fiber children) point) (k.unwake id) :=
      fun point => .child mem .queue
    rcases hturn : turn settings fuel (id :: path) fiber (k.unwake id) with
      ⟨x | fiber' | _, k₁⟩
    · rw [hturn] at inside
      rcases inside with ⟨marks, env', moves⟩
      have ended : ∀ point, Moves settings path (.joining join children point) k
          marks (.joining join (withChild id (.ready ⟨.unwind x, env', []⟩) children)
            point) k₁ :=
        fun point => .quiet (begun point) (.child mem moves)
      have there := find?_withChild mem (.ready ⟨.unwind x, env', []⟩)
      rcases habsorb : join.absorb position x with y | join'
      · simp only [hturn, habsorb]
        intro point
        rw [← withoutChild_withChild id (.ready ⟨.unwind x, env', []⟩) children]
        exact ⟨_, (ended point).trans (.one (.decide there habsorb))⟩
      · simp only [hturn, habsorb]
        rw [← withoutChild_withChild id (.ready ⟨.unwind x, env', []⟩) children]
        exact (each path join' _ _ _ _ k₁).after fun point =>
          ⟨_, (ended point).trans (.one (.absorb there habsorb))⟩
    · rw [hturn] at inside
      rcases inside with ⟨marks, moves⟩
      have waits : ∀ point, Moves settings path (.joining join children point) k
          marks (.joining join (withChild id fiber' children) point) k₁ :=
        fun point => .quiet (begun point) (.child mem moves)
      simp only [hturn]
      generalize (if k₁.isWoken id = true then gaveWay + 1 else gaveWay) = gave
      by_cases full : 2 ≤ gave ∨ waiting + 1 = count
      · rw [if_pos full]
        have last : ∀ point, Moves settings path
            (.joining join (withChild id fiber' children) point) k₁ []
            (.joining join (withChild id fiber' children) point) (k₁.wake path) := by
          intro point
          rcases Kernel.wake_eq k₁ path with ⟨woken, heq⟩
          rw [heq]
          exact .one .queue
        exact fun point => ⟨_, (waits point).trans (last point)⟩
      · rw [if_neg full]
        exact (each path join _ _ _ _ k₁).after fun point => ⟨_, waits point⟩
    · simp only [hturn]
      trivial

end Succ

/-- A turn is a number of moves, and so are the turns of fibers side by side. The induction
    is on the number of steps that the turn may take. -/
theorem turn_moves (settings : Settings) (fuel : Nat) :
    (∀ path (fiber : Fiber σ) k,
      TurnMoves settings path fiber k (fiber.turn settings fuel path k)) ∧
    ∀ path join (children : List (FiberId × Nat × Fiber σ)) waiting gaveWay count k,
      TurnEachMoves settings path join children k
        (turnEach settings fuel path join children waiting gaveWay count k) := by
  induction fuel with
  | zero =>
      refine ⟨fun _ fiber _ => ?_, fun _ _ _ _ _ _ _ => ?_⟩
      · rw [turn]
        trivial
      · rw [turnEach]
        trivial
  | succ fuel ih => exact ⟨turn_moves_succ ih.1 ih.2, turnEach_moves_succ ih.1 ih.2⟩

end Fiber

/-- A task that waits for nothing but its turn or a point in time. -/
def Work.Begins : Work σ → Prop
  | .run _ _ (.ready _) => True
  | .run _ _ _ => False
  | .errand _ _ _ => True

/-- What steps of a fiber leave alone: callbacks and tasks stay as they are. There may be
    new tasks, and numbers may have been given out. -/
structure Kernel.Grows (k k' : Kernel σ) : Prop where
  /-- No callback is called or added. -/
  callbacks : k'.callbacks = k.callbacks
  /-- So there are no more calls. -/
  calls : k'.calls = k.calls
  /-- No number is given out twice. -/
  fresh : k.fresh ≤ k'.fresh
  /-- What is new are tasks with new numbers. -/
  tasks : ∃ more : List (Task σ), k'.tasks = k.tasks ++ more ∧ (more.map (·.id)).Nodup ∧
    ∀ task ∈ more, k.fresh ≤ task.id ∧ task.id < k'.fresh ∧ task.work.Begins

namespace Kernel

variable {k k₁ k' : Kernel σ}

theorem Grows.refl (k : Kernel σ) : k.Grows k :=
  ⟨rfl, rfl, Nat.le_refl _, [], (List.append_nil _).symm, .nil, fun _ h => by cases h⟩

/-- A kernel that has grown twice has grown. -/
theorem Grows.trans (first : k.Grows k₁) (second : k₁.Grows k') : k.Grows k' := by
  rcases first.tasks with ⟨more, htasks, hids, hmore⟩
  rcases second.tasks with ⟨more', htasks', hids', hmore'⟩
  refine ⟨second.callbacks.trans first.callbacks, second.calls.trans first.calls,
    Nat.le_trans first.fresh second.fresh, more ++ more', ?_, ?_, fun task htask => ?_⟩
  · rw [htasks', htasks, List.append_assoc]
  · -- The later numbers are greater.
    rw [List.map_append]
    refine List.Nodup.append hids hids' fun id hid hid' => ?_
    rcases List.mem_map.1 hid with ⟨task, htask, rfl⟩
    rcases List.mem_map.1 hid' with ⟨task', htask', heq⟩
    have before := (hmore task htask).2.1
    have after := (hmore' task' htask').1
    rw [heq] at after
    exact Nat.not_le_of_lt before after
  · have low := first.fresh
    have high := second.fresh
    rcases List.mem_append.1 htask with hin | hin
    · have := hmore task hin
      exact ⟨this.1, Nat.lt_of_lt_of_le this.2.1 high, this.2.2⟩
    · have := hmore' task hin
      exact ⟨Nat.le_trans low this.1, this.2⟩

/-- Changes of the world, the queue and the slots leave the rest alone. -/
theorem Grows.of_eq (callbacks : k'.callbacks = k.callbacks) (calls : k'.calls = k.calls)
    (fresh : k'.fresh = k.fresh) (tasks : k'.tasks = k.tasks) : k.Grows k' :=
  ⟨callbacks, calls, Nat.le_of_eq fresh.symm, [], by rw [tasks, List.append_nil], .nil,
    fun _ h => by cases h⟩

theorem grows_world (k : Kernel σ) (w : World σ) : k.Grows { k with world := w } :=
  .of_eq rfl rfl rfl rfl

theorem grows_report (k : Kernel σ) (event : Event) : k.Grows (k.report event) :=
  .of_eq rfl rfl rfl rfl

theorem grows_setSlot (k : Kernel σ) (handle : Handle) (slot : Slot σ) :
    k.Grows (k.setSlot handle slot) :=
  .of_eq rfl rfl rfl rfl

theorem grows_closeSlot (k : Kernel σ) (handle : Handle) : k.Grows (k.closeSlot handle) :=
  .of_eq rfl rfl rfl rfl

theorem grows_wakeOne (k : Kernel σ) (id : FiberId) : k.Grows (k.wakeOne id) := by
  rcases k.wakeOne_eq id with ⟨woken, heq⟩
  rw [heq]
  exact .of_eq rfl rfl rfl rfl

theorem grows_wake (k : Kernel σ) (path : Path) : k.Grows (k.wake path) := by
  rcases k.wake_eq path with ⟨woken, heq⟩
  rw [heq]
  exact .of_eq rfl rfl rfl rfl

theorem grows_draw (k : Kernel σ) : k.Grows k.draw.2 :=
  ⟨rfl, rfl, Nat.le_succ _, [], (List.append_nil _).symm, .nil, fun _ h => by cases h⟩

theorem grows_use (k : Kernel σ) (handle : Handle) (r : Resumption σ) :
    k.Grows (k.use handle r) := by
  unfold use
  split
  · exact (k.grows_setSlot _ _).trans (grows_wake _ _)
  · exact (k.grows_closeSlot _).trans (grows_report _ _)
  · exact .refl k

theorem grows_release (k : Kernel σ) (handle : Handle) : k.Grows (k.release handle) := by
  unfold release
  split
  · exact (k.grows_setSlot _ _).trans (grows_wake _ _)
  · exact k.grows_closeSlot _
  · exact .refl k

theorem grows_leave (k : Kernel σ) (handle : Handle) : k.Grows (k.leave handle) := by
  unfold leave
  split
  · exact k.grows_setSlot _ _
  · exact k.grows_closeSlot _

theorem grows_leaveAll (k : Kernel σ) (handles : List Handle) :
    k.Grows (k.leaveAll handles) := by
  unfold leaveAll
  induction handles generalizing k with
  | nil => exact .refl k
  | cons handle rest ih => exact (k.grows_leave handle).trans (ih _)

section Slots

variable {handle h : Handle}

theorem slot?_wakeOne (k : Kernel σ) (id : FiberId) (handle : Handle) :
    (k.wakeOne id).slot? handle = k.slot? handle := by
  rcases k.wakeOne_eq id with ⟨woken, heq⟩
  rw [heq]
  rfl

theorem slot?_wake (k : Kernel σ) (path : Path) (handle : Handle) :
    (k.wake path).slot? handle = k.slot? handle := by
  rcases k.wake_eq path with ⟨woken, heq⟩
  rw [heq]
  rfl

/-- What happens to another handle does not change a slot. -/
theorem slot?_use (k : Kernel σ) (r : Resumption σ) (other : h ≠ handle) :
    (k.use h r).slot? handle = k.slot? handle := by
  have ne := Ne.symm other
  unfold use
  split
  · rw [slot?_wake, slot?_setSlot, if_neg ne]
  · exact (slot?_closeSlot k h handle).trans (if_neg ne)
  · rfl

theorem slot?_release (k : Kernel σ) (other : h ≠ handle) :
    (k.release h).slot? handle = k.slot? handle := by
  have ne := Ne.symm other
  unfold release
  split
  · rw [slot?_wake, slot?_setSlot, if_neg ne]
  · exact (slot?_closeSlot k h handle).trans (if_neg ne)
  · rfl

theorem slot?_leave (k : Kernel σ) (other : h ≠ handle) :
    (k.leave h).slot? handle = k.slot? handle := by
  have ne := Ne.symm other
  unfold leave
  split
  · exact (slot?_setSlot k h _ handle).trans (if_neg ne)
  · exact (slot?_closeSlot k h handle).trans (if_neg ne)

end Slots

/-- There is a new task. -/
theorem grows_addTask (k : Kernel σ) {work : Work σ} (begins : work.Begins) :
    k.Grows (k.addTask work).2 := by
  have added : k.Grows { k with
      tasks := k.tasks ++ [⟨k.fresh, work, false⟩], fresh := k.fresh + 1 } :=
    ⟨rfl, rfl, Nat.le_succ _, _, rfl, List.nodup_singleton _, fun task htask => by
      rw [List.mem_singleton.1 htask]
      exact ⟨Nat.le_refl _, Nat.lt_succ_self _, begins⟩⟩
  exact added.trans (grows_wakeOne _ _)

theorem grows_signal (k : Kernel σ) (signal : Signal σ) : k.Grows (k.signal signal) := by
  cases signal with
  | complete handle x => exact k.grows_use handle _
  | resume handle e => exact k.grows_use handle _
  | release handle => exact k.grows_release handle
  | later millis handle act => exact k.grows_addTask trivial

theorem grows_signalAll (k : Kernel σ) (signals : List (Signal σ)) :
    k.Grows (k.signalAll signals) := by
  unfold signalAll
  induction signals generalizing k with
  | nil => exact .refl k
  | cons signal rest ih => exact (k.grows_signal signal).trans (ih _)

/-- Enlisting children gives out numbers and queues them, so the kernel grows. -/
theorem grows_enlist (env : Context) (effects : List (Effect σ)) (position : Nat)
    (k : Kernel σ) : k.Grows (enlist env effects position k).2 := by
  induction effects generalizing position k with
  | nil => exact .refl k
  | cons e rest ih => exact (k.grows_draw.trans (grows_wakeOne _ _)).trans (ih _ _)

/-- Granting a request makes the kernel grow, whatever the registration does. -/
theorem grows_grant (k : Kernel σ) (path : Path) (request : Request σ)
    (point : Suspension σ) : k.Grows (k.grant path request point).2 := by
  have opened : k.Grows k.openSlot.2 := k.grows_draw.trans (grows_setSlot _ _ _)
  cases request with
  | pause span focus => exact .refl k
  | giveWay focus => exact k.grows_wake path
  | listen register =>
      -- Calling the registration touches the world only; its signals make the kernel grow.
      have called : ∀ w, k.Grows { k.openSlot.2 with world := w } := fun w =>
        opened.trans (grows_world _ w)
      simp only [grant]
      rcases k.openSlot.2.world.guarded (register k.openSlot.1) with
        ⟨d | ⟨signals, _ | p⟩, w⟩
      · exact (called w).trans (grows_leave _ _)
      · exact (called w).trans (grows_signalAll _ _)
      · exact (((called w).trans (grows_signalAll _ signals)).trans
          (grows_report _ (.panicCaptured (.ofPanic p)))).trans (grows_leave _ _)
  | within source limit => exact .refl k
  | gather children collect => exact grows_enlist point.env children 0 k
  | compete children => exact grows_enlist point.env children 0 k

theorem grows_collect? {handle : Handle} {focus : Focus σ}
    (h : k.collect? handle = some (focus, k')) : k.Grows k' := by
  unfold collect? at h
  split at h
  · cases h
    exact k.grows_closeSlot handle
  · cases h
    exact (k.grows_closeSlot handle).trans (grows_report _ _)
  · cases h

end Kernel

/-- A step of a fiber leaves callbacks and tasks alone. -/
theorem Fiber.Move.grows {settings : Settings} {path : Path} {fiber fiber' : Fiber σ}
    {k k' : Kernel σ} {marks : List (Mark σ)}
    (move : Move settings path fiber k marks fiber' k') : k.Grows k' := by
  induction move with
  | step => exact Kernel.grows_world _ _
  | ask => exact (Kernel.grows_world _ _).trans (Kernel.grows_grant _ _ _ _)
  | collect found => exact Kernel.grows_collect? found
  | within _ ih => exact ih
  | expire => exact (Kernel.grows_leaveAll _ _).trans (Kernel.grows_report _ _)
  | child _ _ ih => exact ih
  | decide => exact Kernel.grows_leaveAll _ _
  | look => exact Kernel.grows_setSlot _ _ _
  | queue => exact .of_eq rfl rfl rfl rfl
  | _ => exact .refl _

/-- While a fiber moves its kernel only grows. -/
theorem Fiber.Moves.grows {settings : Settings} {path : Path} {fiber fiber' : Fiber σ}
    {k k' : Kernel σ} {marks : List (Mark σ)}
    (moves : Moves settings path fiber k marks fiber' k') : k.Grows k' := by
  induction moves with
  | none => exact .refl _
  | more move _ ih => exact move.grows.trans ih

/-- A task is still there after steps of a fiber. -/
theorem Kernel.Grows.task? {k k' : Kernel σ} (grows : k.Grows k') {id : TaskId} {task : Task σ}
    (there : k.task? id = some task) : k'.task? id = some task := by
  rcases grows.tasks with ⟨more, htasks, -, -⟩
  unfold Kernel.task? at *
  rw [htasks, List.find?_append, there]
  rfl

end EffectKernel
