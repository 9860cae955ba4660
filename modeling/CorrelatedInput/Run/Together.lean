import CorrelatedInput.Run.World
/-!
Two activities at once. At every instant the first goes on as far as it can before the second
does, again and again until both are blocked; only then does time pass.

Each activity has waits of its own, which read when that activity is blocked; while time passes,
the waits of both read. A position out of range on either side ends both.
-/
namespace CorrelatedInput

namespace Activity

/-- One activity is what remains of another after its first step. -/
inductive Follows {α : Type} : Activity α → Activity α → Prop where
  | ask (request : Request) (next : request.Answer → Activity α) (answer : request.Answer) :
      Follows (next answer) (.ask request next)
  | sleep (milliseconds : Nat) (next : Activity α) : Follows next (.sleep milliseconds next)
  | await (wait : Nat) (next : Outcome → Activity α) (outcome : Outcome) :
      Follows (next outcome) (.await wait next)

/-- Activities are finite: what remains gets shorter and shorter. -/
theorem follows_wellFounded {α : Type} : WellFounded (@Follows α) := by
  constructor
  intro a
  induction a with
  | done => exact ⟨_, fun _ h => by cases h⟩
  | stop => exact ⟨_, fun _ h => by cases h⟩
  | ask request next ih => exact ⟨_, fun _ h => by cases h; exact ih _⟩
  | sleep milliseconds next ih => exact ⟨_, fun _ h => by cases h; exact ih⟩
  | await wait next ih => exact ⟨_, fun _ h => by cases h; exact ih _⟩

/-- What remains of an activity after at least one step. -/
abbrev Later {α : Type} : Activity α → Activity α → Prop := Relation.TransGen Follows

instance {α : Type} : WellFoundedRelation (Activity α) where
  rel := Later
  wf := follows_wellFounded.transGen

/-- What remains of an activity after any number of steps. -/
def Rest {α : Type} (b a : Activity α) : Prop := b = a ∨ Later b a

theorem Rest.after {α : Type} {c b a : Activity α} (h : Rest c b) (f : Follows b a) :
    Later c a := by
  cases h with
  | inl e => exact e ▸ .single f
  | inr t => exact .tail t f

end Activity

/-- What an activity is blocked by. -/
inductive Blocked (α : Type) where
  | sleeping (since milliseconds : Nat) (next : Activity α)
  | waiting (wait : Nat) (next : Outcome → Activity α)

/-- Where an activity stands that cannot go on at this instant. -/
inductive Phase (α : Type) where
  | finished (a : α)
  | stopped (cause : Overflow)
  | blocked (b : Blocked α)

def Blocked.rest {α : Type} : Blocked α → Activity α
  | .sleeping _ milliseconds next => .sleep milliseconds next
  | .waiting wait next => .await wait next

def Phase.rest {α : Type} : Phase α → Activity α
  | .finished a => .done a
  | .stopped cause => .stop cause
  | .blocked b => b.rest

namespace World

def proceed {α : Type} (w : World) : (a : Activity α) → { p : Phase α // p.rest.Rest a } × World
  | .done a => (⟨.finished a, .inl rfl⟩, w)
  | .stop cause => (⟨.stopped cause, .inl rfl⟩, w)
  | .ask request next =>
    let (answer, w) := w.answer request
    let (⟨p, h⟩, w) := w.proceed (next answer)
    (⟨p, .inr (h.after (.ask request next answer))⟩, w)
  | .sleep milliseconds next =>
    if milliseconds = 0 then
      let (⟨p, h⟩, w) := w.proceed next
      (⟨p, .inr (h.after (.sleep milliseconds next))⟩, w)
    else (⟨.blocked (.sleeping w.now milliseconds next), .inl rfl⟩, w.settle)
  | .await wait next =>
    let w := w.settle
    match w.outcome? wait with
    | none => (⟨.blocked (.waiting wait next), .inl rfl⟩, w)
    | some outcome =>
      let (⟨p, h⟩, w) := (w.close wait).proceed (next outcome)
      (⟨p, .inr (h.after (.await wait next outcome))⟩, w)

def wake {α : Type} (w : World) : (b : Blocked α) → { p : Phase α // p.rest.Later b.rest } × World
  | .sleeping _ milliseconds next =>
    let (⟨p, h⟩, w) := w.proceed next
    (⟨p, h.after (.sleep milliseconds next)⟩, w)
  | .waiting wait next =>
    let (outcome, w) := w.await wait
    let (⟨p, h⟩, w) := w.proceed (next outcome)
    (⟨p, h.after (.await wait next outcome)⟩, w)

def isReady {α : Type} (w : World) : Blocked α → Bool
  | .sleeping since milliseconds _ => since + milliseconds ≤ w.now
  | .waiting wait _ => (w.outcome? wait).isSome

/-- When a blocked activity goes on at the latest. -/
def due {α : Type} (w : World) : Blocked α → Nat
  | .sleeping since milliseconds _ => since + milliseconds
  | .waiting wait _ => (w.deadline? wait).getD w.now

/-- Whether a blocked activity can go on; if it sleeps on, its waits read. -/
def attend {α : Type} (w : World) (b : Blocked α) : Bool × World :=
  if w.isReady b then (true, w) else (w.settle.isReady b, w.settle)

end World

/-- A world shared by two activities. The world's own list of waits is that of whoever goes on. -/
structure Scene where
  world : World
  first : List Wait
  second : List Wait

namespace Scene

/-- The world with the waits of both activities. -/
def whole (s : Scene) : World := { s.world with waits := s.first ++ s.second }

def asFirst {β : Type} (s : Scene) (f : World → β × World) : β × Scene :=
  let (result, world) := f { s.world with waits := s.first }
  (result, { s with world, first := world.waits })

def asSecond {β : Type} (s : Scene) (f : World → β × World) : β × Scene :=
  let (result, world) := f { s.world with waits := s.second }
  (result, { s with world, second := world.waits })

/-- Lets time pass until `limit`, or until `ready` holds before. -/
def pass (s : Scene) (ready : World → Bool) (limit : Nat) : Scene :=
  let world := s.whole.pass ready limit
  ⟨world, world.waits.take s.first.length, world.waits.drop s.first.length⟩

/-- Finds out which of two blocked activities goes on next, time passing if neither can go on now:
true for the first one. -/
def next {α : Type} (s : Scene) (a b : Blocked α) : Bool × Scene :=
  match s.asFirst (·.attend a) with
  | (true, s) => (true, s)
  | (false, s) =>
    match s.asSecond (·.attend b) with
    | (true, s) => (false, s)
    | (false, s) =>
      (s.pass (fun w => w.isReady a || w.isReady b) (min (s.whole.due a) (s.whole.due b))).asFirst
        (·.attend a)

/-- Lets time pass until the first activity can go on, the second being done. -/
def nextFirst {α : Type} (s : Scene) (a : Blocked α) : Scene :=
  match s.asFirst (·.attend a) with
  | (true, s) => s
  | (false, s) => s.pass (fun w => w.isReady a) (s.whole.due a)

/-- Lets time pass until the second activity can go on, the first being done. -/
def nextSecond {α : Type} (s : Scene) (b : Blocked α) : Scene :=
  match s.asSecond (·.attend b) with
  | (true, s) => s
  | (false, s) => s.pass (fun w => w.isReady b) (s.whole.due b)

def run {α : Type} (s : Scene) : Phase α → Phase α → Except Overflow (α × α) × World
  | .stopped cause, _ => (.error cause, s.whole.closeAll)
  | _, .stopped cause => (.error cause, s.whole.closeAll)
  | .finished a, .finished b => (.ok (a, b), s.whole)
  | .blocked a, .finished b =>
    let (⟨p, _⟩, s) := (s.nextFirst a).asFirst (·.wake a)
    s.run p (.finished b)
  | .finished a, .blocked b =>
    let (⟨p, _⟩, s) := (s.nextSecond b).asSecond (·.wake b)
    s.run (.finished a) p
  | .blocked a, .blocked b =>
    match s.next a b with
    | (true, s) =>
      let (⟨p, _⟩, s) := s.asFirst (·.wake a)
      s.run p (.blocked b)
    | (false, s) =>
      let (⟨p, _⟩, s) := s.asSecond (·.wake b)
      s.run (.blocked a) p
termination_by p q => (p.rest, q.rest)

end Scene

namespace World

/-- Runs two activities at once, to the ends of both. -/
def runBoth {α : Type} (w : World) (a b : Activity α) : Except Overflow (α × α) × World :=
  let s : Scene := ⟨w, [], []⟩
  match s.asFirst fun w => let (p, w) := w.proceed a; (p.val, w) with
  | (.stopped cause, s) => (.error cause, s.whole.closeAll)
  | (p, s) =>
    let (q, s) := s.asSecond fun w => let (q, w) := w.proceed b; (q.val, w)
    s.run p q

end World

end CorrelatedInput
