import Mathlib.Data.Fintype.Order
import Mathlib.Data.Set.Finite.Lattice
import Federate.Library.Stateful

/-!
# Programs that ask each other

A program on a state may send a request to a peer and go on with the answer. Where every peer
answers by such a program, one request may cause others, nested to any depth: a stack machine runs
them and counts the requests. Only finitely many are sent exactly when the first one is answered,
and, where no peer can do more than ask others, exactly when none of them is asked in a circle.
-/

/-- What a program does next: it is done and leaves a state, or it asks a peer and goes on with the
answer and the state in which the answer arrives. -/
inductive Talk (σ ι q r α : Type) where
  | done (a : α) (s : σ)
  | ask (peer : ι) (request : q) (s : σ) (next : r → σ → Talk σ ι q r α)

namespace Talk

variable {σ τ ι q r α β : Type}

/-- Go on where a program is done. -/
def bind (talk : Talk σ ι q r α) (next : α → σ → Talk σ ι q r β) : Talk σ ι q r β :=
  match talk with
  | done a s => next a s
  | ask peer request s later => ask peer request s fun answer s' => (later answer s').bind next

/-- A program on a part of a state. -/
def zoom (get : τ → σ) (put : σ → τ → τ) (talk : Talk σ ι q r α) (whole : τ) : Talk τ ι q r α :=
  match talk with
  | done a s => done a (put s whole)
  | ask peer request s next =>
    ask peer request (put s whole) fun answer whole' =>
      zoom get put (next answer (get whole')) whole'

/-- The outcome when every request is answered on the spot. -/
def eval (answer : σ → ι → q → r × σ) : Talk σ ι q r α → α × σ
  | done a s => (a, s)
  | ask peer request s next =>
    eval answer (next (answer s peer request).1 (answer s peer request).2)

/-- Going on where a program is done, when every request is answered on the spot. -/
@[simp] theorem eval_bind (answer : σ → ι → q → r × σ) (talk : Talk σ ι q r α)
    (next : α → σ → Talk σ ι q r β) :
    (talk.bind next).eval answer =
      (next (talk.eval answer).1 (talk.eval answer).2).eval answer := by
  induction talk with
  | done a s => rfl
  | ask peer request s later ih => exact ih _ _

end Talk

/-! ## Fallible programs -/

/-- A fallible program that asks peers. -/
def Asking (σ ι q r ε α : Type) : Type := σ → Talk σ ι q r (Except ε α)

namespace Asking

open Stateful

variable {σ ι q r ε α β κ : Type}

instance : Monad (Asking σ ι q r ε) where
  pure a := fun s => .done (.ok a) s
  bind first next := fun s => (first s).bind fun outcome s' =>
    match outcome with
    | .ok a => next a s'
    | .error e => .done (.error e) s'

/-- A program that asks nobody. -/
def own (program : Prog σ ε α) : Asking σ ι q r ε α := fun s =>
  .done (exec program s).1 (exec program s).2

instance : MonadLift (Prog σ ε) (Asking σ ι q r ε) := ⟨own⟩

instance : MonadLift (Except ε) (Asking σ ι q r ε) := ⟨fun x => own (liftM x)⟩

instance : MonadExcept ε (Asking σ ι q r ε) where
  throw e := own (throw e)
  tryCatch body handle := fun s => (body s).bind fun outcome s' =>
    match outcome with
    | .ok a => .done (.ok a) s'
    | .error e => handle e s'

/-- Send a request. -/
def request (peer : ι) (message : q) : Asking σ ι q (Except ε r) ε r := fun s =>
  .ask peer message s fun answer s' => .done answer s'

/-- Run a program and return its outcome, a failure included. -/
def attempt (program : Asking σ ι q r ε α) : Asking σ ι q r ε (Except ε α) := fun s =>
  (program s).bind fun outcome s' => .done (.ok outcome) s'

/-- Try the items in order, as `Stateful.tryEach` does. -/
def tryEach (stop : ε → Bool) (fetch : κ → Asking σ ι q r ε α) (fallback : Asking σ ι q r ε α) :
    List κ → Asking σ ι q r ε α
  | [] => fallback
  | item :: rest => do
    match ← attempt (fetch item) with
    | .ok a => pure a
    | .error e => if stop e then throw e else tryEach stop fetch fallback rest

/-- The program when every request is answered on the spot, by a program without requests. -/
def answered (answer : ι → q → Prog σ ε r) (program : Asking σ ι q (Except ε r) ε α) :
    Prog σ ε α := fun s => (program s).eval fun s peer message => exec (answer peer message) s

section Answered

variable (answer : ι → q → Prog σ ε r)

@[simp] theorem answered_pure (a : α) :
    answered answer (pure a : Asking σ ι q (Except ε r) ε α) = pure a := rfl

@[simp] theorem answered_bind (first : Asking σ ι q (Except ε r) ε α)
    (next : α → Asking σ ι q (Except ε r) ε β) :
    answered answer (first >>= next) =
      answered answer first >>= fun a => answered answer (next a) := by
  funext s
  let reply : σ → ι → q → Except ε r × σ := fun s peer message => exec (answer peer message) s
  change ((first s).bind _).eval reply = exec _ s
  rw [Talk.eval_bind]
  cases outcome : (first s).eval reply with
  | mk result s' =>
    have ran : exec (answered answer first) s = (result, s') := outcome
    cases result with
    | ok a =>
      rw [exec_bind_ok ran]
      rfl
    | error e =>
      rw [exec_bind_error ran]
      rfl

@[simp] theorem answered_own (program : Prog σ ε α) :
    answered answer (own program : Asking σ ι q (Except ε r) ε α) = program := rfl

@[simp] theorem answered_lift (program : Prog σ ε α) :
    answered answer (liftM program : Asking σ ι q (Except ε r) ε α) = program := rfl

@[simp] theorem answered_except (x : Except ε α) :
    answered answer (liftM x : Asking σ ι q (Except ε r) ε α) = liftM x := rfl

@[simp] theorem answered_throw (e : ε) :
    answered answer (throw e : Asking σ ι q (Except ε r) ε α) = throw e := rfl

@[simp] theorem answered_request (peer : ι) (message : q) :
    answered answer (request peer message) = answer peer message := rfl

@[simp] theorem answered_attempt (program : Asking σ ι q (Except ε r) ε α) :
    answered answer (attempt program) = Stateful.attempt (answered answer program) := by
  funext s
  change ((program s).bind _).eval _ = _
  rw [Talk.eval_bind]
  rfl

@[simp] theorem answered_tryEach (stop : ε → Bool) (fetch : κ → Asking σ ι q (Except ε r) ε α)
    (fallback : Asking σ ι q (Except ε r) ε α) (items : List κ) :
    answered answer (tryEach stop fetch fallback items) =
      Stateful.tryEach stop (fun item => answered answer (fetch item))
        (answered answer fallback) items := by
  induction items with
  | nil => rfl
  | cons item rest ih =>
    rw [tryEach, Stateful.tryEach, answered_bind, answered_attempt]
    refine congrArg _ (funext fun outcome => ?_)
    cases outcome with
    | ok a => rfl
    | error e =>
      by_cases stops : stop e = true
      · simp [stops]
      · simp [stops, ih]

end Answered

end Asking

/-! ## Nested requests -/

namespace Dialogue

variable {σ ι q r : Type}

/-- The first program, the programs that wait for an answer, innermost first, and the number of
requests sent. -/
structure Session (σ ι q r : Type) where
  /-- The program that runs. -/
  talk : Talk σ ι q r r
  /-- How those that wait go on. -/
  waiting : List (r → σ → Talk σ ι q r r)
  /-- Number of requests sent. -/
  sent : ℕ

/-- One step, where `serve` is the program by which a peer answers a request. -/
def step (serve : ι → q → σ → Talk σ ι q r r) (c : Session σ ι q r) : Session σ ι q r :=
  match c.talk, c.waiting with
  | .ask peer request s next, waiting => ⟨serve peer request s, next :: waiting, c.sent + 1⟩
  | .done a s, next :: waiting => ⟨next a s, waiting, c.sent⟩
  | .done _ _, [] => c

/-- However long a program runs, it causes only so many requests. -/
def FinitelyMany (serve : ι → q → σ → Talk σ ι q r r) (talk : Talk σ ι q r r) : Prop :=
  ∃ bound, ∀ n, ((step serve)^[n] ⟨talk, [], 0⟩).sent ≤ bound

/-- The outcome of a program all of whose requests are answered, by programs of the same kind. -/
inductive Settles (serve : ι → q → σ → Talk σ ι q r r) : Talk σ ι q r r → r → σ → Prop
  | done {a : r} {s : σ} : Settles serve (.done a s) a s
  | ask {peer : ι} {request : q} {s s₁ s₂ : σ} {next : r → σ → Talk σ ι q r r} {answer a : r}
      (nested : Settles serve (serve peer request s) answer s₁)
      (rest : Settles serve (next answer s₁) a s₂) : Settles serve (.ask peer request s next) a s₂

section Machine

variable {serve : ι → q → σ → Talk σ ι q r r} {talk : Talk σ ι q r r}

/-- A step sends at most one request, and takes none back. -/
theorem sent_step (c : Session σ ι q r) : c.sent ≤ (step serve c).sent := by
  rcases c with ⟨talk, waiting, sent⟩
  cases talk with
  | ask peer request s next => exact Nat.le_succ _
  | done a s => cases waiting <;> exact Nat.le_refl _

/-- Requests are only added as a session goes on. -/
theorem sent_iterate (c : Session σ ι q r) (n : ℕ) : c.sent ≤ ((step serve)^[n] c).sent := by
  induction n generalizing c with
  | zero => exact Nat.le_refl _
  | succ n ih => exact (sent_step c).trans (ih _)

/-- A program that settles runs to its end, whoever waits for it. -/
theorem Settles.steps {a : r} {s : σ} (settles : Settles serve talk a s)
    (waiting : List (r → σ → Talk σ ι q r r)) (sent : ℕ) :
    ∃ n total, (step serve)^[n] ⟨talk, waiting, sent⟩ = ⟨.done a s, waiting, total⟩ := by
  induction settles generalizing waiting sent with
  | done => exact ⟨0, sent, rfl⟩
  | @ask peer request s s₁ s₂ next answer a nested rest ihNested ihRest =>
    obtain ⟨n, total, ran⟩ := ihNested (next :: waiting) (sent + 1)
    obtain ⟨m, total', ended⟩ := ihRest waiting total
    refine ⟨m + (n + 1 + 1), total', ?_⟩
    rw [Function.iterate_add_apply, Function.iterate_succ_apply', Function.iterate_succ_apply]
    have sends : step serve ⟨.ask peer request s next, waiting, sent⟩ =
        ⟨serve peer request s, next :: waiting, sent + 1⟩ := rfl
    rw [sends, ran]
    exact ended

/-- A program that never settles sends yet another request, and leaves a program that never
settles. -/
theorem sends_more (unsettled : ¬∃ a s, Settles serve talk a s)
    (waiting : List (r → σ → Talk σ ι q r r)) (sent : ℕ) :
    ∃ n talk' waiting' total, (step serve)^[n] ⟨talk, waiting, sent⟩ = ⟨talk', waiting', total⟩ ∧
      sent < total ∧ ¬∃ a s, Settles serve talk' a s := by
  cases talk with
  | done a s => exact absurd ⟨a, s, .done⟩ unsettled
  | ask peer request s next =>
    by_cases nested : ∃ a s', Settles serve (serve peer request s) a s'
    · obtain ⟨answer, s₁, settles⟩ := nested
      obtain ⟨n, total, ran⟩ := settles.steps (next :: waiting) (sent + 1)
      refine ⟨n + 1 + 1, next answer s₁, waiting, total, ?_, ?_, ?_⟩
      · rw [Function.iterate_succ_apply', Function.iterate_succ_apply]
        exact congrArg (step serve) ran
      · have grows : sent + 1 ≤ ((step serve)^[n]
            ⟨serve peer request s, next :: waiting, sent + 1⟩).sent :=
          sent_iterate ⟨serve peer request s, next :: waiting, sent + 1⟩ n
        rw [ran] at grows
        exact grows
      · intro later
        obtain ⟨a, s₂, rest⟩ := later
        exact unsettled ⟨a, s₂, .ask settles rest⟩
    · exact ⟨1, serve peer request s, next :: waiting, sent + 1, rfl, Nat.lt_succ_self sent,
        nested⟩

/-- A program that never settles sends more requests than any bound. -/
theorem sends_unbounded (unsettled : ¬∃ a s, Settles serve talk a s) (bound : ℕ) :
    ∃ n talk' waiting' total, (step serve)^[n] ⟨talk, [], 0⟩ = ⟨talk', waiting', total⟩ ∧
      bound ≤ total ∧ ¬∃ a s, Settles serve talk' a s := by
  induction bound with
  | zero => exact ⟨0, talk, [], 0, rfl, Nat.le_refl 0, unsettled⟩
  | succ bound ih =>
    obtain ⟨n, talk', waiting', total, ran, many, still⟩ := ih
    obtain ⟨m, talk'', waiting'', total', more, added, again⟩ := sends_more still waiting' total
    refine ⟨m + n, talk'', waiting'', total', ?_, by omega, again⟩
    rw [Function.iterate_add_apply, ran, more]

/-- A session sends finitely many requests exactly when its program settles. -/
theorem finitelyMany_iff_settles : FinitelyMany serve talk ↔ ∃ a s, Settles serve talk a s := by
  constructor
  · intro finite
    obtain ⟨bound, below⟩ := finite
    by_contra unsettled
    obtain ⟨n, talk', waiting', total, ran, many, -⟩ := sends_unbounded unsettled (bound + 1)
    have most := below n
    rw [ran] at most
    have within : total ≤ bound := most
    omega
  · intro settles
    obtain ⟨a, s, settles⟩ := settles
    obtain ⟨n, total, ran⟩ := settles.steps [] 0
    have rests (m : ℕ) : (step serve)^[m] ⟨.done a s, [], total⟩ = ⟨.done a s, [], total⟩ :=
      Function.iterate_fixed rfl m
    refine ⟨total, fun m => ?_⟩
    rcases Nat.le_total m n with early | late
    · obtain ⟨k, rfl⟩ := Nat.exists_eq_add_of_le' early
      have grows : ((step serve)^[m] ⟨talk, [], 0⟩).sent ≤
          ((step serve)^[k] ((step serve)^[m] ⟨talk, [], 0⟩)).sent := sent_iterate _ k
      rw [← Function.iterate_add_apply, ran] at grows
      exact grows
    · obtain ⟨k, rfl⟩ := Nat.exists_eq_add_of_le' late
      rw [Function.iterate_add_apply, ran, rests]

end Machine

/-! ## Programs that can only ask others -/

section Polls

variable {I : σ → Prop} {miss : r → Prop}

/-- As long as states have the property `I`, the program asks these peers in this order, whatever
misses they answer with, and is done with a result that has the property `Q`. -/
inductive Polls (I : σ → Prop) (miss : r → Prop) {α : Type} (Q : α → Prop) :
    Talk σ ι q r α → List (ι × q) → Prop
  | done {a : α} {s : σ} (keeps : I s) (holds : Q a) : Polls I miss Q (.done a s) []
  | ask {peer : ι} {request : q} {s : σ} {next : r → σ → Talk σ ι q r α} {rest : List (ι × q)}
      (keeps : I s) (later : ∀ answer s', I s' → miss answer → Polls I miss Q (next answer s') rest) :
      Polls I miss Q (.ask peer request s next) ((peer, request) :: rest)

/-- A program that goes on where another is done asks what both ask. -/
theorem Polls.bind {α β : Type} {Q : α → Prop} {Q' : β → Prop} {talk : Talk σ ι q r α}
    {next : α → σ → Talk σ ι q r β} {first second : List (ι × q)}
    (polls : Polls I miss Q talk first)
    (later : ∀ a s, Q a → I s → Polls I miss Q' (next a s) second) :
    Polls I miss Q' (talk.bind next) (first ++ second) := by
  induction polls with
  | done keeps holds => exact later _ _ holds keeps
  | ask keeps _ ih => exact .ask keeps fun answer s' kept missed => ih answer s' kept missed

/-- A weaker property of the result. -/
theorem Polls.mono {α : Type} {Q Q' : α → Prop} {talk : Talk σ ι q r α} {list : List (ι × q)}
    (polls : Polls I miss Q talk list) (weaker : ∀ a, Q a → Q' a) :
    Polls I miss Q' talk list := by
  induction polls with
  | done keeps holds => exact .done keeps (weaker _ holds)
  | ask keeps _ ih => exact .ask keeps ih

/-- A program on a part of a state asks the same peers. -/
theorem Polls.zoom {τ α : Type} {J : τ → Prop} {Q : α → Prop} {get : τ → σ} {put : σ → τ → τ}
    (gets : ∀ whole, J whole → I (get whole))
    (puts : ∀ s whole, I s → J whole → J (put s whole)) {talk : Talk σ ι q r α}
    {list : List (ι × q)} (polls : Polls I miss Q talk list) {whole : τ} (keeps : J whole) :
    Polls J miss Q (talk.zoom get put whole) list := by
  induction polls generalizing whole with
  | done kept holds => exact .done (puts _ _ kept keeps) holds
  | ask kept _ ih =>
    exact .ask (puts _ _ kept keeps) fun answer whole' keeps' missed =>
      ih answer (get whole') (gets whole' keeps') missed keeps'

/-! ### Fallible programs that can only ask others -/

section Asks

open Stateful Asking

variable {ε α β κ : Type} {Q : Except ε α → Prop} {Q' : Except ε β → Prop}

/-- From every state with the property `I`, the program asks these peers. -/
def Asks (I : σ → Prop) (miss : r → Prop) (Q : Except ε α → Prop) (program : Asking σ ι q r ε α)
    (list : List (ι × q)) : Prop := ∀ s, I s → Polls I miss Q (program s) list

/-- A program that asks nobody. -/
theorem asks_own {program : Prog σ ε α}
    (keeps : ∀ s, I s → I (exec program s).2 ∧ Q (exec program s).1) :
    Asks I miss Q (own program : Asking σ ι q r ε α) [] := fun s kept =>
  .done (keeps s kept).1 (keeps s kept).2

/-- A value. -/
theorem asks_pure {a : α} (holds : Q (.ok a)) :
    Asks I miss Q (pure a : Asking σ ι q r ε α) [] := fun _ kept => .done kept holds

/-- A single request. -/
theorem asks_request {miss : Except ε r → Prop} {Q : Except ε r → Prop} (peer : ι) (message : q)
    (holds : ∀ answer, miss answer → Q answer) :
    Asks I miss Q (request peer message : Asking σ ι q (Except ε r) ε r) [(peer, message)] :=
  fun _ kept => .ask kept fun answer _ kept' missed => .done kept' (holds answer missed)

/-- A sequence asks what both parts ask. -/
theorem Asks.bind {program : Asking σ ι q r ε α} {next : α → Asking σ ι q r ε β}
    {first second : List (ι × q)} (asks : Asks I miss Q program first)
    (goes : ∀ a, Q (.ok a) → Asks I miss Q' (next a) second)
    (fails : ∀ e, Q (.error e) → second = [] ∧ Q' (.error e)) :
    Asks I miss Q' (program >>= next) (first ++ second) := by
  intro s kept
  refine (asks s kept).bind fun outcome s' holds kept' => ?_
  cases outcome with
  | ok a => exact goes a holds s' kept'
  | error e =>
    obtain ⟨nothing, failed⟩ := fails e holds
    rw [nothing]
    exact .done kept' failed

/-- A sequence whose first part returns and asks nobody. -/
theorem Asks.next {program : Asking σ ι q r ε α} {next : α → Asking σ ι q r ε β}
    {list : List (ι × q)} (asks : Asks I miss Q program [])
    (returns : ∀ e, ¬Q (.error e)) (goes : ∀ a, Q (.ok a) → Asks I miss Q' (next a) list) :
    Asks I miss Q' (program >>= next) list := by
  have whole := asks.bind goes fun e failed => absurd failed (returns e)
  rwa [List.nil_append] at whole

/-- The outcome of a program. -/
theorem Asks.attempt {program : Asking σ ι q r ε α} {list : List (ι × q)}
    (asks : Asks I miss Q program list) :
    Asks I miss (fun caught => ∃ outcome, caught = .ok outcome ∧ Q outcome) (attempt program)
      list := by
  intro s kept
  rw [← List.append_nil list]
  exact (asks s kept).bind fun outcome s' holds kept' => .done kept' ⟨outcome, rfl, holds⟩

/-- A search in which every item asks its peer and fails. -/
theorem asks_tryEach {stop : ε → Bool} {fetch : κ → Asking σ ι q r ε α}
    {fallback : Asking σ ι q r ε α} {items : List κ} {asked : κ → ι × q} {last : List (ι × q)}
    (each : ∀ item ∈ items, Asks I miss (fun outcome => ∃ e, outcome = .error e ∧ stop e = false)
      (fetch item) [asked item])
    (final : Asks I miss Q fallback last) :
    Asks I miss Q (tryEach stop fetch fallback items) (items.map asked ++ last) := by
  induction items with
  | nil => exact final
  | cons item rest ih =>
    have next := ih fun other member => each other (List.mem_cons_of_mem _ member)
    refine (each item List.mem_cons_self).attempt.bind (fun caught holds => ?_) fun e failed => ?_
    · obtain ⟨outcome, same, e, failed, goesOn⟩ := holds
      rw [Except.ok.inj same, failed]
      simp only [goesOn, Bool.false_eq_true, if_false]
      exact next
    · obtain ⟨outcome, impossible, -⟩ := failed
      cases impossible

end Asks

variable {serve : ι → q → σ → Talk σ ι q r r} {polls : ι × q → List (ι × q)}

/-- Peers that can only ask others: all of them answer a request of the class `D` with a miss after
they asked the peers that `polls` gives, with requests of the class again. -/
structure OnlyAsks (I : σ → Prop) (miss : r → Prop) (serve : ι → q → σ → Talk σ ι q r r)
    (D : ι × q → Prop) (polls : ι × q → List (ι × q)) : Prop where
  /-- A request is answered by asking others. -/
  serves : ∀ x, D x → ∀ s, I s → Polls I miss miss (serve x.1 x.2 s) (polls x)
  /-- What is asked then is a request of the class. -/
  closed : ∀ x, D x → ∀ y ∈ polls x, D y

/-- One request causes another. -/
def Causes (polls : ι × q → List (ι × q)) (x y : ι × q) : Prop := y ∈ polls x

variable {D : ι × q → Prop}

/-- A program settles when the requests it sends are answered. -/
theorem Polls.settles {talk : Talk σ ι q r r} {list : List (ι × q)}
    (asks : Polls I miss miss talk list)
    (ends : ∀ x ∈ list, ∀ s, I s → ∃ a s', Settles serve (serve x.1 x.2 s) a s' ∧ miss a ∧ I s') :
    ∃ a s, Settles serve talk a s ∧ miss a ∧ I s := by
  induction asks with
  | done keeps holds => exact ⟨_, _, .done, holds, keeps⟩
  | @ask peer request s next rest keeps _ ih =>
    obtain ⟨answer, s₁, nested, missed, kept⟩ := ends _ List.mem_cons_self s keeps
    obtain ⟨a, s₂, rest, holds, kept'⟩ :=
      ih answer s₁ kept missed fun x member => ends x (List.mem_cons_of_mem _ member)
    exact ⟨a, s₂, .ask nested rest, holds, kept'⟩

/-- A request without an infinite chain behind it is answered. -/
theorem OnlyAsks.settles_of_acc (only : OnlyAsks I miss serve D polls) {x : ι × q}
    (acc : Acc (fun y x => Causes polls x y) x) (asked : D x) :
    ∀ s, I s → ∃ a s', Settles serve (serve x.1 x.2 s) a s' ∧ miss a ∧ I s' := by
  induction acc with
  | intro x _ ih =>
    intro s keeps
    exact (only.serves x asked s keeps).settles fun y member =>
      ih y member (only.closed x asked y member)

/-- Behind a program that settles no request has an infinite chain. -/
theorem OnlyAsks.acc_of_settles (only : OnlyAsks I miss serve D polls) {talk : Talk σ ι q r r}
    {a : r} {s : σ} (settles : Settles serve talk a s) :
    ∀ list, Polls I miss miss talk list → (∀ x ∈ list, D x) →
      miss a ∧ I s ∧ ∀ x ∈ list, Acc (fun y x => Causes polls x y) x := by
  induction settles with
  | done =>
    intro list asks _
    cases asks with
    | done keeps holds => exact ⟨holds, keeps, by simp⟩
  | @ask peer request s s₁ s₂ next answer a nested rest ihNested ihRest =>
    intro list asks inside
    cases asks with
    | @ask _ _ _ _ others keeps later =>
      have asked : D (peer, request) := inside _ List.mem_cons_self
      obtain ⟨missed, kept, behind⟩ := ihNested _ (only.serves (peer, request) asked s keeps)
        (only.closed _ asked)
      obtain ⟨holds, kept', others⟩ := ihRest _ (later answer s₁ kept missed) fun x member =>
        inside x (List.mem_cons_of_mem _ member)
      exact ⟨holds, kept', List.forall_mem_cons.mpr ⟨Acc.intro _ behind, others⟩⟩

/-- A request causes finitely many others exactly when no infinite chain of requests, each causing
the next, begins with it. -/
theorem OnlyAsks.finitelyMany_iff_acc (only : OnlyAsks I miss serve D polls) {x : ι × q}
    (asked : D x) {s : σ} (keeps : I s) :
    FinitelyMany serve (serve x.1 x.2 s) ↔ Acc (fun y x => Causes polls x y) x := by
  rw [finitelyMany_iff_settles]
  constructor
  · intro settles
    obtain ⟨a, s', settles⟩ := settles
    have behind := only.acc_of_settles settles _ (only.serves x asked s keeps)
      (only.closed x asked)
    exact Acc.intro x behind.2.2
  · intro acc
    obtain ⟨a, s', settles, -, -⟩ := only.settles_of_acc acc asked s keeps
    exact ⟨a, s', settles⟩

end Polls

/-! ## Circles -/

section Circles

variable {α : Type} {causes : α → α → Prop} {x : α}

/-- A circle that can be reached. -/
def ReachesCircle (causes : α → α → Prop) (x : α) : Prop :=
  ∃ y, Relation.ReflTransGen causes x y ∧ Relation.TransGen causes y y

/-- Nothing without an infinite chain behind it lies on a circle. -/
theorem not_circle_of_acc (acc : Acc (fun y x => causes x y) x) :
    ¬Relation.TransGen causes x x := by
  intro circle
  have chains : Acc (Relation.TransGen fun y x => causes x y) x := acc.transGen
  have back : Relation.TransGen (fun y x => causes x y) x x := Relation.transGen_swap.mpr circle
  clear circle acc
  induction chains with
  | intro x _ ih => exact ih x back back

/-- Where finitely many requests can be reached, an infinite chain of them is a circle. -/
theorem acc_iff_no_circle (finite : {y | Relation.ReflTransGen causes x y}.Finite) :
    Acc (fun y x => causes x y) x ↔ ¬ReachesCircle causes x := by
  constructor
  · intro acc circle
    obtain ⟨y, reached, circle⟩ := circle
    have there : Acc (fun y x => causes x y) y := by
      clear circle
      induction reached with
      | refl => exact acc
      | tail _ one ih => exact ih.inv one
    exact not_circle_of_acc there circle
  · intro circleFree
    let Reached : Type := {y // Relation.ReflTransGen causes x y}
    let behind : Reached → Reached → Prop := fun z y => Relation.TransGen causes y.1 z.1
    have fintype : Finite Reached := finite
    have transitive : IsTrans Reached behind := ⟨fun _ _ _ first second => second.trans first⟩
    have irreflexive : Std.Irrefl behind := ⟨fun y circle => circleFree ⟨y.1, y.2, circle⟩⟩
    have founded : WellFounded behind := Finite.wellFounded_of_trans_of_irrefl behind
    have each (y : Reached) : Acc (fun y x => causes x y) y.1 := by
      induction y using founded.induction with
      | h y ih =>
        refine Acc.intro _ fun z one => ?_
        exact ih ⟨z, y.2.tail one⟩ (.single one)
    exact each ⟨x, .refl⟩

end Circles

end Dialogue
