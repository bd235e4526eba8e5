import Mathlib.Tactic.Common

/-!
# Programs over atomic operations

A `Prog Op Ans α` performs atomic operations `o : Op`, each answered by a value of `Ans o`, and
returns an `α`. Between two operations of one program any number of operations of others may run,
so a program in flight is what is left of it: the continuation of its next operation.

* `eval`: the run of a program that no other program disturbs.
* `Protocol`: an automaton that says which operations are allowed in which phase, and `Follows`: a
  program keeps to a protocol, whatever (valid) answers it gets. `Follows.bind` is the rule for
  sequencing; `FollowsE` and its rules are the same for programs that may fail, `Ensures` also says
  where these leave the protocol when they do. `Protocol.recording` only keeps record.
* `Stops`: the runs of a program that may be interrupted at any operation; `Follows.stops`: what a
  protocol tells about them.
-/

/-- A program that performs operations `Op` with answers `Ans` and returns an `α`. -/
inductive Prog (Op : Type) (Ans : Op → Type) (α : Type) : Type
  | ret (a : α)
  | op (o : Op) (k : Ans o → Prog Op Ans α)

namespace Prog

variable {Op : Type} {Ans : Op → Type} {α β γ : Type}

/-- Run `p`, then `f` on its result. -/
protected def bind : Prog Op Ans α → (α → Prog Op Ans β) → Prog Op Ans β
  | ret a, f => f a
  | op o k, f => op o fun x => (k x).bind f

instance : Monad (Prog Op Ans) where
  pure := ret
  bind := Prog.bind

theorem bind_ret (p : Prog Op Ans α) : p.bind ret = p := by
  induction p with
  | ret a => rfl
  | op o k ih => simp only [Prog.bind, ih]

theorem bind_assoc (p : Prog Op Ans α) (f : α → Prog Op Ans β) (g : β → Prog Op Ans γ) :
    (p.bind f).bind g = p.bind fun a => (f a).bind g := by
  induction p with
  | ret a => rfl
  | op o k ih => simp only [Prog.bind, ih]

instance : LawfulMonad (Prog Op Ans) :=
  LawfulMonad.mk' (Prog Op Ans) bind_ret (fun _ _ => rfl) bind_assoc

/-- Perform one operation and return its answer. -/
def perform (o : Op) : Prog Op Ans (Ans o) := op o ret

/-! ## Undisturbed runs -/

section Eval

variable {σ : Type} (h : (o : Op) → σ → Ans o × σ)

/-- Run a program on a state, with `h` answering its operations. -/
def eval : Prog Op Ans α → σ → α × σ
  | ret a, s => (a, s)
  | op o k, s => (k (h o s).1).eval (h o s).2

@[simp] theorem eval_pure (a : α) (s : σ) : (pure a : Prog Op Ans α).eval h s = (a, s) := rfl

@[simp] theorem eval_bind (p : Prog Op Ans α) (f : α → Prog Op Ans β) (s : σ) :
    (p >>= f).eval h s = (f (p.eval h s).1).eval h (p.eval h s).2 := by
  change (p.bind f).eval h s = _
  induction p generalizing s with
  | ret a => rfl
  | op o k ih => exact ih _ _

end Eval

/-! ## Protocols -/

/-- An automaton over the operations of a program. `valid o a` are the answers `a` that operation
`o` can get at all. -/
structure Protocol (Op : Type) (Ans : Op → Type) where
  Phase : Type
  allows : Phase → Op → Prop
  next : Phase → (o : Op) → Ans o → Phase
  valid : (o : Op) → Ans o → Prop

variable (P : Protocol Op Ans)

/-- From phase `ph` the program performs allowed operations only, and returns in a phase and with a
value that satisfy `Q`. -/
def Follows (Q : P.Phase → α → Prop) : P.Phase → Prog Op Ans α → Prop
  | ph, ret a => Q ph a
  | ph, op o k => P.allows ph o ∧ ∀ a, P.valid o a → Follows Q (P.next ph o a) (k a)

variable {P} {Q R : P.Phase → α → Prop} {ph : P.Phase}

theorem Follows.mono {p : Prog Op Ans α} (hp : Follows P Q ph p) (h : ∀ ph a, Q ph a → R ph a) :
    Follows P R ph p := by
  induction p generalizing ph with
  | ret a => exact h _ _ hp
  | op o k ih => exact ⟨hp.1, fun a ha => ih a (hp.2 a ha)⟩

theorem Follows.bind {Q : P.Phase → β → Prop} {p : Prog Op Ans α} {f : α → Prog Op Ans β}
    (hp : Follows P R ph p) (hf : ∀ ph a, R ph a → Follows P Q ph (f a)) :
    Follows P Q ph (p >>= f) := by
  change Follows P Q ph (p.bind f)
  induction p generalizing ph with
  | ret a => exact hf _ _ hp
  | op o k ih => exact ⟨hp.1, fun a ha => ih a (hp.2 a ha)⟩

theorem Follows.perform {o : Op} {Q : P.Phase → Ans o → Prop} (ho : P.allows ph o)
    (h : ∀ a, P.valid o a → Q (P.next ph o a) a) : Follows P Q ph (perform o) :=
  ⟨ho, h⟩

/-- Everything is allowed, and the phase is what has been performed. -/
def Protocol.recording (valid : (o : Op) → Ans o → Prop) : Protocol Op Ans where
  Phase := List ((o : Op) × Ans o)
  allows _ _ := True
  next log o a := log ++ [⟨o, a⟩]
  valid := valid

theorem Follows.recording (valid : (o : Op) → Ans o → Prop) (p : Prog Op Ans α)
    (log : List ((o : Op) × Ans o)) :
    Follows (Protocol.recording valid) (fun _ _ => True) log p := by
  induction p generalizing log with
  | ret a => trivial
  | op o k ih => exact ⟨trivial, fun a _ => ih a _⟩

/-! ## Programs that may fail -/

section Except

variable {ε : Type}

/-- `Follows` for a program that may fail: `Q` is about the returns that did not. -/
def FollowsE (P : Protocol Op Ans) (Q : P.Phase → α → Prop) (ph : P.Phase)
    (p : ExceptT ε (Prog Op Ans) α) : Prop :=
  Follows P (fun ph r => ∀ a, r = .ok a → Q ph a) ph p.run

theorem FollowsE.mono {p : ExceptT ε (Prog Op Ans) α} (hp : FollowsE P Q ph p)
    (h : ∀ ph a, Q ph a → R ph a) : FollowsE P R ph p :=
  Follows.mono hp fun ph _ hr a ha => h ph a (hr a ha)

theorem FollowsE.pure {a : α} (h : Q ph a) :
    FollowsE P Q ph (pure a : ExceptT ε (Prog Op Ans) α) :=
  fun _ hb => by cases hb; exact h

theorem FollowsE.throw (e : ε) : FollowsE P Q ph (throw e : ExceptT ε (Prog Op Ans) α) :=
  fun _ hb => by cases hb

theorem FollowsE.bind {Q : P.Phase → β → Prop} {p : ExceptT ε (Prog Op Ans) α}
    {f : α → ExceptT ε (Prog Op Ans) β} (hp : FollowsE P R ph p)
    (hf : ∀ ph a, R ph a → FollowsE P Q ph (f a)) : FollowsE P Q ph (p >>= f) := by
  refine Follows.bind hp fun ph r hr => ?_
  cases r with
  | ok a => exact hf ph a (hr a rfl)
  | error e => exact FollowsE.throw e

theorem FollowsE.map {Q : P.Phase → β → Prop} {p : ExceptT ε (Prog Op Ans) α} (f : α → β)
    (hp : FollowsE P (fun ph a => Q ph (f a)) ph p) : FollowsE P Q ph (f <$> p) := by
  rw [map_eq_pure_bind]
  exact hp.bind fun _ _ h => FollowsE.pure h

/-- Perform an operation that always succeeds. -/
theorem FollowsE.lift {o : Op} {Q : P.Phase → Ans o → Prop} (ho : P.allows ph o)
    (h : ∀ a, P.valid o a → Q (P.next ph o a) a) :
    FollowsE (ε := ε) P Q ph (ExceptT.lift (perform o)) := by
  refine Follows.bind (Follows.perform (Q := Q) ho h) fun ph a ha b hb => ?_
  cases hb
  exact ha

/-- `FollowsE`, where the program leaves the protocol in `E` if it fails. -/
def Ensures (P : Protocol Op Ans) (E : P.Phase → Prop) (Q : P.Phase → α → Prop) (ph : P.Phase)
    (p : ExceptT ε (Prog Op Ans) α) : Prop :=
  Follows P (fun ph r => (∀ e, r = .error e → E ph) ∧ ∀ a, r = .ok a → Q ph a) ph p.run

variable {E : P.Phase → Prop}

theorem Ensures.pure {a : α} (h : Q ph a) :
    Ensures P E Q ph (pure a : ExceptT ε (Prog Op Ans) α) :=
  ⟨fun _ he => (nomatch he), fun _ hb => by cases hb; exact h⟩

theorem Ensures.throw {e : ε} (h : E ph) :
    Ensures P E Q ph (throw e : ExceptT ε (Prog Op Ans) α) :=
  ⟨fun _ _ => h, fun _ hb => (nomatch hb)⟩

theorem Ensures.bind {Q : P.Phase → β → Prop} {p : ExceptT ε (Prog Op Ans) α}
    {f : α → ExceptT ε (Prog Op Ans) β} (hp : Ensures P E R ph p)
    (hf : ∀ ph a, R ph a → Ensures P E Q ph (f a)) : Ensures P E Q ph (p >>= f) := by
  refine Follows.bind hp fun ph r hr => ?_
  cases r with
  | ok a => exact hf ph a (hr.2 a rfl)
  | error e => exact Ensures.throw (hr.1 e rfl)

/-- Perform an operation that always succeeds. -/
theorem Ensures.lift {o : Op} {Q : P.Phase → Ans o → Prop} (ho : P.allows ph o)
    (h : ∀ a, P.valid o a → Q (P.next ph o a) a) :
    Ensures (ε := ε) P E Q ph (ExceptT.lift (perform o)) :=
  Follows.bind (Follows.perform (Q := Q) ho h) fun _ _ ha => Ensures.pure ha

end Except

/-! ## Interrupted runs -/

/-- Where a run is over: with the value that is returned, or at the operation under way. -/
inductive Stop (Op α : Type)
  | returned (a : α)
  | interrupted (o : Op)

/-- A run of the program, with the answers it gets, and where it is over. -/
inductive Stops : Prog Op Ans α → List ((o : Op) × Ans o) → Stop Op α → Prop
  | ret (a : α) : Stops (.ret a) [] (.returned a)
  | interrupt (o : Op) (k : Ans o → Prog Op Ans α) : Stops (.op o k) [] (.interrupted o)
  | op {o : Op} {k : Ans o → Prog Op Ans α} {a : Ans o} {log : List ((o : Op) × Ans o)}
      {s : Stop Op α} : Stops (k a) log s → Stops (.op o k) (⟨o, a⟩ :: log) s

/-- The phase after a list of operations. -/
def Protocol.after (P : Protocol Op Ans) (ph : P.Phase) (log : List ((o : Op) × Ans o)) : P.Phase :=
  log.foldl (fun ph x => P.next ph x.1 x.2) ph

/-- The operation under way is allowed; the value returned satisfies `Q`. -/
def Protocol.Holds (P : Protocol Op Ans) (Q : P.Phase → α → Prop) (ph : P.Phase) :
    Stop Op α → Prop
  | .returned a => Q ph a
  | .interrupted o => P.allows ph o

/-- **A program that keeps to a protocol does so wherever it is interrupted.** -/
theorem Follows.stops {p : Prog Op Ans α} {log : List ((o : Op) × Ans o)} {s : Stop Op α}
    (hp : Follows P Q ph p) (h : Stops p log s) (hvalid : ∀ x ∈ log, P.valid x.1 x.2) :
    P.Holds Q (P.after ph log) s := by
  induction h generalizing ph with
  | ret a => exact hp
  | interrupt o k => exact hp.1
  | op _ ih =>
    exact ih (hp.2 _ (hvalid _ List.mem_cons_self)) fun x hx => hvalid x (List.mem_cons_of_mem _ hx)

end Prog
