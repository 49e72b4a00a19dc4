import Mathlib.Data.List.Infix

/-!
# Programs of atomic commands

A concurrent program, seen from its critical sections: a tree that issues one command at a time and
goes on with the answer. What a command does is the business of a `Handler`, which acts on the
shared state; between two commands of one program another program may act.

* `Prog.exec` — run one program alone, to its end.
* `Config.run` — run several programs under a schedule. Every schedule is an interleaving, so a
  theorem about all schedules is a theorem about all interleavings.
* Both record a log: who issued which command, and in which state. `Meets A` says that every entry
  of the log satisfies `A`, which may look at the entries before it; `follow` runs an automaton over
  the log.
-/

namespace Atomic

/-- The commands a program may issue, and the type of each one's answer. -/
structure Interface where
  Cmd : Type
  Resp : Cmd → Type

/-- A program: finished, failed, or about to issue a command. -/
inductive Prog (I : Interface) (ε α : Type) : Type
  | ret (a : α)
  | fail (e : ε)
  | call (c : I.Cmd) (k : I.Resp c → Prog I ε α)

variable {I : Interface} {ε α β σ : Type}

namespace Prog

/-- Sequencing. A failure ends the program. -/
def bind : Prog I ε α → (α → Prog I ε β) → Prog I ε β
  | .ret a, f => f a
  | .fail e, _ => .fail e
  | .call c k, f => .call c fun r => (k r).bind f

instance : Monad (Prog I ε) where
  pure := .ret
  bind := .bind

/-- Issue one command and return its answer. -/
def perform (c : I.Cmd) : Prog I ε (I.Resp c) := .call c .ret

/-- Nothing is left to do. -/
def ended : Prog I ε α → Bool
  | .call _ _ => false
  | _ => true

/-- Run a program for its effect only. -/
def discard (p : Prog I ε α) : Prog I ε Unit := p >>= fun _ => .ret ()

end Prog

/-! ## State, log and single steps -/

/-- What a command answers and what it does to the state. -/
abbrev Handler (I : Interface) (σ : Type) := (c : I.Cmd) → σ → I.Resp c × σ

/-- An entry of the log: thread `tid` issued `cmd` in state `pre`. -/
structure Event (I : Interface) (σ : Type) where
  tid : Nat
  cmd : I.Cmd
  pre : σ

/-- The shared state together with the log of everything done to it, newest entry first. -/
structure Machine (I : Interface) (σ : Type) where
  state : σ
  log : List (Event I σ)

/-- One command with the answer it got. -/
structure Exchange (I : Interface) where
  cmd : I.Cmd
  answer : I.Resp cmd

/-- What one thread has seen so far, newest exchange first. -/
abbrev History (I : Interface) := List (Exchange I)

section Semantics

variable (h : Handler I σ)

/-- The answer the command of an event got. -/
def Event.answer (e : Event I σ) : I.Resp e.cmd := (h e.cmd e.pre).1

/-- The state the event left behind. -/
def Event.post (e : Event I σ) : σ := (h e.cmd e.pre).2

/-- Thread `t` issues `c`. -/
def Machine.step (t : Nat) (c : I.Cmd) (m : Machine I σ) : Machine I σ where
  state := (h c m.state).2
  log := ⟨t, c, m.state⟩ :: m.log

/-- The exchanges of thread `t` in a log. -/
def history (t : Nat) (log : List (Event I σ)) : History I :=
  (log.filter fun e => e.tid = t).map fun e => ⟨e.cmd, e.answer h⟩

theorem history_cons_self (t : Nat) (c : I.Cmd) (s : σ) (log : List (Event I σ)) :
    history h t (⟨t, c, s⟩ :: log) = ⟨c, (h c s).1⟩ :: history h t log := by
  simp [history, Event.answer]

theorem history_cons_ne {t u : Nat} (hne : u ≠ t) (c : I.Cmd) (s : σ)
    (log : List (Event I σ)) : history h t (⟨u, c, s⟩ :: log) = history h t log := by
  simp [history, hne]

@[simp] theorem history_step_self (t : Nat) (c : I.Cmd) (m : Machine I σ) :
    history h t (m.step h t c).log = ⟨c, (h c m.state).1⟩ :: history h t m.log :=
  history_cons_self h t c m.state m.log

theorem history_step_ne {t u : Nat} (hne : u ≠ t) (c : I.Cmd) (m : Machine I σ) :
    history h t (m.step h u c).log = history h t m.log :=
  history_cons_ne h hne c m.state m.log

/-! ## Running one program alone -/

/-- Run a program to its end as thread `t`, undisturbed. -/
def Prog.exec (t : Nat) : Prog I ε α → Machine I σ → Except ε α × Machine I σ
  | .ret a, m => (.ok a, m)
  | .fail e, m => (.error e, m)
  | .call c k, m => (k (h c m.state).1).exec t (m.step h t c)

/-- Run programs one after the other as thread `t`. A failed one does not stop the next. -/
def execAll (t : Nat) (ps : List (Prog I ε α)) (m : Machine I σ) : Machine I σ :=
  ps.foldl (fun m p => (p.exec h t m).2) m

@[simp] theorem execAll_cons (t : Nat) (p : Prog I ε α) (ps : List (Prog I ε α))
    (m : Machine I σ) : execAll h t (p :: ps) m = execAll h t ps (p.exec h t m).2 := rfl

theorem execAll_append (t : Nat) (ps qs : List (Prog I ε α)) (m : Machine I σ) :
    execAll h t (ps ++ qs) m = execAll h t qs (execAll h t ps m) := by
  simp [execAll, List.foldl_append]

/-! ## Running several programs under a schedule -/

/-- A shared machine and the programs that act on it; thread `t` is the `t`-th of them. -/
structure Config (I : Interface) (σ ε α : Type) where
  machine : Machine I σ
  threads : List (Prog I ε α)

/-- Let thread `t` issue its next command. A thread that has ended does nothing. -/
def Config.step (t : Nat) (c : Config I σ ε α) : Config I σ ε α :=
  match c.threads[t]? with
  | some (.call cmd k) =>
    { machine := c.machine.step h t cmd
      threads := c.threads.set t (k (h cmd c.machine.state).1) }
  | _ => c

/-- Let the threads act in the order of the schedule. -/
def Config.run (schedule : List Nat) (c : Config I σ ε α) : Config I σ ε α :=
  schedule.foldl (fun c t => c.step h t) c

@[simp] theorem Config.length_threads_step (t : Nat) (c : Config I σ ε α) :
    (c.step h t).threads.length = c.threads.length := by
  unfold Config.step
  split <;> simp

@[simp] theorem Config.length_threads_run (schedule : List Nat) (c : Config I σ ε α) :
    (c.run h schedule).threads.length = c.threads.length := by
  induction schedule generalizing c with
  | nil => rfl
  | cons t schedule ih => exact (ih (c.step h t)).trans (c.length_threads_step h t)

end Semantics

/-! ## Conditions on a whole log -/

/-- Every entry of the log satisfies `A`, given the entries before it. -/
def Meets (A : Event I σ → List (Event I σ) → Prop) (log : List (Event I σ)) : Prop :=
  ∀ e past, (e :: past) <:+ log → A e past

@[simp] theorem meets_nil (A : Event I σ → List (Event I σ) → Prop) : Meets A [] := by
  intro e past hs
  simp at hs

theorem meets_cons {A : Event I σ → List (Event I σ) → Prop} {e : Event I σ}
    {log : List (Event I σ)} : Meets A (e :: log) ↔ A e log ∧ Meets A log := by
  constructor
  · intro hm
    exact ⟨hm e log List.suffix_rfl, fun e' past hs => hm e' past (hs.trans (List.suffix_cons e log))⟩
  · rintro ⟨he, hm⟩ e' past hs
    rcases List.suffix_cons_iff.mp hs with heq | hs
    · obtain ⟨rfl, rfl⟩ := List.cons.inj heq
      exact he
    · exact hm e' past hs

instance Meets.decidable (A : Event I σ → List (Event I σ) → Prop) [∀ e past, Decidable (A e past)] :
    (log : List (Event I σ)) → Decidable (Meets A log)
  | [] => .isTrue (meets_nil A)
  | e :: log =>
    have := Meets.decidable A log
    decidable_of_iff (A e log ∧ Meets A log) meets_cons.symm

theorem Meets.imp {A B : Event I σ → List (Event I σ) → Prop} {log : List (Event I σ)}
    (hm : Meets A log) (hAB : ∀ e past, A e past → B e past) : Meets B log :=
  fun e past hs => hAB e past (hm e past hs)

/-! ## Automata over a log -/

section

variable {τ : Type} [DecidableEq τ]

/-- Run an automaton over a log. `turn e` is the turn that `e` makes, from one state to another, if it
makes one; a turn from any other state breaks the automaton. -/
def follow (turn : Event I σ → Option (τ × τ)) (start : τ) : List (Event I σ) → Option τ
  | [] => some start
  | e :: past =>
    match turn e with
    | none => follow turn start past
    | some (a, b) => if follow turn start past = some a then some b else none

variable {turn : Event I σ → Option (τ × τ)} {start : τ} {e : Event I σ} {past : List (Event I σ)}

theorem follow_cons_none (h : turn e = none) :
    follow turn start (e :: past) = follow turn start past := by
  simp only [follow, h]

theorem follow_cons_some {a b : τ} (h : turn e = some (a, b))
    (hpast : follow turn start past = some a) :
    follow turn start (e :: past) = some b := by
  simp only [follow, h, hpast, if_pos]

end

end Atomic
