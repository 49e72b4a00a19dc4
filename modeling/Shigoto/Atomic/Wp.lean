import Shigoto.Atomic.Prog

/-!
# Weakest preconditions

What is to hold before an undisturbed run of a program so that its end satisfies a postcondition.
Programs are finite trees, so every run ends: in a result (`Q`) or in a failure (`E`). The rules
follow the program, one command at a time.

`Issues S F p` only says which commands a program can issue at all and how it can fail. Whatever
those commands preserve, the program preserves (`Issues.wp`); most frame facts need no more than
that.
-/

namespace Atomic

variable {I : Interface} {ε α β σ : Type}

section

variable (h : Handler I σ) (t : Nat)

/-- The run of `p` as thread `t` from `m` ends in `Q` or fails in `E`. -/
def wp : Prog I ε α → (α → Machine I σ → Prop) → (ε → Machine I σ → Prop) → Machine I σ → Prop
  | .ret a, Q, _, m => Q a m
  | .fail e, _, E, m => E e m
  | .call c k, Q, E, m => wp (k (h c m.state).1) Q E (m.step h t c)

variable {h t} {Q Q' : α → Machine I σ → Prop} {E E' : ε → Machine I σ → Prop}

/-- **What a weakest precondition says about the run.** -/
theorem wp_iff_exec {p : Prog I ε α} {m : Machine I σ} :
    wp h t p Q E m ↔
      (∀ a, (p.exec h t m).1 = .ok a → Q a (p.exec h t m).2) ∧
      ∀ e, (p.exec h t m).1 = .error e → E e (p.exec h t m).2 := by
  induction p generalizing m with
  | ret a => simp [wp, Prog.exec]
  | fail e => simp [wp, Prog.exec]
  | call c k ih => exact ih (h c m.state).1

theorem wp_mono {p : Prog I ε α} {m : Machine I σ} (hp : wp h t p Q E m)
    (hQ : ∀ a m', Q a m' → Q' a m') (hE : ∀ e m', E e m' → E' e m') : wp h t p Q' E' m := by
  induction p generalizing m with
  | ret a => exact hQ a m hp
  | fail e => exact hE e m hp
  | call c k ih => exact ih (h c m.state).1 hp

/-- Two facts about one run. -/
theorem wp_and {p : Prog I ε α} {m : Machine I σ} (hp : wp h t p Q E m) (hp' : wp h t p Q' E' m) :
    wp h t p (fun a m' => Q a m' ∧ Q' a m') (fun e m' => E e m' ∧ E' e m') m := by
  induction p generalizing m with
  | ret a => exact ⟨hp, hp'⟩
  | fail e => exact ⟨hp, hp'⟩
  | call c k ih => exact ih (h c m.state).1 hp hp'

/-- Sequencing: the first part has to establish what the second one needs. -/
theorem wp_bind {p : Prog I ε α} {f : α → Prog I ε β} {R : β → Machine I σ → Prop}
    {m : Machine I σ} :
    wp h t (p >>= f) R E m ↔ wp h t p (fun a m' => wp h t (f a) R E m') E m := by
  induction p generalizing m with
  | ret a => exact Iff.rfl
  | fail e => exact Iff.rfl
  | call c k ih => exact ih (h c m.state).1

theorem wp_perform {c : I.Cmd} {R : I.Resp c → Machine I σ → Prop} {m : Machine I σ} :
    wp h t (Prog.perform c) R E m ↔ R (h c m.state).1 (m.step h t c) := Iff.rfl

theorem wp_perform_bind {c : I.Cmd} {f : I.Resp c → Prog I ε β} {R : β → Machine I σ → Prop}
    {m : Machine I σ} :
    wp h t (Prog.perform c >>= f) R E m ↔ wp h t (f (h c m.state).1) R E (m.step h t c) := Iff.rfl

/-- A run that ends well, said as a weakest precondition. -/
theorem exec_eq_ok_iff {p : Prog I ε α} {m m' : Machine I σ} {a : α} :
    p.exec h t m = (.ok a, m') ↔ wp h t p (fun b n => b = a ∧ n = m') (fun _ _ => False) m := by
  induction p generalizing m with
  | ret b => simp [wp, Prog.exec]
  | fail e => simp [wp, Prog.exec]
  | call c k ih => exact ih (h c m.state).1

theorem exists_exec_ok {p : Prog I ε α} {m : Machine I σ} (hp : wp h t p Q (fun _ _ => False) m) :
    ∃ a m', p.exec h t m = (.ok a, m') ∧ Q a m' := by
  induction p generalizing m with
  | ret a => exact ⟨a, m, rfl, hp⟩
  | fail e => exact hp.elim
  | call c k ih => exact ih (h c m.state).1 hp

/-- A run does not look at what was logged before it. -/
theorem exec_log (p : Prog I ε α) (m : Machine I σ) (log : List (Event I σ)) :
    p.exec h t ⟨m.state, m.log ++ log⟩ =
      ((p.exec h t m).1, ⟨(p.exec h t m).2.state, (p.exec h t m).2.log ++ log⟩) := by
  induction p generalizing m with
  | ret a => rfl
  | fail e => rfl
  | call c k ih => exact ih (h c m.state).1 (m.step h t c)

/-- A run takes nothing back that was logged before it. -/
theorem exec_suffix (p : Prog I ε α) (m : Machine I σ) : m.log <:+ (p.exec h t m).2.log := by
  induction p generalizing m with
  | ret a => exact List.suffix_rfl
  | fail e => exact List.suffix_rfl
  | call c k ih =>
    exact (List.suffix_cons _ m.log).trans (ih (h c m.state).1 (m.step h t c))

/-- A program that is stopped early has logged a part of what it would have logged. -/
theorem log_stopped_suffix (n : Nat) (p : Prog I ε α) (m : Machine I σ) :
    (Config.run h (List.replicate n 0) ⟨m, [p]⟩).machine.log <:+ (p.exec h 0 m).2.log := by
  induction n generalizing p m with
  | zero => exact exec_suffix p m
  | succ n ih =>
    cases p with
    | ret a => exact ih (.ret a) m
    | fail e => exact ih (.fail e) m
    | call c k => exact ih (k (h c m.state).1) (m.step h 0 c)

/-- A program run for its effect leaves the machine as the program does. -/
theorem exec_discard (p : Prog I ε α) (m : Machine I σ) :
    (p.discard.exec h t m).2 = (p.exec h t m).2 := by
  induction p generalizing m with
  | ret a => rfl
  | fail e => rfl
  | call c k ih => exact ih (h c m.state).1 (m.step h t c)

end

/-! ## The commands of a program -/

/-- Whatever the answers are, `p` issues only commands in `S` and fails only with errors in `F`. -/
def Issues (S : I.Cmd → Prop) (F : ε → Prop) : Prog I ε α → Prop
  | .ret _ => True
  | .fail e => F e
  | .call c k => S c ∧ ∀ r, Issues S F (k r)

namespace Issues

variable {S S' : I.Cmd → Prop} {F : ε → Prop}

theorem mono {p : Prog I ε α} (hp : Issues S F p) (hS : ∀ c, S c → S' c) : Issues S' F p := by
  induction p with
  | ret a => exact True.intro
  | fail e => exact hp
  | call c k ih => exact ⟨hS c hp.1, fun r => ih r (hp.2 r)⟩

theorem bind {p : Prog I ε α} {f : α → Prog I ε β} (hp : Issues S F p)
    (hf : ∀ a, Issues S F (f a)) : Issues S F (p >>= f) := by
  induction p with
  | ret a => exact hf a
  | fail e => exact hp
  | call c k ih => exact ⟨hp.1, fun r => ih r (hp.2 r)⟩

theorem perform_bind {c : I.Cmd} {f : I.Resp c → Prog I ε α} (hc : S c)
    (hf : ∀ r, Issues S F (f r)) : Issues S F (Prog.perform c >>= f) := ⟨hc, hf⟩

/-- **What the commands preserve, the program preserves.** -/
theorem wp {h : Handler I σ} {t : Nat} {J : Machine I σ → Prop} {p : Prog I ε α}
    (hp : Issues S F p) (hstep : ∀ m c, J m → S c → J (m.step h t c)) {m : Machine I σ} (hJ : J m) :
    wp h t p (fun _ => J) (fun e m' => F e ∧ J m') m := by
  induction p generalizing m with
  | ret a => exact hJ
  | fail e => exact ⟨hp, hJ⟩
  | call c k ih => exact ih (h c m.state).1 (hp.2 _) (hstep m c hJ hp.1)

end Issues

end Atomic
