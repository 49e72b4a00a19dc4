import Shigoto.Atomic.Related
import Mathlib.Data.List.Count

/-!
# Programs that keep out of each other's way

Several programs share a state, and each has a view of it of its own: `E t` relates the shared machine to
one on which thread `t` would run alone. If what the others do is not seen in the view of `t`, and the two
machines answer `t` in corresponding ways, then `t` does under every schedule what it does alone
(`Config.run_separate`).

The machine of `t` alone keeps a time of its own: its `n`-th command stands for the one that `t` issued at the
moment `moments t log n` of the shared machine.
-/

namespace Atomic

variable {I : Interface} {ε α σ : Type}

/-! ## Moments -/

/-- How many commands thread `t` has issued. -/
def issued (t : Nat) (log : List (Event I σ)) : Nat := log.countP fun e => e.tid = t

/-- The value of `clock` at each command of thread `t`. -/
def moments (clock : σ → Nat) (t : Nat) (log : List (Event I σ)) (n : Nat) : Nat :=
  (((log.reverse.filter fun e => e.tid = t).map fun e => clock e.pre)[n]?).getD 0

/-- The event of thread `t` is issued at the moment that `τ` gives. -/
def Punctual (clock : σ → Nat) (t : Nat) (τ : Nat → Nat) (e : Event I σ) (past : List (Event I σ)) : Prop :=
  e.tid = t → τ (issued t past) = clock e.pre

theorem issued_cons_self (t : Nat) (c : I.Cmd) (s : σ) (log : List (Event I σ)) :
    issued t (⟨t, c, s⟩ :: log) = issued t log + 1 := by
  simp [issued]

theorem issued_cons_ne {t u : Nat} (hne : u ≠ t) (c : I.Cmd) (s : σ) (log : List (Event I σ)) :
    issued t (⟨u, c, s⟩ :: log) = issued t log := by
  simp [issued, hne]

/-- What holds of a log holds of what it began with. -/
theorem Meets.suffix {A : Event I σ → List (Event I σ) → Prop} {log log' : List (Event I σ)} (hm : Meets A log)
    (hsuffix : log' <:+ log) : Meets A log' :=
  fun e past hs => hm e past (hs.trans hsuffix)

theorem meets_punctual (clock : σ → Nat) (t : Nat) (log : List (Event I σ)) :
    Meets (Punctual clock t (moments clock t log)) log := by
  rintro e past ⟨front, rfl⟩ htid
  have hlength : issued t past = (past.reverse.filter fun e => e.tid = t).length := by
    rw [issued, List.countP_eq_length_filter, List.filter_reverse, List.length_reverse]
  unfold moments
  rw [hlength, List.reverse_append, List.reverse_cons, List.append_assoc, List.filter_append, List.map_append,
    List.getElem?_append_right (by simp)]
  simp [htid]

/-! ## Steps and runs -/

variable {h : Handler I σ}

/-- What a step of thread `t` does: it issues the command that is next, or nothing. -/
theorem Config.step_cases (h : Handler I σ) (t : Nat) (c : Config I σ ε α) :
    (∃ cmd k, c.threads[t]? = some (.call cmd k) ∧ c.step h t =
      { machine := c.machine.step h t cmd
        threads := c.threads.set t (k (h cmd c.machine.state).1) }) ∨ c.step h t = c := by
  unfold Config.step
  split
  · next cmd k ht => exact .inl ⟨cmd, k, ht, rfl⟩
  · exact .inr rfl

theorem Config.log_run_suffix (h : Handler I σ) (schedule : List Nat) (c : Config I σ ε α) :
    c.machine.log <:+ (c.run h schedule).machine.log := by
  induction schedule generalizing c with
  | nil => exact List.suffix_rfl
  | cons t schedule ih =>
    refine List.IsSuffix.trans ?_ (ih (c.step h t))
    rcases c.step_cases h t with ⟨cmd, k, -, hstep⟩ | hstep
    · rw [hstep]
      exact List.suffix_cons _ _
    · rw [hstep]

/-! ## Views -/

section

variable {h' : Nat → Handler I σ} {L : Nat → Link I} {R : Nat → α → α → Prop}
  {E : Nat → Machine I σ → Machine I σ → Prop} {alone : Nat → Except ε α × Machine I σ}
  {clock : σ → Nat} {τ : Nat → Nat → Nat}

/-- What is left of thread `t` is what is left of its program where it runs alone, and so is its view. -/
def Config.Beside (h' : Nat → Handler I σ) (L : Nat → Link I) (R : Nat → α → α → Prop)
    (E : Nat → Machine I σ → Machine I σ → Prop) (alone : Nat → Except ε α × Machine I σ) (t : Nat)
    (c : Config I σ ε α) : Prop :=
  ∀ p, c.threads[t]? = some p → ∃ p' m', Related (L t) (R t) p p' ∧ E t c.machine m' ∧
    p'.exec (h' t) 0 m' = alone t

theorem Config.step_separate
    (hown : ∀ t m m' c c' S, E t m m' → L t c c' S → Punctual clock t (τ t) ⟨t, c, m.state⟩ m.log →
      S (h c m.state).1 (h' t c' m'.state).1 ∧ E t (m.step h t c) (m'.step (h' t) 0 c'))
    (hothers : ∀ t u m m' c c' S, u ≠ t → E t m m' → L u c c' S → E t (m.step h u c) m')
    {c : Config I σ ε α} (hbeside : ∀ t, c.Beside h' L R E alone t) (u : Nat)
    (hpunctual : Meets (Punctual clock u (τ u)) (c.step h u).machine.log) (t : Nat) :
    (c.step h u).Beside h' L R E alone t := by
  rcases c.step_cases h u with ⟨cmd, k, hu, hstep⟩ | hstep
  · rw [hstep] at hpunctual ⊢
    obtain ⟨p', m', hrelated, hE, halone⟩ := hbeside u _ hu
    cases p' with
    | call cmd' k' =>
      obtain ⟨S, hlink, hk⟩ := hrelated
      intro p hp
      rcases eq_or_ne t u with rfl | hne
      · -- the thread issues a command, and so does its program where it runs alone
        rw [List.getElem?_set_self (List.getElem?_eq_some_iff.mp hu).1] at hp
        obtain rfl := Option.some.inj hp
        obtain ⟨hanswer, hE'⟩ := hown t _ _ _ _ S hE hlink (meets_cons.mp hpunctual).1
        exact ⟨_, _, hk _ _ hanswer, hE', halone⟩
      · -- another thread does, and `t` does not see it
        rw [List.getElem?_set_ne (Ne.symm hne)] at hp
        obtain ⟨q', n', hrelated', hE', halone'⟩ := hbeside t p hp
        exact ⟨q', n', hrelated', hothers t u _ _ _ _ S (Ne.symm hne) hE' hlink, halone'⟩
    | _ => exact hrelated.elim
  · rw [hstep]
    exact hbeside t

/-- **Programs that keep out of each other's way** do under every schedule what each of them does alone. -/
theorem Config.run_separate
    (hown : ∀ t m m' c c' S, E t m m' → L t c c' S → Punctual clock t (τ t) ⟨t, c, m.state⟩ m.log →
      S (h c m.state).1 (h' t c' m'.state).1 ∧ E t (m.step h t c) (m'.step (h' t) 0 c'))
    (hothers : ∀ t u m m' c c' S, u ≠ t → E t m m' → L u c c' S → E t (m.step h u c) m')
    (schedule : List Nat) {c : Config I σ ε α} (hbeside : ∀ t, c.Beside h' L R E alone t)
    (hpunctual : ∀ t, Meets (Punctual clock t (τ t)) (c.run h schedule).machine.log) (t : Nat) :
    (c.run h schedule).Beside h' L R E alone t := by
  induction schedule generalizing c with
  | nil => exact hbeside t
  | cons u schedule ih =>
    refine ih (fun t => ?_) hpunctual
    exact c.step_separate hown hothers hbeside u
      ((hpunctual u).suffix ((c.step h u).log_run_suffix h schedule)) t

end

end Atomic
