import Shigoto.Atomic.Wp

/-!
# Two runs side by side

What two undisturbed runs have in common when they start in different machines, follow different
programs or live in different worlds. `Pairs R E` relates their ends: both return, and `R` relates what
they return and leave, or both fail with the same error, and `E` relates what they leave. The rules take
the two programs apart in step, so a relation that one part establishes is what the next part starts from.
-/

namespace Atomic

variable {I : Interface} {ε α α' β β' σ : Type}

section

variable (h h' : Handler I σ) (t : Nat)

/-- The run of `p` from `m` and that of `p'` from `m'` end in the same way. -/
def Pairs (p : Prog I ε α) (p' : Prog I ε α') (R : α → α' → Machine I σ → Machine I σ → Prop)
    (E : Machine I σ → Machine I σ → Prop) (m m' : Machine I σ) : Prop :=
  match p.exec h t m, p'.exec h' t m' with
  | (.ok a, n), (.ok a', n') => R a a' n n'
  | (.error e, n), (.error e', n') => e' = e ∧ E n n'
  | _, _ => False

variable {h h' t} {R R' : α → α' → Machine I σ → Machine I σ → Prop}
  {E : Machine I σ → Machine I σ → Prop} {p : Prog I ε α} {p' : Prog I ε α'} {m m' : Machine I σ}

theorem pairs_fail {e : ε} (hE : E m m') :
    Pairs h h' t (.fail e : Prog I ε α) (.fail e : Prog I ε α') R E m m' := ⟨rfl, hE⟩

theorem pairs_mono (hp : Pairs h h' t p p' R E m m') (hR : ∀ a a' n n', R a a' n n' → R' a a' n n') :
    Pairs h h' t p p' R' E m m' := by
  unfold Pairs at hp ⊢
  split at hp
  · exact hR _ _ _ _ hp
  · exact hp
  · exact hp

/-- The run of a sequence is the run of its first part and then that of the rest. -/
theorem exec_bind (f : α → Prog I ε β) :
    (p >>= f).exec h t m = match p.exec h t m with
      | (.ok a, n) => (f a).exec h t n
      | (.error e, n) => (.error e, n) := by
  induction p generalizing m with
  | ret a => rfl
  | fail e => rfl
  | call c k ih => exact ih (h c m.state).1

/-- Sequencing: the first parts have to establish what the second ones start from. -/
theorem pairs_bind {f : α → Prog I ε β} {f' : α' → Prog I ε β'}
    {Q : β → β' → Machine I σ → Machine I σ → Prop} (hp : Pairs h h' t p p' R E m m')
    (hf : ∀ a a' n n', R a a' n n' → Pairs h h' t (f a) (f' a') Q E n n') :
    Pairs h h' t (p >>= f) (p' >>= f') Q E m m' := by
  unfold Pairs at hp
  rw [Pairs, exec_bind, exec_bind]
  split at hp
  · next a n a' n' hend hend' =>
    rw [hend, hend']
    exact hf a a' n n' hp
  · next e n e' n' hend hend' =>
    rw [hend, hend']
    exact hp
  · exact hp.elim

theorem pairs_perform_bind {c c' : I.Cmd} {f : I.Resp c → Prog I ε β} {f' : I.Resp c' → Prog I ε β'}
    {Q : β → β' → Machine I σ → Machine I σ → Prop} :
    Pairs h h' t (Prog.perform c >>= f) (Prog.perform c' >>= f') Q E m m' ↔
      Pairs h h' t (f (h c m.state).1) (f' (h' c' m'.state).1) Q E (m.step h t c) (m'.step h' t c') :=
  Iff.rfl

/-- Two runs that are understood one by one. -/
theorem pairs_of_wp {Q : α → Machine I σ → Prop} {Q' : α' → Machine I σ → Prop}
    (hp : wp h t p Q (fun _ _ => False) m) (hp' : wp h' t p' Q' (fun _ _ => False) m')
    (hR : ∀ a n a' n', Q a n → Q' a' n' → R a a' n n') : Pairs h h' t p p' R E m m' := by
  obtain ⟨hok, herror⟩ := wp_iff_exec.mp hp
  obtain ⟨hok', herror'⟩ := wp_iff_exec.mp hp'
  unfold Pairs
  split
  · next a n a' n' hend hend' =>
    rw [hend] at hok
    rw [hend'] at hok'
    exact hR a n a' n' (hok a rfl) (hok' a' rfl)
  · next e n e' n' hend hend' =>
    rw [hend] at herror
    exact (herror e rfl).elim
  · next hfirst hsecond =>
    cases hend : (p.exec h t m).1 with
    | error e => exact (herror e hend).elim
    | ok a =>
      cases hend' : (p'.exec h' t m').1 with
      | error e => exact (herror' e hend').elim
      | ok a' => exact (hfirst a _ a' _ (Prod.ext hend rfl) (Prod.ext hend' rfl)).elim

/-- What is known of the first run alone. -/
theorem pairs_and_wp {Q : α → Machine I σ → Prop} {F : ε → Machine I σ → Prop}
    (hp : Pairs h h' t p p' R E m m') (hwp : wp h t p Q F m) :
    Pairs h h' t p p' (fun a a' n n' => R a a' n n' ∧ Q a n) E m m' := by
  obtain ⟨hok, -⟩ := wp_iff_exec.mp hwp
  unfold Pairs at hp ⊢
  split at hp
  · next a n a' n' hend hend' =>
    rw [hend] at hok
    exact ⟨hp, hok a rfl⟩
  · exact hp
  · exact hp

/-- **In step**: where every command of a program is answered alike and keeps the relation, the program
returns the same on both sides and keeps it too. -/
theorem Issues.pairs {S : I.Cmd → Prop} {F : ε → Prop} {p : Prog I ε α} (hp : Issues S F p)
    (hstep : ∀ m m' c, E m m' → S c →
      (h' c m'.state).1 = (h c m.state).1 ∧ E (m.step h t c) (m'.step h' t c)) (hE : E m m') :
    Pairs h h' t p p (fun a a' n n' => a' = a ∧ E n n') E m m' := by
  induction p generalizing m m' with
  | ret a => exact ⟨rfl, hE⟩
  | fail e => exact ⟨rfl, hE⟩
  | call c k ih =>
    obtain ⟨hanswer, hnext⟩ := hstep m m' c hE hp.1
    have hrest := ih (h c m.state).1 (hp.2 _) hnext
    show Pairs h h' t (k (h c m.state).1) (k (h' c m'.state).1) _ E _ _
    rw [hanswer]
    exact hrest

end

end Atomic
