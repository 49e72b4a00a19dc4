import Shigoto.Atomic.Prog

/-!
# Protocols: what a program may do, given what it has seen

`Obeys P Q E p ℓ` says that program `p`, having seen the history `ℓ`, issues only commands that the
protocol `P` allows at that point, and ends in `Q` (a result) or `E` (a failure). Nothing is said
about the state: the answers are arbitrary, but for `P.answers`, which no handler violates. The
judgement is therefore the same whether the program runs alone or between others.

Facts about the shared state are invariants. `Obeys.exec`, `execAll_induct` and `Config.run_induct`
carry an invariant that every allowed command preserves along a sequential run, a sequence of
programs and any interleaving.
-/

namespace Atomic

variable {I : Interface} {ε α β σ : Type}

/-- Which commands a history allows next, and which answers a command can get at all. -/
structure Protocol (I : Interface) where
  allows : History I → I.Cmd → Prop
  answers : (c : I.Cmd) → I.Resp c → Prop

/-- `p` obeys `P` from the history `ℓ` on, ending in `Q` or failing in `E`. -/
def Obeys (P : Protocol I) (Q : α → History I → Prop) (E : ε → History I → Prop) :
    Prog I ε α → History I → Prop
  | .ret a, ℓ => Q a ℓ
  | .fail e, ℓ => E e ℓ
  | .call c k, ℓ => P.allows ℓ c ∧ ∀ r, P.answers c r → Obeys P Q E (k r) (⟨c, r⟩ :: ℓ)

namespace Obeys

variable {P : Protocol I} {Q Q' : α → History I → Prop} {E E' : ε → History I → Prop}

theorem mono {p : Prog I ε α} {ℓ : History I} (hp : Obeys P Q E p ℓ)
    (hQ : ∀ a ℓ', Q a ℓ' → Q' a ℓ') (hE : ∀ e ℓ', E e ℓ' → E' e ℓ') : Obeys P Q' E' p ℓ := by
  induction p generalizing ℓ with
  | ret a => exact hQ a ℓ hp
  | fail e => exact hE e ℓ hp
  | call c k ih => exact ⟨hp.1, fun r hr => ih r (hp.2 r hr)⟩

/-- A protocol may be replaced by one that allows more and answers less. -/
theorem weaken {P' : Protocol I} {p : Prog I ε α} {ℓ : History I} (hp : Obeys P Q E p ℓ)
    (hallows : ∀ ℓ c, P.allows ℓ c → P'.allows ℓ c) (hanswers : ∀ c r, P'.answers c r → P.answers c r) :
    Obeys P' Q E p ℓ := by
  induction p generalizing ℓ with
  | ret a => exact hp
  | fail e => exact hp
  | call c k ih => exact ⟨hallows ℓ c hp.1, fun r hr => ih r (hp.2 r (hanswers c r hr))⟩

/-- Sequencing: what the first part ends in, the second part starts from. -/
theorem bind {R : β → History I → Prop} {p : Prog I ε α} {f : α → Prog I ε β} {ℓ : History I}
    (hp : Obeys P Q E p ℓ) (hf : ∀ a ℓ', Q a ℓ' → Obeys P R E (f a) ℓ') :
    Obeys P R E (p >>= f) ℓ := by
  induction p generalizing ℓ with
  | ret a => exact hf a ℓ hp
  | fail e => exact hp
  | call c k ih => exact ⟨hp.1, fun r hr => ih r (hp.2 r hr)⟩

end Obeys

section Rules

variable (h : Handler I σ)

/-- The way a program ended satisfies `Q` or `E`. -/
def Ended (Q : α → History I → Prop) (E : ε → History I → Prop) (ℓ : History I) :
    Except ε α → Prop
  | .ok a => Q a ℓ
  | .error e => E e ℓ

/-- **The sequential rule**: an invariant that every allowed command preserves holds after an
undisturbed run, which ends as the protocol says. -/
theorem Obeys.exec {P : Protocol I} {Q : α → History I → Prop} {E : ε → History I → Prop}
    {J : Machine I σ → Prop} {t : Nat} (hans : ∀ c s, P.answers c (h c s).1)
    (hstep : ∀ m c, J m → P.allows (history h t m.log) c → J (m.step h t c))
    {p : Prog I ε α} {m : Machine I σ} (hp : Obeys P Q E p (history h t m.log)) (hJ : J m) :
    J (p.exec h t m).2 ∧ Ended Q E (history h t (p.exec h t m).2.log) (p.exec h t m).1 := by
  induction p generalizing m with
  | ret a => exact ⟨hJ, hp⟩
  | fail e => exact ⟨hJ, hp⟩
  | call c k ih =>
    refine ih (h c m.state).1 (m := m.step h t c) ?_ (hstep m c hJ hp.1)
    rw [history_step_self]
    exact hp.2 _ (hans c m.state)

/-- **The rule for a sequence of programs** that all start and end at `Rest`: the invariant holds
after all of them. A failed program must still leave the thread at rest. -/
theorem execAll_induct (P : Protocol I) (E : ε → History I → Prop) (Rest : History I → Prop)
    (J : Machine I σ → Prop) (ps : List (Prog I ε α)) {t : Nat} (hans : ∀ c s, P.answers c (h c s).1)
    (hstep : ∀ m c, J m → P.allows (history h t m.log) c → J (m.step h t c))
    (hE : ∀ m e, J m → E e (history h t m.log) → Rest (history h t m.log))
    (hps : ∀ p ∈ ps, ∀ ℓ, Rest ℓ → Obeys P (fun _ => Rest) E p ℓ)
    {m : Machine I σ} (hrest : Rest (history h t m.log)) (hJ : J m) :
    J (execAll h t ps m) ∧ Rest (history h t (execAll h t ps m).log) := by
  induction ps generalizing m with
  | nil => exact ⟨hJ, hrest⟩
  | cons p ps ih =>
    obtain ⟨hJ', hend⟩ :=
      Obeys.exec h hans hstep (hps p List.mem_cons_self _ hrest) hJ
    have hrest' : Rest (history h t (p.exec h t m).2.log) := by
      cases hres : (p.exec h t m).1 with
      | ok a => rw [hres] at hend; exact hend
      | error e => rw [hres] at hend; exact hE _ e hJ' hend
    exact ih (fun q hq => hps q (List.mem_cons_of_mem _ hq)) hrest' hJ'

/-- Every thread obeys its own protocol from its own history on. -/
def Config.AllObey (P : Nat → Protocol I) (Q : Nat → α → History I → Prop)
    (E : Nat → ε → History I → Prop) (c : Config I σ ε α) : Prop :=
  ∀ t p, c.threads[t]? = some p → Obeys (P t) (Q t) (E t) p (history h t c.machine.log)

/-- **The interleaving rule**: an invariant that every allowed command of every thread preserves
holds under every schedule, and what is left of each thread still obeys its protocol. -/
theorem Config.run_induct (P : Nat → Protocol I) (Q : Nat → α → History I → Prop)
    (E : Nat → ε → History I → Prop) (J : Machine I σ → Prop)
    (hans : ∀ t c s, (P t).answers c (h c s).1)
    (hstep : ∀ t m c, J m → (P t).allows (history h t m.log) c → J (m.step h t c))
    (schedule : List Nat) {c : Config I σ ε α} (hT : c.AllObey h P Q E) (hJ : J c.machine) :
    J (c.run h schedule).machine ∧ (c.run h schedule).AllObey h P Q E := by
  induction schedule generalizing c with
  | nil => exact ⟨hJ, hT⟩
  | cons u schedule ih =>
    suffices hs : J (c.step h u).machine ∧ (c.step h u).AllObey h P Q E from ih hs.2 hs.1
    unfold Config.step
    split
    · next cmd k hu =>
      have hobey := hT u _ hu
      refine ⟨hstep u c.machine cmd hJ hobey.1, fun t p hp => ?_⟩
      rcases eq_or_ne t u with rfl | hne
      · rw [List.getElem?_set_self (List.getElem?_eq_some_iff.mp hu).1] at hp
        obtain rfl := Option.some.inj hp
        rw [history_step_self]
        exact hobey.2 _ (hans t cmd c.machine.state)
      · rw [List.getElem?_set_ne (Ne.symm hne)] at hp
        rw [history_step_ne h (Ne.symm hne)]
        exact hT t p hp
    · exact ⟨hJ, hT⟩

end Rules

end Atomic
