import Shigoto.Atomic.Pairs
import Mathlib.Data.List.Forall2

/-!
# Related programs

Two programs may issue different commands and still do corresponding things: one passes on what it was
handed, and the other was handed something else. A `Link` says which commands correspond and which of their
answers do. Programs are `Related` if they issue corresponding commands and, whatever corresponding answers
they get, go on as related programs. If the two states answer in corresponding ways, related programs end
in the same way (`Related.pairs`).
-/

namespace Atomic

variable {I : Interface} {ε α α' β β' σ : Type}

/-- Which commands correspond, and which answers of theirs. -/
abbrev Link (I : Interface) := (c c' : I.Cmd) → (I.Resp c → I.Resp c' → Prop) → Prop

/-- Corresponding commands, with related programs after corresponding answers. -/
def Related (L : Link I) (R : α → α' → Prop) : Prog I ε α → Prog I ε α' → Prop
  | .ret a, .ret a' => R a a'
  | .fail e, .fail e' => e' = e
  | .call c k, .call c' k' => ∃ S, L c c' S ∧ ∀ r r', S r r' → Related L R (k r) (k' r')
  | _, _ => False

variable {L : Link I} {R : α → α' → Prop} {Q : β → β' → Prop} {p : Prog I ε α} {p' : Prog I ε α'}

/-- The commands correspond, and corresponding answers of theirs are related by `S`. -/
def Answers (L : Link I) (c c' : I.Cmd) (S : I.Resp c → I.Resp c' → Prop) : Prop :=
  ∃ S', L c c' S' ∧ ∀ r r', S' r r' → S r r'

theorem Answers.of_link {L : Link I} {c c' : I.Cmd} {S : I.Resp c → I.Resp c' → Prop} (h : L c c' S) :
    Answers L c c' S := ⟨S, h, fun _ _ hS => hS⟩

theorem Answers.mono {L : Link I} {c c' : I.Cmd} {S T : I.Resp c → I.Resp c' → Prop} (h : Answers L c c' S)
    (hST : ∀ r r', S r r' → T r r') : Answers L c c' T := by
  obtain ⟨S', hlink, hS'⟩ := h
  exact ⟨S', hlink, fun r r' hr => hST r r' (hS' r r' hr)⟩

theorem related_answers {L : Link I} {c c' : I.Cmd} {S : I.Resp c → I.Resp c' → Prop} (h : Answers L c c' S) :
    Related L S (Prog.perform c : Prog I ε _) (Prog.perform c' : Prog I ε _) := h

theorem related_answers_bind {L : Link I} {Q : β → β' → Prop} {c c' : I.Cmd}
    {S : I.Resp c → I.Resp c' → Prop} (h : Answers L c c' S) {f : I.Resp c → Prog I ε β}
    {f' : I.Resp c' → Prog I ε β'} (hf : ∀ r r', S r r' → Related L Q (f r) (f' r')) :
    Related L Q (Prog.perform c >>= f) (Prog.perform c' >>= f') := by
  obtain ⟨S', hlink, hS'⟩ := h
  exact ⟨S', hlink, fun r r' hr => hf r r' (hS' r r' hr)⟩

theorem related_perform {c c' : I.Cmd} {S : I.Resp c → I.Resp c' → Prop} (h : L c c' S) :
    Related L S (Prog.perform c : Prog I ε _) (Prog.perform c' : Prog I ε _) := ⟨S, h, fun _ _ hS => hS⟩

theorem related_perform_bind {c c' : I.Cmd} {S : I.Resp c → I.Resp c' → Prop} (h : L c c' S)
    {f : I.Resp c → Prog I ε β} {f' : I.Resp c' → Prog I ε β'}
    (hf : ∀ r r', S r r' → Related L Q (f r) (f' r')) :
    Related L Q (Prog.perform c >>= f) (Prog.perform c' >>= f') := ⟨S, h, hf⟩

theorem related_mono {R' : α → α' → Prop} (hp : Related L R p p') (hR : ∀ a a', R a a' → R' a a') :
    Related L R' p p' := by
  induction p generalizing p' with
  | ret a =>
    cases p' with
    | ret a' => exact hR a a' hp
    | _ => exact hp.elim
  | fail e =>
    cases p' with
    | fail e' => exact hp
    | _ => exact hp.elim
  | call c k ih =>
    cases p' with
    | call c' k' =>
      obtain ⟨S, hc, hk⟩ := hp
      exact ⟨S, hc, fun r r' hS => ih r (hk r r' hS)⟩
    | _ => exact hp.elim

theorem related_bind (hp : Related L R p p') {f : α → Prog I ε β} {f' : α' → Prog I ε β'}
    (hf : ∀ a a', R a a' → Related L Q (f a) (f' a')) : Related L Q (p >>= f) (p' >>= f') := by
  induction p generalizing p' with
  | ret a =>
    cases p' with
    | ret a' => exact hf a a' hp
    | _ => exact hp.elim
  | fail e =>
    cases p' with
    | fail e' => exact hp
    | _ => exact hp.elim
  | call c k ih =>
    cases p' with
    | call c' k' =>
      obtain ⟨S, hc, hk⟩ := hp
      exact ⟨S, hc, fun r r' hS => ih r (hk r r' hS)⟩
    | _ => exact hp.elim

section

variable {h h' : Handler I σ} {t : Nat} {E : σ → σ → Prop}

/-- **Related programs end in the same way** where the states answer in corresponding ways. -/
theorem Related.pairs (hp : Related L R p p')
    (hstep : ∀ s s' c c' S, E s s' → L c c' S → S (h c s).1 (h' c' s').1 ∧ E (h c s).2 (h' c' s').2)
    {m m' : Machine I σ} (hE : E m.state m'.state) :
    Pairs h h' t p p' (fun a a' n n' => R a a' ∧ E n.state n'.state) (fun n n' => E n.state n'.state)
      m m' := by
  induction p generalizing p' m m' with
  | ret a =>
    cases p' with
    | ret a' => exact ⟨hp, hE⟩
    | _ => exact hp.elim
  | fail e =>
    cases p' with
    | fail e' => exact ⟨hp, hE⟩
    | _ => exact hp.elim
  | call c k ih =>
    cases p' with
    | call c' k' =>
      obtain ⟨S, hc, hk⟩ := hp
      obtain ⟨hanswer, hnext⟩ := hstep m.state m'.state c c' S hE hc
      show Pairs h h' t (k (h c m.state).1) (k' (h' c' m'.state).1) _ _ (m.step h t c) (m'.step h' t c')
      exact ih _ (hk _ _ hanswer) hnext
    | _ => exact hp.elim

theorem Pairs.weaken {T T' : α → α' → Machine I σ → Machine I σ → Prop}
    {F F' : Machine I σ → Machine I σ → Prop} {m m' : Machine I σ} (hpairs : Pairs h h' t p p' T F m m')
    (hT : ∀ a a' n n', T a a' n n' → T' a a' n n') (hF : ∀ n n', F n n' → F' n n') :
    Pairs h h' t p p' T' F' m m' := by
  unfold Pairs at hpairs ⊢
  split at hpairs
  · exact hT _ _ _ _ hpairs
  · exact ⟨hpairs.1, hF _ _ hpairs.2⟩
  · exact hpairs

/-- However two runs end, `E` holds of what they leave. -/
theorem Pairs.ends {m m' : Machine I σ} {T : α → α' → Machine I σ → Machine I σ → Prop}
    (hpairs : Pairs h h' t p p' (fun a a' n n' => T a a' n n' ∧ E n.state n'.state)
      (fun n n' => E n.state n'.state) m m') : E (p.exec h t m).2.state (p'.exec h' t m').2.state := by
  unfold Pairs at hpairs
  split at hpairs
  · next hend hend' =>
    rw [hend, hend']
    exact hpairs.2
  · next hend hend' =>
    rw [hend, hend']
    exact hpairs.2
  · exact hpairs.elim

/-- Lists of related programs, one after the other. -/
theorem related_execAll
    (hstep : ∀ s s' c c' S, E s s' → L c c' S → S (h c s).1 (h' c' s').1 ∧ E (h c s).2 (h' c' s').2)
    {ps : List (Prog I ε α)} {ps' : List (Prog I ε α')} (hps : List.Forall₂ (Related L R) ps ps')
    {m m' : Machine I σ} (hE : E m.state m'.state) :
    E (execAll h t ps m).state (execAll h' t ps' m').state := by
  induction hps generalizing m m' with
  | nil => exact hE
  | cons hp _ ih => exact ih (hp.pairs hstep hE).ends

end

end Atomic
