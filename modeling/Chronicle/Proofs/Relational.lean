/-
A relational program logic for `RecvM`: two runs of the receiver compared
step by step.

`RTriple P x y Q E`: from two states related by `P`, the runs of `x` and `y`
both return, with the same value, into states related by `Q`, or both throw
the same fault into `E`. Its rules follow the combinators, as `Triple`'s do;
where only one of the two runs takes a path (a conditional whose conditions
differ, a loop only one side runs), the one-sided rules say what the other run
must do meanwhile.
-/
import Chronicle.Proofs.Triple

namespace Chronicle

variable {α β : Type}

/-- Two outcomes that agree: both returned the same value, or both threw the
same fault. -/
def RResult (Q : α → Receiver → Receiver → Prop) (E : Fault → Receiver → Receiver → Prop) :
    EStateM.Result Fault Receiver α → EStateM.Result Fault Receiver α → Prop
  | .ok a s, .ok b t => a = b ∧ Q a s t
  | .error f s, .error f' t => f = f' ∧ E f s t
  | _, _ => False

/-- From states related by `P`, the runs of `x` and `y` agree, into `Q` or
into `E`. -/
def RTriple (P : Receiver → Receiver → Prop) (x y : RecvM α) (Q : α → Receiver → Receiver → Prop)
    (E : Fault → Receiver → Receiver → Prop) : Prop :=
  ∀ s t, P s t → RResult Q E (x s) (y t)

namespace RTriple

variable {P : Receiver → Receiver → Prop} {Q : α → Receiver → Receiver → Prop}
  {E : Fault → Receiver → Receiver → Prop}

theorem pure' {a : α} (h : ∀ s t, P s t → Q a s t) : RTriple P (pure a) (pure a) Q E :=
  fun s t hst => ⟨rfl, h s t hst⟩

theorem throw' {f : Fault} (h : ∀ s t, P s t → E f s t) :
    RTriple P (throw f : RecvM α) (throw f) Q E :=
  fun s t hst => ⟨rfl, h s t hst⟩

theorem modify' {f g : Receiver → Receiver} {Q : PUnit → Receiver → Receiver → Prop}
    (h : ∀ s t, P s t → Q ⟨⟩ (f s) (g t)) : RTriple P (modify f) (modify g) Q E :=
  fun s t hst => ⟨rfl, h s t hst⟩

theorem set' {s' t' : Receiver} {Q : PUnit → Receiver → Receiver → Prop}
    (h : ∀ s t, P s t → Q ⟨⟩ s' t') : RTriple P (set s') (set t') Q E :=
  fun s t hst => ⟨rfl, h s t hst⟩

theorem bind' {x y : RecvM α} {f g : α → RecvM β} {M : α → Receiver → Receiver → Prop}
    {Q : β → Receiver → Receiver → Prop} (hx : RTriple P x y M E)
    (hf : ∀ a, RTriple (M a) (f a) (g a) Q E) : RTriple P (x >>= f) (y >>= g) Q E := by
  intro s t hst
  have h := hx s t hst
  cases hxs : x s <;> cases hyt : y t <;> rw [hxs, hyt] at h
  · obtain ⟨rfl, hm⟩ := h
    rw [run_bind_ok f hxs, run_bind_ok g hyt]
    exact hf _ _ _ hm
  · cases h
  · cases h
  · obtain ⟨rfl, he⟩ := h
    rw [run_bind_error f hxs, run_bind_error g hyt]
    exact ⟨rfl, he⟩

/-- Both runs read their state; the rest runs from the states read. -/
theorem get_bind' {f g : Receiver → RecvM β} {Q : β → Receiver → Receiver → Prop}
    (h : ∀ s t, P s t → RTriple P (f s) (g t) Q E) : RTriple P (get >>= f) (get >>= g) Q E :=
  fun s t hst => h s t hst s t hst

theorem tryCatch' {x y : RecvM α} {h h' : Fault → RecvM α} {E' : Fault → Receiver → Receiver → Prop}
    (hx : RTriple P x y Q E') (hh : ∀ f, RTriple (E' f) (h f) (h' f) Q E) :
    RTriple P (tryCatch x h) (tryCatch y h') Q E := by
  intro s t hst
  have hr := hx s t hst
  cases hxs : x s <;> cases hyt : y t <;> rw [hxs, hyt] at hr
  · rw [run_tryCatch_ok h hxs, run_tryCatch_ok h' hyt]
    exact hr
  · cases hr
  · cases hr
  · obtain ⟨rfl, he⟩ := hr
    rw [run_tryCatch_error h hxs, run_tryCatch_error h' hyt]
    exact hh _ _ _ he

/-- Two conditionals, each run taking its own branch. -/
theorem ite_ite {c c' : Prop} [Decidable c] [Decidable c'] {x y x' y' : RecvM α}
    (h₁ : c → c' → RTriple P x x' Q E) (h₂ : c → ¬c' → RTriple P x y' Q E)
    (h₃ : ¬c → c' → RTriple P y x' Q E) (h₄ : ¬c → ¬c' → RTriple P y y' Q E) :
    RTriple P (if c then x else y) (if c' then x' else y') Q E := by
  by_cases hc : c <;> by_cases hc' : c'
  · rw [if_pos hc, if_pos hc']; exact h₁ hc hc'
  · rw [if_pos hc, if_neg hc']; exact h₂ hc hc'
  · rw [if_neg hc, if_pos hc']; exact h₃ hc hc'
  · rw [if_neg hc, if_neg hc']; exact h₄ hc hc'

/-- Two conditionals on one condition. -/
theorem ite' {c c' : Prop} [Decidable c] [Decidable c'] {x y x' y' : RecvM α} (hc : c ↔ c')
    (hx : c → RTriple P x x' Q E) (hy : ¬c → RTriple P y y' Q E) :
    RTriple P (if c then x else y) (if c' then x' else y') Q E :=
  ite_ite (fun h _ => hx h) (fun h h' => absurd (hc.mp h) h') (fun h h' => absurd (hc.mpr h') h)
    fun h _ => hy h

theorem conseq {x y : RecvM α} {P' : Receiver → Receiver → Prop}
    {Q' : α → Receiver → Receiver → Prop} {E' : Fault → Receiver → Receiver → Prop}
    (h : RTriple P' x y Q' E') (hP : ∀ s t, P s t → P' s t)
    (hQ : ∀ a s t, Q' a s t → Q a s t) (hE : ∀ f s t, E' f s t → E f s t) :
    RTriple P x y Q E := by
  intro s t hst
  have hr := h s t (hP s t hst)
  cases hxs : x s <;> cases hyt : y t <;> rw [hxs, hyt] at hr
  · exact ⟨hr.1, hQ _ _ _ hr.2⟩
  · cases hr
  · cases hr
  · exact ⟨hr.1, hE _ _ _ hr.2⟩

/-- Two loops over one list, related step by step. -/
theorem forM' {l : List β} {f g : β → RecvM PUnit}
    (h : ∀ b ∈ l, RTriple P (f b) (g b) (fun _ => P) E) :
    RTriple P (l.forM f) (l.forM g) (fun _ => P) E := by
  induction l with
  | nil => exact pure' fun _ _ h => h
  | cons b l ih =>
    rw [List.forM_cons', List.forM_cons']
    exact bind' (h b (List.mem_cons_self _ _)) fun _ => ih fun b hb => h b (List.mem_cons_of_mem _ hb)

/-- Two loops over one list returning a value per element, related step by
step: they return the same list. -/
theorem mapM' {γ : Type} {l : List β} {f g : β → RecvM γ}
    (h : ∀ b ∈ l, RTriple P (f b) (g b) (fun _ => P) E) :
    RTriple P (l.mapM f) (l.mapM g) (fun _ => P) E := by
  induction l with
  | nil => exact pure' fun _ _ h => h
  | cons b l ih =>
    rw [List.mapM_cons, List.mapM_cons]
    exact bind' (h b (List.mem_cons_self _ _)) fun _ =>
      bind' (ih fun b hb => h b (List.mem_cons_of_mem _ hb)) fun _ => pure' fun _ _ h => h

/-- Two loops whose steps return `h b` on both runs return the list mapped by
`h`. -/
theorem mapM_map' {γ : Type} {l : List β} {f g : β → RecvM γ} {h : β → γ}
    (hf : ∀ b ∈ l, RTriple P (f b) (g b) (fun c s t => P s t ∧ c = h b) E) :
    RTriple P (l.mapM f) (l.mapM g) (fun cs s t => P s t ∧ cs = l.map h) E := by
  induction l with
  | nil => exact pure' fun _ _ h => ⟨h, rfl⟩
  | cons b l ih =>
    rw [List.mapM_cons, List.mapM_cons]
    refine bind' (hf b (List.mem_cons_self _ _)) fun c s t hst => ?_
    refine bind' (ih fun b hb => hf b (List.mem_cons_of_mem _ hb))
      (fun cs => pure' fun _ _ hcs => ⟨hcs.1, ?_⟩) s t hst.1
    rw [hst.2, hcs.2, List.map_cons]

theorem optionForM' {o : Option β} {f g : β → RecvM PUnit}
    (h : ∀ b ∈ o, RTriple P (f b) (g b) (fun _ => P) E) :
    RTriple P (o.forM f) (o.forM g) (fun _ => P) E := by
  cases o
  · exact pure' fun _ _ h => h
  · exact h _ rfl

end RTriple

end Chronicle
