/-
A small program logic for `RecvM`, so that each invariant of the receiver is
proved once per function of the source, by the shape of that function, rather
than by unfolding `receive_result` whole.

`Triple P x Q E`: from a state in `P`, the computation `x` returns into `Q` or
throws into `E`. The rules follow the combinators the model is written with:
`pure`, `bind`, `get`/`set`/`modify`, `throw`, `tryCatch`, conditionals and
`List.forM`. `Triple.Keeps I x` is the common case of an invariant `I` that
holds on every exit, normal or not.
-/
import Chronicle.Receiver.Types

namespace Chronicle

variable {α β : Type}

-- ======================================================= running RecvM

section Run

variable (s : Receiver)

@[simp] theorem run_pure (a : α) : (pure a : RecvM α) s = .ok a s := rfl
@[simp] theorem run_get : (get : RecvM Receiver) s = .ok s s := rfl
@[simp] theorem run_set (t : Receiver) : (set t : RecvM PUnit) s = .ok ⟨⟩ t := rfl
@[simp] theorem run_modify (f : Receiver → Receiver) :
    (modify f : RecvM PUnit) s = .ok ⟨⟩ (f s) := rfl
@[simp] theorem run_throw (f : Fault) : (throw f : RecvM α) s = .error f s := rfl

variable {s} {x : RecvM α} {a : α} {f : Fault} {s' : Receiver}

theorem run_bind_ok (g : α → RecvM β) (h : x s = .ok a s') : (x >>= g) s = g a s' := by
  show EStateM.bind x g s = _
  simp only [EStateM.bind, h]

theorem run_bind_error (g : α → RecvM β) (h : x s = .error f s') :
    (x >>= g) s = .error f s' := by
  show EStateM.bind x g s = _
  simp only [EStateM.bind, h]

theorem run_tryCatch_ok (k : Fault → RecvM α) (h : x s = .ok a s') :
    (tryCatch x k) s = .ok a s' := by
  show EStateM.tryCatch x k s = _
  simp only [EStateM.tryCatch, h]

theorem run_tryCatch_error (k : Fault → RecvM α) (h : x s = .error f s') :
    (tryCatch x k) s = k f s' := by
  show EStateM.tryCatch x k s = _
  simp only [EStateM.tryCatch, h]
  rfl

/-- A bind that returned: both halves did. -/
theorem run_bind_eq_ok {g : α → RecvM β} {b : β} (h : (x >>= g) s = .ok b s') :
    ∃ a s₁, x s = .ok a s₁ ∧ g a s₁ = .ok b s' := by
  cases hx : x s with
  | ok a s₁ => exact ⟨a, s₁, rfl, by rwa [run_bind_ok g hx] at h⟩
  | error f s₁ => rw [run_bind_error g hx] at h; cases h

/-- A bind that threw: the first half did, or it returned and the second did. -/
theorem run_bind_eq_error {g : α → RecvM β} (h : (x >>= g) s = .error f s') :
    x s = .error f s' ∨ ∃ a s₁, x s = .ok a s₁ ∧ g a s₁ = .error f s' := by
  cases hx : x s with
  | ok a s₁ => exact .inr ⟨a, s₁, rfl, by rwa [run_bind_ok g hx] at h⟩
  | error e s₁ =>
    rw [run_bind_error g hx] at h
    cases h
    exact .inl rfl

@[simp] theorem run_publish (e : Event) :
    publish e s = .ok ⟨⟩ { s with published := s.published ++ [e] } := rfl

@[simp] theorem run_fail (what : String) : (fail what : RecvM α) s = .error (.error what) s := rfl

section Bind

variable (s : Receiver) (g : α → RecvM β)

@[simp] theorem run_pure_bind (a : α) : (pure a >>= g) s = g a s := rfl
@[simp] theorem run_get_bind (g : Receiver → RecvM β) : (get >>= g) s = g s s := rfl
@[simp] theorem run_set_bind (t : Receiver) (g : PUnit → RecvM β) :
    (set t >>= g) s = g ⟨⟩ t := rfl
@[simp] theorem run_modify_bind (f : Receiver → Receiver) (g : PUnit → RecvM β) :
    (modify f >>= g) s = g ⟨⟩ (f s) := rfl
@[simp] theorem run_publish_bind (e : Event) (g : PUnit → RecvM β) :
    (publish e >>= g) s = g ⟨⟩ { s with published := s.published ++ [e] } := rfl
@[simp] theorem run_throw_bind (f : Fault) : (throw f >>= g) s = .error f s := rfl
@[simp] theorem run_fail_bind (what : String) : (fail what >>= g) s = .error (.error what) s := rfl

end Bind

/-- A computation evaluated once for its value and a view `g` of the state it
ends in returned that value, in a state with that view: how one evaluation of a
fixed run is read back. -/
theorem run_eq_ok_of_view {g : Receiver → β} {v : β}
    (h : (x >>= fun b => get >>= fun t => pure (b, g t)).run' s = some (a, v)) :
    ∃ t, x s = .ok a t ∧ g t = v := by
  delta EStateM.run' EStateM.run at h
  cases hx : x s with
  | ok b t =>
    simp only [run_bind_ok _ hx, run_get_bind, run_pure, Option.some.injEq, Prod.mk.injEq] at h
    exact ⟨t, by rw [h.1], h.2⟩
  | error => simp only [run_bind_error _ hx] at h; cases h

end Run

-- ============================================================ triples

/-- From a state in `P`, `x` returns into `Q` or throws into `E`. -/
def Triple (P : Receiver → Prop) (x : RecvM α) (Q : α → Receiver → Prop)
    (E : Fault → Receiver → Prop) : Prop :=
  ∀ s, P s → match x s with
    | .ok a s' => Q a s'
    | .error f s' => E f s'

variable {P R : Receiver → Prop} {Q : α → Receiver → Prop} {E : Fault → Receiver → Prop}

namespace Triple

/-- What a triple says of a run that returned. -/
theorem ok_post {x : RecvM α} {s s' : Receiver} {a : α} (ht : Triple P x Q E) (hp : P s)
    (h : x s = .ok a s') : Q a s' := by
  have := ht s hp
  rwa [h] at this

/-- What a triple says of a run that threw. -/
theorem error_post {x : RecvM α} {s s' : Receiver} {f : Fault} (ht : Triple P x Q E) (hp : P s)
    (h : x s = .error f s') : E f s' := by
  have := ht s hp
  rwa [h] at this

theorem pure' {a : α} (h : ∀ s, P s → Q a s) : Triple P (pure a) Q E := h

theorem bind' {x : RecvM α} {f : α → RecvM β} {M : α → Receiver → Prop}
    {Q : β → Receiver → Prop} (hx : Triple P x M E) (hf : ∀ a, Triple (M a) (f a) Q E) :
    Triple P (x >>= f) Q E := by
  intro s hs
  have := hx s hs
  cases h : x s with
  | ok a s' => rw [h] at this; rw [run_bind_ok f h]; exact hf a s' this
  | error e s' => rw [h] at this; rw [run_bind_error f h]; exact this

theorem get' {Q : Receiver → Receiver → Prop} (h : ∀ s, P s → Q s s) :
    Triple P (get : RecvM Receiver) Q E := h

theorem modify' {f : Receiver → Receiver} {Q : PUnit → Receiver → Prop}
    (h : ∀ s, P s → Q ⟨⟩ (f s)) : Triple P (modify f) Q E := h

theorem set' {t : Receiver} {Q : PUnit → Receiver → Prop} (h : ∀ s, P s → Q ⟨⟩ t) :
    Triple P (set t) Q E := h

theorem throw' {f : Fault} (h : ∀ s, P s → E f s) : Triple P (throw f : RecvM α) Q E := h

/-- A read of the state: the rest runs from exactly the state read. -/
theorem get_bind' {f : Receiver → RecvM β} {Q : β → Receiver → Prop}
    (hf : ∀ s, P s → Triple (· = s) (f s) Q E) : Triple P (get >>= f) Q E :=
  fun s hs => hf s hs s rfl

/-- A read of the state: the rest may assume the precondition of the state
read. -/
theorem get_bind_of' {f : Receiver → RecvM β} {Q : β → Receiver → Prop}
    (hf : ∀ s, P s → Triple P (f s) Q E) : Triple P (get >>= f) Q E :=
  fun s hs => hf s hs s hs

theorem tryCatch' {x : RecvM α} {h : Fault → RecvM α} {E' : Fault → Receiver → Prop}
    (hx : Triple P x Q E') (hh : ∀ f, Triple (E' f) (h f) Q E) :
    Triple P (tryCatch x h) Q E := by
  intro s hs
  have := hx s hs
  cases hr : x s with
  | ok a s' => rw [hr] at this; rw [run_tryCatch_ok h hr]; exact this
  | error e s' => rw [hr] at this; rw [run_tryCatch_error h hr]; exact hh e s' this

theorem ite' {c : Prop} [Decidable c] {x y : RecvM α}
    (hx : c → Triple P x Q E) (hy : ¬c → Triple P y Q E) :
    Triple P (if c then x else y) Q E := by
  by_cases h : c
  · rw [if_pos h]; exact hx h
  · rw [if_neg h]; exact hy h

theorem conseq {x : RecvM α} {P' : Receiver → Prop} {Q' : α → Receiver → Prop}
    {E' : Fault → Receiver → Prop} (h : Triple P' x Q' E') (hP : ∀ s, P s → P' s)
    (hQ : ∀ a s, Q' a s → Q a s) (hE : ∀ f s, E' f s → E f s) : Triple P x Q E := by
  intro s hs
  have := h s (hP s hs)
  cases hr : x s with
  | ok a s' => rw [hr] at this; exact hQ a s' this
  | error e s' => rw [hr] at this; exact hE e s' this

/-- An invariant that every step of a loop keeps holds after the loop. -/
theorem forM' {l : List β} {f : β → RecvM PUnit} {Q : PUnit → Receiver → Prop}
    (hf : ∀ b ∈ l, Triple P (f b) (fun _ => P) E) (hQ : ∀ s, P s → Q ⟨⟩ s) :
    Triple P (l.forM f) Q E := by
  induction l with
  | nil => exact pure' hQ
  | cons b l ih =>
    rw [List.forM_cons']
    exact bind' (hf b (List.mem_cons_self _ _))
      fun _ => ih fun b hb => hf b (List.mem_cons_of_mem _ hb)

/-- A loop whose step takes `R c` to `R (g c b)` takes `R c` to the fold of
`g` over the list. -/
theorem forM_foldl' {γ : Type} {l : List β} {f : β → RecvM PUnit} {g : γ → β → γ}
    {R : γ → Receiver → Prop} (hf : ∀ b ∈ l, ∀ c, Triple (R c) (f b) (fun _ => R (g c b)) E)
    (c : γ) : Triple (R c) (l.forM f) (fun _ => R (l.foldl g c)) E := by
  induction l generalizing c with
  | nil => exact pure' fun _ h => h
  | cons b l ih =>
    rw [List.forM_cons']
    exact bind' (hf b (List.mem_cons_self _ _) c)
      fun _ => ih (fun b hb => hf b (List.mem_cons_of_mem _ hb)) _

/-- A loop that returns a value per element, whose step takes `R c` to
`R (g c b)`: the loop takes `R c` to the fold of `g` over the list. -/
theorem mapM_foldl' {γ δ : Type} {l : List β} {f : β → RecvM δ} {g : γ → β → γ}
    {R : γ → Receiver → Prop} (hf : ∀ b ∈ l, ∀ c, Triple (R c) (f b) (fun _ => R (g c b)) E)
    (c : γ) : Triple (R c) (l.mapM f) (fun _ => R (l.foldl g c)) E := by
  induction l generalizing c with
  | nil => exact pure' fun _ h => h
  | cons b l ih =>
    rw [List.mapM_cons]
    exact bind' (hf b (List.mem_cons_self _ _) c) fun _ =>
      bind' (ih (fun b hb => hf b (List.mem_cons_of_mem _ hb)) _) fun _ => pure' fun _ h => h

/-- A loop whose step keeps `P` and returns `g b`: the loop keeps `P` and
returns the list mapped by `g`. -/
theorem mapM_map' {δ : Type} {l : List β} {f : β → RecvM δ} {g : β → δ}
    (hf : ∀ b ∈ l, Triple P (f b) (fun c s => P s ∧ c = g b) E) :
    Triple P (l.mapM f) (fun cs s => P s ∧ cs = l.map g) E := by
  induction l with
  | nil => exact pure' fun _ h => ⟨h, rfl⟩
  | cons b l ih =>
    rw [List.mapM_cons]
    refine bind' (hf b (List.mem_cons_self _ _)) fun c => ?_
    refine fun s hs => bind' (ih fun b hb => hf b (List.mem_cons_of_mem _ hb))
      (fun cs => pure' fun t ht => ⟨ht.1, ?_⟩) s hs.1
    rw [hs.2, ht.2, List.map_cons]

end Triple

/-- `I` holds whenever `x` is left, normally or by a fault. -/
def Triple.Keeps (I : Receiver → Prop) (x : RecvM α) : Prop :=
  Triple I x (fun _ => I) (fun _ => I)

namespace Triple.Keeps

variable {I : Receiver → Prop}

theorem pure' {a : α} : Keeps I (pure a) := fun _ h => h

theorem throw' {f : Fault} : Keeps I (throw f : RecvM α) := fun _ h => h

theorem modify' {g : Receiver → Receiver} (h : ∀ s, I s → I (g s)) :
    Keeps I (modify g : RecvM PUnit) :=
  h

theorem bind' {x : RecvM α} {f : α → RecvM β} (hx : Keeps I x) (hf : ∀ a, Keeps I (f a)) :
    Keeps I (x >>= f) :=
  Triple.bind' hx hf

/-- A read of the state: the rest may assume the invariant of the state read. -/
theorem get_bind' {f : Receiver → RecvM β} (hf : ∀ s, I s → Keeps I (f s)) :
    Keeps I (get >>= f) :=
  fun s hs => hf s hs s hs

theorem ite' {c : Prop} [Decidable c] {x y : RecvM α} (hx : Keeps I x) (hy : Keeps I y) :
    Keeps I (if c then x else y) :=
  Triple.ite' (fun _ => hx) (fun _ => hy)

theorem tryCatch' {x : RecvM α} {h : Fault → RecvM α} (hx : Keeps I x)
    (hh : ∀ f, Keeps I (h f)) : Keeps I (tryCatch x h) :=
  Triple.tryCatch' hx hh

theorem forM' {l : List β} {f : β → RecvM PUnit} (hf : ∀ b ∈ l, Keeps I (f b)) :
    Keeps I (l.forM f) :=
  Triple.forM' hf fun _ h => h

theorem mapM' {δ : Type} {l : List β} {f : β → RecvM δ} (hf : ∀ b ∈ l, Keeps I (f b)) :
    Keeps I (l.mapM f) :=
  Triple.mapM_foldl' (R := fun _ => I) (g := fun _ _ => ()) (fun b hb _ => hf b hb) ()

theorem holds_of_ok {x : RecvM α} {s s' : Receiver} {a : α} (hx : Keeps I x) (hs : I s)
    (h : x s = .ok a s') : I s' := by
  have := hx s hs
  rwa [h] at this

theorem holds_of_error {x : RecvM α} {s s' : Receiver} {f : Fault} (hx : Keeps I x) (hs : I s)
    (h : x s = .error f s') : I s' := by
  have := hx s hs
  rwa [h] at this

theorem optionForM' {o : Option β} {f : β → RecvM PUnit} (hf : ∀ b, Keeps I (f b)) :
    Keeps I (o.forM f) := by
  cases o
  · exact pure'
  · exact hf _

/-- A relation `R` that every run of `x` keeps from its start state carries an
invariant that `R` transports. -/
theorem of_rel {x : RecvM α} {R : Receiver → Receiver → Prop} (hx : ∀ t, Keeps (R t) x)
    (hR : ∀ t, R t t) (hI : ∀ t t', I t → R t t' → I t') : Keeps I x := by
  intro t ht
  have := hx t t (hR t)
  cases h : x t <;> rw [h] at this <;> exact hI _ _ ht this

end Triple.Keeps

end Chronicle
