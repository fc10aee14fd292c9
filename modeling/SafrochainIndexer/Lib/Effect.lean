import Mathlib.Logic.Basic

/-!
# Calls that return an error, panic, or return

A call over a state `σ` returns a value, returns an error, or panics. The
state it leaves behind is kept in all three cases: what a call wrote before
it failed stays written. `Fixes` is the frame judgment (a call never changes
what `f` reads), `Returns` and `Fails` are the judgments of success and failure.
-/

namespace SafrochainIndexer

/-- How a call stops early: an error it returns, or a panic that unwinds it. -/
inductive Fault
  | error (message : String)
  | panic (message : String)
  deriving DecidableEq, Repr

/-- An error message gets the caller's context in front; a panic does not. -/
def Fault.within (context : String) : Fault → Fault
  | .error message => .error (context ++ message)
  | .panic message => .panic message

abbrev Eff (σ : Type) := ExceptT Fault (StateM σ)

namespace Eff

variable {σ α β γ : Type}

def exec (m : Eff σ α) (s : σ) : Except Fault α × σ := StateT.run (ExceptT.run m) s

def fail (message : String) : Eff σ α := throw (.error message)

def panicking (message : String) : Eff σ α := throw (.panic message)

def ofExcept : Except String α → Eff σ α
  | .ok a => pure a
  | .error message => fail message

/-- A call outside the model, which may also panic. -/
def ofFallible : Except Fault α → Eff σ α
  | .ok a => pure a
  | .error fault => throw fault

/-- `if err != nil { return fmt.Errorf(context + "%s", err) }`. -/
def wrap (context : String) (m : Eff σ α) : Eff σ α :=
  tryCatch m fun fault => throw (fault.within context)

/-- An error is logged and dropped; a panic still unwinds. -/
def attempt (m : Eff σ Unit) : Eff σ Unit :=
  tryCatch m fun
    | .error _ => pure ()
    | .panic message => panicking message

-- ---------------------------------------------------------------------------
-- Errors without a state
-- ---------------------------------------------------------------------------

theorem bind_ok {ε : Type} {x : Except ε α} {f : α → Except ε β} {b : β} :
    x >>= f = .ok b ↔ ∃ a, x = .ok a ∧ f a = .ok b := by
  cases x <;> simp [bind, Except.bind]

theorem pure_ok {ε : Type} {a b : α} : (pure a : Except ε α) = .ok b ↔ a = b := by
  simp [pure, Except.pure]

@[simp] theorem mapError_ok (f : β → γ) (a : α) : (Except.ok a).mapError f = .ok a := rfl

@[simp] theorem mapError_error (f : β → γ) (b : β) :
    (Except.error b : Except β α).mapError f = .error (f b) := rfl

-- ---------------------------------------------------------------------------
-- Runs
-- ---------------------------------------------------------------------------

@[simp] theorem exec_pure (a : α) (s : σ) : exec (pure a) s = (.ok a, s) := rfl

@[simp] theorem exec_get (s : σ) : exec (get : Eff σ σ) s = (.ok s, s) := rfl

@[simp] theorem exec_set (t s : σ) : exec (set t : Eff σ PUnit) s = (.ok (), t) := rfl

@[simp] theorem exec_modify (f : σ → σ) (s : σ) :
    exec (modify f : Eff σ PUnit) s = (.ok (), f s) := rfl

@[simp] theorem exec_throw (fault : Fault) (s : σ) :
    exec (throw fault : Eff σ α) s = (.error fault, s) := rfl

@[simp] theorem exec_fail (message : String) (s : σ) :
    exec (fail message : Eff σ α) s = (.error (.error message), s) := rfl

@[simp] theorem exec_panicking (message : String) (s : σ) :
    exec (panicking message : Eff σ α) s = (.error (.panic message), s) := rfl

theorem exec_bind (m : Eff σ α) (f : α → Eff σ β) (s : σ) :
    exec (m >>= f) s = match exec m s with
      | (.ok a, t) => exec (f a) t
      | (.error fault, t) => (.error fault, t) := by
  show exec (ExceptT.mk (ExceptT.bindCont f (exec m s).1)) (exec m s).2 = _
  rcases exec m s with ⟨_ | _, t⟩ <;> rfl

theorem exec_tryCatch (m : Eff σ α) (f : Fault → Eff σ α) (s : σ) :
    exec (tryCatch m f) s = match exec m s with
      | (.ok a, t) => (.ok a, t)
      | (.error fault, t) => exec (f fault) t := by
  unfold exec
  rw [ExceptT.run_tryCatch, StateT.run_bind]
  generalize StateT.run (ExceptT.run m) s = r
  rcases r with ⟨_ | _, t⟩ <;> rfl

theorem exec_ofExcept (x : Except String α) (s : σ) :
    exec (ofExcept x) s = (x.mapError .error, s) := by
  cases x <;> rfl

theorem exec_wrap (context : String) (m : Eff σ α) (s : σ) :
    exec (wrap context m) s = ((exec m s).1.mapError (·.within context), (exec m s).2) := by
  rw [wrap, exec_tryCatch]
  cases exec m s with
  | mk result t => cases result <;> rfl

theorem exec_attempt_state (m : Eff σ Unit) (s : σ) : (exec (attempt m) s).2 = (exec m s).2 := by
  rw [attempt, exec_tryCatch]
  cases exec m s with
  | mk result t =>
    cases result with
    | ok _ => rfl
    | error fault => cases fault <;> rfl

-- ---------------------------------------------------------------------------
-- Success
-- ---------------------------------------------------------------------------

/-- From `s` the call returns `a` and leaves `t`. -/
def Returns (m : Eff σ α) (s : σ) (a : α) (t : σ) : Prop := exec m s = (.ok a, t)

@[simp] theorem returns_pure {a b : α} {s t : σ} :
    Returns (pure a : Eff σ α) s b t ↔ a = b ∧ s = t := by
  simp [Returns]

@[simp] theorem returns_get {s t u : σ} : Returns (get : Eff σ σ) s u t ↔ s = u ∧ s = t := by
  simp [Returns]

@[simp] theorem returns_modify {f : σ → σ} {u : PUnit} {s t : σ} :
    Returns (modify f : Eff σ PUnit) s u t ↔ f s = t := by
  simp [Returns]

@[simp] theorem returns_fail {message : String} {a : α} {s t : σ} :
    Returns (fail message : Eff σ α) s a t ↔ False := by
  simp [Returns]

@[simp] theorem returns_panicking {message : String} {a : α} {s t : σ} :
    Returns (panicking message : Eff σ α) s a t ↔ False := by
  simp [Returns]

theorem returns_bind {m : Eff σ α} {f : α → Eff σ β} {b : β} {s u : σ} :
    Returns (m >>= f) s b u ↔ ∃ a t, Returns m s a t ∧ Returns (f a) t b u := by
  unfold Returns
  rw [exec_bind]
  obtain ⟨fault | a, t⟩ := exec m s
  · simp
  · constructor
    · exact fun h => ⟨a, t, rfl, h⟩
    · rintro ⟨_, _, h, hf⟩
      cases h
      exact hf

@[simp] theorem returns_ofExcept {x : Except String α} {a : α} {s t : σ} :
    Returns (ofExcept x : Eff σ α) s a t ↔ x = .ok a ∧ s = t := by
  unfold Returns
  rw [exec_ofExcept]
  cases x <;> simp

@[simp] theorem returns_ofFallible {x : Except Fault α} {a : α} {s t : σ} :
    Returns (ofFallible x : Eff σ α) s a t ↔ x = .ok a ∧ s = t := by
  cases x <;> simp [ofFallible, Returns]

@[simp] theorem returns_wrap {context : String} {m : Eff σ α} {a : α} {s t : σ} :
    Returns (wrap context m) s a t ↔ Returns m s a t := by
  unfold Returns
  rw [exec_wrap]
  cases exec m s with
  | mk result t => cases result <;> simp

@[simp] theorem returns_forM_nil {g : α → Eff σ PUnit} {u : PUnit} {s t : σ} :
    Returns (([] : List α).forM g) s u t ↔ s = t := by
  simp [Returns, List.forM]

theorem returns_forM_cons {g : α → Eff σ PUnit} {x : α} {xs : List α} {s t : σ} :
    Returns ((x :: xs).forM g) s ⟨⟩ t ↔
      ∃ u, Returns (g x) s ⟨⟩ u ∧ Returns (xs.forM g) u ⟨⟩ t := by
  have h := returns_bind (m := g x) (f := fun _ => xs.forM g) (b := ⟨⟩) (s := s) (u := t)
  constructor
  · intro hr
    obtain ⟨_, u, h1, h2⟩ := h.mp hr
    exact ⟨u, h1, h2⟩
  · rintro ⟨u, h1, h2⟩
    exact h.mpr ⟨_, u, h1, h2⟩

theorem Returns.state {m : Eff σ α} {a : α} {s t : σ} (h : Returns m s a t) :
    (exec m s).2 = t := by
  rw [h]

theorem Returns.unique {m : Eff σ α} {a b : α} {s t u : σ} (h : Returns m s a t)
    (h' : Returns m s b u) : a = b ∧ t = u := by
  have heq := Eq.trans h.symm h'
  simpa using heq

theorem Returns.exec_bind {m : Eff σ α} {a : α} {s t : σ} (h : Returns m s a t)
    (f : α → Eff σ β) : exec (m >>= f) s = exec (f a) t := by
  rw [Eff.exec_bind, h]

/-- `a, err := x; if err != nil { return fmt.Errorf(context + "%s", err) }`. -/
theorem exec_wrap_ofExcept_bind (context : String) (x : Except String α) (f : α → Eff σ β) (s : σ) :
    exec (wrap context (ofExcept x) >>= f) s =
      match x with
      | .ok a => exec (f a) s
      | .error message => (.error (.error (context ++ message)), s) := by
  rw [Eff.exec_bind, exec_wrap, exec_ofExcept]
  cases x <;> rfl

theorem Returns.exec_forM_cons {g : α → Eff σ PUnit} {x : α} {xs : List α} {s t : σ}
    (h : Returns (g x) s ⟨⟩ t) : exec ((x :: xs).forM g) s = exec (xs.forM g) t :=
  h.exec_bind fun _ => xs.forM g

theorem returns_mapM {f : α → Eff σ β} {g : α → β} {as : List α} {s : σ}
    (h : ∀ a ∈ as, Returns (f a) s (g a) s) : Returns (as.mapM f) s (as.map g) s := by
  induction as with
  | nil => exact returns_pure.mpr ⟨rfl, rfl⟩
  | cons a as ih =>
    obtain ⟨ha, has⟩ := List.forall_mem_cons.mp h
    rw [List.mapM_cons]
    exact returns_bind.mpr ⟨_, _, ha, returns_bind.mpr ⟨_, _, ih has, returns_pure.mpr ⟨rfl, rfl⟩⟩⟩

theorem Returns.forall_mapM {f : α → Eff σ β} {Q : β → Prop}
    (hf : ∀ a s b t, Returns (f a) s b t → Q b) {as : List α} {bs : List β} {s t : σ}
    (h : Returns (as.mapM f) s bs t) : ∀ b ∈ bs, Q b := by
  induction as generalizing s bs t with
  | nil =>
    obtain ⟨rfl, -⟩ := returns_pure.mp h
    exact List.forall_mem_nil Q
  | cons a as ih =>
    rw [List.mapM_cons] at h
    obtain ⟨b, u, hb, hrest⟩ := returns_bind.mp h
    obtain ⟨_, v, hbs, hpure⟩ := returns_bind.mp hrest
    obtain ⟨rfl, -⟩ := returns_pure.mp hpure
    exact List.forall_mem_cons.mpr ⟨hf a s b u hb, ih hbs⟩

theorem exec_forM_cons_error {g : α → Eff σ PUnit} {x : α} {xs : List α} {s t : σ} {fault : Fault}
    (h : exec (g x) s = (.error fault, t)) : exec ((x :: xs).forM g) s = (.error fault, t) := by
  have hb := exec_bind (g x) (fun _ => xs.forM g) s
  rw [h] at hb
  exact hb

-- ---------------------------------------------------------------------------
-- Failure
-- ---------------------------------------------------------------------------

/-- From `s` the call stops early and leaves `t`. -/
def Fails (m : Eff σ α) (s t : σ) : Prop := ∃ fault, exec m s = (.error fault, t)

@[simp] theorem fails_pure {a : α} {s t : σ} : Fails (pure a : Eff σ α) s t ↔ False := by
  simp [Fails]

@[simp] theorem fails_get {s t : σ} : Fails (get : Eff σ σ) s t ↔ False := by
  simp [Fails]

@[simp] theorem fails_set {s t u : σ} : Fails (set u : Eff σ PUnit) s t ↔ False := by
  simp [Fails]

@[simp] theorem fails_modify {f : σ → σ} {s t : σ} :
    Fails (modify f : Eff σ PUnit) s t ↔ False := by
  simp [Fails]

@[simp] theorem fails_fail {message : String} {s t : σ} :
    Fails (fail message : Eff σ α) s t ↔ s = t := by
  simp [Fails]

@[simp] theorem fails_panicking {message : String} {s t : σ} :
    Fails (panicking message : Eff σ α) s t ↔ s = t := by
  simp [Fails]

@[simp] theorem fails_ofExcept {x : Except String α} {s t : σ} :
    Fails (ofExcept x : Eff σ α) s t ↔ (∃ message, x = .error message) ∧ s = t := by
  unfold Fails
  rw [exec_ofExcept]
  cases x <;> simp

@[simp] theorem fails_wrap {context : String} {m : Eff σ α} {s t : σ} :
    Fails (wrap context m) s t ↔ Fails m s t := by
  unfold Fails
  rw [exec_wrap]
  cases exec m s with
  | mk result t => cases result <;> simp

theorem fails_bind {m : Eff σ α} {f : α → Eff σ β} {s u : σ} :
    Fails (m >>= f) s u ↔ Fails m s u ∨ ∃ a t, Returns m s a t ∧ Fails (f a) t u := by
  unfold Fails Returns
  rw [exec_bind]
  obtain ⟨fault | a, t⟩ := exec m s
  · simp
  · constructor
    · exact fun h => .inr ⟨a, t, rfl, h⟩
    · rintro (⟨_, h⟩ | ⟨_, _, h, hf⟩)
      · cases h
      · cases h
        exact hf

theorem fails_forM_cons {g : α → Eff σ PUnit} {x : α} {xs : List α} {s u : σ} :
    Fails ((x :: xs).forM g) s u ↔
      Fails (g x) s u ∨ ∃ t, Returns (g x) s ⟨⟩ t ∧ Fails (xs.forM g) t u := by
  have h := fails_bind (m := g x) (f := fun _ => xs.forM g) (s := s) (u := u)
  constructor
  · intro hf
    obtain hx | ⟨_, t, hx, hxs⟩ := h.mp hf
    · exact .inl hx
    · exact .inr ⟨t, hx, hxs⟩
  · rintro (hx | ⟨t, hx, hxs⟩)
    · exact h.mpr (.inl hx)
    · exact h.mpr (.inr ⟨_, t, hx, hxs⟩)

theorem Fails.state {m : Eff σ α} {s t : σ} (h : Fails m s t) : (exec m s).2 = t := by
  obtain ⟨fault, h⟩ := h
  rw [h]

theorem Returns.not_fails {m : Eff σ α} {a : α} {s t u : σ} (h : Returns m s a t) :
    ¬ Fails m s u := by
  rintro ⟨fault, hf⟩
  exact nomatch congrArg Prod.fst (h.symm.trans hf)

theorem returns_or_fails (m : Eff σ α) (s : σ) :
    (∃ a, Returns m s a (exec m s).2) ∨ Fails m s (exec m s).2 := by
  unfold Returns Fails
  obtain ⟨fault | a, t⟩ := exec m s
  · exact .inr ⟨fault, rfl⟩
  · exact .inl ⟨a, rfl⟩

-- ---------------------------------------------------------------------------
-- Panics
-- ---------------------------------------------------------------------------

def Quiet (m : Eff σ α) : Prop := ∀ s message, (exec m s).1 ≠ .error (.panic message)

theorem Quiet.pure {a : α} : Quiet (Pure.pure a : Eff σ α) := by
  intro s message h
  cases h

theorem Quiet.get : Quiet (MonadState.get : Eff σ σ) := by
  intro s message h
  cases h

theorem Quiet.fail {message : String} : Quiet (fail message : Eff σ α) := by
  intro s message h
  cases h

theorem Quiet.modify {g : σ → σ} :
    Quiet (MonadState.modifyGet fun s => (PUnit.unit, g s) : Eff σ PUnit) := by
  intro s message h
  cases h

theorem Quiet.bind {m : Eff σ α} {k : α → Eff σ γ} (hm : Quiet m) (hk : ∀ a, Quiet (k a)) :
    Quiet (m >>= k) := by
  intro s message
  have h := hm s message
  rw [exec_bind]
  cases he : exec m s with
  | mk result t =>
    rw [he] at h
    cases result with
    | ok a => exact hk a t message
    | error fault => exact fun hfault => h (congrArg Except.error (Except.error.inj hfault))

theorem Quiet.wrap {context : String} {m : Eff σ α} (h : Quiet m) : Quiet (Eff.wrap context m) := by
  intro s message hpanic
  rw [exec_wrap] at hpanic
  have hs := h s message
  cases he : (exec m s).1 with
  | ok a => simp [he] at hpanic
  | error fault =>
    cases fault with
    | error text => simp [he, Fault.within] at hpanic
    | panic text =>
      simp only [he, mapError_error, Fault.within, Except.error.injEq, Fault.panic.injEq] at hpanic
      exact hs (hpanic ▸ he)

theorem Quiet.attempt_returns {m : Eff σ Unit} (h : Quiet m) (s : σ) :
    Returns (attempt m) s () (exec m s).2 := by
  have hs := h s
  unfold Returns attempt
  rw [exec_tryCatch]
  cases he : exec m s with
  | mk result t =>
    cases result with
    | ok a => rfl
    | error fault =>
      cases fault with
      | error text => rfl
      | panic text => exact absurd (congrArg Prod.fst he) (hs text)

theorem mapM_panics {f : α → Eff σ β} {g : α → β} {P : α → Prop} {as : List α} {s : σ}
    {message : String} (hreturns : ∀ a ∈ as, P a → Returns (f a) s (g a) s)
    (hpanics : ∀ a ∈ as, ¬P a → exec (f a) s = (.error (.panic message), s))
    (h : ∃ a ∈ as, ¬P a) : exec (as.mapM f) s = (.error (.panic message), s) := by
  induction as with
  | nil => simp at h
  | cons a as ih =>
    obtain ⟨hreturn, hreturns⟩ := List.forall_mem_cons.mp hreturns
    obtain ⟨hpanic, hpanics⟩ := List.forall_mem_cons.mp hpanics
    rw [List.mapM_cons]
    by_cases ha : P a
    · have hrest : ∃ b ∈ as, ¬P b := by
        obtain ⟨b, hb, hnot⟩ := h
        obtain rfl | hb := List.mem_cons.mp hb
        · exact absurd ha hnot
        · exact ⟨b, hb, hnot⟩
      rw [(hreturn ha).exec_bind, exec_bind, ih hreturns hpanics hrest]
    · rw [exec_bind, hpanic ha]

-- ---------------------------------------------------------------------------
-- Frames
-- ---------------------------------------------------------------------------

/-- Whether it succeeds or not, the call leaves `f` of the state as it was. -/
def Fixes (f : σ → β) (m : Eff σ α) : Prop := ∀ s, f (exec m s).2 = f s

theorem Fixes.of_returns {f : σ → β} {m : Eff σ α} {a : α} {s t : σ} (h : Fixes f m)
    (hr : Returns m s a t) : f t = f s := by
  rw [← hr.state]
  exact h s

theorem Fixes.of_fails {f : σ → β} {m : Eff σ α} {s t : σ} (h : Fixes f m) (hf : Fails m s t) :
    f t = f s := by
  rw [← hf.state]
  exact h s

theorem Fixes.pure {f : σ → β} {a : α} : Fixes f (Pure.pure a) := fun _ => rfl

theorem Fixes.get {f : σ → β} : Fixes f (MonadState.get : Eff σ σ) := fun _ => rfl

theorem Fixes.fail {f : σ → β} {message : String} : Fixes f (fail message : Eff σ α) := fun _ => rfl

theorem Fixes.panicking {f : σ → β} {message : String} :
    Fixes f (Eff.panicking message : Eff σ α) := fun _ => rfl

theorem Fixes.modify {f : σ → β} {g : σ → σ} (h : ∀ s, f (g s) = f s) :
    Fixes f (MonadState.modifyGet fun s => (PUnit.unit, g s) : Eff σ PUnit) := fun s => h s

theorem Fixes.ofExcept {f : σ → β} {x : Except String α} : Fixes f (Eff.ofExcept x : Eff σ α) := by
  intro s
  rw [exec_ofExcept]

theorem Fixes.ofFallible {f : σ → β} {x : Except Fault α} :
    Fixes f (Eff.ofFallible x : Eff σ α) := by
  intro s
  cases x <;> rfl

theorem Fixes.bind {f : σ → β} {m : Eff σ α} {k : α → Eff σ γ} (hm : Fixes f m)
    (hk : ∀ a, Fixes f (k a)) : Fixes f (m >>= k) := by
  intro s
  have h := hm s
  rw [exec_bind]
  cases he : exec m s with
  | mk result t =>
    rw [he] at h
    cases result with
    | ok a => exact (hk a t).trans h
    | error fault => exact h

theorem exec_bind_of_fixes {f : σ → β} (m : Eff σ α) {k : α → Eff σ γ} (hk : ∀ a, Fixes f (k a))
    (s : σ) : f (exec (m >>= k) s).2 = f (exec m s).2 := by
  rw [exec_bind]
  obtain ⟨fault | a, t⟩ := exec m s
  · rfl
  · exact hk a t

theorem Fixes.wrap {f : σ → β} {context : String} {m : Eff σ α} (h : Fixes f m) :
    Fixes f (Eff.wrap context m) := by
  intro s
  rw [exec_wrap]
  exact h s

theorem Fixes.attempt {f : σ → β} {m : Eff σ Unit} (h : Fixes f m) : Fixes f (Eff.attempt m) := by
  intro s
  rw [exec_attempt_state]
  exact h s

theorem Fixes.forM {f : σ → β} {g : α → Eff σ PUnit} {l : List α} (h : ∀ x ∈ l, Fixes f (g x)) :
    Fixes f (l.forM g) := by
  induction l with
  | nil => exact Fixes.pure
  | cons x xs ih =>
    exact (h x (by simp)).bind fun _ => ih fun y hy => h y (List.mem_cons_of_mem _ hy)

theorem Fixes.mapM {f : σ → β} {g : α → Eff σ γ} {l : List α} (h : ∀ x ∈ l, Fixes f (g x)) :
    Fixes f (l.mapM g) := by
  induction l with
  | nil => exact Fixes.pure
  | cons x xs ih =>
    rw [List.mapM_cons]
    refine (h x (by simp)).bind fun _ => ?_
    exact (ih fun y hy => h y (List.mem_cons_of_mem _ hy)).bind fun _ => Fixes.pure

theorem Fixes.foldlM {f : σ → β} {g : γ → α → Eff σ γ} {l : List α} {b : γ}
    (h : ∀ b x, Fixes f (g b x)) : Fixes f (l.foldlM g b) := by
  induction l generalizing b with
  | nil => exact Fixes.pure
  | cons x xs ih => exact (h b x).bind fun _ => ih

-- ---------------------------------------------------------------------------
-- Relations
-- ---------------------------------------------------------------------------

/-- Whether it succeeds or not, the call takes the state along `R`. -/
def Along (R : σ → σ → Prop) (m : Eff σ α) : Prop := ∀ s, R s (exec m s).2

theorem Fixes.along {R : σ → σ → Prop} {f : σ → β} {m : Eff σ α}
    (hR : ∀ s t, f t = f s → R s t) (h : Fixes f m) : Along R m := fun s => hR _ _ (h s)

/-- The second call may rely on what the first one returned. -/
theorem Along.bind {R : σ → σ → Prop} {m : Eff σ α} {k : α → Eff σ γ}
    (htrans : ∀ {s t u}, R s t → R t u → R s u) (hm : Along R m)
    (hk : ∀ s a t, Returns m s a t → Along R (k a)) : Along R (m >>= k) := by
  intro s
  have h := hm s
  rw [exec_bind]
  cases he : exec m s with
  | mk result t =>
    rw [he] at h
    cases result with
    | ok a => exact htrans h (hk s a t he t)
    | error fault => exact h

theorem Along.exec_bind {R : σ → σ → Prop} {P : σ → Prop} {m : Eff σ α} {k : α → Eff σ γ} {s : σ}
    (hR : ∀ s t, R s t → P s → P t) (hm : P (exec m s).2) (hk : ∀ a, Along R (k a)) :
    P (exec (m >>= k) s).2 := by
  rw [Eff.exec_bind]
  cases he : exec m s with
  | mk result t =>
    rw [he] at hm
    cases result with
    | ok a => exact hR _ _ (hk a t) hm
    | error fault => exact hm

theorem Along.mapM {R : σ → σ → Prop} {g : α → Eff σ γ} {l : List α} (hrefl : ∀ s, R s s)
    (htrans : ∀ {s t u}, R s t → R t u → R s u) (h : ∀ x, Along R (g x)) : Along R (l.mapM g) := by
  induction l with
  | nil => exact fun s => hrefl s
  | cons x xs ih =>
    rw [List.mapM_cons]
    refine .bind htrans (h x) fun _ _ _ _ => ?_
    exact .bind htrans ih fun _ _ _ _ s => hrefl s

theorem Along.forM {R : σ → σ → Prop} {g : α → Eff σ PUnit} {l : List α} (hrefl : ∀ s, R s s)
    (htrans : ∀ {s t u}, R s t → R t u → R s u) (h : ∀ x ∈ l, Along R (g x)) :
    Along R (l.forM g) := by
  induction l with
  | nil => exact fun s => hrefl s
  | cons x xs ih =>
    refine .bind htrans (h x List.mem_cons_self) fun _ _ _ _ => ?_
    exact ih fun y hy => h y (List.mem_cons_of_mem _ hy)

theorem Along.wrap {R : σ → σ → Prop} {context : String} {m : Eff σ α} (h : Along R m) :
    Along R (Eff.wrap context m) := by
  intro s
  rw [exec_wrap]
  exact h s

theorem Along.attempt {R : σ → σ → Prop} {m : Eff σ Unit} (h : Along R m) :
    Along R (Eff.attempt m) := by
  intro s
  rw [exec_attempt_state]
  exact h s

-- ---------------------------------------------------------------------------
-- Agreement
-- ---------------------------------------------------------------------------

/-- From related states the call fails both times or returns the same, and it leaves
related states. -/
def Agrees (R : σ → σ → Prop) (m : Eff σ α) : Prop :=
  ∀ s t, R s t → (exec m s).1.toOption = (exec m t).1.toOption ∧ R (exec m s).2 (exec m t).2

section
variable {R : σ → σ → Prop}

theorem Agrees.pure {a : α} : Agrees R (Pure.pure a) := fun _ _ h => ⟨rfl, h⟩

theorem Agrees.fail {message : String} : Agrees R (fail message : Eff σ α) := fun _ _ h => ⟨rfl, h⟩

theorem Agrees.ofExcept {x : Except String α} : Agrees R (Eff.ofExcept x : Eff σ α) := by
  cases x with
  | ok a => exact .pure
  | error message => exact .fail

theorem Agrees.ofFallible {x : Except Fault α} : Agrees R (Eff.ofFallible x : Eff σ α) := by
  cases x with
  | ok a => exact .pure
  | error fault => exact fun _ _ h => ⟨rfl, h⟩

theorem Agrees.bind {m : Eff σ α} {k : α → Eff σ γ} (hm : Agrees R m) (hk : ∀ a, Agrees R (k a)) :
    Agrees R (m >>= k) := by
  intro s t h
  obtain ⟨hresult, hstate⟩ := hm s t h
  rw [exec_bind, exec_bind]
  cases hs : exec m s with
  | mk result s' =>
    cases ht : exec m t with
    | mk result' t' =>
      rw [hs, ht] at hresult hstate
      cases result with
      | ok a =>
        cases result' with
        | ok b =>
          cases hresult
          exact hk a s' t' hstate
        | error fault => cases hresult
      | error fault =>
        cases result' with
        | ok b => cases hresult
        | error fault => exact ⟨rfl, hstate⟩

theorem Agrees.wrap {context : String} {m : Eff σ α} (h : Agrees R m) : Agrees R (Eff.wrap context m) := by
  intro s t hst
  obtain ⟨hresult, hstate⟩ := h s t hst
  rw [exec_wrap, exec_wrap]
  refine ⟨?_, hstate⟩
  have hwrap : ∀ x : Except Fault α, (x.mapError (Fault.within context)).toOption = x.toOption := by
    rintro (fault | a) <;> rfl
  exact (hwrap _).trans (hresult.trans (hwrap _).symm)

theorem Agrees.forM {g : α → Eff σ PUnit} {l : List α} (h : ∀ x ∈ l, Agrees R (g x)) :
    Agrees R (l.forM g) := by
  induction l with
  | nil => exact .pure
  | cons x xs ih =>
    exact (h x (by simp)).bind fun _ => ih fun y hy => h y (List.mem_cons_of_mem _ hy)

theorem Agrees.returns {m : Eff σ α} (h : Agrees R m) {s t u : σ} {a : α} (hst : R s t)
    (hs : Returns m s a u) : ∃ v, Returns m t a v ∧ R u v := by
  obtain ⟨hresult, hstate⟩ := h s t hst
  rw [hs] at hresult hstate
  cases ht : exec m t with
  | mk result v =>
    rw [ht] at hresult hstate
    cases result with
    | ok b =>
      cases hresult
      exact ⟨v, ht, hstate⟩
    | error fault => cases hresult

end

end Eff

end SafrochainIndexer
