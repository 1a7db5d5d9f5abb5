namespace Duel

variable {ε σ α β : Type}

theorem bind_ok {x : EStateM ε σ α} {f : α → EStateM ε σ β} {s t : σ} {b : β}
    (h : (x >>= f) s = .ok b t) : ∃ a u, x s = .ok a u ∧ f a u = .ok b t := by
  change EStateM.bind x f s = _ at h
  unfold EStateM.bind at h
  split at h
  · exact ⟨_, _, ‹_›, h⟩
  · cases h

theorem bind_of_ok {x : EStateM ε σ α} {s t : σ} {a : α} (h : x s = .ok a t)
    (f : α → EStateM ε σ β) : (x >>= f) s = f a t := by
  change EStateM.bind x f s = _
  rw [EStateM.bind, h]

theorem bind_of_error {x : EStateM ε σ α} {s t : σ} {e : ε} (h : x s = .error e t)
    (f : α → EStateM ε σ β) : (x >>= f) s = .error e t := by
  change EStateM.bind x f s = _
  rw [EStateM.bind, h]

theorem pure_ok {a b : α} {s t : σ} (h : (pure a : EStateM ε σ α) s = .ok b t) :
    a = b ∧ s = t := by
  cases h
  exact ⟨rfl, rfl⟩

theorem get_ok {a s t : σ} (h : (get : EStateM ε σ σ) s = .ok a t) : s = a ∧ s = t := by
  cases h
  exact ⟨rfl, rfl⟩

theorem get_bind (f : σ → EStateM ε σ β) (s : σ) :
    ((get : EStateM ε σ σ) >>= f) s = f s s :=
  rfl

theorem modify_bind (g : σ → σ) (f : PUnit → EStateM ε σ β) (s : σ) :
    ((modify g : EStateM ε σ PUnit) >>= f) s = f ⟨⟩ (g s) :=
  rfl

theorem modify_ok {f : σ → σ} {a : PUnit} {s t : σ}
    (h : (modify f : EStateM ε σ PUnit) s = .ok a t) : t = f s := by
  cases h
  rfl

theorem discard_ok {x : EStateM ε σ α} {s t : σ} {u : PUnit}
    (h : discard x s = .ok u t) : ∃ a, x s = .ok a t := by
  obtain ⟨a, _, hx, h⟩ := bind_ok h
  obtain ⟨-, rfl⟩ := pure_ok h
  exact ⟨a, hx⟩

theorem discard_bind_ok {x : EStateM ε σ α} {b c : β} {s t : σ}
    (h : (discard x >>= fun _ => pure b) s = .ok c t) : b = c ∧ ∃ a, x s = .ok a t := by
  obtain ⟨_, _, hd, h⟩ := bind_ok h
  obtain ⟨hbc, rfl⟩ := pure_ok h
  exact ⟨hbc, discard_ok hd⟩

theorem except_bind_ok {x : Except ε α} {f : α → Except ε β} {b : β}
    (h : (x >>= f) = .ok b) : ∃ a, x = .ok a ∧ f a = .ok b := by
  rcases x with e | a
  · cases h
  · exact ⟨a, rfl, h⟩

theorem except_map_ok {x : Except ε α} {f : α → β} {b : β} (h : x.map f = .ok b) :
    ∃ a, x = .ok a ∧ b = f a := by
  cases x with
  | error e => cases h
  | ok a =>
    cases h
    exact ⟨a, rfl, rfl⟩

theorem except_map_error_iff {x : Except ε α} {f : α → β} {e : ε} :
    x.map f = .error e ↔ x = .error e := by
  cases x with
  | error e' => exact ⟨fun h => by cases h; rfl, fun h => by cases h; rfl⟩
  | ok a => exact iff_of_false (fun h => by cases h) fun h => by cases h

theorem except_map_map {γ : Type} (x : Except ε α) (f : α → β) (g : β → γ) :
    (x.map f).map g = x.map fun a => g (f a) := by
  cases x <;> rfl

theorem option_mapM_ok {o : Option α} {f : α → Except ε β} {b : β}
    (h : o.mapM f = .ok (some b)) : ∃ a, o = some a ∧ f a = .ok b := by
  cases o with
  | none => cases h
  | some a =>
    obtain ⟨c, hc, h⟩ := except_map_ok (b := some b) h
    cases h
    exact ⟨a, rfl, hc⟩

theorem except_bind_returns {x : Except ε α} {f : α → Except ε β} :
    (∃ b, (x >>= f) = .ok b) ↔ ∃ a, x = .ok a ∧ ∃ b, f a = .ok b := by
  constructor
  · rintro ⟨b, h⟩
    obtain ⟨a, hx, hf⟩ := except_bind_ok h
    exact ⟨a, hx, b, hf⟩
  · rintro ⟨a, rfl, b, hf⟩
    exact ⟨b, hf⟩

theorem pure_returns {a : α} : (∃ b, (pure a : Except ε α) = .ok b) ↔ True :=
  iff_of_true ⟨a, rfl⟩ trivial

theorem except_map_returns {x : Except ε α} {f : α → β} :
    (∃ b, x.map f = .ok b) ↔ ∃ a, x = .ok a := by
  cases x with
  | error e => exact iff_of_false (fun ⟨b, h⟩ => by cases h) fun ⟨a, h⟩ => by cases h
  | ok a => exact iff_of_true ⟨_, rfl⟩ ⟨a, rfl⟩

theorem mapError_returns {δ : Type} {x : Except δ α} {f : δ → ε} :
    (∃ a, x.mapError f = .ok a) ↔ ∃ a, x = .ok a := by
  cases x with
  | error e => exact iff_of_false (fun ⟨b, h⟩ => by cases h) fun ⟨a, h⟩ => by cases h
  | ok a => exact iff_of_true ⟨a, rfl⟩ ⟨a, rfl⟩

theorem mapError_ok {δ : Type} {x : Except δ α} {f : δ → ε} {a : α}
    (h : x.mapError f = .ok a) : x = .ok a := by
  cases x <;> cases h
  rfl

/-- Work that is begun in a state comes to an end there, with a result and a state. -/
def Ends (x : EStateM ε σ α) (s : σ) (Q : α → σ → Prop) : Prop :=
  ∃ a t, x s = .ok a t ∧ Q a t

namespace Ends

variable {Q Q' : α → σ → Prop} {R : β → σ → Prop} {s : σ}

theorem mono {x : EStateM ε σ α} (h : Ends x s Q) (hq : ∀ a t, Q a t → Q' a t) : Ends x s Q' := by
  obtain ⟨a, t, hx, ht⟩ := h
  exact ⟨a, t, hx, hq a t ht⟩

theorem and {x : EStateM ε σ α} (h : Ends x s Q) (h' : Ends x s Q') :
    Ends x s fun a t => Q a t ∧ Q' a t := by
  obtain ⟨a, t, hx, hq⟩ := h
  obtain ⟨b, u, hx', hq'⟩ := h'
  rw [hx] at hx'
  cases hx'
  exact ⟨a, t, hx, hq, hq'⟩

theorem after {x : EStateM ε σ α} {f : α → EStateM ε σ β} {a : α} {t : σ} (hx : x s = .ok a t)
    (h : Ends (f a) t R) : Ends (x >>= f) s R := by
  obtain ⟨b, u, hu, hr⟩ := h
  exact ⟨b, u, (bind_of_ok hx f).trans hu, hr⟩

theorem bind {x : EStateM ε σ α} {f : α → EStateM ε σ β} (h : Ends x s Q)
    (hf : ∀ a t, Q a t → Ends (f a) t R) : Ends (x >>= f) s R := by
  obtain ⟨a, t, hx, ht⟩ := h
  exact after hx (hf a t ht)

theorem pure {a : α} (h : Q a s) : Ends (pure a : EStateM ε σ α) s Q := ⟨a, s, rfl, h⟩

theorem get {f : σ → EStateM ε σ β} (h : Ends (f s) s R) :
    Ends ((MonadState.get : EStateM ε σ σ) >>= f) s R :=
  h

theorem modify {g : σ → σ} {f : PUnit → EStateM ε σ β} (h : Ends (f ⟨⟩) (g s) R) :
    Ends ((modify g : EStateM ε σ PUnit) >>= f) s R :=
  h

theorem of_ok {x : EStateM ε σ α} (h : Ends x s Q) {a : α} {t : σ} (hx : x s = .ok a t) :
    Q a t := by
  obtain ⟨b, u, hb, hq⟩ := h
  rw [hx] at hb
  cases hb
  exact hq

theorem forM {x : β → EStateM ε σ PUnit} {P : σ → Prop} {bs : List β}
    (h : ∀ b ∈ bs, ∀ s, P s → Ends (x b) s fun _ => P) (hs : P s) :
    Ends (bs.forM x) s fun _ => P := by
  induction bs generalizing s with
  | nil => exact pure hs
  | cons b bs ih =>
    obtain ⟨hb, h⟩ := List.forall_mem_cons.mp h
    exact (hb s hs).bind fun _ t ht => ih h ht

end Ends

/-- The state that work has come to, whether it has ended there or broken off. -/
def left : EStateM.Result ε σ α → σ
  | .ok _ s => s
  | .error _ s => s

def seen {τ : Type} (f : σ → τ) : EStateM.Result ε σ α → EStateM.Result ε τ α
  | .ok a s => .ok a (f s)
  | .error e s => .error e (f s)

@[simp] theorem left_seen {τ : Type} (f : σ → τ) (r : EStateM.Result ε σ α) :
    left (seen f r) = f (left r) := by
  cases r <;> rfl

theorem seen_foldl {τ : Type} {v : σ → τ} {x : β → EStateM ε σ α} {y : β → EStateM ε τ α}
    (h : ∀ b s, y b (v s) = seen v (x b s)) (bs : List β) (s : σ) :
    bs.foldl (fun t b => left (y b t)) (v s) = v (bs.foldl (fun s b => left (x b s)) s) := by
  induction bs generalizing s with
  | nil => rfl
  | cons b bs ih => rw [List.foldl_cons, h, left_seen, ih, List.foldl_cons]

theorem seen_bind {τ : Type} {v : σ → τ} {x : EStateM ε σ α} {y : EStateM ε τ α}
    {f : α → EStateM ε σ β} {g : α → EStateM ε τ β} {s : σ} (h : y (v s) = seen v (x s))
    (hf : ∀ a t, g a (v t) = seen v (f a t)) : (y >>= g) (v s) = seen v ((x >>= f) s) := by
  change EStateM.bind y g (v s) = seen v (EStateM.bind x f s)
  rw [EStateM.bind, EStateM.bind, h]
  cases x s with
  | ok a t => exact hf a t
  | error e t => rfl

theorem ok_of_seen {τ : Type} {f : σ → τ} {r : EStateM.Result ε σ α} {a : α} {t : τ}
    (h : seen f r = .ok a t) : ∃ s, r = .ok a s ∧ f s = t := by
  cases r with
  | ok b s =>
    cases h
    exact ⟨s, rfl, rfl⟩
  | error e s => cases h

/-- Work that is begun in a state comes to `Q` if it ends, and to `E` if it breaks off. -/
def Comes (x : EStateM ε σ α) (s : σ) (Q : α → σ → Prop) (E : σ → Prop) : Prop :=
  match x s with
  | .ok a t => Q a t
  | .error _ t => E t

namespace Comes

variable {Q Q' : α → σ → Prop} {R : β → σ → Prop} {E E' : σ → Prop} {s : σ}

theorem mono {x : EStateM ε σ α} (h : Comes x s Q E) (hq : ∀ a t, Q a t → Q' a t)
    (he : ∀ t, E t → E' t) : Comes x s Q' E' := by
  unfold Comes at h ⊢
  split at h
  · exact hq _ _ h
  · exact he _ h

theorem bind {x : EStateM ε σ α} {f : α → EStateM ε σ β} (h : Comes x s Q E)
    (hf : ∀ a t, Q a t → Comes (f a) t R E) : Comes (x >>= f) s R E := by
  unfold Comes at h
  change (match EStateM.bind x f s with | .ok b u => R b u | .error _ u => E u)
  unfold EStateM.bind
  split at h
  · rename_i a t hx
    rw [hx]
    exact hf a t h
  · rename_i e t hx
    rw [hx]
    exact h

theorem after {x : EStateM ε σ α} {f : α → EStateM ε σ β} {a : α} {t : σ} (hx : x s = .ok a t)
    (h : Comes (f a) t R E) : Comes (x >>= f) s R E := by
  unfold Comes at h ⊢
  rwa [bind_of_ok hx f]

theorem pure {a : α} (h : Q a s) : Comes (pure a : EStateM ε σ α) s Q E := h

theorem get {f : σ → EStateM ε σ β} (h : Comes (f s) s R E) :
    Comes ((MonadState.get : EStateM ε σ σ) >>= f) s R E :=
  h

theorem modify {g : σ → σ} {f : PUnit → EStateM ε σ β} (h : Comes (f ⟨⟩) (g s) R E) :
    Comes ((modify g : EStateM ε σ PUnit) >>= f) s R E :=
  h

theorem of_ok {x : EStateM ε σ α} (h : Comes x s Q E) {a : α} {t : σ} (hx : x s = .ok a t) :
    Q a t := by
  rw [Comes, hx] at h
  exact h

theorem of_error {x : EStateM ε σ α} (h : Comes x s Q E) {e : ε} {t : σ}
    (hx : x s = .error e t) : E t := by
  rw [Comes, hx] at h
  exact h

theorem left {x : EStateM ε σ α} (h : Comes x s (fun _ => E) E) : E (left (x s)) := by
  unfold Comes at h
  split at h
  · rename_i a t hx
    rwa [hx]
  · rename_i e t hx
    rwa [hx]

/-- What each piece of work keeps, even where it breaks off, a row of them keeps. -/
theorem foldl_left {x : β → EStateM ε σ α} {P : σ → Prop}
    (h : ∀ b s, P s → Comes (x b) s (fun _ => P) P) (bs : List β) (hs : P s) :
    P (bs.foldl (fun s b => Duel.left (x b s)) s) := by
  induction bs generalizing s with
  | nil => exact hs
  | cons b bs ih => exact ih (h b s hs).left

theorem forM {x : β → EStateM ε σ PUnit} {P : σ → Prop}
    (h : ∀ b s, P s → Comes (x b) s (fun _ => P) E) (bs : List β) (hs : P s) :
    Comes (bs.forM x) s (fun _ => P) E := by
  induction bs generalizing s with
  | nil => exact pure hs
  | cons b bs ih => exact (h b s hs).bind fun _ t ht => ih ht

end Comes

theorem Ends.comes {x : EStateM ε σ α} {Q : α → σ → Prop} {E : σ → Prop} {s : σ}
    (h : Ends x s Q) : Comes x s Q E := by
  obtain ⟨a, t, hx, hq⟩ := h
  rw [Comes, hx]
  exact hq

def ended? : EStateM.Result ε σ α → Option (α × σ)
  | .ok a s => some (a, s)
  | .error .. => none

theorem ok_of_ended {r : EStateM.Result ε σ α} {f : α × σ → Bool}
    (h : (ended? r).any f = true) : ∃ a s, r = .ok a s ∧ f (a, s) = true := by
  cases r with
  | ok a s => exact ⟨a, s, rfl, h⟩
  | error e s => cases h

variable {τ υ : Type}

theorem bind_error {x : EStateM ε σ α} {f : α → EStateM ε σ β} {s t : σ} {e : ε}
    (h : (x >>= f) s = .error e t) :
    x s = .error e t ∨ ∃ a u, x s = .ok a u ∧ f a u = .error e t := by
  change EStateM.bind x f s = _ at h
  unfold EStateM.bind at h
  split at h
  · exact .inr ⟨_, _, ‹_›, h⟩
  · rename_i hx
    cases h
    exact .inl hx

def broken? : EStateM.Result ε σ α → Option (ε × σ)
  | .ok .. => none
  | .error e s => some (e, s)

theorem error_of_broken {r : EStateM.Result ε σ α} {f : ε × σ → Bool}
    (h : (broken? r).any f = true) : ∃ e s, r = .error e s ∧ f (e, s) = true := by
  cases r with
  | ok a s => cases h
  | error e s => exact ⟨e, s, rfl, h⟩

/-- What is seen of the state does not change. -/
def Spares (v : σ → τ) (x : EStateM ε σ α) : Prop :=
  ∀ s, Comes x s (fun _ t => v t = v s) (fun t => v t = v s)

namespace Spares

variable {v : σ → τ}

theorem ok {x : EStateM ε σ α} (h : Spares v x) {s t : σ} {a : α} (hx : x s = .ok a t) :
    v t = v s :=
  (h s).of_ok hx

theorem error {x : EStateM ε σ α} (h : Spares v x) {s t : σ} {e : ε} (hx : x s = .error e t) :
    v t = v s :=
  (h s).of_error hx

theorem comp {x : EStateM ε σ α} (h : Spares v x) (w : τ → υ) : Spares (w ∘ v) x :=
  fun s => (h s).mono (fun _ _ ht => congrArg w ht) fun _ ht => congrArg w ht

theorem bind {x : EStateM ε σ α} {f : α → EStateM ε σ β} (h : Spares v x)
    (hf : ∀ a, Spares v (f a)) : Spares v (x >>= f) := by
  intro s
  refine Comes.bind (Q := fun _ t => v t = v s) (h s) fun a t ht => ?_
  exact (hf a t).mono (fun _ _ hu => hu.trans ht) fun _ hu => hu.trans ht

theorem pure (a : α) : Spares v (pure a : EStateM ε σ α) := fun _ => rfl

theorem throw (e : ε) : Spares v (throw e : EStateM ε σ α) := fun _ => rfl

theorem read {f : σ → EStateM ε σ α} (h : ∀ s, Spares v (f s)) : Spares v (get >>= f) :=
  fun s => h s s

theorem modify {g : σ → σ} (hg : ∀ s, v (g s) = v s) :
    Spares v (modify g : EStateM ε σ PUnit) :=
  fun s => hg s

theorem change {g : σ → σ} {f : PUnit → EStateM ε σ α} (hg : ∀ s, v (g s) = v s)
    (h : Spares v (f ⟨⟩)) : Spares v (MonadState.modifyGet (fun s => (⟨⟩, g s)) >>= f) :=
  fun s => (h (g s)).mono (fun _ _ ht => ht.trans (hg s)) fun _ ht => ht.trans (hg s)

theorem mapM {f : α → EStateM ε σ β} (h : ∀ a, Spares v (f a)) (xs : List α) :
    Spares v (xs.mapM f) := by
  induction xs with
  | nil => exact pure _
  | cons x xs ih =>
    rw [List.mapM_cons]
    exact (h x).bind fun _ => ih.bind fun _ => pure _

theorem foldlM {f : β → α → EStateM ε σ β} (h : ∀ b a, Spares v (f b a)) (xs : List α) (b : β) :
    Spares v (xs.foldlM f b) := by
  induction xs generalizing b with
  | nil => exact pure _
  | cons x xs ih =>
    rw [List.foldlM_cons]
    exact (h b x).bind ih

theorem forIn {f : α → PUnit → EStateM ε σ (ForInStep PUnit)} (h : ∀ a u, Spares v (f a u))
    (xs : List α) (u : PUnit) : Spares v (forIn xs u f) := by
  induction xs with
  | nil => exact pure _
  | cons x xs ih =>
    rw [List.forIn_cons]
    refine (h x u).bind fun r => ?_
    cases r with
    | done => exact pure _
    | yield => exact ih

end Spares

/-- If work breaks off, it is with such a fault. -/
def Blames (P : ε → Prop) (x : EStateM ε σ α) : Prop := ∀ s e t, x s = .error e t → P e

namespace Blames

variable {P : ε → Prop}

theorem bind {x : EStateM ε σ α} {f : α → EStateM ε σ β} (h : Blames P x)
    (hf : ∀ a, Blames P (f a)) : Blames P (x >>= f) := by
  intro s e t he
  obtain he | ⟨a, u, -, he⟩ := bind_error he
  · exact h s e t he
  · exact hf a u e t he

theorem pure (a : α) : Blames P (pure a : EStateM ε σ α) := by
  intro s e t he
  cases he

theorem read {f : σ → EStateM ε σ α} (h : ∀ s, Blames P (f s)) : Blames P (get >>= f) :=
  fun s e t he => h s s e t he

theorem modify (g : σ → σ) : Blames P (modify g : EStateM ε σ PUnit) := by
  intro s e t he
  cases he

theorem change {g : σ → σ} {f : PUnit → EStateM ε σ α} (h : Blames P (f ⟨⟩)) :
    Blames P (MonadState.modifyGet (fun s => (⟨⟩, g s)) >>= f) :=
  fun s e t he => h (g s) e t he

theorem mapM {f : α → EStateM ε σ β} (h : ∀ a, Blames P (f a)) (xs : List α) :
    Blames P (xs.mapM f) := by
  induction xs with
  | nil => exact pure _
  | cons x xs ih =>
    rw [List.mapM_cons]
    exact (h x).bind fun _ => ih.bind fun _ => pure _

theorem forIn {f : α → PUnit → EStateM ε σ (ForInStep PUnit)} (h : ∀ a u, Blames P (f a u))
    (xs : List α) (u : PUnit) : Blames P (forIn xs u f) := by
  induction xs with
  | nil => exact pure _
  | cons x xs ih =>
    rw [List.forIn_cons]
    refine (h x u).bind fun r => ?_
    cases r with
    | done => exact pure _
    | yield => exact ih

end Blames

abbrev Sure (x : EStateM ε σ α) : Prop := Blames (fun _ => False) x

end Duel
