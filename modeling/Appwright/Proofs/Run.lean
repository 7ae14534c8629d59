import Appwright.Running
import Mathlib.Data.List.Forall2
import Mathlib.Logic.Basic
import Mathlib.Order.Defs.Unbundled
import Mathlib.Tactic.FinCases

/-!
# What a run keeps

What a program did before it failed stays done. So a statement about what it may change has to hold
of the state it ends in, however it ends.

`Keeps R x` says that every run of `x` relates the state it starts in to the state it ends in. For
a preorder `R` it is closed under everything programs are built with, so a whole handler keeps `R`
as soon as its primitives do. Two preorders are used again and again: a part of the state stays as
it is (`Stays`), and a log of the state grows by entries with a property (`Grows`).

`Fails x s` says that the run of `x` from `s` fails. It is asked of the parts of a program one after
another (`fails_bind_iff`), which is easier for parts that leave the state as it is (`Still`).
`FailsOnly P x` says of all runs of `x` that what they fail with has the property `P`.
-/

namespace Appwright

open List Nat

variable {ε σ τ α β : Type} {a : α} {s s' : σ} {e : ε} {f : α → EStateM ε σ β} {x : EStateM ε σ α}
  {b : β} {xs : List α} {ys : List β} {log : σ → List τ} {P : τ → Prop}

@[simp] theorem ending_ok (a : α) (s : σ) : ending (.ok a s : EStateM.Result ε σ α) = s := rfl

@[simp] theorem ending_error (e : ε) (s : σ) : ending (.error e s : EStateM.Result ε σ α) = s := rfl

/-- Every run of a program relates the state it starts in to the state it ends in. -/
def Keeps (R : σ → σ → Prop) (x : EStateM ε σ α) : Prop :=
  ∀ s, R s (ending (x s))

theorem get_bind (f : σ → EStateM ε σ α) (s : σ) : (get >>= f) s = f s s := rfl

theorem set_bind (s' : σ) (f : PUnit → EStateM ε σ α) (s : σ) : (set s' >>= f) s = f ⟨⟩ s' := rfl

theorem modify_bind (g : σ → σ) (f : PUnit → EStateM ε σ α) (s : σ) : (modify g >>= f) s = f ⟨⟩ (g s) := rfl

theorem caught_bind {f : Except ε α → EStateM ε σ β} :
    (caught x >>= f) s = f (outcome (x s)) (ending (x s)) := rfl

theorem bind_of_ok (h : x s = .ok a s') : (x >>= f) s = f a s' := by
  change EStateM.bind x f s = f a s'
  rw [EStateM.bind, h]

theorem bind_of_error (h : x s = .error e s') : (x >>= f) s = .error e s' := by
  change EStateM.bind x f s = _
  rw [EStateM.bind, h]

theorem map_eq_ok {f : α → β} (h : x s = .ok a s') : (f <$> x) s = .ok (f a) s' := by
  change EStateM.map f x s = .ok (f a) s'
  rw [EStateM.map, h]

theorem map_eq_error {f : α → β} (h : x s = .error e s') : (f <$> x) s = .error e s' := by
  change EStateM.map f x s = .error e s'
  rw [EStateM.map, h]

theorem bind_eq_ok (h : (x >>= f) s = .ok b s') : ∃ a s'', x s = .ok a s'' ∧ f a s'' = .ok b s' := by
  change EStateM.bind x f s = .ok b s' at h
  unfold EStateM.bind at h
  cases hrun : x s with
  | ok a s'' => rw [hrun] at h; exact ⟨a, s'', rfl, h⟩
  | error e s'' => rw [hrun] at h; cases h

theorem bind_eq_error (h : (x >>= f) s = .error e s') :
    x s = .error e s' ∨ ∃ a s'', x s = .ok a s'' ∧ f a s'' = .error e s' := by
  change EStateM.bind x f s = .error e s' at h
  unfold EStateM.bind at h
  cases hrun : x s with
  | ok a s'' => rw [hrun] at h; exact .inr ⟨a, s'', rfl, h⟩
  | error e' s'' => rw [hrun] at h; cases h; exact .inl rfl

theorem Keeps.of_ok {R : σ → σ → Prop} (h : Keeps R x) (run : x s = .ok a s') : R s s' := by
  have he := h s
  rw [run] at he
  exact he

theorem of_bind_ok {x : Except ε α} {f : α → Except ε β} (h : (x >>= f) = .ok b) :
    ∃ a, x = .ok a ∧ f a = .ok b := by
  cases x with
  | error e => cases h
  | ok a => exact ⟨a, rfl, h⟩

theorem except_bind_eq_ok_iff {x : Except ε α} {f : α → Except ε β} :
    (x >>= f) = .ok b ↔ ∃ a, x = .ok a ∧ f a = .ok b :=
  ⟨of_bind_ok, by rintro ⟨a, rfl, h⟩; exact h⟩

theorem except_bind_eq_error {x : Except ε α} {f : α → Except ε β} (h : (x >>= f) = .error e) :
    x = .error e ∨ ∃ a, x = .ok a ∧ f a = .error e := by
  cases x with
  | error e' =>
    cases h
    exact .inl rfl
  | ok a => exact .inr ⟨a, rfl, h⟩

theorem except_bind_congr {x : Except ε α} {f g : α → Except ε β}
    (hs : ∀ a, x = .ok a → f a = g a) : x >>= f = x >>= g := by
  cases x with
  | error e => rfl
  | ok a => exact hs a rfl

theorem except_map_eq_ok {x : Except ε α} {f : α → β} (h : f <$> x = .ok b) : ∃ a, x = .ok a ∧ f a = b := by
  cases x with
  | error e => cases h
  | ok a => exact ⟨a, rfl, Except.ok.inj h⟩

theorem exists_ok_of_toOption {x : Except ε α} {f : α → β} (h : x.toOption.map f = some b) :
    ∃ a, x = .ok a ∧ f a = b := by
  cases x with
  | error e => cases h
  | ok a => exact ⟨a, rfl, Option.some.inj h⟩

theorem mapError_eq_ok {δ : Type} {f : ε → δ} {x : Except ε α} (h : x.mapError f = .ok a) : x = .ok a := by
  cases x with
  | error e => cases h
  | ok b => cases h; rfl

theorem exists_of_mem_left {R : α → β → Prop} (h : Forall₂ R xs ys) {x : α} (hx : x ∈ xs) :
    ∃ y ∈ ys, R x y := by
  induction h with
  | nil => exact absurd hx not_mem_nil
  | cons first _ ih =>
    rcases mem_cons.1 hx with rfl | hl
    · exact ⟨_, mem_cons_self, first⟩
    · obtain ⟨y, hy, hr⟩ := ih hl
      exact ⟨y, .tail _ hy, hr⟩

theorem exists_of_mem_right {R : α → β → Prop} (h : Forall₂ R xs ys) {y : β} (hy : y ∈ ys) :
    ∃ x ∈ xs, R x y :=
  exists_of_mem_left h.flip hy

theorem mapM_eq_ok_iff {f : α → Except ε β} :
    xs.mapM f = .ok ys ↔ Forall₂ (fun x y => f x = .ok y) xs ys := by
  induction xs generalizing ys with
  | nil =>
    rw [mapM_nil, forall₂_nil_left_iff]
    exact ⟨fun h => by cases h; rfl, fun h => by rw [h]; rfl⟩
  | cons x xs ih =>
    rw [mapM_cons, forall₂_cons_left_iff]
    constructor
    · intro h
      obtain ⟨y, first, h⟩ := of_bind_ok h
      obtain ⟨ys, hr, ⟨⟩⟩ := of_bind_ok h
      exact ⟨y, ys, first, ih.1 hr, rfl⟩
    · rintro ⟨y, ys, first, hr, rfl⟩
      rw [first, ih.2 hr]
      rfl

theorem exists_mapM_eq_ok {f : α → Except ε β} {xs : List α} (he : ∀ x ∈ xs, ∃ y, f x = .ok y) :
    ∃ ys, xs.mapM f = .ok ys := by
  induction xs with
  | nil => exact ⟨[], rfl⟩
  | cons x xs ih =>
    rw [forall_mem_cons] at he
    obtain ⟨⟨y, first⟩, he⟩ := he
    obtain ⟨ys, hr⟩ := ih he
    refine ⟨y :: ys, ?_⟩
    rw [mapM_cons, first, hr]
    rfl

/-! ## Two preorders -/

def Stays (part : σ → τ) (s s' : σ) : Prop :=
  part s' = part s

instance (part : σ → τ) : IsPreorder σ (Stays part) where
  refl _ := rfl
  trans _ _ _ h h' := Eq.trans h' h

abbrev Still (x : EStateM ε σ α) : Prop :=
  Keeps (Stays id) x

theorem Keeps.eq_of_ok (h : Still x) (run : x s = .ok a s') : s' = s := h.of_ok run

/-- A log of the state grows, by entries that have a property. -/
def Grows (log : σ → List τ) (P : τ → Prop) (s s' : σ) : Prop :=
  ∃ more, log s' = log s ++ more ∧ ∀ x ∈ more, P x

instance (log : σ → List τ) (P : τ → Prop) : IsPreorder σ (Grows log P) where
  refl s := ⟨[], (append_nil _).symm, nofun⟩
  trans _ _ _ := by
    rintro ⟨first, hfirst, pfirst⟩ ⟨second, hsecond, psecond⟩
    refine ⟨first ++ second, by rw [hsecond, hfirst, append_assoc], fun x hx => ?_⟩
    rcases mem_append.mp hx with h | h
    · exact pfirst x h
    · exact psecond x h

theorem Grows.mono {Q : τ → Prop} (h : Grows log P s s')
    (hi : ∀ x, P x → Q x) : Grows log Q s s' := by
  obtain ⟨more, hmore, hP⟩ := h
  exact ⟨more, hmore, fun x hx => hi x (hP x hx)⟩

theorem Stays.grows (h : Stays log s s') : Grows log P s s' :=
  ⟨[], by rw [append_nil]; exact h, nofun⟩

/-! ## What programs are built with -/

theorem Keeps.mono {R Q : σ → σ → Prop} (h : Keeps R x) (hi : ∀ s s', R s s' → Q s s') : Keeps Q x :=
  fun s => hi _ _ (h s)

variable {R : σ → σ → Prop} [IsPreorder σ R]

theorem Keeps.of_still (hs : Still x) : Keeps R x := by
  intro s
  have hsa : ending (x s) = s := hs s
  rw [hsa]
  exact refl_of R s

theorem keeps_pure (a : α) : Keeps R (pure a : EStateM ε σ α) := fun s => refl_of R s

theorem keeps_throw (e : ε) : Keeps R (throw e : EStateM ε σ α) := fun s => refl_of R s

theorem keeps_get : Keeps R (get : EStateM ε σ σ) := fun s => refl_of R s

theorem keeps_attempt {δ : Type} (wrap : δ → ε) (res : Except δ α) :
    Keeps R (attempt wrap res : EStateM ε σ α) := by
  cases res with
  | ok v => exact keeps_pure v
  | error e => exact keeps_throw (wrap e)

omit [IsPreorder σ R] in
theorem keeps_modify {f : σ → σ} (h : ∀ s, R s (f s)) : Keeps R (modify f : EStateM ε σ Unit) := h

/-- Two programs one after the other, from one state. The second has to keep the relation only where
the first ends. -/
theorem ending_bind (hx : R s (ending (x s))) (hf : ∀ a s', x s = .ok a s' → R s' (ending (f a s'))) :
    R s (ending ((x >>= f) s)) := by
  show R s (ending (EStateM.bind x f s))
  unfold EStateM.bind
  cases hrun : x s with
  | ok a s' =>
    rw [hrun] at hx
    exact trans_of R hx (hf a s' hrun)
  | error e s' =>
    rw [hrun] at hx
    exact hx

/-- What holds from an earlier state to the end of a program holds to the end of what follows. -/
theorem ending_bind_from {s t : σ} (hx : R t (ending (x s))) (hf : ∀ a, Keeps R (f a)) :
    R t (ending ((x >>= f) s)) := by
  cases run : x s with
  | error e s' =>
    rw [run] at hx
    rw [bind_of_error run]
    exact hx
  | ok a s' =>
    rw [run] at hx
    rw [bind_of_ok run]
    exact trans_of R hx (hf a s')

theorem Keeps.bind (hx : Keeps R x) (hf : ∀ a, Keeps R (f a)) : Keeps R (x >>= f) :=
  fun s => ending_bind (hx s) fun a s' _ => hf a s'

theorem Keeps.yields {f : α → β} (hx : Keeps R x) : Keeps R (x >>= fun a => pure (f a)) :=
  hx.bind fun _ => keeps_pure _

theorem Keeps.map (f : α → β) (hx : Keeps R x) : Keeps R (f <$> x) := by
  exact hx.yields

omit [IsPreorder σ R] in
theorem Keeps.ite {p : Prop} [Decidable p] {x y : EStateM ε σ α} (hx : p → Keeps R x)
    (hy : ¬ p → Keeps R y) : Keeps R (if p then x else y) := by
  by_cases h : p
  · rw [if_pos h]
    exact hx h
  · rw [if_neg h]
    exact hy h

omit [IsPreorder σ R] in
theorem Keeps.caught (h : Keeps R x) : Keeps R (caught x) := h

theorem Keeps.mapM (h : ∀ a, Keeps R (f a)) : ∀ xs : List α, Keeps R (xs.mapM f)
  | [] => by
    exact keeps_pure _
  | a :: xs => by
    rw [mapM_cons]
    exact (h a).bind fun _ => (Keeps.mapM h xs).yields

theorem Keeps.foldlM {f : β → α → EStateM ε σ β} (h : ∀ b a, Keeps R (f b a)) :
    ∀ (xs : List α) (b : β), Keeps R (xs.foldlM f b)
  | [], b => by
    exact keeps_pure _
  | a :: xs, b => by
    exact (h b a).bind fun b' => Keeps.foldlM h xs b'

theorem Keeps.forIn {f : α → β → EStateM ε σ (ForInStep β)} (h : ∀ a b, Keeps R (f a b)) :
    ∀ (xs : List α) (b : β), Keeps R (forIn xs b f)
  | [], b => by
    exact keeps_pure _
  | a :: xs, b => by
    rw [forIn_cons]
    refine (h a b).bind fun step => ?_
    cases step with
    | done b => exact keeps_pure _
    | yield b => exact Keeps.forIn h xs b

/-! ## Failing -/

omit [IsPreorder σ R]

def Fails (x : EStateM ε σ α) (s : σ) : Prop :=
  ∃ e s', x s = .error e s'

theorem not_fails_pure (a : α) (s : σ) : ¬ Fails (pure a : EStateM ε σ α) s := by
  rintro ⟨e, s', h⟩
  cases h

theorem fails_throw (e : ε) (s : σ) : Fails (throw e : EStateM ε σ α) s := ⟨e, s, rfl⟩

theorem fails_bind_of_forall (h : ∀ a s', Fails (f a) s') (s : σ) : Fails (x >>= f) s := by
  cases run : x s with
  | ok a s' =>
    obtain ⟨e, s'', hf⟩ := h a s'
    exact ⟨e, s'', (bind_of_ok run).trans hf⟩
  | error e s' => exact ⟨e, s', bind_of_error run⟩

theorem not_fails_caught (x : EStateM ε σ α) (s : σ) : ¬ Fails (caught x) s := by
  rintro ⟨e, s', h⟩
  cases h

section attempt

variable {δ : Type} {wrap : δ → ε} {res : Except δ α}

theorem fails_attempt_iff : Fails (attempt wrap res) s ↔ ∃ e, res = .error e := by
  cases res with
  | ok v => exact ⟨fun h => absurd h (not_fails_pure v s), by rintro ⟨e, h⟩; cases h⟩
  | error e => exact ⟨fun _ => ⟨e, rfl⟩, fun _ => fails_throw _ _⟩

theorem eq_ok_of_attempt (h : attempt wrap res s = .ok a s') : res = .ok a ∧ s' = s := by
  cases res with
  | ok v => cases h; exact ⟨rfl, rfl⟩
  | error e => cases h

/-- What follows a check is run with its value, in the state as it was. -/
theorem attempt_bind_eq_ok_iff : (attempt wrap res >>= f) s = .ok b s' ↔
    ∃ a, res = .ok a ∧ f a s = .ok b s' := by
  cases res with
  | ok a => exact ⟨fun h => ⟨a, rfl, h⟩, by rintro ⟨_, ⟨⟩, h⟩; exact h⟩
  | error e => exact ⟨fun h => (by cases h), by rintro ⟨_, ⟨⟩, -⟩⟩

end attempt

theorem exists_ok_of_not_fails (h : ¬ Fails x s) : ∃ a s', x s = .ok a s' := by
  cases run : x s with
  | ok a s' => exact ⟨a, s', rfl⟩
  | error e s' => exact absurd ⟨e, s', run⟩ h

theorem fails_bind_iff : Fails (x >>= f) s ↔ Fails x s ∨ ∃ a s', x s = .ok a s' ∧ Fails (f a) s' := by
  constructor
  · rintro ⟨e, s', run⟩
    rcases bind_eq_error run with first | ⟨a, s'', first, hs⟩
    · exact .inl ⟨e, s', first⟩
    · exact .inr ⟨a, s'', first, e, s', hs⟩
  · have ho : (x >>= f) s = EStateM.bind x f s := rfl
    rintro (⟨e, s', first⟩ | ⟨a, s'', first, e, s', hs⟩)
    · exact ⟨e, s', by rw [ho, EStateM.bind, first]⟩
    · exact ⟨e, s', by rw [ho, EStateM.bind, first]; exact hs⟩

/-- What does not depend on the first program can be asked apart from it. -/
theorem fails_bind_iff_or {P : Prop} (next : ∀ a s', x s = .ok a s' → (Fails (f a) s' ↔ P)) :
    Fails (x >>= f) s ↔ Fails x s ∨ P := by
  rw [fails_bind_iff]
  by_cases first : Fails x s
  · simp [first]
  · obtain ⟨a, s', run⟩ := exists_ok_of_not_fails first
    refine or_congr Iff.rfl ⟨?_, fun h => ⟨a, s', run, (next a s' run).2 h⟩⟩
    rintro ⟨b, s'', run', hf⟩
    exact (next b s'' run').1 hf

theorem fails_bind_iff_left (next : ∀ a s', x s = .ok a s' → ¬ Fails (f a) s') :
    Fails (x >>= f) s ↔ Fails x s := by
  rw [fails_bind_iff_or fun a s' run => iff_false_intro (next a s' run), or_false]

theorem fails_bind_iff_of_still (hs : Still x) :
    Fails (x >>= f) s ↔ Fails x s ∨ ∃ a, x s = .ok a s ∧ Fails (f a) s := by
  rw [fails_bind_iff]
  refine or_congr Iff.rfl ⟨?_, ?_⟩
  · rintro ⟨a, s', run, hf⟩
    cases hs.eq_of_ok run
    exact ⟨a, run, hf⟩
  · rintro ⟨a, run, hf⟩
    exact ⟨a, s, run, hf⟩

theorem fails_mapM_iff (hs : ∀ a, Still (f a)) (xs : List α) :
    Fails (xs.mapM f) s ↔ ∃ a ∈ xs, Fails (f a) s := by
  induction xs with
  | nil =>
    simp [not_fails_pure]
  | cons a xs ih =>
    rw [mapM_cons]
    simp only [mem_cons, exists_eq_or_imp]
    refine fails_bind_iff_or fun b s' run => ?_
    cases (hs a).eq_of_ok run
    rw [fails_bind_iff_left fun _ _ _ => not_fails_pure _ _, ih]

/-! ## What programs fail with -/

variable {P : ε → Prop}

def FailsOnly (P : ε → Prop) (x : EStateM ε σ α) : Prop :=
  ∀ s e s', x s = .error e s' → P e

theorem FailsOnly.of_exists_ok (h : ∀ s, ∃ a s', x s = .ok a s') : FailsOnly P x := by
  intro s e s' hf
  obtain ⟨a, s'', ran⟩ := h s
  cases ran.symm.trans hf

theorem failsOnly_pure (a : α) : FailsOnly P (pure a : EStateM ε σ α) := .of_exists_ok fun s => ⟨a, s, rfl⟩

theorem failsOnly_get : FailsOnly P (get : EStateM ε σ σ) := .of_exists_ok fun s => ⟨s, s, rfl⟩

theorem failsOnly_modify (f : σ → σ) : FailsOnly P (modify f : EStateM ε σ Unit) :=
  .of_exists_ok fun s => ⟨(), f s, rfl⟩

theorem failsOnly_throw (h : P e) : FailsOnly P (throw e : EStateM ε σ α) := by
  intro s e' s' hf
  cases hf
  exact h

theorem FailsOnly.bind (hx : FailsOnly P x) (hf : ∀ a s s', x s = .ok a s' → FailsOnly P (f a)) :
    FailsOnly P (x >>= f) := by
  intro s e s' hfa
  rcases bind_eq_error hfa with first | ⟨a, s'', ran, hs⟩
  · exact hx s e s' first
  · exact hf a s s'' ran s'' e s' hs

/-! ## Loops that stop -/

/-- A loop stops in its first good round, or in the last one that it may make. -/
structure StopsAt (good : Nat → Prop) (most k : Nat) : Prop where
  le : k ≤ most
  before : ∀ i < k, ¬ good i
  last : good k ∨ k = most

theorem exists_stopsAt (good : Nat → Prop) (most : Nat) : ∃ k, StopsAt good most k := by
  induction most with
  | zero => exact ⟨0, le_refl 0, fun i he => absurd he (not_lt_zero i), .inr rfl⟩
  | succ n ih =>
    obtain ⟨k, le, hb, hl⟩ := ih
    by_cases hf : good k
    · exact ⟨k, by omega, hb, .inl hf⟩
    · obtain rfl : k = n := hl.resolve_left hf
      refine ⟨k + 1, le_refl _, fun i he => ?_, .inr rfl⟩
      rcases Nat.lt_succ_iff_lt_or_eq.1 he with hs | rfl
      · exact hb i hs
      · exact hf

theorem StopsAt.tail {good : Nat → Prop} {most k : Nat} (h : StopsAt good (most + 1) (k + 1)) :
    StopsAt (fun i => good (i + 1)) most k where
  le := le_of_succ_le_succ h.le
  before i he := h.before (i + 1) (succ_lt_succ he)
  last := h.last.imp id succ.inj

end Appwright

namespace Appwright

/-! ## Two runs of one program

`Respects Q x` says that from states that `Q` relates, two runs of `x` end alike: with the same value
or with the same failure, and in states that `Q` relates.
-/

variable {ε σ α β : Type} {Q : σ → σ → Prop}

/-- Two runs that end alike. -/
inductive Matches (Q : σ → σ → Prop) : EStateM.Result ε σ α → EStateM.Result ε σ α → Prop
  | ok (a : α) {s t : σ} (h : Q s t) : Matches Q (.ok a s) (.ok a t)
  | error (e : ε) {s t : σ} (h : Q s t) : Matches Q (.error e s) (.error e t)

/-- From related states a program runs alike. -/
def Respects (Q : σ → σ → Prop) (x : EStateM ε σ α) : Prop :=
  ∀ s t, Q s t → Matches Q (x s) (x t)

theorem respects_pure (a : α) : Respects Q (pure a : EStateM ε σ α) := fun _ _ h => .ok a h

theorem respects_throw (e : ε) : Respects Q (throw e : EStateM ε σ α) := fun _ _ h => .error e h

theorem respects_modify {f : σ → σ} (h : ∀ s t, Q s t → Q (f s) (f t)) :
    Respects Q (modify f : EStateM ε σ Unit) :=
  fun s t hr => .ok () (h s t hr)

variable {f : α → EStateM ε σ β}

variable {x : EStateM ε σ α}

/-- Two programs one after the other. The second has to run alike only for what the first gives. -/
theorem Respects.bind_of_ok (hx : Respects Q x)
    (hf : ∀ a s s', x s = .ok a s' → Respects Q (f a)) : Respects Q (x >>= f) := by
  intro s t hr
  show Matches Q (EStateM.bind x f s) (EStateM.bind x f t)
  unfold EStateM.bind
  have first := hx s t hr
  generalize hg : x s = r at first ⊢
  generalize x t = r' at first ⊢
  cases first with
  | ok a h => exact hf a s _ hg _ _ h
  | error e h => exact .error e h

theorem Respects.bind (hx : Respects Q x) (hf : ∀ a, Respects Q (f a)) :
    Respects Q (x >>= f) :=
  hx.bind_of_ok fun a _ _ _ => hf a

/-- What a program reads of its state has to be the same in related states. -/
theorem respects_get_bind {f : σ → EStateM ε σ α}
    (h : ∀ s t, Q s t → f s = f t ∧ Respects Q (f s)) : Respects Q (get >>= f) := by
  intro s t hr
  rw [get_bind, get_bind, ← (h s t hr).1]
  exact (h s t hr).2 s t hr

end Appwright
