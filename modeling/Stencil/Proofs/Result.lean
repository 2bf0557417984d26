import Stencil.Error

/-! # Sequencing operations that can fail

How the answer of a sequence of operations splits into the answers of its parts. Every proof that
takes a reading, evaluating or rendering function apart does so with these lemmas.
-/

namespace Stencil.Result

variable {ε α β : Type}

instance [DecidableEq ε] [DecidableEq α] : DecidableEq (Except ε α)
  | .ok first, .ok second => decidable_of_iff (first = second) (by simp)
  | .error first, .error second => decidable_of_iff (first = second) (by simp)
  | .ok _, .error _ => .isFalse nofun
  | .error _, .ok _ => .isFalse nofun

/-- Whether an operation fails with a given failure, whatever its values are. -/
instance decidableEqError [DecidableEq ε] (e : ε) : (x : Except ε α) → Decidable (x = .error e)
  | .ok _ => .isFalse nofun
  | .error first => decidable_of_iff (first = e) (by simp)

@[simp] theorem ok_bind (a : α) (f : α → Except ε β) : (Except.ok a >>= f) = f a := rfl

@[simp] theorem error_bind (e : ε) (f : α → Except ε β) :
    ((Except.error e : Except ε α) >>= f) = .error e := rfl

theorem bind_eq_ok {x : Except ε α} {f : α → Except ε β} {b : β} :
    x >>= f = .ok b ↔ ∃ a, x = .ok a ∧ f a = .ok b := by
  cases x with
  | ok a => simp
  | error e => simp

theorem bind_eq_error {x : Except ε α} {f : α → Except ε β} {e : ε} :
    x >>= f = .error e ↔ x = .error e ∨ ∃ a, x = .ok a ∧ f a = .error e := by
  cases x with
  | ok a => simp
  | error e => simp

/-- Only the answers that the first operation can give matter for what follows it. -/
theorem bind_congr_of_ok {x : Except ε α} {f g : α → Except ε β}
    (same : ∀ a, x = .ok a → f a = g a) : x >>= f = x >>= g := by
  cases x with
  | ok a => exact same a rfl
  | error e => rfl

theorem mapM_congr_of_mem {f g : α → Except ε β} {items : List α}
    (same : ∀ item ∈ items, f item = g item) : items.mapM f = items.mapM g := by
  induction items with
  | nil => rfl
  | cons item rest ih =>
    rw [List.mapM_cons, List.mapM_cons, same item (List.mem_cons_self ..),
      ih fun other member => same other (List.mem_cons_of_mem _ member)]

theorem mapM_cons_eq_ok {f : α → Except ε β} {item : α} {rest : List α} {answers : List β} :
    (item :: rest).mapM f = .ok answers ↔
      ∃ first others, f item = .ok first ∧ rest.mapM f = .ok others ∧
        answers = first :: others := by
  rw [List.mapM_cons]
  constructor
  · intro computed
    obtain ⟨first, firstComputed, computed⟩ := bind_eq_ok.mp computed
    obtain ⟨others, othersComputed, same⟩ := bind_eq_ok.mp computed
    cases same
    exact ⟨first, others, firstComputed, othersComputed, rfl⟩
  · rintro ⟨first, others, firstComputed, othersComputed, rfl⟩
    rw [firstComputed, othersComputed]
    rfl

theorem eq_nil_of_mapM_eq_ok {f : α → Except ε β} {items : List α}
    (computed : items.mapM f = .ok []) : items = [] := by
  cases items with
  | nil => rfl
  | cons item rest =>
    obtain ⟨_, _, -, -, impossible⟩ := mapM_cons_eq_ok.mp computed
    cases impossible

theorem exists_of_mapM_eq_ok {f : α → Except ε β} {items : List α} {answers : List β}
    (computed : items.mapM f = .ok answers) {item : α} (member : item ∈ items) :
    ∃ answer, f item = .ok answer := by
  induction items generalizing answers with
  | nil => cases member
  | cons head rest ih =>
    obtain ⟨first, others, firstComputed, othersComputed, -⟩ := mapM_cons_eq_ok.mp computed
    rcases List.mem_cons.mp member with rfl | member
    · exact ⟨first, firstComputed⟩
    · exact ih othersComputed member

theorem exists_of_mem_of_mapM_eq_ok {f : α → Except ε β} {items : List α} {answers : List β}
    (computed : items.mapM f = .ok answers) {answer : β} (member : answer ∈ answers) :
    ∃ item ∈ items, f item = .ok answer := by
  induction items generalizing answers with
  | nil =>
    cases computed
    cases member
  | cons head rest ih =>
    obtain ⟨first, others, firstComputed, othersComputed, rfl⟩ := mapM_cons_eq_ok.mp computed
    rcases List.mem_cons.mp member with rfl | member
    · exact ⟨head, List.mem_cons_self, firstComputed⟩
    · obtain ⟨item, listed, same⟩ := ih othersComputed member
      exact ⟨item, List.mem_cons_of_mem _ listed, same⟩

theorem exists_of_mapM_eq_error {f : α → Except ε β} {items : List α} {e : ε}
    (failed : items.mapM f = .error e) : ∃ item ∈ items, f item = .error e := by
  induction items with
  | nil => cases failed
  | cons head rest ih =>
    rw [List.mapM_cons] at failed
    rcases bind_eq_error.mp failed with first | ⟨_, -, failed⟩
    · exact ⟨head, List.mem_cons_self .., first⟩
    · rcases bind_eq_error.mp failed with later | ⟨_, -, impossible⟩
      · obtain ⟨item, member, answer⟩ := ih later
        exact ⟨item, List.mem_cons_of_mem _ member, answer⟩
      · cases impossible

/-- The value of an operation has one property, and its failure another one. -/
def Satisfies (value : α → Prop) (failure : ε → Prop) : Except ε α → Prop
  | .ok a => value a
  | .error e => failure e

section Satisfies

variable {value : α → Prop} {failure : ε → Prop} {x : Except ε α}

theorem satisfies_iff : Satisfies value failure x ↔
    (∀ a, x = .ok a → value a) ∧ ∀ e, x = .error e → failure e := by
  cases x <;> simp [Satisfies]

theorem Satisfies.of_ok (satisfies : Satisfies value failure x) {a : α} (isOk : x = .ok a) :
    value a :=
  (satisfies_iff.mp satisfies).1 a isOk

theorem Satisfies.of_error (satisfies : Satisfies value failure x) {e : ε}
    (isError : x = .error e) : failure e :=
  (satisfies_iff.mp satisfies).2 e isError

theorem Satisfies.bind {f : α → Except ε β} {later : β → Prop}
    (first : Satisfies value failure x) (rest : ∀ a, value a → Satisfies later failure (f a)) :
    Satisfies later failure (x >>= f) := by
  cases x with
  | ok a => exact rest a first
  | error e => exact first

end Satisfies

/-- Every failure of an operation has a property. -/
abbrev FailsWith (failure : ε → Prop) (x : Except ε α) : Prop :=
  Satisfies (fun _ => True) failure x

namespace FailsWith

variable {failure : ε → Prop}

theorem bind {x : Except ε α} {f : α → Except ε β} (first : FailsWith failure x)
    (rest : ∀ a, FailsWith failure (f a)) : FailsWith failure (x >>= f) :=
  Satisfies.bind first fun a _ => rest a

theorem map {x : Except ε α} (fails : FailsWith failure x) (f : α → β) :
    FailsWith failure (x.map f) := by
  cases x with
  | ok a => trivial
  | error e => exact fails

theorem mono {x : Except ε α} {weaker : ε → Prop} (fails : FailsWith failure x)
    (implies : ∀ e, failure e → weaker e) : FailsWith weaker x :=
  satisfies_iff.mpr ⟨fun _ _ => trivial, fun e isError => implies e (fails.of_error isError)⟩

theorem mapM {f : α → Except ε β} {items : List α}
    (each : ∀ item ∈ items, FailsWith failure (f item)) : FailsWith failure (items.mapM f) := by
  refine satisfies_iff.mpr ⟨fun _ _ => trivial, fun e isError => ?_⟩
  obtain ⟨item, member, same⟩ := exists_of_mapM_eq_error isError
  exact (each item member).of_error same

theorem foldlM {f : β → α → Except ε β} {items : List α} {state : β}
    (each : ∀ state, ∀ item ∈ items, FailsWith failure (f state item)) :
    FailsWith failure (items.foldlM f state) := by
  induction items generalizing state with
  | nil => trivial
  | cons item rest ih =>
    rw [List.foldlM_cons]
    exact (each state item List.mem_cons_self).bind fun next =>
      ih fun state other member => each state other (List.mem_cons_of_mem item member)

end FailsWith

/-- Two answers that both fail, or whose values have the same image. -/
def Alike {γ : Type} (image : α → γ) (x y : Except ε α) : Prop :=
  x.toOption.map image = y.toOption.map image

namespace Alike

variable {γ δ : Type} {image : α → γ} {other : β → δ} {x y : Except ε α}

theorem ok {a b : α} (same : image a = image b) :
    Alike image (.ok a : Except ε α) (.ok b) :=
  congrArg some same

theorem bind {f g : α → Except ε β} (first : Alike image x y)
    (rest : ∀ a b, image a = image b → Alike other (f a) (g b)) :
    Alike other (x >>= f) (y >>= g) := by
  cases x with
  | ok a =>
    cases y with
    | ok b => exact rest a b (Option.some.inj first)
    | error e => cases first
  | error e =>
    cases y with
    | ok b => cases first
    | error e' => rfl

end Alike

end Stencil.Result
