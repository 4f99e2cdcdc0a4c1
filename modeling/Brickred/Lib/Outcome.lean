import Mathlib.Data.List.Basic

/-!
# Outcomes of computations that can fail

`Ensures allowed post` is the postcondition of a computation in `Except`: it ends
in a result that satisfies `post`, or fails with an error that is allowed. The
rules follow the structure of the computation.
-/

namespace Outcome

variable {ε α β : Type} {allowed allowed' : ε → Prop} {post post' : α → Prop} {a : α} {e : ε}

@[simp] theorem ok_bind (a : α) (f : α → Except ε β) : (Except.ok a >>= f) = f a := rfl

@[simp] theorem error_bind (e : ε) (f : α → Except ε β) :
    ((Except.error e : Except ε α) >>= f) = .error e := rfl

def Ensures (allowed : ε → Prop) (post : α → Prop) : Except ε α → Prop
  | .ok a => post a
  | .error e => allowed e

theorem ensures_ok : Ensures allowed post (.ok a) ↔ post a := Iff.rfl

theorem Ensures.ok (h : post a) : Ensures allowed post (.ok a) := h

theorem Ensures.error (h : allowed e) : Ensures allowed post (.error e) := h

theorem Ensures.bind {post : β → Prop} {mid : α → Prop} {x : Except ε α} {f : α → Except ε β}
    (hx : Ensures allowed mid x) (hf : ∀ a, mid a → Ensures allowed post (f a)) :
    Ensures allowed post (x >>= f) := by
  cases x with
  | error e => exact hx
  | ok a => exact hf a hx

/-- A first step of which nothing needs to be known. -/
theorem Ensures.bind_of_forall {post : β → Prop} {x : Except ε α} {f : α → Except ε β}
    (hf : ∀ a, Ensures (fun _ => True) post (f a)) : Ensures (fun _ => True) post (x >>= f) := by
  cases x with
  | error e => trivial
  | ok a => exact hf a

theorem Ensures.mapM {f : α → Except ε β} {post : β → Prop} {as : List α}
    (h : ∀ a ∈ as, Ensures allowed post (f a)) :
    Ensures allowed (fun bs => ∀ b ∈ bs, post b) (as.mapM f) := by
  induction as with
  | nil => exact .ok fun b hb => by cases hb
  | cons a as ih =>
    rw [List.mapM_cons]
    refine (h a (List.mem_cons_self ..)).bind fun b hb => ?_
    refine (ih fun a' ha' => h a' (List.mem_cons_of_mem _ ha')).bind fun bs hbs => ?_
    exact .ok (List.forall_mem_cons.mpr ⟨hb, hbs⟩)

theorem Ensures.mono {x : Except ε α} (hx : Ensures allowed post x)
    (hpost : ∀ a, post a → post' a) (hallowed : ∀ e, allowed e → allowed' e) :
    Ensures allowed' post' x := by
  cases x with
  | error e => exact hallowed e hx
  | ok a => exact hpost a hx

theorem Ensures.and {x : Except ε α} (hx : Ensures allowed post x) (hx' : Ensures allowed' post' x) :
    Ensures allowed (fun a => post a ∧ post' a) x := by
  cases x with
  | error e => exact hx
  | ok a => exact ⟨hx, hx'⟩

/-- Two computations one after the other end in a result where both do. -/
theorem exists_of_bind {x : Except ε α} {f : α → Except ε β} {b : β} (h : (x >>= f) = .ok b) :
    ∃ a, x = .ok a ∧ f a = .ok b := by
  cases x with
  | error e => cases h
  | ok a => exact ⟨a, rfl, h⟩

/-- A test of the result that succeeds. -/
theorem exists_of_any {x : Except ε α} {f : α → Bool} (h : x.toOption.any f = true) :
    ∃ a, x = .ok a ∧ f a = true := by
  cases x with
  | error e => cases h
  | ok a => exact ⟨a, rfl, h⟩

/-- What a computation that ended in a result ensures. -/
theorem Ensures.of_ok {x : Except ε α} (hx : Ensures allowed post x) (h : x = .ok a) : post a := by
  rw [h] at hx
  exact hx

theorem Ensures.of_error {x : Except ε α} (hx : Ensures allowed post x) (h : x = .error e) :
    allowed e := by
  rw [h] at hx
  exact hx

end Outcome
