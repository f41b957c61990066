/-!
# Totals

The total of a quantity over the items of a list, and how it changes when the list does.  Loops that
work off a list end because such a total gets smaller.
-/

set_option autoImplicit false

namespace EventFlow

variable {α : Type} (f : α → Nat)

/-- The sum of a quantity over a list. -/
def total : List α → Nat
  | [] => 0
  | a :: l => f a + total l

@[simp] theorem total_nil : total f [] = 0 := rfl

@[simp] theorem total_cons (a : α) (l : List α) : total f (a :: l) = f a + total f l := rfl

@[simp] theorem total_append : ∀ l l' : List α, total f (l ++ l') = total f l + total f l'
  | [], l' => (Nat.zero_add _).symm
  | a :: l, l' => by
    simp only [List.cons_append, total_cons, total_append l l']
    omega

theorem total_congr {g : α → Nat} : ∀ {l : List α}, (∀ a ∈ l, f a = g a) → total f l = total g l
  | [], _ => rfl
  | a :: l, h => by
    have := total_congr (l := l) fun b hb => h b (List.mem_cons_of_mem a hb)
    simp only [total_cons, h a List.mem_cons_self, this]

theorem total_map {β : Type} (g : β → α) : ∀ l : List β, total f (l.map g) = total (f ∘ g) l
  | [] => rfl
  | b :: l => by simp only [List.map_cons, total_cons, total_map g l, Function.comp_apply]

theorem total_set {a : α} (b : α) : ∀ {l : List α} {k : Nat}, l[k]? = some a →
    total f (l.set k b) + f a = total f l + f b
  | [], _, h => by simp at h
  | x :: l, 0, h => by
    have hx : x = a := by simpa using h
    subst hx
    simp only [List.set_cons_zero, total_cons]
    omega
  | x :: l, k + 1, h => by
    have := total_set b (l := l) (k := k) (by simpa using h)
    simp only [List.set_cons_succ, total_cons]
    omega

theorem le_total_of_mem {a : α} : ∀ {l : List α}, a ∈ l → f a ≤ total f l
  | x :: l, h => by
    simp only [total_cons]
    rcases List.mem_cons.1 h with rfl | h
    · omega
    · have := le_total_of_mem h
      omega

theorem total_map_le {g : α → α} (h : ∀ a, f (g a) ≤ f a) :
    ∀ l : List α, total f (l.map g) ≤ total f l
  | [] => Nat.le_refl _
  | a :: l => by
    have := total_map_le h l
    have := h a
    simp only [List.map_cons, total_cons]
    omega

theorem total_filter_le (p : α → Bool) : ∀ l : List α, total f (l.filter p) ≤ total f l
  | [] => Nat.le_refl _
  | a :: l => by
    have := total_filter_le p l
    rw [List.filter_cons]
    split <;> simp only [total_cons] <;> omega

theorem total_filter_add_le {a : α} (p : α → Bool) (hp : p a = false) :
    ∀ {l : List α} {k : Nat}, l[k]? = some a → total f (l.filter p) + f a ≤ total f l
  | [], _, h => by simp at h
  | x :: l, 0, h => by
    have hx : x = a := by simpa using h
    subst hx
    have := total_filter_le f p l
    rw [List.filter_cons, if_neg (by simp [hp]), total_cons]
    omega
  | x :: l, k + 1, h => by
    have := total_filter_add_le p hp (l := l) (k := k) (by simpa using h)
    rw [List.filter_cons]
    split <;> simp only [total_cons] <;> omega

omit f in
theorem total_lt {f g : α → Nat} {a : α} (ha : f a < g a) :
    ∀ {l : List α}, (∀ b ∈ l, f b ≤ g b) → a ∈ l → total f l < total g l
  | x :: l, hle, h => by
    have hx := hle x List.mem_cons_self
    have hl : ∀ b ∈ l, f b ≤ g b := fun b hb => hle b (List.mem_cons_of_mem x hb)
    have hrest : total f l ≤ total g l := by
      clear h hle
      induction l with
      | nil => exact Nat.le_refl _
      | cons y l ih =>
        have := hl y List.mem_cons_self
        have := ih fun b hb => hl b (List.mem_cons_of_mem y hb)
        simp only [total_cons]
        omega
    simp only [total_cons]
    rcases List.mem_cons.1 h with rfl | h
    · omega
    · have := total_lt ha hl h
      omega

end EventFlow
