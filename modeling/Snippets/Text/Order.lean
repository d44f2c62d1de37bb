/-
# Snippets.Text.Order — dictionary order

Two lists whose elements are ranked by numbers are compared at the first place where they differ;
a list comes before every longer list that continues it. Texts are ranked by code points and byte
strings by the values of their bytes. When different elements have different ranks the order is
strict and total.
-/
import Snippets.Text.Basic

namespace Snippets

/-- Whether the first list comes strictly before the second in dictionary order. -/
def precedes {α : Type} (rank : α → Nat) : List α → List α → Bool
  | _, [] => false
  | [], _ :: _ => true
  | a :: s, b :: t => rank a < rank b || (rank a == rank b && precedes rank s t)

/-- Whether a text comes strictly before another by code points. -/
def Text.before (s t : Text) : Bool := precedes Char.toNat s t

/-- Whether a byte string comes strictly before another by the values of the bytes. -/
def Bytes.before (s t : Bytes) : Bool := precedes UInt8.toNat s t

/-! ## The order is strict and total -/

section Laws

variable {α : Type} {rank : α → Nat}

theorem precedes_cons_iff {a b : α} {s t : List α} :
    precedes rank (a :: s) (b :: t) = true ↔
      rank a < rank b ∨ rank a = rank b ∧ precedes rank s t = true := by
  simp [precedes]

@[simp] theorem precedes_self (s : List α) : precedes rank s s = false := by
  induction s with
  | nil => rfl
  | cons a s ih => simp [precedes, ih]

theorem precedes_trans {s t u : List α} (hst : precedes rank s t = true)
    (htu : precedes rank t u = true) : precedes rank s u = true := by
  induction s generalizing t u with
  | nil =>
    cases u with
    | nil => simp [precedes] at htu
    | cons c u => rfl
  | cons a s ih =>
    cases t with
    | nil => simp [precedes] at hst
    | cons b t =>
      cases u with
      | nil => simp [precedes] at htu
      | cons c u =>
        rw [precedes_cons_iff] at hst htu ⊢
        rcases hst with hab | ⟨hab, hst⟩
        · left
          rcases htu with hbc | ⟨hbc, -⟩ <;> omega
        · rcases htu with hbc | ⟨hbc, htu⟩
          · left
            omega
          · exact .inr ⟨by omega, ih hst htu⟩

theorem precedes_total (hrank : ∀ a b, rank a = rank b → a = b) {s t : List α} (hne : s ≠ t) :
    precedes rank s t = true ∨ precedes rank t s = true := by
  induction s generalizing t with
  | nil =>
    cases t with
    | nil => exact absurd rfl hne
    | cons b t => exact .inl rfl
  | cons a s ih =>
    cases t with
    | nil => exact .inr rfl
    | cons b t =>
      rw [precedes_cons_iff, precedes_cons_iff]
      rcases Nat.lt_trichotomy (rank a) (rank b) with h | h | h
      · exact .inl (.inl h)
      · obtain rfl := hrank a b h
        have hst : s ≠ t := fun e => hne (by rw [e])
        exact (ih hst).imp (fun p => .inr ⟨rfl, p⟩) (fun p => .inr ⟨rfl, p⟩)
      · exact .inr (.inl h)

end Laws

@[simp] theorem Text.before_self (s : Text) : Text.before s s = false := precedes_self s

theorem Text.before_trans {s t u : Text} (hst : Text.before s t = true)
    (htu : Text.before t u = true) : Text.before s u = true := precedes_trans hst htu

theorem Text.ne_of_before {s t : Text} (h : Text.before s t = true) : s ≠ t := by
  rintro rfl
  rw [Text.before_self] at h
  exact Bool.false_ne_true h

theorem Text.before_total {s t : Text} (h : s ≠ t) :
    Text.before s t = true ∨ Text.before t s = true :=
  precedes_total (fun _ _ => Char.toNat_inj.mp) h

@[simp] theorem Bytes.before_self (s : Bytes) : Bytes.before s s = false := precedes_self s

theorem Bytes.before_trans {s t u : Bytes} (hst : Bytes.before s t = true)
    (htu : Bytes.before t u = true) : Bytes.before s u = true := precedes_trans hst htu

theorem Bytes.before_total {s t : Bytes} (h : s ≠ t) :
    Bytes.before s t = true ∨ Bytes.before t s = true :=
  precedes_total (fun _ _ => UInt8.toNat_inj.mp) h

end Snippets
