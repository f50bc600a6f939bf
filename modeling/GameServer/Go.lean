import Mathlib.Algebra.Order.Ring.Int
import Mathlib.Data.List.Basic

/-!
# Go errors and strings

Errors are compared the way `errors.Is` does, along the chain of `%w` wraps.
Two sentinels made by `errors.New` are told apart by their texts, which are
distinct throughout; `driver` is whatever a database driver or the network
reports, and equals no sentinel.
-/

namespace GameServer

inductive GoErr
  | new (text : String)
  | driver (text : String)
  | wrap (text : String) (inner : GoErr)
  deriving DecidableEq, Repr, Inhabited

namespace GoErr

def is : GoErr → GoErr → Bool
  | .wrap text inner, target => .wrap text inner == target || inner.is target
  | e, target => e == target

def text : GoErr → String
  | .new t => t
  | .driver t => t
  | .wrap t inner => t ++ ": " ++ inner.text

@[simp] theorem is_new (s t : String) : (new s).is (.new t) = decide (s = t) := by
  by_cases h : s = t <;> simp [is, h]

end GoErr

theorem bind_eq_error {ε α β : Type} {x : Except ε α} {f : α → Except ε β} {err : ε} (h : (x >>= f) = .error err) :
    x = .error err ∨ ∃ a, x = .ok a ∧ f a = .error err := by
  cases x with
  | error e => cases h; exact .inl rfl
  | ok a => exact .inr ⟨a, rfl, h⟩

theorem bind_eq_ok {ε α β : Type} {x : Except ε α} {f : α → Except ε β} {b : β} (h : (x >>= f) = .ok b) :
    ∃ a, x = .ok a ∧ f a = .ok b := by
  cases x with
  | error e => cases h
  | ok a => exact ⟨a, rfl, h⟩

/-- Instants, in nanoseconds; `0` is Go's zero time. -/
abbrev Time := Nat

def isSpace (c : Char) : Bool :=
  let n := c.toNat
  (9 ≤ n && n ≤ 13) || n == 0x20 || n == 0x85 || n == 0xA0 || n == 0x1680 || (0x2000 ≤ n && n ≤ 0x200A) ||
    n == 0x2028 || n == 0x2029 || n == 0x202F || n == 0x205F || n == 0x3000

def trimSpace (s : String) : String :=
  String.ofList ((s.toList.dropWhile isSpace).reverse.dropWhile isSpace).reverse

theorem append_sep_inj {α : Type} {sep : α} : ∀ {l l' r r' : List α}, sep ∉ l → sep ∉ l' →
    l ++ sep :: r = l' ++ sep :: r' → l = l' ∧ r = r'
  | [], [], _, _, _, _, h => ⟨rfl, (List.cons.inj h).2⟩
  | [], _ :: _, _, _, _, h', h => absurd (List.cons.inj h).1 (List.ne_of_not_mem_cons h')
  | _ :: _, [], _, _, hl, _, h => absurd (List.cons.inj h).1.symm (List.ne_of_not_mem_cons hl)
  | a :: l, b :: l', _, _, hl, hl', h => by
    obtain ⟨rfl, htail⟩ := List.cons.inj h
    obtain ⟨rfl, hr⟩ := append_sep_inj (List.not_mem_of_not_mem_cons hl) (List.not_mem_of_not_mem_cons hl') htail
    exact ⟨rfl, hr⟩

/-! ## Numbers in decimal -/

theorem isDigit_of_mem_repr {n : Nat} {x : Char} (h : x ∈ n.repr.toList) : x.isDigit = true := by
  rw [Nat.repr_eq_ofList_toDigits, String.toList_ofList] at h
  exact Nat.isDigit_of_mem_toDigits (by decide) (by decide) h

theorem natRepr_inj {m n : Nat} (h : m.repr = n.repr) : m = n := by
  rw [Nat.repr_eq_ofList_toDigits, Nat.repr_eq_ofList_toDigits, String.ofList_inj] at h
  rw [← Nat.ofDigitChars_ten_toDigits (n := m), h, Nat.ofDigitChars_ten_toDigits]

end GameServer
